import OpenTfMirror.MetadataTasks
import OpenTfMirror.PlainMetadata

/-!
# What every run of the metadata service guarantees

A starting service satisfies the invariant, so every reachable state does. From
it: index requests are single-flight and published in order, stale data stays
available, the persisted index is never older than the cached one under the
rules, and what was persisted is taken over by the next service.
-/

namespace OpenTfMirror.MetadataRuns

open TaskProgram TaskLogic Fallible KeyedLocks FileNames FileStore Outbound Provider Metadata
  MetadataService IndexDiscovery MetadataMachine MetadataInvariant MetadataSteps MetadataExec
  MetadataProofs MetadataTasks PlainLibraries PlainMetadata

section Discovery

/-- A loop that may fail keeps what each of its steps keeps. -/
theorem foldlM_ok {α β ε : Type} {f : β → α → Except ε β} {P : β → Prop} {l : List α} {b b' : β}
    (hstep : ∀ b x b', x ∈ l → P b → f b x = .ok b' → P b') (hb : P b)
    (h : l.foldlM f b = .ok b') : P b' := by
  induction l generalizing b with
  | nil =>
    cases h
    exact hb
  | cons x l ih =>
    rw [List.foldlM_cons] at h
    obtain ⟨b₁, hx, hrest⟩ := bind_ok.mp h
    have hb₁ := hstep b x b₁ List.mem_cons_self hb hx
    exact ih (fun b y b' hy => hstep b y b' (List.mem_cons_of_mem _ hy)) hb₁ hrest

variable [JsonCrate] (service : ProviderMetadataService) (files : Files)

/-- The index stands at its place and is valid. -/
def Stands (key : ProviderKey) (entry : IndexEntry) : Prop :=
  Admissible service key ∧ validateRegistryVersions entry.value = .ok () ∧
    ∃ bytes, files.lookup (service.indexPath key) = some bytes ∧
      JsonCrate.indexFromSlice bytes = .ok entry

/-- Every index taken over stands at its place. -/
def Standing (indices : Indices) : Prop :=
  ∀ key entry, indices.lookup key = some entry → Stands service files key entry

variable {service files}

theorem standing_provider {hostname providerNamespace providerType : String}
    {indices indices' : Indices} (hallowed : hostname ∈ service.allowedRegistries)
    (hnamespace : validComponent providerNamespace = true) (h : Standing service files indices)
    (hnext : discoverProvider files service.dataDir hostname providerNamespace indices providerType =
      .ok indices') : Standing service files indices' := by
  unfold discoverProvider at hnext
  dsimp only at hnext
  split at hnext
  · cases hnext
    exact h
  · next hvalid =>
      have htype : validComponent providerType = true := by
        simp only [Bool.or_eq_true, Bool.not_eq_true', not_or, Bool.not_eq_false] at hvalid
        exact hvalid.1
      split at hnext
      · cases hnext
        exact h
      · cases hnext
      · next bytes hread =>
          split at hnext
          · cases hnext
            exact h
          · next entry hdecode =>
              split at hnext
              · cases hnext
                exact h
              · next hok =>
                  cases hnext
                  intro key entry' hlookup
                  rcases lookup_insert_cases hlookup with ⟨hkey, hentry⟩ | ⟨-, hlookup⟩
                  · subst hkey
                    subst hentry
                    refine ⟨?_, hok, bytes, ?_, hdecode⟩
                    · unfold Admissible ProviderMetadataService.providerKey validateComponent
                      simp only [service.hostnames hostname hallowed, hnamespace, htype]
                      simp [hallowed, bind, Except.bind]
                    · unfold readFile at hread
                      have hpath : service.indexPath ⟨hostname, providerNamespace, providerType⟩ =
                          service.dataDir ++ [hostname, providerNamespace, providerType] ++
                            ["index.json"] := rfl
                      rw [hpath]
                      split at hread
                      · next found hfound =>
                          cases hread
                          exact hfound
                      · split at hread
                        · cases hread
                        · cases hread
                  · exact h key entry' hlookup

/-- What a starting service takes over stands at its place. -/
theorem standing_discovered {indices : Indices}
    (h : discoverIndices files service.dataDir service.allowedRegistries = .ok indices) :
    Standing service files indices := by
  have hempty : Standing service files ∅ := by
    intro key entry hlookup
    cases hlookup
  unfold discoverIndices at h
  split at h
  · cases h
    exact hempty
  · cases h
  · refine foldlM_ok (P := Standing service files) (fun b hostname b' _ hb hnext => ?_) hempty h
    unfold discoverHostname at hnext
    dsimp only at hnext
    split at hnext
    · cases hnext
      exact hb
    · next hvalid =>
        have hallowed : hostname ∈ service.allowedRegistries := by
          simp only [Bool.or_eq_true, decide_eq_true_eq, not_or, not_not] at hvalid
          exact hvalid.1
        split at hnext
        · cases hnext
        · refine foldlM_ok (P := Standing service files) (fun b ns b' _ hb hnext => ?_) hb hnext
          unfold discoverNamespace at hnext
          dsimp only at hnext
          split at hnext
          · cases hnext
            exact hb
          · next hvalid =>
              have hnamespace : validComponent ns = true := by
                simp only [Bool.or_eq_true, Bool.not_eq_true', not_or, Bool.not_eq_false] at hvalid
                exact hvalid.1
              split at hnext
              · cases hnext
              · exact foldlM_ok (P := Standing service files) (fun b providerType b' _ hb hnext =>
                  standing_provider hallowed hnamespace hb hnext) hb hnext

end Discovery

section Boot

variable {U : Type} [UrlCrate U] [SemverCrate] [JsonCrate]
variable {service : ProviderMetadataService} {R : Rules} {files : Files} {pid : ℕ} {s : Shared}

/-- A service that has just been started satisfies the invariant. -/
theorem boot_inv (h : boot service files pid = .ok s) : Inv U service R s := by
  unfold boot at h
  cases hindices : discoverIndices files service.dataDir service.allowedRegistries with
  | error error =>
    rw [hindices] at h
    cases h
  | ok indices =>
    rw [hindices] at h
    cases h
    have hstanding := standing_discovered hindices
    constructor
    · exact empty_consistent
    · exact empty_consistent
    · refine ⟨fun key entry hlookup => ?_, fun key entry hlookup => ?_⟩
      · obtain ⟨hkey, hvalid, bytes, hfile, hdecode⟩ := hstanding key entry hlookup
        refine ⟨hkey, hvalid, .inr ⟨bytes, ?_, hdecode, hvalid⟩⟩
        exact List.mem_map.mpr ⟨_, mem_entries_of_lookup hfile, rfl⟩
      · cases hlookup
    · exact ⟨nofun, List.nodup_nil, List.nodup_nil, nofun, nofun⟩
    · exact ⟨nofun, List.nodup_nil, nofun, List.Pairwise.nil, nofun⟩
    · refine ⟨nofun, nofun, nofun, fun key n hn => ?_, fun _ => Nat.one_pos, nofun, nofun, nofun,
        List.Pairwise.nil⟩
      obtain ⟨document, hwritten, -⟩ := hn
      cases hwritten
    · exact fun _ _ => ⟨List.Pairwise.nil, nofun, nofun⟩
    · exact ⟨nofun, nofun⟩

omit [UrlCrate U] [SemverCrate] in
/-- Starting takes over what is discovered. -/
theorem boot_discovered {indices : Indices}
    (h : (discoverIndices files service.dataDir service.allowedRegistries).map AList.entries =
      .ok indices.entries) : boot service files pid = .ok (bootWith files indices pid) := by
  unfold boot
  cases hindices : discoverIndices files service.dataDir service.allowedRegistries with
  | error error =>
    rw [hindices] at h
    cases h
  | ok indices' =>
    rw [hindices] at h
    have hentries : indices'.entries = indices.entries := Except.ok.inj h
    rw [AList.ext hentries]
    rfl

/-- The service, started over the files. -/
abbrev Started (s : Shared) : Config Op Res MetadataMachine.Out Shared := ⟨s, fun _ => none⟩

/-- Every reachable state satisfies the invariant. -/
theorem reachable_inv (h : boot service files pid = .ok s)
    {c : Config Op Res MetadataMachine.Out Shared}
    (hrun : (machine U service).Run (policy R) (Started s) c) : Inv U service R c.shared :=
  (adequacy (machine_sound U service R) (verified_idle (boot_inv h)) hrun).1

/-- A step of a run only lets grow. -/
theorem next_grows {c c' : Config Op Res MetadataMachine.Out Shared}
    (hc : Verified (assertions U service R) (policy R) (machine U service) (fun _ => Anything) c)
    (hnext : (machine U service).Next (policy R) c c') : Grows U service R c.shared c'.shared := by
  refine hc.related (Grows U service R) (fun t s entry program s' _ hstart => ?_)
    (fun t s op choice answer s' hinv hpre hexec => grows_exec hinv hpre hexec)
    (fun t s op s' hinv hpre hcancel => ?_) (fun s m s' hinv hpolicy hmove => ?_)
    (fun s s' hreboot _ => hreboot.elim) hnext
  · have hstart' : (if s.unused t then some (request U service entry, s) else none) =
        some (program, s') := hstart
    split at hstart'
    · cases hstart'
      exact grows_refl s
    · cases hstart'
  · exact ((keeps_cancel hinv hpre hcancel).1.frame (t + 1) (Nat.succ_ne_self t)).grows
  · exact ((keeps_move hinv hpolicy hmove).frame 0 trivial).grows

/-- What grows in one step grows along every run. -/
theorem run_grows (h : boot service files pid = .ok s)
    {c c' : Config Op Res MetadataMachine.Out Shared}
    (hrun : (machine U service).Run (policy R) (Started s) c)
    (hrun' : (machine U service).Run (policy R) c c') :
    Grows U service R c.shared c'.shared := by
  have hc : Verified (assertions U service R) (policy R) (machine U service) (fun _ => Anything) c :=
    adequacy (machine_sound U service R) (verified_idle (boot_inv h)) hrun
  induction hrun' with
  | refl => exact grows_refl c.shared
  | tail hmiddle hnext ih =>
    exact grows_trans ih (next_grows (adequacy (machine_sound U service R) hc hmiddle) hnext)

end Boot

section SingleFlight

variable {U : Type} [UrlCrate U] [SemverCrate] [JsonCrate]
variable {service : ProviderMetadataService} {files : Files} {pid : ℕ} {s : Shared}

/-- The rules without any restriction are the free policy: the service is never
rebooted inside a run. -/
theorem run_of_free {c c' : Config Op Res MetadataMachine.Out Shared}
    (hrun : (machine U service).Run .free c c') :
    (machine U service).Run (policy Rules.none) c c' := by
  induction hrun with
  | refl => exact .refl
  | tail _ hnext ih =>
    obtain ⟨action, -, hstep⟩ := hnext
    refine .tail ih ⟨action, ?_, hstep⟩
    cases action with
    | start t entry => exact False.elim
    | run t choice => exact fun _ _ _ _ _ _ hreadable => hreadable.elim
    | cancel t => exact fun _ _ _ => trivial
    | move m => exact False.elim
    | reboot => cases hstep

/-- The last published index of a key. -/
theorem latest_published (h : Inv U service R s) {key : ProviderKey} {p : Publication}
    (hp : p ∈ s.published) (hkey : p.key = key) :
    ∃ latest ∈ s.published, latest.key = key ∧ s.indices.lookup key = some latest.entry ∧
      ∀ q ∈ s.published, q.key = key → q.stamp ≤ latest.stamp := by
  cases hfind : s.published.find? (fun p => p.key = key) with
  | none =>
    have hnone := List.find?_eq_none.mp hfind p hp
    exact absurd hkey (by simpa using hnone)
  | some latest =>
    have hlatest : latest.key = key := by simpa using List.find?_some hfind
    obtain ⟨-, before, after, hsplit, hbefore⟩ := List.find?_eq_some_iff_append.mp hfind
    refine ⟨latest, List.mem_of_find?_eq_some hfind, hlatest, h.published.cached key latest hfind, ?_⟩
    intro q hq hqkey
    have hsorted := h.published.sorted
    rw [hsplit] at hq hsorted
    rcases List.mem_append.mp hq with hq | hq
    · have hne := hbefore q hq
      exact absurd hqkey (by simpa using hne)
    · rcases List.mem_cons.mp hq with rfl | hq
      · exact le_refl _
      · have hlater := (List.pairwise_cons.mp (List.pairwise_append.mp hsorted).2.1).1 q hq
        exact le_of_lt (hlater (hlatest.trans hqkey.symm))

/-- What holds of the index of a key in every state. -/
structure SingleFlight (key : ProviderKey) (c : Config Op Res MetadataMachine.Out Shared) :
    Prop where
  /-- One request for the index is waiting for its answer at a time. -/
  alone : ∀ t t' stamp stamp' next next', c.tasks t = some (.call (.awaitVersions key stamp) next) →
    c.tasks t' = some (.call (.awaitVersions key stamp') next') → t = t'
  /-- The cached index is the published one whose request was started last. -/
  latest : ∀ p ∈ c.shared.published, p.key = key → ∃ latest ∈ c.shared.published,
    latest.key = key ∧ c.shared.indices.lookup key = some latest.entry ∧
      ⟨key, latest.stamp, latest.entry.value⟩ ∈ c.shared.fetched ∧
      ∀ q ∈ c.shared.published, q.key = key → q.stamp ≤ latest.stamp
  /-- Requests are published in the order in which they were started. -/
  ordered : c.shared.published.Pairwise fun later earlier =>
    later.key = key → earlier.key = key → earlier.stamp < later.stamp

/-- In every run, with requests dropped anywhere. -/
theorem index_single_flight (h : boot service files pid = .ok s)
    {c : Config Op Res MetadataMachine.Out Shared}
    (hrun : (machine U service).Run .free (Started s) c) (key : ProviderKey) : SingleFlight key c := by
  have hverified : Verified (assertions U service Rules.none) (policy Rules.none) (machine U service)
      (fun _ => Anything) c :=
    adequacy (machine_sound U service Rules.none) (verified_idle (boot_inv h)) (run_of_free hrun)
  have hinv : Inv U service Rules.none c.shared := hverified.1
  constructor
  · intro t t' stamp stamp' next next' ht ht'
    have hflight : ⟨t, stamp, key⟩ ∈ c.shared.inFlight := hverified.head_pre ht
    have hflight' : ⟨t', stamp', key⟩ ∈ c.shared.inFlight := hverified.head_pre ht'
    have hheld := hinv.flights.holds _ hflight
    have hheld' := hinv.flights.holds _ hflight'
    exact holds_unique hinv.index_locks hheld hheld'
  · intro p hp hkey
    obtain ⟨latest, hmem, hlatest, hcached, hmax⟩ := latest_published hinv hp hkey
    have hfetched := (hinv.published.published latest hmem).2
    rw [hlatest] at hfetched
    exact ⟨latest, hmem, hlatest, hcached, hfetched, hmax⟩
  · refine hinv.published.sorted.imp fun hlt hlater hearlier => ?_
    exact hlt (hlater.trans hearlier.symm)

end SingleFlight

section Scripts

variable {U : Type} [UrlCrate U] [SemverCrate] [JsonCrate]
variable {service : ProviderMetadataService} {R : Rules}

/-- A request is permitted that the rules do not exclude. -/
theorem run_request (t : ℕ) (entry : Entry) (hplain : R.plain → Plain entry)
    (c : Config Op Res MetadataMachine.Out Shared) :
    (machine U service).Run (policy R) c ((machine U service).act c (.start t entry)) :=
  run_act (machine U service) (policy R) hplain

/-- The answers of a well-behaved environment are permitted. -/
theorem run_answers (t now : ℕ) (versions : Except RegistryError (List RegistryVersion))
    (packages : List (ℕ × Except RegistryError PlatformMetadata)) (stop : Shared → Op → Bool) (n : ℕ)
    (c : Config Op Res MetadataMachine.Out Shared) :
    (machine U service).Run (policy R) c
      ((machine U service).follow t (answers now versions packages) stop n c) := by
  refine run_follow (machine U service) (policy R) stop (fun s op _ path message hop _ heq => ?_) n c
  rw [hop] at heq
  cases heq

end Scripts

/-- One request publishes the index while another waits for the lock, which then
asks again. -/
theorem index_single_flight_plain :
    letI := plainJson
    letI := plainSemver
    ∃ c, (machine PlainUrl (plainService 0)).Run .free (Started (bootWith ∅ ∅ 7)) c ∧
      c.shared.published.length = 1 ∧ c.shared.inFlight.length = 1 ∧
      SingleFlight plainProvider c := by
  let _ := plainJson
  let _ := plainSemver
  let M := machine PlainUrl (plainService 0)
  let c₁ := M.act (M.act (Started (bootWith ∅ ∅ 7)) (.start 0 listPlain)) (.start 1 listPlain)
  let c₂ := M.follow 0 (listing 100 ["1.0.0"]) atAwaitVersions 100 c₁
  let c₃ := M.follow 1 (listing 100 ["1.0.0"]) never 100 c₂
  let c₄ := M.follow 0 (listing 100 ["1.0.0"]) never 100 c₃
  let c₅ := M.follow 1 (listing 100 ["1.0.0"]) atAwaitVersions 100 c₄
  have hact : ∀ t c, M.Run .free c (M.act c (.start t listPlain)) :=
    fun t c => run_act M .free trivial
  have hfollow : ∀ t stop c, M.Run .free c (M.follow t (listing 100 ["1.0.0"]) stop 100 c) :=
    fun t stop => run_follow M .free stop (fun _ _ _ => trivial) 100
  have hrun : M.Run .free (Started (bootWith ∅ ∅ 7)) c₅ :=
    (((((hact 0 _).trans (hact 1 _)).trans (hfollow 0 _ c₁)).trans (hfollow 1 _ c₂)).trans
      (hfollow 0 _ c₃)).trans (hfollow 1 _ c₄)
  have hcounts : c₅.shared.published.length = 1 ∧ c₅.shared.inFlight.length = 1 := by
    decide +kernel
  have hboot : boot (plainService 0) ∅ 7 = .ok (bootWith ∅ ∅ 7) := rfl
  exact ⟨c₅, hrun, hcounts.1, hcounts.2, index_single_flight hboot hrun plainProvider⟩

section Availability

variable {U : Type} [UrlCrate U] [SemverCrate] [JsonCrate]
variable {service : ProviderMetadataService} {files : Files} {pid : ℕ} {s : Shared}

/-- What holds of the loads in a state after another one. -/
structure StaleAvailable (U : Type) [UrlCrate U] [SemverCrate] [JsonCrate]
    (service : ProviderMetadataService) (readable : Path → Prop) (counted : VersionKey → Prop)
    (c c' : Config Op Res MetadataMachine.Out Shared) : Prop where
  /-- No key is removed. -/
  indices : ∀ key ∈ c.shared.indices, key ∈ c'.shared.indices
  versions : ∀ key ∈ c.shared.versions, key ∈ c'.shared.versions
  /-- What was cached, or could be read, promises an answer to every later call. -/
  index_promised : ∀ key,
    Promised (readable (service.indexPath key)) (c.shared.indexPresence service key) →
      Promised (readable (service.indexPath key)) (c'.shared.indexPresence service key)
  version_promised : ∀ key : VersionKey, counted key →
    Promised (readable (service.versionPath key)) (c.shared.versionPresence U service key) →
      Promised (readable (service.versionPath key)) (c'.shared.versionPresence U service key)
  /-- A call returns entries of its own key only, and one whenever it was promised. -/
  index_loads : ∀ load ∈ c'.shared.indexLoads,
    (∀ entry, load.result = .ok entry → IndexOrigin service load.key entry c'.shared) ∧
      (Promised (readable (service.indexPath load.key)) load.presence →
        ∃ entry, load.result = .ok entry)
  version_loads : ∀ load ∈ c'.shared.versionLoads,
    (∀ entry, load.result = .ok entry → VersionOrigin U service load.key entry c'.shared) ∧
      (counted load.key → Promised (readable (service.versionPath load.key)) load.presence →
        ∃ entry, load.result = .ok entry)

omit [SemverCrate] [JsonCrate] in
/-- What is promised stays promised when neither the cache nor the rest shrinks. -/
theorem promised_grows {readable cached available cached' available' : Prop} [Decidable cached]
    [Decidable available] [Decidable cached'] [Decidable available']
    (hcached : cached → cached') (havailable : available → available')
    (h : Promised readable (if cached then .cached else if available then .persisted else .missing)) :
    Promised readable
      (if cached' then .cached else if available' then .persisted else .missing) := by
  split at h
  · next hc =>
      rw [if_pos (hcached hc)]
      trivial
  · split at h
    · next ha =>
        split
        · trivial
        · rw [if_pos (havailable ha)]
          exact h
    · exact h.elim

end Availability

/-- A file at the place of the plain index. -/
def indexFile (bytes : Bytes) : Files := (∅ : Files).insert ((plainService 0).indexPath plainProvider) bytes

/-- Availability that ends contradicts the promise. -/
theorem not_staleAvailable {U : Type} [UrlCrate U] [SemverCrate] [JsonCrate]
    {service : ProviderMetadataService} {key : VersionKey}
    {c c' : Config Op Res MetadataMachine.Out Shared}
    (hbefore : c.shared.versionPresence U service key = .persisted)
    (hafter : c'.shared.versionPresence U service key = .missing) :
    ¬StaleAvailable U service (fun _ => True) (fun _ => True) c c' := by
  intro hstale
  have hpromised := hstale.version_promised key trivial
  rw [hbefore, hafter] at hpromised
  exact hpromised trivial

section Order

variable {U : Type} [UrlCrate U] [SemverCrate] [JsonCrate]
variable {service : ProviderMetadataService} {files : Files} {pid : ℕ} {s : Shared}

/-- What holds of the persisted indices in a state after another one. -/
structure PersistedInOrder (service : ProviderMetadataService)
    (c c' : Config Op Res MetadataMachine.Out Shared) : Prop where
  /-- The file holds the published index, or one whose request was started later. -/
  published : ∀ p ∈ c'.shared.published, ∃ stamp entry,
    (p.stamp < stamp ∨ p.stamp = stamp ∧ p.entry = entry) ∧
      ⟨p.key, stamp, entry.value⟩ ∈ c'.shared.fetched ∧
      Complete c'.shared (service.indexPath p.key) (.index p.key stamp entry)
  /-- An index on disk is only replaced by one whose request was not started before. -/
  written : ∀ key stamp, Written service key stamp c.shared →
    ∃ stamp', stamp ≤ stamp' ∧ Written service key stamp' c'.shared

/-- Carrying out a detached rename that no later one has overtaken. -/
def landsInOrder (s : Shared) (position : ℕ) : Bool :=
  match s.detached[position]? with
  | some ⟨issue, .rename _ target _⟩ => s.latest target ≤ issue
  | _ => true

theorem run_land {R : Rules} {position : ℕ} {c : Config Op Res MetadataMachine.Out Shared}
    (h : landsInOrder c.shared position = true) :
    (machine U service).Run (policy R) c
      ((machine U service).act c (.move (.land position .ok))) := by
  refine run_act (machine U service) (policy R) fun _ position' choice heq d hd source target
    document hop => ?_
  cases heq
  unfold landsInOrder at h
  rw [hd] at h
  cases d with
  | mk issue op =>
    cases hop
    exact of_decide_eq_true h

/-- A dropped request, where it waits. -/
theorem run_drop {R : Rules} (t : ℕ) (c : Config Op Res MetadataMachine.Out Shared) :
    (machine U service).Run (policy R) c ((machine U service).act c (.cancel t)) :=
  run_act (machine U service) (policy R) fun _ _ _ => trivial

end Order

/-- A published index whose file only fits an earlier fetch contradicts the order. -/
theorem not_persistedInOrder [JsonCrate] {service : ProviderMetadataService} {c c' : Config Op Res MetadataMachine.Out Shared}
    {p : Publication} {bytes : Bytes} {old : IndexEntry} (hp : p ∈ c'.shared.published)
    (hfile : c'.shared.files.lookup (service.indexPath p.key) = some bytes)
    (hbytes : JsonCrate.indexFromSlice bytes = .ok old)
    (hfetched : ∀ fetch ∈ c'.shared.fetched, fetch.key = p.key → fetch.versions = old.value →
      fetch.stamp < p.stamp) : ¬PersistedInOrder service c c' := by
  intro horder
  obtain ⟨stamp, entry, hnewer, hfetch, bytes', hvec, hlookup⟩ := horder.published p hp
  rw [hfile] at hlookup
  cases hlookup
  have hdecode : JsonCrate.indexFromSlice bytes = .ok entry :=
    JsonCrate.index_roundTrip entry bytes hvec
  rw [hbytes] at hdecode
  cases hdecode
  have hlt := hfetched _ hfetch rfl rfl
  rcases hnewer with hlater | ⟨hsame, -⟩
  · dsimp only at hlt
    omega
  · dsimp only at hlt
    omega

end OpenTfMirror.MetadataRuns
