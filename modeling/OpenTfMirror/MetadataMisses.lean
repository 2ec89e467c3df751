import OpenTfMirror.MetadataRuns

/-!
# Requests for versions that the cached index lacks

No version is reported missing that the registry lists, as long as every request
whose index lacks its version still finds a forced refresh allowed. The state
plays no part in the argument, only the answers do: what a forced refresh
returns lists the version, and nothing else reports one missing.
-/

namespace OpenTfMirror.MetadataMisses

open TaskProgram TaskLogic Fallible KeyedLocks LockSections FileNames FileStore Outbound Provider
  Metadata MetadataService IndexDiscovery MetadataMachine MetadataInvariant MetadataRuns
  VersionMerge PlainLibraries PlainMetadata

/-- The index lists all of these versions. -/
def Lists (wanted : List String) (versions : List RegistryVersion) : Prop :=
  ∀ version ∈ wanted, ∃ item ∈ versions, normalizeVersion item.version = version

/-- The registry lists all the wanted versions of the provider whenever it is
asked, and gives every package. When `timely`, a request whose index lacks its
version finds that neither timer of the provider forbids a forced refresh. -/
def missPolicy (provider : ProviderKey) (wanted : List String) (timely : Prop) :
    Policy Op Shared Choice Entry Move where
  start _ _ _ := True
  run _ s op choice :=
    match op with
    | .awaitVersions key _ => key = provider →
        ∃ versions, choice = .versions (.ok versions) ∧ Lists wanted versions
    | .packages key _ => key.provider = provider →
        ∀ answers, choice = .packages answers → ∀ answer ∈ answers, ∃ package, answer.2 = .ok package
    | .refreshAllowed (.miss key) .missing => timely → key = provider →
        s.refreshAllowed (.miss key) = true
    | .refreshAllowed (.index key) .missing => timely → key = provider →
        s.refreshAllowed (.index key) = true
    | _ => True
  cancel _ _ _ := True
  move _ _ := True
  reboot := False

/-- Nothing is known of the state. -/
def stateless : Assertions Op Shared where
  inv _ := True
  frame _ _ _ := True
  pre _ _ _ := True
  frame_refl _ _ := trivial
  frame_trans _ _ _ _ _ _ := trivial

/-- Every run of the program of a task ends with such a result. -/
abbrev Ends (U : Type) [UrlCrate U] [SemverCrate] [JsonCrate] (service : ProviderMetadataService)
    (provider : ProviderKey) (wanted : List String) (t : ℕ) {α : Type} (program : Code α)
    (Q : α → Prop) : Prop :=
  ∀ s, wp stateless (missPolicy provider wanted True) (machine U service) t program
    (fun value _ => Q value) s

section Programs

variable {U : Type} [UrlCrate U] [SemverCrate] [JsonCrate]
variable {service : ProviderMetadataService} {provider : ProviderKey} {wanted : List String} {t : ℕ}

/-- Every program ends somehow. -/
theorem ends_any {α : Type} (program : Code α) :
    Ends U service provider wanted t program fun _ => True := by
  induction program with
  | done value => exact fun _ => trivial
  | call op next ih =>
    intro s s₁ _ _
    exact ⟨trivial, fun _ answer s₂ _ _ _ => ih answer s₂⟩

theorem ends_mono {α : Type} {program : Code α} {Q Q' : α → Prop}
    (h : Ends U service provider wanted t program Q) (himp : ∀ value, Q value → Q' value) :
    Ends U service provider wanted t program Q' :=
  fun s => wp_mono (h s) fun value _ => himp value

/-- A program, and what follows its result. -/
theorem ends_bind {α β : Type} {program : Code α} {next : α → Code β} {Q : α → Prop}
    {Q' : β → Prop} (h : Ends U service provider wanted t program Q)
    (hnext : ∀ value, Q value → Ends U service provider wanted t (next value) Q') :
    Ends U service provider wanted t (program >>= next) Q' := by
  intro s
  have hfirst := wp_mono (h s) fun value s' hvalue => hnext value hvalue s'
  exact (wp_bind t program next _ s).mpr hfirst

/-- A program whose result does not matter, and what follows it. -/
theorem ends_skip {α β : Type} {program : Code α} {next : α → Code β} {Q : β → Prop}
    (hnext : ∀ value, Ends U service provider wanted t (next value) Q) :
    Ends U service provider wanted t (program >>= next) Q :=
  ends_bind (ends_any program) fun value _ => hnext value

/-- The result is not that something is missing, and a value has the property. -/
def Present {α : Type} (Q : α → Prop) (result : Except MetadataError α) : Prop :=
  match result with
  | .ok value => Q value
  | .error error => error ≠ .notFound

/-- A step that may fail, and what follows its value. -/
theorem ends_try {α β : Type} {first : MetadataService.Task α} {next : α → MetadataService.Task β}
    {Q : α → Prop} {Q' : β → Prop} (h : Ends U service provider wanted t first.run (Present Q))
    (hnext : ∀ value, Q value → Ends U service provider wanted t (next value).run (Present Q')) :
    Ends U service provider wanted t (first >>= next).run (Present Q') := by
  intro s
  refine wp_bind_of (h s) (fun value s' hvalue => hnext value hvalue s') ?_
  exact fun error _ herror => herror

/-- A step that cannot fail, and what follows it. -/
theorem ends_lift {α β : Type} {program : Code α} {next : α → MetadataService.Task β}
    {Q : α → Prop} {Q' : β → Prop} (h : Ends U service provider wanted t program Q)
    (hnext : ∀ value, Q value → Ends U service provider wanted t (next value).run (Present Q')) :
    Ends U service provider wanted t (lift program >>= next).run (Present Q') :=
  fun s => wp_lift_bind (wp_mono (h s) fun value s' hvalue => hnext value hvalue s')

theorem ends_lift_skip {α β : Type} {program : Code α} {next : α → MetadataService.Task β}
    {Q : β → Prop}
    (hnext : ∀ value, Ends U service provider wanted t (next value).run (Present Q)) :
    Ends U service provider wanted t (lift program >>= next).run (Present Q) :=
  ends_lift (ends_any program) fun value _ => hnext value

/-- A section leaves the result of its body. -/
theorem ends_guarded {α K : Type} {embed : LockOp K → Code Unit} {key : K} {body : Code α}
    {Q : α → Prop} (h : Ends U service provider wanted t body Q) :
    Ends U service provider wanted t (guarded embed key body) Q := by
  unfold guarded
  refine ends_skip fun _ => ends_skip fun _ => ends_bind h fun value hvalue => ?_
  exact ends_skip fun _ => ends_skip fun _ => ends_skip fun _ _ => hvalue

/-- An I/O error is not a missing version. -/
theorem io_present {op : FileOp} :
    Ends U service provider wanted t (io op).run (Present fun _ => True) := by
  refine ends_skip fun answer => ?_
  cases answer with
  | ok bytes => exact fun _ => trivial
  | error error => exact fun _ => nofun

theorem ioOrRemove_present {temp : Path} {op : FileOp} :
    Ends U service provider wanted t (ioOrRemove temp op).run (Present fun _ => True) := by
  unfold ioOrRemove
  refine ends_lift_skip fun answer => ?_
  cases answer with
  | ok bytes => exact fun _ => trivial
  | error error => exact ends_lift_skip fun _ _ => nofun

theorem readJson_present {α : Type} {decode : Bytes → Except String α} {path : Path} :
    Ends U service provider wanted t (readJson decode path).run (Present fun _ => True) := by
  unfold readJson
  refine ends_lift_skip fun answer => ?_
  cases answer with
  | ok bytes =>
    dsimp only
    cases decode bytes with
    | ok value => exact fun _ => trivial
    | error message => exact fun _ => trivial
  | error error =>
    cases error with
    | notFound => exact fun _ => trivial
    | other message => exact fun _ => nofun

theorem writeJsonAtomic_present {path : Path} {document : Document} :
    Ends U service provider wanted t (writeJsonAtomic path document).run
      (Present fun _ => True) := by
  unfold writeJsonAtomic
  refine ends_try io_present fun _ _ => ends_lift_skip fun n => ends_lift_skip fun pid => ?_
  cases document.toVec with
  | error message => exact fun _ => nofun
  | ok bytes =>
    refine ends_try io_present fun _ _ => ends_try ioOrRemove_present fun _ _ => ?_
    refine ends_try ioOrRemove_present fun _ _ => ends_try ioOrRemove_present fun _ _ => ?_
    exact ends_try io_present fun _ _ _ => trivial

end Programs

section Loaders

variable {U : Type} [UrlCrate U] [SemverCrate] [JsonCrate]
variable {service : ProviderMetadataService} {provider : ProviderKey} {wanted : List String} {t : ℕ}
variable {K α : Type} {L : Loader K α} {key : K}

theorem readPersisted_present :
    Ends U service provider wanted t (L.readPersisted key).run (Present fun _ => True) := by
  unfold Loader.readPersisted
  refine ends_lift_skip fun cached => ?_
  cases cached with
  | true => exact fun _ => trivial
  | false =>
    refine ends_try readJson_present fun found _ => ?_
    cases found with
    | none => exact fun _ => trivial
    | some entry =>
      dsimp only
      cases L.validate key entry.value with
      | error error => exact fun _ => trivial
      | ok value => exact fun s => (wp_run_lift t _ _ s).mpr (ends_any _ s)

theorem fallback_present {cached : Option (CacheEntry α)} {error : MetadataError}
    (herror : error ≠ .notFound) :
    Ends U service provider wanted t (L.fallback key cached error).run (Present fun _ => True) := by
  unfold Loader.fallback
  cases cached with
  | some entry => exact fun _ => trivial
  | none =>
    refine ends_lift_skip fun answer => ?_
    cases answer with
    | some entry => exact fun _ => trivial
    | none => exact fun _ => herror

theorem refreshOrCached_present
    (h : Ends U service provider wanted t (L.refresh key).run (Present fun _ => True)) :
    Ends U service provider wanted t (L.refreshOrCached key).run (Present fun _ => True) := by
  unfold Loader.refreshOrCached
  refine ends_lift_skip fun cached => ends_lift_skip fun allowed => ?_
  cases allowed with
  | true =>
    refine ends_lift h fun result hresult => ?_
    cases result with
    | ok entry => exact ends_lift_skip fun _ _ => trivial
    | error error =>
      dsimp only
      split
      · exact ends_lift_skip fun _ => fallback_present hresult
      · exact fallback_present hresult
  | false =>
    cases cached with
    | some entry => exact fun _ => trivial
    | none => exact fun _ => nofun

/-- A loader whose refresh does not report a missing version does not either. -/
theorem load_present
    (h : Ends U service provider wanted t (L.refresh key).run (Present fun _ => True)) :
    Ends U service provider wanted t (L.load service key).run (Present fun _ => True) := by
  have hlocked : Ends U service provider wanted t (L.loadLocked service key).run
      (Present fun _ => True) := by
    unfold Loader.loadLocked
    refine ends_lift_skip fun fresh => ?_
    cases fresh with
    | some entry => exact fun _ => trivial
    | none =>
      refine ends_try readPersisted_present fun _ _ => ends_lift_skip fun fresh => ?_
      cases fresh with
      | some entry => exact fun _ => trivial
      | none => exact refreshOrCached_present h
  unfold Loader.load
  refine ends_skip fun presence => ends_bind (Q := Present fun _ => True) ?_ fun result hresult => ?_
  · refine ends_skip fun fresh => ?_
    cases fresh with
    | some entry => exact fun _ => trivial
    | none => exact ends_guarded hlocked
  · exact ends_skip fun _ _ => hresult

end Loaders

section Versions

variable {U : Type} [UrlCrate U] [SemverCrate] [JsonCrate]
variable {service : ProviderMetadataService} {provider : ProviderKey} {wanted : List String} {t : ℕ}
variable {version : String}

/-- A refreshed index lists what the registry lists. -/
theorem refreshIndexUnlocked_lists :
    Ends U service provider wanted t (refreshIndexUnlocked service provider).run
      (Present fun entry => Lists wanted entry.value) := by
  unfold refreshIndexUnlocked
  refine ends_lift_skip fun stamp => ends_lift (Q := fun answer => ∃ versions,
    answer = .ok versions ∧ Lists wanted versions) ?_ fun answer hanswer => ?_
  · intro s s₁ _ _
    refine ⟨trivial, fun choice answer s₂ hchoice hexec _ => ?_⟩
    obtain ⟨versions, rfl, hlists⟩ := hchoice rfl
    cases hexec
    exact ⟨versions, rfl, hlists⟩
  · obtain ⟨versions, rfl, hlists⟩ := hanswer
    dsimp only
    cases hvalid : validateRegistryVersions versions with
    | error error =>
      intro _
      obtain ⟨field, rfl⟩ := validateRegistryVersions_namesField versions error hvalid
      exact nofun
    | ok value =>
      refine ends_lift_skip fun fetchedAt => ends_try writeJsonAtomic_present fun _ _ => ?_
      exact ends_lift_skip fun _ _ => hlists

/-- The refresh with its retry timer. -/
theorem refreshIndexTimed_lists :
    Ends U service provider wanted t (refreshIndexTimed service provider).run
      (Present fun entry => Lists wanted entry.value) := by
  unfold refreshIndexTimed
  refine ends_lift refreshIndexUnlocked_lists fun result hresult => ?_
  cases result with
  | ok entry => exact ends_lift_skip fun _ _ => hresult
  | error error =>
    dsimp only
    split
    · exact ends_lift_skip fun _ _ => hresult
    · exact fun _ => hresult

/-- The index lists the version. -/
def Listed (version : String) (index : IndexEntry) : Prop := listedVersion index version ≠ none

omit [SemverCrate] [JsonCrate] in
theorem listed_of_lists {index : IndexEntry} (hversion : version ∈ wanted)
    (h : Lists wanted index.value) : Listed version index := by
  intro hnone
  obtain ⟨item, hitem, hname⟩ := h version hversion
  have hmissing := List.find?_eq_none.mp hnone item hitem
  exact hmissing (by simpa using hname)

/-- A timely test finds a forced refresh allowed. -/
theorem refreshAllowed_timely {timer : Timer} (htimer : timer = .miss provider ∨ timer = .index provider) :
    Ends U service provider wanted t (refreshAllowed timer .missing) fun allowed => allowed = true := by
  intro s s₁ _ _
  refine ⟨trivial, fun choice answer s₂ hchoice hexec _ => ?_⟩
  cases choice with
  | ok =>
    cases hexec
    rcases htimer with rfl | rfl
    · exact hchoice trivial rfl
    · exact hchoice trivial rfl
  | _ => cases hexec

/-- When the version is missing, the forced refresh decides. -/
theorem whenMissing_lists {key : VersionKey} {index : IndexEntry}
    {force : MetadataService.Task IndexEntry} (hkey : key.provider = provider)
    (hforce : Ends U service provider wanted t force.run (Present (Listed key.version))) :
    Ends U service provider wanted t (whenMissing key index force).run
      (Present (Listed key.version)) := by
  unfold whenMissing
  cases hlisted : listedVersion index key.version with
  | some item =>
    have hpresent : Listed key.version index := by
      unfold Listed
      rw [hlisted]
      exact nofun
    exact fun _ => hpresent
  | none =>
    rw [hkey]
    refine ends_lift (refreshAllowed_timely (.inl rfl)) fun missed hmissed => ?_
    subst hmissed
    refine ends_lift (refreshAllowed_timely (.inr rfl)) fun allowed hallowed => ?_
    subst hallowed
    exact hforce

/-- After the forced refresh the index lists the version. -/
theorem forceIndex_lists {key : VersionKey} {index : IndexEntry} (hkey : key.provider = provider)
    (hversion : key.version ∈ wanted) :
    Ends U service provider wanted t (forceIndex service key index).run
      (Present (Listed key.version)) := by
  have hforced : Ends U service provider wanted t (refreshIndexTimed service key.provider).run
      (Present (Listed key.version)) := by
    rw [hkey]
    refine ends_mono refreshIndexTimed_lists fun result hresult => ?_
    cases result with
    | ok entry => exact listed_of_lists hversion hresult
    | error error => exact hresult
  have hlocked : Ends U service provider wanted t (forceIndexLocked service key index).run
      (Present (Listed key.version)) := by
    unfold forceIndexLocked
    refine ends_lift_skip fun current => whenMissing_lists hkey ?_
    exact ends_lift_skip fun _ => hforced
  unfold forceIndex
  exact whenMissing_lists hkey (ends_guarded hlocked)

omit [JsonCrate] in
/-- When every package is given, only checks can fail. -/
theorem mergeVersion_error {key : VersionKey} {cached : Option VersionEntry}
    {platforms : List RegistryPlatform} {answers : List (ℕ × Except RegistryError PlatformMetadata)}
    {error : MetadataError} (hanswers : ∀ answer ∈ answers, ∃ package, answer.2 = .ok package)
    (h : mergeVersion key cached platforms (packageResults U key platforms answers) =
      .error error) : error ≠ .notFound := by
  have hfirst : firstError (packageResults U key platforms answers) = some error := by
    unfold mergeVersion at h
    dsimp only at h
    split at h
    · next heq =>
        cases h
        assumption
    · cases h
  have hmem := firstError_mem hfirst
  unfold packageResults at hmem
  rw [← List.map_uncurry_zip_eq_zipWith] at hmem
  obtain ⟨⟨platform, answer⟩, hpair, haccept⟩ := List.mem_map.mp hmem
  obtain ⟨⟨n, answer'⟩, hanswer, rfl⟩ := List.mem_map.mp (List.of_mem_zip hpair).2
  have hmember : (n, answer') ∈ answers := (List.mem_insertionSort _).mp hanswer
  obtain ⟨package, hpackage⟩ := hanswers _ hmember
  dsimp only at hpackage
  subst hpackage
  have hfailed : validatePackage U key platform package = .error error := by
    change acceptPackage U key platform (.ok package) = .error error at haccept
    simp only [acceptPackage] at haccept
    cases hvalid : validatePackage U key platform package with
    | ok value =>
      rw [hvalid] at haccept
      cases haccept
    | error error' =>
      rw [hvalid] at haccept
      cases haccept
      rfl
  obtain ⟨field, rfl⟩ := validatePackage_namesField U key platform package error hfailed
  exact nofun

/-- The packages of a listed version, merged and persisted. -/
theorem refreshListed_present {key : VersionKey} {summary : RegistryVersion}
    (hkey : key.provider = provider) :
    Ends U service provider wanted t (refreshListed U service key summary).run
      (Present fun _ => True) := by
  unfold refreshListed
  refine ends_lift_skip fun cached => ends_lift (Q := fun answers => ∀ answer ∈ answers,
    ∃ package, answer.2 = .ok package) ?_ fun answers hanswers => ?_
  · intro s s₁ _ _
    refine ⟨trivial, fun choice answer s₂ hchoice hexec _ => ?_⟩
    unfold machine exec at hexec
    cases choice with
    | packages answers =>
      dsimp only at hexec
      split at hexec
      · cases hexec
        exact hchoice hkey answer rfl
      · cases hexec
    | _ => cases hexec
  · cases hmerged : mergeVersion key cached summary.platforms
        (packageResults U key summary.platforms answers) with
    | error error => exact fun _ => mergeVersion_error hanswers hmerged
    | ok merged =>
      refine ends_lift_skip fun fetchedAt => ends_try writeJsonAtomic_present fun _ _ => ?_
      exact ends_lift_skip fun _ _ => trivial

/-- `refresh_version` does not report a listed version missing. -/
theorem refreshVersion_present {key : VersionKey} (hkey : key.provider = provider)
    (hversion : key.version ∈ wanted) :
    Ends U service provider wanted t (refreshVersion U service key).run
      (Present fun _ => True) := by
  have hindex : Ends U service provider wanted t (loadIndex service key.provider).run
      (Present fun _ => True) := by
    rw [hkey]
    refine load_present (ends_mono refreshIndexUnlocked_lists fun result hresult => ?_)
    cases result with
    | ok entry => trivial
    | error error => exact hresult
  unfold refreshVersion
  refine ends_try hindex fun index _ => ends_try (forceIndex_lists hkey hversion) ?_
  intro index hlisted
  cases hfound : listedVersion index key.version with
  | none => exact absurd hfound hlisted
  | some summary => exact refreshListed_present hkey

end Versions

section Requests

variable {U : Type} [UrlCrate U] [SemverCrate] [JsonCrate]
variable {service : ProviderMetadataService} {provider : ProviderKey} {wanted : List String} {t : ℕ}

/-- A request for a version found it, or failed for another reason. -/
def Answers (service : ProviderMetadataService) (provider : ProviderKey) (wanted : List String) :
    MetadataMachine.Out → Prop
  | .version hostname providerNamespace providerType version result =>
    service.providerKey hostname providerNamespace providerType = .ok provider →
      normalizeVersion version ∈ wanted → result ≠ .ok none ∧ result ≠ .error .notFound
  | _ => True

/-- `get_version` finds a listed version. -/
theorem getVersion_finds {hostname providerNamespace providerType version : String}
    (hkey : service.providerKey hostname providerNamespace providerType = .ok provider)
    (hversion : normalizeVersion version ∈ wanted) :
    Ends U service provider wanted t
      (getVersion U service hostname providerNamespace providerType version).run
      (Present fun found => found ≠ none) := by
  have hload : Ends U service provider wanted t
      (loadVersion U service ⟨provider, normalizeVersion version⟩).run (Present fun _ => True) :=
    load_present (refreshVersion_present rfl hversion)
  have hentry : Ends U service provider wanted t
      (getVersionEntry U service hostname providerNamespace providerType version).run
      (Present fun found => found ≠ none) := by
    unfold getVersionEntry
    cases hvalid : validateVersion version "version" with
    | error error =>
      obtain ⟨field, rfl⟩ := validateVersion_namesField version "version" error hvalid
      exact fun _ => nofun
    | ok value =>
      rw [hkey]
      refine ends_lift hload fun result hresult => ?_
      cases result with
      | ok entry => exact fun _ => nofun
      | error error =>
        cases error with
        | notFound => exact absurd rfl hresult
        | _ => exact fun _ => nofun
  unfold getVersion
  refine ends_try hentry fun found hfound => ?_
  cases found with
  | none => exact absurd rfl hfound
  | some entry => exact fun _ => nofun

/-- Every request, from its start. -/
theorem request_answers (entry : Entry) :
    Ends U service provider wanted t (request U service entry) (Answers service provider wanted) := by
  cases entry with
  | getVersion hostname providerNamespace providerType version =>
    by_cases hwanted : service.providerKey hostname providerNamespace providerType = .ok provider ∧
        normalizeVersion version ∈ wanted
    · refine ends_bind (getVersion_finds hwanted.1 hwanted.2) fun result hresult => ?_
      intro s _ _
      cases result with
      | ok found => exact ⟨fun heq => hresult (Except.ok.inj heq), nofun⟩
      | error error => exact ⟨nofun, fun heq => hresult (Except.error.inj heq)⟩
    · refine ends_bind (ends_any _) fun result _ => ?_
      intro s hkey hversion
      exact absurd ⟨hkey, hversion⟩ hwanted
  | listVersions hostname providerNamespace providerType => exact ends_skip fun _ _ => trivial
  | getPlatform hostname providerNamespace providerType filename =>
    exact ends_skip fun _ _ => trivial
  | sync => exact ends_skip fun _ _ => trivial

variable (U service provider wanted)

/-- The proofs about single requests add up. -/
theorem stateless_sound : Sound stateless (missPolicy provider wanted True) (machine U service)
    fun _ out _ => Answers service provider wanted out where
  exec _ _ _ _ _ _ _ _ _ _ := ⟨trivial, fun _ _ => trivial⟩
  start t s entry program s' _ _ hstart := by
    have hstart' : (if s.unused t then some (request U service entry, s) else none) =
        some (program, s') := hstart
    split at hstart'
    · cases hstart'
      exact ⟨trivial, fun _ _ => trivial, request_answers entry s⟩
    · cases hstart'
  cancel t s op s' _ _ _ _ := by
    refine ⟨trivial, fun _ _ => trivial, ?_⟩
    have hunwind : Ends U service provider wanted t unwind (Answers service provider wanted) := by
      unfold unwind
      refine ends_skip fun _ => ends_skip fun _ => ends_skip fun _ => ends_skip fun _ => ?_
      exact ends_skip fun _ => ends_skip fun _ => ends_skip fun _ _ => trivial
    exact hunwind s'
  move _ _ _ _ _ _ := ⟨trivial, fun _ => trivial⟩
  reboot _ _ _ _ _ := trivial
  post _ _ _ _ _ _ h := h

variable {U service provider wanted}

/-- In every run, from any state, in which the registry lists the wanted
versions and every request that misses its version finds a forced refresh allowed. -/
theorem no_spurious_miss {s : Shared} {c : Config Op Res MetadataMachine.Out Shared}
    (hrun : (machine U service).Run (missPolicy provider wanted True) (Started s) c) {t : ℕ}
    {out : MetadataMachine.Out} (ht : c.tasks t = some (.done out)) :
    Answers service provider wanted out :=
  (adequacy (stateless_sound U service provider wanted) (verified_idle trivial) hrun).result ht

end Requests

section Plain

/-- The versions that are requested, and what the registry lists. -/
def plainWanted : List String := ["1.1.0", "1.2.0"]

/-- The registry's answers for one of the requests. -/
def plainAnswers (version : String) : Op → Choice :=
  answers 300 (.ok (plainIndex 300 ["1.0.0", "1.1.0", "1.2.0"]).value)
    [(0, .ok (plainPackage version))]

/-- A finished request for a version. -/
structure Finished where
  hostname : String
  providerNamespace : String
  providerType : String
  version : String
  result : Except MetadataError (Option VersionMetadata)
  deriving DecidableEq

/-- The request for a version that the task has finished. -/
def finished (c : Config Op Res MetadataMachine.Out Shared) (t : ℕ) : Option Finished :=
  match c.tasks t with
  | some (.done (.version hostname providerNamespace providerType version result)) =>
    some ⟨hostname, providerNamespace, providerType, version, result⟩
  | _ => none

theorem task_of_finished {c : Config Op Res MetadataMachine.Out Shared} {t : ℕ} {request : Finished}
    (h : finished c t = some request) :
    c.tasks t = some (.done (.version request.hostname request.providerNamespace
      request.providerType request.version request.result)) := by
  unfold finished at h
  split at h
  · next htask =>
      cases h
      exact htask
  · cases h

/-- The operation is a test that finds a forced refresh forbidden. -/
def untimely (s : Shared) : Op → Bool
  | .refreshAllowed (.miss key) .missing => !s.refreshAllowed (.miss key)
  | .refreshAllowed (.index key) .missing => !s.refreshAllowed (.index key)
  | _ => false

/-- The answers are permitted, but for untimely tests when these are excluded. -/
theorem plainAnswers_permitted {timely : Prop} (version : String) (t : ℕ) (s : Shared) (op : Op)
    (h : timely → untimely s op = false) :
    (missPolicy plainProvider plainWanted timely).run t s op (plainAnswers version op) := by
  cases op with
  | awaitVersions key stamp =>
    intro _
    refine ⟨_, rfl, ?_⟩
    unfold Lists
    decide +kernel
  | packages key platforms =>
    intro _ given heq answer hanswer
    cases heq
    rw [List.mem_singleton.mp hanswer]
    exact ⟨_, rfl⟩
  | refreshAllowed timer site =>
    cases site with
    | load => cases timer <;> trivial
    | missing =>
      cases timer with
      | version key => trivial
      | miss key => exact fun htimely _ => by simpa [untimely] using h htimely
      | index key => exact fun htimely _ => by simpa [untimely] using h htimely
  | _ => trivial

/-- A service that found the index of one version, and the requests for two others. -/
def plainMisses : Config Op Res MetadataMachine.Out Shared :=
  ⟨bootWith (indexFile (indexBytes (plainIndex 100 ["1.0.0"])))
    ((∅ : Indices).insert plainProvider (plainIndex 100 ["1.0.0"])) 7, fun _ => none⟩

def atIndexLock : Shared → Op → Bool
  | _, .indexLock .acquire => true
  | s, op => untimely s op

/-- Both requests wait for the lock before the first one refreshes the index. -/
theorem no_spurious_miss_plain :
    letI := plainJson
    letI := plainSemver
    ∃ c : Config Op Res MetadataMachine.Out Shared, (∃ out, c.tasks 0 = some (.done out) ∧
        Answers (plainService (3600 * 10 ^ 9)) plainProvider plainWanted out) ∧
      ∃ out, c.tasks 1 = some (.done out) ∧
        Answers (plainService (3600 * 10 ^ 9)) plainProvider plainWanted out := by
  let _ := plainJson
  let _ := plainSemver
  let M := machine PlainUrl (plainService (3600 * 10 ^ 9))
  let P := missPolicy plainProvider plainWanted True
  let c₁ := M.act (M.act plainMisses (.start 0 (getPlain "1.1.0"))) (.start 1 (getPlain "1.2.0"))
  let c₂ := M.follow 0 (plainAnswers "1.1.0") atIndexLock 200 c₁
  let c₃ := M.follow 1 (plainAnswers "1.2.0") atIndexLock 200 c₂
  let c₄ := M.follow 0 (plainAnswers "1.1.0") untimely 200 c₃
  let c₅ := M.follow 1 (plainAnswers "1.2.0") untimely 200 c₄
  have hstart : ∀ t version c, M.Run P c (M.act c (.start t (getPlain version))) :=
    fun t version c => run_act M P trivial
  have hfollow : ∀ t version stop c, (∀ s op, stop s op = false → untimely s op = false) →
      M.Run P c (M.follow t (plainAnswers version) stop 200 c) :=
    fun t version stop c h => run_follow M P stop
      (fun s op hgo => plainAnswers_permitted version t s op fun _ => h s op hgo) 200 c
  have hlock : ∀ s op, atIndexLock s op = false → untimely s op = false := by
    intro s op h
    unfold atIndexLock at h
    split at h
    · cases h
    · exact h
  have hrun : M.Run P plainMisses c₅ :=
    (((((hstart 0 _ _).trans (hstart 1 _ _)).trans (hfollow 0 _ _ c₁ hlock)).trans
      (hfollow 1 _ _ c₂ hlock)).trans (hfollow 0 _ _ c₃ fun _ _ h => h)).trans
      (hfollow 1 _ _ c₄ fun _ _ h => h)
  have hend : (finished c₅ 0).isSome = true ∧ (finished c₅ 1).isSome = true := by decide +kernel
  obtain ⟨first, hfirst⟩ := Option.isSome_iff_exists.mp hend.1
  obtain ⟨second, hsecond⟩ := Option.isSome_iff_exists.mp hend.2
  exact ⟨c₅, ⟨_, task_of_finished hfirst, no_spurious_miss hrun (task_of_finished hfirst)⟩,
    _, task_of_finished hsecond, no_spurious_miss hrun (task_of_finished hsecond)⟩

/-- The second request looks for its version while the forced refresh of the
first one is under way, and reports it missing. -/
theorem no_spurious_miss_fails :
    letI := plainJson
    letI := plainSemver
    ∃ c, (machine PlainUrl (plainService (3600 * 10 ^ 9))).Run
        (missPolicy plainProvider plainWanted False) plainMisses c ∧
      finished c 0 = some ⟨plainProvider.hostname, plainProvider.providerNamespace,
        plainProvider.providerType, "1.1.0",
        .ok (some (plainEntry 300 "1.1.0" [plainPackage "1.1.0"]).value)⟩ ∧
      finished c 1 = some ⟨plainProvider.hostname, plainProvider.providerNamespace,
        plainProvider.providerType, "1.2.0", .ok none⟩ ∧
      ∃ out, c.tasks 1 = some (.done out) ∧
        ¬Answers (plainService (3600 * 10 ^ 9)) plainProvider plainWanted out := by
  let _ := plainJson
  let _ := plainSemver
  let M := machine PlainUrl (plainService (3600 * 10 ^ 9))
  let P := missPolicy plainProvider plainWanted False
  let c₁ := M.act (M.act plainMisses (.start 0 (getPlain "1.1.0"))) (.start 1 (getPlain "1.2.0"))
  let c₂ := M.follow 0 (plainAnswers "1.1.0") atAwaitVersions 200 c₁
  let c₃ := M.follow 1 (plainAnswers "1.2.0") never 200 c₂
  let c₄ := M.follow 0 (plainAnswers "1.1.0") never 200 c₃
  have hstart : ∀ t version c, M.Run P c (M.act c (.start t (getPlain version))) :=
    fun t version c => run_act M P trivial
  have hfollow : ∀ t version stop c,
      M.Run P c (M.follow t (plainAnswers version) stop 200 c) :=
    fun t version stop c => run_follow M P stop
      (fun s op _ => plainAnswers_permitted version t s op False.elim) 200 c
  have hrun : M.Run P plainMisses c₄ :=
    ((((hstart 0 _ _).trans (hstart 1 _ _)).trans (hfollow 0 _ _ c₁)).trans
      (hfollow 1 _ _ c₂)).trans (hfollow 0 _ _ c₃)
  have hend : finished c₄ 0 = some ⟨plainProvider.hostname, plainProvider.providerNamespace,
        plainProvider.providerType, "1.1.0",
        .ok (some (plainEntry 300 "1.1.0" [plainPackage "1.1.0"]).value)⟩ ∧
      finished c₄ 1 = some ⟨plainProvider.hostname, plainProvider.providerNamespace,
        plainProvider.providerType, "1.2.0", .ok none⟩ := by
    decide +kernel
  have hkey : (plainService (3600 * 10 ^ 9)).providerKey plainProvider.hostname
      plainProvider.providerNamespace plainProvider.providerType = .ok plainProvider := by
    decide +kernel
  have hwanted : normalizeVersion "1.2.0" ∈ plainWanted := by decide +kernel
  refine ⟨c₄, hrun, hend.1, hend.2, _, task_of_finished hend.2, fun hanswers => ?_⟩
  exact (hanswers hkey hwanted).1 rfl

end Plain

end OpenTfMirror.MetadataMisses
