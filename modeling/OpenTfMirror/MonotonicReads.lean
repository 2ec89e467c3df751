import OpenTfMirror.SyncRuns

/-!
# Answers in the order of requests

A loader answers with an entry that it read from memory, or that its own refresh
has put there: at some moment of the request the entry was the one in memory. So
a request that starts after another has ended is answered from the same index or
one that was fetched later, whatever other requests do meanwhile.
-/

namespace OpenTfMirror.MonotonicReads

open TaskProgram TaskLogic TaskHistory TaskTraces TaskLogs Fallible KeyedLocks LockSections FileNames
  FileStore Outbound Provider Metadata MetadataService IndexDiscovery MetadataMachine MetadataExec
  MetadataRuns LoaderOps IndexRenewal SyncRuns

section Loaders

variable {K α : Type} {L : Loader K α} {key : K} {self : ProviderMetadataService}
variable {trace part : List (Sigma Res)} {entry : CacheEntry α}

/-- Among what was performed, the entry was read, or a refresh returned it. -/
def Obtained (L : Loader K α) (key : K) (trace : List (Sigma Res)) (entry : CacheEntry α) : Prop :=
  ∃ part, (∀ event ∈ part, event ∈ trace) ∧
    (Traced (L.entry key) part (some entry) ∨ Traced (L.refresh key).run part (.ok entry))

theorem Obtained.mono (h : Obtained L key part entry) (hpart : ∀ event ∈ part, event ∈ trace) :
    Obtained L key trace entry := by
  obtain ⟨inner, hinner, horigin⟩ := h
  exact ⟨inner, fun event hevent => hpart event (hinner event hevent), horigin⟩

theorem Obtained.left (h : Obtained L key part entry) : Obtained L key (part ++ trace) entry :=
  h.mono fun _ => List.mem_append_left trace

theorem Obtained.right (h : Obtained L key part entry) : Obtained L key (trace ++ part) entry :=
  h.mono fun _ => List.mem_append_right trace

theorem obtained_entry (h : Traced (L.entry key) trace (some entry)) : Obtained L key trace entry :=
  ⟨trace, fun _ h => h, .inl h⟩

theorem obtained_fresh (h : Traced (L.freshEntry self key) trace (some entry)) :
    Obtained L key trace entry := by
  unfold Loader.freshEntry at h
  obtain ⟨first, rest, found, rfl, hfound, h⟩ := traced_bind.mp h
  cases found with
  | none =>
    obtain ⟨-, heq⟩ := traced_done.mp h
    cases heq
  | some cached =>
    obtain ⟨clock, rest, now, rfl, -, h⟩ := traced_bind.mp h
    split at h
    · obtain ⟨-, heq⟩ := traced_done.mp h
      cases heq
      exact (obtained_entry hfound).left
    · obtain ⟨-, heq⟩ := traced_done.mp h
      cases heq

theorem obtained_fallback {cached : Option (CacheEntry α)} {error : MetadataError}
    (h : Traced (L.fallback key cached error).run trace (.ok entry)) :
    cached = some entry ∨ Obtained L key trace entry := by
  unfold Loader.fallback at h
  cases cached with
  | some kept =>
    obtain ⟨-, heq⟩ := traced_done.mp h
    cases heq
    exact .inl rfl
  | none =>
    obtain ⟨first, rest, found, rfl, hfound, h⟩ := traced_lift_bind.mp h
    cases found with
    | none =>
      obtain ⟨-, heq⟩ := traced_done.mp h
      cases heq
    | some kept =>
      obtain ⟨-, heq⟩ := traced_done.mp h
      cases heq
      exact .inr (obtained_entry hfound).left

theorem obtained_refreshOrCached (h : Traced (L.refreshOrCached key).run trace (.ok entry)) :
    Obtained L key trace entry := by
  unfold Loader.refreshOrCached at h
  obtain ⟨first, rest, cached, rfl, hcached, h⟩ := traced_lift_bind.mp h
  obtain ⟨asked, rest, allowed, rfl, -, h⟩ := traced_lift_bind.mp h
  cases allowed with
  | false =>
    cases cached with
    | none =>
      obtain ⟨-, heq⟩ := traced_done.mp h
      cases heq
    | some kept =>
      obtain ⟨-, heq⟩ := traced_done.mp h
      cases heq
      exact (obtained_entry hcached).left
  | true =>
    obtain ⟨fetch, rest, result, rfl, hfetch, h⟩ := traced_lift_bind.mp h
    have hfallback : ∀ {error : MetadataError} {trace : List (Sigma Res)},
        Traced (L.fallback key cached error).run trace (.ok entry) →
        Obtained L key (first ++ trace) entry := by
      intro error trace h
      rcases obtained_fallback h with rfl | hobtained
      · exact (obtained_entry hcached).left
      · exact hobtained.right
    cases result with
    | ok fetched =>
      obtain ⟨clear, rest, ⟨⟩, rfl, -, h⟩ := traced_lift_bind.mp h
      obtain ⟨-, heq⟩ := traced_done.mp h
      cases heq
      have hobtained : Obtained L key fetch entry := ⟨fetch, fun _ h => h, .inr hfetch⟩
      exact hobtained.left.right.right
    | error error =>
      dsimp only at h
      split at h
      · obtain ⟨record, rest, ⟨⟩, rfl, -, h⟩ := traced_lift_bind.mp h
        refine (hfallback h).mono fun event hevent => ?_
        simp only [List.mem_append] at hevent ⊢
        exact hevent.imp_right fun hevent => .inr (.inr (.inr hevent))
      · refine (hfallback h).mono fun event hevent => ?_
        simp only [List.mem_append] at hevent ⊢
        exact hevent.imp_right fun hevent => .inr (.inr hevent)

theorem obtained_locked (h : Traced (L.loadLocked self key).run trace (.ok entry)) :
    Obtained L key trace entry := by
  unfold Loader.loadLocked at h
  obtain ⟨first, rest, fresh, rfl, hfresh, h⟩ := traced_lift_bind.mp h
  cases fresh with
  | some kept =>
    obtain ⟨-, heq⟩ := traced_done.mp h
    cases heq
    exact (obtained_fresh hfresh).left
  | none =>
    rcases traced_run_bind h with ⟨read, rest, ⟨⟩, rfl, -, h⟩ | ⟨error, heq, -⟩
    · obtain ⟨again, rest, fresh, rfl, hfresh, h⟩ := traced_lift_bind.mp h
      cases fresh with
      | some kept =>
        obtain ⟨-, heq⟩ := traced_done.mp h
        cases heq
        exact (obtained_fresh hfresh).left.right.right
      | none => exact (obtained_refreshOrCached h).right.right.right
    · cases heq

/-- What a loader returns was in memory at some moment of the call. -/
theorem obtained_load (h : Traced (L.load self key).run trace (.ok entry)) :
    Obtained L key trace entry := by
  unfold Loader.load at h
  obtain ⟨enter, rest, presence, rfl, -, h⟩ := traced_bind.mp h
  obtain ⟨body, rest, result, rfl, hbody, h⟩ := traced_bind.mp h
  obtain ⟨leave, rest, ⟨⟩, rfl, -, h⟩ := traced_bind.mp h
  obtain ⟨-, rfl⟩ := traced_done.mp h
  obtain ⟨first, rest, fresh, rfl, hfresh, hbody⟩ := traced_bind.mp hbody
  cases fresh with
  | some kept =>
    obtain ⟨-, heq⟩ := traced_done.mp hbody
    cases heq
    exact (obtained_fresh hfresh).left.left.right
  | none =>
    obtain ⟨before, inside, after, rfl, hinside⟩ := traced_guarded hbody
    exact (obtained_locked hinside).right.left.right.left.right

end Loaders

section Requests

variable {U : Type} [UrlCrate U] [SemverCrate] [JsonCrate]
variable {service : ProviderMetadataService} {files : Files} {pid : ℕ} {s : Shared} {t : ℕ}
variable {c c' : Config Op Res MetadataMachine.Out (Noted Shared (Performance Res Shared))}
variable {hostname providerNamespace providerType : String}

/-- At a moment of the task the index was the one in memory. -/
def InMemory (t : ℕ) (key : ProviderKey) (entry : IndexEntry)
    (history : List (Performance Res Shared)) (moment : Performance Res Shared) : Prop :=
  moment ∈ log t history ∧ moment.after.indices.lookup key = some entry

/-- What a task obtained was in memory at a moment of it. -/
theorem inMemory_of_obtained (h : Logged U service s c) {key : ProviderKey} {entry : IndexEntry}
    (hobtained : Obtained (indexLoader service) key (events t c.shared.history) entry) :
    ∃ moment, InMemory t key entry c.shared.history moment := by
  obtain ⟨part, hpart, horigin⟩ := hobtained
  have hmoment : ∀ event ∈ part, ∃ moment ∈ log t c.shared.history, moment.event = event :=
    fun event hevent => List.mem_map.mp (hpart event hevent)
  have hexecuted : ∀ moment ∈ log t c.shared.history, ∃ before choice,
      exec U service moment.task before moment.event.1 choice =
        some (moment.event.2, moment.after) :=
    fun moment hlog => executed_of_run (fun _ => rfl) h moment (mem_log.mp hlog).1
  rcases horigin with hread | hrefresh
  · have heq : part = [⟨.indexEntry key, some entry⟩] := traced_op.mp hread
    subst heq
    obtain ⟨moment, hlog, hevent⟩ := hmoment _ List.mem_cons_self
    obtain ⟨before, choice, hexec⟩ := hexecuted moment hlog
    rw [hevent] at hexec
    have hran := always_some hexec
    have hafter : moment.after = before := congrArg Prod.snd hran
    have hanswer : some entry = before.indices.lookup key := congrArg Prod.fst hran
    refine ⟨moment, hlog, ?_⟩
    rw [hafter]
    exact hanswer.symm
  · obtain ⟨front, stamp, rfl⟩ := refreshIndexUnlocked_ok hrefresh
    obtain ⟨moment, hlog, hevent⟩ := hmoment _ (List.mem_append_right _ List.mem_cons_self)
    obtain ⟨before, choice, hexec⟩ := hexecuted moment hlog
    rw [hevent] at hexec
    have hafter : moment.after = before.insertIndex key entry (.fetched stamp) :=
      congrArg Prod.snd (always_some hexec)
    refine ⟨moment, hlog, ?_⟩
    rw [hafter]
    exact AList.lookup_insert _

/-- The versions that were listed are those of an index that was in memory
during the request. -/
theorem listed_inMemory (h : Logged U service s c) {versions : List String}
    (ht : c.tasks t =
      some (.done (.listed hostname providerNamespace providerType (.ok versions)))) :
    ∃ key entry moment, service.providerKey hostname providerNamespace providerType = .ok key ∧
      versions = sortedVersions entry.value ∧ InMemory t key entry c.shared.history moment := by
  obtain ⟨entry, htraced⟩ := performed_request h ht fun heq => by cases heq
  have hlist := traced_listed htraced
  unfold listVersions at hlist
  cases hkey : service.providerKey hostname providerNamespace providerType with
  | error error =>
    rw [hkey] at hlist
    obtain ⟨-, heq⟩ := traced_done.mp hlist
    cases heq
  | ok key =>
    rw [hkey] at hlist
    rcases traced_run_bind hlist with ⟨start, rest, entry, htrace, hload, hlist⟩ | ⟨error, heq, -⟩
    · obtain ⟨rfl, heq⟩ := traced_done.mp hlist
      cases heq
      rw [List.append_nil] at htrace
      rw [← htrace] at hload
      obtain ⟨moment, hmoment⟩ := inMemory_of_obtained h (obtained_load hload)
      exact ⟨key, entry, moment, rfl, rfl, hmoment⟩
    · cases heq

/-- Two answers come from indices that were in memory during their requests: the
same one, or the second from one fetched after all that had been published when
the first request had its own. -/
def ReadInOrder (key : ProviderKey) (t t' : ℕ) (versions versions' : List String)
    (history history' : List (Performance Res Shared)) : Prop :=
  ∃ entry entry' moment moment',
    versions = sortedVersions entry.value ∧ InMemory t key entry history moment ∧
    versions' = sortedVersions entry'.value ∧ InMemory t' key entry' history' moment' ∧
    (entry' = entry ∨ ∃ stamp, ⟨key, stamp, entry'⟩ ∈ moment'.after.published ∧
      ∀ p ∈ moment.after.published, p.key = key → p.stamp < stamp)

/-- A request that starts after another has ended never lists an older index. -/
theorem list_versions_monotonic (hboot : boot service files pid = .ok s) (h : Logged U service s c)
    (hafter : (logging (machine U service)).Run .free c c') {t' : ℕ} {versions versions' : List String}
    (ht : c.tasks t =
      some (.done (.listed hostname providerNamespace providerType (.ok versions))))
    (hlater : c.tasks t' = none)
    (ht' : c'.tasks t' =
      some (.done (.listed hostname providerNamespace providerType (.ok versions')))) :
    ∃ key, service.providerKey hostname providerNamespace providerType = .ok key ∧
      ReadInOrder key t t' versions versions' c.shared.history c'.shared.history := by
  have h' : Logged U service s c' := h.trans hafter
  obtain ⟨key, entry, moment, hkey, hversions, hmoment⟩ := listed_inMemory h ht
  obtain ⟨key', entry', moment', hkey', hversions', hmoment'⟩ := listed_inMemory h' ht'
  have heq : key' = key := Except.ok.inj (hkey'.symm.trans hkey)
  subst heq
  obtain ⟨since, hsince⟩ := history_grows (fun _ => rfl) hafter
  have hnone : events t' c.shared.history = [] :=
    (accounted_of_run (fun _ => rfl) h).none t' hlater
  obtain ⟨hmem', htask'⟩ := mem_log.mp hmoment'.1
  have hlast : moment' ∈ since := by
    rw [hsince] at hmem'
    rcases List.mem_append.mp hmem' with hmem' | hold
    · exact hmem'
    · have hlog : moment' ∈ log t' c.shared.history := mem_log.mpr ⟨hold, htask'⟩
      rw [List.map_eq_nil_iff.mp hnone] at hlog
      cases hlog
  have hpast := (logged_renewed hboot h' key').past
  rw [hsince] at hpast
  have hrenewed : Renewed key' moment.after moment'.after :=
    (List.pairwise_append.mp hpast).2.2 moment' hlast moment (mem_log.mp hmoment.1).1
  obtain ⟨current, hcurrent, hentry⟩ := hrenewed.entry entry hmoment.2
  have hsame : current = entry' := Option.some.inj (hcurrent.symm.trans hmoment'.2)
  subst hsame
  exact ⟨key', hkey, entry, current, moment, moment', hversions, hmoment, hversions', hmoment', hentry⟩

end Requests

section Plain

open PlainLibraries PlainMetadata

/-- The address that was listed, and its versions. -/
def listed (c : Config Op Res MetadataMachine.Out (Noted Shared (Performance Res Shared))) (t : ℕ) :
    Option (String × String × String × List String) :=
  match c.tasks t with
  | some (.done (.listed hostname providerNamespace providerType (.ok versions))) =>
    some (hostname, providerNamespace, providerType, versions)
  | _ => none

theorem task_of_listed
    {c : Config Op Res MetadataMachine.Out (Noted Shared (Performance Res Shared))} {t : ℕ}
    {hostname providerNamespace providerType : String} {versions : List String}
    (h : listed c t = some (hostname, providerNamespace, providerType, versions)) :
    c.tasks t = some (.done (.listed hostname providerNamespace providerType (.ok versions))) := by
  unfold listed at h
  split at h
  · next heq =>
      cases h
      exact heq
  · cases h

/-- The registry adds a version between two requests, and the second one lists it. -/
theorem list_versions_monotonic_plain :
    letI := plainJson
    letI := plainSemver
    ∃ c c', Logged PlainUrl (plainService 0) (bootWith ∅ ∅ 7) c ∧
      (logging (machine PlainUrl (plainService 0))).Run .free c c' ∧
      ReadInOrder plainProvider 0 1 ["1.0.0"] ["1.0.0", "1.1.0"] c.shared.history
        c'.shared.history := by
  let _ := plainJson
  let _ := plainSemver
  let M := logging (machine PlainUrl (plainService 0))
  let c₀ : Config Op Res MetadataMachine.Out (Noted Shared (Performance Res Shared)) :=
    ⟨⟨bootWith ∅ ∅ 7, []⟩, fun _ => none⟩
  let c₁ := M.follow 0 (listing 100 ["1.0.0"]) (fun _ _ => false) 100 (M.act c₀ (.start 0 listPlain))
  let c₂ := M.follow 1 (listing 200 ["1.0.0", "1.1.0"]) (fun _ _ => false) 100
    (M.act c₁ (.start 1 listPlain))
  have hact : ∀ t entry c, M.Run .free c (M.act c (.start t entry)) :=
    fun t entry c => run_act M .free trivial
  have hfollow : ∀ t answer n c, M.Run .free c (M.follow t answer (fun _ _ => false) n c) :=
    fun t answer n c => run_follow M .free _ (fun _ _ _ => trivial) n c
  have hrun : M.Run .free c₀ c₁ := (hact 0 _ _).trans (hfollow 0 _ _ _)
  have hafter : M.Run .free c₁ c₂ := (hact 1 _ _).trans (hfollow 1 _ _ _)
  have hend : listed c₁ 0 = some (plainProvider.hostname, plainProvider.providerNamespace,
        plainProvider.providerType, ["1.0.0"]) ∧
      (c₁.tasks 1).isNone = true ∧
      listed c₂ 1 = some (plainProvider.hostname, plainProvider.providerNamespace,
        plainProvider.providerType, ["1.0.0", "1.1.0"]) ∧
      (plainService 0).providerKey plainProvider.hostname plainProvider.providerNamespace
        plainProvider.providerType = .ok plainProvider := by
    decide +kernel
  have hboot : boot (plainService 0) ∅ 7 = .ok (bootWith ∅ ∅ 7) := rfl
  obtain ⟨key, hkey, hordered⟩ := list_versions_monotonic hboot hrun hafter
    (task_of_listed hend.1) (Option.isNone_iff_eq_none.mp hend.2.1) (task_of_listed hend.2.2.1)
  rw [hend.2.2.2] at hkey
  cases hkey
  exact ⟨c₁, c₂, hrun, hafter, hordered⟩

end Plain

end OpenTfMirror.MonotonicReads
