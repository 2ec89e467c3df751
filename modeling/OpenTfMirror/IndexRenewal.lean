import OpenTfMirror.FetchSpacing
import OpenTfMirror.TaskLogs

/-!
# The indices in memory along a run

Whatever the tasks do and wherever they are dropped, the index of a provider in
memory stays, or gives way to one whose fetch was started after all that had
been published for the provider. A retry time that is gone comes back by a
failure recorded later. Both hold between any two moments that the history of
operations notes.
-/

namespace OpenTfMirror.IndexRenewal

open TaskProgram TaskLogic TaskHistory TaskLogs KeyedLocks FileNames FileStore Outbound Provider
  Metadata MetadataService IndexDiscovery MetadataMachine MetadataInvariant MetadataSteps MetadataExec
  MetadataProofs MetadataTasks MetadataRestart MetadataRuns

section States

/-- The index in memory is the same one, or was fetched after all that had been
published for the key. -/
structure Renewed (key : ProviderKey) (s s' : Shared) : Prop where
  published : ∀ p ∈ s.published, p ∈ s'.published
  entry : ∀ entry, s.indices.lookup key = some entry → ∃ entry', s'.indices.lookup key = some entry' ∧
    (entry' = entry ∨ ∃ stamp, ⟨key, stamp, entry'⟩ ∈ s'.published ∧
      ∀ p ∈ s.published, p.key = key → p.stamp < stamp)

variable {key : ProviderKey} {s s₁ s₂ s₃ s' : Shared}

theorem renewed_refl (key : ProviderKey) (s : Shared) : Renewed key s s :=
  ⟨fun _ h => h, fun entry h => ⟨entry, h, .inl rfl⟩⟩

theorem Renewed.trans (h : Renewed key s₁ s₂) (h' : Renewed key s₂ s₃) : Renewed key s₁ s₃ := by
  refine ⟨fun p hp => h'.published p (h.published p hp), fun entry hentry => ?_⟩
  obtain ⟨middle, hmiddle, hfirst⟩ := h.entry entry hentry
  obtain ⟨last, hlast, hsecond⟩ := h'.entry middle hmiddle
  refine ⟨last, hlast, ?_⟩
  rcases hsecond with rfl | ⟨stamp, hpublished, hlater⟩
  · rcases hfirst with rfl | ⟨stamp, hpublished, hlater⟩
    · exact .inl rfl
    · exact .inr ⟨stamp, h'.published _ hpublished, hlater⟩
  · exact .inr ⟨stamp, hpublished, fun p hp => hlater p (h.published p hp)⟩

theorem renewed_of_same (hindices : s'.indices = s.indices)
    (hpublished : ∀ p ∈ s.published, p ∈ s'.published) : Renewed key s s' := by
  refine ⟨hpublished, fun entry hentry => ⟨entry, ?_, .inl rfl⟩⟩
  rw [hindices]
  exact hentry

/-- A key in memory stays in memory. -/
theorem Renewed.mem (h : Renewed key s s') (hkey : key ∈ s.indices) : key ∈ s'.indices := by
  obtain ⟨entry, hentry⟩ := Option.isSome_iff_exists.mp (AList.lookup_isSome.mpr hkey)
  obtain ⟨entry', hentry', -⟩ := h.entry entry hentry
  exact AList.lookup_isSome.mp (by rw [hentry']; rfl)

end States

section Steps

variable {U : Type} [UrlCrate U] [SemverCrate] [JsonCrate]
variable {service : ProviderMetadataService} {R : Rules} {t : ℕ} {key : ProviderKey} {s s' : Shared}

/-- An operation: persisted indices come to keys without one, and a fetched one
is the latest of its key. -/
theorem renewed_exec {op : Op} {choice : Choice} {answer : Res op} (hs : Inv U service R s)
    (hpre : Pre U service R t op s) (hexec : exec U service t s op choice = some (answer, s')) :
    Renewed key s s' := by
  have hgrows : Grows U service R s s' := grows_exec hs hpre hexec
  rcases exec_indices hexec with hsame | ⟨key', entry', source, rfl, rfl⟩
  · exact renewed_of_same hsame hgrows.published
  · refine ⟨hgrows.published, fun entry hentry => ?_⟩
    cases source with
    | persisted =>
      have habsent : s.indices.lookup key' = none := hpre.2.1
      have hne : key ≠ key' := by
        rintro rfl
        rw [habsent] at hentry
        cases hentry
      exact ⟨entry, (AList.lookup_insert_ne hne).trans hentry, .inl rfl⟩
    | fetched stamp =>
      by_cases heq : key = key'
      · subst heq
        have hinv : Inv U service R (s.insertIndex key entry' (.fetched stamp)) :=
          (keeps_exec hs hpre hexec).1
        have hsorted := (List.pairwise_cons.mp hinv.published.sorted).1
        refine ⟨entry', AList.lookup_insert _, .inr ⟨stamp, List.mem_cons_self, fun p hp hkey => ?_⟩⟩
        exact hsorted p hp hkey.symm
      · exact ⟨entry, (AList.lookup_insert_ne heq).trans hentry, .inl rfl⟩

/-- Every step of a run. -/
theorem renewed_next {c c' : Config Op Res MetadataMachine.Out Shared}
    (hc : Verified (assertions U service R) (policy R) (machine U service) (fun _ => Anything) c)
    (hnext : (machine U service).Next (policy R) c c') : Renewed key c.shared c'.shared := by
  have hgrows := next_grows hc hnext
  have hindices : c'.shared.indices = c.shared.indices ∨ Renewed key c.shared c'.shared := by
    refine hc.related (fun s s' => s'.indices = s.indices ∨ Renewed key s s')
      (fun t s entry program s' _ hstart => .inl (congrArg Shared.indices (start_same hstart)))
      (fun t s op choice answer s' hinv hpre hexec => .inr (renewed_exec hinv hpre hexec))
      (fun t s op s' _ _ hcancel => .inl (cancel_indices hcancel))
      (fun s m s' _ _ hmove => .inl (move_indices hmove)) (fun s s' hreboot _ => hreboot.elim) hnext
  rcases hindices with hsame | hrenewed
  · exact renewed_of_same hsame hgrows.published
  · exact hrenewed

/-- What grows in one step grows along every run. -/
theorem renewed_run {key : ProviderKey} {c c' : Config Op Res MetadataMachine.Out Shared}
    (hc : Verified (assertions U service R) (policy R) (machine U service) (fun _ => Anything) c)
    (hrun : (machine U service).Run (policy R) c c') : Renewed key c.shared c'.shared := by
  induction hrun with
  | refl => exact renewed_refl key c.shared
  | tail hmiddle hnext ih =>
    exact ih.trans (renewed_next (adequacy (machine_sound U service R) hc hmiddle) hnext)

end Steps

section Timers

variable {U : Type} [UrlCrate U] [SemverCrate] [JsonCrate]
variable {service : ProviderMetadataService} {t : ℕ} {key : ProviderKey} {s s' : Shared}

/-- Steps that are no operations leave the retry times and the flag alone. -/
theorem silent_same (h : Silent (machine U service) s s') :
    s'.indexFailures = s.indexFailures ∧ s'.syncing = s.syncing := by
  cases h with
  | start t entry program h =>
    rw [start_same h]
    exact ⟨rfl, rfl⟩
  | cancel t op h =>
    have hview : FetchHistory.view ⟨s', []⟩ = FetchHistory.view ⟨s, []⟩ :=
      FetchSpacing.view_cancel (Option.map_eq_some_iff.mpr ⟨s', h, rfl⟩)
    exact ⟨congrArg FetchHistory.View.indexFailures hview, congrArg FetchHistory.View.syncing hview⟩
  | move m h =>
    have hmove : (FetchHistory.noted U service).move ⟨s, []⟩ m = some ⟨s', []⟩ :=
      Option.map_eq_some_iff.mpr ⟨s', h, rfl⟩
    obtain ⟨duration, hview⟩ := FetchSpacing.view_move hmove
    exact ⟨congrArg FetchHistory.View.indexFailures hview, congrArg FetchHistory.View.syncing hview⟩

/-- A retry time appears where a failure is recorded for its key. -/
theorem exec_unfailed {op : Op} {choice : Choice} {answer : Res op}
    (h : exec U service t s op choice = some (answer, s')) (hnone : s.indexFailures.lookup key = none) :
    s'.indexFailures.lookup key = none ∨ op = .recordFailure (.index key) := by
  by_cases hneutral : FetchHistory.Neutral op
  · have hview : FetchHistory.view ⟨s', []⟩ = FetchHistory.view ⟨s, []⟩ :=
      FetchHistory.view_exec hneutral h
    have hsame := congrArg FetchHistory.View.indexFailures hview
    left
    exact (congrArg (AList.lookup key) hsame).trans hnone
  · cases op with
    | recordFailure timer =>
      cases always_some h
      cases timer with
      | index key' =>
        by_cases heq : key = key'
        · subst heq
          exact .inr rfl
        · exact .inl (RetryTimers.lookup_record_none heq hnone)
      | version key' => exact .inl hnone
      | miss key' => exact .inl hnone
    | clearFailure timer =>
      cases always_some h
      cases timer with
      | index key' =>
        left
        by_cases heq : key = key'
        · rw [heq]
          exact AList.lookup_erase _ _
        · exact (AList.lookup_erase_ne heq).trans hnone
      | version key' => exact .inl hnone
      | miss key' => exact .inl hnone
    | indexLock op =>
      obtain ⟨locks, -, heq⟩ := Option.map_eq_some_iff.mp (eventually_some h)
      cases heq
      exact .inl hnone
    | trySync =>
      unfold exec at h
      dsimp only at h
      split at h
      · cases always_some h
        exact .inl hnone
      · cases always_some h
        exact .inl hnone
    | startVersions key =>
      cases always_some h
      exact .inl hnone
    | endSync =>
      cases always_some h
      exact .inl hnone
    | _ => exact absurd trivial hneutral

end Timers

section Runs

/-- A run of the service, started in the state, beside the log of all requests. -/
abbrev Logged (U : Type) [UrlCrate U] [SemverCrate] [JsonCrate] (service : ProviderMetadataService)
    (s : Shared) (c : Config Op Res MetadataMachine.Out (Noted Shared (Performance Res Shared))) :
    Prop :=
  (logging (machine U service)).Run .free ⟨⟨s, []⟩, fun _ => none⟩ c

variable {U : Type} [UrlCrate U] [SemverCrate] [JsonCrate]
variable {service : ProviderMetadataService} {files : Files} {pid : ℕ} {s : Shared}
variable {c : Config Op Res MetadataMachine.Out (Noted Shared (Performance Res Shared))}

/-- Without the log it is verified. -/
theorem logged_verified (hboot : boot service files pid = .ok s) (h : Logged U service s c) :
    Verified (assertions U service Rules.none) (policy Rules.none) (machine U service)
      (fun _ => Anything) (forget c) :=
  adequacy (machine_sound U service Rules.none) (verified_idle (boot_inv hboot))
    (run_of_free (run_forget (P := .free) h))

/-- Between any two moments of a run, indices in memory are renewed only. -/
theorem logged_renewed (hboot : boot service files pid = .ok s) (h : Logged U service s c)
    (key : ProviderKey) : Ordered (Renewed key) c.shared := by
  refine ordered_of_run (fun _ => rfl) (renewed_refl key) (fun _ _ _ h h' => h.trans h') ?_ h
  intro c₁ c₂ hrun hnext
  exact renewed_run (logged_verified hboot hrun)
    (run_of_free (run_forget (P := .free) (.tail .refl hnext)))

/-- A key whose retry time was gone has one only when a fetch of it failed since. -/
theorem logged_unfailed (h : Logged U service s c) {key : ProviderKey} {p : Performance Res Shared}
    {later earlier : List (Performance Res Shared)} (heq : c.shared.history = later ++ p :: earlier)
    (hp : p.after.indexFailures.lookup key = none) :
    c.shared.state.indexFailures.lookup key = none ∨
      ∃ q ∈ later, q.event.1 = .recordFailure (.index key) := by
  refine kept_since (fun s => s.indexFailures.lookup key = none)
    (fun op => op = .recordFailure (.index key)) (fun _ => rfl) (fun s s' hsilent hs => ?_)
    (fun t s op choice answer s' hexec hs => exec_unfailed hexec hs) h later p earlier heq hp
  rw [(silent_same hsilent).1]
  exact hs

end Runs

end OpenTfMirror.IndexRenewal
