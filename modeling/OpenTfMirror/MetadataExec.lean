import OpenTfMirror.MetadataFiles

/-!
# Every operation of the metadata service keeps the invariant

One lemma for each kind of change of locks, caches, requests in flight and the
record; then all operations of a task, the end of a dropped request, and the
operations that it left behind.
-/

namespace OpenTfMirror.MetadataExec

open TaskProgram TaskLogic KeyedLocks FileNames FileStore Outbound Provider Metadata
  MetadataService IndexDiscovery MetadataMachine MetadataInvariant MetadataSteps MetadataFiles

variable {U : Type} [UrlCrate U] [SemverCrate] [JsonCrate]
variable {service : ProviderMetadataService} {R : Rules} {t : ℕ} {s s' : Shared}

section Locks

/-- A step on the table of the index locks, outside any index request. -/
theorem keeps_indexLock {op : LockOp ProviderKey} {L : LockTable ProviderKey}
    (hs : Inv U service R s) (hpre : op.Pre s.indexLocks t) (hgrounded : Grounded t s)
    (h : s.indexLocks.perform t op = some L) :
    Keeps U service R (Others t) s { s with indexLocks := L } := by
  have hg : Grows U service R s { s with indexLocks := L } :=
    grows_of (fun _ h => h) (fun _ h => h) (fun _ _ => rfl) (fun _ h => h) (fun _ h => h)
      (fun _ h => h) (fun _ h => h) (le_refl _) rfl
  have hsame : ∀ t', t' ≠ t → s.indexLocks.Same t' L := fun t' hne => perform_same hne h
  constructor
  · constructor
    · exact perform_consistent hs.index_locks hpre h
    · exact hs.version_locks
    · exact cacheInv_transfer hs.caches hg rfl rfl
    · refine flightInv_transfer hs.flights rfl rfl (le_refl _) fun flight hflight hheld => ?_
      exact (hsame flight.task (hgrounded flight hflight)).holds_iff.mpr hheld
    · exact publishInv_transfer hs.published rfl rfl (le_refl _) fun _ _ => rfl
    · exact fileInv_transfer hs.files hg (List.Sublist.refl _) rfl rfl (le_refl _) rfl rfl
        (fun _ _ => rfl) (fun _ _ _ _ => rfl)
    · exact fun ho hp => orderInv_transfer (hs.order ho hp) (List.Sublist.refl _) rfl rfl rfl
    · exact loadInv_transfer hs.loads hg rfl rfl
  · intro t' hne
    exact frame_of hg (hsame t' hne) (same_refl t' _) (fun _ _ => rfl) (fun _ _ _ hp _ => hp)
      (fun _ _ _ hd _ _ => hd) rfl rfl (fun _ h => ⟨h, rfl, rfl⟩) (fun _ _ => Iff.rfl)

/-- A step on the table of the version locks. -/
theorem keeps_versionLock {op : LockOp VersionKey} {L : LockTable VersionKey}
    (hs : Inv U service R s) (hpre : op.Pre s.versionLocks t)
    (h : s.versionLocks.perform t op = some L) :
    Keeps U service R (Others t) s { s with versionLocks := L } := by
  have hg : Grows U service R s { s with versionLocks := L } :=
    grows_of (fun _ h => h) (fun _ h => h) (fun _ _ => rfl) (fun _ h => h) (fun _ h => h)
      (fun _ h => h) (fun _ h => h) (le_refl _) rfl
  constructor
  · constructor
    · exact hs.index_locks
    · exact perform_consistent hs.version_locks hpre h
    · exact cacheInv_transfer hs.caches hg rfl rfl
    · exact flightInv_transfer hs.flights rfl rfl (le_refl _) fun _ _ hheld => hheld
    · exact publishInv_transfer hs.published rfl rfl (le_refl _) fun _ _ => rfl
    · exact fileInv_transfer hs.files hg (List.Sublist.refl _) rfl rfl (le_refl _) rfl rfl
        (fun _ _ => rfl) (fun _ _ _ _ => rfl)
    · exact fun ho hp => orderInv_transfer (hs.order ho hp) (List.Sublist.refl _) rfl rfl rfl
    · exact loadInv_transfer hs.loads hg rfl rfl
  · intro t' hne
    exact frame_of hg (same_refl t' _) (perform_same hne h) (fun _ _ => rfl) (fun _ _ _ hp _ => hp)
      (fun _ _ _ hd _ _ => hd) rfl rfl (fun _ h => ⟨h, rfl, rfl⟩) (fun _ _ => Iff.rfl)

end Locks

section Caches

omit [SemverCrate] [JsonCrate] in
/-- Keys stay when one is inserted. -/
theorem mem_insert_of_mem {K V : Type} [DecidableEq K] {l : AList fun _ : K => V} {key key' : K}
    {value : V} (h : key' ∈ l) : key' ∈ l.insert key value :=
  AList.mem_insert l |>.mpr (.inr h)

/-- An index is inserted by the task that holds its lock. -/
theorem keeps_insertIndex {key : ProviderKey} {entry : IndexEntry} {source : IndexSource}
    (hs : Inv U service R s) (hpre : Pre U service R t (.insertIndex key entry source) s) :
    Keeps U service R (Others t) s (s.insertIndex key entry source) := by
  have hothers : ∀ t', t' ≠ t → s.indexLocks.Holds t key → ¬s.indexLocks.Holds t' key :=
    fun t' hne hheld hheld' => hne (holds_unique hs.index_locks hheld' hheld)
  cases source with
  | persisted =>
    obtain ⟨hheld, habsent, hkey, hvalid, horigin⟩ := hpre
    have hg : Grows U service R s (s.insertIndex key entry .persisted) :=
      grows_of (fun _ h => mem_insert_of_mem h) (fun _ h => h) (fun _ _ => rfl) (fun _ h => h)
        (fun _ h => h) (fun _ h => h) (fun _ h => h) (le_refl _) rfl
    constructor
    · constructor
      · exact hs.index_locks
      · exact hs.version_locks
      · refine ⟨fun key' entry' hentry' => ?_, fun key' entry' hentry' => ?_⟩
        · rcases lookup_insert_cases hentry' with ⟨rfl, rfl⟩ | ⟨-, hold⟩
          · exact ⟨hkey, hvalid, indexOrigin_grows horigin hg⟩
          · obtain ⟨hkey', hvalid', horigin'⟩ := hs.caches.indices key' entry' hold
            exact ⟨hkey', hvalid', indexOrigin_grows horigin' hg⟩
        · obtain ⟨hkey', haccepted', horigin'⟩ := hs.caches.versions key' entry' hentry'
          exact ⟨hkey', haccepted', versionOrigin_grows horigin' hg⟩
      · exact flightInv_transfer hs.flights rfl rfl (le_refl _) fun _ _ hheld => hheld
      · refine publishInv_transfer hs.published rfl rfl (le_refl _) fun p hp => ?_
        -- The key was absent, so nothing was published for it.
        have hne : p.key ≠ key := by
          intro heq
          have hsome : (s.published.find? fun q => q.key = key).isSome = true := by
            rw [List.find?_isSome]
            exact ⟨p, hp, by simpa using heq⟩
          obtain ⟨q, hq⟩ := Option.isSome_iff_exists.mp hsome
          rw [hs.published.cached key q hq] at habsent
          cases habsent
        exact AList.lookup_insert_ne hne
      · exact fileInv_transfer hs.files hg (List.Sublist.refl _) rfl rfl (le_refl _) rfl rfl
          (fun _ _ => rfl) (fun _ _ _ _ => rfl)
      · exact fun ho hp => orderInv_transfer (hs.order ho hp) (List.Sublist.refl _) rfl rfl rfl
      · exact loadInv_transfer hs.loads hg rfl rfl
    · intro t' hne
      refine frame_of hg (same_refl t' _) (same_refl t' _) ?_ (fun _ _ _ hp _ => hp)
        (fun _ _ _ hd _ _ => hd) rfl rfl (fun _ h => ⟨h, rfl, rfl⟩) (fun _ _ => Iff.rfl)
      intro key' hheld'
      refine AList.lookup_insert_ne fun heq => ?_
      rw [heq] at hheld'
      exact hothers t' hne hheld hheld'
  | fetched stamp =>
    obtain ⟨hheld, hbelow, hkey, hvalid, hcomplete, hfetched, hplaced⟩ := hpre
    have hg : Grows U service R s (s.insertIndex key entry (.fetched stamp)) :=
      grows_of (fun _ h => mem_insert_of_mem h) (fun _ h => h) (fun _ _ => rfl) (fun _ h => h)
        (fun _ h => List.mem_cons_of_mem _ h) (fun _ h => h) (fun _ h => h) (le_refl _) rfl
    constructor
    · constructor
      · exact hs.index_locks
      · exact hs.version_locks
      · refine ⟨fun key' entry' hentry' => ?_, fun key' entry' hentry' => ?_⟩
        · rcases lookup_insert_cases hentry' with ⟨rfl, rfl⟩ | ⟨-, hold⟩
          · exact ⟨hkey, hvalid, .inl ⟨stamp, List.mem_cons_self⟩⟩
          · obtain ⟨hkey', hvalid', horigin'⟩ := hs.caches.indices key' entry' hold
            exact ⟨hkey', hvalid', indexOrigin_grows horigin' hg⟩
        · obtain ⟨hkey', haccepted', horigin'⟩ := hs.caches.versions key' entry' hentry'
          exact ⟨hkey', haccepted', versionOrigin_grows horigin' hg⟩
      · exact flightInv_transfer hs.flights rfl rfl (le_refl _) fun _ _ hheld => hheld
      · constructor
        · exact hs.published.fetched
        · exact hs.published.stamps
        · intro p hp
          rcases List.mem_cons.mp hp with rfl | hp
          · exact ⟨hcomplete, hfetched⟩
          · exact hs.published.published p hp
        · refine List.pairwise_cons.mpr ⟨?_, hs.published.sorted⟩
          intro p hp heq
          exact hbelow p hp heq.symm
        · intro key' p hp
          by_cases heq : key = key'
          · subst heq
            rw [Shared.insertIndex, List.find?_cons_of_pos (by simp)] at hp
            cases hp
            exact AList.lookup_insert _
          · rw [Shared.insertIndex, List.find?_cons_of_neg (by simpa using heq)] at hp
            rw [Shared.insertIndex, AList.lookup_insert_ne (Ne.symm heq)]
            exact hs.published.cached key' p hp
      · exact fileInv_transfer hs.files hg (List.Sublist.refl _) rfl rfl (le_refl _) rfl rfl
          (fun _ _ => rfl) (fun _ _ _ _ => rfl)
      · intro ho hp
        have hold := hs.order ho hp
        refine ⟨hold.detached, hold.newer, fun p hmem => ?_⟩
        rcases List.mem_cons.mp hmem with rfl | hmem
        · exact ⟨stamp, entry, (hplaced ho hp).written, .inr ⟨rfl, rfl⟩⟩
        · exact hold.persisted p hmem
      · exact loadInv_transfer hs.loads hg rfl rfl
    · intro t' hne
      refine frame_of hg (same_refl t' _) (same_refl t' _) ?_ ?_ (fun _ _ _ hd _ _ => hd) rfl rfl
        (fun _ h => ⟨h, rfl, rfl⟩) (fun _ _ => Iff.rfl)
      · intro key' hheld'
        refine AList.lookup_insert_ne fun heq => ?_
        rw [heq] at hheld'
        exact hothers t' hne hheld hheld'
      · intro key' hheld' p hp hpkey
        rcases List.mem_cons.mp hp with rfl | hp
        · rw [← hpkey] at hheld'
          exact absurd hheld' (hothers t' hne hheld)
        · exact hp

/-- A version is inserted with accepted metadata. -/
theorem keeps_insertVersion {key : VersionKey} {entry : VersionEntry} {source : VersionSource}
    (hs : Inv U service R s) (hpre : Pre U service R t (.insertVersion key entry source) s) :
    Keeps U service R (Others t) s (s.insertVersion key entry source) := by
  obtain ⟨hkey, haccepted, horigin⟩ := hpre
  have hstate : ∃ refreshed, (∀ x ∈ s.refreshed, x ∈ refreshed) ∧
      (source = .refreshed → (key, entry) ∈ refreshed) ∧ s.insertVersion key entry source =
        { s with versions := s.versions.insert key entry, refreshed := refreshed } := by
    cases source with
    | persisted => exact ⟨s.refreshed, fun _ h => h, nofun, rfl⟩
    | refreshed =>
      exact ⟨_, fun _ h => List.mem_cons_of_mem _ h, fun _ => List.mem_cons_self, rfl⟩
  obtain ⟨refreshed, hsub, hnew, hstate⟩ := hstate
  rw [hstate]
  have hg : Grows U service R s
      { s with versions := s.versions.insert key entry, refreshed := refreshed } :=
    grows_of (fun _ h => h) (fun _ h => mem_insert_of_mem h) (fun _ _ => rfl) (fun _ h => h)
      (fun _ h => h) hsub (fun _ h => h) (le_refl _) rfl
  constructor
  · constructor
    · exact hs.index_locks
    · exact hs.version_locks
    · refine ⟨fun key' entry' hentry' => ?_, fun key' entry' hentry' => ?_⟩
      · obtain ⟨hkey', hvalid', horigin'⟩ := hs.caches.indices key' entry' hentry'
        exact ⟨hkey', hvalid', indexOrigin_grows horigin' hg⟩
      · rcases lookup_insert_cases hentry' with ⟨rfl, rfl⟩ | ⟨-, hold⟩
        · refine ⟨hkey, haccepted, ?_⟩
          cases source with
          | persisted => exact versionOrigin_grows (horigin rfl) hg
          | refreshed => exact .inl (hnew rfl)
        · obtain ⟨hkey', haccepted', horigin'⟩ := hs.caches.versions key' entry' hold
          exact ⟨hkey', haccepted', versionOrigin_grows horigin' hg⟩
    · exact flightInv_transfer hs.flights rfl rfl (le_refl _) fun _ _ hheld => hheld
    · exact publishInv_transfer hs.published rfl rfl (le_refl _) fun _ _ => rfl
    · exact fileInv_transfer hs.files hg (List.Sublist.refl _) rfl rfl (le_refl _) rfl rfl
        (fun _ _ => rfl) (fun _ _ _ _ => rfl)
    · exact fun ho hp => orderInv_transfer (hs.order ho hp) (List.Sublist.refl _) rfl rfl rfl
    · exact loadInv_transfer hs.loads hg rfl rfl
  · intro t' _
    exact frame_of hg (same_refl t' _) (same_refl t' _) (fun _ _ => rfl) (fun _ _ _ hp _ => hp)
      (fun _ _ _ hd _ _ => hd) rfl rfl (fun _ h => ⟨h, rfl, rfl⟩) (fun _ _ => Iff.rfl)

end Caches

section Flights

/-- An index request starts inside the key's lock. -/
theorem keeps_startVersions {key : ProviderKey} (hs : Inv U service R s)
    (hheld : s.indexLocks.Holds t key) (hgrounded : Grounded t s) :
    Keeps U service R (Others t) s { s with
      nextStamp := s.nextStamp + 1
      inFlight := ⟨t, s.nextStamp, key⟩ :: s.inFlight } := by
  have hg : Grows U service R s { s with
      nextStamp := s.nextStamp + 1
      inFlight := ⟨t, s.nextStamp, key⟩ :: s.inFlight } :=
    grows_of (fun _ h => h) (fun _ h => h) (fun _ _ => rfl) (fun _ h => h) (fun _ h => h)
      (fun _ h => h) (fun _ h => h) (Nat.le_succ _) rfl
  constructor
  · constructor
    · exact hs.index_locks
    · exact hs.version_locks
    · exact cacheInv_transfer hs.caches hg rfl rfl
    · constructor
      · intro flight hflight
        rcases List.mem_cons.mp hflight with rfl | hflight
        · exact hheld
        · exact hs.flights.holds flight hflight
      · refine List.nodup_cons.mpr ⟨?_, hs.flights.tasks⟩
        intro hmem
        obtain ⟨flight, hflight, htask⟩ := List.mem_map.mp hmem
        exact hgrounded flight hflight htask
      · refine List.nodup_cons.mpr ⟨?_, hs.flights.stamps⟩
        intro hmem
        obtain ⟨flight, hflight, hstamp⟩ := List.mem_map.mp hmem
        have hlt := hs.flights.started flight hflight
        dsimp only at hstamp
        omega
      · intro flight hflight
        rcases List.mem_cons.mp hflight with rfl | hflight
        · exact Nat.lt_succ_self _
        · exact Nat.lt_succ_of_lt (hs.flights.started flight hflight)
      · intro flight hflight fetch hfetch
        rcases List.mem_cons.mp hflight with rfl | hflight
        · have hlt := hs.published.fetched fetch hfetch
          dsimp only
          omega
        · exact hs.flights.unanswered flight hflight fetch hfetch
    · exact publishInv_transfer hs.published rfl rfl (Nat.le_succ _) fun _ _ => rfl
    · exact fileInv_transfer hs.files hg (List.Sublist.refl _) rfl rfl (le_refl _) rfl rfl
        (fun _ _ => rfl) (fun _ _ _ _ => rfl)
    · exact fun ho hp => orderInv_transfer (hs.order ho hp) (List.Sublist.refl _) rfl rfl rfl
    · exact loadInv_transfer hs.loads hg rfl rfl
  · intro t' hne
    refine frame_of hg (same_refl t' _) (same_refl t' _) (fun _ _ => rfl) (fun _ _ _ hp _ => hp)
      (fun _ _ _ hd _ _ => hd) rfl rfl (fun _ h => ⟨h, rfl, rfl⟩) ?_
    intro flight htask
    constructor
    · intro hmem
      rcases List.mem_cons.mp hmem with rfl | hmem
      · exact absurd htask.symm hne
      · exact hmem
    · exact fun hmem => List.mem_cons_of_mem _ hmem

omit [SemverCrate] [JsonCrate] in
/-- The requests of one task end, and only they are answered. -/
theorem flightInv_filter (h : FlightInv s) (hlocks : s'.indexLocks = s.indexLocks)
    (hstamp : s'.nextStamp = s.nextStamp)
    (hflights : s'.inFlight = s.inFlight.filter fun flight => flight.task ≠ t)
    (hfetched : ∀ fetch ∈ s'.fetched, fetch ∈ s.fetched ∨
      ∃ flight ∈ s.inFlight, flight.task = t ∧ fetch.stamp = flight.stamp) : FlightInv s' := by
  have hsub : s'.inFlight.Sublist s.inFlight := by
    rw [hflights]
    exact List.filter_sublist
  constructor
  · intro flight hflight
    rw [hlocks]
    exact h.holds flight (hsub.subset hflight)
  · exact h.tasks.sublist (hsub.map _)
  · exact h.stamps.sublist (hsub.map _)
  · intro flight hflight
    rw [hstamp]
    exact h.started flight (hsub.subset hflight)
  · intro flight hflight fetch hfetch
    have hmem := hsub.subset hflight
    rcases hfetched fetch hfetch with hold | ⟨flight', hflight', htask, hstamp'⟩
    · exact h.unanswered flight hmem fetch hold
    · intro heq
      have hsame : flight' = flight :=
        List.inj_on_of_nodup_map h.stamps hflight' hmem (hstamp'.symm.trans heq)
      subst hsame
      rw [hflights] at hflight
      exact absurd htask (by simpa using (List.mem_filter.mp hflight).2)

omit [SemverCrate] [JsonCrate] in
/-- The flights of other tasks after those of one task ended. -/
theorem mem_filter_task {t' : ℕ} (hne : t' ≠ t) {flight : Flight} (htask : flight.task = t') :
    flight ∈ s.inFlight.filter (fun flight => flight.task ≠ t) ↔ flight ∈ s.inFlight := by
  rw [List.mem_filter]
  constructor
  · exact fun h => h.1
  · intro h
    refine ⟨h, ?_⟩
    rw [htask]
    simpa using hne

/-- The answer to an index request. -/
theorem keeps_awaitVersions {key : ProviderKey} {stamp : ℕ} {choice : Choice}
    {answer : Except RegistryError (List RegistryVersion)} (hs : Inv U service R s)
    (hflight : ⟨t, stamp, key⟩ ∈ s.inFlight)
    (h : s.awaitVersions t key stamp choice = some (answer, s')) :
    Keeps U service R (Others t) s s' := by
  have hstate : ∃ fetched, (∀ x ∈ s.fetched, x ∈ fetched) ∧
      (∀ fetch ∈ fetched, fetch ∈ s.fetched ∨ fetch.stamp = stamp) ∧
      ((fetched.map Fetch.stamp).Nodup) ∧ s' = { s with
        inFlight := s.inFlight.filter fun flight => flight.task ≠ t
        fetched := fetched } := by
    unfold Shared.awaitVersions at h
    cases choice with
    | versions reply =>
      cases reply with
      | error error =>
        cases h
        exact ⟨s.fetched, fun _ h => h, fun _ h => .inl h, hs.published.stamps, rfl⟩
      | ok versions =>
        cases h
        refine ⟨_, fun _ h => List.mem_cons_of_mem _ h, ?_, ?_, rfl⟩
        · intro fetch hfetch
          rcases List.mem_cons.mp hfetch with rfl | hfetch
          · exact .inr rfl
          · exact .inl hfetch
        · refine List.nodup_cons.mpr ⟨?_, hs.published.stamps⟩
          intro hmem
          obtain ⟨fetch, hfetch, hstamp⟩ := List.mem_map.mp hmem
          exact hs.flights.unanswered _ hflight fetch hfetch hstamp
    | _ => cases h
  obtain ⟨fetched, hsub, hnew, hnodup, rfl⟩ := hstate
  have hstarted := hs.flights.started _ hflight
  have hg : Grows U service R s { s with
      inFlight := s.inFlight.filter fun flight => flight.task ≠ t
      fetched := fetched } :=
    grows_of (fun _ h => h) (fun _ h => h) (fun _ _ => rfl) hsub (fun _ h => h)
      (fun _ h => h) (fun _ h => h) (le_refl _) rfl
  constructor
  · constructor
    · exact hs.index_locks
    · exact hs.version_locks
    · exact cacheInv_transfer hs.caches hg rfl rfl
    · refine flightInv_filter hs.flights rfl rfl rfl fun fetch hfetch => ?_
      rcases hnew fetch hfetch with hold | hstamp
      · exact .inl hold
      · exact .inr ⟨_, hflight, rfl, hstamp⟩
    · constructor
      · intro fetch hfetch
        rcases hnew fetch hfetch with hold | hstamp
        · exact hs.published.fetched fetch hold
        · rw [hstamp]
          exact hstarted
      · exact hnodup
      · intro p hp
        obtain ⟨hcomplete, hfetched⟩ := hs.published.published p hp
        exact ⟨hcomplete, hsub _ hfetched⟩
      · exact hs.published.sorted
      · exact hs.published.cached
    · exact fileInv_transfer hs.files hg (List.Sublist.refl _) rfl rfl (le_refl _) rfl rfl
        (fun _ _ => rfl) (fun _ _ _ _ => rfl)
    · exact fun ho hp => orderInv_transfer (hs.order ho hp) (List.Sublist.refl _) rfl rfl rfl
    · exact loadInv_transfer hs.loads hg rfl rfl
  · intro t' hne
    exact frame_of hg (same_refl t' _) (same_refl t' _) (fun _ _ => rfl) (fun _ _ _ hp _ => hp)
      (fun _ _ _ hd _ _ => hd) rfl rfl (fun _ h => ⟨h, rfl, rfl⟩)
      (fun _ htask => mem_filter_task hne htask)

end Flights

section Record

/-- A task draws a sequence number. -/
theorem keeps_nextSequence (hs : Inv U service R s) :
    Keeps U service R (Others t) s { s with
      sequence := s.sequence + 1
      owner := Function.update s.owner s.sequence (some t) } := by
  have hg : Grows U service R s { s with
      sequence := s.sequence + 1
      owner := Function.update s.owner s.sequence (some t) } :=
    grows_of (fun _ h => h) (fun _ h => h) (fun _ _ => rfl) (fun _ h => h) (fun _ h => h)
      (fun _ h => h) (fun _ h => h) (le_refl _) rfl
  constructor
  · constructor
    · exact hs.index_locks
    · exact hs.version_locks
    · exact cacheInv_transfer hs.caches hg rfl rfl
    · exact flightInv_transfer hs.flights rfl rfl (le_refl _) fun _ _ hheld => hheld
    · exact publishInv_transfer hs.published rfl rfl (le_refl _) fun _ _ => rfl
    · constructor
      case owner =>
        intro n t' hn
        by_cases heq : n = s.sequence
        · subst heq
          exact Nat.lt_succ_self _
        · dsimp only at hn
          rw [Function.update_of_ne heq] at hn
          exact Nat.lt_succ_of_lt (hs.files.owner n t' hn)
      case written => exact hs.files.written
      case answered => exact hs.files.answered
      case written_lt => exact hs.files.written_lt
      case latest => exact hs.files.latest
      case issue => exact hs.files.issue
      case abandoned =>
        intro d hd path hpath
        obtain ⟨dir, pid, n, heq, howner, hlt⟩ := hs.files.abandoned d hd path hpath
        refine ⟨dir, pid, n, heq, ?_, Nat.lt_succ_of_lt hlt⟩
        exact (Function.update_of_ne (Nat.ne_of_lt hlt) _ _).trans howner
      case publishable =>
        intro d hd source target document hop
        have hold := hs.files.publishable d hd source target document hop
        exact ⟨hold.sane, hold.target, hold.complete, hold.stamp, hold.settled, hold.indexed,
          hold.answered⟩
      case distinct => exact hs.files.distinct
    · exact fun ho hp => orderInv_transfer (hs.order ho hp) (List.Sublist.refl _) rfl rfl rfl
    · exact loadInv_transfer hs.loads hg rfl rfl
  · intro t' _
    refine frame_of hg (same_refl t' _) (same_refl t' _) (fun _ _ => rfl) (fun _ _ _ hp _ => hp)
      (fun _ _ _ hd _ _ => hd) rfl rfl ?_ (fun _ _ => Iff.rfl)
    rintro path ⟨dir, pid, n, heq, howner⟩
    have hlt := hs.files.owner n t' howner
    refine ⟨⟨dir, pid, n, heq, ?_⟩, rfl, rfl⟩
    exact (Function.update_of_ne (Nat.ne_of_lt hlt) _ _).trans howner

/-- A loader is left. -/
theorem keeps_loads {others : ℕ → Prop}
    {indexLoads : List (Load ProviderKey (List RegistryVersion))}
    {versionLoads : List (Load VersionKey VersionMetadata)} (hs : Inv U service R s)
    (hloads : LoadInv U service R
      { s with indexLoads := indexLoads, versionLoads := versionLoads }) :
    Keeps U service R others s
      { s with indexLoads := indexLoads, versionLoads := versionLoads } := by
  have hg : Grows U service R s
      { s with indexLoads := indexLoads, versionLoads := versionLoads } :=
    grows_of (fun _ h => h) (fun _ h => h) (fun _ _ => rfl) (fun _ h => h) (fun _ h => h)
      (fun _ h => h) (fun _ h => h) (le_refl _) rfl
  constructor
  · constructor
    · exact hs.index_locks
    · exact hs.version_locks
    · exact cacheInv_transfer hs.caches hg rfl rfl
    · exact flightInv_transfer hs.flights rfl rfl (le_refl _) fun _ _ hheld => hheld
    · exact publishInv_transfer hs.published rfl rfl (le_refl _) fun _ _ => rfl
    · exact fileInv_transfer hs.files hg (List.Sublist.refl _) rfl rfl (le_refl _) rfl rfl
        (fun _ _ => rfl) (fun _ _ _ _ => rfl)
    · exact fun ho hp => orderInv_transfer (hs.order ho hp) (List.Sublist.refl _) rfl rfl rfl
    · exact hloads
  · intro t' _
    exact frame_of hg (same_refl t' _) (same_refl t' _) (fun _ _ => rfl) (fun _ _ _ hp _ => hp)
      (fun _ _ _ hd _ _ => hd) rfl rfl (fun _ h => ⟨h, rfl, rfl⟩) (fun _ _ => Iff.rfl)

end Record

section Dropping

/-- What a dropped request leaves behind: possibly one more operation. -/
abbrev leftBehind (s : Shared) (t : ℕ) (left : List Detached) (issued : ℕ) : Shared :=
  { s.dropped t with detached := s.detached ++ left, issued := issued }

/-- The operations left behind by one task belong to it, and were just issued. -/
structure LeftBy (U : Type) [UrlCrate U] [SemverCrate] [JsonCrate]
    (service : ProviderMetadataService) (R : Rules) (t : ℕ) (left : List Detached) (issued : ℕ)
    (s : Shared) : Prop where
  short : left.length ≤ 1
  issue : ∀ d ∈ left, d.issue = s.issued ∧ s.issued < issued
  pre : ∀ d ∈ left, FilePre U service R t d.op s
  issued : s.issued ≤ issued

omit [SemverCrate] [JsonCrate] in
theorem dropped_owner {n t' : ℕ} (h : (s.dropped t).owner n = some t') :
    t' ≠ t ∧ s.owner n = some t' := by
  unfold Shared.dropped at h
  dsimp only at h
  split at h
  · cases h
  · rename_i hne
    refine ⟨fun heq => ?_, h⟩
    rw [heq] at h
    exact hne h

omit [SemverCrate] [JsonCrate] in
theorem dropped_owner_of_ne {n t' : ℕ} (hne : t' ≠ t) (h : s.owner n = some t') :
    (s.dropped t).owner n = some t' := by
  unfold Shared.dropped
  dsimp only
  rw [if_neg]
  · exact h
  · rw [h]
    intro heq
    exact hne (Option.some.inj heq)

omit [SemverCrate] [JsonCrate] in
theorem dropped_unowned {n : ℕ} (h : s.owner n = none ∨ s.owner n = some t) :
    (s.dropped t).owner n = none := by
  unfold Shared.dropped
  dsimp only
  rcases h with h | h
  · rw [h]
    rfl
  · rw [if_pos h]

theorem leftBehind_files {left : List Detached} {issued : ℕ} (hs : FileInv U service R s)
    (hleft : LeftBy U service R t left issued s) :
    FileInv U service R (leftBehind s t left issued) := by
  constructor
  case owner =>
    intro n t' hn
    exact hs.owner n t' (dropped_owner hn).2
  case written => exact hs.written
  case answered => exact hs.answered
  case written_lt => exact hs.written_lt
  case latest => exact fun path => lt_of_lt_of_le (hs.latest path) hleft.issued
  case issue =>
    intro d hd
    rcases List.mem_append.mp hd with hd | hd
    · exact lt_of_lt_of_le (hs.issue d hd) hleft.issued
    · obtain ⟨hissue, hlt⟩ := hleft.issue d hd
      rw [hissue]
      exact hlt
  case abandoned =>
    intro d hd path hpath
    rcases List.mem_append.mp hd with hd | hd
    · obtain ⟨dir, pid, n, heq, howner, hlt⟩ := hs.abandoned d hd path hpath
      exact ⟨dir, pid, n, heq, dropped_unowned (.inl howner), hlt⟩
    · obtain ⟨dir, pid, n, heq, howner⟩ := (hleft.pre d hd).1 path hpath
      exact ⟨dir, pid, n, heq, dropped_unowned (.inr howner), hs.owner n t howner⟩
  case publishable =>
    intro d hd source target document hop
    rcases List.mem_append.mp hd with hd | hd
    · have hold := hs.publishable d hd source target document hop
      exact ⟨hold.sane, hold.target, hold.complete, hold.stamp, hold.settled, hold.indexed,
        hold.answered⟩
    · have hnew := ((hleft.pre d hd).2 source target document hop).1
      exact ⟨hnew.sane, hnew.target, hnew.complete, hnew.stamp, hnew.settled, hnew.indexed,
        hnew.answered⟩
  case distinct =>
    refine List.pairwise_append.mpr ⟨hs.distinct, ?_, ?_⟩
    · have hshort := hleft.short
      match left, hshort with
      | [], _ => exact List.Pairwise.nil
      | [d], _ => exact List.pairwise_singleton _ d
    · intro d hd d' hd' path hpath hpath'
      exact not_owns_of_abandoned (hs.abandoned d hd path hpath) ((hleft.pre d' hd').1 path hpath')

theorem leftBehind_order {left : List Detached} {issued : ℕ} (hs : Inv U service R s)
    (hleft : LeftBy U service R t left issued s) (ho : R.ordered) (hp : R.plain) :
    OrderInv service (leftBehind s t left issued) := by
  have hold := hs.order ho hp
  have hbelow : ∀ d ∈ left, ∀ key n, Publishes d.op key n → Below service key n s := by
    intro d hd key n hn
    obtain ⟨source, target, document, hop, hdocument⟩ := hn
    exact (((hleft.pre d hd).2 source target document hop).2 key n hdocument).2
  constructor
  · refine List.pairwise_append.mpr ⟨hold.detached, ?_, ?_⟩
    · have hshort := hleft.short
      match left, hshort with
      | [], _ => exact List.Pairwise.nil
      | [d], _ => exact List.pairwise_singleton _ d
    · intro d hd d' hd'
      constructor
      · rw [(hleft.issue d' hd').1]
        exact hs.files.issue d hd
      · intro key n n' hn hn'
        exact (hbelow d' hd' key n' hn').detached d hd n hn
  · intro d hd key n hn hle m hm
    rcases List.mem_append.mp hd with hd | hd
    · exact hold.newer d hd key n hn hle m hm
    · exact (hbelow d hd key n hn).written m hm
  · exact hold.persisted

/-- A request is dropped. -/
theorem keeps_leftBehind {left : List Detached} {issued : ℕ} (hs : Inv U service R s)
    (hleft : LeftBy U service R t left issued s) :
    Keeps U service R (Others t) s (leftBehind s t left issued) := by
  have hg : Grows U service R s (leftBehind s t left issued) :=
    grows_of (fun _ h => h) (fun _ h => h) (fun _ _ => rfl) (fun _ h => h) (fun _ h => h)
      (fun _ h => h) (fun _ h => h) (le_refl _) rfl
  constructor
  · constructor
    · exact hs.index_locks
    · exact hs.version_locks
    · exact cacheInv_transfer hs.caches hg rfl rfl
    · exact flightInv_filter (t := t) hs.flights rfl rfl rfl fun _ hfetch => .inl hfetch
    · exact publishInv_transfer hs.published rfl rfl (le_refl _) fun _ _ => rfl
    · exact leftBehind_files hs.files hleft
    · exact fun ho hp => leftBehind_order hs hleft ho hp
    · exact loadInv_transfer hs.loads hg rfl rfl
  · intro t' hne
    refine frame_of hg (same_refl t' _) (same_refl t' _) (fun _ _ => rfl) (fun _ _ _ hp _ => hp)
      ?_ rfl rfl ?_ (fun _ htask => mem_filter_task hne htask)
    · intro key hheld d hd n hn
      rcases List.mem_append.mp hd with hd | hd
      · exact hd
      · obtain ⟨source, target, document, hop, hdocument⟩ := hn
        have hheld' := (((hleft.pre d hd).2 source target document hop).2 key n hdocument).1
        exact absurd (holds_unique hs.index_locks hheld hheld') hne
    · rintro path ⟨dir, pid, n, heq, howner⟩
      exact ⟨⟨dir, pid, n, heq, dropped_owner_of_ne hne howner⟩, rfl, rfl⟩

omit [SemverCrate] [JsonCrate] in
/-- Nobody waits for an answer after being dropped. -/
theorem grounded_leftBehind (s : Shared) (t : ℕ) (left : List Detached) (issued : ℕ) :
    Grounded t (leftBehind s t left issued) := by
  intro flight hflight
  simpa using (List.mem_filter.mp hflight).2

end Dropping

section Operations

omit [SemverCrate] [JsonCrate] in
/-- The states differ only in what the invariant does not mention. -/
theorem unseen_refl (others : ℕ → Prop) (s : Shared) : Unseen others s s := by
  constructor
  case detached => exact List.Sublist.refl _
  case issued => exact le_refl _
  case found => exact fun _ h => h
  case files => exact fun _ _ => rfl
  case sources => exact fun _ _ _ _ => rfl
  case temps => exact fun _ _ _ _ => ⟨rfl, rfl⟩
  all_goals rfl

omit [SemverCrate] [JsonCrate] in
/-- The members of a list at other positions, under a relation that holds
between any two members. -/
theorem pairwise_eraseIdx {α : Type} {r : α → α → Prop} {l : List α} {i : ℕ} {x y : α}
    (h : l.Pairwise r) (hx : l[i]? = some x) (hy : y ∈ l.eraseIdx i) : r x y ∨ r y x := by
  obtain ⟨hlt, hget⟩ := List.getElem?_eq_some_iff.mp hx
  obtain ⟨j, hj, hne, hy⟩ := List.mem_eraseIdx_iff_getElem.mp hy
  have hpairs := List.pairwise_iff_getElem.mp h
  rcases Nat.lt_or_gt_of_ne hne with hji | hij
  · have hr := hpairs j i hj hlt hji
    rw [hget, hy] at hr
    exact .inr hr
  · have hr := hpairs i j hlt hj hij
    rw [hget, hy] at hr
    exact .inl hr

/-- A file operation of a task. -/
theorem keeps_file {op : FileOp} {choice : Choice} {answer : Except IoError Bytes}
    (hs : Inv U service R s) (hpre : FilePre U service R t op s)
    (h : (basis s s.detached (s.issued + 1)).fileOp s.issued op choice = some (answer, s')) :
    Keeps U service R (Others t) s s' := by
  obtain ⟨htemp, hrename⟩ := hpre
  have htemporary : ∀ path, tempOf op = some path → Temporary path := by
    intro path hpath
    obtain ⟨dir, pid, n, heq, -⟩ := htemp path hpath
    exact ⟨dir, "metadata", pid, n, heq⟩
  have hsources : ∀ d ∈ s.detached, ∀ path, tempOf d.op = some path → tempOf op ≠ some path :=
    fun d hd path hpath hpath' =>
      not_owns_of_abandoned (hs.files.abandoned d hd path hpath) (htemp path hpath')
  have howns : ∀ t', Others t t' → ∀ path, Owns t' path s → tempOf op ≠ some path :=
    fun t' hne path hpath hpath' => hne (owns_unique hpath (htemp path hpath'))
  by_cases hop : ∀ source target document, op ≠ .rename source target document
  · exact keeps_unseen hs (unseen_fileOp (List.Sublist.refl _) (Nat.le_succ _) hop htemporary hsources
      howns h)
  · push Not at hop
    obtain ⟨source, target, document, rfl⟩ := hop
    obtain ⟨hp, hheld⟩ := hrename source target document rfl
    rcases rename_cases h with ⟨rfl, -⟩ | ⟨bytes, hbytes, -, rfl⟩
    · refine keeps_unseen hs { unseen_refl (Others t) s with issued := Nat.le_succ _ }
    · refine keeps_renamed hs (List.Sublist.refl _) (Nat.le_succ _) (Nat.lt_succ_self _) hp hbytes
        (htemporary source rfl) (fun d hd hpath => hsources d hd source hpath rfl)
        (fun t' hne howner => howns t' hne source howner rfl) ?_
      constructor
      · intro t' hne key n hn hheld' m hm
        exact absurd (holds_unique hs.index_locks hheld' (hheld key n hn).1) hne
      · intro _ _ t' hne key n hn hheld' m entry hm
        exact absurd (holds_unique hs.index_locks hheld' (hheld key n hn).1) hne
      · exact fun _ _ key n hn => (hheld key n hn).2.written
      · intro _ _ key n hn d hd m hm hle
        have hlt := hs.files.issue d hd
        omega

/-- An operation of a dropped request is carried out. -/
theorem keeps_land {position : ℕ} {d : Detached} {choice : Choice}
    {answer : Except IoError Bytes} (hs : Inv U service R s)
    (hd : s.detached[position]? = some d)
    (hordered : R.ordered → ∀ source target document, d.op = .rename source target document →
      s.latest target ≤ d.issue)
    (h : (basis s (s.detached.eraseIdx position) s.issued).fileOp d.issue d.op choice =
      some (answer, s')) :
    Keeps U service R Everyone s s' := by
  have hmem : d ∈ s.detached := List.mem_of_getElem? hd
  have hsub : (s.detached.eraseIdx position).Sublist s.detached := List.eraseIdx_sublist _ _
  have htemporary : ∀ path, tempOf d.op = some path → Temporary path := by
    intro path hpath
    obtain ⟨dir, pid, n, heq, -, -⟩ := hs.files.abandoned d hmem path hpath
    exact ⟨dir, "metadata", pid, n, heq⟩
  have hsources : ∀ d' ∈ s.detached.eraseIdx position, ∀ path, tempOf d'.op = some path →
      tempOf d.op ≠ some path := by
    intro d' hd' path hpath hpath'
    rcases pairwise_eraseIdx hs.files.distinct hd hd' with hne | hne
    · exact hne path hpath' hpath
    · exact hne path hpath hpath'
  have howns : ∀ t, Everyone t → ∀ path, Owns t path s → tempOf d.op ≠ some path :=
    fun t _ path hpath hpath' =>
      not_owns_of_abandoned (hs.files.abandoned d hmem path hpath') hpath
  by_cases hop : ∀ source target document, d.op ≠ .rename source target document
  · exact keeps_unseen hs (unseen_fileOp hsub (le_refl _) hop htemporary hsources howns h)
  · push Not at hop
    obtain ⟨source, target, document, hop⟩ := hop
    have hp := hs.files.publishable d hmem source target document hop
    have hpublishes : ∀ key n, IsIndex document key n → Publishes d.op key n :=
      fun key n hn => ⟨source, target, document, hop, hn⟩
    have hplace : ∀ key n, IsIndex document key n → target = service.indexPath key :=
      fun key n hn => hp.target.symm.trans (isIndex_path hn)
    rw [hop] at h
    rcases rename_cases h with ⟨rfl, -⟩ | ⟨bytes, hbytes, -, rfl⟩
    · refine keeps_unseen hs { unseen_refl Everyone s with detached := hsub, sources := ?_ }
      exact fun _ _ _ _ => rfl
    · refine keeps_renamed hs hsub (le_refl _) (hs.files.issue d hmem) hp hbytes
        (htemporary source (tempOf_rename hop))
        (fun d' hd' hpath => hsources d' hd' source hpath (tempOf_rename hop))
        (fun t' ht howner => howns t' ht source howner (tempOf_rename hop)) ?_
      constructor
      · exact fun t' _ key n hn _ m hm => hm.detached d hmem n (hpublishes key n hn)
      · intro ho _ t' _ key n hn _ m entry hm
        have hlt := hm.detached d hmem n (hpublishes key n hn)
        have hle := hordered ho source target document hop
        rw [hplace key n hn] at hle
        omega
      · intro ho hplain key n hn
        have hle := hordered ho source target document hop
        rw [hplace key n hn] at hle
        exact (hs.order ho hplain).newer d hmem key n (hpublishes key n hn) hle
      · intro ho hplain key n hn d' hd' m hm hle
        rcases pairwise_eraseIdx (hs.order ho hplain).detached hd hd' with hlt | hlt
        · exact hlt.2 key n m (hpublishes key n hn) hm
        · have hissue := hlt.1
          omega

omit [SemverCrate] [JsonCrate] in
theorem always_some {α : Type} {result result' : α × Shared} {choice : Choice}
    (h : always result choice = some result') : result' = result := by
  unfold always at h
  cases choice with
  | ok => exact (Option.some.inj h).symm
  | _ => cases h

omit [SemverCrate] [JsonCrate] in
theorem eventually_some {α : Type} {result : Option (α × Shared)} {result' : α × Shared}
    {choice : Choice} (h : eventually result choice = some result') : result = some result' := by
  unfold eventually at h
  cases choice with
  | ok => exact h
  | _ => cases h

/-- Operations that change nothing a task may rely on. -/
def Silent : Op → Prop
  | .indexEntry _ | .containsIndex _ | .indexKeys | .versionEntry _ | .containsVersion _
  | .nowEpoch | .refreshAllowed _ _ | .recordFailure _ | .clearFailure _ | .packages _ _ | .resume
  | .processId | .trySync | .endSync | .enterIndex _ | .enterVersion _ => True
  | .file op => tempOf op = none
  | _ => False

/-- Timers, clocks and flags are not mentioned by the invariant. -/
theorem unseen_of_silent (others : ℕ → Prop) {op : Op} {choice : Choice} {answer : Res op}
    (hop : Silent op) (h : exec U service t s op choice = some (answer, s')) :
    Unseen others s s' := by
  have hsame := unseen_refl others s
  cases op with
  | indexEntry key => cases always_some h; exact hsame
  | containsIndex key => cases always_some h; exact hsame
  | indexKeys => cases always_some h; exact hsame
  | versionEntry key => cases always_some h; exact hsame
  | containsVersion key => cases always_some h; exact hsame
  | refreshAllowed timer site => cases always_some h; exact hsame
  | resume => cases always_some h; exact hsame
  | processId => cases always_some h; exact hsame
  | enterIndex key => cases always_some h; exact hsame
  | enterVersion key => cases always_some h; exact hsame
  | nowEpoch =>
    unfold exec at h
    cases choice with
    | epoch now => cases h; exact hsame
    | _ => cases h
  | packages key platforms =>
    unfold exec at h
    cases choice with
    | packages answers =>
      dsimp only at h
      split at h
      · cases h; exact hsame
      · cases h
    | _ => cases h
  | recordFailure timer =>
    cases always_some h
    cases timer <;> exact { hsame with }
  | clearFailure timer =>
    cases always_some h
    cases timer <;> exact { hsame with }
  | trySync =>
    unfold exec at h
    dsimp only at h
    split at h
    · cases always_some h; exact hsame
    · cases always_some h; exact { hsame with }
  | endSync => cases always_some h; exact { hsame with }
  | file op =>
    have htemp : ∀ path, tempOf op ≠ some path := by
      intro path hpath
      rw [Silent] at hop
      rw [hop] at hpath
      cases hpath
    refine unseen_fileOp (List.Sublist.refl _) (Nat.le_succ _) ?_ (fun path hpath => ?_)
      (fun _ _ path _ => htemp path) (fun _ _ path _ => htemp path) h
    · intro source target document heq
      exact htemp source (tempOf_rename heq)
    · exact absurd hpath (htemp path)
  | _ => cases hop

/-- A file operation without a temporary file needs nothing. -/
theorem filePre_of_silent {op : FileOp} (hop : tempOf op = none) : FilePre U service R t op s := by
  constructor
  · intro path hpath
    rw [hop] at hpath
    cases hpath
  · intro source target document heq
    rw [tempOf_rename heq] at hop
    cases hop

/-- Every operation keeps the invariant and the frames of the other tasks. -/
theorem keeps_exec {op : Op} {choice : Choice} {answer : Res op} (hs : Inv U service R s)
    (hpre : Pre U service R t op s) (h : exec U service t s op choice = some (answer, s')) :
    Keeps U service R (Others t) s s' := by
  have hsilent : Silent op → Keeps U service R (Others t) s s' :=
    fun hop => keeps_unseen hs (unseen_of_silent _ hop h)
  cases op with
  | insertIndex key entry source =>
    cases always_some h
    exact keeps_insertIndex hs hpre
  | insertVersion key entry source =>
    cases always_some h
    exact keeps_insertVersion hs hpre
  | indexLock op =>
    obtain ⟨L, hL, heq⟩ := Option.map_eq_some_iff.mp (eventually_some h)
    cases heq
    exact keeps_indexLock hs hpre.1 hpre.2 hL
  | versionLock op =>
    obtain ⟨L, hL, heq⟩ := Option.map_eq_some_iff.mp (eventually_some h)
    cases heq
    exact keeps_versionLock hs hpre hL
  | startVersions key =>
    cases always_some h
    exact keeps_startVersions hs hpre.1 hpre.2
  | awaitVersions key stamp => exact keeps_awaitVersions hs hpre h
  | file op => exact keeps_file hs hpre h
  | nextSequence =>
    cases always_some h
    exact keeps_nextSequence hs
  | leaveIndex key presence result =>
    cases always_some h
    refine keeps_loads hs ⟨fun load hload => ?_, hs.loads.versions⟩
    rcases List.mem_cons.mp hload with rfl | hload
    · exact hpre
    · exact hs.loads.indices load hload
  | leaveVersion key presence result =>
    cases always_some h
    refine keeps_loads hs ⟨hs.loads.indices, fun load hload => ?_⟩
    rcases List.mem_cons.mp hload with rfl | hload
    · exact hpre
    · exact hs.loads.versions load hload
  | _ => exact hsilent trivial

/-- Dropping a request keeps the invariant and the frames of the other tasks. -/
theorem keeps_cancel {op : Op} (hs : Inv U service R s) (hpre : Pre U service R t op s)
    (h : cancel t s op = some s') : Keeps U service R (Others t) s s' ∧ Grounded t s' := by
  have hnothing : Keeps U service R (Others t) s (s.dropped t) ∧ Grounded t (s.dropped t) := by
    have hleft : LeftBy U service R t [] s.issued s :=
      ⟨Nat.zero_le 1, nofun, nofun, le_refl _⟩
    have hkeeps := keeps_leftBehind hs hleft
    have hgrounded := grounded_leftBehind s t [] s.issued
    simp only [leftBehind, List.append_nil] at hkeeps hgrounded
    exact ⟨hkeeps, hgrounded⟩
  cases op with
  | file op =>
    cases h
    have hleft : LeftBy U service R t [⟨s.issued, op⟩] (s.issued + 1) s := by
      refine ⟨le_refl 1, fun d hd => ?_, fun d hd => ?_, Nat.le_succ _⟩
      · cases List.mem_singleton.mp hd
        exact ⟨rfl, Nat.lt_succ_self _⟩
      · cases List.mem_singleton.mp hd
        exact hpre
    exact ⟨keeps_leftBehind hs hleft, grounded_leftBehind s t _ _⟩
  | indexLock op =>
    cases op with
    | acquire => cases h; exact hnothing
    | _ => cases h
  | versionLock op =>
    cases op with
    | acquire => cases h; exact hnothing
    | _ => cases h
  | resume => cases h; exact hnothing
  | awaitVersions key stamp => cases h; exact hnothing
  | packages key platforms => cases h; exact hnothing
  | _ => cases h

/-- Steps outside the tasks keep the invariant and all frames. -/
theorem keeps_move {m : Move} (hs : Inv U service R s) (hpolicy : (policy R).move s m)
    (h : move s m = some s') : Keeps U service R Everyone s s' := by
  cases m with
  | tick duration =>
    cases h
    exact keeps_unseen hs { unseen_refl Everyone s with }
  | land position choice =>
    unfold move at h
    dsimp only at h
    split at h
    · cases h
    · rename_i d hd
      obtain ⟨⟨answer, s₁⟩, hop, rfl⟩ := Option.map_eq_some_iff.mp h
      exact keeps_land hs hd (fun ho => hpolicy ho position choice rfl d hd) hop

end Operations

end OpenTfMirror.MetadataExec
