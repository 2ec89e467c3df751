import OpenTfMirror.MetadataRestart
import OpenTfMirror.RetryTimers
import OpenTfMirror.TaskHistory

/-!
# The history of index fetches

A history notes when index fetches start, fail and succeed, and when refreshes
are forced for missing versions. While the timer maps have room, the timers
cover all failures in it that still count. What matters of the state is the lock
table, the clock and the two timer maps.
-/

namespace OpenTfMirror.FetchHistory

open TaskProgram TaskLogic TaskHistory Fallible KeyedLocks LockSections FileNames FileStore Outbound
  Provider Metadata MetadataService IndexDiscovery MetadataMachine MetadataFiles MetadataExec
  MetadataRuns RetryTimers

/-- What is noted of a run. -/
inductive Event where
  /-- `registry.versions` is called, by `sync_known` or by another request. -/
  | started (key : ProviderKey) (time : ℕ) (synced : Bool)
  /-- A fetch has failed with an error to back off from. -/
  | failed (key : ProviderKey) (time : ℕ)
  /-- A refresh is forced for a missing version. -/
  | forced (key : ProviderKey) (time : ℕ)
  /-- A fetch has succeeded. -/
  | recovered (key : ProviderKey) (time : ℕ) (synced : Bool)
  deriving DecidableEq

/-- The history of the fetches: no request waits between the end of a fetch and
the operation that records its failure or success. -/
def note (t : ℕ) (s : Shared) (op : Op) (_ : Choice) : List Event :=
  match op with
  | .startVersions key => [.started key s.clock (s.syncing = some t)]
  | .recordFailure (.index key) => [.failed key s.clock]
  | .recordFailure (.miss key) => [.forced key s.clock]
  | .clearFailure (.index key) => [.recovered key s.clock (s.syncing = some t)]
  | _ => []

/-- When fetches of the key failed since `sync_known` last succeeded with one. -/
def pending (key : ProviderKey) : List Event → List ℕ
  | [] => []
  | .failed key' time :: earlier =>
    if key' = key then time :: pending key earlier else pending key earlier
  | .recovered key' _ synced :: earlier =>
    if key' = key ∧ synced then [] else pending key earlier
  | _ :: earlier => pending key earlier

/-- When refreshes of the key were forced. -/
def forcings (key : ProviderKey) : List Event → List ℕ
  | [] => []
  | .forced key' time :: earlier =>
    if key' = key then time :: forcings key earlier else forcings key earlier
  | _ :: earlier => forcings key earlier

/-- Each fetch of a request starts after the backoff of all failed ones, and
each forced refresh after the backoff of all earlier forced ones. -/
structure Spaced (history : List Event) : Prop where
  fetches : ∀ key time earlier, (.started key time false :: earlier) <:+ history →
    ∀ failure ∈ pending key earlier, failure + refreshBackoff ≤ time
  forced : ∀ key time earlier, (.forced key time :: earlier) <:+ history →
    ∀ previous ∈ forcings key earlier, previous + refreshBackoff ≤ time

/-- Recording a failure finds room in its map of timers. -/
def roomy : Policy Op Shared Choice Entry Move where
  start _ _ _ := True
  run _ s op _ :=
    match op with
    | .recordFailure (.index _) => unexpired s.indexFailures s.clock < maxFailures
    | .recordFailure (.miss _) => unexpired s.indexMissRefreshes s.clock < maxFailures
    | _ => True
  cancel _ _ _ := True
  move _ _ := True
  reboot := False

section View

/-- What the spacing depends on. -/
structure View where
  locks : LockTable ProviderKey
  clock : ℕ
  indexFailures : AList fun _ : ProviderKey => ℕ
  missRefreshes : AList fun _ : ProviderKey => ℕ
  syncing : Option ℕ
  history : List Event

def view (s : Noted Shared Event) : View :=
  ⟨s.state.indexLocks, s.state.clock, s.state.indexFailures, s.state.indexMissRefreshes,
    s.state.syncing, s.history⟩

/-- Every failure noted since the last synchronized success has elapsed. -/
def Calm (key : ProviderKey) (v : View) : Prop :=
  Elapsed v.clock refreshBackoff (pending key v.history)

/-- Every forced refresh noted has elapsed. -/
def Unforced (key : ProviderKey) (v : View) : Prop :=
  Elapsed v.clock refreshBackoff (forcings key v.history)

/-- The timers cover what the history notes, and the history is spaced. -/
structure Inv (v : View) : Prop where
  locks : v.locks.Consistent
  failures : ∀ key, Covered v.indexFailures key v.clock refreshBackoff (pending key v.history)
  misses : ∀ key, Covered v.missRefreshes key v.clock refreshBackoff (forcings key v.history)
  spaced : Spaced v.history

/-- What the others leave to the holder of a key. -/
structure Frame (t : ℕ) (v v' : View) : Prop where
  locks : v.locks.Same t v'.locks
  syncing : v'.syncing = some t ↔ v.syncing = some t
  calm : ∀ key, v.locks.Holds t key → Calm key v → Calm key v'
  unforced : ∀ key, v.locks.Holds t key → Unforced key v → Unforced key v'

/-- What a task needs before each operation. -/
def Pre (t : ℕ) (op : Op) (v : View) : Prop :=
  match op with
  | .indexLock op => op.Pre v.locks t
  | .startVersions key | .clearFailure (.index key) =>
    v.locks.Holds t key ∧ (v.syncing ≠ some t → Calm key v)
  | .recordFailure (.index key) => v.locks.Holds t key
  | .recordFailure (.miss key) => v.locks.Holds t key ∧ Unforced key v
  | .clearFailure (.miss _) => False
  | _ => True

theorem frame_refl (t : ℕ) (v : View) : Frame t v v :=
  ⟨same_refl t _, Iff.rfl, fun _ _ h => h, fun _ _ h => h⟩

theorem frame_trans (t : ℕ) (v₁ v₂ v₃ : View) (h : Frame t v₁ v₂) (h' : Frame t v₂ v₃) :
    Frame t v₁ v₃ where
  locks := h.locks.trans h'.locks
  syncing := h'.syncing.trans h.syncing
  calm key hholds hcalm := h'.calm key (h.locks.holds_iff.mpr hholds) (h.calm key hholds hcalm)
  unforced key hholds hun :=
    h'.unforced key (h.locks.holds_iff.mpr hholds) (h.unforced key hholds hun)

/-- What the proofs about single requests rely on. -/
def assertions : Assertions Op (Noted Shared Event) where
  inv s := Inv (view s)
  frame t s s' := Frame t (view s) (view s')
  pre t op s := Pre t op (view s)
  frame_refl t s := frame_refl t (view s)
  frame_trans t s₁ s₂ s₃ := frame_trans t (view s₁) (view s₂) (view s₃)

end View

section Histories

variable {key : ProviderKey} {time : ℕ} {earlier : List Event}

theorem spaced_nil : Spaced [] := by
  constructor <;>
  · intro key time earlier h
    exact absurd (List.suffix_nil.mp h) (List.cons_ne_nil _ _)

/-- One more event, spaced from what was noted before. -/
theorem spaced_cons {event : Event} (h : Spaced earlier)
    (hstarted : ∀ key time, event = .started key time false →
      ∀ failure ∈ pending key earlier, failure + refreshBackoff ≤ time)
    (hforced : ∀ key time, event = .forced key time →
      ∀ previous ∈ forcings key earlier, previous + refreshBackoff ≤ time) :
    Spaced (event :: earlier) := by
  constructor
  · intro key time rest hsuffix
    rcases List.suffix_cons_iff.mp hsuffix with heq | hsuffix
    · cases heq
      exact hstarted key time rfl
    · exact h.fetches key time rest hsuffix
  · intro key time rest hsuffix
    rcases List.suffix_cons_iff.mp hsuffix with heq | hsuffix
    · cases heq
      exact hforced key time rfl
    · exact h.forced key time rest hsuffix

theorem pending_failed_ne {key' : ProviderKey} (hne : key' ≠ key) :
    pending key (.failed key' time :: earlier) = pending key earlier := if_neg hne

theorem pending_recovered_ne {key' : ProviderKey} {synced : Bool} (hne : key' ≠ key) :
    pending key (.recovered key' time synced :: earlier) = pending key earlier :=
  if_neg fun h => hne h.1

theorem forcings_forced_ne {key' : ProviderKey} (hne : key' ≠ key) :
    forcings key (.forced key' time :: earlier) = forcings key earlier := if_neg hne

end Histories

section Changes

variable {t : ℕ} {v : View} {key : ProviderKey}

/-- What an operation does to the view, and what it leaves to the other tasks. -/
def Keeps (t : ℕ) (v v' : View) : Prop := Inv v' ∧ ∀ t', t' ≠ t → Frame t' v v'

theorem keeps_indexLock {op : LockOp ProviderKey} {L : LockTable ProviderKey} (hv : Inv v)
    (hpre : op.Pre v.locks t) (h : v.locks.perform t op = some L) :
    Keeps t v { v with locks := L } := by
  refine ⟨⟨perform_consistent hv.locks hpre h, hv.failures, hv.misses, hv.spaced⟩, ?_⟩
  exact fun t' hne =>
    ⟨perform_same hne h, Iff.rfl, fun _ _ hcalm => hcalm, fun _ _ hun => hun⟩

/-- A fetch starts after the backoff of all failed ones, or synchronizes. -/
theorem keeps_started {synced : Bool} (hv : Inv v) (hcalm : synced = false → Calm key v) :
    Keeps t v { v with history := .started key v.clock synced :: v.history } := by
  refine ⟨⟨hv.locks, hv.failures, hv.misses, ?_⟩, fun t' _ =>
    ⟨same_refl t' _, Iff.rfl, fun _ _ hcalm => hcalm, fun _ _ hun => hun⟩⟩
  refine spaced_cons hv.spaced (fun key' time heq => ?_) (fun _ _ heq => ?_)
  · cases heq
    exact hcalm rfl
  · cases heq

/-- The failure of a fetch is recorded by the holder of its key. -/
theorem keeps_failed (hv : Inv v) (hholds : v.locks.Holds t key)
    (hroom : unexpired v.indexFailures v.clock < maxFailures) :
    Keeps t v { v with
      indexFailures := recordFailureAt v.indexFailures key v.clock refreshBackoff
      history := .failed key v.clock :: v.history } := by
  refine ⟨⟨hv.locks, fun key' => ?_, hv.misses, ?_⟩, fun t' hne => ?_⟩
  · by_cases heq : key = key'
    · subst heq
      have hcovered := covered_record_self (hv.failures key)
      simpa [pending] using hcovered
    · have hcovered := covered_record_ne (hv.failures key') hroom (Ne.symm heq)
      simpa only [pending_failed_ne heq] using hcovered
  · exact spaced_cons hv.spaced nofun nofun
  · refine ⟨same_refl t' _, Iff.rfl, fun key' hholds' hcalm => ?_, fun _ _ hun => hun⟩
    have hdiffer : key ≠ key' := by
      rintro rfl
      exact hne (holds_unique hv.locks hholds' hholds)
    unfold Calm at hcalm ⊢
    simpa only [pending_failed_ne hdiffer] using hcalm

/-- A forced refresh is recorded by the holder of its key. -/
theorem keeps_forced (hv : Inv v) (hholds : v.locks.Holds t key) (hun : Unforced key v)
    (hroom : unexpired v.missRefreshes v.clock < maxFailures) :
    Keeps t v { v with
      missRefreshes := recordFailureAt v.missRefreshes key v.clock refreshBackoff
      history := .forced key v.clock :: v.history } := by
  refine ⟨⟨hv.locks, hv.failures, fun key' => ?_, ?_⟩, fun t' hne => ?_⟩
  · by_cases heq : key = key'
    · subst heq
      have hcovered := covered_record_self (hv.misses key)
      simpa [forcings] using hcovered
    · have hcovered := covered_record_ne (hv.misses key') hroom (Ne.symm heq)
      simpa only [forcings_forced_ne heq] using hcovered
  · refine spaced_cons hv.spaced nofun fun key' time heq => ?_
    cases heq
    exact hun
  · refine ⟨same_refl t' _, Iff.rfl, fun _ _ hcalm => hcalm, fun key' hholds' hun' => ?_⟩
    have hdiffer : key ≠ key' := by
      rintro rfl
      exact hne (holds_unique hv.locks hholds' hholds)
    unfold Unforced at hun' ⊢
    simpa only [forcings_forced_ne hdiffer] using hun'

/-- A success clears the timer when the failures before it have elapsed, or do
not count any more. -/
theorem keeps_recovered {synced : Bool} (hv : Inv v) (hholds : v.locks.Holds t key)
    (hcalm : synced = false → Calm key v) :
    Keeps t v { v with
      indexFailures := v.indexFailures.erase key
      history := .recovered key v.clock synced :: v.history } := by
  refine ⟨⟨hv.locks, fun key' => ?_, hv.misses, ?_⟩, fun t' hne => ?_⟩
  · by_cases heq : key = key'
    · subst heq
      cases synced with
      | true =>
        have hnone : pending key (.recovered key v.clock true :: v.history) = [] :=
          if_pos ⟨rfl, rfl⟩
        rw [hnone]
        exact covered_nil
      | false =>
        have hsame : pending key (.recovered key v.clock false :: v.history) =
            pending key v.history := if_neg fun h => absurd h.2 (by decide)
        rw [hsame]
        exact covered_of_elapsed (hv.failures key) (hcalm rfl)
    · have hcovered := covered_erase_ne (hv.failures key') (Ne.symm heq)
      simpa only [pending_recovered_ne heq] using hcovered
  · exact spaced_cons hv.spaced nofun nofun
  · refine ⟨same_refl t' _, Iff.rfl, fun key' hholds' hcalm' => ?_, fun _ _ hun => hun⟩
    have hdiffer : key ≠ key' := by
      rintro rfl
      exact hne (holds_unique hv.locks hholds' hholds)
    unfold Calm at hcalm' ⊢
    simpa only [pending_recovered_ne hdiffer] using hcalm'

/-- A synchronization begins, or is over. -/
theorem keeps_syncing {syncing : Option ℕ} (hv : Inv v)
    (hsyncing : ∀ t', t' ≠ t → (syncing = some t' ↔ v.syncing = some t')) :
    Keeps t v { v with syncing } :=
  ⟨⟨hv.locks, hv.failures, hv.misses, hv.spaced⟩, fun t' hne =>
    ⟨same_refl t' _, hsyncing t' hne, fun _ _ hcalm => hcalm, fun _ _ hun => hun⟩⟩

end Changes

section Operations

variable {U : Type} [UrlCrate U] [SemverCrate] [JsonCrate] {service : ProviderMetadataService}
variable {t : ℕ}

/-- Operations that neither the locks of the indices, the clock, the timers nor
the history see. -/
def Neutral : Op → Prop
  | .recordFailure (.version _) | .clearFailure (.version _) => True
  | .recordFailure _ | .clearFailure _ | .indexLock _ | .startVersions _ | .trySync | .endSync =>
    False
  | _ => True

omit [SemverCrate] [JsonCrate] in
theorem view_fileOp {base s' : Shared} {history : List Event} {issue : ℕ} {op : FileOp}
    {choice : Choice} {answer : Except IoError Bytes}
    (h : base.fileOp issue op choice = some (answer, s')) :
    view ⟨s', history⟩ = view ⟨base, history⟩ := by
  by_cases hop : ∀ source target document, op ≠ .rename source target document
  · obtain ⟨files, unreported, found, rfl, -⟩ := fileOp_touches hop h
    rfl
  · push Not at hop
    obtain ⟨source, target, document, rfl⟩ := hop
    rcases rename_cases h with ⟨rfl, -⟩ | ⟨bytes, -, -, rfl⟩
    · rfl
    · rfl

theorem view_exec {s s' : Shared} {history : List Event} {op : Op} {choice : Choice}
    {answer : Res op} (hop : Neutral op) (h : exec U service t s op choice = some (answer, s')) :
    view ⟨s', history⟩ = view ⟨s, history⟩ := by
  cases op with
  | nowEpoch =>
    unfold exec at h
    cases choice with
    | epoch now => cases h; rfl
    | _ => cases h
  | packages key platforms =>
    unfold exec at h
    cases choice with
    | packages answers =>
      dsimp only at h
      split at h
      · cases h; rfl
      · cases h
    | _ => cases h
  | awaitVersions key stamp =>
    unfold exec Shared.awaitVersions at h
    cases choice with
    | versions result =>
      dsimp only at h
      split at h
      · cases h; rfl
      · cases h; rfl
    | _ => cases h
  | insertIndex key entry source =>
    cases always_some h
    cases source <;> rfl
  | insertVersion key entry source =>
    cases always_some h
    cases source <;> rfl
  | versionLock op =>
    obtain ⟨L, -, heq⟩ := Option.map_eq_some_iff.mp (eventually_some h)
    cases heq
    rfl
  | file op => exact (view_fileOp h).trans rfl
  | recordFailure timer =>
    cases always_some h
    cases timer with
    | version key => rfl
    | _ => cases hop
  | clearFailure timer =>
    cases always_some h
    cases timer with
    | version key => rfl
    | _ => cases hop
  | indexLock op => cases hop
  | startVersions key => cases hop
  | trySync => cases hop
  | endSync => cases hop
  | _ => cases always_some h; rfl

variable (U service) in
/-- The service beside the history of its fetches. -/
abbrev noted : Machine Op Res MetadataMachine.Out (Noted Shared Event) Choice Entry Move :=
  noting (machine U service) note

/-- An operation beside the history. -/
theorem noted_exec {s s' : Noted Shared Event} {op : Op} {choice : Choice} {answer : Res op}
    (h : (noted U service).exec t s op choice = some (answer, s')) :
    exec U service t s.state op choice = some (answer, s'.state) ∧
      s'.history = note t s.state op choice ++ s.history := noting_exec h

theorem view_neutral {s s' : Noted Shared Event} {op : Op} {choice : Choice} {answer : Res op}
    (hop : Neutral op) (h : (noted U service).exec t s op choice = some (answer, s')) :
    view s' = view s := by
  obtain ⟨hexec, hhistory⟩ := noted_exec h
  have hnote : note t s.state op choice = [] := by
    cases op with
    | startVersions key => cases hop
    | recordFailure timer =>
      cases timer with
      | version key => rfl
      | _ => cases hop
    | clearFailure timer =>
      cases timer with
      | version key => rfl
      | _ => cases hop
    | _ => rfl
  rw [hnote, List.nil_append] at hhistory
  have hview : view ⟨s'.state, s.history⟩ = view s := view_exec hop hexec
  rw [← hhistory] at hview
  exact hview

/-- Every operation keeps the invariant and the frames of the other tasks. -/
theorem keeps_exec {s s' : Noted Shared Event} {op : Op} {choice : Choice} {answer : Res op}
    (hs : Inv (view s)) (hpre : Pre t op (view s)) (hroom : roomy.run t s.state op choice)
    (h : (noted U service).exec t s op choice = some (answer, s')) : Keeps t (view s) (view s') := by
  have hneutral : Neutral op → Keeps t (view s) (view s') := by
    intro hop
    rw [view_neutral hop h]
    exact ⟨hs, fun t' _ => frame_refl t' _⟩
  obtain ⟨hexec, hhistory⟩ := noted_exec h
  obtain ⟨state', history'⟩ := s'
  dsimp only at hexec hhistory
  subst hhistory
  cases op with
  | indexLock op =>
    obtain ⟨L, hL, heq⟩ := Option.map_eq_some_iff.mp (eventually_some hexec)
    cases heq
    exact keeps_indexLock hs hpre hL
  | startVersions key =>
    cases always_some hexec
    exact keeps_started hs fun hsynced => hpre.2 (of_decide_eq_false hsynced)
  | recordFailure timer =>
    cases timer with
    | version key => exact hneutral trivial
    | index key =>
      cases always_some hexec
      exact keeps_failed hs hpre hroom
    | miss key =>
      cases always_some hexec
      exact keeps_forced hs hpre.1 hpre.2 hroom
  | clearFailure timer =>
    cases timer with
    | version key => exact hneutral trivial
    | index key =>
      cases always_some hexec
      exact keeps_recovered hs hpre.1 fun hsynced => hpre.2 (of_decide_eq_false hsynced)
    | miss key => cases hpre
  | trySync =>
    unfold exec at hexec
    dsimp only at hexec
    split at hexec
    · cases always_some hexec
      exact ⟨hs, fun t' _ => frame_refl t' _⟩
    · next hidle =>
        cases always_some hexec
        refine keeps_syncing hs fun t' hne => ?_
        have hother : (view s).syncing = none := hidle
        rw [hother]
        exact ⟨fun heq => absurd (Option.some.inj heq).symm hne, nofun⟩
  | endSync =>
    cases always_some hexec
    refine keeps_syncing hs fun t' hne => ?_
    by_cases hown : s.state.syncing = some t
    · have hsyncing : (view s).syncing = some t := hown
      rw [if_pos hown, hsyncing]
      exact ⟨nofun, fun heq => absurd (Option.some.inj heq).symm hne⟩
    · rw [if_neg hown]
      exact Iff.rfl
  | _ => exact hneutral trivial

end Operations

end OpenTfMirror.FetchHistory
