import OpenTfMirror.RetryTimers

/-!
# The bounded maps of retry times

Any sequence of recorded and cleared failures. The map stays bounded and the
recorded key gets its retry time. Other keys lose theirs only when a new key
needs room, unless a key that is already there is recorded into a full map: the
code makes room for it as well.
-/

namespace OpenTfMirror.FailureMaps

open Metadata MetadataService RetryTimers

/-- A retry time of every key that failed recently. -/
abbrev Failures (K : Type) := AList fun _ : K => ℕ

/-- What happens to a map of retry times. -/
inductive Call (K : Type) where
  | record (key : K) (now : ℕ)
  | remove (key : K)
  deriving DecidableEq, Repr

section Calls

variable {K : Type} [DecidableEq K]

/-- One call. -/
def perform (backoff : ℕ) (failures : Failures K) : Call K → Failures K
  | .record key now => recordFailureAt failures key now backoff
  | .remove key => failures.erase key

/-- Calls in a row. -/
def performAll (backoff : ℕ) (failures : Failures K) (calls : List (Call K)) : Failures K :=
  calls.foldl (perform backoff) failures

/-- When a failure is recorded. -/
def Call.instant : Call K → Option ℕ
  | .record _ now => some now
  | .remove _ => none

/-- The instants of the recorded failures do not decrease. -/
def Timely (calls : List (Call K)) : Prop := (calls.filterMap Call.instant).Pairwise (· ≤ ·)

/-- The unexpired entry has the smallest retry time of all unexpired ones. -/
def Earliest (failures : Failures K) (now : ℕ) (victim : K) : Prop :=
  ∃ retryAt, failures.lookup victim = some retryAt ∧ now < retryAt ∧
    ∀ key later, failures.lookup key = some later → now < later → retryAt ≤ later

/-- The unexpired entries of the keys that pass are still there. -/
def KeptBut (failures failures' : Failures K) (now : ℕ) (gone : K → Prop) : Prop :=
  ∀ key retryAt, ¬gone key → failures.lookup key = some retryAt → now < retryAt →
    failures'.lookup key = some retryAt

/-- A new key comes into a full map: an earliest entry goes, and no other one. -/
def EvictsOne (failures failures' : Failures K) (key : K) (now : ℕ) : Prop :=
  ∃ victim, Earliest failures now victim ∧ failures'.lookup victim = none ∧
    KeptBut failures failures' now fun other => other = key ∨ other = victim

/-- What a call owes to the map before it: the bound, the retry time of the
recorded key, and the entries of the others. -/
def Exact (backoff : ℕ) (failures : Failures K) : Call K → Prop
  | .remove key => (perform backoff failures (.remove key)).entries.length ≤ maxFailures
  | .record key now =>
    let failures' := perform backoff failures (.record key now)
    failures'.entries.length ≤ maxFailures ∧ failures'.lookup key = some (now + backoff) ∧
      if key ∉ failures ∧ unexpired failures now = maxFailures then
        EvictsOne failures failures' key now
      else KeptBut failures failures' now fun other => other = key

/-- The call records a key that is in a map full of unexpired entries, and the
entry that makes room is another one. -/
def Displaces (failures : Failures K) : Call K → Prop
  | .remove _ => False
  | .record key now => key ∈ failures ∧ unexpired failures now = maxFailures ∧
      ∃ victim, oldest (retain failures fun retryAt => now < retryAt).entries = some victim ∧
        victim.1 ≠ key

/-- Each call of a sequence has the property after those before it. -/
def Throughout (backoff : ℕ) (p : Failures K → Call K → Prop) (calls : List (Call K)) : Prop :=
  ∀ earlier call later, calls = earlier ++ call :: later → p (performAll backoff ∅ earlier) call

end Calls

section Entries

variable {K : Type} [DecidableEq K] {failures : Failures K} {key key' : K}
variable {now backoff : ℕ}

omit [DecidableEq K] in
theorem length_keys : failures.keys.length = failures.entries.length := List.length_map _

theorem length_erase_of_mem (h : key ∈ failures) :
    (failures.erase key).entries.length + 1 = failures.entries.length := by
  have hmem : key ∈ failures.keys := AList.mem_keys.mp h
  have hpos : 0 < failures.keys.length := List.length_pos_of_mem hmem
  rw [← length_keys, ← length_keys, AList.keys_erase, List.length_erase_of_mem hmem]
  omega

theorem length_erase_le : (failures.erase key).entries.length ≤ failures.entries.length := by
  rw [← length_keys, ← length_keys, AList.keys_erase]
  exact List.length_erase_le

theorem length_insert_le {retryAt : ℕ} :
    (failures.insert key retryAt).entries.length ≤ failures.entries.length + 1 := by
  rw [← length_keys, ← length_keys, AList.keys_insert, List.length_cons]
  have hle : (failures.keys.erase key).length ≤ failures.keys.length := List.length_erase_le
  omega

omit [DecidableEq K] in
theorem length_retain_le (p : ℕ → Bool) :
    (retain failures p).entries.length ≤ failures.entries.length := List.length_filter_le _ _

omit [DecidableEq K] in
/-- A pruned map that is as large as the map lost nothing. -/
theorem retain_eq_of_length {p : ℕ → Bool}
    (h : failures.entries.length ≤ (retain failures p).entries.length) :
    retain failures p = failures := by
  refine AList.ext ?_
  exact List.filter_eq_self.mpr (List.length_filter_eq_length_iff.mp
    (Nat.le_antisymm (List.length_filter_le _ _) h))

omit [DecidableEq K] in
/-- The entry that makes room is one with the smallest retry time. -/
theorem oldest_spec {l : List (Sigma fun _ : K => ℕ)} {victim : Sigma fun _ : K => ℕ}
    (h : oldest l = some victim) : victim ∈ l ∧ ∀ e ∈ l, victim.2 ≤ e.2 := by
  induction l generalizing victim with
  | nil => cases h
  | cons e rest ih =>
    unfold oldest at h
    cases hrest : oldest rest with
    | none =>
      rw [hrest] at h
      cases h
      have hnil : rest = [] := by
        cases rest with
        | nil => rfl
        | cons e' rest' =>
          unfold oldest at hrest
          split at hrest
          · cases hrest
          · split at hrest
            · cases hrest
            · cases hrest
      subst hnil
      exact ⟨List.mem_cons_self, fun e' he' => by rw [List.mem_singleton.mp he']⟩
    | some e' =>
      rw [hrest] at h
      obtain ⟨hmem, hmin⟩ := ih hrest
      dsimp only at h
      split at h
      · next hle =>
          cases h
          refine ⟨List.mem_cons_self, fun e'' he'' => ?_⟩
          rcases List.mem_cons.mp he'' with rfl | hold
          · exact le_rfl
          · exact hle.trans (hmin e'' hold)
      · next hgt =>
          cases h
          refine ⟨List.mem_cons_of_mem _ hmem, fun e'' he'' => ?_⟩
          rcases List.mem_cons.mp he'' with rfl | hold
          · omega
          · exact hmin e'' hold

omit [DecidableEq K] in
theorem oldest_isSome {l : List (Sigma fun _ : K => ℕ)} (h : l ≠ []) :
    ∃ victim, oldest l = some victim := by
  cases l with
  | nil => exact absurd rfl h
  | cons e rest =>
    unfold oldest
    cases oldest rest with
    | none => exact ⟨e, rfl⟩
    | some e' =>
      dsimp only
      split
      · exact ⟨e, rfl⟩
      · exact ⟨e', rfl⟩

/-- An unexpired entry survives the pruning. -/
theorem lookup_pruned {retryAt : ℕ} (h : failures.lookup key = some retryAt) (hlater : now < retryAt) :
    (retain failures fun retryAt => now < retryAt).lookup key = some retryAt := by
  rw [lookup_retain, h]
  simp [Option.filter, hlater]

/-- What survives the pruning is unexpired. -/
theorem of_lookup_pruned {retryAt : ℕ}
    (h : (retain failures fun retryAt => now < retryAt).lookup key = some retryAt) :
    failures.lookup key = some retryAt ∧ now < retryAt := by
  rw [lookup_retain, Option.filter_eq_some_iff] at h
  exact ⟨h.1, of_decide_eq_true h.2⟩

/-- The two ways of a record: there is room, or an earliest entry makes room. -/
theorem record_cases (failures : Failures K) (key : K) (now backoff : ℕ) :
    (unexpired failures now < maxFailures ∧
      recordFailureAt failures key now backoff =
        (retain failures fun retryAt => now < retryAt).insert key (now + backoff)) ∨
    ∃ victim, maxFailures ≤ unexpired failures now ∧
      oldest (retain failures fun retryAt => now < retryAt).entries = some victim ∧
      Earliest failures now victim.1 ∧
      recordFailureAt failures key now backoff =
        ((retain failures fun retryAt => now < retryAt).erase victim.1).insert key (now + backoff) := by
  unfold recordFailureAt
  dsimp only
  by_cases hfull : maxFailures ≤ (retain failures fun retryAt => now < retryAt).entries.length
  · have hpos : 0 < maxFailures := by decide
    have hne : (retain failures fun retryAt => now < retryAt).entries ≠ [] := by
      intro hnil
      rw [hnil] at hfull
      exact absurd hfull (by rw [List.length_nil]; omega)
    obtain ⟨victim, hvictim⟩ := oldest_isSome hne
    obtain ⟨hmem, hmin⟩ := oldest_spec hvictim
    obtain ⟨hlookup, hlater⟩ := of_lookup_pruned (AList.mem_lookup_iff.mpr hmem)
    refine .inr ⟨victim, hfull, hvictim, ⟨victim.2, hlookup, hlater, ?_⟩, ?_⟩
    · intro key' later hlookup' hlater'
      exact hmin ⟨key', later⟩ (AList.mem_lookup_iff.mp (lookup_pruned hlookup' hlater'))
    · rw [if_pos hfull, hvictim]
  · refine .inl ⟨Nat.lt_of_not_le hfull, ?_⟩
    rw [if_neg hfull]

/-- The map never grows over its bound. -/
theorem length_record (h : failures.entries.length ≤ maxFailures) :
    (recordFailureAt failures key now backoff).entries.length ≤ maxFailures := by
  rcases record_cases failures key now backoff with ⟨hroom, heq⟩ | ⟨victim, -, holdest, -, heq⟩
  · rw [heq]
    exact length_insert_le.trans hroom
  · have hvictim : victim.1 ∈ retain failures fun retryAt => now < retryAt := by
      rw [← AList.lookup_isSome, AList.mem_lookup_iff.mpr (oldest_spec holdest).1]
      rfl
    have hless := length_erase_of_mem hvictim
    have hkept : (retain failures fun retryAt => now < retryAt).entries.length ≤ maxFailures :=
      (length_retain_le _).trans h
    rw [heq]
    refine length_insert_le.trans ?_
    omega

/-- A record keeps every unexpired entry but that of an evicted key. -/
theorem keptBut_evicted {victim : K}
    (heq : recordFailureAt failures key now backoff =
      ((retain failures fun retryAt => now < retryAt).erase victim).insert key (now + backoff)) :
    KeptBut failures (recordFailureAt failures key now backoff) now
      fun other => other = key ∨ other = victim := by
  intro other retryAt hother hlookup hlater
  rw [heq, AList.lookup_insert_ne fun h => hother (.inl h),
    AList.lookup_erase_ne fun h => hother (.inr h)]
  exact lookup_pruned hlookup hlater

/-- A record into a bounded map is exact just when it displaces no other entry. -/
theorem record_exact_iff (h : failures.entries.length ≤ maxFailures) :
    Exact backoff failures (.record key now) ↔ ¬Displaces failures (.record key now) := by
  have hsize : (perform backoff failures (.record key now)).entries.length ≤ maxFailures :=
    length_record h
  have hself : (perform backoff failures (.record key now)).lookup key = some (now + backoff) :=
    lookup_record_self
  rcases record_cases failures key now backoff with ⟨hroom, heq⟩ | ⟨victim, hfull, holdest, hvictim, heq⟩
  · -- there is room: nothing unexpired is lost
    have hless : unexpired failures now ≠ maxFailures := Nat.ne_of_lt hroom
    refine ⟨fun _ hdisplaces => hless hdisplaces.2.1, fun _ => ⟨hsize, hself, ?_⟩⟩
    rw [if_neg fun hcond => hless hcond.2]
    intro other retryAt hother hlookup hlater
    change (recordFailureAt failures key now backoff).lookup other = some retryAt
    rw [heq, AList.lookup_insert_ne hother]
    exact lookup_pruned hlookup hlater
  · have hexactly : unexpired failures now = maxFailures :=
      Nat.le_antisymm ((length_retain_le _).trans h) hfull
    have hall : retain failures (fun retryAt => now < retryAt) = failures :=
      retain_eq_of_length (h.trans hfull)
    have hkept := keptBut_evicted heq
    obtain ⟨retryAt, hlookup, hlater, hmin⟩ := hvictim
    by_cases hkey : key ∈ failures
    · constructor
      · -- the victim of a key that is there already should have stayed
        rintro ⟨-, -, hframe⟩ ⟨-, -, victim', holdest', hne⟩
        rw [holdest] at holdest'
        cases holdest'
        rw [if_neg fun hcond => hcond.1 hkey] at hframe
        have hstay := hframe victim.1 retryAt hne hlookup hlater
        change (recordFailureAt failures key now backoff).lookup victim.1 = some retryAt at hstay
        rw [heq, AList.lookup_insert_ne hne, AList.lookup_erase] at hstay
        cases hstay
      · intro hquiet
        have hown : victim.1 = key := by
          by_contra hne
          exact hquiet ⟨hkey, hexactly, victim, holdest, hne⟩
        refine ⟨hsize, hself, ?_⟩
        rw [if_neg fun hcond => hcond.1 hkey]
        intro other retryAt' hother hlookup' hlater'
        refine hkept other retryAt' ?_ hlookup' hlater'
        rw [hown]
        exact fun h => h.elim hother hother
    · refine ⟨fun _ hdisplaces => hkey hdisplaces.1, fun _ => ⟨hsize, hself, ?_⟩⟩
      rw [if_pos ⟨hkey, hexactly⟩]
      refine ⟨victim.1, ⟨retryAt, hlookup, hlater, hmin⟩, ?_, hkept⟩
      have hne : victim.1 ≠ key := by
        intro h'
        rw [h', AList.lookup_eq_none.mpr hkey] at hlookup
        cases hlookup
      change (recordFailureAt failures key now backoff).lookup victim.1 = none
      rw [heq, AList.lookup_insert_ne hne, AList.lookup_erase]

/-- So is every call into a bounded map. -/
theorem exact_iff (h : failures.entries.length ≤ maxFailures) (call : Call K) :
    Exact backoff failures call ↔ ¬Displaces failures call := by
  cases call with
  | record key now => exact record_exact_iff h
  | remove key => exact ⟨fun _ h => h, fun _ => length_erase_le.trans h⟩

end Entries

section Sequences

variable {K : Type} [DecidableEq K]

theorem length_perform {backoff : ℕ} {failures : Failures K} (h : failures.entries.length ≤ maxFailures)
    (call : Call K) : (perform backoff failures call).entries.length ≤ maxFailures := by
  cases call with
  | record key now => exact length_record h
  | remove key => exact length_erase_le.trans h

/-- The map stays bounded over any sequence of calls. -/
theorem length_performAll {backoff : ℕ} (calls : List (Call K)) {failures : Failures K}
    (h : failures.entries.length ≤ maxFailures) :
    (performAll backoff failures calls).entries.length ≤ maxFailures := by
  induction calls generalizing failures with
  | nil => exact h
  | cons call rest ih => exact ih (length_perform h call)

/-- Every call of a sequence is exact just when none of them records a key that
is in a full map while another entry is the oldest. -/
theorem calls_exact_iff (backoff : ℕ) (calls : List (Call K)) :
    Throughout backoff (Exact backoff) calls ↔
      Throughout backoff (fun failures call => ¬Displaces failures call) calls := by
  have hbound : ∀ earlier : List (Call K),
      (performAll backoff ∅ earlier).entries.length ≤ maxFailures := fun earlier =>
    length_performAll earlier (Nat.zero_le _)
  constructor
  · intro h earlier call later heq
    exact (exact_iff (hbound earlier) call).mp (h earlier call later heq)
  · intro h earlier call later heq
    exact (exact_iff (hbound earlier) call).mpr (h earlier call later heq)

end Sequences

section Full

/-- Providers that differ in the lengths of their names. -/
def providerAt (i : ℕ) : ProviderKey where
  hostname := "registry.example"
  providerNamespace := String.ofList (List.replicate (i / 64 + 1) 'a')
  providerType := String.ofList (List.replicate (i % 64 + 1) 'b')

/-- The providers fail one after the other. -/
def failing (n : ℕ) : List (Call ProviderKey) :=
  (List.range n).map fun i => .record (providerAt i) i

theorem providerAt_inj {i j : ℕ} (h : providerAt i = providerAt j) : i = j := by
  have hhigh := congrArg (fun key => key.providerNamespace.length) h
  have hlow := congrArg (fun key => key.providerType.length) h
  simp only [providerAt, String.length_ofList, List.length_replicate] at hhigh hlow
  omega

theorem failing_succ (n : ℕ) : failing (n + 1) = failing n ++ [.record (providerAt n) n] := by
  rw [failing, List.range_succ, List.map_append]
  rfl

/-- None of these failures expires meanwhile. -/
theorem retain_failing {n : ℕ} {failures : Failures ProviderKey} (h : n ≤ maxFailures)
    (hentries : failures.entries =
      (List.range n).reverse.map fun i => ⟨providerAt i, i + refreshBackoff⟩) :
    retain failures (fun retryAt => n < retryAt) = failures := by
  have hbackoff : maxFailures < refreshBackoff := by decide
  refine AList.ext (List.filter_eq_self.mpr fun e he => ?_)
  rw [hentries] at he
  obtain ⟨i, -, rfl⟩ := List.mem_map.mp he
  exact decide_eq_true (by dsimp only; omega)

/-- As long as there is room, each failure is added. -/
theorem entries_failing {n : ℕ} (h : n ≤ maxFailures) :
    (performAll refreshBackoff ∅ (failing n)).entries =
      (List.range n).reverse.map fun i => ⟨providerAt i, i + refreshBackoff⟩ := by
  induction n with
  | zero => rfl
  | succ n ih =>
    have hentries := ih (by omega)
    have hkept := retain_failing (by omega) hentries
    have hnew : providerAt n ∉ performAll refreshBackoff ∅ (failing n) := by
      rw [AList.mem_keys]
      intro hmem
      obtain ⟨e, he, hkey⟩ := List.mem_map.mp hmem
      rw [hentries] at he
      obtain ⟨i, hi, rfl⟩ := List.mem_map.mp he
      have hless := List.mem_range.mp (List.mem_reverse.mp hi)
      have heq := providerAt_inj hkey
      omega
    have hlength : (performAll refreshBackoff ∅ (failing n)).entries.length = n := by
      rw [hentries, List.length_map, List.length_reverse, List.length_range]
    have hstep : performAll refreshBackoff ∅ (failing (n + 1)) =
        recordFailureAt (performAll refreshBackoff ∅ (failing n)) (providerAt n) n refreshBackoff := by
      rw [failing_succ, performAll, List.foldl_append]
      rfl
    rw [hstep]
    rcases record_cases (performAll refreshBackoff ∅ (failing n)) (providerAt n) n refreshBackoff with
      ⟨-, heq⟩ | ⟨-, hfull, -⟩
    · rw [heq, hkept, AList.entries_insert_of_notMem hnew, hentries, List.range_succ,
        List.reverse_append]
      rfl
    · rw [unexpired, hkept, hlength] at hfull
      omega

/-- Recording the latest failure again into the full map displaces the oldest. -/
theorem failing_displaces :
    Displaces (performAll refreshBackoff ∅ (failing maxFailures))
      (.record (providerAt (maxFailures - 1)) maxFailures) := by
  have hentries := entries_failing (le_refl maxFailures)
  have hkept := retain_failing (le_refl maxFailures) hentries
  have hmem : ∀ i < maxFailures, (⟨providerAt i, i + refreshBackoff⟩ : Sigma fun _ : ProviderKey => ℕ) ∈
      (performAll refreshBackoff ∅ (failing maxFailures)).entries := by
    intro i hi
    rw [hentries]
    exact List.mem_map_of_mem (List.mem_reverse.mpr (List.mem_range.mpr hi))
  have hpos : 0 < maxFailures := by decide
  refine ⟨?_, ?_, ?_⟩
  · rw [← AList.lookup_isSome, AList.mem_lookup_iff.mpr (hmem (maxFailures - 1) (by omega))]
    rfl
  · rw [unexpired, hkept, hentries, List.length_map, List.length_reverse, List.length_range]
  · obtain ⟨victim, hvictim⟩ := oldest_isSome (List.ne_nil_of_mem (hmem 0 hpos))
    refine ⟨victim, by rw [hkept]; exact hvictim, ?_⟩
    obtain ⟨hin, hmin⟩ := oldest_spec hvictim
    have hfirst := hmin _ (hmem 0 hpos)
    rw [hentries] at hin
    obtain ⟨i, -, rfl⟩ := List.mem_map.mp hin
    dsimp only at hfirst
    intro heq
    have hlast := providerAt_inj heq
    have hsize : maxFailures = 4096 := rfl
    omega

/-- 4096 providers fail in turn, then the last one fails again. -/
theorem calls_exact_fails :
    ¬∀ calls : List (Call ProviderKey), Timely calls →
      Throughout refreshBackoff (Exact refreshBackoff) calls := by
  intro h
  have htimely : Timely (failing maxFailures ++
      [.record (providerAt (maxFailures - 1)) maxFailures]) := by
    have hinstants : ∀ n, (failing n).filterMap Call.instant = List.range n := by
      intro n
      rw [failing, List.filterMap_map]
      exact List.filterMap_some
    rw [Timely, List.filterMap_append, hinstants]
    have hall : (List.range (maxFailures + 1)).Pairwise (· ≤ ·) :=
      List.pairwise_lt_range.imp Nat.le_of_lt
    rw [List.range_succ] at hall
    exact hall
  have hquiet := (exact_iff (length_performAll (failing maxFailures) (Nat.zero_le _)) _).mp
    (h _ htimely (failing maxFailures) _ [] rfl)
  exact hquiet failing_displaces

end Full

end OpenTfMirror.FailureMaps
