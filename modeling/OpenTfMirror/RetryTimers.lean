import OpenTfMirror.MetadataService

/-!
# Retry timers

What the bounded map of retry times promises: as long as fewer than
`maxFailures` entries are unexpired, no recorded instant is forgotten before its
backoff has elapsed, so a refresh that is allowed comes after all of them.
-/

namespace OpenTfMirror.RetryTimers

open MetadataService

variable {K : Type} [DecidableEq K] {failures : AList fun _ : K => ℕ} {key key' : K}
variable {now now' backoff : ℕ} {times : List ℕ}

/-- How many retry times are still to come. -/
def unexpired (failures : AList fun _ : K => ℕ) (now : ℕ) : ℕ :=
  (retain failures fun retryAt => now < retryAt).entries.length

/-- The backoff after each of these instants is over. -/
def Elapsed (now backoff : ℕ) (times : List ℕ) : Prop := ∀ time ∈ times, time + backoff ≤ now

/-- The backoff after each of these instants is over, or the timer of the key
runs at least as long. -/
def Covered (failures : AList fun _ : K => ℕ) (key : K) (now backoff : ℕ) (times : List ℕ) :
    Prop :=
  ∀ time ∈ times, time ≤ now ∧ (time + backoff ≤ now ∨
    ∃ retryAt, failures.lookup key = some retryAt ∧ time + backoff ≤ retryAt)

theorem lookup_retain (p : ℕ → Bool) :
    (retain failures p).lookup key = (failures.lookup key).filter p := by
  apply Option.ext
  intro retryAt
  rw [Option.filter_eq_some_iff, ← Option.mem_def, ← Option.mem_def, AList.mem_lookup_iff,
    AList.mem_lookup_iff]
  exact List.mem_filter

theorem lookup_record_self :
    (recordFailureAt failures key now backoff).lookup key = some (now + backoff) :=
  AList.lookup_insert _

/-- With room in the map, recording keeps the unexpired times of the others. -/
theorem lookup_record_ne (hroom : unexpired failures now < maxFailures) (hne : key' ≠ key) :
    (recordFailureAt failures key now backoff).lookup key' =
      (failures.lookup key').filter fun retryAt => now < retryAt := by
  have hkept : ¬maxFailures ≤
      (retain failures fun retryAt => now < retryAt).entries.length := by
    unfold unexpired at hroom
    omega
  unfold recordFailureAt
  dsimp only
  rw [if_neg hkept, AList.lookup_insert_ne hne, lookup_retain]

/-- The retry time of another key is left from before. -/
theorem lookup_record_of_ne {retryAt : ℕ} (hne : key' ≠ key)
    (h : (recordFailureAt failures key now backoff).lookup key' = some retryAt) :
    failures.lookup key' = some retryAt := by
  have hretained : ∀ {failures' : AList fun _ : K => ℕ},
      failures' = retain failures (fun retryAt => now < retryAt) →
      failures'.lookup key' = some retryAt → failures.lookup key' = some retryAt := by
    intro failures' heq hlookup
    rw [heq, lookup_retain] at hlookup
    exact (Option.filter_eq_some_iff.mp hlookup).1
  unfold recordFailureAt at h
  dsimp only at h
  rw [AList.lookup_insert_ne hne] at h
  split at h
  · split at h
    · exact hretained rfl h
    · next e _ =>
        by_cases heq : key' = e.1
        · rw [heq, AList.lookup_erase] at h
          cases h
        · rw [AList.lookup_erase_ne heq] at h
          exact hretained rfl h
  · exact hretained rfl h

/-- A retry time after recording is the new one or was there before. -/
theorem lookup_record_cases {retryAt : ℕ}
    (h : (recordFailureAt failures key now backoff).lookup key' = some retryAt) :
    (key' = key ∧ retryAt = now + backoff) ∨ failures.lookup key' = some retryAt := by
  by_cases heq : key' = key
  · subst heq
    have hset : some (now + backoff) = some retryAt := lookup_record_self.symm.trans h
    exact .inl ⟨rfl, (Option.some.inj hset).symm⟩
  · exact .inr (lookup_record_of_ne heq h)

/-- Recording for another key gives none to a key without a retry time. -/
theorem lookup_record_none (hne : key' ≠ key) (h : failures.lookup key' = none) :
    (recordFailureAt failures key now backoff).lookup key' = none := by
  cases hlookup : (recordFailureAt failures key now backoff).lookup key' with
  | none => rfl
  | some retryAt =>
    rw [lookup_record_of_ne hne hlookup] at h
    cases h

theorem covered_nil : Covered failures key now backoff [] := nofun

/-- What is allowed comes after the backoff of every recorded instant. -/
theorem elapsed_of_allowed (h : Covered failures key now backoff times) (hbackoff : 0 < backoff)
    (hallowed : refreshAllowedAt failures key now backoff = true) : Elapsed now backoff times := by
  intro time htime
  obtain ⟨-, helapsed | ⟨retryAt, hlookup, hretry⟩⟩ := h time htime
  · exact helapsed
  · unfold refreshAllowedAt at hallowed
    rw [hlookup] at hallowed
    simp only [Bool.or_eq_true, decide_eq_true_eq] at hallowed
    omega

theorem covered_of_elapsed (h : Covered failures key now backoff times)
    (helapsed : Elapsed now backoff times) {failures' : AList fun _ : K => ℕ} :
    Covered failures' key now backoff times :=
  fun time htime => ⟨(h time htime).1, .inl (helapsed time htime)⟩

/-- Time passes. -/
theorem covered_later (h : Covered failures key now backoff times) (hnow : now ≤ now') :
    Covered failures key now' backoff times := by
  intro time htime
  obtain ⟨hpast, helapsed | hcovered⟩ := h time htime
  · exact ⟨by omega, .inl (by omega)⟩
  · exact ⟨by omega, .inr hcovered⟩

theorem elapsed_later (h : Elapsed now backoff times) (hnow : now ≤ now') :
    Elapsed now' backoff times := by
  intro time htime
  have helapsed := h time htime
  omega

/-- A recorded instant is covered, and so are the earlier ones of its key. -/
theorem covered_record_self (h : Covered failures key now backoff times) :
    Covered (recordFailureAt failures key now backoff) key now backoff (now :: times) := by
  intro time htime
  have hpast : time ≤ now := by
    rcases List.mem_cons.mp htime with heq | hmem
    · omega
    · exact (h time hmem).1
  exact ⟨hpast, .inr ⟨_, lookup_record_self, by omega⟩⟩

/-- The instants of the other keys stay covered. -/
theorem covered_record_ne (h : Covered failures key' now backoff times)
    (hroom : unexpired failures now < maxFailures) (hne : key' ≠ key) :
    Covered (recordFailureAt failures key now backoff) key' now backoff times := by
  intro time htime
  obtain ⟨hpast, helapsed | ⟨retryAt, hlookup, hretry⟩⟩ := h time htime
  · exact ⟨hpast, .inl helapsed⟩
  · by_cases hexpired : retryAt ≤ now
    · exact ⟨hpast, .inl (by omega)⟩
    · refine ⟨hpast, .inr ⟨retryAt, ?_, hretry⟩⟩
      rw [lookup_record_ne hroom hne, hlookup]
      simp [Option.filter, hexpired]

/-- Clearing one key leaves the others covered. -/
theorem covered_erase_ne (h : Covered failures key' now backoff times) (hne : key' ≠ key) :
    Covered (failures.erase key) key' now backoff times := by
  intro time htime
  rw [AList.lookup_erase_ne hne]
  exact h time htime

end OpenTfMirror.RetryTimers
