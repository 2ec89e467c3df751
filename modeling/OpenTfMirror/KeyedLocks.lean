import Mathlib.Data.List.AList
import Mathlib.Logic.Function.Basic
import Mathlib.Tactic.Common

/-!
# Mutexes created on demand, one for each key

A shared table maps a key to a reference-counted mutex. A task takes a handle
for a key, which creates the mutex when the table has none, waits for the
mutex, and on leaving drops the guard, runs the handle's destructor and only
then gives up its reference. The destructor removes the table's entry when the
count says that nobody else holds a reference. Each of these is one atomic
step; a task has at most one handle in a table at any time.
-/

namespace OpenTfMirror.KeyedLocks

variable {K : Type}

/-- A reference to the mutex of a key. -/
structure Handle (K : Type) where
  /-- The key the handle was taken for. -/
  key : K
  /-- The mutex it refers to. -/
  mutex : ℕ
  /-- Its destructor has run, but its reference is not released yet. -/
  dropped : Bool
  deriving DecidableEq, Repr

/-- The table together with all references and guards on its mutexes. -/
structure LockTable (K : Type) where
  /-- The mutex that the table holds for a key. -/
  map : AList fun _ : K => ℕ
  /-- The handle of each task. -/
  handles : AList fun _ : ℕ => Handle K
  /-- The task whose guard locks a mutex. -/
  owner : ℕ → Option ℕ
  /-- The next mutex to be created. -/
  fresh : ℕ

/-- No mutex exists. -/
def LockTable.empty : LockTable K := ⟨∅, ∅, fun _ => none, 0⟩

/-- References to a mutex: from the table and from the handles. -/
def LockTable.strongCount (L : LockTable K) (m : ℕ) : ℕ :=
  L.map.entries.countP (fun e => e.2 = m) + L.handles.entries.countP (fun e => e.2.mutex = m)

/-- Clone the mutex of the key, creating it when the table has none. -/
def LockTable.lockFor [DecidableEq K] (L : LockTable K) (t : ℕ) (k : K) : LockTable K :=
  match L.map.lookup k with
  | some m => { L with handles := L.handles.insert t ⟨k, m, false⟩ }
  | none => { L with
      map := L.map.insert k L.fresh
      handles := L.handles.insert t ⟨k, L.fresh, false⟩
      fresh := L.fresh + 1 }

/-- Lock the mutex of the task's handle; blocks while it is locked. -/
def LockTable.acquire (L : LockTable K) (t : ℕ) : Option (LockTable K) :=
  match L.handles.lookup t with
  | none => none
  | some h =>
    match L.owner h.mutex with
    | some _ => none
    | none => some { L with owner := Function.update L.owner h.mutex (some t) }

/-- Drop the guard, when the task has one. -/
def LockTable.release (L : LockTable K) (t : ℕ) : LockTable K :=
  match L.handles.lookup t with
  | none => L
  | some h =>
    if L.owner h.mutex = some t then { L with owner := Function.update L.owner h.mutex none } else L

/-- The destructor's critical section: remove the entry when the table and this
handle hold the only references and the entry is this mutex. -/
def LockTable.dropBody [DecidableEq K] (L : LockTable K) (t : ℕ) : LockTable K :=
  match L.handles.lookup t with
  | none => L
  | some h => { L with
      map := if L.strongCount h.mutex = 2 ∧ L.map.lookup h.key = some h.mutex then
          L.map.erase h.key else L.map
      handles := L.handles.insert t { h with dropped := true } }

/-- Give up the reference after the destructor has returned. -/
def LockTable.releaseArc (L : LockTable K) (t : ℕ) : LockTable K :=
  { L with handles := L.handles.erase t }

/-- The steps of a task on the table. -/
inductive LockOp (K : Type) where
  | lockFor (k : K)
  | acquire
  | release
  | dropBody
  | releaseArc

/-- Perform one step; `none` blocks. -/
def LockTable.perform [DecidableEq K] (L : LockTable K) (t : ℕ) : LockOp K → Option (LockTable K)
  | .lockFor k => some (L.lockFor t k)
  | .acquire => L.acquire t
  | .release => some (L.release t)
  | .dropBody => some (L.dropBody t)
  | .releaseArc => some (L.releaseArc t)

/-- The task has a handle for the key whose destructor has not begun. -/
def LockTable.Has (L : LockTable K) (t : ℕ) (k : K) : Prop :=
  ∃ m, L.handles.lookup t = some ⟨k, m, false⟩

/-- The task is inside the section protected by the key's mutex. -/
def LockTable.Holds (L : LockTable K) (t : ℕ) (k : K) : Prop :=
  ∃ m, L.handles.lookup t = some ⟨k, m, false⟩ ∧ L.owner m = some t

/-- The task has no guard. -/
def LockTable.Outside (L : LockTable K) (t : ℕ) : Prop := ∀ m, L.owner m ≠ some t

/-- What the steps of the tasks keep: the handles that are still in use refer
to the mutex in the table, and only such handles are locked. -/
structure LockTable.Consistent [DecidableEq K] (L : LockTable K) : Prop where
  /-- A handle in use refers to the table's mutex for its key. -/
  live_mapped : ∀ {t k m}, L.handles.lookup t = some ⟨k, m, false⟩ → L.map.lookup k = some m
  /-- Different keys have different mutexes. -/
  map_inj : ∀ {k k' m}, L.map.lookup k = some m → L.map.lookup k' = some m → k = k'
  /-- Mutexes in the table have been created. -/
  map_fresh : ∀ {k m}, L.map.lookup k = some m → m < L.fresh
  /-- So have those that handles refer to. -/
  handle_fresh : ∀ {t h}, L.handles.lookup t = some h → h.mutex < L.fresh
  /-- A guard belongs to a handle in use. -/
  owner_live : ∀ {m t}, L.owner m = some t → ∃ k, L.handles.lookup t = some ⟨k, m, false⟩

section Counting

/-- Two different members with a property are counted twice. -/
theorem two_le_countP {α : Type} {p : α → Bool} {l : List α} {a b : α} (hne : a ≠ b)
    (ha : a ∈ l) (hb : b ∈ l) (hpa : p a = true) (hpb : p b = true) : 2 ≤ l.countP p := by
  induction l with
  | nil => cases ha
  | cons x l ih =>
    rcases List.mem_cons.mp ha with rfl | ha'
    · have hb' : b ∈ l := by
        rcases List.mem_cons.mp hb with rfl | hb'
        · exact absurd rfl hne
        · exact hb'
      have h1 : 0 < l.countP p := List.countP_pos_iff.mpr ⟨b, hb', hpb⟩
      rw [List.countP_cons_of_pos hpa]
      omega
    · rcases List.mem_cons.mp hb with rfl | hb'
      · have h1 : 0 < l.countP p := List.countP_pos_iff.mpr ⟨a, ha', hpa⟩
        rw [List.countP_cons_of_pos hpb]
        omega
      · have h2 := ih ha' hb'
        rw [List.countP_cons]
        omega

/-- A looked-up value is an entry of the association list. -/
theorem mem_entries_of_lookup {α : Type} [DecidableEq α] {β : Type}
    {l : AList fun _ : α => β} {a : α} {b : β} (h : l.lookup a = some b) :
    (⟨a, b⟩ : Sigma fun _ : α => β) ∈ l.entries :=
  AList.mem_lookup_iff.mp h

end Counting

variable {L : LockTable K} {t t' : ℕ} {k : K}

/-- A task outside holds no key. -/
theorem not_holds_of_outside (h : L.Outside t) : ¬L.Holds t k := by
  rintro ⟨m, -, hm⟩
  exact h m hm

/-- A task holds at most one key. -/
theorem holds_key_unique {k' : K} (h : L.Holds t k) (h' : L.Holds t k') : k = k' := by
  obtain ⟨m, hm, -⟩ := h
  obtain ⟨m', hm', -⟩ := h'
  rw [hm] at hm'
  cases hm'
  rfl

/-- The handle and the guards of a task are the same in both tables. -/
structure LockTable.Same (t : ℕ) (L L' : LockTable K) : Prop where
  /-- Its handle. -/
  handle : L'.handles.lookup t = L.handles.lookup t
  /-- Its guards. -/
  owner : ∀ m, L'.owner m = some t ↔ L.owner m = some t

theorem same_refl (t : ℕ) (L : LockTable K) : L.Same t L := ⟨rfl, fun _ => .rfl⟩

theorem LockTable.Same.trans {L₁ L₂ L₃ : LockTable K} (h : L₁.Same t L₂) (h' : L₂.Same t L₃) :
    L₁.Same t L₃ :=
  ⟨h'.handle.trans h.handle, fun m => (h'.owner m).trans (h.owner m)⟩

theorem LockTable.Same.holds_iff {L' : LockTable K} (h : L.Same t L') :
    L'.Holds t k ↔ L.Holds t k := by
  simp only [LockTable.Holds, h.handle, h.owner]

theorem LockTable.Same.has_iff {L' : LockTable K} (h : L.Same t L') :
    L'.Has t k ↔ L.Has t k := by
  simp only [LockTable.Has, h.handle]

theorem LockTable.Same.outside_iff {L' : LockTable K} (h : L.Same t L') :
    L'.Outside t ↔ L.Outside t := by
  simp only [LockTable.Outside, ne_eq, h.owner]

/-- Other tasks' steps leave a task's handle and guards alone. -/
theorem acquire_same {L' : LockTable K} (hne : t ≠ t') (h : L.acquire t' = some L') :
    L.Same t L' := by
  unfold LockTable.acquire at h
  split at h
  · cases h
  · rename_i hd _
    split at h
    · cases h
    · rename_i hfree
      cases h
      refine ⟨rfl, fun m => ?_⟩
      by_cases heq : m = hd.mutex
      · subst heq
        simp [hfree, Ne.symm hne]
      · simp [Function.update_of_ne heq]

theorem release_same (hne : t ≠ t') : L.Same t (L.release t') := by
  unfold LockTable.release
  split
  · exact same_refl t L
  · rename_i hd _
    split
    · rename_i hown
      refine ⟨rfl, fun m => ?_⟩
      by_cases heq : m = hd.mutex
      · subst heq
        simp [hown, Ne.symm hne]
      · simp [Function.update_of_ne heq]
    · exact same_refl t L

theorem releaseArc_same (hne : t ≠ t') : L.Same t (L.releaseArc t') :=
  ⟨AList.lookup_erase_ne hne, fun _ => .rfl⟩

variable [DecidableEq K]

/-- When the destructor sees a count of two, no other handle has the mutex. -/
theorem alone_of_strongCount {h h' : Handle K} (ht : L.handles.lookup t = some h)
    (ht' : L.handles.lookup t' = some h') (hmap : L.map.lookup k = some h.mutex)
    (hcount : L.strongCount h.mutex = 2) (hm : h'.mutex = h.mutex) : t' = t := by
  by_contra hne
  have hmem := mem_entries_of_lookup ht
  have hmem' := mem_entries_of_lookup ht'
  have hhandles : 2 ≤ L.handles.entries.countP (fun e => e.2.mutex = h.mutex) := by
    refine two_le_countP ?_ hmem' hmem (by simpa using hm) (by simp)
    intro heq
    exact hne (congrArg Sigma.fst heq)
  have htable : 0 < L.map.entries.countP (fun e => e.2 = h.mutex) :=
    List.countP_pos_iff.mpr ⟨_, mem_entries_of_lookup hmap, by simp⟩
  rw [LockTable.strongCount] at hcount
  omega

/-- The table starts consistent. -/
theorem empty_consistent : (LockTable.empty : LockTable K).Consistent where
  live_mapped h := by simp [LockTable.empty] at h
  map_inj h := by simp [LockTable.empty] at h
  map_fresh h := by simp [LockTable.empty] at h
  handle_fresh h := by simp [LockTable.empty] at h
  owner_live h := by simp [LockTable.empty] at h

/-- Lookup in the table after an insertion, read from either side. -/
theorem lookup_insert_cases {α : Type} [DecidableEq α] {β : Type} {l : AList fun _ : α => β}
    {a a' : α} {b b' : β} (h : (l.insert a b).lookup a' = some b') :
    (a' = a ∧ b' = b) ∨ (a' ≠ a ∧ l.lookup a' = some b') := by
  by_cases heq : a' = a
  · subst heq
    rw [AList.lookup_insert] at h
    exact .inl ⟨rfl, (Option.some.inj h).symm⟩
  · rw [AList.lookup_insert_ne heq] at h
    exact .inr ⟨heq, h⟩

/-- Taking a handle keeps the table consistent. -/
theorem lockFor_consistent (hL : L.Consistent) (hnone : L.handles.lookup t = none) (k : K) :
    (L.lockFor t k).Consistent := by
  have howner : ∀ {m u}, L.owner m = some u → u ≠ t := by
    intro m u hu heq
    subst heq
    obtain ⟨k', hk'⟩ := hL.owner_live hu
    rw [hnone] at hk'
    cases hk'
  cases hmap : L.map.lookup k with
  | some m =>
    simp only [LockTable.lockFor, hmap]
    refine ⟨?_, hL.map_inj, hL.map_fresh, ?_, ?_⟩
    · intro u k' m' hu
      rcases lookup_insert_cases hu with ⟨-, heq⟩ | ⟨-, hu'⟩
      · cases heq
        exact hmap
      · exact hL.live_mapped hu'
    · intro u h hu
      rcases lookup_insert_cases hu with ⟨-, rfl⟩ | ⟨-, hu'⟩
      · exact hL.map_fresh hmap
      · exact hL.handle_fresh hu'
    · intro m' u hu
      obtain ⟨k', hk'⟩ := hL.owner_live hu
      exact ⟨k', by rw [AList.lookup_insert_ne (howner hu)]; exact hk'⟩
  | none =>
    simp only [LockTable.lockFor, hmap]
    have hold : ∀ {k' m}, L.map.lookup k' = some m → m ≠ L.fresh :=
      fun h => Nat.ne_of_lt (hL.map_fresh h)
    refine ⟨?_, ?_, ?_, ?_, ?_⟩
    · intro u k' m' hu
      rcases lookup_insert_cases hu with ⟨-, heq⟩ | ⟨-, hu'⟩
      · cases heq
        exact AList.lookup_insert L.map
      · have hk := hL.live_mapped hu'
        have hne : k' ≠ k := by
          rintro rfl
          rw [hmap] at hk
          cases hk
        rw [AList.lookup_insert_ne hne]
        exact hk
    · intro k₁ k₂ m h₁ h₂
      rcases lookup_insert_cases h₁ with ⟨rfl, rfl⟩ | ⟨-, h₁'⟩
      · rcases lookup_insert_cases h₂ with ⟨rfl, -⟩ | ⟨-, h₂'⟩
        · rfl
        · exact absurd rfl (hold h₂')
      · rcases lookup_insert_cases h₂ with ⟨rfl, rfl⟩ | ⟨-, h₂'⟩
        · exact absurd rfl (hold h₁')
        · exact hL.map_inj h₁' h₂'
    · intro k' m h
      rcases lookup_insert_cases h with ⟨-, rfl⟩ | ⟨-, h'⟩
      · exact Nat.lt_succ_self _
      · exact Nat.lt_succ_of_lt (hL.map_fresh h')
    · intro u h hu
      rcases lookup_insert_cases hu with ⟨-, rfl⟩ | ⟨-, hu'⟩
      · exact Nat.lt_succ_self _
      · exact Nat.lt_succ_of_lt (hL.handle_fresh hu')
    · intro m' u hu
      obtain ⟨k', hk'⟩ := hL.owner_live hu
      exact ⟨k', by rw [AList.lookup_insert_ne (howner hu)]; exact hk'⟩

/-- After taking a handle the task has one, without the guard. -/
theorem lockFor_has (hL : L.Consistent) (hnone : L.handles.lookup t = none) (k : K) :
    (L.lockFor t k).Has t k ∧ (L.lockFor t k).Outside t := by
  have hout : ∀ m, L.owner m ≠ some t := by
    intro m hm
    obtain ⟨k', hk'⟩ := hL.owner_live hm
    rw [hnone] at hk'
    cases hk'
  cases hmap : L.map.lookup k with
  | some m =>
    simp only [LockTable.lockFor, hmap]
    exact ⟨⟨m, AList.lookup_insert _⟩, hout⟩
  | none =>
    simp only [LockTable.lockFor, hmap]
    exact ⟨⟨L.fresh, AList.lookup_insert _⟩, hout⟩

/-- Locking keeps the table consistent and puts the task inside. -/
theorem acquire_consistent {L' : LockTable K} (hL : L.Consistent) (hhas : L.Has t k)
    (h : L.acquire t = some L') : L'.Consistent ∧ L'.Holds t k := by
  obtain ⟨m, hm⟩ := hhas
  simp only [LockTable.acquire, hm] at h
  split at h
  · cases h
  · rename_i hfree
    cases h
    refine ⟨⟨hL.live_mapped, hL.map_inj, hL.map_fresh, hL.handle_fresh, ?_⟩,
      m, hm, Function.update_self ..⟩
    intro m' u hu
    dsimp only at hu ⊢
    by_cases heq : m' = m
    · subst heq
      rw [Function.update_self] at hu
      cases hu
      exact ⟨k, hm⟩
    · rw [Function.update_of_ne heq] at hu
      exact hL.owner_live hu

/-- Dropping the guard keeps the table consistent and the task outside. -/
theorem release_consistent (hL : L.Consistent) (t : ℕ) :
    (L.release t).Consistent ∧ (L.release t).Outside t ∧
      (L.release t).handles = L.handles := by
  cases ht : L.handles.lookup t with
  | none =>
    simp only [LockTable.release, ht, and_true]
    refine ⟨hL, fun m hm => ?_⟩
    obtain ⟨k', hk'⟩ := hL.owner_live hm
    rw [ht] at hk'
    cases hk'
  | some h =>
    have honly : ∀ m, L.owner m = some t → m = h.mutex := by
      intro m hm
      obtain ⟨k', hk'⟩ := hL.owner_live hm
      rw [ht] at hk'
      cases hk'
      rfl
    by_cases hown : L.owner h.mutex = some t
    · simp only [LockTable.release, ht, hown, if_true, and_true]
      refine ⟨⟨hL.live_mapped, hL.map_inj, hL.map_fresh, hL.handle_fresh, ?_⟩, ?_⟩
      · intro m u hu
        dsimp only at hu ⊢
        by_cases heq : m = h.mutex
        · rw [heq, Function.update_self] at hu
          cases hu
        · rw [Function.update_of_ne heq] at hu
          exact hL.owner_live hu
      · intro m hm
        dsimp only at hm
        by_cases heq : m = h.mutex
        · rw [heq, Function.update_self] at hm
          cases hm
        · rw [Function.update_of_ne heq] at hm
          exact heq (honly m hm)
    · simp only [LockTable.release, ht, hown, if_false, and_true]
      refine ⟨hL, fun m hm => ?_⟩
      rw [honly m hm] at hm
      exact hown hm

/-- The destructor removes no mutex that another handle in use refers to. -/
theorem dropBody_consistent (hL : L.Consistent) (hout : L.Outside t) :
    (L.dropBody t).Consistent ∧ (L.dropBody t).Outside t := by
  cases ht : L.handles.lookup t with
  | none => simpa only [LockTable.dropBody, ht] using ⟨hL, hout⟩
  | some h =>
    simp only [LockTable.dropBody, ht]
    refine ⟨⟨?_, ?_, ?_, ?_, ?_⟩, hout⟩
    · intro u k m hu
      rcases lookup_insert_cases hu with ⟨-, heq⟩ | ⟨hne, hu'⟩
      · cases heq
      · have hk := hL.live_mapped hu'
        split
        · rename_i hcond
          obtain ⟨hcount, hmap⟩ := hcond
          by_cases heq : k = h.key
          · subst heq
            rw [hmap] at hk
            exact absurd (alone_of_strongCount ht hu' hmap hcount (Option.some.inj hk).symm) hne
          · rw [AList.lookup_erase_ne heq]
            exact hk
        · exact hk
    · intro k k' m hk hk'
      split at hk
      · rename_i hcond
        rw [if_pos hcond] at hk'
        have hne : ∀ {k₀}, (L.map.erase h.key).lookup k₀ = some m → k₀ ≠ h.key := by
          rintro k₀ hk₀ rfl
          rw [AList.lookup_erase] at hk₀
          cases hk₀
        have h₁ := hk
        have h₂ := hk'
        rw [AList.lookup_erase_ne (hne h₁)] at hk
        rw [AList.lookup_erase_ne (hne h₂)] at hk'
        exact hL.map_inj hk hk'
      · rename_i hcond
        rw [if_neg hcond] at hk'
        exact hL.map_inj hk hk'
    · intro k m hk
      split at hk
      · by_cases heq : k = h.key
        · rw [heq, AList.lookup_erase] at hk
          cases hk
        · rw [AList.lookup_erase_ne heq] at hk
          exact hL.map_fresh hk
      · exact hL.map_fresh hk
    · intro u h' hu
      rcases lookup_insert_cases hu with ⟨-, rfl⟩ | ⟨-, hu'⟩
      · exact hL.handle_fresh (h := h) ht
      · exact hL.handle_fresh hu'
    · intro m u hu
      obtain ⟨k', hk'⟩ := hL.owner_live hu
      have hne : u ≠ t := by
        rintro rfl
        exact hout m hu
      exact ⟨k', by rw [AList.lookup_insert_ne hne]; exact hk'⟩

/-- Giving up the reference keeps the table consistent. -/
theorem releaseArc_consistent (hL : L.Consistent) (hout : L.Outside t) :
    (L.releaseArc t).Consistent ∧ (L.releaseArc t).Outside t ∧
      (L.releaseArc t).handles.lookup t = none := by
  have hlook : ∀ {u h}, (L.handles.erase t).lookup u = some h → L.handles.lookup u = some h := by
    intro u h hu
    by_cases heq : u = t
    · rw [heq, AList.lookup_erase] at hu
      cases hu
    · rwa [AList.lookup_erase_ne heq] at hu
  refine ⟨⟨fun hu => hL.live_mapped (hlook hu), hL.map_inj, hL.map_fresh,
    fun hu => hL.handle_fresh (hlook hu), ?_⟩, hout, AList.lookup_erase t L.handles⟩
  intro m u hu
  obtain ⟨k', hk'⟩ := hL.owner_live hu
  have hne : u ≠ t := by
    rintro rfl
    exact hout m hu
  exact ⟨k', by rw [LockTable.releaseArc, AList.lookup_erase_ne hne]; exact hk'⟩

/-- Two tasks are never inside the section of one key. -/
theorem holds_unique (hL : L.Consistent) (h : L.Holds t k) (h' : L.Holds t' k) : t = t' := by
  obtain ⟨m, hm, hown⟩ := h
  obtain ⟨m', hm', hown'⟩ := h'
  have heq : m = m' := by
    have hk := hL.live_mapped hm
    rw [hL.live_mapped hm'] at hk
    exact (Option.some.inj hk).symm
  subst heq
  rw [hown] at hown'
  exact Option.some.inj hown'

/-- Waiting for a mutex means that another task is inside the key's section. -/
theorem holder_of_blocked (hL : L.Consistent) (hhas : L.Has t k) (hblocked : L.acquire t = none) :
    ∃ t', L.Holds t' k := by
  obtain ⟨m, hm⟩ := hhas
  simp only [LockTable.acquire, hm] at hblocked
  split at hblocked
  · rename_i t' hown
    obtain ⟨k', hk'⟩ := hL.owner_live hown
    have hkey := hL.map_inj (hL.live_mapped hk') (hL.live_mapped hm)
    subst hkey
    exact ⟨t', m, hk', hown⟩
  · cases hblocked

theorem lockFor_same (hne : t ≠ t') (k : K) : L.Same t (L.lockFor t' k) := by
  refine ⟨?_, ?_⟩ <;> cases hmap : L.map.lookup k <;>
    simp [LockTable.lockFor, hmap, AList.lookup_insert_ne hne]

theorem dropBody_same (hne : t ≠ t') : L.Same t (L.dropBody t') := by
  unfold LockTable.dropBody
  split
  · exact same_refl t L
  · exact ⟨AList.lookup_insert_ne hne, fun _ => .rfl⟩

/-- What the task must know before a step on the table. -/
def LockOp.Pre (L : LockTable K) (t : ℕ) : LockOp K → Prop
  | .lockFor _ => L.handles.lookup t = none
  | .acquire => (∃ k, L.Has t k) ∧ L.Outside t
  | .release => True
  | .dropBody => L.Outside t
  | .releaseArc => L.Outside t

/-- The step lemma of the table: every step keeps it consistent. -/
theorem perform_consistent {L' : LockTable K} (hL : L.Consistent) {op : LockOp K}
    (hpre : op.Pre L t) (h : L.perform t op = some L') : L'.Consistent := by
  cases op with
  | lockFor k =>
    cases h
    exact lockFor_consistent hL hpre k
  | acquire =>
    obtain ⟨⟨k, hhas⟩, -⟩ := hpre
    exact (acquire_consistent hL hhas h).1
  | release =>
    cases h
    exact (release_consistent hL t).1
  | dropBody =>
    cases h
    exact (dropBody_consistent hL hpre).1
  | releaseArc =>
    cases h
    exact (releaseArc_consistent hL hpre).1

/-- A step of another task leaves this task's handle and guards alone. -/
theorem perform_same {L' : LockTable K} (hne : t ≠ t') {op : LockOp K}
    (h : L.perform t' op = some L') : L.Same t L' := by
  cases op with
  | lockFor k =>
    cases h
    exact lockFor_same hne k
  | acquire => exact acquire_same hne h
  | release =>
    cases h
    exact release_same hne
  | dropBody =>
    cases h
    exact dropBody_same hne
  | releaseArc =>
    cases h
    exact releaseArc_same hne

end OpenTfMirror.KeyedLocks
