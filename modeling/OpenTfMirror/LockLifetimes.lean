import OpenTfMirror.LockSections
import OpenTfMirror.Metadata

/-!
# The life of mutexes created on demand

Any number of tasks, each with any sections under any keys, may wait, be inside,
and be cancelled there. All of them use the key's mutex in the table. An entry
without handles is left behind when the destructor of the last handle in use
runs before another one has given up its reference, and only then.
-/

namespace OpenTfMirror.LockLifetimes

open TaskProgram TaskLogic KeyedLocks LockSections Metadata

section Machine

/-- A step on the table, or an await point inside a section. -/
inductive Op (K : Type) where
  | lock (op : LockOp K)
  | await

/-- Nothing answers anything. -/
abbrev Res (K : Type) : Op K → Type := fun _ => Unit

abbrev Code (K α : Type) : Type := Prog (Op K) (Res K) α

variable {K : Type}

abbrev lock (op : LockOp K) : Code K Unit := .call (.lock op) .done

/-- The body of a section, with its await points. -/
def awaits : ℕ → Code K Unit
  | 0 => .done ()
  | n + 1 => do
    (.call .await .done : Code K Unit)
    awaits n

/-- One section after the other, each with its key and its await points. -/
def sections : List (K × ℕ) → Code K Unit
  | [] => .done ()
  | (k, n) :: rest => do
    guarded lock k (awaits n)
    sections rest

/-- The destructors of a cancelled task. -/
def unwind : Code K Unit := do
  lock .release
  lock .dropBody
  lock .releaseArc
  return ()

variable [DecidableEq K]

/-- Tasks over one table; each may be cancelled where it waits. -/
def machine (K : Type) [DecidableEq K] :
    Machine (Op K) (Res K) Unit (LockTable K) Unit (List (K × ℕ)) Empty where
  exec t L op _ :=
    match op with
    | .lock op => (L.perform t op).map fun L' => ((), L')
    | .await => some ((), L)
  start t L entry := if (L.handles.lookup t).isNone then some (sections entry, L) else none
  move _ m := nomatch m
  cancel _ L op :=
    match op with
    | .lock .acquire | .await => some L
    | _ => none
  unwind := unwind
  reboot _ := none

/-- No task has started. -/
def idle (K : Type) : Config (Op K) (Res K) Unit (LockTable K) := ⟨.empty, fun _ => none⟩

/-- The destructor of the task's handle leaves another handle in use, or no other
reference to the mutex outside the table. -/
def LastOut (L : LockTable K) (t : ℕ) : Prop :=
  ∀ h, L.handles.lookup t = some h →
    (∃ t' k, t' ≠ t ∧ L.handles.lookup t' = some ⟨k, h.mutex, false⟩) ∨
    ∀ t' h', t' ≠ t → L.handles.lookup t' = some h' → h'.mutex ≠ h.mutex

/-- Under the strict policy the last destructor of a mutex waits until the other
references to it are released. -/
def polite (K : Type) (strict : Prop) :
    Policy (Op K) (LockTable K) Unit (List (K × ℕ)) Empty where
  start _ _ _ := True
  run t L op _ :=
    match op with
    | .lock .dropBody => strict → LastOut L t
    | _ => True
  cancel _ _ _ := True
  move _ _ := True
  reboot := True

end Machine

section Tables

variable {K : Type} [DecidableEq K] {L L' : LockTable K} {t t' : ℕ} {k : K}

/-- An entry of the table has a handle in use. -/
def Rooted (L : LockTable K) : Prop :=
  ∀ k m, L.map.lookup k = some m → ∃ t, L.handles.lookup t = some ⟨k, m, false⟩

/-- What a table keeps, with handles for all entries under the strict policy. -/
structure Kept (strict : Prop) (L : LockTable K) : Prop where
  consistent : L.Consistent
  rooted : strict → Rooted L

/-- What a task knows before each of its operations. -/
def Allowed (t : ℕ) (L : LockTable K) : Op K → Prop
  | .lock (.lockFor _) => L.handles.lookup t = none
  | .lock .acquire => (∃ k, L.Has t k) ∧ L.Outside t
  | .lock .release => True
  | .lock .dropBody => L.Outside t ∧ ∃ k, L.Has t k
  | .lock .releaseArc => L.Outside t ∧ ∃ h, L.handles.lookup t = some h ∧ h.dropped = true
  | .await => ∃ k, L.Holds t k

omit [DecidableEq K] in
/-- At most one member passes, so at most one is counted. -/
theorem countP_le_one {α : Type} {p : α → Bool} {l : List α} (hnodup : l.Nodup)
    (h : ∀ a ∈ l, ∀ b ∈ l, p a = true → p b = true → a = b) : l.countP p ≤ 1 := by
  induction l with
  | nil => exact Nat.zero_le _
  | cons x rest ih =>
    obtain ⟨hx, hrest⟩ := List.nodup_cons.mp hnodup
    have hle := ih hrest fun a ha b hb =>
      h a (List.mem_cons_of_mem _ ha) b (List.mem_cons_of_mem _ hb)
    by_cases hp : p x = true
    · have hzero : rest.countP p = 0 := by
        rw [List.countP_eq_zero]
        intro a ha hpa
        rw [h x List.mem_cons_self a (List.mem_cons_of_mem _ ha) hp hpa] at hx
        exact hx ha
      rw [List.countP_cons_of_pos hp]
      omega
    · rw [List.countP_cons_of_neg hp]
      exact hle

omit [DecidableEq K] in
/-- An association list whose value at one key only is the wanted one counts it
once. -/
theorem countP_entries {α β : Type} [DecidableEq α] {l : AList fun _ : α => β} {p : β → Bool} {a : α}
    {b : β} (hlookup : l.lookup a = some b) (hb : p b = true)
    (honly : ∀ a' b', l.lookup a' = some b' → p b' = true → a' = a) :
    l.entries.countP (fun e => p e.2) = 1 := by
  have hpos : 0 < l.entries.countP fun e => p e.2 :=
    List.countP_pos_iff.mpr ⟨_, mem_entries_of_lookup hlookup, hb⟩
  have hle : l.entries.countP (fun e => p e.2) ≤ 1 := by
    refine countP_le_one l.nodupKeys.nodup fun e he e' he' hp hp' => ?_
    obtain ⟨a₁, b₁⟩ := e
    obtain ⟨a₂, b₂⟩ := e'
    have h₁ := AList.mem_lookup_iff.mpr he
    have h₂ := AList.mem_lookup_iff.mpr he'
    have hkey : a₁ = a₂ := (honly a₁ b₁ h₁ hp).trans (honly a₂ b₂ h₂ hp').symm
    subst hkey
    have hvalue : b₁ = b₂ := Option.some.inj (h₁.symm.trans h₂)
    rw [hvalue]
  omega

/-- The table and one handle in use hold the only references. -/
theorem strongCount_eq_two {m : ℕ} (hL : L.Consistent)
    (ht : L.handles.lookup t = some ⟨k, m, false⟩)
    (halone : ∀ t' h', t' ≠ t → L.handles.lookup t' = some h' → h'.mutex ≠ m) :
    L.strongCount m = 2 := by
  have hmap : L.map.entries.countP (fun e => e.2 = m) = 1 := by
    refine countP_entries (p := fun m' => decide (m' = m)) (hL.live_mapped ht) (by simp) ?_
    intro k' m' hlookup hm
    have heq : m' = m := of_decide_eq_true hm
    subst heq
    exact hL.map_inj hlookup (hL.live_mapped ht)
  have hhandles : L.handles.entries.countP (fun e => e.2.mutex = m) = 1 := by
    refine countP_entries (p := fun h' => decide (h'.mutex = m)) ht (by simp) ?_
    intro t' h' hlookup hm
    by_contra hne
    exact halone t' h' hne hlookup (of_decide_eq_true hm)
  rw [LockTable.strongCount, hmap, hhandles]

/-- A new handle is in use. -/
theorem lockFor_rooted (hL : Rooted L) (hnone : L.handles.lookup t = none) (k : K) :
    Rooted (L.lockFor t k) := by
  have hkeep : ∀ {h : Handle K} {k' m}, L.map.lookup k' = some m →
      ∃ u, (L.handles.insert t h).lookup u = some ⟨k', m, false⟩ := by
    intro h k' m hlookup
    obtain ⟨u, hu⟩ := hL k' m hlookup
    have hne : u ≠ t := by
      rintro rfl
      rw [hnone] at hu
      cases hu
    exact ⟨u, by rw [AList.lookup_insert_ne hne]; exact hu⟩
  cases hmap : L.map.lookup k with
  | some m =>
    simp only [LockTable.lockFor, hmap]
    exact fun k' m' hlookup => hkeep hlookup
  | none =>
    simp only [LockTable.lockFor, hmap]
    intro k' m hlookup
    rcases lookup_insert_cases hlookup with ⟨rfl, rfl⟩ | ⟨-, hold⟩
    · exact ⟨t, AList.lookup_insert _⟩
    · exact hkeep hold

/-- The destructor of the last handle in use removes the entry, when it finds no
other reference. -/
theorem dropBody_rooted (hL : L.Consistent) (hrooted : Rooted L) (hhas : L.Has t k)
    (hlast : LastOut L t) : Rooted (L.dropBody t) := by
  obtain ⟨m, ht⟩ := hhas
  simp only [LockTable.dropBody, ht]
  intro k' m' hlookup
  dsimp only at hlookup ⊢
  have hold : L.map.lookup k' = some m' := by
    split at hlookup
    · by_cases heq : k' = k
      · rw [heq, AList.lookup_erase] at hlookup
        cases hlookup
      · rwa [AList.lookup_erase_ne heq] at hlookup
    · exact hlookup
  obtain ⟨u, hu⟩ := hrooted k' m' hold
  by_cases hut : u = t
  · -- the entry was this handle's, so another one in use must be left
    subst hut
    rw [ht] at hu
    cases hu
    rcases hlast _ ht with ⟨t', k'', hne, ht'⟩ | halone
    · have hkey := hL.map_inj (hL.live_mapped ht') (hL.live_mapped ht)
      subst hkey
      exact ⟨t', by rw [AList.lookup_insert_ne hne]; exact ht'⟩
    · rw [if_pos ⟨strongCount_eq_two hL ht halone, hL.live_mapped ht⟩, AList.lookup_erase] at hlookup
      cases hlookup
  · exact ⟨u, by rw [AList.lookup_insert_ne hut]; exact hu⟩

/-- Giving up a reference leaves the handles in use. -/
theorem releaseArc_rooted (hrooted : Rooted L) {h : Handle K}
    (ht : L.handles.lookup t = some h) (hdropped : h.dropped = true) :
    Rooted (L.releaseArc t) := by
  intro k' m' hlookup
  obtain ⟨u, hu⟩ := hrooted k' m' hlookup
  have hne : u ≠ t := by
    rintro rfl
    rw [ht] at hu
    cases hu
    cases hdropped
  exact ⟨u, by rw [LockTable.releaseArc, AList.lookup_erase_ne hne]; exact hu⟩

/-- The guards do not matter for that. -/
theorem rooted_of_same (hrooted : Rooted L) (hmap : L'.map = L.map)
    (hhandles : L'.handles = L.handles) : Rooted L' := by
  intro k' m' hlookup
  rw [hmap] at hlookup
  rw [hhandles]
  exact hrooted k' m' hlookup

omit [DecidableEq K] in
theorem acquire_fields (h : L.acquire t = some L') : L'.map = L.map ∧ L'.handles = L.handles := by
  unfold LockTable.acquire at h
  split at h
  · cases h
  · split at h
    · cases h
    · cases h
      exact ⟨rfl, rfl⟩

omit [DecidableEq K] in
theorem release_map (L : LockTable K) (t : ℕ) : (L.release t).map = L.map := by
  unfold LockTable.release
  split
  · rfl
  · split
    · rfl
    · rfl

/-- Every allowed step keeps the table. -/
theorem perform_kept {strict : Prop} {op : LockOp K} (hL : Kept strict L)
    (hallowed : Allowed t L (.lock op)) (hpolite : (polite K strict).run t L (.lock op) ())
    (h : L.perform t op = some L') : Kept strict L' := by
  cases op with
  | lockFor k =>
    cases h
    exact ⟨lockFor_consistent hL.consistent hallowed k,
      fun hstrict => lockFor_rooted (hL.rooted hstrict) hallowed k⟩
  | acquire =>
    obtain ⟨⟨k, hhas⟩, -⟩ := hallowed
    obtain ⟨hmap, hhandles⟩ := acquire_fields h
    exact ⟨(acquire_consistent hL.consistent hhas h).1,
      fun hstrict => rooted_of_same (hL.rooted hstrict) hmap hhandles⟩
  | release =>
    cases h
    obtain ⟨hconsistent, -, hhandles⟩ := release_consistent hL.consistent t
    exact ⟨hconsistent, fun hstrict =>
      rooted_of_same (hL.rooted hstrict) (release_map L t) hhandles⟩
  | dropBody =>
    cases h
    obtain ⟨hout, k, hhas⟩ := hallowed
    exact ⟨(dropBody_consistent hL.consistent hout).1,
      fun hstrict => dropBody_rooted hL.consistent (hL.rooted hstrict) hhas (hpolite hstrict)⟩
  | releaseArc =>
    cases h
    obtain ⟨hout, h, ht, hdropped⟩ := hallowed
    exact ⟨(releaseArc_consistent hL.consistent hout).1,
      fun hstrict => releaseArc_rooted (hL.rooted hstrict) ht hdropped⟩

end Tables

section Tasks

variable {K : Type} [DecidableEq K] {strict : Prop} {t : ℕ} {L : LockTable K} {k : K}

/-- What the proofs about single tasks rely on. -/
def lifetimes (K : Type) [DecidableEq K] (strict : Prop) : Assertions (Op K) (LockTable K) where
  inv := Kept strict
  frame t := LockTable.Same t
  pre t op L := Allowed t L op
  frame_refl := same_refl
  frame_trans _ _ _ _ h h' := h.trans h'

/-- Verified for any other tasks. -/
abbrev Wp (strict : Prop) (t : ℕ) {α : Type} (program : Code K α) (Q : α → LockTable K → Prop)
    (L : LockTable K) : Prop :=
  wp (lifetimes K strict) (polite K strict) (machine K) t program Q L

theorem stable_has : Stable (lifetimes K strict) t fun L => L.Has t k ∧ L.Outside t :=
  fun _ _ _ hsame h => ⟨hsame.has_iff.mpr h.1, hsame.outside_iff.mpr h.2⟩

theorem stable_holds : Stable (lifetimes K strict) t fun L => L.Holds t k :=
  fun _ _ _ hsame h => hsame.holds_iff.mpr h

theorem stable_none :
    Stable (lifetimes K strict) t fun L : LockTable K => L.handles.lookup t = none :=
  fun _ _ _ hsame h => hsame.handle.trans h

/-- One step on the table. -/
theorem wp_lock {op : LockOp K} {α : Type} {next : Unit → Code K α} {Q : α → LockTable K → Prop}
    {φ : LockTable K → Prop} (hφ : φ L) (hstable : Stable (lifetimes K strict) t φ)
    (hallowed : ∀ L, L.Consistent → φ L → Allowed t L (.lock op))
    (hnext : ∀ L L', L.Consistent → φ L → L.perform t op = some L' → Wp strict t (next ()) Q L') :
    Wp strict t (.call (.lock op) next) Q L := by
  refine wp_call hφ hstable (fun L₁ hL₁ hφ₁ => hallowed L₁ hL₁.consistent hφ₁) ?_
  intro L₁ choice answer L₂ hL₁ hφ₁ _ hexec _
  obtain ⟨L', hperform, heq⟩ := Option.map_eq_some_iff.mp hexec
  cases heq
  exact hnext L₁ _ hL₁.consistent hφ₁ hperform

/-- The destructors of a task that has a handle. -/
theorem wp_leave {α : Type} {next : Code K α} {Q : α → LockTable K → Prop} (hhas : L.Has t k)
    (hnext : ∀ L, L.handles.lookup t = none → Wp strict t next Q L) :
    Wp strict t (do
      lock .release
      lock .dropBody
      lock .releaseArc
      next) Q L := by
  have hstable : Stable (lifetimes K strict) t fun L => L.Has t k :=
    fun _ _ _ hsame h => hsame.has_iff.mpr h
  refine wp_lock hhas hstable (fun _ _ _ => trivial) fun L₁ L₂ hL₁ hhas₁ hperform => ?_
  cases hperform
  obtain ⟨-, hout, hhandles⟩ := release_consistent hL₁ t
  have hhas₂ : (L₁.release t).Has t k := by
    unfold LockTable.Has
    rw [hhandles]
    exact hhas₁
  refine wp_lock ⟨hhas₂, hout⟩ stable_has (fun _ _ h => ⟨h.2, k, h.1⟩)
    fun L₃ L₄ hL₃ hhas₃ hperform => ?_
  cases hperform
  obtain ⟨m, hm⟩ := hhas₃.1
  have hdropped : (L₃.dropBody t).handles.lookup t = some ⟨k, m, true⟩ := by
    simp only [LockTable.dropBody, hm]
    exact AList.lookup_insert _
  have hout₄ := (dropBody_consistent hL₃ hhas₃.2).2
  have hstable' : Stable (lifetimes K strict) t fun L : LockTable K =>
      L.handles.lookup t = some ⟨k, m, true⟩ ∧ L.Outside t :=
    fun _ _ _ hsame h => ⟨hsame.handle.trans h.1, hsame.outside_iff.mpr h.2⟩
  refine wp_lock ⟨hdropped, hout₄⟩ hstable' (fun _ _ h => ⟨h.2, _, h.1, rfl⟩)
    fun L₅ L₆ hL₅ hhas₅ hperform => ?_
  cases hperform
  exact hnext _ (releaseArc_consistent hL₅ hhas₅.2).2.2

/-- The await points inside a section. -/
theorem wp_awaits (n : ℕ) (hholds : L.Holds t k) :
    Wp strict t (awaits n) (fun _ L' => L'.Holds t k) L := by
  induction n generalizing L with
  | zero => exact hholds
  | succ n ih =>
    unfold awaits
    refine (wp_bind t _ _ _ L).mpr ?_
    refine wp_call hholds stable_holds (fun _ _ h => ⟨k, h⟩) ?_
    intro L₁ choice answer L₂ _ hholds₁ _ hexec _
    cases hexec
    exact (wp_done t _ _ _).mpr (ih hholds₁)

/-- A whole section. -/
theorem wp_section (n : ℕ) (hnone : L.handles.lookup t = none) :
    Wp strict t (guarded lock k (awaits n)) (fun _ L' => L'.handles.lookup t = none) L := by
  unfold guarded
  refine wp_lock hnone stable_none (fun _ _ h => h) fun L₁ L₂ hL₁ hnone₁ hperform => ?_
  cases hperform
  refine wp_lock (lockFor_has hL₁ hnone₁ k) stable_has (fun _ _ h => ⟨⟨k, h.1⟩, h.2⟩)
    fun L₃ L₄ hL₃ hhas hperform => ?_
  have hholds := (acquire_consistent hL₃ hhas.1 hperform).2
  refine (wp_bind t (awaits n) _ _ L₄).mpr (wp_mono (wp_awaits n hholds) fun _ L₅ hholds₅ => ?_)
  obtain ⟨m, hm, -⟩ := hholds₅
  exact wp_leave ⟨m, hm⟩ fun L₆ hnone₆ => (wp_done t _ _ _).mpr hnone₆

theorem wp_sections (entry : List (K × ℕ)) (hnone : L.handles.lookup t = none) :
    Wp strict t (sections entry) (fun _ L' => L'.handles.lookup t = none) L := by
  induction entry generalizing L with
  | nil => exact hnone
  | cons e rest ih =>
    unfold sections
    exact (wp_bind t _ _ _ L).mpr (wp_mono (wp_section e.2 hnone) fun _ L' h => ih h)

/-- A task that has ended has no handle. -/
def Ended (t : ℕ) (_ : Unit) (L : LockTable K) : Prop := L.handles.lookup t = none

/-- The steps of any tasks keep the table. -/
theorem lifetimes_sound : Sound (lifetimes K strict) (polite K strict) (machine K) Ended where
  exec t L op choice answer L' hL hallowed hpolite hexec := by
    cases op with
    | lock op =>
      obtain ⟨L', hperform, heq⟩ := Option.map_eq_some_iff.mp hexec
      cases heq
      exact ⟨perform_kept hL hallowed hpolite hperform, fun t' hne => perform_same hne hperform⟩
    | await =>
      cases hexec
      exact ⟨hL, fun t' _ => same_refl t' L⟩
  start t L entry program L' hL _ hstart := by
    have hstart' : (if (L.handles.lookup t).isNone then some (sections entry, L) else none) =
        some (program, L') := hstart
    split at hstart'
    · next hnone =>
        cases hstart'
        exact ⟨hL, fun t' _ => same_refl t' L, wp_sections entry (Option.isNone_iff_eq_none.mp hnone)⟩
    · cases hstart'
  cancel t L op L' hL hallowed _ hcancel := by
    have hhas : L' = L ∧ ∃ k, L.Has t k := by
      cases op with
      | await =>
        cases hcancel
        obtain ⟨k, m, hm, -⟩ := hallowed
        exact ⟨rfl, k, m, hm⟩
      | lock op =>
        cases op with
        | acquire =>
          cases hcancel
          exact ⟨rfl, hallowed.1⟩
        | _ => cases hcancel
    obtain ⟨rfl, k, hk⟩ := hhas
    exact ⟨hL, fun t' _ => same_refl t' L', wp_leave hk fun L₁ hnone => (wp_done t _ _ _).mpr hnone⟩
  move _ m := nomatch m
  reboot _ _ _ _ hreboot := by cases hreboot
  post _ _ := stable_none

theorem empty_kept : Kept strict (LockTable.empty : LockTable K) :=
  ⟨empty_consistent, fun _ _ _ hlookup => by cases hlookup⟩

/-- The run lemma: the table is kept, and tasks that have ended have no handle. -/
theorem kept_of_run {c : Config (Op K) (Res K) Unit (LockTable K)}
    (hrun : (machine K).Run (polite K strict) (idle K) c) :
    Kept strict c.shared ∧
      ((∀ t, c.tasks t = none ∨ c.tasks t = some (.done ())) → ∀ t, c.shared.handles.lookup t = none) := by
  have hverified := adequacy lifetimes_sound (verified_idle empty_kept) hrun
  have hregistered := task_of_registered lifetimes_sound (fun t L => L.handles.lookup t ≠ none)
    (fun t L L' hsame h => by rwa [hsame.handle] at h) (fun _ _ hreboot => by cases hreboot)
    (verified_idle empty_kept) (fun t h => absurd rfl h) hrun
  refine ⟨hverified.1, fun hended t => ?_⟩
  rcases hended t with hnone | hdone
  · by_contra h
    exact hregistered t h hnone
  · exact hverified.result hdone

end Tasks

section Claims

variable {K : Type} [DecidableEq K]

/-- However the tasks interleave, the handles of a key that are in use refer to
the one mutex that the table has for it, so no two tasks are inside its section. -/
theorem one_live_mutex {c : Config (Op K) (Res K) Unit (LockTable K)}
    (hrun : (machine K).Run .free (idle K) c) :
    (∀ t t' k m m', c.shared.handles.lookup t = some ⟨k, m, false⟩ →
      c.shared.handles.lookup t' = some ⟨k, m', false⟩ → m = m' ∧ c.shared.map.lookup k = some m) ∧
    ∀ t t' k, c.shared.Holds t k → c.shared.Holds t' k → t = t' := by
  have hpermits : ∀ (c : Config (Op K) (Res K) Unit (LockTable K)) action,
      Policy.free.Permits c action → (polite K False).Permits c action := by
    intro c action _
    cases action with
    | run t choice =>
      intro op next _
      cases op with
      | lock op =>
        cases op with
        | dropBody => exact False.elim
        | _ => trivial
      | await => trivial
    | start t entry => trivial
    | cancel t => exact fun _ _ _ => trivial
    | move m => trivial
    | reboot => trivial
  have hconsistent := (kept_of_run (run_mono (machine K) hpermits hrun)).1.consistent
  refine ⟨fun t t' k m m' h h' => ?_, fun t t' k h h' => holds_unique hconsistent h h'⟩
  have hmap := hconsistent.live_mapped h
  have hmap' := hconsistent.live_mapped h'
  exact ⟨Option.some.inj (hmap.symm.trans hmap'), hmap⟩

/-- The provider that two tasks ask for. -/
def provider : ProviderKey := ⟨"registry.terraform.io", "hashicorp", "random"⟩

/-- Both take a handle, and the first one is inside. -/
def bothAsk : List (Action Unit (List (ProviderKey × ℕ)) Empty) :=
  [.start 0 [(provider, 1)], .start 1 [(provider, 0)], .run 0 (), .run 1 (), .run 0 ()]

theorem one_live_mutex_plain :
    ∃ c, (machine ProviderKey).Run .free (idle ProviderKey) c ∧
      c.shared.handles.lookup 0 = some ⟨provider, 0, false⟩ ∧
      c.shared.handles.lookup 1 = some ⟨provider, 0, false⟩ ∧
      c.shared.map.lookup provider = some 0 := by
  have htest : ((machine ProviderKey).runs (idle ProviderKey) bothAsk).any (fun c =>
      c.shared.handles.lookup 0 = some ⟨provider, 0, false⟩ &&
        c.shared.handles.lookup 1 = some ⟨provider, 0, false⟩) = true := by decide +kernel
  obtain ⟨c, hruns, hc⟩ := exists_of_runs _ htest
  simp only [Bool.and_eq_true, decide_eq_true_eq] at hc
  have hrun := run_of_runs _ hruns
  exact ⟨c, hrun, hc.1, hc.2, ((one_live_mutex hrun).1 0 1 provider 0 0 hc.1 hc.2).2⟩

/-- No entry is left without a handle for its key, and none at all when all tasks
have ended. -/
def NoLeak (c : Config (Op K) (Res K) Unit (LockTable K)) : Prop :=
  (∀ k, (∀ t h, c.shared.handles.lookup t = some h → h.key ≠ k) → c.shared.map.lookup k = none) ∧
    ((∀ t, c.tasks t = none ∨ c.tasks t = some (.done ())) → c.shared.map.entries.length = 0)

/-- Nothing leaks when the last destructor of each mutex runs after all other
references to it are released. -/
theorem no_leak {c : Config (Op K) (Res K) Unit (LockTable K)}
    (hrun : (machine K).Run (polite K True) (idle K) c) : NoLeak c := by
  obtain ⟨hkept, hended⟩ := kept_of_run hrun
  have hgone : ∀ k, (∀ t h, c.shared.handles.lookup t = some h → h.key ≠ k) →
      c.shared.map.lookup k = none := by
    intro k hnone
    cases hlookup : c.shared.map.lookup k with
    | none => rfl
    | some m =>
      obtain ⟨t, ht⟩ := hkept.rooted trivial k m hlookup
      exact absurd rfl (hnone t _ ht)
  refine ⟨hgone, fun hall => ?_⟩
  by_contra hne
  obtain ⟨e, he⟩ := List.exists_mem_of_length_pos (Nat.pos_of_ne_zero hne)
  have hnone := hgone e.1 fun t h ht => by
    rw [hended hall t] at ht
    cases ht
  rw [AList.mem_lookup_iff.mpr he] at hnone
  cases hnone

/-- No other handle refers to the mutex of the task's handle, or one in use does. -/
def lastOut (L : LockTable ProviderKey) (t : ℕ) : Bool :=
  match L.handles.lookup t with
  | none => true
  | some h =>
    L.handles.entries.any (fun e => e.1 ≠ t && e.2.mutex = h.mutex && !e.2.dropped) ||
      L.handles.entries.all fun e => e.1 = t || e.2.mutex ≠ h.mutex

/-- A test of the strict policy. -/
def checked (c : Config (Op ProviderKey) (Res ProviderKey) Unit (LockTable ProviderKey)) :
    Action Unit (List (ProviderKey × ℕ)) Empty → Bool
  | .run t _ =>
    match c.tasks t with
    | some (.call (.lock .dropBody) _) => lastOut c.shared t
    | _ => true
  | _ => true

theorem lastOut_sound {L : LockTable ProviderKey} {t : ℕ} (h : lastOut L t = true) : LastOut L t := by
  intro h₀ ht
  rw [lastOut, ht] at h
  rcases Bool.or_eq_true _ _ ▸ h with hany | hall
  · obtain ⟨e, he, hpass⟩ := List.any_eq_true.mp hany
    simp only [Bool.and_eq_true, decide_eq_true_eq, Bool.not_eq_true'] at hpass
    obtain ⟨⟨hne, hmutex⟩, hlive⟩ := hpass
    obtain ⟨t', k, m, dropped⟩ := e
    cases hmutex
    cases hlive
    exact .inl ⟨t', k, hne, AList.mem_lookup_iff.mpr he⟩
  · refine .inr fun t' h' hne ht' => ?_
    have hthis := List.all_eq_true.mp hall _ (AList.mem_lookup_iff.mp ht')
    simp only [Bool.or_eq_true, decide_eq_true_eq] at hthis
    exact hthis.resolve_left hne

theorem checked_permits (c : Config (Op ProviderKey) (Res ProviderKey) Unit (LockTable ProviderKey))
    (action : Action Unit (List (ProviderKey × ℕ)) Empty) (h : checked c action = true) :
    (polite ProviderKey True).Permits c action := by
  cases action with
  | run t choice =>
    intro op next htask
    cases op with
    | await => trivial
    | lock op =>
      cases op with
      | dropBody =>
        intro _
        rw [checked, htask] at h
        exact lastOut_sound h
      | _ => trivial
  | start t entry => trivial
  | cancel t => exact fun _ _ _ => trivial
  | move m => trivial
  | reboot => trivial

/-- The first task leaves altogether before the second one does. -/
def oneByOne : List (Action Unit (List (ProviderKey × ℕ)) Empty) :=
  bothAsk ++ [.run 0 (), .run 0 (), .run 1 (), .run 0 (), .run 0 (), .run 1 (), .run 1 (), .run 1 ()]

theorem no_leak_plain :
    ∃ c, (machine ProviderKey).Run (polite ProviderKey True) (idle ProviderKey) c ∧
      (c.tasks 0).isSome = true ∧ (c.tasks 1).isSome = true ∧ c.shared.handles.entries = [] ∧
        NoLeak c := by
  have htest : ((machine ProviderKey).checkedRuns checked (idle ProviderKey) oneByOne).any (fun c =>
      (c.tasks 0).isSome && (c.tasks 1).isSome && c.shared.handles.entries = []) = true := by
    decide +kernel
  cases hruns : (machine ProviderKey).checkedRuns checked (idle ProviderKey) oneByOne with
  | none =>
    rw [hruns] at htest
    cases htest
  | some c =>
    rw [hruns] at htest
    have hc : ((c.tasks 0).isSome && (c.tasks 1).isSome && c.shared.handles.entries = []) = true :=
      htest
    simp only [Bool.and_eq_true, decide_eq_true_eq] at hc
    have hrun := run_of_checked _ (polite ProviderKey True) checked_permits hruns
    exact ⟨c, hrun, hc.1.1, hc.1.2, hc.2, no_leak hrun⟩

/-- Both run their destructors before either has given up its reference: each
counts three references, and the entry stays. -/
def sideBySide : List (Action Unit (List (ProviderKey × ℕ)) Empty) :=
  bothAsk ++ [.run 0 (), .run 0 (), .run 1 (), .run 1 (), .run 0 (), .run 1 (), .run 0 (), .run 1 ()]

theorem no_leak_fails :
    ¬∀ c, (machine ProviderKey).Run .free (idle ProviderKey) c → NoLeak c := by
  intro h
  have htest : ((machine ProviderKey).runs (idle ProviderKey) sideBySide).any (fun c =>
      c.shared.handles.entries = [] && c.shared.map.lookup provider = some 0) = true := by
    decide +kernel
  obtain ⟨c, hruns, hc⟩ := exists_of_runs _ htest
  simp only [Bool.and_eq_true, decide_eq_true_eq] at hc
  obtain ⟨hgone, -⟩ := h c (run_of_runs _ hruns)
  have hnone := hgone provider fun t h ht => by
    have hmem := mem_entries_of_lookup ht
    rw [hc.1] at hmem
    cases hmem
  rw [hc.2] at hnone
  cases hnone

end Claims

end OpenTfMirror.LockLifetimes
