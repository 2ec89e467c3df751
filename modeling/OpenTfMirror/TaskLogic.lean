import OpenTfMirror.TaskProgram
import Mathlib.Logic.Relation

/-!
# Interleaved tasks and their rely-guarantee rules

A machine runs any number of tasks over one shared state, one atomic operation
at a time in any order. Tasks may start late, be dropped at an await point, and
lose everything volatile in a reboot. A policy narrows which actions a run may
take, so a statement about runs of a kind is a statement under a policy.

A task is verified alone against a frame: what the other tasks leave unchanged
for it. `adequacy` turns the proofs about single tasks and single operations
into an invariant of every reachable configuration.
-/

namespace OpenTfMirror.TaskLogic

open TaskProgram Relation

variable {Op : Type} {Res : Op → Type} {Out Shared Choice Entry Move α β : Type}

/-- What an operation does, which tasks can start, and what may happen to them. -/
structure Machine (Op : Type) (Res : Op → Type) (Out Shared Choice Entry Move : Type) where
  /-- One atomic operation of a task, with the environment's answer. `none` blocks. -/
  exec : ℕ → Shared → (op : Op) → Choice → Option (Res op × Shared)
  /-- A new task with this number. -/
  start : ℕ → Shared → Entry → Option (Prog Op Res Out × Shared)
  /-- A step outside the tasks: the clock, a thread pool, another process. -/
  move : Shared → Move → Option Shared
  /-- The task's future is dropped at this operation. `none` where it does not wait. -/
  cancel : ℕ → Shared → Op → Option Shared
  /-- What the destructors of a dropped future do. -/
  unwind : Prog Op Res Out
  /-- The state after the process died and started again. -/
  reboot : Shared → Option Shared

/-- The shared state and the remaining code of every started task. -/
structure Config (Op : Type) (Res : Op → Type) (Out Shared : Type) where
  /-- Everything the tasks have in common. -/
  shared : Shared
  /-- Remaining code, by task number. -/
  tasks : ℕ → Option (Prog Op Res Out)

/-- One scheduling decision together with the environment's answer. -/
inductive Action (Choice Entry Move : Type) where
  | start (t : ℕ) (entry : Entry)
  | run (t : ℕ) (choice : Choice)
  | cancel (t : ℕ)
  | move (m : Move)
  | reboot

/-- Perform one action, if it is possible. -/
def Machine.step (M : Machine Op Res Out Shared Choice Entry Move)
    (c : Config Op Res Out Shared) :
    Action Choice Entry Move → Option (Config Op Res Out Shared)
  | .start t entry =>
    match c.tasks t with
    | some _ => none
    | none => (M.start t c.shared entry).map fun started =>
      ⟨started.2, Function.update c.tasks t (some started.1)⟩
  | .run t choice =>
    match c.tasks t with
    | some (.call op next) => (M.exec t c.shared op choice).map fun ran =>
      ⟨ran.2, Function.update c.tasks t (some (next ran.1))⟩
    | _ => none
  | .cancel t =>
    match c.tasks t with
    | some (.call op _) => (M.cancel t c.shared op).map fun shared =>
      ⟨shared, Function.update c.tasks t (some M.unwind)⟩
    | _ => none
  | .move m => (M.move c.shared m).map fun shared => ⟨shared, c.tasks⟩
  | .reboot => (M.reboot c.shared).map fun shared => ⟨shared, fun _ => none⟩

/-- Perform a list of actions in order. -/
def Machine.runs (M : Machine Op Res Out Shared Choice Entry Move)
    (c : Config Op Res Out Shared) :
    List (Action Choice Entry Move) → Option (Config Op Res Out Shared)
  | [] => some c
  | action :: rest =>
    match M.step c action with
    | none => none
    | some c' => M.runs c' rest

/-- Which actions the runs under consideration may take. -/
structure Policy (Op Shared Choice Entry Move : Type) where
  /-- Tasks that may start. -/
  start : ℕ → Shared → Entry → Prop
  /-- Operations, with their answers, that may happen. -/
  run : ℕ → Shared → Op → Choice → Prop
  /-- Await points at which a task may be dropped. -/
  cancel : ℕ → Shared → Op → Prop
  /-- Steps outside the tasks that may happen. -/
  move : Shared → Move → Prop
  /-- Whether the process may die. -/
  reboot : Prop

/-- Every action is allowed. -/
def Policy.free : Policy Op Shared Choice Entry Move where
  start _ _ _ := True
  run _ _ _ _ := True
  cancel _ _ _ := True
  move _ _ := True
  reboot := True

/-- The policy read at a configuration: an operation is the head of its task. -/
def Policy.Permits (P : Policy Op Shared Choice Entry Move) (c : Config Op Res Out Shared) :
    Action Choice Entry Move → Prop
  | .start t entry => P.start t c.shared entry
  | .run t choice => ∀ op next, c.tasks t = some (.call op next) → P.run t c.shared op choice
  | .cancel t => ∀ op next, c.tasks t = some (.call op next) → P.cancel t c.shared op
  | .move m => P.move c.shared m
  | .reboot => P.reboot

/-- One permitted action leads from the first configuration to the second. -/
def Machine.Next (M : Machine Op Res Out Shared Choice Entry Move)
    (P : Policy Op Shared Choice Entry Move) (c c' : Config Op Res Out Shared) : Prop :=
  ∃ action, P.Permits c action ∧ M.step c action = some c'

/-- Any number of permitted actions. -/
abbrev Machine.Run (M : Machine Op Res Out Shared Choice Entry Move)
    (P : Policy Op Shared Choice Entry Move) :
    Config Op Res Out Shared → Config Op Res Out Shared → Prop :=
  ReflTransGen (M.Next P)

/-- What a permitted action did to the configuration, one case for each kind. -/
inductive Happened (M : Machine Op Res Out Shared Choice Entry Move)
    (P : Policy Op Shared Choice Entry Move) (c c' : Config Op Res Out Shared) : Prop
  | started (t : ℕ) (entry : Entry) (program : Prog Op Res Out) (s : Shared)
      (hnone : c.tasks t = none) (hpermits : P.start t c.shared entry)
      (hstart : M.start t c.shared entry = some (program, s))
      (heq : c' = ⟨s, Function.update c.tasks t (some program)⟩)
  | ran (t : ℕ) (op : Op) (next : Res op → Prog Op Res Out) (choice : Choice) (answer : Res op)
      (s : Shared) (htask : c.tasks t = some (.call op next)) (hpermits : P.run t c.shared op choice)
      (hexec : M.exec t c.shared op choice = some (answer, s))
      (heq : c' = ⟨s, Function.update c.tasks t (some (next answer))⟩)
  | cancelled (t : ℕ) (op : Op) (next : Res op → Prog Op Res Out) (s : Shared)
      (htask : c.tasks t = some (.call op next)) (hpermits : P.cancel t c.shared op)
      (hcancel : M.cancel t c.shared op = some s)
      (heq : c' = ⟨s, Function.update c.tasks t (some M.unwind)⟩)
  | moved (m : Move) (s : Shared) (hpermits : P.move c.shared m)
      (hmove : M.move c.shared m = some s) (heq : c' = ⟨s, c.tasks⟩)
  | rebooted (s : Shared) (hpermits : P.reboot) (hreboot : M.reboot c.shared = some s)
      (heq : c' = ⟨s, fun _ => none⟩)

/-- The inversion of a step. -/
theorem happened (M : Machine Op Res Out Shared Choice Entry Move)
    (P : Policy Op Shared Choice Entry Move) {c c' : Config Op Res Out Shared}
    (hnext : M.Next P c c') : Happened M P c c' := by
  obtain ⟨action, hpermits, hstep⟩ := hnext
  cases action with
  | start t entry =>
    simp only [Machine.step] at hstep
    split at hstep
    · cases hstep
    · next hnone =>
        obtain ⟨⟨program, s⟩, hstart, rfl⟩ := Option.map_eq_some_iff.mp hstep
        exact .started t entry program s hnone hpermits hstart rfl
  | run t choice =>
    simp only [Machine.step] at hstep
    split at hstep
    · next op next htask =>
        obtain ⟨⟨answer, s⟩, hexec, rfl⟩ := Option.map_eq_some_iff.mp hstep
        exact .ran t op next choice answer s htask (hpermits op next htask) hexec rfl
    · cases hstep
  | cancel t =>
    simp only [Machine.step] at hstep
    split at hstep
    · next op next htask =>
        obtain ⟨s, hcancel, rfl⟩ := Option.map_eq_some_iff.mp hstep
        exact .cancelled t op next s htask (hpermits op next htask) hcancel rfl
    · cases hstep
  | move m =>
    obtain ⟨s, hmove, rfl⟩ := Option.map_eq_some_iff.mp hstep
    exact .moved m s hpermits hmove rfl
  | reboot =>
    obtain ⟨s, hreboot, rfl⟩ := Option.map_eq_some_iff.mp hstep
    exact .rebooted s hpermits hreboot rfl

/-- What a step can have done to a task that exists after it. -/
inductive Stepped (M : Machine Op Res Out Shared Choice Entry Move)
    (P : Policy Op Shared Choice Entry Move) (c c' : Config Op Res Out Shared) (t : ℕ)
    (program : Prog Op Res Out) : Prop
  /-- It stayed where it was. -/
  | stayed (h : c.tasks t = some program)
  /-- It is new. -/
  | started (entry : Entry) (hnone : c.tasks t = none) (hpermits : P.start t c.shared entry)
      (hstart : M.start t c.shared entry = some (program, c'.shared))
  /-- It performed its operation. -/
  | ran (op : Op) (next : Res op → Prog Op Res Out) (choice : Choice) (answer : Res op)
      (htask : c.tasks t = some (.call op next)) (hpermits : P.run t c.shared op choice)
      (hexec : M.exec t c.shared op choice = some (answer, c'.shared)) (heq : program = next answer)
  /-- It was dropped. -/
  | cancelled (op : Op) (next : Res op → Prog Op Res Out) (htask : c.tasks t = some (.call op next))
      (hpermits : P.cancel t c.shared op) (heq : program = M.unwind)

/-- The task after an update: the new one, or another that stayed. -/
theorem update_some {tasks : ℕ → Option (Prog Op Res Out)} {t u : ℕ}
    {program program' : Prog Op Res Out}
    (h : Function.update tasks u (some program') t = some program) :
    (t = u ∧ program = program') ∨ (t ≠ u ∧ tasks t = some program) := by
  by_cases heq : t = u
  · subst heq
    rw [Function.update_self] at h
    exact .inl ⟨rfl, (Option.some.inj h).symm⟩
  · rw [Function.update_of_ne heq] at h
    exact .inr ⟨heq, h⟩

theorem update_none {tasks : ℕ → Option (Prog Op Res Out)} {t u : ℕ} {program : Prog Op Res Out}
    (h : Function.update tasks u (some program) t = none) : t ≠ u ∧ tasks t = none := by
  by_cases heq : t = u
  · rw [heq, Function.update_self] at h
    cases h
  · rw [Function.update_of_ne heq] at h
    exact ⟨heq, h⟩

/-- A task after a step was there before, or is new. -/
theorem stepped (M : Machine Op Res Out Shared Choice Entry Move)
    (P : Policy Op Shared Choice Entry Move) {c c' : Config Op Res Out Shared}
    (hnext : M.Next P c c') {t : ℕ} {program : Prog Op Res Out} (h : c'.tasks t = some program) :
    Stepped M P c c' t program := by
  cases happened M P hnext with
  | started u entry begun s hnone hpermits hstart heq =>
    subst heq
    rcases update_some h with ⟨rfl, rfl⟩ | ⟨-, h⟩
    · exact .started entry hnone hpermits hstart
    · exact .stayed h
  | ran u op next choice answer s htask hpermits hexec heq =>
    subst heq
    rcases update_some h with ⟨rfl, rfl⟩ | ⟨-, h⟩
    · exact .ran op next choice answer htask hpermits hexec rfl
    · exact .stayed h
  | cancelled u op next s htask hpermits hcancel heq =>
    subst heq
    rcases update_some h with ⟨rfl, rfl⟩ | ⟨-, h⟩
    · exact .cancelled op next htask hpermits rfl
    · exact .stayed h
  | moved m s hpermits hmove heq =>
    subst heq
    exact .stayed h
  | rebooted s hpermits hreboot heq =>
    subst heq
    cases h

/-- Without a reboot no task disappears. -/
theorem task_kept (M : Machine Op Res Out Shared Choice Entry Move)
    (P : Policy Op Shared Choice Entry Move) (hreboot : ¬ P.reboot)
    {c c' : Config Op Res Out Shared} (hnext : M.Next P c c') {t : ℕ} {program : Prog Op Res Out}
    (h : c.tasks t = some program) : ∃ program', c'.tasks t = some program' := by
  have hupdate : ∀ {u : ℕ} {program' : Prog Op Res Out},
      ∃ program'', Function.update c.tasks u (some program') t = some program'' := by
    intro u program'
    by_cases heq : t = u
    · exact ⟨program', by rw [heq, Function.update_self]⟩
    · exact ⟨program, by rw [Function.update_of_ne heq, h]⟩
  cases happened M P hnext with
  | started u entry begun s _ _ _ heq => exact heq ▸ hupdate
  | ran u op next choice answer s _ _ _ heq => exact heq ▸ hupdate
  | cancelled u op next s _ _ _ heq => exact heq ▸ hupdate
  | moved m s _ _ heq => exact heq ▸ ⟨program, h⟩
  | rebooted s hpermits _ _ => exact absurd hpermits hreboot

/-- An executed list of actions that are always permitted is a run of the policy. -/
theorem run_of_permitted (M : Machine Op Res Out Shared Choice Entry Move)
    (P : Policy Op Shared Choice Entry Move) {actions : List (Action Choice Entry Move)}
    {c c' : Config Op Res Out Shared}
    (hpermits : ∀ action ∈ actions, ∀ c : Config Op Res Out Shared, P.Permits c action)
    (h : M.runs c actions = some c') : M.Run P c c' := by
  induction actions generalizing c with
  | nil =>
    cases h
    exact .refl
  | cons action rest ih =>
    rw [Machine.runs] at h
    split at h
    · cases h
    · rename_i c₁ hstep
      exact .head ⟨action, hpermits action List.mem_cons_self c, hstep⟩
        (ih (fun a ha => hpermits a (List.mem_cons_of_mem _ ha)) h)

/-- Two lists of actions, one after the other. -/
theorem runs_append (M : Machine Op Res Out Shared Choice Entry Move)
    {first : List (Action Choice Entry Move)} (second : List (Action Choice Entry Move))
    {c c' : Config Op Res Out Shared} (h : M.runs c first = some c') :
    M.runs c (first ++ second) = M.runs c' second := by
  induction first generalizing c with
  | nil =>
    cases h
    rfl
  | cons action rest ih =>
    rw [Machine.runs] at h
    rw [List.cons_append, Machine.runs]
    split at h
    · cases h
    · exact ih h

/-- What a test says about the end of an executed list of actions. -/
theorem exists_of_runs (M : Machine Op Res Out Shared Choice Entry Move)
    {actions : List (Action Choice Entry Move)} {c : Config Op Res Out Shared}
    {test : Config Op Res Out Shared → Bool} (h : (M.runs c actions).any test = true) :
    ∃ c', M.runs c actions = some c' ∧ test c' = true := by
  cases hruns : M.runs c actions with
  | none =>
    rw [hruns] at h
    cases h
  | some c' =>
    rw [hruns] at h
    exact ⟨c', rfl, h⟩

/-- An executed list of actions is a run of the free policy. -/
theorem run_of_runs (M : Machine Op Res Out Shared Choice Entry Move)
    {actions : List (Action Choice Entry Move)} {c c' : Config Op Res Out Shared}
    (h : M.runs c actions = some c') : M.Run .free c c' := by
  refine run_of_permitted M .free (fun action _ c => ?_) h
  cases action <;> simp [Policy.Permits, Policy.free]

/-- Perform a list of actions as long as each passes a test. -/
def Machine.checkedRuns (M : Machine Op Res Out Shared Choice Entry Move)
    (check : Config Op Res Out Shared → Action Choice Entry Move → Bool)
    (c : Config Op Res Out Shared) :
    List (Action Choice Entry Move) → Option (Config Op Res Out Shared)
  | [] => some c
  | action :: rest =>
    if check c action then
      match M.step c action with
      | none => none
      | some c' => M.checkedRuns check c' rest
    else none

/-- A tested list of actions is a run of a policy that permits what passes. -/
theorem run_of_checked (M : Machine Op Res Out Shared Choice Entry Move)
    (P : Policy Op Shared Choice Entry Move)
    {check : Config Op Res Out Shared → Action Choice Entry Move → Bool}
    (hcheck : ∀ c action, check c action = true → P.Permits c action)
    {actions : List (Action Choice Entry Move)} {c c' : Config Op Res Out Shared}
    (h : M.checkedRuns check c actions = some c') : M.Run P c c' := by
  induction actions generalizing c with
  | nil =>
    cases h
    exact .refl
  | cons action rest ih =>
    rw [Machine.checkedRuns] at h
    split at h
    · next hpass =>
        split at h
        · cases h
        · next c₁ hstep => exact .head ⟨action, hcheck c action hpass, hstep⟩ (ih h)
    · cases h

/-- Perform one action, or stay when it is impossible. -/
def Machine.act (M : Machine Op Res Out Shared Choice Entry Move) (c : Config Op Res Out Shared)
    (action : Action Choice Entry Move) : Config Op Res Out Shared :=
  (M.step c action).getD c

/-- Schedule one task alone, up to an operation to stop at; each operation takes
the answer that is chosen for it. -/
def Machine.follow (M : Machine Op Res Out Shared Choice Entry Move) (t : ℕ) (answer : Op → Choice)
    (stop : Shared → Op → Bool) : ℕ → Config Op Res Out Shared → Config Op Res Out Shared
  | 0, c => c
  | n + 1, c =>
    match c.tasks t with
    | some (.call op _) =>
      if stop c.shared op then c else M.follow t answer stop n (M.act c (.run t (answer op)))
    | _ => c

theorem run_act (M : Machine Op Res Out Shared Choice Entry Move)
    (P : Policy Op Shared Choice Entry Move) {action : Action Choice Entry Move}
    {c : Config Op Res Out Shared} (h : P.Permits c action) : M.Run P c (M.act c action) := by
  unfold Machine.act
  cases hstep : M.step c action with
  | none => exact .refl
  | some c' => exact .single ⟨action, h, hstep⟩

theorem run_follow (M : Machine Op Res Out Shared Choice Entry Move)
    (P : Policy Op Shared Choice Entry Move) {t : ℕ} {answer : Op → Choice}
    (stop : Shared → Op → Bool) (h : ∀ s op, stop s op = false → P.run t s op (answer op)) (n : ℕ)
    (c : Config Op Res Out Shared) :
    M.Run P c (M.follow t answer stop n c) := by
  induction n generalizing c with
  | zero => exact .refl
  | succ n ih =>
    unfold Machine.follow
    split
    · next op next htask =>
        split
        · exact .refl
        · next hgo =>
            have hpermits : P.Permits c (.run t (answer op)) := by
              intro op' next' htask'
              rw [htask] at htask'
              cases htask'
              exact h c.shared op (by simpa using hgo)
            exact (run_act M P hpermits).trans (ih _)
    · exact .refl

/-- A run of a policy is a run of every wider one. -/
theorem run_mono (M : Machine Op Res Out Shared Choice Entry Move)
    {P P' : Policy Op Shared Choice Entry Move} {c c' : Config Op Res Out Shared}
    (h : ∀ (c : Config Op Res Out Shared) action, P.Permits c action → P'.Permits c action)
    (hrun : M.Run P c c') : M.Run P' c c' := by
  refine Relation.ReflTransGen.mono (fun c₁ c₂ hnext => ?_) _ _ hrun
  obtain ⟨action, hpermits, hstep⟩ := hnext
  exact ⟨action, h c₁ action hpermits, hstep⟩

/-- What a proof about one task relies on: an invariant of the shared state, a
frame for each task, and what each operation needs before it. -/
structure Assertions (Op Shared : Type) where
  /-- Holds between any two operations. -/
  inv : Shared → Prop
  /-- What steps of the others leave unchanged for this task. -/
  frame : ℕ → Shared → Shared → Prop
  /-- Needed by the task when it performs this operation. -/
  pre : ℕ → Op → Shared → Prop
  /-- Doing nothing stays inside every frame. -/
  frame_refl : ∀ t s, frame t s s
  /-- Frames compose along a run of the others. -/
  frame_trans : ∀ t s₁ s₂ s₃, frame t s₁ s₂ → frame t s₂ s₃ → frame t s₁ s₃

section Rules

variable (A : Assertions Op Shared) (P : Policy Op Shared Choice Entry Move)
variable (M : Machine Op Res Out Shared Choice Entry Move)

/-- The task reaches its end only in states that satisfy the postcondition, and
every operation on the way is performed under its precondition, however the
others interfere before each operation. -/
def wp (t : ℕ) : Prog Op Res α → (α → Shared → Prop) → Shared → Prop
  | .done value, Q, s => Q value s
  | .call op next, Q, s => ∀ s₁, A.inv s₁ → A.frame t s s₁ →
      A.pre t op s₁ ∧ ∀ choice answer s₂, P.run t s₁ op choice →
        M.exec t s₁ op choice = some (answer, s₂) → A.inv s₂ → wp t (next answer) Q s₂

/-- A predicate that the other tasks cannot invalidate. -/
def Stable (t : ℕ) (Q : Shared → Prop) : Prop :=
  ∀ s s', A.inv s' → A.frame t s s' → Q s → Q s'

variable {A P M}

@[simp] theorem wp_done (t : ℕ) (value : α) (Q : α → Shared → Prop) (s : Shared) :
    wp A P M t (.done value) Q s ↔ Q value s := Iff.rfl

/-- A weaker postcondition is enough. -/
theorem wp_mono {t : ℕ} {program : Prog Op Res α} {Q Q' : α → Shared → Prop} {s : Shared}
    (h : wp A P M t program Q s) (himp : ∀ value s', Q value s' → Q' value s') :
    wp A P M t program Q' s := by
  induction program generalizing s with
  | done value => exact himp value s h
  | call op next ih =>
    intro s₁ hinv hframe
    obtain ⟨hpre, hnext⟩ := h s₁ hinv hframe
    exact ⟨hpre, fun choice answer s₂ hp hexec hinv₂ =>
      ih answer (hnext choice answer s₂ hp hexec hinv₂)⟩

/-- A sequence is verified one program after the other. -/
@[simp] theorem wp_bind (t : ℕ) (program : Prog Op Res α) (f : α → Prog Op Res β)
    (Q : β → Shared → Prop) (s : Shared) :
    wp A P M t (program >>= f) Q s ↔
      wp A P M t program (fun value s' => wp A P M t (f value) Q s') s := by
  induction program generalizing s with
  | done value => rfl
  | call op next ih =>
    simp only [Prog.call_bind, wp, ih]

/-- A fallible sequence is verified one part after the other. -/
theorem wp_run_bind {ε : Type} (t : ℕ) (first : Fallible Op Res ε α)
    (next : α → Fallible Op Res ε β) (Q : Except ε β → Shared → Prop) (s : Shared) :
    wp A P M t (first >>= next).run Q s ↔
      wp A P M t first.run (fun result s' =>
        match result with
        | .ok value => wp A P M t (next value).run Q s'
        | .error error => Q (.error error) s') s := by
  rw [Fallible.run_bind, wp_bind]
  constructor <;> intro h <;> refine wp_mono h fun result s' hresult => ?_ <;>
    cases result <;> exact hresult

theorem wp_run_lift {ε : Type} (t : ℕ) (program : Prog Op Res α) (Q : Except ε α → Shared → Prop)
    (s : Shared) :
    wp A P M t (Fallible.lift program).run Q s ↔
      wp A P M t program (fun value => Q (.ok value)) s := by
  rw [Fallible.run_lift, wp_bind]
  rfl

/-- A step that cannot fail, followed by the rest. -/
theorem wp_lift_bind {ε : Type} {t : ℕ} {program : Prog Op Res α} {next : α → Fallible Op Res ε β}
    {Q : Except ε β → Shared → Prop} {s : Shared}
    (h : wp A P M t program (fun value s' => wp A P M t (next value).run Q s') s) :
    wp A P M t (Fallible.lift program >>= next).run Q s :=
  (wp_run_bind t _ _ Q s).mpr ((wp_run_lift t _ _ s).mpr h)

/-- A step that may fail, followed by the rest. -/
theorem wp_bind_of {ε : Type} {t : ℕ} {first : Fallible Op Res ε α} {next : α → Fallible Op Res ε β}
    {Q : Except ε β → Shared → Prop} {R : Except ε α → Shared → Prop} {s : Shared}
    (h : wp A P M t first.run R s)
    (hok : ∀ value s', R (.ok value) s' → wp A P M t (next value).run Q s')
    (herror : ∀ error s', R (.error error) s' → Q (.error error) s') :
    wp A P M t (first >>= next).run Q s := by
  rw [wp_run_bind]
  refine wp_mono h fun result s' hresult => ?_
  cases result with
  | ok value => exact hok value s' hresult
  | error error => exact herror error s' hresult

theorem wp_run_pure {ε : Type} (t : ℕ) (value : α) (Q : Except ε α → Shared → Prop) (s : Shared) :
    wp A P M t (pure value : Fallible Op Res ε α).run Q s ↔ Q (.ok value) s := Iff.rfl

theorem wp_run_throw {ε : Type} (t : ℕ) (error : ε) (Q : Except ε α → Shared → Prop) (s : Shared) :
    wp A P M t (throw error : Fallible Op Res ε α).run Q s ↔ Q (.error error) s := Iff.rfl

/-- One operation, started where an assertion holds that the others keep. -/
theorem wp_call {t : ℕ} {op : Op} {next : Res op → Prog Op Res α} {Q : α → Shared → Prop}
    {s : Shared} {φ : Shared → Prop} (hφ : φ s) (hstable : Stable A t φ)
    (hpre : ∀ s₁, A.inv s₁ → φ s₁ → A.pre t op s₁)
    (hnext : ∀ s₁ choice answer s₂, A.inv s₁ → φ s₁ → P.run t s₁ op choice →
      M.exec t s₁ op choice = some (answer, s₂) → A.inv s₂ → wp A P M t (next answer) Q s₂) :
    wp A P M t (.call op next) Q s := by
  intro s₁ hinv hframe
  have hφ₁ := hstable s s₁ hinv hframe hφ
  exact ⟨hpre s₁ hinv hφ₁, fun choice answer s₂ hp hexec hinv₂ =>
    hnext s₁ choice answer s₂ hinv hφ₁ hp hexec hinv₂⟩

/-- One operation that stays inside the task's own frame: what the task knew
still holds after it. -/
theorem wp_quiet {t : ℕ} {op : Op} {next : Res op → Prog Op Res α} {Q : α → Shared → Prop}
    {s : Shared} {φ : Shared → Prop} (hφ : φ s) (hstable : Stable A t φ)
    (hpre : ∀ s₁, A.inv s₁ → φ s₁ → A.pre t op s₁)
    (hquiet : ∀ s₁ choice answer s₂, A.inv s₁ → M.exec t s₁ op choice = some (answer, s₂) →
      A.frame t s₁ s₂)
    (hnext : ∀ s₁ choice answer s₂, A.inv s₁ → φ s₁ → P.run t s₁ op choice →
      M.exec t s₁ op choice = some (answer, s₂) → A.inv s₂ → φ s₂ →
      wp A P M t (next answer) Q s₂) :
    wp A P M t (.call op next) Q s := by
  refine wp_call hφ hstable hpre fun s₁ choice answer s₂ hinv hφ₁ hp hexec hinv₂ => ?_
  have hφ₂ := hstable s₁ s₂ hinv₂ (hquiet s₁ choice answer s₂ hinv hexec) hφ₁
  exact hnext s₁ choice answer s₂ hinv hφ₁ hp hexec hinv₂ hφ₂

/-- Interference cannot break a verified task whose postcondition is stable. -/
theorem wp_stable {t : ℕ} {program : Prog Op Res α} {Q : α → Shared → Prop}
    (hQ : ∀ value, Stable A t (Q value)) : Stable A t (wp A P M t program Q) := by
  intro s s' hinv hframe h
  cases program with
  | done value => exact hQ value s s' hinv hframe h
  | call op next =>
    intro s₁ hinv₁ hframe₁
    exact h s₁ hinv₁ (A.frame_trans t s s' s₁ hframe hframe₁)

theorem Stable.and {t : ℕ} {Q Q' : Shared → Prop} (h : Stable A t Q) (h' : Stable A t Q') :
    Stable A t fun s => Q s ∧ Q' s :=
  fun s s' hinv hframe hs => ⟨h s s' hinv hframe hs.1, h' s s' hinv hframe hs.2⟩

theorem Stable.const {t : ℕ} (p : Prop) : Stable A t fun _ => p :=
  fun _ _ _ _ h => h

theorem Stable.exists {ι : Sort*} {t : ℕ} {Q : ι → Shared → Prop}
    (h : ∀ i, Stable A t (Q i)) : Stable A t fun s => ∃ i, Q i s := by
  rintro s s' hinv hframe ⟨i, hi⟩
  exact ⟨i, h i s s' hinv hframe hi⟩

theorem Stable.imp {t : ℕ} {p : Prop} {Q : Shared → Prop} (h : Stable A t Q) :
    Stable A t fun s => p → Q s :=
  fun s s' hinv hframe hs hp => h s s' hinv hframe (hs hp)

end Rules

/-- The obligations that make the proofs about single tasks sound: every kind
of step keeps the invariant and the frames of the tasks that do not take it. -/
structure Sound (A : Assertions Op Shared) (P : Policy Op Shared Choice Entry Move)
    (M : Machine Op Res Out Shared Choice Entry Move) (post : ℕ → Out → Shared → Prop) : Prop where
  /-- An operation under its precondition. -/
  exec : ∀ t s op choice answer s', A.inv s → A.pre t op s → P.run t s op choice →
    M.exec t s op choice = some (answer, s') → A.inv s' ∧ ∀ t', t' ≠ t → A.frame t' s s'
  /-- A task starts verified. -/
  start : ∀ t s entry program s', A.inv s → P.start t s entry →
    M.start t s entry = some (program, s') →
      A.inv s' ∧ (∀ t', t' ≠ t → A.frame t' s s') ∧ wp A P M t program (post t) s'
  /-- A dropped task unwinds safely from anywhere. -/
  cancel : ∀ t s op s', A.inv s → A.pre t op s → P.cancel t s op → M.cancel t s op = some s' →
    A.inv s' ∧ (∀ t', t' ≠ t → A.frame t' s s') ∧ wp A P M t M.unwind (post t) s'
  /-- Steps outside the tasks. -/
  move : ∀ s m s', A.inv s → P.move s m → M.move s m = some s' →
    A.inv s' ∧ ∀ t, A.frame t s s'
  /-- Nothing but the invariant survives a reboot. -/
  reboot : ∀ s s', A.inv s → P.reboot → M.reboot s = some s' → A.inv s'
  /-- Results stay true. -/
  post : ∀ t value, Stable A t (post t value)

section Adequacy

variable {A : Assertions Op Shared} {P : Policy Op Shared Choice Entry Move}
variable {M : Machine Op Res Out Shared Choice Entry Move} {post : ℕ → Out → Shared → Prop}

/-- The invariant holds and every task is verified from where it stands. -/
def Verified (A : Assertions Op Shared) (P : Policy Op Shared Choice Entry Move)
    (M : Machine Op Res Out Shared Choice Entry Move) (post : ℕ → Out → Shared → Prop)
    (c : Config Op Res Out Shared) : Prop :=
  A.inv c.shared ∧ ∀ t program, c.tasks t = some program → wp A P M t program (post t) c.shared

/-- Replacing one task by verified code, when the others keep their frames. -/
theorem Verified.update {c : Config Op Res Out Shared} {t : ℕ} {program : Prog Op Res Out}
    {s : Shared} (hpost : ∀ t value, Stable A t (post t value)) (h : Verified A P M post c)
    (hinv : A.inv s) (hframe : ∀ t', t' ≠ t → A.frame t' c.shared s)
    (hprogram : wp A P M t program (post t) s) :
    Verified A P M post ⟨s, Function.update c.tasks t (some program)⟩ := by
  refine ⟨hinv, fun t' program' ht' => ?_⟩
  dsimp only at ht' ⊢
  by_cases heq : t' = t
  · subst heq
    rw [Function.update_self] at ht'
    cases ht'
    exact hprogram
  · rw [Function.update_of_ne heq] at ht'
    exact wp_stable (hpost t') c.shared s hinv (hframe t' heq) (h.2 t' program' ht')

/-- In a verified configuration the operation a task is about to perform has
its precondition. -/
theorem Verified.head_pre {c : Config Op Res Out Shared} (h : Verified A P M post c) {t : ℕ}
    {op : Op} {next : Res op → Prog Op Res Out} (ht : c.tasks t = some (.call op next)) :
    A.pre t op c.shared :=
  (h.2 t _ ht c.shared h.1 (A.frame_refl t c.shared)).1

/-- The step lemma: one permitted action keeps every task verified. -/
theorem Verified.next (hs : Sound A P M post) {c c' : Config Op Res Out Shared}
    (h : Verified A P M post c) (hnext : M.Next P c c') : Verified A P M post c' := by
  cases happened M P hnext with
  | started t entry program s _ hpermits hstart heq =>
    obtain ⟨hinv, hframe, hwp⟩ := hs.start t c.shared entry program s h.1 hpermits hstart
    rw [heq]
    exact h.update hs.post hinv hframe hwp
  | ran t op next choice answer s htask hpermits hexec heq =>
    obtain ⟨hpre, hcont⟩ := h.2 t _ htask c.shared h.1 (A.frame_refl t c.shared)
    obtain ⟨hinv, hframe⟩ := hs.exec t c.shared op choice answer s h.1 hpre hpermits hexec
    rw [heq]
    exact h.update hs.post hinv hframe (hcont choice answer s hpermits hexec hinv)
  | cancelled t op next s htask hpermits hcancel heq =>
    obtain ⟨hinv, hframe, hunwind⟩ :=
      hs.cancel t c.shared op s h.1 (h.head_pre htask) hpermits hcancel
    rw [heq]
    exact h.update hs.post hinv hframe hunwind
  | moved m s hpermits hmove heq =>
    obtain ⟨hinv, hframe⟩ := hs.move c.shared m s h.1 hpermits hmove
    rw [heq]
    exact ⟨hinv, fun t program ht =>
      wp_stable (hs.post t) c.shared s hinv (hframe t) (h.2 t program ht)⟩
  | rebooted s hpermits hreboot heq =>
    rw [heq]
    exact ⟨hs.reboot c.shared s h.1 hpermits hreboot, fun t program ht => by cases ht⟩

/-- The run lemma: every reachable configuration is verified. -/
theorem adequacy (hs : Sound A P M post) {c c' : Config Op Res Out Shared}
    (h : Verified A P M post c) (hrun : M.Run P c c') : Verified A P M post c' := by
  induction hrun with
  | refl => exact h
  | tail _ hnext ih => exact ih.next hs hnext

/-- A configuration without tasks is verified by its invariant alone. -/
theorem verified_idle {s : Shared} (hinv : A.inv s) :
    Verified A P M post ⟨s, fun _ => none⟩ :=
  ⟨hinv, fun _ _ ht => by cases ht⟩

/-- What every kind of step does to the state, a step of a run does. -/
theorem Verified.related {c c' : Config Op Res Out Shared} (h : Verified A P M post c)
    (rel : Shared → Shared → Prop)
    (hstart : ∀ t s entry program s', A.inv s → M.start t s entry = some (program, s') → rel s s')
    (hexec : ∀ t s op choice answer s', A.inv s → A.pre t op s →
      M.exec t s op choice = some (answer, s') → rel s s')
    (hcancel : ∀ t s op s', A.inv s → A.pre t op s → M.cancel t s op = some s' → rel s s')
    (hmove : ∀ s m s', A.inv s → P.move s m → M.move s m = some s' → rel s s')
    (hreboot : ∀ s s', P.reboot → M.reboot s = some s' → rel s s') (hnext : M.Next P c c') :
    rel c.shared c'.shared := by
  cases happened M P hnext with
  | started t entry program s _ _ hbegun heq =>
    rw [heq]
    exact hstart t c.shared entry program s h.1 hbegun
  | ran t op next choice answer s htask _ hran heq =>
    rw [heq]
    exact hexec t c.shared op choice answer s h.1 (h.head_pre htask) hran
  | cancelled t op next s htask _ hdropped heq =>
    rw [heq]
    exact hcancel t c.shared op s h.1 (h.head_pre htask) hdropped
  | moved m s hpermits hmoved heq =>
    rw [heq]
    exact hmove c.shared m s h.1 hpermits hmoved
  | rebooted s hpermits hrebooted heq =>
    rw [heq]
    exact hreboot c.shared s hpermits hrebooted

/-- A finished task left its postcondition. -/
theorem Verified.result {c : Config Op Res Out Shared} (h : Verified A P M post c) {t : ℕ}
    {value : Out} (ht : c.tasks t = some (.done value)) : post t value c.shared :=
  h.2 t _ ht

/-- What the others record about a task, they record only of tasks that exist. -/
theorem task_of_registered (hs : Sound A P M post) (registered : ℕ → Shared → Prop)
    (hframe : ∀ t s s', A.frame t s s' → registered t s' → registered t s)
    (hreboot : ∀ s s', M.reboot s = some s' → ∀ t, ¬registered t s')
    {c c' : Config Op Res Out Shared} (hc : Verified A P M post c)
    (hregistered : ∀ t, registered t c.shared → c.tasks t ≠ none) (hrun : M.Run P c c') :
    ∀ t, registered t c'.shared → c'.tasks t ≠ none := by
  induction hrun with
  | refl => exact hregistered
  | @tail c₁ c₂ hrun₁ hnext ih =>
    have hc₁ := adequacy hs hc hrun₁
    have hother : ∀ {t program s}, (∀ t', t' ≠ t → A.frame t' c₁.shared s) → ∀ t',
        registered t' s → Function.update c₁.tasks t (some program) t' ≠ none := by
      intro t program s hframes t' ht'
      by_cases heq : t' = t
      · rw [heq, Function.update_self]
        exact Option.some_ne_none program
      · rw [Function.update_of_ne heq]
        exact ih t' (hframe t' c₁.shared s (hframes t' heq) ht')
    cases happened M P hnext with
    | started t entry program s _ hpermits hstart heq =>
      subst heq
      exact hother (hs.start t c₁.shared entry program s hc₁.1 hpermits hstart).2.1
    | ran t op next choice answer s htask hpermits hexec heq =>
      subst heq
      exact hother (hs.exec t c₁.shared op choice answer s hc₁.1 (hc₁.head_pre htask) hpermits
        hexec).2
    | cancelled t op next s htask hpermits hcancel heq =>
      subst heq
      exact hother (hs.cancel t c₁.shared op s hc₁.1 (hc₁.head_pre htask) hpermits hcancel).2.1
    | moved m s hpermits hmove heq =>
      subst heq
      have hframes := (hs.move c₁.shared m s hc₁.1 hpermits hmove).2
      exact fun t ht => ih t (hframe t c₁.shared s (hframes t) ht)
    | rebooted s _ hrebooted heq =>
      subst heq
      exact fun t ht => absurd ht (hreboot c₁.shared s hrebooted t)

/-- Only finitely many tasks have started. -/
theorem exists_idle {c c' : Config Op Res Out Shared} {n : ℕ}
    (hidle : ∀ t, n ≤ t → c.tasks t = none) (hrun : M.Run P c c') :
    ∃ n', ∀ t, n' ≤ t → c'.tasks t = none := by
  induction hrun with
  | refl => exact ⟨n, hidle⟩
  | @tail c₁ c₂ _ hnext ih =>
    obtain ⟨n₁, hn₁⟩ := ih
    have hupdate : ∀ {t program}, ∃ n', ∀ t', n' ≤ t' →
        Function.update c₁.tasks t (some program) t' = none := by
      intro t program
      refine ⟨n₁ + t + 1, fun t' ht' => ?_⟩
      have hne : t' ≠ t := by omega
      rw [Function.update_of_ne hne]
      exact hn₁ t' (by omega)
    cases happened M P hnext with
    | started t entry program s _ _ _ heq => exact heq ▸ hupdate
    | ran t op next choice answer s _ _ _ heq => exact heq ▸ hupdate
    | cancelled t op next s _ _ _ heq => exact heq ▸ hupdate
    | moved m s _ _ heq => exact heq ▸ ⟨n₁, hn₁⟩
    | rebooted s _ _ heq => exact heq ▸ ⟨0, fun _ _ => rfl⟩

/-- Some permitted answer lets the task perform the operation. -/
def Ready (P : Policy Op Shared Choice Entry Move)
    (M : Machine Op Res Out Shared Choice Entry Move) (t : ℕ) (s : Shared) (op : Op) : Prop :=
  ∃ choice answer s', P.run t s op choice ∧ M.exec t s op choice = some (answer, s')

/-- What scheduling one task alone reaches: its end, or an operation at which it
may have to wait. The other tasks stay where they are. -/
structure Driven (A : Assertions Op Shared) (P : Policy Op Shared Choice Entry Move)
    (M : Machine Op Res Out Shared Choice Entry Move) (t : ℕ) (φ : Shared → Prop) (stop : Op → Prop)
    (c c' : Config Op Res Out Shared) : Prop where
  run : M.Run P c c'
  kept : φ c'.shared
  others : ∀ t', t' ≠ t → c'.tasks t' = c.tasks t'
  frames : ∀ t', t' ≠ t → A.frame t' c.shared c'.shared
  stopped : (∃ value, c'.tasks t = some (.done value)) ∨
    ∃ op next, c'.tasks t = some (.call op next) ∧ stop op

/-- One operation of the task, when it is ready. -/
theorem step_of_ready (hs : Sound A P M post) {c : Config Op Res Out Shared}
    (hc : Verified A P M post c) {t : ℕ} {op : Op} {next : Res op → Prog Op Res Out}
    (ht : c.tasks t = some (.call op next)) (hready : Ready P M t c.shared op) :
    ∃ choice answer s, M.exec t c.shared op choice = some (answer, s) ∧ A.inv s ∧
      (∀ t', t' ≠ t → A.frame t' c.shared s) ∧
      M.Next P c ⟨s, Function.update c.tasks t (some (next answer))⟩ := by
  obtain ⟨choice, answer, s, hpermits, hexec⟩ := hready
  obtain ⟨hinv, hframe⟩ :=
    hs.exec t c.shared op choice answer s hc.1 (hc.head_pre ht) hpermits hexec
  refine ⟨choice, answer, s, hexec, hinv, hframe, .run t choice, ?_, ?_⟩
  · intro op' next' ht'
    rw [ht] at ht'
    cases ht'
    exact hpermits
  · simp [Machine.step, ht, hexec]

/-- A task whose operations are ready up to the stops can be scheduled up to one. -/
theorem drive (hs : Sound A P M post) {t : ℕ} {φ : Shared → Prop} (stop : Op → Prop)
    (hφ : ∀ s op choice answer s', A.inv s → A.pre t op s → φ s →
      M.exec t s op choice = some (answer, s') → A.inv s' →
      (∀ t', t' ≠ t → A.frame t' s s') → φ s')
    (hready : ∀ s op, A.inv s → A.pre t op s → φ s → ¬stop op → Ready P M t s op)
    {c : Config Op Res Out Shared} {program : Prog Op Res Out} (hc : Verified A P M post c)
    (ht : c.tasks t = some program) (hc_φ : φ c.shared) :
    ∃ c', Driven A P M t φ stop c c' := by
  induction program generalizing c with
  | done value =>
    exact ⟨c, .refl, hc_φ, fun _ _ => rfl, fun t' _ => A.frame_refl t' _, .inl ⟨value, ht⟩⟩
  | call op next ih =>
    by_cases hstop : stop op
    · exact ⟨c, .refl, hc_φ, fun _ _ => rfl, fun t' _ => A.frame_refl t' _, .inr ⟨op, next, ht, hstop⟩⟩
    · have hpre := hc.head_pre ht
      obtain ⟨choice, answer, s, hexec, hinv, hframe, hnext⟩ :=
        step_of_ready hs hc ht (hready c.shared op hc.1 hpre hc_φ hstop)
      have hverified := hc.next hs hnext
      obtain ⟨c', hdriven⟩ := ih answer hverified (Function.update_self ..)
        (hφ c.shared op choice answer s hc.1 hpre hc_φ hexec hinv hframe)
      refine ⟨c', .head hnext hdriven.run, hdriven.kept, fun t' hne => ?_, fun t' hne => ?_,
        hdriven.stopped⟩
      · exact (hdriven.others t' hne).trans (Function.update_of_ne hne _ _)
      · exact A.frame_trans t' _ _ _ (hframe t' hne) (hdriven.frames t' hne)

end Adequacy

end OpenTfMirror.TaskLogic
