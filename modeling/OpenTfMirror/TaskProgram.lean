import Mathlib.Logic.Function.Basic
import Mathlib.Tactic.Common

/-!
# Programs over atomic operations

A task is a tree: it either has finished, or performs one atomic operation on
the shared state and continues with the answer. The tree is inductive, so every
task performs finitely many operations whatever the answers are. Sequencing is
the free monad; early return is the exception transformer over it. What an
operation does is left to the machine that runs the task.
-/

namespace OpenTfMirror.TaskProgram

/-- Straight-line code of one task, cut at its atomic operations. -/
inductive Prog (Op : Type) (Res : Op → Type) (α : Type) : Type where
  /-- The task has finished with this value. -/
  | done (value : α)
  /-- Perform one operation and continue with its answer. -/
  | call (op : Op) (next : Res op → Prog Op Res α)

namespace Prog

variable {Op : Type} {Res : Op → Type} {α β : Type}

/-- Run the first program, then the one its result selects. -/
def bind : Prog Op Res α → (α → Prog Op Res β) → Prog Op Res β
  | done value, f => f value
  | call op next, f => call op fun answer => (next answer).bind f

instance : Monad (Prog Op Res) where
  pure := done
  bind := bind

/-- The program of a single operation. -/
def perform (op : Op) : Prog Op Res (Res op) := call op done

@[simp] theorem pure_eq (value : α) : (pure value : Prog Op Res α) = done value := rfl

@[simp] theorem done_bind (value : α) (f : α → Prog Op Res β) :
    (done value : Prog Op Res α) >>= f = f value := rfl

@[simp] theorem call_bind (op : Op) (next : Res op → Prog Op Res α) (f : α → Prog Op Res β) :
    (call op next) >>= f = call op fun answer => next answer >>= f := rfl

@[simp] theorem perform_bind (op : Op) (f : Res op → Prog Op Res β) :
    (perform op : Prog Op Res _) >>= f = call op f := rfl

@[simp] theorem map_eq (f : α → β) (program : Prog Op Res α) :
    f <$> program = program >>= fun value => done (f value) := rfl

/-- Finishing with the value just computed adds nothing. -/
@[simp] theorem bind_done (program : Prog Op Res α) :
    (program >>= fun value => (done value : Prog Op Res α)) = program := by
  induction program with
  | done value => rfl
  | call op next ih =>
    rw [call_bind]
    exact congrArg (call op) (funext ih)

/-- Sequencing associates, so a function body may be read step by step. -/
theorem bind_assoc {γ : Type} (program : Prog Op Res α) (f : α → Prog Op Res β)
    (g : β → Prog Op Res γ) :
    (program >>= f) >>= g = program >>= fun value => f value >>= g := by
  induction program with
  | done value => rfl
  | call op next ih =>
    rw [call_bind, call_bind, call_bind]
    exact congrArg (call op) (funext ih)

end Prog

/-- Code that may return early with an error, as after the `?` operator. -/
abbrev Fallible (Op : Type) (Res : Op → Type) (ε α : Type) : Type :=
  ExceptT ε (Prog Op Res) α

namespace Fallible

variable {Op : Type} {Res : Op → Type} {ε α β : Type}

/-- Code that always succeeds. -/
def lift (program : Prog Op Res α) : Fallible Op Res ε α :=
  ExceptT.mk (program >>= fun value => .done (.ok value))

/-- Sequencing stops at the first error. -/
theorem run_bind (first : Fallible Op Res ε α) (f : α → Fallible Op Res ε β) :
    (first >>= f).run = first.run >>= fun
      | .ok value => (f value).run
      | .error error => .done (.error error) := rfl

/-- A lifted program never returns early. -/
theorem run_lift (program : Prog Op Res α) :
    (lift program : Fallible Op Res ε α).run = program >>= fun value => .done (.ok value) := rfl

/-- What follows a lifted program gets its value. -/
theorem run_lift_bind (program : Prog Op Res α) (next : α → Fallible Op Res ε β) :
    (lift program >>= next).run = program >>= fun value => (next value).run := by
  rw [run_bind, run_lift, Prog.bind_assoc]
  rfl

theorem run_pure (value : α) : (pure value : Fallible Op Res ε α).run = .done (.ok value) := rfl

theorem run_throw (error : ε) :
    (throw error : Fallible Op Res ε α).run = .done (.error error) := rfl

end Fallible

section Solo

variable {Op : Type} {Res : Op → Type} {α β Shared Choice : Type}

/-- The run of one task alone: each operation takes the next answer of the
environment, and no other task steps in between. -/
def solo (exec : Shared → (op : Op) → Choice → Option (Res op × Shared)) :
    Prog Op Res α → Shared → List Choice → Option (α × Shared)
  | .done value, shared, _ => some (value, shared)
  | .call _ _, _, [] => none
  | .call op next, shared, choice :: choices =>
    match exec shared op choice with
    | none => none
    | some (answer, shared') => solo exec (next answer) shared' choices

variable {exec : Shared → (op : Op) → Choice → Option (Res op × Shared)}

/-- A run alone takes one answer for its first operation. -/
theorem solo_call {op : Op} {next : Res op → Prog Op Res α} {s : Shared} {choices : List Choice}
    {result : α × Shared} (h : solo exec (.call op next) s choices = some result) :
    ∃ choice rest answer s', choices = choice :: rest ∧ exec s op choice = some (answer, s') ∧
      solo exec (next answer) s' rest = some result := by
  cases choices with
  | nil => cases h
  | cons choice rest =>
    simp only [solo] at h
    split at h
    · cases h
    · rename_i answer s' hexec
      exact ⟨choice, rest, answer, s', rfl, hexec, h⟩

/-- Adding an answer in front of a run alone. -/
theorem solo_cons {op : Op} {next : Res op → Prog Op Res α} {s s' : Shared} {choice : Choice}
    {rest : List Choice} {answer : Res op} (hexec : exec s op choice = some (answer, s')) :
    solo exec (.call op next) s (choice :: rest) = solo exec (next answer) s' rest := by
  simp only [solo, hexec]

end Solo

end OpenTfMirror.TaskProgram
