import OpenTfMirror.TaskLogic

/-!
# Runs with a history

A history beside the state notes the operations that are performed, so a
statement about the order of events becomes an invariant. The machine never
reads it: its runs with a history are its runs. Programs none of whose
operations matter to an assertion keep it.
-/

namespace OpenTfMirror.TaskHistory

open TaskProgram TaskLogic

variable {Op : Type} {Res : Op → Type} {Out Shared Choice Entry Move Event α β : Type}

/-- A state, and what was noted so far, the latest first. -/
structure Noted (Shared Event : Type) where
  state : Shared
  history : List Event

/-- The machine beside a history: what is noted of each performed operation. -/
def noting (M : Machine Op Res Out Shared Choice Entry Move)
    (note : ℕ → Shared → Op → Choice → List Event) :
    Machine Op Res Out (Noted Shared Event) Choice Entry Move where
  exec t s op choice := (M.exec t s.state op choice).map fun ran =>
    (ran.1, ⟨ran.2, note t s.state op choice ++ s.history⟩)
  start t s entry := (M.start t s.state entry).map fun started =>
    (started.1, ⟨started.2, s.history⟩)
  move s m := (M.move s.state m).map fun state => ⟨state, s.history⟩
  cancel t s op := (M.cancel t s.state op).map fun state => ⟨state, s.history⟩
  unwind := M.unwind
  reboot s := (M.reboot s.state).map fun state => ⟨state, s.history⟩

/-- The policy, read at the state. -/
def besides (P : Policy Op Shared Choice Entry Move) :
    Policy Op (Noted Shared Event) Choice Entry Move where
  start t s := P.start t s.state
  run t s := P.run t s.state
  cancel t s := P.cancel t s.state
  move s := P.move s.state
  reboot := P.reboot

/-- The configuration without its history. -/
def forget (c : Config Op Res Out (Noted Shared Event)) : Config Op Res Out Shared :=
  ⟨c.shared.state, c.tasks⟩

section Projection

variable {M : Machine Op Res Out Shared Choice Entry Move}
variable {note : ℕ → Shared → Op → Choice → List Event} {P : Policy Op Shared Choice Entry Move}

/-- An operation beside a history is an operation, and is noted. -/
theorem noting_exec {t : ℕ} {s s' : Noted Shared Event} {op : Op} {choice : Choice} {answer : Res op}
    (h : (noting M note).exec t s op choice = some (answer, s')) :
    M.exec t s.state op choice = some (answer, s'.state) ∧
      s'.history = note t s.state op choice ++ s.history := by
  obtain ⟨ran, hexec, heq⟩ := Option.map_eq_some_iff.mp h
  cases heq
  exact ⟨hexec, rfl⟩

/-- The other kinds of steps note nothing. -/
theorem noting_start {t : ℕ} {s s' : Noted Shared Event} {entry : Entry} {program : Prog Op Res Out}
    (h : (noting M note).start t s entry = some (program, s')) :
    M.start t s.state entry = some (program, s'.state) ∧ s'.history = s.history := by
  obtain ⟨started, hstart, heq⟩ := Option.map_eq_some_iff.mp h
  cases heq
  exact ⟨hstart, rfl⟩

theorem noting_cancel {t : ℕ} {s s' : Noted Shared Event} {op : Op}
    (h : (noting M note).cancel t s op = some s') :
    M.cancel t s.state op = some s'.state ∧ s'.history = s.history := by
  obtain ⟨state, hcancel, heq⟩ := Option.map_eq_some_iff.mp h
  cases heq
  exact ⟨hcancel, rfl⟩

theorem noting_move {s s' : Noted Shared Event} {m : Move}
    (h : (noting M note).move s m = some s') :
    M.move s.state m = some s'.state ∧ s'.history = s.history := by
  obtain ⟨state, hmove, heq⟩ := Option.map_eq_some_iff.mp h
  cases heq
  exact ⟨hmove, rfl⟩

theorem noting_reboot {s s' : Noted Shared Event} (h : (noting M note).reboot s = some s') :
    M.reboot s.state = some s'.state ∧ s'.history = s.history := by
  obtain ⟨state, hreboot, heq⟩ := Option.map_eq_some_iff.mp h
  cases heq
  exact ⟨hreboot, rfl⟩

variable (M note) in
/-- A step beside a history is a step. -/
theorem step_forget (c : Config Op Res Out (Noted Shared Event))
    (action : Action Choice Entry Move) :
    ((noting M note).step c action).map forget = M.step (forget c) action := by
  cases action with
  | start t entry =>
    cases htask : c.tasks t with
    | some program => simp [Machine.step, forget, htask]
    | none =>
      simp only [Machine.step, forget, htask, noting, Option.map_map]
      rfl
  | run t choice =>
    cases htask : c.tasks t with
    | none => simp [Machine.step, forget, htask]
    | some program =>
      cases program with
      | done value => simp [Machine.step, forget, htask]
      | call op next =>
        simp only [Machine.step, forget, htask, noting, Option.map_map]
        rfl
  | cancel t =>
    cases htask : c.tasks t with
    | none => simp [Machine.step, forget, htask]
    | some program =>
      cases program with
      | done value => simp [Machine.step, forget, htask]
      | call op next =>
        simp only [Machine.step, forget, htask, noting, Option.map_map]
        rfl
  | move m =>
    simp only [Machine.step, forget, noting, Option.map_map]
    rfl
  | reboot =>
    simp only [Machine.step, forget, noting, Option.map_map]
    rfl

theorem permits_forget (c : Config Op Res Out (Noted Shared Event))
    (action : Action Choice Entry Move) :
    (besides P).Permits c action ↔ P.Permits (forget c) action := by
  cases action <;> rfl

/-- A run beside a history is a run. -/
theorem run_forget {c c' : Config Op Res Out (Noted Shared Event)}
    (hrun : (noting M note).Run (besides P) c c') : M.Run P (forget c) (forget c') := by
  induction hrun with
  | refl => exact .refl
  | @tail c₁ c₂ _ hnext ih =>
    obtain ⟨action, hpermits, hstep⟩ := hnext
    have hstep' := step_forget M note c₁ action
    rw [hstep] at hstep'
    exact ih.tail ⟨action, (permits_forget c₁ action).mp hpermits, hstep'.symm⟩

/-- Every run has a history. -/
theorem exists_history {c : Config Op Res Out (Noted Shared Event)} {d : Config Op Res Out Shared}
    (hrun : M.Run P (forget c) d) :
    ∃ c', (noting M note).Run (besides P) c c' ∧ forget c' = d := by
  induction hrun with
  | refl => exact ⟨c, .refl, rfl⟩
  | @tail d₁ d₂ _ hnext ih =>
    obtain ⟨c₁, hrun₁, rfl⟩ := ih
    obtain ⟨action, hpermits, hstep⟩ := hnext
    have hstep' := step_forget M note c₁ action
    rw [hstep, Option.map_eq_some_iff] at hstep'
    obtain ⟨c₂, hstep₂, hforget⟩ := hstep'
    exact ⟨c₂, hrun₁.tail ⟨action, (permits_forget c₁ action).mpr hpermits, hstep₂⟩, hforget⟩

end Projection

section Each

/-- All operations that the program may perform. -/
def Each (p : Op → Prop) : Prog Op Res α → Prop
  | .done _ => True
  | .call op next => p op ∧ ∀ answer, Each p (next answer)

variable {p : Op → Prop}

theorem each_bind {program : Prog Op Res α} {f : α → Prog Op Res β} (h : Each p program)
    (hf : ∀ value, Each p (f value)) : Each p (program >>= f) := by
  induction program with
  | done value => exact hf value
  | call op next ih => exact ⟨h.1, fun answer => ih answer (h.2 answer)⟩

theorem each_run_bind {ε : Type} {first : Fallible Op Res ε α}
    {next : α → Fallible Op Res ε β} (h : Each p first.run) (hnext : ∀ value, Each p (next value).run) :
    Each p (first >>= next).run := by
  refine each_bind h fun result => ?_
  cases result with
  | ok value => exact hnext value
  | error error => trivial

theorem each_lift_bind {ε : Type} {program : Prog Op Res α} {next : α → Fallible Op Res ε β}
    (h : Each p program) (hnext : ∀ value, Each p (next value).run) :
    Each p (Fallible.lift program >>= next).run :=
  each_run_bind (each_bind h fun _ => trivial) hnext

theorem each_mono {p' : Op → Prop} {program : Prog Op Res α} (h : Each p program)
    (himp : ∀ op, p op → p' op) : Each p' program := by
  induction program with
  | done value => trivial
  | call op next ih => exact ⟨himp op h.1, fun answer => ih answer (h.2 answer)⟩

variable {A : Assertions Op Shared} {P : Policy Op Shared Choice Entry Move}
variable {M : Machine Op Res Out Shared Choice Entry Move}

/-- A verified program also keeps what each of its operations keeps. -/
theorem wp_beside {t : ℕ} {φ : Shared → Prop} (hφ : Stable A t φ)
    (hop : ∀ s op choice answer s', p op → φ s → M.exec t s op choice = some (answer, s') → φ s')
    {program : Prog Op Res α} (h : Each p program) {Q : α → Shared → Prop} {s : Shared}
    (hwp : wp A P M t program Q s) (hs : φ s) :
    wp A P M t program (fun value s' => Q value s' ∧ φ s') s := by
  induction program generalizing s with
  | done value => exact ⟨hwp, hs⟩
  | call op next ih =>
    intro s₁ hinv hframe
    obtain ⟨hpre, hnext⟩ := hwp s₁ hinv hframe
    have hs₁ := hφ s s₁ hinv hframe hs
    exact ⟨hpre, fun choice answer s₂ hp hexec hinv₂ => ih answer (h.2 answer)
      (hnext choice answer s₂ hp hexec hinv₂) (hop s₁ op choice answer s₂ h.1 hs₁ hexec)⟩

/-- A program keeps what each of its operations keeps. -/
theorem wp_each {t : ℕ} {φ : Shared → Prop} (hφ : Stable A t φ)
    (hop : ∀ s op, A.inv s → p op → φ s → A.pre t op s ∧ ∀ choice answer s',
      M.exec t s op choice = some (answer, s') → φ s')
    {program : Prog Op Res α} (h : Each p program) {s : Shared} (hs : φ s) :
    wp A P M t program (fun _ => φ) s := by
  induction program generalizing s with
  | done value => exact hs
  | call op next ih =>
    intro s₁ hinv hframe
    have hs₁ := hφ s s₁ hinv hframe hs
    obtain ⟨hpre, hkeeps⟩ := hop s₁ op hinv h.1 hs₁
    exact ⟨hpre, fun choice answer s₂ _ hexec _ => ih answer (h.2 answer) (hkeeps choice answer s₂ hexec)⟩

end Each

end OpenTfMirror.TaskHistory
