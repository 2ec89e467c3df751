import OpenTfMirror.LockSections
import OpenTfMirror.TaskHistory

/-!
# Traces of a program

What a task performed, in order, and what it was answered. The traces of a
program do not depend on the other tasks: whatever they do is in the answers.
A trace of a sequence is one of each part, in a row.
-/

namespace OpenTfMirror.TaskTraces

open TaskProgram TaskLogic TaskHistory KeyedLocks LockSections

variable {Op : Type} {Res : Op → Type} {Out Shared Choice Entry Move α β ε K : Type}

/-- The program may perform these operations with these answers, and finish with
this value. -/
inductive Traced : Prog Op Res α → List (Sigma Res) → α → Prop
  | done (value : α) : Traced (.done value) [] value
  | call {op : Op} {next : Res op → Prog Op Res α} {answer : Res op} {trace : List (Sigma Res)}
      {value : α} (h : Traced (next answer) trace value) :
      Traced (.call op next) (⟨op, answer⟩ :: trace) value

section Programs

variable {trace : List (Sigma Res)} {value : β}

theorem traced_done {result : β} : Traced (.done result : Prog Op Res β) trace value ↔
    trace = [] ∧ value = result := by
  constructor
  · intro h
    cases h
    exact ⟨rfl, rfl⟩
  · rintro ⟨rfl, rfl⟩
    exact .done _

theorem traced_call {op : Op} {next : Res op → Prog Op Res β} :
    Traced (.call op next) trace value ↔
      ∃ answer rest, trace = ⟨op, answer⟩ :: rest ∧ Traced (next answer) rest value := by
  constructor
  · intro h
    cases h with
    | call h => exact ⟨_, _, rfl, h⟩
  · rintro ⟨answer, rest, rfl, h⟩
    exact .call h

/-- A single operation ends with its answer. -/
theorem traced_op {op : Op} {trace : List (Sigma Res)} {answer : Res op} :
    Traced (.call op .done) trace answer ↔ trace = [⟨op, answer⟩] := by
  constructor
  · intro h
    obtain ⟨given, rest, rfl, hdone⟩ := traced_call.mp h
    obtain ⟨rfl, rfl⟩ := traced_done.mp hdone
    rfl
  · rintro rfl
    exact .call (.done answer)

/-- A sequence performs its parts in a row. -/
theorem traced_bind {program : Prog Op Res α} {f : α → Prog Op Res β} :
    Traced (program >>= f) trace value ↔
      ∃ first rest middle, trace = first ++ rest ∧ Traced program first middle ∧
        Traced (f middle) rest value := by
  constructor
  · intro h
    induction program generalizing trace with
    | done result => exact ⟨[], trace, result, rfl, .done result, h⟩
    | call op next ih =>
      obtain ⟨answer, rest, rfl, hrest⟩ := traced_call.mp h
      obtain ⟨first, rest', middle, rfl, hfirst, hnext⟩ := ih answer hrest
      exact ⟨⟨op, answer⟩ :: first, rest', middle, rfl, .call hfirst, hnext⟩
  · rintro ⟨first, rest, middle, rfl, hfirst, hrest⟩
    induction hfirst with
    | done result => exact hrest
    | call _ ih => exact .call (ih hrest)

/-- A lifted program passes its value on. -/
theorem traced_lift_bind {program : Prog Op Res α} {next : α → Fallible Op Res ε β}
    {result : Except ε β} :
    Traced (Fallible.lift program >>= next).run trace result ↔
      ∃ first rest middle, trace = first ++ rest ∧ Traced program first middle ∧
        Traced (next middle).run rest result := by
  rw [Fallible.run_lift_bind]
  exact traced_bind

/-- Code that may fail goes on after a success, and ends with an error. -/
theorem traced_run_bind {first : Fallible Op Res ε α} {next : α → Fallible Op Res ε β}
    {result : Except ε β} (h : Traced (first >>= next).run trace result) :
    (∃ start rest middle, trace = start ++ rest ∧ Traced first.run start (.ok middle) ∧
      Traced (next middle).run rest result) ∨
    ∃ error, result = .error error ∧ Traced first.run trace (.error error) := by
  rw [Fallible.run_bind] at h
  obtain ⟨start, rest, middle, rfl, hfirst, hrest⟩ := traced_bind.mp h
  cases middle with
  | ok value => exact .inl ⟨start, rest, value, rfl, hfirst, hrest⟩
  | error error =>
    obtain ⟨rfl, rfl⟩ := traced_done.mp hrest
    rw [List.append_nil]
    exact .inr ⟨error, rfl, hfirst⟩

/-- Only operations of the program are performed. -/
theorem traced_each {p : Op → Prop} {program : Prog Op Res β} (h : Each p program)
    (htraced : Traced program trace value) : ∀ event ∈ trace, p event.1 := by
  induction htraced with
  | done result => exact nofun
  | call _ ih =>
    intro event hevent
    rcases List.mem_cons.mp hevent with rfl | hrest
    · exact h.1
    · exact ih (h.2 _) event hrest

/-- The body of a section lies between the operations of its lock. -/
theorem traced_section {p : Op → Prop} {embed : LockOp K → Prog Op Res Unit} {k : K}
    {body : Prog Op Res β} (hembed : ∀ op, Each p (embed op))
    (h : Traced (guarded embed k body) trace value) :
    ∃ before inside after, trace = before ++ inside ++ after ∧ Traced body inside value ∧
      (∀ event ∈ before, p event.1) ∧ ∀ event ∈ after, p event.1 := by
  unfold guarded at h
  obtain ⟨first, rest, ⟨⟩, rfl, h₁, h⟩ := traced_bind.mp h
  obtain ⟨second, rest, ⟨⟩, rfl, h₂, h⟩ := traced_bind.mp h
  obtain ⟨inside, rest, result, rfl, hbody, h⟩ := traced_bind.mp h
  obtain ⟨third, rest, ⟨⟩, rfl, h₃, h⟩ := traced_bind.mp h
  obtain ⟨fourth, rest, ⟨⟩, rfl, h₄, h⟩ := traced_bind.mp h
  obtain ⟨fifth, rest, ⟨⟩, rfl, h₅, h⟩ := traced_bind.mp h
  obtain ⟨rfl, rfl⟩ := traced_done.mp h
  refine ⟨first ++ second, inside, third ++ (fourth ++ (fifth ++ [])), ?_, hbody, ?_, ?_⟩
  · simp only [List.append_assoc]
  · intro event hevent
    rcases List.mem_append.mp hevent with hevent | hevent
    · exact traced_each (hembed _) h₁ event hevent
    · exact traced_each (hembed _) h₂ event hevent
  · intro event hevent
    simp only [List.append_nil, List.mem_append] at hevent
    rcases hevent with hevent | hevent | hevent
    · exact traced_each (hembed _) h₃ event hevent
    · exact traced_each (hembed _) h₄ event hevent
    · exact traced_each (hembed _) h₅ event hevent

theorem each_true (program : Prog Op Res β) : Each (fun _ => True) program := by
  induction program with
  | done value => trivial
  | call op next ih => exact ⟨trivial, ih⟩

theorem traced_guarded {embed : LockOp K → Prog Op Res Unit} {k : K} {body : Prog Op Res β}
    (h : Traced (guarded embed k body) trace value) :
    ∃ before inside after, trace = before ++ inside ++ after ∧ Traced body inside value := by
  have hembed : ∀ op, Each (fun _ => True) (embed op) := fun op => each_true (embed op)
  obtain ⟨before, inside, after, htrace, hbody, -, -⟩ := traced_section hembed h
  exact ⟨before, inside, after, htrace, hbody⟩

end Programs

section Answers

/-- The operation may be answered so in some state. -/
def Answers (exec : Shared → (op : Op) → Choice → Option (Res op × Shared)) (event : Sigma Res) :
    Prop :=
  ∃ s choice s', exec s event.1 choice = some (event.2, s')

variable {exec : Shared → (op : Op) → Choice → Option (Res op × Shared)}

/-- A run alone has a trace. -/
theorem traced_of_solo {program : Prog Op Res α} {s s' : Shared} {choices : List Choice} {value : α}
    (h : solo exec program s choices = some (value, s')) :
    ∃ trace, Traced program trace value ∧ ∀ event ∈ trace, Answers exec event := by
  induction program generalizing s choices with
  | done result =>
    cases h
    exact ⟨[], .done _, nofun⟩
  | call op next ih =>
    obtain ⟨choice, rest, answer, s₁, rfl, hexec, hrest⟩ := solo_call h
    obtain ⟨trace, htraced, hanswers⟩ := ih answer hrest
    refine ⟨⟨op, answer⟩ :: trace, .call htraced, fun event hevent => ?_⟩
    rcases List.mem_cons.mp hevent with rfl | hevent
    · exact ⟨s, choice, s₁, hexec⟩
    · exact hanswers event hevent

variable {M : Machine Op Res Out Shared Choice Entry Move} {P : Policy Op Shared Choice Entry Move}

/-- The task performed the operation at some configuration of the run, and was
answered so. -/
def Performed (M : Machine Op Res Out Shared Choice Entry Move)
    (P : Policy Op Shared Choice Entry Move) (t : ℕ) (c c' : Config Op Res Out Shared)
    (event : Sigma Res) : Prop :=
  ∃ c₁ c₂ choice, M.Run P c c₁ ∧ M.Run P c₂ c' ∧ P.run t c₁.shared event.1 choice ∧
    M.exec t c₁.shared event.1 choice = some (event.2, c₂.shared)

theorem Performed.tail {t : ℕ} {c c₁ c₂ : Config Op Res Out Shared} {event : Sigma Res}
    (h : Performed M P t c c₁ event) (hnext : M.Next P c₁ c₂) : Performed M P t c c₂ event := by
  obtain ⟨before, after, choice, hbefore, hafter, hrest⟩ := h
  exact ⟨before, after, choice, hbefore, hafter.tail hnext, hrest⟩

/-- A task unwinds, or it performed the first part of the code that it started
with. -/
theorem performed_of_run {c c' : Config Op Res Out Shared} (hidle : ∀ t, c.tasks t = none)
    (hrun : M.Run P c c') {t : ℕ} {program : Prog Op Res Out} (ht : c'.tasks t = some program) :
    ∃ first trace, (∀ event ∈ trace, Performed M P t c c' event) ∧
      (first = M.unwind ∨ ∃ s entry s', M.start t s entry = some (first, s')) ∧
      ∀ rest value, Traced program rest value → Traced first (trace ++ rest) value := by
  induction hrun generalizing program with
  | refl =>
    rw [hidle t] at ht
    cases ht
  | @tail c₁ c₂ hrun hnext ih =>
    cases stepped M P hnext ht with
    | stayed h =>
      obtain ⟨first, trace, hperformed, hrest⟩ := ih h
      exact ⟨first, trace, fun event hevent => (hperformed event hevent).tail hnext, hrest⟩
    | started entry hnone hpermits hstart =>
      exact ⟨program, [], nofun, .inr ⟨c₁.shared, entry, c₂.shared, hstart⟩, fun _ _ h => h⟩
    | ran op next choice answer htask hpermits hexec heq =>
      obtain ⟨first, trace, hperformed, hfirst, htraced⟩ := ih htask
      refine ⟨first, trace ++ [⟨op, answer⟩], fun event hevent => ?_, hfirst, fun rest value h => ?_⟩
      · rcases List.mem_append.mp hevent with hold | hlast
        · exact (hperformed event hold).tail hnext
        · rw [List.mem_singleton.mp hlast]
          exact ⟨c₁, c₂, choice, hrun, .refl, hpermits, hexec⟩
      · subst heq
        rw [List.append_assoc]
        exact htraced _ value (.call h)
    | cancelled op next htask hpermits heq =>
      exact ⟨program, [], nofun, .inl heq, fun _ _ h => h⟩

/-- A task that ended performed all of the code that it started with, or unwound. -/
theorem performed_of_done {c c' : Config Op Res Out Shared} (hidle : ∀ t, c.tasks t = none)
    (hrun : M.Run P c c') {t : ℕ} {value : Out} (ht : c'.tasks t = some (.done value)) :
    ∃ first trace, (∀ event ∈ trace, Performed M P t c c' event) ∧
      (first = M.unwind ∨ ∃ s entry s', M.start t s entry = some (first, s')) ∧
      Traced first trace value := by
  obtain ⟨first, trace, hperformed, hfirst, htraced⟩ := performed_of_run hidle hrun ht
  refine ⟨first, trace, hperformed, hfirst, ?_⟩
  simpa using htraced [] value (.done value)

/-- What a task that is not dropped did between two configurations of a run
leads from its first program to its second one. -/
theorem traced_of_run {t : ℕ} (hcancel : ∀ s op, ¬ P.cancel t s op) (hreboot : ¬ P.reboot)
    {c c' : Config Op Res Out Shared} (hrun : M.Run P c c') {program : Prog Op Res Out}
    (hprogram : c.tasks t = some program) :
    ∃ remaining trace, c'.tasks t = some remaining ∧ (∀ event ∈ trace, Answers (M.exec t) event) ∧
      ∀ rest value, Traced remaining rest value → Traced program (trace ++ rest) value := by
  induction hrun with
  | refl => exact ⟨program, [], hprogram, nofun, fun _ _ h => h⟩
  | @tail c₁ c₂ _ hnext ih =>
    obtain ⟨remaining, trace, hremaining, hanswers, htraced⟩ := ih
    obtain ⟨remaining', hremaining'⟩ := task_kept M P hreboot hnext hremaining
    cases stepped M P hnext hremaining' with
    | stayed h =>
      rw [hremaining] at h
      cases h
      exact ⟨remaining, trace, hremaining', hanswers, htraced⟩
    | started entry hnone _ _ =>
      rw [hremaining] at hnone
      cases hnone
    | ran op next choice answer htask _ hexec heq =>
      rw [hremaining] at htask
      cases htask
      refine ⟨remaining', trace ++ [⟨op, answer⟩], hremaining', fun event hevent => ?_, ?_⟩
      · rcases List.mem_append.mp hevent with hevent | hevent
        · exact hanswers event hevent
        · cases List.mem_singleton.mp hevent
          exact ⟨c₁.shared, choice, c₂.shared, hexec⟩
      · intro rest value hrest
        subst heq
        rw [List.append_assoc]
        exact htraced _ value (.call hrest)
    | cancelled op _ _ hpermits _ => exact absurd hpermits (hcancel _ op)

end Answers

end OpenTfMirror.TaskTraces
