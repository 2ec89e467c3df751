import OpenTfMirror.TaskProgram

/-!
# How a program ends among others

The runs of one program from one state, between whose operations others may act.
It ends with its value, or its future is dropped at an operation. A run of a
sequence ends in its first part, or goes on with the second one.
-/

namespace OpenTfMirror.TaskEndings

open TaskProgram

/-- What the operations of a program do, and what happens besides them. -/
structure Setting (Op : Type) (Res : Op → Type) (Shared Choice : Type) where
  /-- One atomic operation, with the environment's answer. -/
  exec : Shared → (op : Op) → Choice → Option (Res op × Shared)
  /-- What the others may do. -/
  rely : Shared → Shared → Prop
  /-- What still happens when the future is dropped at an operation. -/
  drop : Shared → Op → List (Sigma Res) → Shared → Prop

variable {Op : Type} {Res : Op → Type} {Shared Choice α β ε : Type}

/-- The program goes from the first state to the last one, with these operations
and answers. It ends with a value, or is dropped. -/
inductive Ends (S : Setting Op Res Shared Choice) :
    Prog Op Res α → Shared → List (Sigma Res) → Option α → Shared → Prop
  | done {value : α} {s s' : Shared} (hrely : S.rely s s') :
      Ends S (.done value) s [] (some value) s'
  | call {op : Op} {next : Res op → Prog Op Res α} {s s₁ s₂ s' : Shared} {choice : Choice}
      {answer : Res op} {trace : List (Sigma Res)} {outcome : Option α} (hrely : S.rely s s₁)
      (hexec : S.exec s₁ op choice = some (answer, s₂))
      (h : Ends S (next answer) s₂ trace outcome s') :
      Ends S (.call op next) s (⟨op, answer⟩ :: trace) outcome s'
  | dropped {op : Op} {next : Res op → Prog Op Res α} {s s₁ s' : Shared}
      {trace : List (Sigma Res)} (hrely : S.rely s s₁) (hdrop : S.drop s₁ op trace s') :
      Ends S (.call op next) s trace none s'

/-- Perform the whole program with these answers of the environment, in turn. -/
def perform (S : Setting Op Res Shared Choice) :
    Prog Op Res α → Shared → List Choice → Option (List (Sigma Res) × α × Shared)
  | .done value, s, [] => some ([], value, s)
  | .call op next, s, choice :: rest =>
    match S.exec s op choice with
    | none => none
    | some (answer, s₁) => (perform S (next answer) s₁ rest).map fun (trace, ended) =>
      (⟨op, answer⟩ :: trace, ended)
  | _, _, _ => none

section Rules

variable {S : Setting Op Res Shared Choice} {s s' : Shared} {trace : List (Sigma Res)}

theorem ends_done {value : α} {outcome : Option α} (h : Ends S (.done value) s trace outcome s') :
    trace = [] ∧ outcome = some value ∧ S.rely s s' := by
  cases h with
  | done hrely => exact ⟨rfl, rfl, hrely⟩

theorem ends_call {op : Op} {next : Res op → Prog Op Res α} {outcome : Option α}
    (h : Ends S (.call op next) s trace outcome s') : ∃ s₁, S.rely s s₁ ∧
      ((∃ choice answer s₂ rest, trace = ⟨op, answer⟩ :: rest ∧
        S.exec s₁ op choice = some (answer, s₂) ∧ Ends S (next answer) s₂ rest outcome s') ∨
      (outcome = none ∧ S.drop s₁ op trace s')) := by
  cases h with
  | call hrely hexec h => exact ⟨_, hrely, .inl ⟨_, _, _, _, rfl, hexec, h⟩⟩
  | dropped hrely hdrop => exact ⟨_, hrely, .inr ⟨rfl, hdrop⟩⟩

/-- What is performed alone is one of the runs. -/
theorem ends_of_perform (hrefl : ∀ s, S.rely s s) {program : Prog Op Res α} {choices : List Choice}
    {value : α} (h : perform S program s choices = some (trace, value, s')) :
    Ends S program s trace (some value) s' := by
  induction program generalizing s trace choices with
  | done result =>
    cases choices with
    | nil =>
      cases h
      exact .done (hrefl _)
    | cons choice rest => cases h
  | call op next ih =>
    cases choices with
    | nil => cases h
    | cons choice rest =>
      rw [perform] at h
      split at h
      · cases h
      · next answer s₁ hexec =>
          obtain ⟨⟨trace', ended⟩, hperform, heq⟩ := Option.map_eq_some_iff.mp h
          cases heq
          exact .call (hrefl s) hexec (ih answer hperform)

/-- A sequence goes on after its first part, or is dropped in it. -/
theorem ends_bind (hrefl : ∀ s, S.rely s s) {program : Prog Op Res α} {f : α → Prog Op Res β}
    {outcome : Option β} (h : Ends S (program >>= f) s trace outcome s') :
    (∃ first rest middle s₁, trace = first ++ rest ∧ Ends S program s first (some middle) s₁ ∧
      Ends S (f middle) s₁ rest outcome s') ∨
    (outcome = none ∧ Ends S program s trace none s') := by
  induction program generalizing s trace with
  | done value => exact .inl ⟨[], trace, value, s, rfl, .done (hrefl s), h⟩
  | call op next ih =>
    obtain ⟨s₁, hrely, ⟨choice, answer, s₂, rest, rfl, hexec, h⟩ | ⟨rfl, hdrop⟩⟩ := ends_call h
    · rcases ih answer h with ⟨first, rest', middle, s₃, rfl, hfirst, hrest⟩ | ⟨rfl, hdropped⟩
      · exact .inl ⟨⟨op, answer⟩ :: first, rest', middle, s₃, rfl, .call hrely hexec hfirst, hrest⟩
      · exact .inr ⟨rfl, .call hrely hexec hdropped⟩
    · exact .inr ⟨rfl, .dropped hrely hdrop⟩

end Rules

section Assured

variable {Step : Type} (S : Setting Op Res Shared Choice) (watch : Sigma Res → Option Step)
variable (given : Sigma Res → Prop)

/-- However the program ends with such answers, this holds of its outcome, of the
steps that were watched until then, and of the state. -/
def Assured (program : Prog Op Res α) (steps : List Step) (s : Shared)
    (Q : Option α → List Step → Shared → Prop) : Prop :=
  ∀ trace outcome s', (∀ event ∈ trace, given event) → Ends S program s trace outcome s' →
    Q outcome (steps ++ trace.filterMap watch) s'

variable {S watch given} {steps : List Step} {s : Shared}

theorem assured_mono {program : Prog Op Res α} {Q Q' : Option α → List Step → Shared → Prop}
    (h : Assured S watch given program steps s Q) (himp : ∀ outcome steps s, Q outcome steps s →
      Q' outcome steps s) : Assured S watch given program steps s Q' :=
  fun trace outcome s' hgiven hends => himp _ _ _ (h trace outcome s' hgiven hends)

theorem assured_done {value : α} {Q : Option α → List Step → Shared → Prop}
    (h : ∀ s', S.rely s s' → Q (some value) steps s') :
    Assured S watch given (.done value) steps s Q := by
  intro trace outcome s' _ hends
  obtain ⟨rfl, rfl, hrely⟩ := ends_done hends
  simpa using h s' hrely

theorem assured_call {op : Op} {next : Res op → Prog Op Res α}
    {Q : Option α → List Step → Shared → Prop}
    (hnext : ∀ s₁ choice answer s₂, S.rely s s₁ → S.exec s₁ op choice = some (answer, s₂) →
      given ⟨op, answer⟩ → Assured S watch given (next answer) (steps ++ (watch ⟨op, answer⟩).toList) s₂ Q)
    (hdropped : ∀ s₁ trace s', S.rely s s₁ → S.drop s₁ op trace s' →
      Q none (steps ++ trace.filterMap watch) s') :
    Assured S watch given (.call op next) steps s Q := by
  intro trace outcome s' hgiven hends
  obtain ⟨s₁, hrely, ⟨choice, answer, s₂, rest, rfl, hexec, hrest⟩ | ⟨rfl, hdrop⟩⟩ :=
    ends_call hends
  · have h := hnext s₁ choice answer s₂ hrely hexec (hgiven _ List.mem_cons_self) rest outcome s'
      (fun event hevent => hgiven event (List.mem_cons_of_mem _ hevent)) hrest
    rw [List.append_assoc] at h
    cases hwatch : watch ⟨op, answer⟩ with
    | none => simpa [List.filterMap_cons, hwatch] using h
    | some step => simpa [List.filterMap_cons, hwatch] using h
  · exact hdropped s₁ trace s' hrely hdrop

variable (hrefl : ∀ s, S.rely s s)

include hrefl

/-- A sequence is assured part by part. -/
theorem assured_bind {program : Prog Op Res α} {f : α → Prog Op Res β}
    {Q : Option β → List Step → Shared → Prop}
    (h : Assured S watch given program steps s fun outcome steps s₁ =>
      match outcome with
      | some value => Assured S watch given (f value) steps s₁ Q
      | none => Q none steps s₁) :
    Assured S watch given (program >>= f) steps s Q := by
  intro trace outcome s' hgiven hends
  rcases ends_bind hrefl hends with ⟨first, rest, middle, s₁, rfl, hfirst, hrest⟩ | ⟨rfl, hdropped⟩
  · have hmiddle := h first (some middle) s₁
      (fun event hevent => hgiven event (List.mem_append_left _ hevent)) hfirst rest outcome s'
      (fun event hevent => hgiven event (List.mem_append_right _ hevent)) hrest
    rw [List.append_assoc] at hmiddle
    rwa [List.filterMap_append]
  · exact h trace none s' hgiven hdropped

/-- Code that may fail goes on after a success, and ends with an error. -/
theorem assured_run_bind {first : Fallible Op Res ε α} {next : α → Fallible Op Res ε β}
    {Q : Option (Except ε β) → List Step → Shared → Prop}
    (h : Assured S watch given first.run steps s fun outcome steps s₁ =>
      match outcome with
      | some (.ok value) => Assured S watch given (next value).run steps s₁ Q
      | some (.error error) => ∀ s', S.rely s₁ s' → Q (some (.error error)) steps s'
      | none => Q none steps s₁) :
    Assured S watch given (first >>= next).run steps s Q := by
  rw [Fallible.run_bind]
  refine assured_bind hrefl (assured_mono h fun outcome steps s₁ hfirst => ?_)
  match outcome with
  | some (.ok value) => exact hfirst
  | some (.error error) => exact assured_done hfirst
  | none => exact hfirst

/-- A lifted program passes its value on. -/
theorem assured_lift_bind {program : Prog Op Res α} {next : α → Fallible Op Res ε β}
    {Q : Option (Except ε β) → List Step → Shared → Prop}
    (h : Assured S watch given program steps s fun outcome steps s₁ =>
      match outcome with
      | some value => Assured S watch given (next value).run steps s₁ Q
      | none => Q none steps s₁) :
    Assured S watch given (Fallible.lift program >>= next).run steps s Q := by
  rw [Fallible.run_lift_bind]
  exact assured_bind hrefl h

end Assured

end OpenTfMirror.TaskEndings
