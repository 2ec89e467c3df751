import OpenTfMirror.TaskTraces

/-!
# The log of each task

A history that notes every performed operation with its answer and the state
that it left. What it says of one task, in order, is a trace of the code that the
task was started with, up to where the task stands; after a drop it goes on with
a trace of the destructors.
-/

namespace OpenTfMirror.TaskLogs

open TaskProgram TaskLogic TaskHistory TaskTraces

variable {Op : Type} {Res : Op → Type} {Out Shared Choice Entry Move : Type}

/-- An operation that a task performed, its answer, and the state after it. -/
structure Performance (Res : Op → Type) (Shared : Type) where
  task : ℕ
  event : Sigma Res
  after : Shared

/-- The machine beside the history of everything performed. -/
def logging (M : Machine Op Res Out Shared Choice Entry Move) :
    Machine Op Res Out (Noted Shared (Performance Res Shared)) Choice Entry Move :=
  noting M fun t s op choice =>
    ((M.exec t s op choice).map fun ran => ⟨t, ⟨op, ran.1⟩, ran.2⟩).toList

/-- What the task performed, the earliest first. -/
def log (t : ℕ) (history : List (Performance Res Shared)) : List (Performance Res Shared) :=
  (history.filter fun p => p.task = t).reverse

/-- The same without the states. -/
def events (t : ℕ) (history : List (Performance Res Shared)) : List (Sigma Res) :=
  (log t history).map Performance.event

section Lists

variable {t : ℕ} {p : Performance Res Shared} {history : List (Performance Res Shared)}

theorem log_cons_self (h : p.task = t) : log t (p :: history) = log t history ++ [p] := by
  unfold log
  rw [List.filter_cons_of_pos (by simpa using h), List.reverse_cons]

theorem log_cons_of_ne (h : p.task ≠ t) : log t (p :: history) = log t history := by
  unfold log
  rw [List.filter_cons_of_neg (by simpa using h)]

theorem mem_log : p ∈ log t history ↔ p ∈ history ∧ p.task = t := by
  unfold log
  rw [List.mem_reverse, List.mem_filter, decide_eq_true_iff]

theorem events_cons_self (h : p.task = t) :
    events t (p :: history) = events t history ++ [p.event] := by
  unfold events
  rw [log_cons_self h, List.map_append]
  rfl

theorem events_cons_of_ne (h : p.task ≠ t) : events t (p :: history) = events t history := by
  unfold events
  rw [log_cons_of_ne h]

theorem log_append (a b : List (Performance Res Shared)) : log t (a ++ b) = log t b ++ log t a := by
  unfold log
  rw [List.filter_append, List.reverse_append]

theorem events_append (a b : List (Performance Res Shared)) :
    events t (a ++ b) = events t b ++ events t a := by
  unfold events
  rw [log_append, List.map_append]

end Lists

section Parts

variable {α β ε : Type} {performed : List (Performance Res Shared)}

/-- The first operation of code that was performed. -/
theorem performed_call {op : Op} {next : Res op → Fallible Op Res ε β} {result : Except ε β}
    (h : Traced (Fallible.lift (.call op .done) >>= next).run (performed.map Performance.event)
      result) :
    ∃ p rest answer, performed = p :: rest ∧ p.event = ⟨op, answer⟩ ∧
      Traced (next answer).run (rest.map Performance.event) result := by
  obtain ⟨first, rest, answer, hsplit, hfirst, hrest⟩ := traced_lift_bind.mp h
  rw [traced_op.mp hfirst] at hsplit
  obtain ⟨p, later, rfl, hp, rfl⟩ := List.map_eq_cons_iff.mp hsplit
  exact ⟨p, later, answer, rfl, hp, hrest⟩

/-- The first part of code that was performed. -/
theorem performed_bind {program : Prog Op Res α} {next : α → Fallible Op Res ε β}
    {result : Except ε β}
    (h : Traced (Fallible.lift program >>= next).run (performed.map Performance.event) result) :
    ∃ first rest middle, performed = first ++ rest ∧
      Traced program (first.map Performance.event) middle ∧
      Traced (next middle).run (rest.map Performance.event) result := by
  obtain ⟨first, rest, middle, hsplit, hfirst, hrest⟩ := traced_lift_bind.mp h
  obtain ⟨here, later, rfl, rfl, rfl⟩ := List.map_eq_append_iff.mp hsplit
  exact ⟨here, later, middle, rfl, hfirst, hrest⟩

end Parts

variable {M : Machine Op Res Out Shared Choice Entry Move}

/-- An operation is logged with what it did. -/
theorem logging_exec {t : ℕ} {s s' : Noted Shared (Performance Res Shared)} {op : Op}
    {choice : Choice} {answer : Res op} (h : (logging M).exec t s op choice = some (answer, s')) :
    M.exec t s.state op choice = some (answer, s'.state) ∧
      s'.history = ⟨t, ⟨op, answer⟩, s'.state⟩ :: s.history := by
  obtain ⟨hexec, hhistory⟩ := noting_exec h
  rw [hexec] at hhistory
  exact ⟨hexec, hhistory⟩

section Moments

/-- A step that is no operation of a task. -/
inductive Silent (M : Machine Op Res Out Shared Choice Entry Move) (s s' : Shared) : Prop
  | start (t : ℕ) (entry : Entry) (program : Prog Op Res Out)
      (h : M.start t s entry = some (program, s'))
  | cancel (t : ℕ) (op : Op) (h : M.cancel t s op = some s')
  | move (m : Move) (h : M.move s m = some s')

variable {P : Policy Op (Noted Shared (Performance Res Shared)) Choice Entry Move}
variable {c c' : Config Op Res Out (Noted Shared (Performance Res Shared))}

/-- A step notes the operation that it performs, or performs none. -/
theorem logging_next (hreboot : ∀ s, M.reboot s = none) (hnext : (logging M).Next P c c') :
    (c'.shared.history = c.shared.history ∧ Silent M c.shared.state c'.shared.state) ∨
    ∃ p choice, c'.shared.history = p :: c.shared.history ∧ p.after = c'.shared.state ∧
      M.exec p.task c.shared.state p.event.1 choice = some (p.event.2, p.after) := by
  cases happened (logging M) P hnext with
  | started t entry program s _ _ hstart heq =>
    subst heq
    obtain ⟨hstart', hhistory⟩ := noting_start hstart
    exact .inl ⟨hhistory, .start t entry program hstart'⟩
  | ran t op next choice answer s _ _ hexec heq =>
    subst heq
    obtain ⟨hexec', hhistory⟩ := logging_exec hexec
    exact .inr ⟨⟨t, ⟨op, answer⟩, s.state⟩, choice, hhistory, rfl, hexec'⟩
  | cancelled t op next s _ _ hcancel heq =>
    subst heq
    obtain ⟨hcancel', hhistory⟩ := noting_cancel hcancel
    exact .inl ⟨hhistory, .cancel t op hcancel'⟩
  | moved m s _ hmove heq =>
    subst heq
    obtain ⟨hmove', hhistory⟩ := noting_move hmove
    exact .inl ⟨hhistory, .move m hmove'⟩
  | rebooted s _ hrebooted _ =>
    obtain ⟨hrebooted', -⟩ := noting_reboot hrebooted
    rw [hreboot] at hrebooted'
    cases hrebooted'

variable {s : Shared}

/-- The history only grows. -/
theorem history_grows (hreboot : ∀ s, M.reboot s = none) (hrun : (logging M).Run P c c') :
    ∃ later, c'.shared.history = later ++ c.shared.history := by
  induction hrun with
  | refl => exact ⟨[], rfl⟩
  | tail _ hnext ih =>
    obtain ⟨later, hlater⟩ := ih
    rcases logging_next hreboot hnext with ⟨hhistory, -⟩ | ⟨p, choice, hhistory, -, -⟩
    · exact ⟨later, hhistory.trans hlater⟩
    · exact ⟨p :: later, by rw [hhistory, hlater, List.cons_append]⟩

/-- What was noted has been performed. -/
theorem executed_of_run (hreboot : ∀ s, M.reboot s = none)
    (hrun : (logging M).Run P ⟨⟨s, []⟩, fun _ => none⟩ c) :
    ∀ p ∈ c.shared.history, ∃ before choice,
      M.exec p.task before p.event.1 choice = some (p.event.2, p.after) := by
  induction hrun with
  | refl => exact fun p hp => by cases hp
  | @tail c₁ c₂ _ hnext ih =>
    rcases logging_next hreboot hnext with ⟨hhistory, -⟩ | ⟨q, choice, hhistory, -, hexec⟩
    · rw [hhistory]
      exact ih
    · rw [hhistory]
      intro p hp
      rcases List.mem_cons.mp hp with rfl | hp
      · exact ⟨c₁.shared.state, choice, hexec⟩
      · exact ih p hp

/-- A relation between the states at any two moments, and now. -/
structure Ordered (related : Shared → Shared → Prop)
    (s : Noted Shared (Performance Res Shared)) : Prop where
  now : ∀ p ∈ s.history, related p.after s.state
  past : s.history.Pairwise fun later earlier => related earlier.after later.after

/-- What every step relates is related all along. -/
theorem ordered_of_run (hreboot : ∀ s, M.reboot s = none) {related : Shared → Shared → Prop}
    (hrefl : ∀ s, related s s) (htrans : ∀ s₁ s₂ s₃, related s₁ s₂ → related s₂ s₃ → related s₁ s₃)
    (hrelated : ∀ c₁ c₂, (logging M).Run P ⟨⟨s, []⟩, fun _ => none⟩ c₁ →
      (logging M).Next P c₁ c₂ → related c₁.shared.state c₂.shared.state)
    (hrun : (logging M).Run P ⟨⟨s, []⟩, fun _ => none⟩ c) : Ordered related c.shared := by
  induction hrun with
  | refl =>
    refine ⟨fun p hp => ?_, List.Pairwise.nil⟩
    cases hp
  | @tail c₁ c₂ hbefore hnext ih =>
    have hstep := hrelated c₁ c₂ hbefore hnext
    have hnow : ∀ p ∈ c₁.shared.history, related p.after c₂.shared.state :=
      fun p hp => htrans _ _ _ (ih.now p hp) hstep
    rcases logging_next hreboot hnext with ⟨hhistory, -⟩ | ⟨q, choice, hhistory, hafter, -⟩
    · constructor
      · rw [hhistory]
        exact hnow
      · rw [hhistory]
        exact ih.past
    · constructor
      · rw [hhistory]
        intro p hp
        rcases List.mem_cons.mp hp with rfl | hp
        · rw [hafter]
          exact hrefl _
        · exact hnow p hp
      · rw [hhistory]
        refine List.pairwise_cons.mpr ⟨fun p hp => ?_, ih.past⟩
        rw [hafter]
        exact hnow p hp

/-- In particular between the operations of one task. -/
theorem Ordered.log {related : Shared → Shared → Prop}
    {s : Noted Shared (Performance Res Shared)} (h : Ordered related s) (t : ℕ) :
    (log t s.history).Pairwise fun earlier later => related earlier.after later.after :=
  List.pairwise_reverse.mpr (h.past.sublist List.filter_sublist)

/-- What only some operations end still holds, or one of them was performed since. -/
theorem kept_since (φ : Shared → Prop) (ends : Op → Prop) (hreboot : ∀ s, M.reboot s = none)
    (hsilent : ∀ s s', Silent M s s' → φ s → φ s')
    (hexec : ∀ t s op choice answer s', M.exec t s op choice = some (answer, s') → φ s →
      φ s' ∨ ends op)
    (hrun : (logging M).Run P ⟨⟨s, []⟩, fun _ => none⟩ c) :
    ∀ later p earlier, c.shared.history = later ++ p :: earlier → φ p.after →
      φ c.shared.state ∨ ∃ q ∈ later, ends q.event.1 := by
  induction hrun with
  | refl =>
    intro later p earlier heq
    cases later <;> cases heq
  | @tail c₁ c₂ _ hnext ih =>
    intro later p earlier heq hp
    rcases logging_next hreboot hnext with ⟨hhistory, hsame⟩ | ⟨q, choice, hhistory, hafter, hq⟩
    · rw [hhistory] at heq
      exact (ih later p earlier heq hp).imp_left (hsilent _ _ hsame)
    · rw [hhistory] at heq
      cases later with
      | nil =>
        obtain ⟨rfl, -⟩ := List.cons.inj heq
        left
        rw [← hafter]
        exact hp
      | cons q' later =>
        obtain ⟨rfl, hrest⟩ := List.cons.inj heq
        rcases ih later p earlier hrest hp with hkept | ⟨r, hr, hends⟩
        · rcases hexec _ _ _ _ _ _ hq hkept with hkept | hends
          · left
            rw [← hafter]
            exact hkept
          · exact .inr ⟨q, List.mem_cons_self, hends⟩
        · exact .inr ⟨r, List.mem_cons_of_mem _ hr, hends⟩

/-- What holds in every run holds at every noted moment. -/
theorem at_moment (hreboot : ∀ s, M.reboot s = none)
    {I : Noted Shared (Performance Res Shared) → Prop}
    (hI : ∀ c, (logging M).Run P ⟨⟨s, []⟩, fun _ => none⟩ c → I c.shared)
    (hrun : (logging M).Run P ⟨⟨s, []⟩, fun _ => none⟩ c) :
    ∀ later p earlier, c.shared.history = later ++ p :: earlier → I ⟨p.after, p :: earlier⟩ := by
  induction hrun with
  | refl =>
    intro later p earlier heq
    cases later <;> cases heq
  | @tail c₁ c₂ hbefore hnext ih =>
    intro later p earlier heq
    rcases logging_next hreboot hnext with ⟨hhistory, -⟩ | ⟨q, choice, hhistory, hafter, -⟩
    · rw [hhistory] at heq
      exact ih later p earlier heq
    · have hnow := hI c₂ (hbefore.tail hnext)
      rw [hhistory] at heq
      cases later with
      | nil =>
        obtain ⟨rfl, rfl⟩ := List.cons.inj heq
        have hshared : c₂.shared = ⟨q.after, q :: c₁.shared.history⟩ := by
          rw [hafter, ← hhistory]
        rw [← hshared]
        exact hnow
      | cons q' later =>
        obtain ⟨-, hrest⟩ := List.cons.inj heq
        exact ih later p earlier hrest

end Moments

section Accounts

/-- The operations begin the code that the task was started with, and where it was
dropped they go on with destructors. -/
inductive Begun (M : Machine Op Res Out Shared Choice Entry Move) (t : ℕ) : List (Sigma Res) → Prop
  | code (entry : Entry) (first dropped : Prog Op Res Out) (s s' : Shared)
      (hstart : M.start t s entry = some (first, s')) (performed : List (Sigma Res))
      (h : ∀ rest value, Traced dropped rest value → Traced first (performed ++ rest) value) :
      Begun M t performed
  | destructors (before since : List (Sigma Res)) (dropped : Prog Op Res Out) (hbefore : Begun M t before)
      (h : ∀ rest value, Traced dropped rest value → Traced M.unwind (since ++ rest) value) :
      Begun M t (before ++ since)

/-- The operations lead to where the task stands. -/
inductive Account (M : Machine Op Res Out Shared Choice Entry Move) (t : ℕ)
    (performed : List (Sigma Res)) (program : Prog Op Res Out) : Prop
  /-- From the code that the task was started with. -/
  | running (entry : Entry) (first : Prog Op Res Out) (s s' : Shared)
      (hstart : M.start t s entry = some (first, s'))
      (h : ∀ rest value, Traced program rest value → Traced first (performed ++ rest) value)
  /-- The last of them from the destructors. -/
  | unwinding (before since : List (Sigma Res)) (heq : performed = before ++ since)
      (hbegun : Begun M t before)
      (h : ∀ rest value, Traced program rest value → Traced M.unwind (since ++ rest) value)

/-- The log accounts for every task. -/
structure Accounted (M : Machine Op Res Out Shared Choice Entry Move)
    (c : Config Op Res Out (Noted Shared (Performance Res Shared))) : Prop where
  none : ∀ t, c.tasks t = none → events t c.shared.history = []
  some : ∀ t program, c.tasks t = some program → Account M t (events t c.shared.history) program

variable {P : Policy Op (Noted Shared (Performance Res Shared)) Choice Entry Move}
variable {c c' : Config Op Res Out (Noted Shared (Performance Res Shared))}

/-- One more operation of the task. -/
theorem Account.perform {t : ℕ} {performed : List (Sigma Res)} {op : Op}
    {next : Res op → Prog Op Res Out} (h : Account M t performed (.call op next))
    (answer : Res op) : Account M t (performed ++ [⟨op, answer⟩]) (next answer) := by
  cases h with
  | running entry first s s' hstart h =>
    refine .running entry first s s' hstart fun rest value hrest => ?_
    rw [List.append_assoc]
    exact h _ value (.call hrest)
  | unwinding before since heq hbegun h =>
    refine .unwinding before (since ++ [⟨op, answer⟩]) ?_ hbegun fun rest value hrest => ?_
    · rw [heq, List.append_assoc]
    · rw [List.append_assoc]
      exact h _ value (.call hrest)

/-- A task that is dropped has begun what it leaves. -/
theorem Account.begun {t : ℕ} {performed : List (Sigma Res)} {program : Prog Op Res Out}
    (h : Account M t performed program) : Begun M t performed := by
  cases h with
  | running entry first s s' hstart h => exact .code entry first program s s' hstart performed h
  | unwinding before since heq hbegun h =>
    subst heq
    exact .destructors before since program hbegun h

/-- The step lemma, in a machine that never reboots. -/
theorem Accounted.next (hreboot : ∀ s, M.reboot s = Option.none) (hc : Accounted M c)
    (hnext : (logging M).Next P c c') : Accounted M c' := by
  cases happened (logging M) P hnext with
  | started u entry program s hnone _ hstart heq =>
    subst heq
    obtain ⟨hstart', hhistory⟩ := noting_start hstart
    refine ⟨fun t ht => ?_, fun t program' ht => ?_⟩
    · dsimp only
      rw [hhistory]
      exact hc.none t (update_none ht).2
    · dsimp only
      rw [hhistory]
      rcases update_some ht with ⟨rfl, rfl⟩ | ⟨-, ht⟩
      · rw [hc.none t hnone]
        exact .running entry program' _ _ hstart' fun _ _ h => h
      · exact hc.some t program' ht
  | ran u op next choice answer s htask _ hexec heq =>
    subst heq
    obtain ⟨-, hhistory⟩ := logging_exec hexec
    refine ⟨fun t ht => ?_, fun t program' ht => ?_⟩
    · obtain ⟨hne, hnone⟩ := update_none ht
      dsimp only
      rw [hhistory, events_cons_of_ne hne.symm]
      exact hc.none t hnone
    · dsimp only
      rw [hhistory]
      rcases update_some ht with ⟨rfl, rfl⟩ | ⟨hne, ht⟩
      · rw [events_cons_self (p := ⟨t, ⟨op, answer⟩, s.state⟩) rfl]
        exact (hc.some t _ htask).perform answer
      · rw [events_cons_of_ne hne.symm]
        exact hc.some t program' ht
  | cancelled u op next s htask _ hcancel heq =>
    subst heq
    obtain ⟨-, hhistory⟩ := noting_cancel hcancel
    refine ⟨fun t ht => ?_, fun t program' ht => ?_⟩
    · dsimp only
      rw [hhistory]
      exact hc.none t (update_none ht).2
    · dsimp only
      rw [hhistory]
      rcases update_some ht with ⟨rfl, rfl⟩ | ⟨-, ht⟩
      · exact .unwinding _ [] (List.append_nil _).symm (hc.some t _ htask).begun fun _ _ h => h
      · exact hc.some t program' ht
  | moved m s _ hmove heq =>
    subst heq
    obtain ⟨-, hhistory⟩ := noting_move hmove
    refine ⟨fun t ht => ?_, fun t program' ht => ?_⟩
    · dsimp only
      rw [hhistory]
      exact hc.none t ht
    · dsimp only
      rw [hhistory]
      exact hc.some t program' ht
  | rebooted s _ hrebooted _ =>
    obtain ⟨hrebooted', -⟩ := noting_reboot hrebooted
    rw [hreboot] at hrebooted'
    cases hrebooted'

/-- The run lemma: the log accounts for the tasks of every run from an idle state. -/
theorem accounted_of_run (hreboot : ∀ s, M.reboot s = Option.none) {s : Shared}
    (hrun : (logging M).Run P ⟨⟨s, []⟩, fun _ => none⟩ c) : Accounted M c := by
  induction hrun with
  | refl => exact ⟨fun _ _ => rfl, fun _ _ ht => by cases ht⟩
  | tail _ hnext ih => exact ih.next hreboot hnext

/-- A task that ended performed all of its code, or in the end all destructors. -/
theorem Accounted.ended (hc : Accounted M c) {t : ℕ} {value : Out}
    (ht : c.tasks t = Option.some (.done value)) :
    (∃ entry first s s', M.start t s entry = Option.some (first, s') ∧
      Traced first (events t c.shared.history) value) ∨
    ∃ before since, events t c.shared.history = before ++ since ∧ Traced M.unwind since value := by
  cases hc.some t _ ht with
  | running entry first s s' hstart h =>
    exact .inl ⟨entry, first, s, s', hstart, by simpa using h [] value (.done value)⟩
  | unwinding before since heq _ h =>
    exact .inr ⟨before, since, heq, by simpa using h [] value (.done value)⟩

/-- Every program can be performed to its end. -/
theorem exists_traced (hanswers : ∀ op, Nonempty (Res op)) {α : Type} (program : Prog Op Res α) :
    ∃ trace value, Traced program trace value := by
  induction program with
  | done value => exact ⟨[], value, .done value⟩
  | call op next ih =>
    obtain ⟨answer⟩ := hanswers op
    obtain ⟨trace, value, h⟩ := ih answer
    exact ⟨_, value, .call h⟩

/-- A property of traces that only looks back. -/
structure LooksBack (J : List (Sigma Res) → Prop) : Prop where
  left : ∀ a b, J (a ++ b) → J a
  append : ∀ a b, J a → J b → J (a ++ b)

/-- What the code of all requests and the destructors satisfy holds of every log. -/
theorem Accounted.all (hanswers : ∀ op, Nonempty (Res op)) {J : List (Sigma Res) → Prop}
    (hJ : LooksBack J)
    (hstart : ∀ t s entry first s', M.start t s entry = Option.some (first, s') →
      ∀ trace value, Traced first trace value → J trace)
    (hunwind : ∀ trace value, Traced M.unwind trace value → J trace) (hc : Accounted M c) (t : ℕ) :
    J (events t c.shared.history) := by
  have hnil : J [] := by
    obtain ⟨trace, value, h⟩ := exists_traced hanswers M.unwind
    exact hJ.left [] trace (hunwind trace value h)
  have hpart : ∀ (first program : Prog Op Res Out) (performed : List (Sigma Res)),
      (∀ trace value, Traced first trace value → J trace) →
      (∀ rest value, Traced program rest value → Traced first (performed ++ rest) value) →
      J performed := by
    intro first program performed hfirst h
    obtain ⟨rest, value, hrest⟩ := exists_traced hanswers program
    exact hJ.left performed rest (hfirst _ value (h rest value hrest))
  have hbegun : ∀ performed, Begun M t performed → J performed := by
    intro performed h
    induction h with
    | code entry first dropped s s' hbegin performed h =>
      exact hpart first dropped performed (hstart t s entry first s' hbegin) h
    | destructors before since dropped _ h ih =>
      exact hJ.append _ _ ih (hpart M.unwind dropped since hunwind h)
  cases htask : c.tasks t with
  | none =>
    rw [hc.none t htask]
    exact hnil
  | some program => exact hbegun _ (hc.some t program htask).begun

end Accounts

end OpenTfMirror.TaskLogs
