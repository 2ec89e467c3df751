import OpenTfMirror.ConnectionOrder

/-!
# Deadlines of the connection server

Where the runtime lets no time pass while something is due, the listener is gone
at the end of the grace period, no client keeps a permit beyond the timeout
without a request, and a client that has sent the first bytes of one in time is
not timed out.
-/

namespace OpenTfMirror.ConnectionServer

open FileStore Relation

variable {settings : Settings} {clock : ℕ} {shutdown : Bool} {c c' : Connection} {s s' : Server}

section Connections

/-- A connection whose task was always run in time. -/
structure Punctual (settings : Settings) (clock : ℕ) (c : Connection) : Prop where
  spawned : c.phase = .spawned → clock = c.accepted
  handshake : ∀ deadline, c.phase = .handshake deadline →
    deadline = c.accepted + settings.handshakeTimeout ∧ clock ≤ deadline
  preface : ∀ deadline pause, c.phase = .preface deadline pause →
    deadline = c.accepted + settings.handshakeTimeout ∧ clock ≤ deadline
  looking : ∀ deadline, c.phase = .preface deadline none →
    ∀ since, c.decidedAt = some since → clock ≤ since + prefacePoll
  pausing : ∀ deadline wake, c.phase = .preface deadline (some wake) →
    clock ≤ wake ∧ wake ≤ clock + prefacePoll ∧
      ∀ since, c.decidedAt = some since → wake ≤ since + prefacePoll
  timedOut : ∀ since, c.ending = some (.timedOut, since) →
    since = c.accepted + settings.handshakeTimeout ∧
      (settings.tls = false → ∀ decided, c.decidedAt = some decided → since < decided + prefacePoll)

theorem punctual_new : Punctual settings clock (.new clock) where
  spawned _ := rfl
  handshake _ h := by cases h
  preface _ _ h := by cases h
  looking _ h := by cases h
  pausing _ _ h := by cases h
  timedOut _ h := by cases h

theorem Punctual.aborted (h : Punctual settings clock c) :
    Punctual settings clock { c with aborted := true } :=
  ⟨h.spawned, h.handshake, h.preface, h.looking, h.pausing, h.timedOut⟩

/-- Where the task waits for nothing, only the record counts. -/
theorem punctual_settled (hspawned : c.phase ≠ .spawned)
    (hhandshake : ∀ deadline, c.phase ≠ .handshake deadline)
    (hpreface : ∀ deadline pause, c.phase ≠ .preface deadline pause)
    (htimedOut : ∀ since, c.ending = some (.timedOut, since) →
      since = c.accepted + settings.handshakeTimeout ∧
        (settings.tls = false → ∀ decided, c.decidedAt = some decided →
          since < decided + prefacePoll)) :
    Punctual settings clock c where
  spawned h := absurd h hspawned
  handshake deadline h := absurd h (hhandshake deadline)
  preface deadline pause h := absurd h (hpreface deadline pause)
  looking deadline h := absurd h (hpreface deadline none)
  pausing deadline wake h := absurd h (hpreface deadline (some wake))
  timedOut := htimedOut

/-- Nothing was decided while `peek` waits for the first byte. -/
theorem undecided_looking (hsound : Sound settings clock c) (h : c.undecided clock none = true) :
    c.decidedAt = none :=
  hsound.decided.mpr (decided_nil (received_of_pending (of_decide_eq_true h)))

/-- Time passes while nothing is due. -/
theorem Punctual.tick (h : Punctual settings clock c) (hsound : Sound settings clock c)
    (hdue : c.due clock shutdown = false) : Punctual settings (clock + 1) c := by
  have hwaits : ∀ deadline pause, c.phase = .preface deadline pause →
      clock < deadline ∧ c.undecided clock pause = true := by
    intro deadline pause hphase
    simp only [Connection.due, hphase, Bool.or_eq_false_iff, decide_eq_false_iff_not,
      Bool.not_eq_false'] at hdue
    exact ⟨Nat.lt_of_not_le hdue.1.2, hdue.2⟩
  refine ⟨fun hphase => ?_, fun deadline hphase => ?_, fun deadline pause hphase => ?_,
    fun deadline hphase since hsince => ?_, fun deadline wake hphase => ?_, h.timedOut⟩
  · simp [Connection.due, hphase] at hdue
  · have hlt : clock < deadline := by
      simp only [Connection.due, hphase, Bool.or_eq_false_iff, decide_eq_false_iff_not] at hdue
      exact Nat.lt_of_not_le hdue.2
    exact ⟨(h.handshake deadline hphase).1, hlt⟩
  · exact ⟨(h.preface deadline pause hphase).1, (hwaits deadline pause hphase).1⟩
  · rw [undecided_looking hsound (hwaits deadline none hphase).2] at hsince
    cases hsince
  · obtain ⟨-, hsoon, hdecided⟩ := h.pausing deadline wake hphase
    have hlt : clock < wake := of_decide_eq_true (hwaits deadline (some wake) hphase).2
    exact ⟨hlt, by omega, hdecided⟩

theorem Punctual.step (h : Punctual settings clock c) (hsound : Sound settings clock c)
    (hstep : Stepped settings clock shutdown c c') : Punctual settings clock c' := by
  cases hstep with
  | streamed stream hgrows heq =>
    subst heq
    obtain ⟨-, hsince⟩ := carry_decidedAt hsound hgrows
    refine ⟨h.spawned, h.handshake, h.preface, fun deadline hphase since hwhen => ?_,
      fun deadline wake hphase => ?_, fun since hended => ?_⟩
    · rcases hsince since hwhen with hbefore | ⟨-, rfl⟩
      · exact h.looking deadline hphase since hbefore
      · exact Nat.le_add_right _ _
    · obtain ⟨hwake, hsoon, hdecided⟩ := h.pausing deadline wake hphase
      refine ⟨hwake, hsoon, fun since hwhen => ?_⟩
      rcases hsince since hwhen with hbefore | ⟨-, rfl⟩
      · exact hdecided since hbefore
      · exact hsoon
    · obtain ⟨hdeadline, hdecided⟩ := h.timedOut since hended
      refine ⟨hdeadline, fun htls decided hwhen => ?_⟩
      rcases hsince decided hwhen with hbefore | ⟨-, rfl⟩
      · exact hdecided htls decided hbefore
      · have hpast := hsound.ended _ _ hended
        have hpoll : 0 < prefacePoll := by decide
        omega
  | started hphase heq =>
    subst heq
    have haccepted := h.spawned hphase
    refine ⟨fun hnow => ?_, fun deadline hnow => ?_, fun deadline pause hnow => ?_,
      fun deadline hnow since hsince => ?_, fun deadline wake hnow => ?_, h.timedOut⟩
    · dsimp only at hnow
      split at hnow <;> cases hnow
    · dsimp only at hnow
      split at hnow
      · cases hnow
        exact ⟨by rw [haccepted], Nat.le_add_right _ _⟩
      · cases hnow
    · dsimp only at hnow
      split at hnow
      · cases hnow
      · cases hnow
        exact ⟨by rw [haccepted], Nat.le_add_right _ _⟩
    · have hpast := (hsound.past since hsince).1
      omega
    · dsimp only at hnow
      split at hnow <;> cases hnow
  | shookHands deadline hphase heq =>
    subst heq
    exact punctual_settled Phase.noConfusion (fun _ => Phase.noConfusion)
      (fun _ _ => Phase.noConfusion) h.timedOut
  | decided deadline hphase hdecided heq =>
    subst heq
    exact punctual_settled Phase.noConfusion (fun _ => Phase.noConfusion)
      (fun _ _ => Phase.noConfusion) h.timedOut
  | paused deadline hphase hundecided heq =>
    subst heq
    refine ⟨fun hnow => (by cases hnow), fun _ hnow => (by cases hnow), fun _ _ hnow => ?_,
      fun _ hnow => (by cases hnow), fun _ wake hnow => ?_, h.timedOut⟩
    · cases hnow
      exact h.preface deadline none hphase
    · cases hnow
      refine ⟨Nat.le_add_right _ _, Nat.le_refl _, fun since hsince => ?_⟩
      rw [hsound.decided.mpr hundecided] at hsince
      cases hsince
  | woke deadline wake hphase hwake heq =>
    subst heq
    obtain ⟨hnotYet, -, hdecided⟩ := h.pausing deadline wake hphase
    refine ⟨fun hnow => (by cases hnow), fun _ hnow => (by cases hnow), fun _ _ hnow => ?_,
      fun _ _ since hsince => ?_, fun _ _ hnow => (by cases hnow), h.timedOut⟩
    · cases hnow
      exact h.preface deadline (some wake) hphase
    · exact Nat.le_trans hnotYet (hdecided since hsince)
  | closing hphase hshutdown heq =>
    subst heq
    exact punctual_settled Phase.noConfusion (fun _ => Phase.noConfusion)
      (fun _ _ => Phase.noConfusion) h.timedOut
  | ended cause hlive hcause heq =>
    subst heq
    refine punctual_settled Phase.noConfusion (fun _ => Phase.noConfusion)
      (fun _ _ => Phase.noConfusion) fun since hended => ?_
    cases hended
    rcases hcause with ⟨deadline, hphase, hle⟩ | ⟨deadline, pause, hphase, hle, hundecided⟩
    · obtain ⟨hdeadline, hbefore⟩ := h.handshake deadline hphase
      refine ⟨by dsimp only [Connection.end]; omega, fun htls => ?_⟩
      exact absurd hphase (hsound.secured htls deadline)
    · obtain ⟨hdeadline, hbefore⟩ := h.preface deadline pause hphase
      refine ⟨by dsimp only [Connection.end]; omega, fun _ decided hdecided => ?_⟩
      cases pause with
      | none =>
        have hnever : c.decidedAt = none := undecided_looking hsound hundecided
        have hboth : none = some decided := hnever.symm.trans hdecided
        cases hboth
      | some wake =>
        have hlt : clock < wake := of_decide_eq_true hundecided
        have hle := (h.pausing deadline wake hphase).2.2 decided hdecided
        omega
  | finished hphase heq =>
    subst heq
    exact punctual_settled Phase.noConfusion (fun _ => Phase.noConfusion)
      (fun _ _ => Phase.noConfusion) h.timedOut

end Connections

section Listener

/-- A listener whose tasks were always run in time. -/
structure Timely (settings : Settings) (s : Server) : Prop where
  going : ∀ since, s.shutdown = some since → ¬s.loop.stops → s.clock = since
  draining : ∀ since deadline, s.shutdown = some since → s.loop = .draining deadline →
    deadline = since + settings.shutdownGracePeriod ∧ s.clock ≤ deadline
  aborting : ∀ since, s.shutdown = some since → s.loop = .aborting →
    s.clock ≤ since + settings.shutdownGracePeriod
  told : s.loop = .aborting → ∀ c ∈ s.connections, c.aborted = true
  joined : ∀ c ∈ s.joined, c.phase = .finished
  punctual : ∀ c, s.Accepted c → Punctual settings s.clock c

theorem timely_boot : Timely settings (settings.boot clock) where
  going _ h := by cases h
  draining _ _ h := by cases h
  aborting _ h := by cases h
  told _ _ h := by cases h
  joined _ h := by cases h
  punctual _ h := by rcases h with h | h <;> cases h

/-- A loop that goes on is due once the shutdown is requested. -/
theorem due_of_going (hgoing : ¬s.loop.stops) (hshutdown : s.shutdown.isSome = true) :
    s.loopDue = true := by
  unfold Server.loopDue
  cases hloop : s.loop with
  | draining deadline => exact absurd (hloop ▸ trivial) hgoing
  | aborting => exact absurd (hloop ▸ trivial) hgoing
  | returned => exact absurd (hloop ▸ trivial) hgoing
  | _ => simp [hshutdown]

/-- Among aborted tasks something is always due. -/
theorem due_of_aborting (hloop : s.loop = .aborting) (htold : ∀ c ∈ s.connections, c.aborted = true) :
    s.due = true := by
  unfold Server.due
  rw [Bool.or_eq_true_iff]
  by_cases hempty : s.connections = []
  · exact .inl (by simp [Server.loopDue, hloop, hempty])
  · obtain ⟨c, hc⟩ := List.exists_mem_of_ne_nil _ hempty
    have haborted := htold c hc
    by_cases hfinished : c.phase = .finished
    · refine .inl ?_
      simp only [Server.loopDue, hloop, Bool.or_eq_true_iff]
      exact .inr (List.any_eq_true.mpr ⟨c, hc, decide_eq_true hfinished⟩)
    · refine .inr (List.any_eq_true.mpr ⟨c, hc, ?_⟩)
      cases hphase : c.phase with
      | finished => exact absurd hphase hfinished
      | _ => simp [Connection.due, hphase, haborted]

theorem Timely.tick (h : Timely settings s) (horder : Orderly settings s) (hdue : s.due = false) :
    Timely settings { s with clock := s.clock + 1 } := by
  obtain ⟨hloop, hquiet⟩ := Bool.or_eq_false_iff.mp hdue
  refine ⟨fun since hsince hgoing => ?_, fun since deadline hsince hdraining => ?_,
    fun since hsince haborting => ?_, h.told, h.joined, fun c hc => ?_⟩
  · have hnow : s.loopDue = true :=
      due_of_going hgoing (Option.isSome_iff_exists.mpr ⟨since, hsince⟩)
    rw [hnow] at hloop
    cases hloop
  · refine ⟨(h.draining since deadline hsince hdraining).1, ?_⟩
    dsimp only at hdraining
    simp only [Server.loopDue, hdraining, Bool.or_eq_false_iff, decide_eq_false_iff_not] at hloop
    exact Nat.lt_of_not_le hloop.2
  · have hnow : s.due = true := due_of_aborting haborting (h.told haborting)
    rw [hnow] at hdue
    cases hdue
  · have hidle : c.due s.clock s.shutdown.isSome = false := by
      rcases hc with hc | hc
      · exact Bool.eq_false_iff.mpr fun hbusy =>
          Bool.eq_false_iff.mp hquiet (List.any_eq_true.mpr ⟨c, hc, hbusy⟩)
      · simp [Connection.due, h.joined c hc]
    exact (h.punctual c hc).tick (horder.sound c hc) hidle

/-- The connections of the next state, when no time passes. -/
theorem Timely.punctual_step (h : Timely settings s) (horder : Orderly settings s)
    (hstep : Step settings s s') (hclock : s'.clock = s.clock) (hc : s'.Accepted c) :
    Punctual settings s'.clock c := by
  rw [hclock]
  cases origin hstep hc with
  | stayed hc => exact h.punctual c hc
  | accepted hloop heq =>
    subst heq
    exact punctual_new
  | aborted before deadline hbefore hloop hdue heq =>
    subst heq
    exact (h.punctual before (.inl hbefore)).aborted
  | stepped before hbefore hstepped =>
    exact (h.punctual before (.inl hbefore)).step (horder.sound before (.inl hbefore)) hstepped

/-- While the loop goes on, `Timely` says only when the shutdown was requested. -/
theorem timely_going (hgoing : ¬s.loop.stops)
    (hnow : ∀ since, s.shutdown = some since → s.clock = since)
    (hjoined : ∀ c ∈ s.joined, c.phase = .finished)
    (hpunctual : ∀ c, s.Accepted c → Punctual settings s.clock c) : Timely settings s where
  going since hsince _ := hnow since hsince
  draining _ _ _ hloop := absurd (hloop ▸ trivial) hgoing
  aborting _ _ hloop := absurd (hloop ▸ trivial) hgoing
  told hloop := absurd (hloop ▸ trivial) hgoing
  joined := hjoined
  punctual := hpunctual

theorem Timely.turn (h : Timely settings s) (hturn : Turned settings s s')
    (hpunctual : ∀ c, s'.Accepted c → Punctual settings s'.clock c) : Timely settings s' := by
  cases hturn with
  | acquired hloop hfree heq =>
    subst heq
    exact timely_going not_false (fun since hsince => h.going since hsince (hloop ▸ not_false))
      h.joined hpunctual
  | accepted hloop heq =>
    subst heq
    exact timely_going not_false (fun since hsince => h.going since hsince (hloop ▸ not_false))
      h.joined hpunctual
  | failed hloop heq =>
    subst heq
    exact timely_going not_false (fun since hsince => h.going since hsince (hloop ▸ not_false))
      h.joined hpunctual
  | resumed wake hloop heq =>
    subst heq
    exact timely_going not_false (fun since hsince => h.going since hsince (hloop ▸ not_false))
      h.joined hpunctual
  | left asked hloop hshutdown heq =>
    have hnow := h.going asked hshutdown (going_of_serves hloop)
    subst heq
    refine ⟨fun since hsince hgoing => absurd trivial hgoing, fun since deadline hsince hdraining => ?_,
      fun since hsince haborting => (by cases haborting), fun haborting => (by cases haborting),
      h.joined, hpunctual⟩
    cases hdraining
    cases hshutdown.symm.trans hsince
    exact ⟨by rw [hnow], Nat.le_add_right _ _⟩
  | joined position taken hloop htaken hfinished heq =>
    subst heq
    refine ⟨h.going, h.draining, h.aborting, fun haborting c hc =>
      h.told haborting c (List.mem_of_mem_eraseIdx hc), fun c hc => ?_, hpunctual⟩
    rcases List.mem_cons.mp hc with rfl | hc
    · exact hfinished
    · exact h.joined c hc
  | reaped hloop hnone heq =>
    subst heq
    exact timely_going not_false (fun since hsince => h.going since hsince (hloop ▸ not_false))
      h.joined hpunctual
  | returned hloop hempty heq =>
    subst heq
    exact ⟨fun since hsince hgoing => absurd trivial hgoing, fun since deadline hsince hnow =>
      (by cases hnow), fun since hsince hnow => (by cases hnow), fun hnow => (by cases hnow),
      h.joined, hpunctual⟩
  | aborted deadline hloop hdue heq =>
    subst heq
    refine ⟨fun since hsince hgoing => absurd trivial hgoing, fun since deadline hsince hnow =>
      (by cases hnow), fun since hsince _ => ?_, fun _ c hc => ?_, h.joined, hpunctual⟩
    · obtain ⟨hdeadline, hle⟩ := h.draining since deadline hsince hloop
      exact hdeadline ▸ hle
    · obtain ⟨before, -, rfl⟩ := List.mem_map.mp hc
      rfl

theorem Timely.step (h : Timely settings s) (horder : Orderly settings s)
    (hstep : TimelyStep settings s s') : Timely settings s' := by
  obtain ⟨action, hstep, hdue⟩ := hstep
  have hany : Step settings s s' := ⟨action, hstep⟩
  cases action with
  | tick =>
    cases hstep
    exact h.tick horder (hdue rfl)
  | requestShutdown =>
    simp only [Server.step] at hstep
    split at hstep
    · next hnone =>
        cases hstep
        have hgoing : ¬s.loop.stops := by
          intro hstops
          have hasked := horder.stops hstops
          rw [hnone] at hasked
          cases hasked
        refine timely_going hgoing (fun since hsince => ?_) h.joined h.punctual
        cases hsince
        rfl
    · cases hstep
  | turn turn =>
    have hturn := turned hstep
    refine h.turn hturn fun c hc => h.punctual_step horder hany ?_ hc
    cases hturn
    all_goals
      subst_vars
      rfl
  | connection position deed =>
    obtain ⟨before, after, hserved⟩ := served hstep
    have hpunctual : ∀ c, s'.Accepted c → Punctual settings s'.clock c := fun c hc =>
      h.punctual_step horder hany (by rw [hserved.heq]) hc
    have heq := hserved.heq
    subst heq
    refine ⟨h.going, h.draining, h.aborting, fun haborting c hc => ?_, h.joined, hpunctual⟩
    rcases List.mem_or_eq_of_mem_set hc with hc | rfl
    · exact h.told haborting c hc
    · rw [aborted_step hserved.stepped]
      exact h.told haborting before hserved.mem

theorem step_of_timely (h : TimelyStep settings s s') : Step settings s s' := by
  obtain ⟨action, hstep, -⟩ := h
  exact ⟨action, hstep⟩

theorem timely_run (h : ReflTransGen (TimelyStep settings) (settings.boot clock) s) :
    Timely settings s ∧ Orderly settings s := by
  induction h with
  | refl => exact ⟨timely_boot, orderly_boot⟩
  | tail _ hstep ih => exact ⟨ih.1.step ih.2 hstep, ih.2.step (step_of_timely hstep)⟩

end Listener

section Progress

/-- A task that is due can be run. -/
theorem due_connection (settings : Settings) (hdue : c.due clock shutdown = true) :
    ∃ deed c', c.step settings clock shutdown deed = some c' := by
  have hcancel : c.aborted = true → c.live = true → ∃ deed c',
      c.step settings clock shutdown deed = some c' := fun haborted hlive =>
    ⟨.cancel, c.end clock .cancelled, by simp [Connection.step, haborted, hlive]⟩
  cases hphase : c.phase with
  | spawned => exact ⟨.poll, _, by simp [Connection.step, Connection.proceed, hphase]; rfl⟩
  | released => exact ⟨.finish, _, by simp [Connection.step, Connection.proceed, hphase]; rfl⟩
  | finished => simp [Connection.due, hphase] at hdue
  | handshake deadline =>
    simp only [Connection.due, hphase, Bool.or_eq_true_iff, decide_eq_true_eq] at hdue
    rcases hdue with (haborted | hshutdown) | hle
    · exact hcancel haborted (by simp [Connection.live, hphase])
    · exact ⟨.shutDown, c.end clock .shutDown, by
        simp [Connection.step, Connection.proceed, Connection.acceptTlsWithTimeout, hphase, hshutdown]⟩
    · exact ⟨.timeOut, c.end clock .timedOut, by
        simp [Connection.step, Connection.proceed, Connection.acceptTlsWithTimeout, hphase, hle]⟩
  | serving closing =>
    simp only [Connection.due, hphase, Bool.or_eq_true_iff] at hdue
    rcases hdue with haborted | hshutdown
    · exact hcancel haborted (by simp [Connection.live, hphase])
    · exact ⟨.shutDown, { c with phase := .serving true }, by
        simp [Connection.step, Connection.proceed, Connection.serveConnection, hphase, hshutdown]⟩
  | preface deadline pause =>
    simp only [Connection.due, hphase, Bool.or_eq_true_iff, decide_eq_true_eq] at hdue
    by_cases hundecided : c.undecided clock pause = true
    · rcases hdue with ((haborted | hshutdown) | hle) | hdecided
      · exact hcancel haborted (by simp [Connection.live, hphase])
      · exact ⟨.shutDown, c.end clock .shutDown, by
          simp [Connection.step, Connection.proceed, Connection.waitForProtocolPreface, hphase,
            hshutdown]⟩
      · exact ⟨.timeOut, c.end clock .timedOut, by
          simp [Connection.step, Connection.proceed, Connection.waitForProtocolPreface, hphase, hle,
            hundecided]⟩
      · rw [hundecided] at hdecided
        cases hdecided
    · cases pause with
      | some wake =>
        have hwake : wake ≤ clock := by simpa [Connection.undecided] using hundecided
        exact ⟨.wake, { c with phase := .preface deadline none }, by
          simp [Connection.step, Connection.proceed, Connection.waitForProtocolPreface, hphase, hwake]⟩
      | none =>
        have hpeek : c.stream.peek h2Preface.length ≠ .pending := by
          simpa [Connection.undecided] using hundecided
        refine ⟨.peek, ?_⟩
        simp only [Connection.step, Connection.proceed, Connection.waitForProtocolPreface, hphase]
        cases hcase : c.stream.peek h2Preface.length with
        | pending => exact absurd hcase hpeek
        | gone => exact ⟨_, rfl⟩
        | read bytes =>
          dsimp only
          split
          · exact ⟨_, rfl⟩
          · exact ⟨_, rfl⟩

theorem possible_of_finished (hloop : s.loop.joins)
    (h : s.connections.any Connection.isFinished = true) :
    ∃ action s', action ≠ .tick ∧ s.step settings action = some s' := by
  obtain ⟨c, hc, hfinished⟩ := List.any_eq_true.mp h
  obtain ⟨position, hposition⟩ := List.mem_iff_getElem?.mp hc
  refine ⟨.turn (.join position), ?_⟩
  cases hcase : s.loop with
  | acquiring => exact absurd hloop (hcase ▸ not_false)
  | accepting => exact absurd hloop (hcase ▸ not_false)
  | backingOff wake => exact absurd hloop (hcase ▸ not_false)
  | returned => exact absurd hloop (hcase ▸ not_false)
  | _ =>
    simp only [Server.step, Server.serveListener, hcase, Server.join, hposition, hfinished, if_true]
    exact ⟨_, Action.noConfusion, rfl⟩

theorem possible_of_loopDue (hdue : s.loopDue = true) :
    ∃ action s', action ≠ .tick ∧ s.step settings action = some s' := by
  have hleave : s.loop.serves → s.shutdown.isSome = true →
      ∃ action s', action ≠ .tick ∧ s.step settings action = some s' := by
    intro hserves hshutdown
    refine ⟨.turn .stop, ?_⟩
    cases hloop : s.loop with
    | acquiring =>
      simp only [Server.step, Server.serveListener, hloop, Server.leaveLoop, hshutdown, if_true]
      exact ⟨_, Action.noConfusion, rfl⟩
    | accepting =>
      simp only [Server.step, Server.serveListener, hloop, Server.leaveLoop, hshutdown, if_true]
      exact ⟨_, Action.noConfusion, rfl⟩
    | backingOff wake =>
      simp only [Server.step, Server.serveListener, hloop, Server.leaveLoop, hshutdown, if_true]
      exact ⟨_, Action.noConfusion, rfl⟩
    | _ =>
      rw [hloop] at hserves
      exact hserves.elim
  cases hloop : s.loop with
  | acquiring =>
    simp only [Server.loopDue, hloop, Bool.or_eq_true_iff, decide_eq_true_eq] at hdue
    rcases hdue with hshutdown | hfree
    · exact hleave (hloop ▸ trivial) hshutdown
    · refine ⟨.turn .acquire, { s with permits := s.permits - 1, loop := .accepting },
        Action.noConfusion, ?_⟩
      simp [Server.step, Server.serveListener, hloop, hfree]
  | accepting =>
    simp only [Server.loopDue, hloop] at hdue
    exact hleave (hloop ▸ trivial) hdue
  | backingOff wake =>
    simp only [Server.loopDue, hloop, Bool.or_eq_true_iff, decide_eq_true_eq] at hdue
    rcases hdue with hshutdown | hwake
    · exact hleave (hloop ▸ trivial) hshutdown
    · refine ⟨.turn .resume, { s with permits := s.permits + 1, loop := .acquiring },
        Action.noConfusion, ?_⟩
      simp [Server.step, Server.serveListener, hloop, hwake]
  | reaping =>
    by_cases hfinished : s.connections.any Connection.isFinished = true
    · exact possible_of_finished (hloop ▸ trivial) hfinished
    · refine ⟨.turn .proceed, { s with loop := .acquiring }, Action.noConfusion, ?_⟩
      simp only [Server.step, Server.serveListener, hloop]
      rw [if_neg hfinished]
  | draining deadline =>
    simp only [Server.loopDue, hloop, Bool.or_eq_true_iff, decide_eq_true_eq] at hdue
    by_cases hempty : s.connections = []
    · refine ⟨.turn .proceed, { s with loop := .returned }, Action.noConfusion, ?_⟩
      simp [Server.step, Server.serveListener, hloop, hempty]
    · by_cases hfinished : s.connections.any Connection.isFinished = true
      · exact possible_of_finished (hloop ▸ trivial) hfinished
      · have hle : deadline ≤ s.clock :=
          (hdue.resolve_left fun hleft => hleft.elim hempty hfinished)
        refine ⟨.turn .elapse, ?_⟩
        simp only [Server.step, Server.serveListener, hloop, hle, hempty,
          Bool.eq_false_iff.mpr hfinished, decide_true, ne_eq, not_false_eq_true, Bool.not_false,
          Bool.and_self, if_true]
        exact ⟨_, Action.noConfusion, rfl⟩
  | aborting =>
    simp only [Server.loopDue, hloop, Bool.or_eq_true_iff, decide_eq_true_eq] at hdue
    rcases hdue with hempty | hfinished
    · refine ⟨.turn .proceed, { s with loop := .returned }, Action.noConfusion, ?_⟩
      simp [Server.step, Server.serveListener, hloop, hempty]
    · exact possible_of_finished (hloop ▸ trivial) hfinished
  | returned => simp [Server.loopDue, hloop] at hdue

/-- Time is never stuck: what is due can happen. -/
theorem due_possible (hworkers : 0 < settings.workers) (hdue : s.due = true) :
    ∃ action s', action ≠ .tick ∧ s.step settings action = some s' := by
  rcases Bool.or_eq_true_iff.mp hdue with hloop | hconnection
  · exact possible_of_loopDue hloop
  obtain ⟨c, hc, hbusy⟩ := List.any_eq_true.mp hconnection
  obtain ⟨position, hposition⟩ := List.mem_iff_getElem?.mp hc
  obtain ⟨deed, c', hstep⟩ := due_connection settings hbusy
  by_cases hfree : (c.live && !c'.live) = true →
      s.connections.countP (fun c => c.phase = .released) < settings.workers
  · refine ⟨.connection position deed, ?_⟩
    simp only [Server.step, Server.stepConnection, hposition, hstep]
    split
    · next hends =>
        rw [if_pos (hfree hends)]
        exact ⟨_, Action.noConfusion, rfl⟩
    · exact ⟨_, Action.noConfusion, rfl⟩
  · -- Every worker is busy with a task that is over, so one of these can finish.
    rw [Classical.not_imp] at hfree
    have hover : 0 < s.connections.countP (fun c => c.phase = .released) := by
      omega
    obtain ⟨d, hd, hphase⟩ := List.countP_pos_iff.mp hover
    obtain ⟨other, hother⟩ := List.mem_iff_getElem?.mp hd
    refine ⟨.connection other .finish, ?_⟩
    simp only [Server.step, Server.stepConnection, hother, Connection.step, Connection.proceed,
      of_decide_eq_true hphase, if_true, Connection.live, Bool.false_and, Bool.false_eq_true, if_false]
    exact ⟨_, Action.noConfusion, rfl⟩

end Progress

section Laws

/-- After the grace period of a shutdown the listener is gone. -/
theorem shutdown_in_time (h : ReflTransGen (TimelyStep settings) (settings.boot clock) s) {asked : ℕ}
    (hasked : s.shutdown = some asked) (hlate : asked + settings.shutdownGracePeriod < s.clock) :
    s.loop = .returned ∧ s.connections = [] := by
  obtain ⟨htimely, horder⟩ := timely_run h
  have hstops : s.loop.stops := by
    by_contra hgoing
    have hnow := htimely.going asked hasked hgoing
    omega
  have hreturned : s.loop = .returned := by
    cases hloop : s.loop with
    | draining deadline =>
      obtain ⟨hdeadline, hle⟩ := htimely.draining asked deadline hasked hloop
      omega
    | aborting =>
      have hle := htimely.aborting asked hasked hloop
      omega
    | returned => rfl
    | _ =>
      rw [hloop] at hstops
      exact hstops.elim
  exact ⟨hreturned, horder.returned hreturned⟩

/-- The task has not got a request yet. -/
def Connection.waits (c : Connection) : Prop :=
  c.phase = .spawned ∨ (∃ deadline, c.phase = .handshake deadline) ∨
    ∃ deadline pause, c.phase = .preface deadline pause

/-- The wait for the first bytes of a request. -/
structure PrefaceLaw (settings : Settings) (clock : ℕ) (c : Connection) : Prop where
  /-- It ends with the timeout. -/
  bounded : c.waits → clock ≤ c.accepted + settings.handshakeTimeout
  /-- Without TLS, only a connection with a decided protocol is served. -/
  served : settings.tls = false → ∀ closing, c.phase = .serving closing → c.stream.decided = true
  /-- Without TLS, who is timed out had decided nothing 20 ms earlier. -/
  timedOut : ∀ since, c.ending = some (.timedOut, since) →
    since = c.accepted + settings.handshakeTimeout ∧
      (settings.tls = false → ∀ decided, c.decidedAt = some decided → since < decided + prefacePoll)

/-- In every timely run, the wait for a request ends in time. -/
theorem preface_in_time (h : ReflTransGen (TimelyStep settings) (settings.boot clock) s)
    (hc : s.Accepted c) : PrefaceLaw settings s.clock c := by
  obtain ⟨htimely, horder⟩ := timely_run h
  have hpunctual := htimely.punctual c hc
  refine ⟨fun hwaits => ?_, (horder.sound c hc).served, hpunctual.timedOut⟩
  rcases hwaits with hphase | ⟨deadline, hphase⟩ | ⟨deadline, pause, hphase⟩
  · rw [hpunctual.spawned hphase]
    exact Nat.le_add_right _ _
  · obtain ⟨rfl, hle⟩ := hpunctual.handshake deadline hphase
    exact hle
  · obtain ⟨rfl, hle⟩ := hpunctual.preface deadline pause hphase
    exact hle

/-- The listener ends although a connection is still served. -/
theorem shutdown_in_time_plain :
    let settings : Settings := ⟨false, 1, 2, 1, 1⟩
    ∃ s, ReflTransGen (TimelyStep settings) (settings.boot 0) s ∧ s.shutdown = some 0 ∧
      s.clock = 2 ∧ s.loop = .returned ∧ s.connections = [] := by
  let settings : Settings := ⟨false, 1, 2, 1, 1⟩
  let actions : List Action := [.turn .acquire, .turn .accept, .turn .proceed,
    .connection 0 .poll, .connection 0 (.arrive [71]), .connection 0 .peek, .requestShutdown,
    .turn .stop, .connection 0 .shutDown, .tick, .turn .elapse, .connection 0 .cancel,
    .connection 0 .finish, .turn (.join 0), .turn .proceed, .tick]
  have hsome : ((settings.boot 0).runs settings true actions).isSome = true := by decide
  obtain ⟨s, hs⟩ := Option.isSome_iff_exists.mp hsome
  have hend : ((settings.boot 0).runs settings true actions).map (fun s =>
      (s.shutdown, s.clock)) = some (some 0, 2) := by decide
  rw [hs] at hend
  have hshutdown : s.shutdown = some 0 := congrArg Prod.fst (Option.some.inj hend)
  have hclock : s.clock = 2 := congrArg Prod.snd (Option.some.inj hend)
  have hrun := timelyRun_of_runs hs
  exact ⟨s, hrun, hshutdown, hclock, shutdown_in_time hrun hshutdown (by rw [hclock]; decide)⟩

/-- A client that sends a part of the HTTP/2 preface is timed out. -/
theorem preface_in_time_plain :
    let settings : Settings := ⟨false, 1, 2, 1, 1⟩
    ∃ s c, ReflTransGen (TimelyStep settings) (settings.boot 0) s ∧ s.connections = [c] ∧
      c.ending = some (.timedOut, 2) ∧ PrefaceLaw settings s.clock c := by
  let settings : Settings := ⟨false, 1, 2, 1, 1⟩
  let actions : List Action := [.turn .acquire, .turn .accept, .turn .proceed,
    .connection 0 .poll, .connection 0 (.arrive [80]), .connection 0 .peek, .tick, .tick,
    .connection 0 .timeOut]
  have hsome : ((settings.boot 0).runs settings true actions).isSome = true := by decide
  obtain ⟨s, hs⟩ := Option.isSome_iff_exists.mp hsome
  have hend : ((settings.boot 0).runs settings true actions).map (fun s =>
      (s.connections.length, s.connections.map Connection.ending)) =
        some (1, [some (.timedOut, 2)]) := by decide
  rw [hs] at hend
  obtain ⟨c, hc⟩ := List.length_eq_one_iff.mp (congrArg Prod.fst (Option.some.inj hend))
  have hending : s.connections.map Connection.ending = [some (.timedOut, 2)] :=
    congrArg Prod.snd (Option.some.inj hend)
  rw [hc] at hending
  have hrun := timelyRun_of_runs hs
  have hmem : c ∈ s.connections := by
    rw [hc]
    exact List.mem_singleton_self c
  exact ⟨s, c, hrun, hc, (List.cons.inj hending).1, preface_in_time hrun (.inl hmem)⟩

end Laws

end OpenTfMirror.ConnectionServer
