import OpenTfMirror.ConnectionSteps

/-!
# The order of a shutdown

However the runtime schedules the tasks, only a shutdown ends the listener, after
all its tasks, and no task is cancelled before the grace period is over. A plain
connection is served only when its first bytes decide the protocol.
-/

namespace OpenTfMirror.ConnectionServer

open FileStore Relation

variable {settings : Settings} {clock : ℕ} {shutdown : Bool} {c c' : Connection} {s s' : Server}

section Sound

/-- What is true of a connection under any scheduling. -/
structure Sound (settings : Settings) (clock : ℕ) (c : Connection) : Prop where
  decided : c.decidedAt = none ↔ c.stream.decided = false
  born : c.accepted ≤ clock
  past : ∀ since, c.decidedAt = some since → c.accepted ≤ since ∧ since ≤ clock
  plain : settings.tls = true → ∀ deadline pause, c.phase ≠ .preface deadline pause
  secured : settings.tls = false → ∀ deadline, c.phase ≠ .handshake deadline
  served : settings.tls = false → ∀ closing, c.phase = .serving closing → c.stream.decided = true
  ended : ∀ cause since, c.ending = some (cause, since) → since ≤ clock

theorem sound_new : Sound settings clock (.new clock) where
  decided := ⟨fun _ => rfl, fun _ => rfl⟩
  born := Nat.le_refl _
  past _ h := by cases h
  plain _ _ _ h := by cases h
  secured _ _ h := by cases h
  served _ _ h := by cases h
  ended _ _ h := by cases h

theorem Sound.later (h : Sound settings clock c) {clock' : ℕ} (hle : clock ≤ clock') :
    Sound settings clock' c :=
  { h with
    born := Nat.le_trans h.born hle
    past := fun since hsince => (h.past since hsince).imp_right fun hpast => Nat.le_trans hpast hle
    ended := fun cause since hsince => Nat.le_trans (h.ended cause since hsince) hle }

theorem Sound.aborted (h : Sound settings clock c) :
    Sound settings clock { c with aborted := true } :=
  ⟨h.decided, h.born, h.past, h.plain, h.secured, h.served, h.ended⟩

/-- The record of when the protocol was decided is kept. -/
theorem carry_decidedAt (h : Sound settings clock c) {stream : Stream}
    (hgrows : c.stream.received <+: stream.received) :
    ((c.carry clock stream).decidedAt = none ↔ stream.decided = false) ∧
      ∀ since, (c.carry clock stream).decidedAt = some since →
        c.decidedAt = some since ∨ c.decidedAt = none ∧ since = clock := by
  unfold Connection.carry
  dsimp only
  cases hwas : c.decidedAt with
  | some before =>
    have hdecided : stream.decided = true := by
      cases hstream : c.stream.decided with
      | true => exact decided_mono hgrows hstream
      | false =>
        rw [h.decided.mpr hstream] at hwas
        cases hwas
    rw [hdecided]
    exact ⟨⟨fun h => (by cases h), fun h => (by cases h)⟩, fun since hsince => .inl hsince⟩
  | none =>
    cases hdecided : stream.decided with
    | true =>
      refine ⟨⟨fun h => (by cases h), fun h => (by cases h)⟩, fun since hsince => .inr ⟨rfl, ?_⟩⟩
      cases hsince
      rfl
    | false => exact ⟨⟨fun _ => rfl, fun _ => rfl⟩, fun since hsince => (by cases hsince)⟩

theorem Sound.step (h : Sound settings clock c) (hstep : Stepped settings clock shutdown c c') :
    Sound settings clock c' := by
  cases hstep with
  | streamed stream hgrows heq =>
    subst heq
    obtain ⟨hdecided, hsince⟩ := carry_decidedAt h hgrows
    refine ⟨hdecided, h.born, fun since hwhen => ?_, h.plain, h.secured, fun htls closing hphase => ?_, h.ended⟩
    · rcases hsince since hwhen with hbefore | ⟨-, rfl⟩
      · exact h.past since hbefore
      · exact ⟨h.born, Nat.le_refl _⟩
    · exact decided_mono hgrows (h.served htls closing hphase)
  | started hphase heq =>
    subst heq
    refine ⟨h.decided, h.born, h.past, fun htls deadline pause hnow => ?_, fun htls deadline hnow => ?_,
      fun htls closing hnow => ?_, h.ended⟩
    all_goals
      rw [htls] at hnow
      cases hnow
  | shookHands deadline hphase heq =>
    subst heq
    exact ⟨h.decided, h.born, h.past, fun _ _ _ hnow => (by cases hnow), fun _ _ hnow => (by cases hnow),
      fun htls _ _ => absurd hphase (h.secured htls deadline), h.ended⟩
  | decided deadline hphase hdecided heq =>
    subst heq
    exact ⟨h.decided, h.born, h.past, fun _ _ _ hnow => (by cases hnow), fun _ _ hnow => (by cases hnow),
      fun _ _ _ => hdecided, h.ended⟩
  | paused deadline hphase hundecided heq =>
    subst heq
    exact ⟨h.decided, h.born, h.past, fun htls _ _ _ => h.plain htls _ _ hphase,
      fun _ _ hnow => (by cases hnow), fun _ _ hnow => (by cases hnow), h.ended⟩
  | woke deadline wake hphase hwake heq =>
    subst heq
    exact ⟨h.decided, h.born, h.past, fun htls _ _ _ => h.plain htls _ _ hphase,
      fun _ _ hnow => (by cases hnow), fun _ _ hnow => (by cases hnow), h.ended⟩
  | closing hphase hshutdown heq =>
    subst heq
    exact ⟨h.decided, h.born, h.past, fun _ _ _ hnow => (by cases hnow), fun _ _ hnow => (by cases hnow),
      fun htls _ _ => h.served htls _ hphase, h.ended⟩
  | ended cause hlive hcause heq =>
    subst heq
    refine ⟨h.decided, h.born, h.past, fun _ _ _ hnow => (by cases hnow), fun _ _ hnow => (by cases hnow),
      fun _ _ hnow => (by cases hnow), fun cause since hsince => ?_⟩
    cases hsince
    exact Nat.le_refl _
  | finished hphase heq =>
    subst heq
    exact ⟨h.decided, h.born, h.past, fun _ _ _ hnow => (by cases hnow), fun _ _ hnow => (by cases hnow),
      fun _ _ hnow => (by cases hnow), h.ended⟩

end Sound

section Everywhere

/-- The connection was accepted: its task is in the set, or was taken out of it. -/
def Server.Accepted (s : Server) (c : Connection) : Prop := c ∈ s.connections ∨ c ∈ s.joined

/-- Where a connection of the next state comes from. -/
inductive Origin (settings : Settings) (s : Server) (c : Connection) : Prop
  | stayed (h : s.Accepted c)
  | accepted (hloop : s.loop = .accepting) (heq : c = .new s.clock)
  | aborted (before : Connection) (deadline : ℕ) (h : before ∈ s.connections)
      (hloop : s.loop = .draining deadline) (hdue : deadline ≤ s.clock)
      (heq : c = { before with aborted := true })
  | stepped (before : Connection) (h : before ∈ s.connections)
      (hstep : Stepped settings s.clock s.shutdown.isSome before c)

theorem origin_turn (hturn : Turned settings s s') (h : s'.Accepted c) : Origin settings s c := by
  cases hturn with
  | accepted hloop heq =>
    subst heq
    rcases h with h | h
    · rcases List.mem_append.mp h with h | h
      · exact .stayed (.inl h)
      · exact .accepted hloop (List.mem_singleton.mp h)
    · exact .stayed (.inr h)
  | joined position taken hloop htaken hfinished heq =>
    subst heq
    rcases h with h | h
    · exact .stayed (.inl (List.mem_of_mem_eraseIdx h))
    · rcases List.mem_cons.mp h with rfl | h
      · exact .stayed (.inl (List.mem_of_getElem? htaken))
      · exact .stayed (.inr h)
  | aborted deadline hloop hdue heq =>
    subst heq
    rcases h with h | h
    · obtain ⟨before, hbefore, rfl⟩ := List.mem_map.mp h
      exact .aborted before deadline hbefore hloop hdue rfl
    · exact .stayed (.inr h)
  | _ =>
    subst_vars
    exact .stayed h

theorem origin (hstep : Step settings s s') (h : s'.Accepted c) : Origin settings s c := by
  obtain ⟨action, hstep⟩ := hstep
  cases action with
  | tick =>
    cases hstep
    exact .stayed h
  | requestShutdown =>
    simp only [Server.step] at hstep
    split at hstep
    · cases hstep
      exact .stayed h
    · cases hstep
  | turn turn => exact origin_turn (turned hstep) h
  | connection position deed =>
    obtain ⟨before, after, hserved⟩ := served hstep
    have heq := hserved.heq
    subst heq
    rcases h with h | h
    · rcases List.mem_or_eq_of_mem_set h with h | rfl
      · exact .stayed (.inl h)
      · exact .stepped before hserved.mem hserved.stepped
    · exact .stayed (.inr h)

/-- What a step did to the clock and the shutdown. -/
theorem clock_step (hstep : Step settings s s') :
    s.clock ≤ s'.clock ∧ ∀ since, s'.shutdown = some since →
      s.shutdown = some since ∨ s.shutdown = none ∧ since = s.clock := by
  obtain ⟨action, hstep⟩ := hstep
  cases action with
  | tick =>
    cases hstep
    exact ⟨Nat.le_succ _, fun _ h => .inl h⟩
  | requestShutdown =>
    simp only [Server.step] at hstep
    split at hstep
    · next hnone =>
        cases hstep
        exact ⟨Nat.le_refl _, fun since h => .inr ⟨hnone, by cases h; rfl⟩⟩
    · cases hstep
  | turn turn =>
    have hturn := turned hstep
    cases hturn
    all_goals
      subst_vars
      exact ⟨Nat.le_refl _, fun _ h => .inl h⟩
  | connection position deed =>
    obtain ⟨before, after, hserved⟩ := served hstep
    have heq := hserved.heq
    subst heq
    exact ⟨Nat.le_refl _, fun _ h => .inl h⟩

theorem shutdown_step (hstep : Step settings s s') {since : ℕ} (h : s.shutdown = some since) :
    s'.shutdown = some since := by
  obtain ⟨action, hstep⟩ := hstep
  cases action with
  | tick =>
    cases hstep
    exact h
  | requestShutdown =>
    simp only [Server.step, h, reduceCtorEq, if_false] at hstep
  | turn turn =>
    have hturn := turned hstep
    cases hturn
    all_goals
      subst_vars
      exact h
  | connection position deed =>
    obtain ⟨before, after, hserved⟩ := served hstep
    have heq := hserved.heq
    subst heq
    exact h

/-- The grace period after the shutdown was over then. -/
def Server.graceOver (settings : Settings) (s : Server) (instant : ℕ) : Prop :=
  ∃ since, s.shutdown = some since ∧ since + settings.shutdownGracePeriod ≤ instant

theorem graceOver_step (hstep : Step settings s s') {instant : ℕ} (h : s.graceOver settings instant) :
    s'.graceOver settings instant := by
  obtain ⟨since, hsince, hle⟩ := h
  exact ⟨since, shutdown_step hstep hsince, hle⟩

/-- The loop is left only for a shutdown, and for nothing before its time. -/
structure LoopOrder (settings : Settings) (s : Server) : Prop where
  stops : s.loop.stops → s.shutdown.isSome = true
  draining : ∀ deadline, s.loop = .draining deadline → s.graceOver settings deadline
  aborting : s.loop = .aborting → s.graceOver settings s.clock
  returned : s.loop = .returned → s.connections = []
  spared : ∀ c ∈ s.connections, c.aborted = true → s.loop = .aborting

/-- Nothing is ended before its time. -/
structure Orderly (settings : Settings) (s : Server) : Prop extends LoopOrder settings s where
  past : ∀ since, s.shutdown = some since → since ≤ s.clock
  sound : ∀ c, s.Accepted c → Sound settings s.clock c
  cancelled : ∀ c, s.Accepted c → ∀ since, c.ending = some (.cancelled, since) →
    s.graceOver settings since
  shutDown : ∀ c, s.Accepted c → ∀ since, c.ending = some (.shutDown, since) →
    ∃ asked, s.shutdown = some asked ∧ asked ≤ since

theorem orderly_boot : Orderly settings (settings.boot clock) where
  past _ h := by cases h
  stops h := h.elim
  draining _ h := by cases h
  aborting h := by cases h
  returned h := by cases h
  spared _ h := by cases h
  sound _ h := by rcases h with h | h <;> cases h
  cancelled _ h := by rcases h with h | h <;> cases h
  shutDown _ h := by rcases h with h | h <;> cases h

/-- What an ended task says of itself, after a step of it. -/
theorem ending_step (hstep : Stepped settings clock shutdown c c') {cause : Cause} {since : ℕ}
    (h : c'.ending = some (cause, since)) :
    c.ending = some (cause, since) ∨ since = clock ∧ Ends clock shutdown c cause := by
  cases hstep with
  | ended how hlive hcause heq =>
    subst heq
    cases h
    exact .inr ⟨rfl, hcause⟩
  | _ =>
    subst_vars
    exact .inl h

theorem Orderly.sound_step (h : Orderly settings s) (hstep : Step settings s s')
    (hc : s'.Accepted c) : Sound settings s'.clock c := by
  refine Sound.later ?_ (clock_step hstep).1
  cases origin hstep hc with
  | stayed hc => exact h.sound c hc
  | accepted hloop heq =>
    subst heq
    exact sound_new
  | aborted before deadline hbefore hloop hdue heq =>
    subst heq
    exact (h.sound before (.inl hbefore)).aborted
  | stepped before hbefore hstepped => exact (h.sound before (.inl hbefore)).step hstepped

theorem Orderly.cancelled_step (h : Orderly settings s) (hstep : Step settings s s')
    (hc : s'.Accepted c) {since : ℕ} (hended : c.ending = some (.cancelled, since)) :
    s'.graceOver settings since := by
  refine graceOver_step hstep ?_
  cases origin hstep hc with
  | stayed hc => exact h.cancelled c hc since hended
  | accepted hloop heq =>
    subst heq
    cases hended
  | aborted before deadline hbefore hloop hdue heq =>
    subst heq
    exact h.cancelled before (.inl hbefore) since hended
  | stepped before hbefore hstepped =>
    rcases ending_step hstepped hended with hended | ⟨rfl, haborted⟩
    · exact h.cancelled before (.inl hbefore) since hended
    · exact h.aborting (h.spared before hbefore haborted)

theorem Orderly.shutDown_step (h : Orderly settings s) (hstep : Step settings s s')
    (hc : s'.Accepted c) {since : ℕ} (hended : c.ending = some (.shutDown, since)) :
    ∃ asked, s'.shutdown = some asked ∧ asked ≤ since := by
  have hbefore : ∃ asked, s.shutdown = some asked ∧ asked ≤ since := by
    cases origin hstep hc with
    | stayed hc => exact h.shutDown c hc since hended
    | accepted hloop heq =>
      subst heq
      cases hended
    | aborted before deadline hbefore hloop hdue heq =>
      subst heq
      exact h.shutDown before (.inl hbefore) since hended
    | stepped before hbefore hstepped =>
      rcases ending_step hstepped hended with hended | ⟨rfl, hshutdown⟩
      · exact h.shutDown before (.inl hbefore) since hended
      · obtain ⟨asked, hasked⟩ := Option.isSome_iff_exists.mp hshutdown
        exact ⟨asked, hasked, h.past asked hasked⟩
  obtain ⟨asked, hasked, hle⟩ := hbefore
  exact ⟨asked, shutdown_step hstep hasked, hle⟩

/-- Aborting a task again changes nothing about when that happens. -/
theorem aborted_step (hstep : Stepped settings clock shutdown c c') : c'.aborted = c.aborted := by
  cases hstep
  all_goals
    subst_vars
    rfl

/-- While the loop goes on, nothing was aborted. -/
theorem Orderly.unaborted (h : Orderly settings s) (hloop : ¬s.loop.stops) :
    ∀ c ∈ s.connections, c.aborted ≠ true := by
  intro c hc haborted
  rw [h.spared c hc haborted] at hloop
  exact hloop trivial

theorem going_of_serves {loop : Loop} (h : loop.serves) : ¬loop.stops := by
  intro hstops
  cases loop
  all_goals first | exact h | exact hstops

theorem loopOrder_going (hloop : ¬s.loop.stops) (hspared : ∀ c ∈ s.connections, c.aborted ≠ true) :
    LoopOrder settings s where
  stops hstops := absurd hstops hloop
  draining _ hnow := absurd (hnow ▸ trivial) hloop
  aborting hnow := absurd (hnow ▸ trivial) hloop
  returned hnow := absurd (hnow ▸ trivial) hloop
  spared c hc haborted := absurd haborted (hspared c hc)

theorem Orderly.loop_turn (h : Orderly settings s) (hturn : Turned settings s s') :
    LoopOrder settings s' := by
  cases hturn with
  | acquired hloop hfree heq =>
    subst heq
    exact loopOrder_going not_false (h.unaborted (hloop ▸ not_false))
  | accepted hloop heq =>
    subst heq
    refine loopOrder_going not_false fun c hc => ?_
    rcases List.mem_append.mp hc with hc | hc
    · exact h.unaborted (hloop ▸ not_false) c hc
    · rw [List.mem_singleton.mp hc]
      exact Bool.false_ne_true
  | failed hloop heq =>
    subst heq
    exact loopOrder_going not_false (h.unaborted (hloop ▸ not_false))
  | resumed wake hloop heq =>
    subst heq
    exact loopOrder_going not_false (h.unaborted (hloop ▸ not_false))
  | left since hloop hshutdown heq =>
    have hgoing := going_of_serves hloop
    subst heq
    refine ⟨fun _ => Option.isSome_iff_exists.mpr ⟨since, hshutdown⟩, fun deadline hnow => ?_,
      fun hnow => (by cases hnow), fun hnow => (by cases hnow),
      fun c hc haborted => absurd haborted (h.unaborted hgoing c hc)⟩
    cases hnow
    exact ⟨since, hshutdown, Nat.add_le_add_right (h.past since hshutdown) _⟩
  | joined position c hloop hc hfinished heq =>
    subst heq
    refine ⟨h.stops, h.draining, h.aborting, fun hnow => ?_, fun c hc =>
      h.spared c (List.mem_of_mem_eraseIdx hc)⟩
    rw [show s.loop = .returned from hnow] at hloop
    exact hloop.elim
  | reaped hloop hnone heq =>
    subst heq
    exact loopOrder_going not_false (h.unaborted (hloop ▸ not_false))
  | returned hloop hempty heq =>
    have hstops : s.loop.stops := by
      rcases hloop with hloop | ⟨deadline, hloop⟩ <;> exact hloop ▸ trivial
    subst heq
    refine ⟨fun _ => h.stops hstops, fun _ hnow => (by cases hnow), fun hnow => (by cases hnow),
      fun _ => hempty, fun c hc => ?_⟩
    dsimp only at hc
    rw [hempty] at hc
    cases hc
  | aborted deadline hloop hdue heq =>
    obtain ⟨since, hsince, hle⟩ := h.draining deadline hloop
    subst heq
    exact ⟨fun _ => h.stops (hloop ▸ trivial), fun _ hnow => (by cases hnow),
      fun _ => ⟨since, hsince, Nat.le_trans hle hdue⟩, fun hnow => (by cases hnow), fun _ _ _ => rfl⟩

theorem Orderly.loop_step (h : Orderly settings s) (hstep : Step settings s s') :
    LoopOrder settings s' := by
  obtain ⟨action, hstep⟩ := hstep
  cases action with
  | tick =>
    cases hstep
    refine ⟨h.stops, h.draining, fun hloop => ?_, h.returned, h.spared⟩
    obtain ⟨since, hsince, hle⟩ := h.aborting hloop
    exact ⟨since, hsince, Nat.le_succ_of_le hle⟩
  | requestShutdown =>
    simp only [Server.step] at hstep
    split at hstep
    · next hnone =>
        cases hstep
        have hgoing : ¬s.loop.stops := by
          intro hstops
          have hasked := h.stops hstops
          rw [hnone] at hasked
          cases hasked
        exact loopOrder_going hgoing (h.unaborted hgoing)
    · cases hstep
  | turn turn => exact h.loop_turn (turned hstep)
  | connection position deed =>
    obtain ⟨before, after, hserved⟩ := served hstep
    have heq := hserved.heq
    subst heq
    refine ⟨h.stops, h.draining, h.aborting, fun hnow => ?_, fun c hc haborted => ?_⟩
    · have hmem := hserved.mem
      rw [h.returned hnow] at hmem
      cases hmem
    · rcases List.mem_or_eq_of_mem_set hc with hc | rfl
      · exact h.spared c hc haborted
      · rw [aborted_step hserved.stepped] at haborted
        exact h.spared before hserved.mem haborted

theorem Orderly.step (h : Orderly settings s) (hstep : Step settings s s') : Orderly settings s' := by
  refine ⟨h.loop_step hstep, fun since hsince => ?_, fun c hc => h.sound_step hstep hc, fun c hc since hended =>
    h.cancelled_step hstep hc hended, fun c hc since hended => h.shutDown_step hstep hc hended⟩
  obtain ⟨hclock, hshutdown⟩ := clock_step hstep
  rcases hshutdown since hsince with hsince | ⟨-, rfl⟩
  · exact Nat.le_trans (h.past since hsince) hclock
  · exact hclock

/-- Every run keeps to the order. -/
theorem orderly_run (h : ReflTransGen (Step settings) (settings.boot clock) s) :
    Orderly settings s := by
  induction h with
  | refl => exact orderly_boot
  | tail _ hstep ih => exact ih.step hstep

theorem accounts_run (h : ReflTransGen (Step settings) (settings.boot clock) s) :
    Accounts settings s := by
  induction h with
  | refl => exact accounts_boot
  | tail _ hstep ih => exact ih.step hstep

end Everywhere

section Laws

/-- The permits are accounted for, and the set of tasks is small. -/
structure ConnectionLaw (settings : Settings) (s : Server) : Prop where
  permits : s.permits + s.loop.held + s.connections.countP Connection.live = settings.capacity
  tasks : s.connections.length ≤ settings.capacity + settings.workers + 1

/-- In every run, no more connections hold permits than there are, and hardly
more tasks are kept. -/
theorem connections_bounded (h : ReflTransGen (Step settings) (settings.boot clock) s) :
    ConnectionLaw settings s := by
  have haccounts := accounts_run h
  have htasks := haccounts.tasks
  refine ⟨haccounts.permits, Nat.le_trans htasks ?_⟩
  split <;> omega

/-- One connection is served while the loop waits for the permit. -/
theorem connections_bounded_plain :
    let settings : Settings := ⟨false, 1, tlsHandshakeTimeout, shutdownGracePeriod, 1⟩
    ∃ s, ReflTransGen (Step settings) (settings.boot 0) s ∧ ConnectionLaw settings s ∧
      s.permits = 0 ∧ s.connections.countP Connection.live = 1 := by
  let settings : Settings := ⟨false, 1, tlsHandshakeTimeout, shutdownGracePeriod, 1⟩
  let actions : List Action := [.turn .acquire, .turn .accept, .turn .proceed,
    .connection 0 .poll, .connection 0 (.arrive [71]), .connection 0 .peek]
  have hsome : ((settings.boot 0).runs settings false actions).isSome = true := by decide
  obtain ⟨s, hs⟩ := Option.isSome_iff_exists.mp hsome
  have hrun := run_of_runs hs
  refine ⟨s, hrun, connections_bounded hrun, ?_⟩
  have hend : ((settings.boot 0).runs settings false actions).map (fun s =>
      (s.permits, s.connections.countP Connection.live)) = some (0, 1) := by decide
  rw [hs] at hend
  exact ⟨congrArg Prod.fst (Option.some.inj hend), congrArg Prod.snd (Option.some.inj hend)⟩

/-- How a listener ends. -/
structure ShutdownLaw (settings : Settings) (s : Server) : Prop where
  /-- Only a shutdown ends the loop. -/
  asked : s.loop.stops → s.shutdown.isSome = true
  /-- No task and no permit is left behind. -/
  returned : s.loop = .returned → s.connections = [] ∧ s.permits = settings.capacity
  /-- Nothing is cancelled within the grace period. -/
  cancelled : ∀ c, s.Accepted c → ∀ since, c.ending = some (.cancelled, since) →
    s.graceOver settings since
  /-- No wait for a request is given up before the shutdown. -/
  shutDown : ∀ c, s.Accepted c → ∀ since, c.ending = some (.shutDown, since) →
    ∃ asked, s.shutdown = some asked ∧ asked ≤ since

/-- In every run, the listener ends in order. -/
theorem shutdown_in_order (h : ReflTransGen (Step settings) (settings.boot clock) s) :
    ShutdownLaw settings s := by
  have horder := orderly_run h
  refine ⟨horder.stops, fun hreturned => ?_, horder.cancelled, horder.shutDown⟩
  have hempty := horder.returned hreturned
  have hpermits := (accounts_run h).permits
  rw [hreturned, hempty] at hpermits
  exact ⟨hempty, hpermits⟩

/-- A connection that is still served is cancelled after the grace period. -/
theorem shutdown_in_order_plain :
    let settings : Settings := ⟨false, 1, tlsHandshakeTimeout, 1, 1⟩
    ∃ s, ReflTransGen (Step settings) (settings.boot 0) s ∧ ShutdownLaw settings s ∧
      s.loop = .returned ∧ s.joined.map Connection.ending = [some (.cancelled, 1)] := by
  let settings : Settings := ⟨false, 1, tlsHandshakeTimeout, 1, 1⟩
  let actions : List Action := [.turn .acquire, .turn .accept, .turn .proceed,
    .connection 0 .poll, .connection 0 (.arrive [71]), .connection 0 .peek, .requestShutdown,
    .turn .stop, .connection 0 .shutDown, .tick, .turn .elapse, .connection 0 .cancel,
    .connection 0 .finish, .turn (.join 0), .turn .proceed]
  have hsome : ((settings.boot 0).runs settings false actions).isSome = true := by decide
  obtain ⟨s, hs⟩ := Option.isSome_iff_exists.mp hsome
  have hrun := run_of_runs hs
  refine ⟨s, hrun, shutdown_in_order hrun, ?_⟩
  have hend : ((settings.boot 0).runs settings false actions).map (fun s =>
      (s.loop, s.joined.map Connection.ending)) = some (.returned, [some (.cancelled, 1)]) := by
    decide
  rw [hs] at hend
  exact ⟨congrArg Prod.fst (Option.some.inj hend), congrArg Prod.snd (Option.some.inj hend)⟩

end Laws

end OpenTfMirror.ConnectionServer
