import OpenTfMirror.ConnectionServer
import Mathlib.Data.List.Perm.Basic
import Mathlib.Order.Basic
import Mathlib.Tactic.Common

/-!
# Steps of the connection server

What a step of a connection and a turn of the accept loop can do, and what holds
however the runtime schedules them: the permits are accounted for, the set of
tasks stays small, and only a shutdown ends the listener, after its tasks.
-/

namespace OpenTfMirror.ConnectionServer

open FileStore Relation

variable {settings : Settings} {clock : ℕ} {shutdown : Bool} {c c' : Connection} {s s' : Server}

section Connections

/-- What has to be the case where a task ends. -/
def Ends (clock : ℕ) (shutdown : Bool) (c : Connection) : Cause → Prop
  | .timedOut => (∃ deadline, c.phase = .handshake deadline ∧ deadline ≤ clock) ∨
    ∃ deadline pause, c.phase = .preface deadline pause ∧ deadline ≤ clock ∧
      c.undecided clock pause = true
  | .gone => c.stream.peek h2Preface.length = .gone
  | .shutDown => shutdown = true
  | .cancelled => c.aborted = true
  | .handshakeFailed | .served => True

/-- What a step of a connection did. -/
inductive Stepped (settings : Settings) (clock : ℕ) (shutdown : Bool) (c c' : Connection) : Prop
  | streamed (stream : Stream) (hgrows : c.stream.received <+: stream.received)
      (heq : c' = c.carry clock stream)
  | started (hphase : c.phase = .spawned)
      (heq : c' = { c with
        phase := if settings.tls then .handshake (clock + settings.handshakeTimeout)
          else .preface (clock + settings.handshakeTimeout) none })
  | shookHands (deadline : ℕ) (hphase : c.phase = .handshake deadline)
      (heq : c' = { c with phase := .serving false })
  | decided (deadline : ℕ) (hphase : c.phase = .preface deadline none)
      (hdecided : c.stream.decided = true) (heq : c' = { c with phase := .serving false })
  | paused (deadline : ℕ) (hphase : c.phase = .preface deadline none)
      (hundecided : c.stream.decided = false)
      (heq : c' = { c with phase := .preface deadline (some (clock + prefacePoll)) })
  | woke (deadline wake : ℕ) (hphase : c.phase = .preface deadline (some wake)) (hwake : wake ≤ clock)
      (heq : c' = { c with phase := .preface deadline none })
  | closing (hphase : c.phase = .serving false) (hshutdown : shutdown = true)
      (heq : c' = { c with phase := .serving true })
  | ended (cause : Cause) (hlive : c.live = true) (hcause : Ends clock shutdown c cause)
      (heq : c' = c.end clock cause)
  | finished (hphase : c.phase = .released) (heq : c' = { c with phase := .finished })

/-- A look at the stream that read something decides the protocol as all of it does. -/
theorem decided_of_peek {stream : Stream} {bytes : Bytes}
    (h : stream.peek h2Preface.length = .read bytes) :
    stream.decided = protocolDecidable bytes := by
  unfold Stream.peek at h
  have hread : stream.received ≠ [] ∧ stream.received.take h2Preface.length = bytes := by
    cases hpeer : stream.peer with
    | failed =>
      rw [hpeer] at h
      cases h
    | closed =>
      rw [hpeer] at h
      dsimp only at h
      split at h
      · cases h
      · next hne => exact ⟨hne, by injection h⟩
    | sending =>
      rw [hpeer] at h
      dsimp only at h
      split at h
      · cases h
      · next hne => exact ⟨hne, by injection h⟩
  obtain ⟨hne, rfl⟩ := hread
  simp [Stream.decided, hne]

/-- Nothing to see yet: nothing has arrived. -/
theorem received_of_pending {stream : Stream} {size : ℕ} (h : stream.peek size = .pending) :
    stream.received = [] := by
  unfold Stream.peek at h
  cases hpeer : stream.peer with
  | failed =>
    rw [hpeer] at h
    cases h
  | closed =>
    rw [hpeer] at h
    dsimp only at h
    split at h <;> cases h
  | sending =>
    rw [hpeer] at h
    dsimp only at h
    split at h
    · next hnil => exact hnil
    · cases h

theorem decided_nil {stream : Stream} (h : stream.received = []) : stream.decided = false := by
  simp [Stream.decided, h]

/-- The first bytes decide nothing exactly as long as they are a part of the preface. -/
theorem protocolDecidable_eq_false {read : Bytes} (hlen : read.length ≤ h2Preface.length) :
    protocolDecidable read = false ↔ read <+: h2Preface ∧ read.length < h2Preface.length := by
  unfold protocolDecidable
  rw [Bool.or_eq_false_iff, decide_eq_false_iff_not, decide_eq_false_iff_not, not_not,
    List.prefix_iff_eq_take]
  constructor
  · intro h
    exact ⟨h.2, by omega⟩
  · intro h
    exact ⟨by omega, h.1⟩

theorem prefix_of_take {received : Bytes} (h : received.take h2Preface.length <+: h2Preface)
    (hlt : (received.take h2Preface.length).length < h2Preface.length) :
    received.length < h2Preface.length ∧ received <+: h2Preface := by
  rw [List.length_take] at hlt
  have hshort : received.length < h2Preface.length := by omega
  rw [List.take_of_length_le (by omega)] at h
  exact ⟨hshort, h⟩

/-- Bytes that decide the protocol decide it whatever follows. -/
theorem decided_mono {stream stream' : Stream} (hgrows : stream.received <+: stream'.received)
    (h : stream.decided = true) : stream'.decided = true := by
  obtain ⟨hne, hdecidable⟩ : stream.received ≠ [] ∧
      protocolDecidable (stream.received.take h2Preface.length) = true := by
    simpa [Stream.decided] using h
  have hne' : stream'.received ≠ [] := fun hnil => hne (List.prefix_nil.mp (hnil ▸ hgrows))
  cases hdecided : stream'.decided with
  | true => rfl
  | false =>
    have hundecidable : protocolDecidable (stream'.received.take h2Preface.length) = false := by
      simpa [Stream.decided, hne'] using hdecided
    obtain ⟨hpart, hlt⟩ :=
      (protocolDecidable_eq_false (List.length_take_le _ _)).mp hundecidable
    obtain ⟨hshort, hwhole⟩ := prefix_of_take hpart hlt
    have hle : stream.received.length ≤ stream'.received.length := hgrows.length_le
    have hstill : protocolDecidable (stream.received.take h2Preface.length) = false := by
      rw [List.take_of_length_le (by omega)]
      exact (protocolDecidable_eq_false (by omega)).mpr ⟨hgrows.trans hwhole, by omega⟩
    rw [hstill] at hdecidable
    cases hdecidable

theorem step_acceptTlsWithTimeout {deadline : ℕ} {deed : Deed} (hphase : c.phase = .handshake deadline)
    (h : c.acceptTlsWithTimeout clock shutdown deadline deed = some c') :
    Stepped settings clock shutdown c c' := by
  have hlive : c.live = true := by simp [Connection.live, hphase]
  cases deed with
  | shakeHands success =>
    cases success with
    | true =>
      cases h
      exact .shookHands deadline hphase rfl
    | false =>
      cases h
      exact .ended .handshakeFailed hlive trivial rfl
  | timeOut =>
    simp only [Connection.acceptTlsWithTimeout] at h
    split at h
    · next hle =>
        cases h
        exact .ended .timedOut hlive (.inl ⟨deadline, hphase, hle⟩) rfl
    · cases h
  | shutDown =>
    simp only [Connection.acceptTlsWithTimeout] at h
    split at h
    · next hshutdown =>
        cases h
        exact .ended .shutDown hlive hshutdown rfl
    · cases h
  | _ => cases h

theorem step_waitForProtocolPreface {deadline : ℕ} {pause : Option ℕ} {deed : Deed}
    (hphase : c.phase = .preface deadline pause)
    (h : c.waitForProtocolPreface clock shutdown deadline pause deed = some c') :
    Stepped settings clock shutdown c c' := by
  have hlive : c.live = true := by simp [Connection.live, hphase]
  cases deed with
  | peek =>
    cases pause with
    | some wake => cases h
    | none =>
      simp only [Connection.waitForProtocolPreface] at h
      cases hpeek : c.stream.peek h2Preface.length with
      | pending =>
        rw [hpeek] at h
        cases h
      | gone =>
        rw [hpeek] at h
        cases h
        exact .ended .gone hlive hpeek rfl
      | read bytes =>
        rw [hpeek] at h
        dsimp only at h
        split at h
        · next hdecidable =>
            cases h
            exact .decided deadline hphase ((decided_of_peek hpeek).trans hdecidable) rfl
        · next hundecidable =>
            cases h
            exact .paused deadline hphase
              ((decided_of_peek hpeek).trans (Bool.eq_false_iff.mpr hundecidable)) rfl
  | wake =>
    cases pause with
    | none => cases h
    | some wake =>
      simp only [Connection.waitForProtocolPreface] at h
      split at h
      · next hwake =>
          cases h
          exact .woke deadline wake hphase hwake rfl
      · cases h
  | timeOut =>
    simp only [Connection.waitForProtocolPreface] at h
    split at h
    · next hdue =>
        cases h
        obtain ⟨hle, hundecided⟩ := Bool.and_eq_true_iff.mp hdue
        exact .ended .timedOut hlive
          (.inr ⟨deadline, pause, hphase, of_decide_eq_true hle, hundecided⟩) rfl
    · cases h
  | shutDown =>
    simp only [Connection.waitForProtocolPreface] at h
    split at h
    · next hshutdown =>
        cases h
        exact .ended .shutDown hlive hshutdown rfl
    · cases h
  | _ => cases h

theorem step_serveConnection {closing : Bool} {deed : Deed} (hphase : c.phase = .serving closing)
    (h : c.serveConnection clock shutdown closing deed = some c') :
    Stepped settings clock shutdown c c' := by
  have hlive : c.live = true := by simp [Connection.live, hphase]
  cases deed with
  | close =>
    cases h
    exact .ended .served hlive trivial rfl
  | shutDown =>
    simp only [Connection.serveConnection] at h
    split at h
    · next hdue =>
        cases h
        obtain ⟨hshutdown, hopen⟩ := Bool.and_eq_true_iff.mp hdue
        cases closing with
        | true => cases hopen
        | false => exact .closing hphase hshutdown rfl
    · cases h
  | _ => cases h

theorem step_proceed {deed : Deed} (h : c.proceed settings clock shutdown deed = some c') :
    Stepped settings clock shutdown c c' := by
  unfold Connection.proceed at h
  cases hphase : c.phase with
  | spawned =>
    rw [hphase] at h
    dsimp only at h
    split at h
    · cases h
      exact .started hphase rfl
    · cases h
  | handshake deadline =>
    rw [hphase] at h
    exact step_acceptTlsWithTimeout hphase h
  | preface deadline pause =>
    rw [hphase] at h
    exact step_waitForProtocolPreface hphase h
  | serving closing =>
    rw [hphase] at h
    exact step_serveConnection hphase h
  | released =>
    rw [hphase] at h
    dsimp only at h
    split at h
    · cases h
      exact .finished hphase rfl
    · cases h
  | finished =>
    rw [hphase] at h
    cases h

/-- The inversion of a step of a connection. -/
theorem stepped {deed : Deed} (h : c.step settings clock shutdown deed = some c') :
    Stepped settings clock shutdown c c' := by
  cases deed with
  | arrive bytes =>
    simp only [Connection.step] at h
    split at h
    · cases h
      exact .streamed _ (List.prefix_append _ _) rfl
    · cases h
  | leave peer =>
    simp only [Connection.step] at h
    split at h
    · cases h
      exact .streamed ⟨c.stream.received, peer⟩ (List.prefix_refl _) rfl
    · cases h
  | cancel =>
    simp only [Connection.step] at h
    split at h
    · next hboth =>
        cases h
        obtain ⟨haborted, hlive⟩ := Bool.and_eq_true_iff.mp hboth
        exact .ended .cancelled hlive haborted rfl
    · cases h
  | _ => exact step_proceed h

/-- A task that has given its permit back does not get it again. -/
theorem Stepped.live (h : Stepped settings clock shutdown c c') (hlive : c'.live = true) :
    c.live = true := by
  cases h with
  | streamed stream hgrows heq =>
    subst heq
    exact hlive
  | ended cause hlive' hcause heq => exact hlive'
  | finished hphase heq =>
    subst heq
    cases hlive
  | _ => simp_all [Connection.live]

/-- Only a task that has given its permit back is over. -/
theorem Stepped.released (h : Stepped settings clock shutdown c c') (hover : c'.phase = .released) :
    c.phase = .released ∨ c.live = true ∧ c'.live = false := by
  cases h with
  | streamed stream hgrows heq =>
    subst heq
    exact .inl hover
  | started hphase heq =>
    subst heq
    dsimp only at hover
    split at hover <;> cases hover
  | ended cause hlive hcause heq =>
    subst heq
    exact .inr ⟨hlive, rfl⟩
  | _ =>
    subst_vars
    cases hover

theorem live_of_released (h : c.phase = .released) : c.live = false := by
  simp [Connection.live, h]

theorem live_of_finished (h : c.phase = .finished) : c.live = false := by
  simp [Connection.live, h]

/-- A task holds its permit, is over, or has finished. -/
theorem live_or_released (h : c.phase ≠ .finished) : c.live = true ∨ c.phase = .released := by
  cases hphase : c.phase with
  | released => exact .inr rfl
  | finished => exact absurd hphase h
  | _ => exact .inl (by simp [Connection.live, hphase])

end Connections

section Listener

/-- The loop waits for permits and clients. -/
def Loop.serves : Loop → Prop
  | .acquiring | .accepting | .backingOff _ => True
  | _ => False

/-- The loop takes tasks out of the set. -/
def Loop.joins : Loop → Prop
  | .reaping | .draining _ | .aborting => True
  | _ => False

/-- The loop was left. -/
def Loop.stops : Loop → Prop
  | .draining _ | .aborting | .returned => True
  | _ => False

/-- What a turn of `serve_listener` did. -/
inductive Turned (settings : Settings) (s s' : Server) : Prop
  | acquired (hloop : s.loop = .acquiring) (hfree : 0 < s.permits)
      (heq : s' = { s with permits := s.permits - 1, loop := .accepting })
  | accepted (hloop : s.loop = .accepting)
      (heq : s' = { s with loop := .reaping, connections := s.connections ++ [.new s.clock] })
  | failed (hloop : s.loop = .accepting)
      (heq : s' = { s with loop := .backingOff (s.clock + acceptErrorBackoff) })
  | resumed (wake : ℕ) (hloop : s.loop = .backingOff wake)
      (heq : s' = { s with permits := s.permits + 1, loop := .acquiring })
  | left (since : ℕ) (hloop : s.loop.serves) (hshutdown : s.shutdown = some since)
      (heq : s' = { s with
        permits := s.permits + s.loop.held
        loop := .draining (s.clock + settings.shutdownGracePeriod) })
  | joined (position : ℕ) (c : Connection) (hloop : s.loop.joins)
      (hc : s.connections[position]? = some c) (hfinished : c.phase = .finished)
      (heq : s' = { s with
        connections := s.connections.eraseIdx position
        joined := c :: s.joined })
  | reaped (hloop : s.loop = .reaping) (hnone : ∀ c ∈ s.connections, c.phase ≠ .finished)
      (heq : s' = { s with loop := .acquiring })
  | returned (hloop : s.loop = .aborting ∨ ∃ deadline, s.loop = .draining deadline)
      (hempty : s.connections = []) (heq : s' = { s with loop := .returned })
  | aborted (deadline : ℕ) (hloop : s.loop = .draining deadline) (hdue : deadline ≤ s.clock)
      (heq : s' = { s with
        loop := .aborting
        connections := s.connections.map fun c => { c with aborted := true } })

theorem turned_left (hloop : s.loop.serves) (h : s.leaveLoop settings = some s') :
    Turned settings s s' := by
  unfold Server.leaveLoop at h
  split at h
  · next hshutdown =>
      cases h
      obtain ⟨since, hsince⟩ := Option.isSome_iff_exists.mp hshutdown
      exact .left since hloop hsince rfl
  · cases h

theorem turned_join {position : ℕ} (hloop : s.loop.joins) (h : s.join position = some s') :
    Turned settings s s' := by
  unfold Server.join at h
  split at h
  · next c hc =>
      split at h
      · next hfinished =>
          cases h
          exact .joined position c hloop hc (of_decide_eq_true hfinished) rfl
      · cases h
  · cases h

/-- The inversion of a turn. -/
theorem turned {turn : Turn} (h : s.serveListener settings turn = some s') :
    Turned settings s s' := by
  unfold Server.serveListener at h
  split at h
  · next hloop =>
      split at h
      · next hfree =>
          cases h
          exact .acquired hloop hfree rfl
      · cases h
  · next hloop => exact turned_left (hloop ▸ trivial) h
  · next hloop =>
      cases h
      exact .accepted hloop rfl
  · next hloop =>
      cases h
      exact .failed hloop rfl
  · next hloop => exact turned_left (hloop ▸ trivial) h
  · next wake hloop =>
      split at h
      · cases h
        exact .resumed wake hloop rfl
      · cases h
  · next hloop => exact turned_left (hloop ▸ trivial) h
  · next hloop => exact turned_join (hloop ▸ trivial) h
  · next hloop =>
      split at h
      · cases h
      · next hnone =>
          cases h
          refine .reaped hloop (fun c hc hfinished => hnone ?_) rfl
          exact List.any_eq_true.mpr ⟨c, hc, decide_eq_true hfinished⟩
  · next hloop => exact turned_join (hloop ▸ trivial) h
  · next deadline hloop =>
      split at h
      · next hempty =>
          cases h
          exact .returned (.inr ⟨deadline, hloop⟩) hempty rfl
      · cases h
  · next deadline hloop =>
      split at h
      · next hdue =>
          cases h
          refine .aborted deadline hloop ?_ rfl
          exact of_decide_eq_true (Bool.and_eq_true_iff.mp (Bool.and_eq_true_iff.mp hdue).1).1
      · cases h
  · next hloop => exact turned_join (hloop ▸ trivial) h
  · next hloop =>
      split at h
      · next hempty =>
          cases h
          exact .returned (.inl hloop) hempty rfl
      · cases h
  · cases h

/-- What a step of a connection did to the server. -/
structure Served (settings : Settings) (s s' : Server) (position : ℕ) (c c' : Connection) : Prop where
  found : s.connections[position]? = some c
  stepped : Stepped settings s.clock s.shutdown.isSome c c'
  worker : c.live = true → c'.live = false →
    s.connections.countP (fun c => c.phase = .released) < settings.workers
  heq : s' = { s with
    connections := s.connections.set position c'
    permits := s.permits + if c.live && !c'.live then 1 else 0 }

theorem served {position : ℕ} {deed : Deed} (h : s.stepConnection settings position deed = some s') :
    ∃ c c', Served settings s s' position c c' := by
  unfold Server.stepConnection at h
  split at h
  · cases h
  · next c hc =>
      split at h
      · cases h
      · next c' hstep =>
          refine ⟨c, c', ?_⟩
          split at h
          · next hends =>
              split at h
              · next hworker =>
                  cases h
                  exact ⟨hc, stepped hstep, fun _ _ => hworker, by rw [if_pos hends]⟩
              · cases h
          · next hstays =>
              cases h
              refine ⟨hc, stepped hstep, fun hlive hends => absurd ?_ hstays, by rw [if_neg hstays]; rfl⟩
              rw [hlive, hends]
              rfl

/-- The tasks after a step of one of them. -/
theorem Served.connections {position : ℕ} {c c' : Connection}
    (h : Served settings s s' position c c') :
    s'.connections = s.connections.set position c' := by
  rw [h.heq]

theorem Served.mem {position : ℕ} {c c' : Connection} (h : Served settings s s' position c c') :
    c ∈ s.connections := List.mem_of_getElem? h.found

/-- Counting after one element was replaced. -/
theorem countP_replaced {p : Connection → Bool} {connections : List Connection} {position : ℕ}
    (hc : connections[position]? = some c) (c' : Connection) :
    (connections.set position c').countP p + (if p c then 1 else 0) =
      connections.countP p + if p c' then 1 else 0 := by
  obtain ⟨hlt, rfl⟩ := List.getElem?_eq_some_iff.mp hc
  rw [List.countP_set hlt]
  have hpos : (if p connections[position] then 1 else 0) ≤ connections.countP p := by
    split
    · next hp => exact List.countP_pos_iff.mpr ⟨_, List.getElem_mem hlt, hp⟩
    · exact Nat.zero_le _
  omega

/-- Counting after one element was taken out. -/
theorem countP_taken {p : Connection → Bool} {connections : List Connection} {position : ℕ}
    (hc : connections[position]? = some c) :
    (connections.eraseIdx position).countP p + (if p c then 1 else 0) = connections.countP p := by
  obtain ⟨hlt, rfl⟩ := List.getElem?_eq_some_iff.mp hc
  rw [← (List.getElem_cons_eraseIdx_perm hlt).countP_eq p, List.countP_cons]

/-- The accounts of the permits, the worker threads and the set of tasks. -/
structure Accounts (settings : Settings) (s : Server) : Prop where
  permits : s.permits + s.loop.held + s.connections.countP Connection.live = settings.capacity
  workers : s.connections.countP (fun c => c.phase = .released) ≤ settings.workers
  tasks : s.connections.length ≤ settings.capacity + settings.workers +
    if s.loop = .reaping then 1 else 0

theorem accounts_boot : Accounts settings (settings.boot clock) where
  permits := rfl
  workers := Nat.zero_le _
  tasks := Nat.zero_le _

/-- A set without finished tasks is small. -/
theorem length_of_unfinished (h : Accounts settings s)
    (hnone : ∀ c ∈ s.connections, c.phase ≠ .finished) :
    s.connections.length ≤ settings.capacity + settings.workers := by
  have hsplit : s.connections.length =
      s.connections.countP Connection.live + s.connections.countP fun c => ¬c.live = true :=
    List.length_eq_countP_add_countP Connection.live
  have hover : s.connections.countP (fun c => ¬c.live = true) ≤
      s.connections.countP (fun c => c.phase = .released) := by
    refine List.countP_mono_left fun c hc hdead => ?_
    rcases live_or_released (hnone c hc) with hlive | hover
    · exact absurd hlive (of_decide_eq_true hdead)
    · exact decide_eq_true hover
  have hpermits := h.permits
  have hworkers := h.workers
  omega

theorem Accounts.turn (h : Accounts settings s) (hturn : Turned settings s s') :
    Accounts settings s' := by
  have hpermits := h.permits
  have htasks := h.tasks
  cases hturn with
  | acquired hloop hfree heq =>
    subst heq
    rw [hloop] at hpermits htasks
    refine ⟨?_, h.workers, htasks⟩
    simp only [Loop.held] at hpermits ⊢
    omega
  | accepted hloop heq =>
    subst heq
    rw [hloop] at hpermits htasks
    refine ⟨?_, ?_, ?_⟩
    · simp only [Loop.held, List.countP_append, List.countP_singleton, Connection.new,
        Connection.live, if_true] at hpermits ⊢
      omega
    · rw [List.countP_append, List.countP_singleton]
      exact h.workers
    · simp only [List.length_append, List.length_singleton, reduceCtorEq, if_true,
        if_false] at htasks ⊢
      omega
  | failed hloop heq =>
    subst heq
    rw [hloop] at hpermits htasks
    exact ⟨hpermits, h.workers, htasks⟩
  | resumed wake hloop heq =>
    subst heq
    rw [hloop] at hpermits htasks
    refine ⟨?_, h.workers, htasks⟩
    simp only [Loop.held] at hpermits ⊢
    omega
  | left since hloop hshutdown heq =>
    subst heq
    refine ⟨?_, h.workers, ?_⟩
    · simp only [Loop.held] at hpermits ⊢
      omega
    · cases hcase : s.loop with
      | reaping => exact absurd hloop (hcase ▸ not_false)
      | _ => simpa [hcase] using htasks
  | joined position c hloop hc hfinished heq =>
    subst heq
    have hlive := countP_taken (p := Connection.live) hc
    have hover := countP_taken (p := fun c => c.phase = .released) hc
    rw [live_of_finished hfinished] at hlive
    refine ⟨?_, ?_, ?_⟩
    · dsimp only
      rw [← hlive] at hpermits
      exact hpermits
    · have hworkers := h.workers
      dsimp only
      omega
    · exact Nat.le_trans (List.length_eraseIdx_le _ _) htasks
  | reaped hloop hnone heq =>
    have hsmall := length_of_unfinished h hnone
    subst heq
    rw [hloop] at hpermits
    exact ⟨hpermits, h.workers, hsmall⟩
  | returned hloop hempty heq =>
    subst heq
    have hheld : s.loop.held = 0 := by
      rcases hloop with hloop | ⟨deadline, hloop⟩ <;> rw [hloop] <;> rfl
    rw [hheld] at hpermits
    refine ⟨hpermits, h.workers, ?_⟩
    rw [hempty]
    exact Nat.zero_le _
  | aborted deadline hloop hdue heq =>
    subst heq
    rw [hloop] at hpermits htasks
    refine ⟨?_, ?_, ?_⟩
    · rw [List.countP_map]
      exact hpermits
    · rw [List.countP_map]
      exact h.workers
    · rw [List.length_map]
      exact htasks

theorem Accounts.serve (h : Accounts settings s) {position : ℕ}
    (hserved : Served settings s s' position c c') : Accounts settings s' := by
  have hlive := countP_replaced (p := Connection.live) hserved.found c'
  have hover := countP_replaced (p := fun c => c.phase = .released) hserved.found c'
  have hpermits := h.permits
  have hworkers := h.workers
  have heq := hserved.heq
  subst heq
  refine ⟨?_, ?_, ?_⟩
  · dsimp only
    cases hwas : c.live with
    | true =>
      rw [hwas] at hlive
      cases his : c'.live with
      | true =>
        rw [his] at hlive
        simp only [Bool.not_true, Bool.and_false, Bool.false_eq_true, if_false, if_true] at hlive ⊢
        omega
      | false =>
        rw [his] at hlive
        simp only [Bool.not_false, Bool.and_true, Bool.false_eq_true, if_false, if_true] at hlive ⊢
        omega
    | false =>
      have his : c'.live = false :=
        Bool.eq_false_iff.mpr fun his => by rw [hserved.stepped.live his] at hwas; cases hwas
      rw [hwas, his] at hlive
      simp only [Bool.false_and, Bool.false_eq_true, if_false] at hlive ⊢
      omega
  · dsimp only
    by_cases hnow : c'.phase = .released
    · rcases hserved.stepped.released hnow with hwas | ⟨hwas, his⟩
      · simp only [hnow, hwas, decide_true, if_true] at hover
        omega
      · have hworker := hserved.worker hwas his
        have hnot : c.phase ≠ .released := fun hphase => by
          rw [live_of_released hphase] at hwas
          cases hwas
        simp only [hnow, hnot, decide_true, decide_false, Bool.false_eq_true, if_true,
          if_false] at hover
        omega
    · simp only [hnow, decide_false, Bool.false_eq_true, if_false] at hover
      omega
  · dsimp only
    rw [List.length_set]
    exact h.tasks

theorem Accounts.step (h : Accounts settings s) (hstep : Step settings s s') :
    Accounts settings s' := by
  obtain ⟨action, hstep⟩ := hstep
  cases action with
  | tick =>
    cases hstep
    exact ⟨h.permits, h.workers, h.tasks⟩
  | requestShutdown =>
    simp only [Server.step] at hstep
    split at hstep
    · cases hstep
      exact ⟨h.permits, h.workers, h.tasks⟩
    · cases hstep
  | turn turn => exact h.turn (turned hstep)
  | connection position deed =>
    obtain ⟨c, c', hserved⟩ := served hstep
    exact h.serve hserved

theorem run_of_runs {actions : List Action} (h : s.runs settings false actions = some s') :
    ReflTransGen (Step settings) s s' := by
  induction actions generalizing s with
  | nil =>
    cases h
    exact .refl
  | cons action rest ih =>
    simp only [Server.runs, Bool.false_and, Bool.false_eq_true, if_false] at h
    cases hstep : s.step settings action with
    | none =>
      rw [hstep] at h
      cases h
    | some middle =>
      rw [hstep] at h
      exact .head ⟨action, hstep⟩ (ih h)

theorem timelyRun_of_runs {actions : List Action} (h : s.runs settings true actions = some s') :
    ReflTransGen (TimelyStep settings) s s' := by
  induction actions generalizing s with
  | nil =>
    cases h
    exact .refl
  | cons action rest ih =>
    simp only [Server.runs, Bool.true_and] at h
    split at h
    · cases h
    · next htimely =>
        cases hstep : s.step settings action with
        | none =>
          rw [hstep] at h
          cases h
        | some middle =>
          rw [hstep] at h
          refine .head ⟨action, hstep, fun htick => ?_⟩ (ih h)
          refine Bool.eq_false_iff.mpr fun hdue => htimely ?_
          rw [hdue, decide_eq_true htick]
          rfl

end Listener

end OpenTfMirror.ConnectionServer
