import OpenTfMirror.FileStore
import Mathlib.Data.List.Count
import Mathlib.Logic.Relation

/-!
# The connection server

`serve_listener` and the tasks of its connections: the permits, the set of
spawned tasks, the waits for a TLS handshake or for the first bytes of a
request, and the shutdown. HTTP itself is left to the environment, which ends a
connection whenever it likes. The clock counts milliseconds.
-/

namespace OpenTfMirror.ConnectionServer

open FileStore Relation

def tlsHandshakeTimeout : ℕ := 10 * 1000

def shutdownGracePeriod : ℕ := 15 * 1000

def acceptErrorBackoff : ℕ := 100

/-- The pause between two looks at a partial preface. -/
def prefacePoll : ℕ := 20

/-- The arguments of a listener, and the worker threads of the runtime. -/
structure Settings where
  tls : Bool
  maxConnections : ℕ
  handshakeTimeout : ℕ := tlsHandshakeTimeout
  shutdownGracePeriod : ℕ := ConnectionServer.shutdownGracePeriod
  workers : ℕ
  deriving DecidableEq, Repr

section Streams

/-- The other end of a stream. -/
inductive Peer where
  | sending
  /-- It has closed its side. -/
  | closed
  | failed
  deriving DecidableEq, Repr

/-- Bytes that have arrived and were not read, and what the peer does. -/
structure Stream where
  received : Bytes
  peer : Peer
  deriving DecidableEq, Repr

/-- What `peek` says. -/
inductive Peeked where
  | pending
  /-- `Ok(0)` or an error. -/
  | gone
  | read (bytes : Bytes)
  deriving DecidableEq, Repr

/-- `TcpStream::peek` with a buffer of this size. -/
def Stream.peek (stream : Stream) (size : ℕ) : Peeked :=
  match stream.peer with
  | .failed => .gone
  | .closed => if stream.received = [] then .gone else .read (stream.received.take size)
  | .sending => if stream.received = [] then .pending else .read (stream.received.take size)

/-- `H2_PREFACE`. -/
def h2Preface : Bytes := "PRI * HTTP/2.0\r\n\r\nSM\r\n\r\n".toList.map fun c => UInt8.ofNat c.toNat

/-- The guard on what `peek` has read: HTTP/1 and HTTP/2 can be told apart. -/
def protocolDecidable (read : Bytes) : Bool :=
  read.length = h2Preface.length || read ≠ h2Preface.take read.length

/-- The first bytes have arrived, and they decide the protocol. -/
def Stream.decided (stream : Stream) : Bool :=
  stream.received ≠ [] && protocolDecidable (stream.received.take h2Preface.length)

end Streams

section Connections

/-- Where the task of a connection stands. -/
inductive Phase where
  /-- It was not polled yet. -/
  | spawned
  /-- `accept_tls_with_timeout`. -/
  | handshake (deadline : ℕ)
  /-- `wait_for_protocol_preface`, at `peek` or in the pause before the next one. -/
  | preface (deadline : ℕ) (pause : Option ℕ)
  /-- `serve_connection`, before or after `graceful_shutdown`. -/
  | serving (closing : Bool)
  /-- The future is dropped, and the permit with it. -/
  | released
  /-- The runtime has noticed. -/
  | finished
  deriving DecidableEq, Repr

/-- Why a connection is over. -/
inductive Cause where
  | timedOut
  | gone
  | handshakeFailed
  | shutDown
  | served
  | cancelled
  deriving DecidableEq, Repr

/-- A spawned task with its stream. The last two fields are a record. -/
structure Connection where
  accepted : ℕ
  phase : Phase
  stream : Stream
  /-- `abort` was called on the task. -/
  aborted : Bool
  /-- When enough bytes had arrived to decide the protocol. -/
  decidedAt : Option ℕ
  /-- Why it is over, and since when. -/
  ending : Option (Cause × ℕ)
  deriving DecidableEq, Repr

/-- A connection that was just accepted. -/
def Connection.new (clock : ℕ) : Connection := ⟨clock, .spawned, ⟨[], .sending⟩, false, none, none⟩

/-- The task still holds its permit. -/
def Connection.live (c : Connection) : Bool :=
  match c.phase with
  | .released | .finished => false
  | _ => true

/-- The task has ended. -/
def Connection.isFinished (c : Connection) : Bool := c.phase = .finished

/-- The task ends here. -/
def Connection.end (c : Connection) (clock : ℕ) (cause : Cause) : Connection :=
  { c with phase := .released, ending := some (cause, clock) }

/-- The stream has changed. -/
def Connection.carry (c : Connection) (clock : ℕ) (stream : Stream) : Connection :=
  { c with
    stream
    decidedAt := if c.decidedAt = none && stream.decided then some clock else c.decidedAt }

/-- What can happen to a connection. -/
inductive Deed where
  | poll
  /-- Bytes arrive. -/
  | arrive (bytes : Bytes)
  /-- The peer closes its side, or the stream fails. -/
  | leave (peer : Peer)
  /-- The TLS handshake is done. -/
  | shakeHands (success : Bool)
  | peek
  | wake
  | timeOut
  | shutDown
  /-- HTTP is done with the connection. -/
  | close
  | cancel
  /-- The runtime notices that the task has ended. -/
  | finish
  deriving DecidableEq, Repr

variable (settings : Settings) (clock : ℕ) (shutdown : Bool) (c : Connection)

/-- `accept_tls_with_timeout`. -/
def Connection.acceptTlsWithTimeout (deadline : ℕ) : Deed → Option Connection
  | .shakeHands true => some { c with phase := .serving false }
  | .shakeHands false => some (c.end clock .handshakeFailed)
  | .timeOut => if deadline ≤ clock then some (c.end clock .timedOut) else none
  | .shutDown => if shutdown then some (c.end clock .shutDown) else none
  | _ => none

/-- The future `decidable` of `wait_for_protocol_preface` has nothing to do. -/
def Connection.undecided (pause : Option ℕ) : Bool :=
  match pause with
  | some wake => clock < wake
  | none => c.stream.peek h2Preface.length = .pending

/-- `wait_for_protocol_preface`. The timeout looks at the future first. -/
def Connection.waitForProtocolPreface (deadline : ℕ) (pause : Option ℕ) : Deed → Option Connection
  | .peek =>
    match pause with
    | some _ => none
    | none =>
      match c.stream.peek h2Preface.length with
      | .pending => none
      | .gone => some (c.end clock .gone)
      | .read bytes =>
        if protocolDecidable bytes then some { c with phase := .serving false }
        else some { c with phase := .preface deadline (some (clock + prefacePoll)) }
  | .wake =>
    match pause with
    | some wake => if wake ≤ clock then some { c with phase := .preface deadline none } else none
    | none => none
  | .timeOut =>
    if deadline ≤ clock && c.undecided clock pause then some (c.end clock .timedOut) else none
  | .shutDown => if shutdown then some (c.end clock .shutDown) else none
  | _ => none

/-- `serve_connection`. -/
def Connection.serveConnection (closing : Bool) : Deed → Option Connection
  | .close => some (c.end clock .served)
  | .shutDown => if shutdown && !closing then some { c with phase := .serving true } else none
  | _ => none

/-- The next step of the task, by where it stands. -/
def Connection.proceed (deed : Deed) : Option Connection :=
  match c.phase with
  | .spawned =>
    if deed = .poll then
      let deadline := clock + settings.handshakeTimeout
      some { c with phase := if settings.tls then .handshake deadline else .preface deadline none }
    else none
  | .handshake deadline => c.acceptTlsWithTimeout clock shutdown deadline deed
  | .preface deadline pause => c.waitForProtocolPreface clock shutdown deadline pause deed
  | .serving closing => c.serveConnection clock shutdown closing deed
  | .released => if deed = .finish then some { c with phase := .finished } else none
  | .finished => none

/-- One step of a connection: of its peer, of the task, or of who aborted it. -/
def Connection.step (deed : Deed) : Option Connection :=
  match deed with
  | .arrive bytes =>
    if c.stream.peer = .sending then
      some (c.carry clock { c.stream with received := c.stream.received ++ bytes })
    else none
  | .leave peer =>
    if c.stream.peer = .sending then some (c.carry clock { c.stream with peer }) else none
  | .cancel => if c.aborted && c.live then some (c.end clock .cancelled) else none
  | deed => c.proceed settings clock shutdown deed

/-- The task can take a step that does not depend on the peer. -/
def Connection.due : Bool :=
  match c.phase with
  | .spawned | .released => true
  | .handshake deadline => c.aborted || shutdown || deadline ≤ clock
  | .preface deadline pause =>
    c.aborted || shutdown || deadline ≤ clock || !c.undecided clock pause
  | .serving closing => c.aborted || (shutdown && !closing)
  | .finished => false

end Connections

section Listener

/-- Where `serve_listener` stands. -/
inductive Loop where
  /-- It waits for a permit. -/
  | acquiring
  /-- It holds a permit and waits for a client. -/
  | accepting
  | backingOff (wake : ℕ)
  /-- It has spawned a task and takes the finished ones out of the set. -/
  | reaping
  /-- It waits for the tasks, within the grace period. -/
  | draining (deadline : ℕ)
  /-- It waits for the tasks that it has aborted. -/
  | aborting
  | returned
  deriving DecidableEq, Repr

/-- The loop itself holds a permit. -/
def Loop.held : Loop → ℕ
  | .accepting | .backingOff _ => 1
  | _ => 0

/-- A listener with its connections. -/
structure Server where
  clock : ℕ
  /-- When the shutdown was requested: `true` was sent, or the sender is gone. -/
  shutdown : Option ℕ
  /-- The free permits of the semaphore. -/
  permits : ℕ
  loop : Loop
  /-- The set of spawned tasks. -/
  connections : List Connection
  /-- A record of the tasks that left the set. -/
  joined : List Connection
  deriving DecidableEq, Repr

/-- What `serve_listener` can do. -/
inductive Turn where
  | acquire
  | accept
  | acceptError
  | resume
  /-- Take the task at this position out of the set. -/
  | join (position : ℕ)
  /-- There is no task left to take out. -/
  | proceed
  | stop
  | elapse
  deriving DecidableEq, Repr

inductive Action where
  | tick
  | requestShutdown
  | turn (turn : Turn)
  | connection (position : ℕ) (deed : Deed)
  deriving DecidableEq, Repr

variable (settings : Settings) (s : Server)

/-- The number of permits: `max_connections.max(1)`. -/
def Settings.capacity : ℕ := max settings.maxConnections 1

/-- The loop is left, and a permit that it holds is dropped. -/
def Server.leaveLoop : Option Server :=
  if s.shutdown.isSome then
    some { s with
      permits := s.permits + s.loop.held
      loop := .draining (s.clock + settings.shutdownGracePeriod) }
  else none

/-- `try_join_next` and `join_next` with a task that has finished. -/
def Server.join (position : ℕ) : Option Server :=
  match s.connections[position]? with
  | some c =>
    if c.isFinished then some { s with
      connections := s.connections.eraseIdx position
      joined := c :: s.joined }
    else none
  | none => none

/-- `serve_listener`. -/
def Server.serveListener (turn : Turn) : Option Server :=
  match s.loop, turn with
  | .acquiring, .acquire =>
    if 0 < s.permits then some { s with permits := s.permits - 1, loop := .accepting } else none
  | .acquiring, .stop => s.leaveLoop settings
  | .accepting, .accept =>
    some { s with loop := .reaping, connections := s.connections ++ [.new s.clock] }
  | .accepting, .acceptError => some { s with loop := .backingOff (s.clock + acceptErrorBackoff) }
  | .accepting, .stop => s.leaveLoop settings
  | .backingOff wake, .resume =>
    if wake ≤ s.clock then some { s with permits := s.permits + 1, loop := .acquiring } else none
  | .backingOff _, .stop => s.leaveLoop settings
  | .reaping, .join position => s.join position
  | .reaping, .proceed =>
    if s.connections.any Connection.isFinished then none else some { s with loop := .acquiring }
  | .draining _, .join position => s.join position
  | .draining _, .proceed => if s.connections = [] then some { s with loop := .returned } else none
  | .draining deadline, .elapse =>
    if deadline ≤ s.clock && s.connections ≠ [] && !s.connections.any Connection.isFinished then
      some { s with
        loop := .aborting
        connections := s.connections.map fun c => { c with aborted := true } }
    else none
  | .aborting, .join position => s.join position
  | .aborting, .proceed => if s.connections = [] then some { s with loop := .returned } else none
  | _, _ => none

/-- A step of one connection. Dropping the future gives the permit back, and
keeps a worker thread busy until the task has finished. -/
def Server.stepConnection (position : ℕ) (deed : Deed) : Option Server :=
  match s.connections[position]? with
  | none => none
  | some c =>
    match c.step settings s.clock s.shutdown.isSome deed with
    | none => none
    | some c' =>
      if c.live && !c'.live then
        if s.connections.countP (fun c => c.phase = .released) < settings.workers then some { s with
          connections := s.connections.set position c'
          permits := s.permits + 1 }
        else none
      else some { s with connections := s.connections.set position c' }

def Server.step : Action → Option Server
  | .tick => some { s with clock := s.clock + 1 }
  | .requestShutdown => if s.shutdown = none then some { s with shutdown := some s.clock } else none
  | .turn turn => s.serveListener settings turn
  | .connection position deed => s.stepConnection settings position deed

/-- The loop can take a step that does not depend on clients. -/
def Server.loopDue : Bool :=
  match s.loop with
  | .acquiring => s.shutdown.isSome || 0 < s.permits
  | .accepting => s.shutdown.isSome
  | .backingOff wake => s.shutdown.isSome || wake ≤ s.clock
  | .reaping => true
  | .draining deadline =>
    s.connections = [] || s.connections.any Connection.isFinished || deadline ≤ s.clock
  | .aborting => s.connections = [] || s.connections.any Connection.isFinished
  | .returned => false

/-- Something can happen that does not depend on clients. -/
def Server.due : Bool :=
  s.loopDue || s.connections.any fun c => c.due s.clock s.shutdown.isSome

/-- A listener before its first client. -/
def Settings.boot (settings : Settings) (clock : ℕ) : Server :=
  ⟨clock, none, settings.capacity, .acquiring, [], []⟩

/-- Any step. -/
def Step (s s' : Server) : Prop := ∃ action, s.step settings action = some s'

/-- A step of a runtime that lets no time pass while something is due. -/
def TimelyStep (s s' : Server) : Prop :=
  ∃ action, s.step settings action = some s' ∧ (action = .tick → s.due = false)

/-- Perform a list of actions in order, timely or not. -/
def Server.runs (timely : Bool) : Server → List Action → Option Server
  | s, [] => some s
  | s, action :: rest =>
    if timely && action = .tick && s.due then none
    else
      match s.step settings action with
      | none => none
      | some s' => s'.runs timely rest

end Listener

end OpenTfMirror.ConnectionServer
