import OpenTfMirror.Metadata
import OpenTfMirror.TaskLogic
import Mathlib.Data.List.AList

/-!
# Service discovery

`RegistryClient::discover` with any number of calls at once: the cache of
origins, the mutex of each host, and the discovery request. The environment
picks the answers and may drop a call wherever it waits.
-/

namespace OpenTfMirror.Discovery

open TaskProgram TaskLogic Fallible TextOps Outbound Metadata

/-- What discovery uses of the URL library besides `UrlCrate`. -/
class OriginCrate (U : Type) [UrlCrate U] where
  /-- `Url::path`. -/
  path : U → String
  /-- `Url::set_path`. -/
  setPath : U → String → U
  /-- The text of the error of `Url::join`. -/
  joinError : U → String → String

structure DiscoveryEntry (U : Type) where
  origin : Option U
  fetchedAt : ℕ
  retryAt : Option ℕ
  deriving DecidableEq, Repr

/-- The settings of the client: where it discovers a host, from
`discovery_origins` or `https://{hostname}/`. -/
structure RegistryClient (U : Type) where
  base : String → U
  allowsHttpForTests : Bool

/-- How long a discovered origin is used without asking again: 30 minutes. -/
def originLifetime : ℕ := 30 * 60 * 10 ^ 9

/-- How long a failed discovery is not repeated: 30 seconds. -/
def retryDelay : ℕ := 30 * 10 ^ 9

/-- What discovery reads of an answer: the URL that answered and `providers.v1`,
once the status is fine and the document decoded. -/
abbrev Document (U : Type) := Except RegistryError (U × Option String)

section Origins

variable {U : Type} [UrlCrate U] [OriginCrate U]

/-- `normalize_origin`. -/
def normalizeOrigin (origin : U) : U :=
  if (stripSuffix "/" (OriginCrate.path origin)).isSome then origin
  else OriginCrate.setPath origin (OriginCrate.path origin ++ "/")

/-- `Url::join` under `map_err`. -/
def joinUrl (base : U) (location : String) : Except RegistryError U :=
  match UrlCrate.join base location with
  | some url => .ok url
  | none => .error (.invalidOrigin (OriginCrate.joinError base location))

/-- The origin that an answer names. -/
def RegistryClient.discovered (self : RegistryClient U) : Document U → Except RegistryError U
  | .error error => .error error
  | .ok (finalUrl, providersV1) =>
    match providersV1 with
    | none => .error (.invalidResponse "Terraform discovery document is missing providers.v1")
    | some service =>
      match joinUrl finalUrl service with
      | .error error => .error error
      | .ok origin =>
        if UrlCrate.hostStr origin = none ||
            (!self.allowsHttpForTests && UrlCrate.scheme origin ≠ "https") then
          .error (.invalidOrigin "providers.v1 must be an HTTPS URL with a host")
        else .ok (normalizeOrigin origin)

end Origins

/-- The atomic operations of a call. -/
inductive Op (U : Type) where
  | readCache (hostname : String)
  | instantNow
  /-- The mutex of the host, created when there is none. -/
  | lockFor (hostname : String)
  | acquire (mutex : ℕ)
  | release (mutex : ℕ)
  /-- The discovery request is sent, and its answer awaited. -/
  | startDiscovery (hostname : String)
  | awaitDiscovery (hostname : String)
  | storeOrigin (hostname : String) (origin : U)
  | recordFailure (hostname : String) (error : RegistryError)
  /-- Trace points: a call begins and ends. -/
  | enter (hostname : String)
  | leave (hostname : String) (known : ℕ) (window : Option ℕ) (result : Except RegistryError U)

/-- What each operation answers. -/
def Res (U : Type) : Op U → Type
  | .readCache _ => Option (DiscoveryEntry U)
  | .instantNow | .lockFor _ => ℕ
  | .acquire _ | .release _ | .startDiscovery _ | .storeOrigin _ _ | .leave _ _ _ _ => Unit
  | .awaitDiscovery _ => Document U
  | .recordFailure _ _ => Except RegistryError U
  | .enter _ => ℕ × Option ℕ

/-- Code of a call. -/
abbrev Code (U α : Type) : Type := Prog (Op U) (Res U) α

section Programs

variable {U : Type} [UrlCrate U] [OriginCrate U]

abbrev readCache (hostname : String) : Code U (Option (DiscoveryEntry U)) :=
  .call (.readCache hostname) .done

abbrev instantNow : Code U ℕ := .call .instantNow .done

abbrev lockFor (hostname : String) : Code U ℕ := .call (.lockFor hostname) .done

abbrev acquire (mutex : ℕ) : Code U Unit := .call (.acquire mutex) .done

abbrev release (mutex : ℕ) : Code U Unit := .call (.release mutex) .done

abbrev startDiscovery (hostname : String) : Code U Unit := .call (.startDiscovery hostname) .done

abbrev awaitDiscovery (hostname : String) : Code U (Document U) :=
  .call (.awaitDiscovery hostname) .done

abbrev storeOrigin (hostname : String) (origin : U) : Code U Unit :=
  .call (.storeOrigin hostname origin) .done

abbrev recordFailure (hostname : String) (error : RegistryError) :
    Code U (Except RegistryError U) :=
  .call (.recordFailure hostname error) .done

abbrev enter (hostname : String) : Code U (ℕ × Option ℕ) := .call (.enter hostname) .done

abbrev leave (hostname : String) (known : ℕ) (window : Option ℕ)
    (result : Except RegistryError U) : Code U Unit :=
  .call (.leave hostname known window result) .done

/-- What the cache says by itself: the answer of a call that sends no request. -/
def DiscoveryEntry.settled (entry : DiscoveryEntry U) : Except RegistryError U :=
  match entry.origin with
  | some origin => .ok origin
  | none => .error .discoveryBackoff

/-- The check that `discover` makes before and after it takes the mutex. -/
def checkCache (hostname : String) : Code U (Option (Except RegistryError U)) := do
  match ← readCache hostname with
  | none => return none
  | some entry =>
    let now ← instantNow
    let age := now - entry.fetchedAt
    if entry.origin.isSome && age < originLifetime then return some entry.settled
    else
      match entry.retryAt with
      | none => return none
      | some retryAt =>
        let now ← instantNow
        if now < retryAt then return some entry.settled else return none

/-- The request and its outcome, while the mutex is held. -/
def requestOrigin (self : RegistryClient U) (hostname : String) : Code U (Except RegistryError U) :=
  match joinUrl (self.base hostname) ".well-known/terraform.json" with
  | .error error => .done (.error error)
  | .ok _ => do
    startDiscovery hostname
    let document ← awaitDiscovery hostname
    match self.discovered document with
    | .ok origin =>
      storeOrigin hostname origin
      return .ok origin
    | .error error => recordFailure hostname error

/-- `RegistryClient::discover`. -/
def discover (self : RegistryClient U) (hostname : String) : Code U (Except RegistryError U) := do
  match ← checkCache hostname with
  | some result => return result
  | none =>
    let mutex ← lockFor hostname
    acquire mutex
    let result ← (do
      match ← checkCache hostname with
      | some result => return result
      | none => requestOrigin self hostname)
    release mutex
    return result

/-- How a call ends. -/
inductive Out (U : Type) where
  | answered (hostname : String) (result : Except RegistryError U)
  | dropped

/-- A call with its trace points. -/
def call (self : RegistryClient U) (hostname : String) : Code U (Out U) := do
  let (known, window) ← enter hostname
  let result ← discover self hostname
  leave hostname known window result
  return .answered hostname result

end Programs

section Machine

/-- Discovery requests begin, and end when their answer has arrived. -/
inductive Event where
  | started (task : ℕ) (hostname : String) (instant : ℕ)
  | completed (hostname : String) (instant : ℕ) (success : Bool)
  deriving DecidableEq, Repr

/-- A finished call: how many discoveries of the host had succeeded and until
when a retry was barred when it began, how many had succeeded and what the time
was when it ended, and its answer. -/
structure Call (U : Type) where
  task : ℕ
  hostname : String
  known : ℕ
  window : Option ℕ
  total : ℕ
  finished : ℕ
  result : Except RegistryError U

structure Shared (U : Type) where
  /-- The monotonic clock, in nanoseconds. -/
  clock : ℕ
  cache : AList fun _ : String => DiscoveryEntry U
  /-- The mutexes that exist; none is ever removed. -/
  locks : AList fun _ : String => ℕ
  owner : ℕ → Option ℕ
  fresh : ℕ
  /-- Requests without an answer yet: the task and the host. -/
  inFlight : List (ℕ × String)
  /-- Answers that are not in the cache yet: the task, the host and the outcome. -/
  unrecorded : List (ℕ × String × Bool)
  /-- A record of the run, the latest first. -/
  history : List Event
  origins : List (String × U)
  calls : List (Call U)

/-- The origins discovered for the host, the latest first. -/
def Shared.successes {U : Type} (s : Shared U) (hostname : String) : List U :=
  (s.origins.filter fun e => e.1 = hostname).map Prod.snd

/-- What the environment decides. -/
inductive Choice (U : Type) where
  | ok
  | answer (document : Document U)

/-- Time passes. -/
inductive Move where
  | tick (duration : ℕ)

variable {U : Type} [UrlCrate U] [OriginCrate U]

/-- An operation that needs no answer from the environment. -/
def always {α : Type} (result : α × Shared U) : Choice U → Option (α × Shared U)
  | .ok => some result
  | .answer _ => none

/-- The mutex of the host. -/
def Shared.lockFor (s : Shared U) (hostname : String) : ℕ × Shared U :=
  match s.locks.lookup hostname with
  | some mutex => (mutex, s)
  | none => (s.fresh, { s with
      locks := s.locks.insert hostname s.fresh
      fresh := s.fresh + 1 })

/-- A failed discovery: the entry keeps its origin and may not retry for a while. -/
def Shared.recordFailure (s : Shared U) (t : ℕ) (hostname : String) (error : RegistryError) :
    Except RegistryError U × Shared U :=
  let entry := (s.cache.lookup hostname).getD ⟨none, s.clock, none⟩
  let entry := { entry with retryAt := some (s.clock + retryDelay) }
  (match entry.origin with
    | some origin => .ok origin
    | none => .error error,
  { s with
    cache := s.cache.insert hostname entry
    unrecorded := s.unrecorded.filter fun e => e.1 ≠ t })

/-- A successful discovery. -/
def Shared.storeOrigin (s : Shared U) (t : ℕ) (hostname : String) (origin : U) : Shared U :=
  { s with
    cache := s.cache.insert hostname ⟨some origin, s.clock, none⟩
    unrecorded := s.unrecorded.filter fun e => e.1 ≠ t
    origins := (hostname, origin) :: s.origins }

/-- The answer to a discovery request. -/
def Shared.arrive (s : Shared U) (self : RegistryClient U) (t : ℕ) (hostname : String)
    (document : Document U) : Shared U :=
  let success := (self.discovered document).isOk
  { s with
    inFlight := s.inFlight.filter fun e => e.1 ≠ t
    unrecorded := (t, hostname, success) :: s.unrecorded
    history := .completed hostname s.clock success :: s.history }

/-- One atomic operation of a call. -/
def exec (self : RegistryClient U) (t : ℕ) (s : Shared U) (op : Op U) (choice : Choice U) :
    Option (Res U op × Shared U) :=
  match op with
  | .readCache hostname => always (s.cache.lookup hostname, s) choice
  | .instantNow => always (s.clock, s) choice
  | .lockFor hostname => always (s.lockFor hostname) choice
  | .acquire mutex =>
    match s.owner mutex with
    | some _ => none
    | none => always ((), { s with owner := Function.update s.owner mutex (some t) }) choice
  | .release mutex => always ((), { s with owner := Function.update s.owner mutex none }) choice
  | .startDiscovery hostname => always ((), { s with
      inFlight := (t, hostname) :: s.inFlight
      history := .started t hostname s.clock :: s.history }) choice
  | .awaitDiscovery hostname =>
    match choice with
    | .ok => none
    | .answer document => some (document, s.arrive self t hostname document)
  | .storeOrigin hostname origin => always ((), s.storeOrigin t hostname origin) choice
  | .recordFailure hostname error => always (s.recordFailure t hostname error) choice
  | .enter hostname => always (((s.successes hostname).length,
      (s.cache.lookup hostname).bind DiscoveryEntry.retryAt), s) choice
  | .leave hostname known window result => always ((), { s with
      calls := ⟨t, hostname, known, window, (s.successes hostname).length, s.clock, result⟩ ::
        s.calls }) choice

/-- What the destructors of a dropped call give back at once. -/
def Shared.dropped (s : Shared U) (t : ℕ) : Shared U :=
  { s with
    owner := fun mutex => if s.owner mutex = some t then none else s.owner mutex
    inFlight := s.inFlight.filter fun e => e.1 ≠ t }

/-- The task that began this request. -/
def Event.task : Event → Option ℕ
  | .started task _ _ => some task
  | .completed _ _ _ => none

/-- Nothing is recorded of the task number. -/
def Shared.unused (s : Shared U) (t : ℕ) : Bool :=
  s.history.all (fun event => event.task ≠ some t) && s.calls.all (fun call => call.task ≠ t) &&
    s.inFlight.all (fun e => e.1 ≠ t) && s.unrecorded.all fun e => e.1 ≠ t

/-- The client with any number of calls. -/
def machine (self : RegistryClient U) :
    Machine (Op U) (Res U) (Out U) (Shared U) (Choice U) String Move where
  exec := exec self
  start t s hostname := if s.unused t then some (call self hostname, s) else none
  move s := fun
    | .tick duration => some { s with clock := s.clock + duration }
  cancel t s := fun
    | .acquire _ | .awaitDiscovery _ => some (s.dropped t)
    | _ => none
  unwind := .done .dropped
  reboot _ := none

/-- A new client. -/
def boot (U : Type) (clock : ℕ) : Shared U where
  clock
  cache := ∅
  locks := ∅
  owner := fun _ => none
  fresh := 0
  inFlight := []
  unrecorded := []
  history := []
  origins := []
  calls := []

end Machine

end OpenTfMirror.Discovery
