import OpenTfMirror.CertificateValidity
import OpenTfMirror.TaskLogic

/-!
# Reloading the TLS certificate

`ReloadingCertResolver` with any number of handshakes at once. A handshake reads
two clocks, then the cache under its lock; the one that claims the reload reads
the files outside the lock and writes the result back with the instant of its
claim. The environment picks what the files hold at every read.
-/

namespace OpenTfMirror.TlsReload

open TaskProgram TaskLogic Fallible FileStore CertificateValidity

/-- The parts of `rustls` that build a certified key. -/
class RustlsCrate where
  /-- `any_supported_type` succeeds. -/
  anySupportedType : Bytes → Bool
  /-- `CertifiedKey::keys_match` succeeds. -/
  keysMatch : List Bytes → Bytes → Bool

structure CertifiedKey where
  certs : List Bytes
  key : Bytes
  deriving DecidableEq, Repr

structure LoadedCertifiedKey where
  key : CertifiedKey
  notAfter : ℤ
  deriving DecidableEq, Repr

/-- The same pair, once it is cached. -/
abbrev CachedCertifiedKey := LoadedCertifiedKey

/-- `unix_timestamp`, of a time in nanoseconds before or after the epoch. -/
def unixTimestamp (time : ℤ) : ℤ :=
  if 0 ≤ time then min (time / 10 ^ 9) i64Max else -min (-time / 10 ^ 9) i64Max

/-- The checks of the chain in `load_certified_key`. -/
def checkChain (certs : List Bytes) (now : ℤ) : Except Report ℤ :=
  if certs = [] then .error ["TLS certificate file did not contain a certificate chain"]
  else validateCertificateValidity certs now

/-- `build_certified_key`. -/
def buildCertifiedKey [RustlsCrate] (certs : List Bytes) (key : Bytes) :
    Except Report CertifiedKey :=
  if !RustlsCrate.anySupportedType key then .error ["unsupported TLS private key type"]
  else if !RustlsCrate.keysMatch certs key then
    .error ["TLS certificate and private key do not match"]
  else .ok ⟨certs, key⟩

/-- Where the answer of a call comes from: the cache, a reload, or the cache
after a failed reload. -/
inductive Outcome where
  | cached
  | reloaded
  | failed
  deriving DecidableEq, Repr

/-- The atomic operations of a call. -/
inductive Op where
  | instantNow
  | systemNow
  /-- A look at the cache under the read lock. -/
  | readCached
  /-- The second look, under the write lock, which may claim the reload. -/
  | claim (interval now : ℕ)
  | readCerts
  | readKey
  | store (pair : CachedCertifiedKey) (now : ℕ)
  /-- Trace points: a call begins, a load succeeded, a call ends. -/
  | enter
  | noteLoad (loaded : LoadedCertifiedKey)
  | leave (started : ℤ) (outcome : Outcome) (result : Option CertifiedKey)
  deriving DecidableEq, Repr

/-- What each operation answers. -/
def Res : Op → Type
  | .instantNow => ℕ
  | .systemNow | .enter => ℤ
  | .readCached => CachedCertifiedKey × ℕ
  | .claim _ _ => Option CachedCertifiedKey
  | .readCerts => Except Report (List Bytes)
  | .readKey => Except Report Bytes
  | .store _ _ | .noteLoad _ | .leave _ _ _ => Unit

/-- Code of a call. -/
abbrev Code (α : Type) : Type := Prog Op Res α

section Programs

abbrev instantNow : Code ℕ := .call .instantNow .done

abbrev systemNow : Code ℤ := .call .systemNow .done

abbrev readCached : Code (CachedCertifiedKey × ℕ) := .call .readCached .done

abbrev claim (interval now : ℕ) : Code (Option CachedCertifiedKey) :=
  .call (.claim interval now) .done

abbrev readCerts : Code (Except Report (List Bytes)) := .call .readCerts .done

abbrev readKey : Code (Except Report Bytes) := .call .readKey .done

abbrev store (pair : CachedCertifiedKey) (now : ℕ) : Code Unit := .call (.store pair now) .done

abbrev enter : Code ℤ := .call .enter .done

abbrev noteLoad (loaded : LoadedCertifiedKey) : Code Unit := .call (.noteLoad loaded) .done

abbrev leave (started : ℤ) (outcome : Outcome) (result : Option CertifiedKey) : Code Unit :=
  .call (.leave started outcome result) .done

variable [RustlsCrate]

/-- `load_certified_key`. -/
def loadCertifiedKey : Fallible Op Res Report LoadedCertifiedKey := do
  match ← lift readCerts with
  | .error report => throw report
  | .ok certs =>
    let time ← lift systemNow
    match checkChain certs (unixTimestamp time) with
    | .error report => throw report
    | .ok notAfter =>
      match ← lift readKey with
      | .error report => throw report
      | .ok key =>
        match buildCertifiedKey certs key with
        | .error report => throw report
        | .ok certified =>
          lift (noteLoad ⟨certified, notAfter⟩)
          return ⟨certified, notAfter⟩

/-- The cached key, unless it has expired. -/
def unexpired (cached : CachedCertifiedKey) (nowEpoch : ℤ) : Option CertifiedKey :=
  if nowEpoch ≤ cached.notAfter then some cached.key else none

/-- `resolve_current_cert_option`. -/
def resolveCurrentCertOption (interval : ℕ) : Code (Outcome × Option CertifiedKey) := do
  let now ← instantNow
  let time ← systemNow
  let nowEpoch := unixTimestamp time
  let (cached, since) ← readCached
  if now - since < interval then return (.cached, unexpired cached nowEpoch)
  else
    match ← claim interval now with
    | some cached => return (.cached, unexpired cached nowEpoch)
    | none =>
      match ← loadCertifiedKey.run with
      | .ok loaded =>
        store loaded now
        return (.reloaded, some loaded.key)
      | .error _ =>
        let (cached, _) ← readCached
        return (.failed, unexpired cached nowEpoch)

/-- A call with its trace points. -/
def resolve (interval : ℕ) : Code (Option CertifiedKey) := do
  let started ← enter
  let (outcome, result) ← resolveCurrentCertOption interval
  leave started outcome result
  return result

end Programs

section Machine

/-- A pair that became the cached one: by which call, and when its reload was
claimed. -/
structure Store where
  task : Option ℕ
  claimed : ℕ
  pair : CachedCertifiedKey
  deriving DecidableEq, Repr

/-- A finished call, with the wall clock at its start and at its end. -/
structure Call where
  task : ℕ
  started : ℤ
  finished : ℤ
  outcome : Outcome
  result : Option CertifiedKey
  deriving DecidableEq, Repr

/-- The clocks and the cache, and a record of the run, the latest first. -/
structure Shared where
  /-- The monotonic clock, in nanoseconds. -/
  clock : ℕ
  /-- The wall clock, in nanoseconds from the epoch. -/
  time : ℤ
  cached : CachedCertifiedKey
  /-- The instant beside the cached pair. -/
  since : ℕ
  loads : List LoadedCertifiedKey
  claims : List ℕ
  stores : List Store
  calls : List Call
  deriving DecidableEq, Repr

/-- What the environment decides. -/
inductive Choice where
  | ok
  | certs (content : Except Report (List Bytes))
  | key (content : Except Report Bytes)

/-- The clocks run, each on its own. -/
inductive Move where
  | tick (duration : ℕ)
  | wall (duration : ℕ)

/-- An operation that needs no answer from the environment. -/
def always {α : Type} (result : α × Shared) : Choice → Option (α × Shared)
  | .ok => some result
  | _ => none

/-- The write lock: someone else reloaded, or this call claims the reload. -/
def Shared.claim (s : Shared) (interval now : ℕ) : Option CachedCertifiedKey × Shared :=
  if now - s.since < interval then (some s.cached, s)
  else (none, { s with since := now, claims := now :: s.claims })

/-- One atomic operation of a call. -/
def exec (t : ℕ) (s : Shared) (op : Op) (choice : Choice) : Option (Res op × Shared) :=
  match op with
  | .instantNow => always (s.clock, s) choice
  | .systemNow => always (s.time, s) choice
  | .readCached => always ((s.cached, s.since), s) choice
  | .claim interval now => always (s.claim interval now) choice
  | .readCerts =>
    match choice with
    | .certs content => some (content, s)
    | _ => none
  | .readKey =>
    match choice with
    | .key content => some (content, s)
    | _ => none
  | .store pair now => always ((), { s with
      cached := pair
      since := now
      stores := ⟨some t, now, pair⟩ :: s.stores }) choice
  | .enter => always (s.time, s) choice
  | .noteLoad loaded => always ((), { s with loads := loaded :: s.loads }) choice
  | .leave started outcome result => always ((), { s with
      calls := ⟨t, started, s.time, outcome, result⟩ :: s.calls }) choice

/-- Nothing is recorded of the task number. -/
def Shared.unused (s : Shared) (t : ℕ) : Bool :=
  s.calls.all (fun call => call.task ≠ t) && s.stores.all fun store => store.task ≠ some t

def move (s : Shared) : Move → Option Shared
  | .tick duration => some { s with clock := s.clock + duration }
  | .wall duration => some { s with time := s.time + duration }

/-- The resolver with any number of calls, which run to their end. -/
def machine [RustlsCrate] (interval : ℕ) :
    Machine Op Res (Option CertifiedKey) Shared Choice Unit Move where
  exec := exec
  start t s _ := if s.unused t then some (resolve interval, s) else none
  move := move
  cancel _ _ _ := none
  unwind := .done none
  reboot _ := none

/-- `ReloadingCertResolver::new`, when the files hold this and the clocks read
this. -/
def ReloadingCertResolver.new [RustlsCrate] (certs : Except Report (List Bytes))
    (key : Except Report Bytes) (time : ℤ) (clock : ℕ) : Except Report Shared := do
  let certs ← certs
  let notAfter ← checkChain certs (unixTimestamp time)
  let key ← key
  let certified ← buildCertifiedKey certs key
  .ok {
    clock
    time
    cached := ⟨certified, notAfter⟩
    since := clock
    loads := [⟨certified, notAfter⟩]
    claims := []
    stores := [⟨none, clock, ⟨certified, notAfter⟩⟩]
    calls := [] }

end Machine

end OpenTfMirror.TlsReload
