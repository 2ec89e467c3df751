import OpenTfMirror.FileNames
import OpenTfMirror.KeyedLocks
import OpenTfMirror.LockSections
import OpenTfMirror.Metadata

/-!
# The archive store

`load_or_fetch` with everything below it, cut at its atomic operations: file
system calls, the memo of verified files, the per-key locks, the download
permits, the outbound request, and the detached download task. SHA-256 is a
parameter.
-/

namespace OpenTfMirror.Storage

open TaskProgram Fallible KeyedLocks LockSections TextOps FileNames FileStore Outbound Provider Metadata

/-- The hash function of `sha2`. -/
class Sha256Crate where
  /-- The digest of all bytes fed to the hasher. -/
  digest : Bytes → Bytes

def hexDigit (n : ℕ) : Char := if n < 10 then Char.ofNat (48 + n) else Char.ofNat (87 + n)

/-- `hex::encode`. -/
def hexEncode (bytes : Bytes) : String :=
  String.ofList (bytes.flatMap fun b => [hexDigit (b.toNat / 16), hexDigit (b.toNat % 16)])

/-- The lower-case hexadecimal digest. -/
def sha256Hex [Sha256Crate] (bytes : Bytes) : String := hexEncode (Sha256Crate.digest bytes)

def maxConcurrentDownloads : ℕ := 8

def maxVerifiedEntries : ℕ := 16384

def hashBufferBytes : ℕ := 256 * 1024

structure ProviderArchiveKey where
  hostname : String
  providerNamespace : String
  providerType : String
  filename : String
  deriving DecidableEq, Repr

inductive ProviderStorageError where
  | invalidKey (message : String)
  | missingChecksum
  | checksumMismatch (expected actual : String)
  | tooLarge
  | policy (message : String)
  | redirect (message : String)
  | request (error : RequestError)
  | outbound (error : OutboundError)
  | io (error : IoError)
  deriving DecidableEq, Repr

structure VerifiedFile where
  identity : FileIdentity
  checksum : String
  deriving DecidableEq, Repr

/-- The settings of a store. -/
structure ProviderStorage where
  root : Path
  bundledMirror : Option Path
  maxArchiveBytes : ℕ
  outbound : OutboundClient
  deriving DecidableEq, Repr

/-- `ProviderStorage::archive_path`. -/
def ProviderStorage.archivePath (self : ProviderStorage) (key : ProviderArchiveKey) : Path :=
  self.root ++ ["providers", key.hostname, key.providerNamespace, key.providerType, key.filename]

/-- `ProviderStorage::bundled_path`. -/
def ProviderStorage.bundledPath (self : ProviderStorage) (key : ProviderArchiveKey) :
    Option Path :=
  self.bundledMirror.map fun root =>
    root ++ [key.hostname, key.providerNamespace, key.providerType, key.filename]

/-- `valid_component` of the store: no dots. -/
def validComponent (value : String) : Bool :=
  value ≠ "" && value ≠ "." && value ≠ ".." && value.utf8ByteSize ≤ 100 &&
    value.toList.all fun c => c.isAlphanum || c = '-' || c = '_'

/-- `valid_hostname`. -/
def validHostname (value : String) : Bool :=
  value ≠ "" && (splitAll '.' value).all validComponent

/-- `validate_key`. -/
def validateKey [SemverCrate] (key : ProviderArchiveKey) : Except ProviderStorageError Unit :=
  if !validHostname key.hostname || !validComponent key.providerNamespace ||
      !validComponent key.providerType ||
      key.filename.toList.any (fun c => c = '/' || c = '\\') ||
      !(ArchiveName.parse key.providerType key.filename).isOk then
    .error (.invalidKey "invalid path component")
  else .ok ()

/-- `expected_checksum`. -/
def expectedChecksum (metadata : PlatformMetadata) : Except ProviderStorageError String :=
  match metadata.shasum with
  | none => .error .missingChecksum
  | some checksum =>
    if isChecksum checksum then .ok (toAsciiLowercase checksum) else .error .missingChecksum

/-- What `symlink_metadata` returns. -/
structure FileMetadata where
  isFile : Bool
  identity : FileIdentity
  deriving DecidableEq, Repr

/-- The arguments that the detached task was given. -/
structure Job where
  key : ProviderArchiveKey
  metadata : PlatformMetadata
  expected : String
  destination : Path
  deriving DecidableEq, Repr

/-- The atomic operations of the store. -/
inductive Op (U : Type) where
  | symlinkMetadata (path : Path)
  /-- Look up the memo and compare. -/
  | verifiedMatches (path : Path) (identity : FileIdentity) (expected : String)
  /-- Open the path and hash what was opened. -/
  | hashFile (path : Path)
  | recordVerified (path : Path) (identity : FileIdentity) (checksum : String)
  | removeVerified (path : Path)
  | lock (op : LockOp ProviderArchiveKey)
  | acquirePermit
  | releasePermit
  | createDirAll (dir : Path)
  | nextSequence
  /-- The name of the temporary file, with the process number. -/
  | processId
  | createNew (path : Path)
  | outboundGet (url : U)
  | writeAll (path : Path) (bytes : Bytes)
  | syncAll (path : Path)
  | rename (source target : Path)
  | removeFile (path : Path)
  | syncParent (dir : Path)
  | spawn (job : Job)
  | join (job : ℕ)
  /-- A trace point: `download` is entered. -/
  | enterDownload
  /-- The detached task stores its result. -/
  | finish (result : Except ProviderStorageError Path)

/-- What each operation answers. -/
def Res (U : Type) : Op U → Type
  | .symlinkMetadata _ => Except IoError FileMetadata
  | .verifiedMatches _ _ _ => Bool
  | .hashFile _ => Except IoError (Option (String × FileIdentity))
  | .recordVerified _ _ _ | .removeVerified _ | .lock _ | .acquirePermit | .releasePermit
  | .enterDownload | .finish _ => Unit
  | .nextSequence | .processId | .spawn _ => ℕ
  | .outboundGet _ => Except OutboundError (Response U)
  | .createDirAll _ | .createNew _ | .writeAll _ _ | .syncAll _ | .rename _ _ | .removeFile _
  | .syncParent _ => Except IoError Unit
  | .join _ => Except ProviderStorageError Path

section Programs

variable {U : Type} [UrlCrate U] [SemverCrate] [Sha256Crate]

/-- Code of the store. -/
abbrev Code (U α : Type) : Type := Prog (Op U) (Res U) α

/-- Code of the store that may fail. -/
abbrev Task (U α : Type) : Type := Fallible (Op U) (Res U) ProviderStorageError α

section Operations

abbrev symlinkMetadata (path : Path) : Code U (Except IoError FileMetadata) :=
  .call (.symlinkMetadata path) .done

abbrev verifiedMatches (path : Path) (identity : FileIdentity) (expected : String) :
    Code U Bool :=
  .call (.verifiedMatches path identity expected) .done

abbrev hashFile (path : Path) : Code U (Except IoError (Option (String × FileIdentity))) :=
  .call (.hashFile path) .done

abbrev recordVerified (path : Path) (identity : FileIdentity) (checksum : String) :
    Code U Unit :=
  .call (.recordVerified path identity checksum) .done

abbrev removeVerified (path : Path) : Code U Unit := .call (.removeVerified path) .done

abbrev lock (op : LockOp ProviderArchiveKey) : Code U Unit := .call (.lock op) .done

abbrev acquirePermit : Code U Unit := .call .acquirePermit .done

abbrev releasePermit : Code U Unit := .call .releasePermit .done

abbrev createDirAll (dir : Path) : Code U (Except IoError Unit) :=
  .call (.createDirAll dir) .done

abbrev nextSequence : Code U ℕ := .call .nextSequence .done

abbrev processId : Code U ℕ := .call .processId .done

abbrev createNew (path : Path) : Code U (Except IoError Unit) := .call (.createNew path) .done

abbrev outboundGet (url : U) : Code U (Except OutboundError (Response U)) :=
  .call (.outboundGet url) .done

abbrev writeAll (path : Path) (bytes : Bytes) : Code U (Except IoError Unit) :=
  .call (.writeAll path bytes) .done

abbrev syncAll (path : Path) : Code U (Except IoError Unit) := .call (.syncAll path) .done

abbrev rename (source target : Path) : Code U (Except IoError Unit) :=
  .call (.rename source target) .done

abbrev removeFile (path : Path) : Code U (Except IoError Unit) :=
  .call (.removeFile path) .done

abbrev syncParent (dir : Path) : Code U (Except IoError Unit) := .call (.syncParent dir) .done

abbrev spawn (job : Job) : Code U ℕ := .call (.spawn job) .done

abbrev join (job : ℕ) : Code U (Except ProviderStorageError Path) := .call (.join job) .done

abbrev enterDownload : Code U Unit := .call .enterDownload .done

abbrev finish (result : Except ProviderStorageError Path) : Code U Unit :=
  .call (.finish result) .done

end Operations

/-- The operation, with an I/O error converted by `?`. -/
def io {α : Type} (program : Code U (Except IoError α)) : Task U α :=
  ExceptT.mk (program >>= fun
    | .ok value => .done (.ok value)
    | .error error => .done (.error (.io error)))

/-- `ProviderStorage::archive_matches_checksum`. -/
def archiveMatchesChecksum (self : ProviderStorage) (path : Path) (expected : String) :
    Task U Bool := do
  match ← lift (symlinkMetadata path) with
  | .error .notFound => return false
  | .error error => throw (.io error)
  | .ok metadata =>
    if !metadata.isFile || self.maxArchiveBytes < metadata.identity.len then return false
    else if ← lift (verifiedMatches path metadata.identity expected) then
      return true
    else
      match ← lift (hashFile path) with
      | .error error => throw (.io error)
      | .ok hashed =>
        match hashed with
        | some (actual, identity) =>
          if actual = expected then
            lift (recordVerified path identity expected)
            return true
          else
            lift (removeVerified path)
            return false
        | none =>
          lift (removeVerified path)
          return false

/-- The check of the bundled mirror, when there is one. -/
def bundledMatches (self : ProviderStorage) (key : ProviderArchiveKey) (expected : String) :
    Task U (Option Path) :=
  match self.bundledPath key with
  | none => pure none
  | some path => do
    if ← archiveMatchesChecksum self path expected then return some path else return none

/-- The loop over the body: count, bound, hash and write every chunk. Returns
everything the hasher was fed. -/
def receive (self : ProviderStorage) (temp : Path) :
    List (Except RequestError Bytes) → ℕ → Bytes → Task U Bytes
  | [], _, hashed => pure hashed
  | .error error :: _, _, _ => throw (.request error)
  | .ok chunk :: rest, total, hashed => do
    -- `u64::saturating_add`
    let total := min (total + chunk.length) (2 ^ 64 - 1)
    if self.maxArchiveBytes < total then throw .tooLarge
    else
      io (writeAll temp chunk)
      receive self temp rest total (hashed ++ chunk)

/-- `Response::error_for_status`. -/
def errorForStatus (response : Response U) : Except ProviderStorageError (Response U) :=
  if 400 ≤ response.status && response.status < 600 then .error (.request ⟨[]⟩) else .ok response

/-- The part of `download` in which the temporary file may be left behind. -/
def fillTemp (self : ProviderStorage) (url : U) (expected : String) (temp destination : Path) :
    Task U Unit := do
  io (createNew temp)
  match ← lift (outboundGet url) with
  | .error error => throw (.outbound error)
  | .ok response =>
    match errorForStatus response with
    | .error error => throw error
    | .ok response =>
      if response.contentLength.any fun length => self.maxArchiveBytes < length then
        throw .tooLarge
      else
        let hashed ← receive self temp response.chunks 0 []
        let actual := sha256Hex hashed
        if actual ≠ expected then throw (.checksumMismatch expected actual)
        else
          io (syncAll temp)
          io (rename temp destination)

/-- `TempCleanup`: on failure, remove the temporary file. -/
def withTempCleanup (temp : Path) (body : Task U Unit) : Task U Unit :=
  ExceptT.mk (do
    let result ← body.run
    match result with
    | .ok _ => return result
    | .error _ =>
      let _ ← removeFile temp
      return result)

/-- What follows the rename. -/
def publish (expected : String) (parent destination : Path) : Task U Unit := do
  io (syncParent parent)
  match ← lift (symlinkMetadata destination) with
  | .error _ => return ()
  | .ok metadata =>
    if metadata.isFile then
      lift (recordVerified destination metadata.identity expected)
      return ()
    else return ()

/-- `download` while the permit is held. -/
def downloadPermitted (self : ProviderStorage) (key : ProviderArchiveKey) (url : U)
    (expected : String) (destination : Path) : Task U Unit := do
  let parent := destination.dropLast
  io (createDirAll parent)
  let sequence ← lift nextSequence
  let pid ← lift processId
  let temp := parent ++ [tempName key.filename pid sequence]
  withTempCleanup temp (fillTemp self url expected temp destination)
  publish expected parent destination

/-- `ProviderStorage::download`. -/
def download (self : ProviderStorage) (key : ProviderArchiveKey) (metadata : PlatformMetadata)
    (expected : String) (destination : Path) : Task U Unit := do
  lift enterDownload
  match (UrlCrate.parse metadata.downloadUrl : Option U) with
  | none => throw (.invalidKey "download URL")
  | some url => ExceptT.mk (do
    acquirePermit
    let result ← (downloadPermitted self key url expected destination).run
    releasePermit
    return result)

/-- The body of `locked_load_or_fetch` inside the lock. -/
def loadOrFetchLocked (self : ProviderStorage) (job : Job) : Task U Path := do
  match ← bundledMatches self job.key job.expected with
  | some path => return path
  | none =>
    if ← archiveMatchesChecksum self job.destination job.expected then return job.destination
    else
      download self job.key job.metadata job.expected job.destination
      return job.destination

/-- `ProviderStorage::locked_load_or_fetch`. -/
def lockedLoadOrFetch (self : ProviderStorage) (job : Job) : Task U Path :=
  ExceptT.mk (guarded lock job.key (loadOrFetchLocked self job).run)

/-- The detached task. -/
def detached (self : ProviderStorage) (job : Job) : Code U Unit := do
  let result ← (lockedLoadOrFetch self job).run
  finish result

/-- `ProviderStorage::load_or_fetch`. -/
def loadOrFetch (self : ProviderStorage) (key : ProviderArchiveKey) (metadata : PlatformMetadata) :
    Task U Path :=
  match validateKey key with
  | .error error => throw error
  | .ok _ =>
    if metadata.filename ≠ key.filename then
      throw (.invalidKey "metadata filename does not match request")
    else
      match expectedChecksum metadata with
      | .error error => throw error
      | .ok expected => do
        match ← bundledMatches self key expected with
        | some path => return path
        | none =>
          let destination := self.archivePath key
          if ← archiveMatchesChecksum self destination expected then return destination
          else
            let job ← lift (spawn ⟨key, metadata, expected, destination⟩)
            ExceptT.mk (join job)

end Programs

end OpenTfMirror.Storage
