import OpenTfMirror.PlainLibraries
import OpenTfMirror.StorageProgress

/-!
# What the archive store guarantees

Publication of archives is all-or-nothing, the memo of verified files agrees
with hashing again, and an archive that is in place is not downloaded again.
Each holds in every reachable state of the store.
-/

namespace OpenTfMirror.ArchiveStore

open TaskProgram TaskLogic KeyedLocks LockSections TextOps FileNames FileStore Outbound Provider
  Metadata Storage StorageMachine StorageInvariant StorageSteps StorageProofs StorageTasks
  StorageProgress PlainLibraries

section Guarantees

variable {U : Type} [UrlCrate U] [SemverCrate] [Sha256Crate]
variable {store : ProviderStorage} {t : ℕ} {s : Shared U}

/-- No answer in the list is a failure. -/
def NoFailure (choices : List (Choice U)) : Prop := ∀ message, Choice.fail message ∉ choices

/-- `archive_matches_checksum` answers true on this file at the path: it can
come to an answer, and without an I/O error it gives no other. -/
def Accepts (store : ProviderStorage) (path : Path) (expected : String) (file : File)
    (s : Shared U) : Prop :=
  s.files path = some (.regular file) → ∀ t,
    (∃ choices s', NoFailure choices ∧
      solo (exec store t) (archiveMatchesChecksum store path expected).run s choices =
        some (.ok true, s')) ∧
    ∀ choices result s', NoFailure choices →
      solo (exec store t) (archiveMatchesChecksum store path expected).run s choices =
        some (result, s') → result = .ok true

omit [UrlCrate U] [SemverCrate] [Sha256Crate] in
/-- Consulting the memo leaves the files alone. -/
theorem verifiedMatches_files (s : Shared U) (t : ℕ) (path : Path) (identity : FileIdentity)
    (expected : String) : (s.verifiedMatches t path identity expected).2.files = s.files := by
  unfold Shared.verifiedMatches
  split
  · rfl
  · split
    · split <;> rfl
    · rfl

/-- The check after its memo lookup. -/
def afterMemo (path : Path) (expected : String) (hit : Bool) :
    Code U (Except ProviderStorageError Bool) :=
  if hit = true then .done (.ok true)
  else .call (.hashFile path) fun
    | .error error => .done (.error (.io error))
    | .ok (some (actual, identity)) =>
      if actual = expected then
        .call (.recordVerified path identity expected) fun _ => .done (.ok true)
      else .call (.removeVerified path) fun _ => .done (.ok false)
    | .ok none => .call (.removeVerified path) fun _ => .done (.ok false)

omit [UrlCrate U] [SemverCrate] [Sha256Crate] in
/-- The check of a regular file within the bound, operation by operation. -/
theorem archiveMatchesChecksum_run (path : Path) (expected : String) {file : File}
    (hlen : file.bytes.length ≤ store.maxArchiveBytes) :
    ∃ next, (archiveMatchesChecksum (U := U) store path expected).run =
        .call (.symlinkMetadata path) next ∧
      next (.ok ⟨true, file.identity⟩) =
        .call (.verifiedMatches path file.identity expected) (afterMemo path expected) := by
  have hguard : (!true || decide (store.maxArchiveBytes < file.identity.len)) = false := by
    have hbound : ¬store.maxArchiveBytes < file.bytes.length := by omega
    simp [File.identity, hbound]
  refine ⟨_, rfl, ?_⟩
  simp only [Prog.bind, ExceptT.bindCont, hguard, Bool.false_eq_true, if_false]
  refine congrArg (Prog.call _) (funext fun hit => ?_)
  cases hit with
  | true => rfl
  | false =>
    refine congrArg (Prog.call _) (funext fun hashed => ?_)
    cases hashed with
    | error error => rfl
    | ok found =>
      cases found with
      | none => rfl
      | some digest =>
        obtain ⟨actual, identity⟩ := digest
        by_cases hactual : actual = expected
        · simp only [Prog.bind, ExceptT.bindCont, hactual, if_true]
          rfl
        · simp only [Prog.bind, ExceptT.bindCont, hactual, if_false]
          rfl

omit [UrlCrate U] [SemverCrate] in
/-- Hashing the accepted file gives its checksum. -/
theorem hashFile_accepted {path : Path} {expected : String} {file : File}
    (hlen : file.bytes.length ≤ store.maxArchiveBytes) (hdigest : sha256Hex file.bytes = expected)
    (hfile : s.files path = some (.regular file)) {reads : List Bytes} (hreads : IsReading file reads) :
    s.hashFile store.maxArchiveBytes path (.reads reads) =
      some (.ok (some (expected, file.identity)), s) := by
  have hopened : (s.files path).bind Node.opened = some file := by
    rw [hfile]
    rfl
  simp only [Shared.hashFile, hopened, hreads, if_true, hashOpened_eq hreads hlen, hdigest]

omit [SemverCrate] in
/-- After the memo lookup, the check of the accepted file answers true. -/
theorem afterMemo_accepts {path : Path} {expected : String} {file : File} (hit : Bool)
    (hlen : file.bytes.length ≤ store.maxArchiveBytes) (hdigest : sha256Hex file.bytes = expected)
    (hfile : s.files path = some (.regular file)) :
    (∃ choices s', NoFailure choices ∧
      solo (exec store t) (afterMemo path expected hit) s choices = some (.ok true, s')) ∧
    ∀ choices result s', NoFailure choices →
      solo (exec store t) (afterMemo path expected hit) s choices = some (result, s') →
        result = .ok true := by
  cases hit with
  | true =>
    refine ⟨⟨[], s, by simp [NoFailure], rfl⟩, fun choices result s' _ hsolo => ?_⟩
    cases hsolo
    rfl
  | false =>
    constructor
    · let reads := file.bytes.map fun b => [b]
      have hhash := hashFile_accepted hlen hdigest hfile (isReading_bytes file)
      refine ⟨[.reads reads, .ok],
        { s with verified := memoRecord s.verified path file.identity expected },
        by simp [NoFailure], ?_⟩
      refine (solo_cons hhash).trans ?_
      simp only [if_true]
      exact solo_cons rfl
    · intro choices result s' hcalm hsolo
      obtain ⟨choice, rest, answer, s₁, rfl, hexec, hsolo⟩ := solo_call hsolo
      have hhashed : answer = .ok (some (expected, file.identity)) := by
        change s.hashFile store.maxArchiveBytes path choice = some (answer, s₁) at hexec
        cases choice with
        | ok =>
          simp [Shared.hashFile, hfile, Node.opened] at hexec
        | reads reads =>
          by_cases hreads : IsReading file reads
          · rw [hashFile_accepted hlen hdigest hfile hreads] at hexec
            cases hexec
            rfl
          · simp [Shared.hashFile, hfile, Node.opened, hreads] at hexec
        | fail message => exact absurd List.mem_cons_self (hcalm message)
        | _ => cases hexec
      subst hhashed
      simp only [if_true] at hsolo
      obtain ⟨choice, rest, answer, s₂, rfl, -, hsolo⟩ := solo_call hsolo
      cases hsolo
      rfl

omit [SemverCrate] in
/-- A file within the bound with the checksum is accepted, by the memo or by its
hash. -/
theorem accepts_of_digest {path : Path} {expected : String} {file : File}
    (hlen : file.bytes.length ≤ store.maxArchiveBytes) (hdigest : sha256Hex file.bytes = expected) :
    Accepts store path expected file s := by
  intro hfile t
  obtain ⟨next, hrun, hnext⟩ := archiveMatchesChecksum_run (U := U) path expected hlen
  rw [hrun]
  let s₁ : Shared U := { s with looked := Function.update s.looked t (some (path, file)) }
  have hlook : s.symlinkMetadata t path .ok = some (.ok ⟨true, file.identity⟩, s₁) := by
    simp only [Shared.symlinkMetadata, hfile]
    rfl
  let memo := s₁.verifiedMatches t path file.identity expected
  have hfile₂ : memo.2.files path = some (.regular file) := by
    rw [verifiedMatches_files]
    exact hfile
  obtain ⟨hcan, honly⟩ := afterMemo_accepts (t := t) memo.1 hlen hdigest hfile₂
  constructor
  · obtain ⟨choices, s', hcalm, hsolo⟩ := hcan
    refine ⟨.ok :: .ok :: choices, s', by simpa [NoFailure] using hcalm, ?_⟩
    refine (solo_cons hlook).trans ?_
    rw [hnext]
    exact (solo_cons rfl).trans hsolo
  · intro choices result s' hcalm hsolo
    obtain ⟨choice, rest, answer, s₂, rfl, hexec, hsolo⟩ := solo_call hsolo
    change s.symlinkMetadata t path choice = some (answer, s₂) at hexec
    cases choice with
    | ok =>
      rw [hlook] at hexec
      cases hexec
      rw [hnext] at hsolo
      obtain ⟨choice, rest, hit, s₃, rfl, hexec, hsolo⟩ := solo_call hsolo
      cases choice with
      | ok =>
        have hmemo : memo = (hit, s₃) := Option.some.inj hexec
        have hhit : hit = memo.1 := (congrArg Prod.fst hmemo).symm
        have hs₃ : s₃ = memo.2 := (congrArg Prod.snd hmemo).symm
        subst hhit hs₃
        refine honly rest result s' (fun message hmem => hcalm message ?_) hsolo
        exact List.mem_cons_of_mem _ (List.mem_cons_of_mem _ hmem)
      | _ => cases hexec
    | fail message => exact absurd List.mem_cons_self (hcalm message)
    | _ => cases hexec

/-- The store starts over a directory; no task runs yet. -/
def launched (disk : AList fun _ : Path => Node) (pids : ℕ → ℕ) : Conf U :=
  ⟨boot disk pids, fun _ => none⟩

/-- Archives appear complete and verified, or not at all. -/
structure AllOrNothing (store : ProviderStorage) (disk : AList fun _ : Path => Node)
    (c : Conf U) : Prop where
  /-- An archive is what the directory had, or a complete download. -/
  content : ∀ key, ValidKey key →
    c.shared.files (store.archivePath key) = disk.lookup (store.archivePath key) ∨
      ∃ p ∈ c.shared.published, p.job.key = key ∧ VerifiedPublication store p ∧
        c.shared.files (store.archivePath key) = some (.regular p.file)
  /-- A call whose job entered the download and succeeded returned the path of a
  file that the cache check accepts. -/
  returned : ∀ t path call number,
    c.tasks t = some (.done (.returned (.ok path))) → c.shared.calls t = some call →
    call.job = some number → .entered call.key number ∈ c.shared.events →
    path = store.archivePath call.key ∧ ∃ p ∈ c.shared.published, p.number = number ∧
      p.job.key = call.key ∧ p.job.metadata = call.metadata ∧ VerifiedPublication store p ∧
      ∀ s : Shared U, Accepts store path p.job.expected p.file s

end Guarantees

section Runs

local instance : SemverCrate := plainSemver

local instance : Sha256Crate := plainSha256

/-- Actions of one run with the plain libraries. -/
abbrev Actions : Type := List (Action (Choice PlainUrl) Entry Move)

/-- A call that finds nothing and spawns its job. -/
def callMisses (t : ℕ) : Actions :=
  .start t (.call plainKey plainMetadata) :: List.replicate 2 (.run t .ok)

/-- The task of a job up to its request. -/
def jobRequests (t number status : ℕ) : Actions :=
  .start t (.detached number) :: List.replicate 8 (.run t .ok) ++
    [.run t (.created (some 5) 1 7), .run t (.network (plainAnswers status))]

/-- A call downloads the archive, and a second one finds it in the memo. -/
def downloadRun : Actions :=
  callMisses 0 ++ jobRequests 1 0 200 ++ List.replicate 12 (.run 1 .ok) ++ [.run 0 .ok] ++
    (.start 2 (.call plainKey plainMetadata) :: List.replicate 2 (.run 2 .ok))

/-- The configuration in which the plain store starts. -/
abbrev plainStart : Conf PlainUrl := launched ∅ fun _ => 1

end Runs

section Guarantees

variable {U : Type} [UrlCrate U] [SemverCrate] [Sha256Crate]
variable {store : ProviderStorage} {t : ℕ} {s : Shared U}

/-- The memo speaks about files as their hashes do. -/
structure MemoAgrees (store : ProviderStorage) (c : Conf U) : Prop where
  /-- A file that was ever seen at an entry's path, with the entry's identity,
  has the entry's checksum. -/
  entries : ∀ path entry file, c.shared.verified.lookup path = some entry →
    (path, file) ∈ c.shared.seen → file.identity = entry.identity →
    sha256Hex file.bytes = entry.checksum
  /-- A hit answered what hashing the file that was looked at would give. -/
  hits : ∀ hit ∈ c.shared.hits, ∀ reads, IsReading hit.file reads →
    hashOpened store.maxArchiveBytes hit.file reads = some (hit.checksum, hit.file.identity)

end Guarantees

section Runs

local instance : SemverCrate := plainSemver

local instance : Sha256Crate := plainSha256

end Runs

section Guarantees

variable {U : Type} [UrlCrate U] [SemverCrate] [Sha256Crate]
variable {store : ProviderStorage} {t : ℕ} {s : Shared U}

/-- Operations that only `download` performs. -/
def isDownload : Op U → Bool
  | .acquirePermit | .releasePermit | .createDirAll _ | .nextSequence | .processId | .createNew _
  | .outboundGet _ | .writeAll _ _ | .syncAll _ | .rename _ _ | .removeFile _ | .syncParent _
  | .enterDownload => true
  | _ => false

omit [UrlCrate U] in
/-- A download runs inside the section of its key. -/
theorem inside_of_isDownload {focus : Focus} {op : Op U} (hpre : Pre store focus t op s)
    (hop : isDownload op = true) : Inside t s := by
  cases op with
  | acquirePermit => exact hpre.1
  | releasePermit => exact hpre
  | syncParent dir => exact hpre
  | createDirAll dir => exact hpre.1
  | nextSequence => exact hpre.1
  | processId => exact hpre.1
  | outboundGet url => exact hpre.1
  | createNew path => exact hpre.2.1
  | writeAll path bytes => exact hpre.2.1
  | syncAll path => exact hpre.2.1
  | removeFile path => exact hpre.2.1
  | rename source target =>
    obtain ⟨-, -, number, job, response, hruns, hholds, -⟩ := hpre
    exact ⟨number, job, hruns, hholds⟩
  | enterDownload =>
    obtain ⟨⟨number, job, hruns, hholds, -⟩, -⟩ := hpre
    exact ⟨number, job, hruns, hholds⟩
  | _ => cases hop

/-- The task is downloading the key's archive: it has a permit, or stands at an
operation of the download. -/
def Downloading (key : ProviderArchiveKey) (t : ℕ) (c : Conf U) : Prop :=
  (∃ number job, Runs t number job c.shared ∧ job.key = key) ∧
    (t ∈ c.shared.permits ∨ ∃ op next, c.tasks t = some (.call op next) ∧ isDownload op = true)

/-- What holds of the calls for a key that all expect one checksum. -/
structure DownloadedOnce (store : ProviderStorage) (key : ProviderArchiveKey) (expected : String)
    (c : Conf U) : Prop where
  /-- After a rename no download is entered and no request is sent. -/
  ordered : Ordered key c.shared.events
  /-- One download at a time. -/
  alone : ∀ t t', Downloading key t c → Downloading key t' c → t = t'
  /-- A finished call that was not refused has one of its two paths, unless its
  own download was entered before any rename and failed without one. -/
  answered : ∀ t call result, c.tasks t = some (.done (.returned result)) →
    c.shared.calls t = some call → call.key = key → refusal call.key call.metadata = none →
    (∃ path, result = .ok path ∧
      (path = store.archivePath key ∨ store.bundledPath key = some path)) ∨
    ∃ number error, call.job = some number ∧ result = .error error ∧
      .entered key number ∈ c.shared.events ∧ .renamed key number ∉ c.shared.events
  /-- After a rename every call that was not dropped can come to its end. -/
  ends : (∃ n, .renamed key n ∈ c.shared.events) → ∀ t call, c.shared.calls t = some call →
    call.key = key → ∃ c' result, (machine store).Run (policy (some (key, expected))) c c' ∧
      c'.tasks t = some (.done (.returned result))

end Guarantees

section Runs

local instance : SemverCrate := plainSemver

local instance : Sha256Crate := plainSha256

/-- The checksum that the plain calls expect. -/
def plainChecksum : String := "ba7816bf8f01cfea414140de5dae2223b00361a396177a9cb410ff61f20015ad"

/-- Two calls spawn their jobs. The first job's request is answered with an
error; the second job then downloads and renames. -/
def failThenDownload : Actions :=
  callMisses 0 ++ callMisses 1 ++ jobRequests 2 0 500 ++ List.replicate 6 (.run 2 .ok) ++
    jobRequests 3 1 200 ++ List.replicate 12 (.run 3 .ok)

/-- The action is a plain call, starts a job, or performs an operation that does
not fail. -/
def isPlain : Action (Choice PlainUrl) Entry Move → Bool
  | .start _ (.call key metadata) => key = plainKey && metadata = plainMetadata
  | .start _ (.detached _) => true
  | .run _ (.fail _) | .run _ (.cut _ _) | .run _ (.lost _) => false
  | .run _ _ => true
  | _ => false

/-- Plain actions may happen in the runs for the plain key and its checksum. -/
theorem permitted_of_plain {actions : Actions} (h : actions.all isPlain = true) :
    ∀ action ∈ actions, ∀ c : Conf PlainUrl,
      (policy (some (plainKey, plainChecksum))).Permits c action := by
  intro action haction c
  have hplain := List.all_eq_true.mp h action haction
  cases action with
  | start t entry =>
    cases entry with
    | call key metadata =>
      simp only [isPlain, Bool.and_eq_true, decide_eq_true_eq] at hplain
      intro _ e he
      have hexpected : expectedChecksum plainMetadata = .ok plainChecksum := by decide +kernel
      rw [hplain.2, hexpected] at he
      cases he
      rfl
    | detached number => trivial
  | run t choice =>
    intro _ _ _
    cases choice <;> trivial
  | _ => cases hplain

/-- The task is at an operation. -/
def awaits (c : Conf PlainUrl) (t : ℕ) : Bool :=
  match c.tasks t with
  | some (.call _ _) => true
  | _ => false

/-- The task has returned an error. -/
def failed (c : Conf PlainUrl) (t : ℕ) : Bool :=
  match c.tasks t with
  | some (.done (.returned (.error _))) => true
  | _ => false

end Runs

end OpenTfMirror.ArchiveStore
