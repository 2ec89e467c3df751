import OpenTfMirror.ArchiveStore
import OpenTfMirror.TaskTraces

/-!
# The order of the archive lookup

A lookup checks the bundled file, then the cached one, and goes on to the
network when neither has the checksum. It runs twice: before the task of the
download is spawned, and inside the lock of that task. An error of the first
check ends it, so a bundled file that cannot be read hides a cached one.
-/

namespace OpenTfMirror.ArchiveLookup

open TaskProgram TaskLogic TaskHistory TaskTraces Fallible KeyedLocks LockSections FileNames
  FileStore Outbound Provider Metadata Storage StorageMachine StorageProofs StorageInvariant ArchiveStore

section States

/-- The state of a file, as one lookup meets it. -/
inductive FileState where
  | absent
  | notRegular
  /-- A regular file. The memo may know it under the checksum, and opening or
  reading it may fail. -/
  | regular (file : File) (known : Bool) (reading : Option String)
  /-- Its metadata cannot be read, for another reason than that it is absent. -/
  | statFails (message : String)
  deriving DecidableEq, Repr

variable [Sha256Crate] (self : ProviderStorage) (expected : String)

/-- The content has the checksum: the file is within the bound, and it is known
or can be read. -/
def FileState.Verifies : FileState → Prop
  | .regular file known reading => file.bytes.length ≤ self.maxArchiveBytes ∧
      sha256Hex file.bytes = expected ∧ (known = true ∨ reading = none)
  | _ => False

/-- The file must be inspected, and this fails with an I/O error. -/
def FileState.Fails : FileState → Prop
  | .statFails _ => True
  | .regular file known reading =>
    file.bytes.length ≤ self.maxArchiveBytes ∧ known = false ∧ reading ≠ none
  | _ => False

/-- The memo knows the file under the checksum of another content. -/
def FileState.Misleads : FileState → Prop
  | .regular file known _ => file.bytes.length ≤ self.maxArchiveBytes ∧ known = true ∧
      sha256Hex file.bytes ≠ expected
  | _ => False

/-- What hashing a file comes to. -/
def hashingOutcome (file : File) : Option String → Except ProviderStorageError Bool
  | some message => .error (.io (.other message))
  | none => .ok (decide (sha256Hex file.bytes = expected))

/-- What the check of a file in this state comes to. -/
def FileState.probe : FileState → Except ProviderStorageError Bool
  | .absent | .notRegular => .ok false
  | .statFails message => .error (.io (.other message))
  | .regular file known reading =>
    if self.maxArchiveBytes < file.bytes.length then .ok false
    else if known then .ok true
    else hashingOutcome expected file reading

variable {self expected} {state : FileState}

/-- A file within the bound is looked up in the memo, and hashed if that fails. -/
theorem probe_regular {file : File} {known : Bool} {reading : Option String}
    (hlen : file.bytes.length ≤ self.maxArchiveBytes) :
    (FileState.regular file known reading).probe self expected =
      if known then .ok true else hashingOutcome expected file reading := by
  have hbound : ¬ self.maxArchiveBytes < file.bytes.length := by omega
  simp only [FileState.probe, hbound, if_false]

/-- A larger file is not. -/
theorem probe_large {file : File} {known : Bool} {reading : Option String}
    (hlen : ¬ file.bytes.length ≤ self.maxArchiveBytes) :
    (FileState.regular file known reading).probe self expected = .ok false := by
  have hbound : self.maxArchiveBytes < file.bytes.length := by omega
  simp only [FileState.probe, hbound, if_true]

/-- The check answers true for a file that verifies or misleads. -/
theorem probe_true_iff :
    state.probe self expected = .ok true ↔
      state.Verifies self expected ∨ state.Misleads self expected := by
  cases state with
  | absent => simp [FileState.probe, FileState.Verifies, FileState.Misleads]
  | notRegular => simp [FileState.probe, FileState.Verifies, FileState.Misleads]
  | statFails message => simp [FileState.probe, FileState.Verifies, FileState.Misleads]
  | regular file known reading =>
    by_cases hlen : file.bytes.length ≤ self.maxArchiveBytes
    · rw [probe_regular hlen]
      cases known with
      | true =>
        by_cases hdigest : sha256Hex file.bytes = expected
        · simp [FileState.Verifies, hlen, hdigest]
        · simp [FileState.Verifies, FileState.Misleads, hlen, hdigest]
      | false =>
        cases reading with
        | none => simp [FileState.Verifies, FileState.Misleads, hashingOutcome, hlen]
        | some message => simp [FileState.Verifies, FileState.Misleads, hashingOutcome]
    · rw [probe_large hlen]
      simp [FileState.Verifies, FileState.Misleads, hlen]

/-- The check ends with an error for a file that must be inspected and cannot be. -/
theorem probe_error_iff :
    (∃ error, state.probe self expected = .error error) ↔ state.Fails self := by
  cases state with
  | absent => simp [FileState.probe, FileState.Fails]
  | notRegular => simp [FileState.probe, FileState.Fails]
  | statFails message => simp [FileState.probe, FileState.Fails]
  | regular file known reading =>
    by_cases hlen : file.bytes.length ≤ self.maxArchiveBytes
    · rw [probe_regular hlen]
      cases known with
      | true => simp [FileState.Fails]
      | false =>
        cases reading with
        | none => simp [FileState.Fails, hashingOutcome]
        | some message => simp [FileState.Fails, hashingOutcome, hlen]
    · rw [probe_large hlen]
      simp [FileState.Fails, hlen]

theorem not_verifies_of_misleads (h : state.Misleads self expected) :
    ¬ state.Verifies self expected := by
  intro hverifies
  cases state with
  | regular file known reading => exact h.2.2 hverifies.2.1
  | _ => exact h

/-- A file whose check answers false neither verifies nor misleads nor fails. -/
theorem probe_false (h : state.probe self expected = .ok false) :
    ¬ state.Verifies self expected ∧ ¬ state.Misleads self expected ∧ ¬ state.Fails self := by
  refine ⟨fun hverifies => ?_, fun hmisleads => ?_, fun hfails => ?_⟩
  · have htrue := probe_true_iff.mpr (.inl hverifies)
    rw [h] at htrue
    cases htrue
  · have htrue := probe_true_iff.mpr (.inr hmisleads)
    rw [h] at htrue
    cases htrue
  · obtain ⟨error, herror⟩ := probe_error_iff.mpr hfails
    rw [h] at herror
    cases herror

/-- Neither does one whose check ends with an error, apart from failing. -/
theorem probe_error {error : ProviderStorageError} (h : state.probe self expected = .error error) :
    ¬ state.Verifies self expected ∧ ¬ state.Misleads self expected ∧ state.Fails self := by
  refine ⟨fun hverifies => ?_, fun hmisleads => ?_, probe_error_iff.mp ⟨error, h⟩⟩
  · have htrue := probe_true_iff.mpr (.inl hverifies)
    rw [h] at htrue
    cases htrue
  · have htrue := probe_true_iff.mpr (.inr hmisleads)
    rw [h] at htrue
    cases htrue

end States

section Answers

variable {U : Type} [Sha256Crate]

/-- The answer agrees with the state of the file at the path. -/
def FileState.Shows (self : ProviderStorage) (expected : String) (path : Path) (state : FileState) :
    Sigma (Res U) → Prop
  | ⟨.symlinkMetadata asked, answer⟩ => asked = path →
    match state with
    | .absent => answer = Except.error IoError.notFound
    | .notRegular => ∃ identity, answer = Except.ok (FileMetadata.mk false identity)
    | .regular file _ _ => answer = Except.ok (FileMetadata.mk true file.identity)
    | .statFails message => answer = Except.error (IoError.other message)
  | ⟨.verifiedMatches asked identity checksum, answer⟩ => asked = path →
    match state with
    | .regular file known _ => identity = file.identity → checksum = expected → answer = known
    | _ => True
  | ⟨.hashFile asked, answer⟩ => asked = path →
    match state with
    | .regular file _ none => ∃ reads, IsReading file reads ∧
        answer = Except.ok (hashOpened self.maxArchiveBytes file reads)
    | .regular _ _ (some message) => answer = Except.error (IoError.other message)
    | _ => True
  | _ => True

/-- A state of what stands at a path. -/
def FileState.At (node : Option Node) : FileState → Prop
  | .absent => node = none
  | .notRegular => node ≠ none ∧ ∀ file, node ≠ some (.regular file)
  | .regular file _ _ => node = some (.regular file)
  | .statFails _ => True

variable [UrlCrate U] [SemverCrate] {self : ProviderStorage} {expected : String} {path : Path}

omit [Sha256Crate] [UrlCrate U] [SemverCrate] in
/-- What stands at a path has a state, whatever the memo knows and reading does. -/
theorem exists_state (s : Shared U) (path : Path) (known : Bool) (reading : Option String) :
    ∃ state : FileState, state.At (s.files path) ∧
      ∀ file, s.files path = some (.regular file) → state = .regular file known reading := by
  cases hnode : s.files path with
  | none => exact ⟨.absent, rfl, nofun⟩
  | some node =>
    cases node with
    | regular file =>
      refine ⟨.regular file known reading, rfl, fun found hfound => ?_⟩
      cases hfound
      rfl
    | symlink target => exact ⟨.notRegular, ⟨nofun, nofun⟩, nofun⟩
    | other => exact ⟨.notRegular, ⟨nofun, nofun⟩, nofun⟩

omit [SemverCrate] in
/-- Every answer of the machine agrees with a state of what stands at the path. -/
theorem exec_shows {t : ℕ} {s s' : Shared U} {op : Op U} {choice : Choice U} {answer : Res U op}
    (h : exec self t s op choice = some (answer, s')) :
    ∃ state : FileState, state.At (s.files path) ∧ state.Shows self expected path ⟨op, answer⟩ := by
  cases op with
  | symlinkMetadata asked =>
    change s.symlinkMetadata t asked choice = some (answer, s') at h
    unfold Shared.symlinkMetadata at h
    split at h
    · split at h
      · next hnode =>
          cases h
          by_cases hasked : asked = path
          · subst hasked
            exact ⟨.absent, hnode, fun _ => rfl⟩
          · obtain ⟨state, hat, -⟩ := exists_state s path false none
            exact ⟨state, hat, fun heq => absurd heq hasked⟩
      · next file hnode =>
          cases h
          by_cases hasked : asked = path
          · subst hasked
            exact ⟨.regular file false none, hnode, fun _ => rfl⟩
          · obtain ⟨state, hat, -⟩ := exists_state s path false none
            exact ⟨state, hat, fun heq => absurd heq hasked⟩
      · next found hregular hnode =>
          cases h
          by_cases hasked : asked = path
          · subst hasked
            refine ⟨.notRegular, ⟨fun hnone => ?_, fun file hfile => ?_⟩, fun _ => ⟨_, rfl⟩⟩
            · rw [hnode] at hnone
              cases hnone
            · rw [hnode] at hfile
              cases hfile
              exact hregular file rfl
          · obtain ⟨state, hat, -⟩ := exists_state s path false none
            exact ⟨state, hat, fun heq => absurd heq hasked⟩
    · cases h
      exact ⟨.statFails _, trivial, fun _ => rfl⟩
    · cases h
  | verifiedMatches asked identity checksum =>
    obtain ⟨state, hat, hregular⟩ := exists_state s path answer none
    refine ⟨state, hat, fun _ => ?_⟩
    cases state with
    | regular file known reading =>
      have hknown := hregular file hat
      cases hknown
      exact fun _ _ => rfl
    | _ => trivial
  | hashFile asked =>
    change s.hashFile self.maxArchiveBytes asked choice = some (answer, s') at h
    by_cases hasked : asked = path
    · subst hasked
      unfold Shared.hashFile at h
      split at h
      · split at h
        · next hopened =>
            cases h
            obtain ⟨state, hat, -⟩ := exists_state s asked false none
            refine ⟨state, hat, fun _ => ?_⟩
            cases state with
            | regular file known reading =>
              have hfile : s.files asked = some (.regular file) := hat
              rw [hfile] at hopened
              cases hopened
            | _ => trivial
        · cases h
      · split at h
        · cases h
        · next file hopened =>
            split at h
            · next hreads =>
                cases h
                obtain ⟨state, hat, hregular⟩ := exists_state s asked false none
                refine ⟨state, hat, fun _ => ?_⟩
                cases state with
                | regular found known reading =>
                  have hfile : s.files asked = some (.regular found) := hat
                  rw [hfile] at hopened
                  cases hopened
                  cases hregular file hat
                  exact ⟨_, hreads, rfl⟩
                | _ => trivial
            · cases h
      · cases h
        next message =>
          obtain ⟨state, hat, hregular⟩ := exists_state s asked false (some message)
          refine ⟨state, hat, fun _ => ?_⟩
          cases state with
          | regular file known reading =>
            cases hregular file hat
            rfl
          | _ => trivial
      · cases h
    · obtain ⟨state, hat, -⟩ := exists_state s path false none
      exact ⟨state, hat, fun heq => absurd heq hasked⟩
  | _ =>
    obtain ⟨state, hat, -⟩ := exists_state s path false none
    exact ⟨state, hat, trivial⟩

end Answers

section Programs

variable {U : Type} [Sha256Crate]
variable {self : ProviderStorage} {expected : String} {path : Path} {trace : List (Sigma (Res U))}

/-- After the memo lookup, a file that is not known is read. -/
theorem afterMemo_trace {file : File} {known hit : Bool} {reading : Option String}
    {result : Except ProviderStorageError Bool} (hlen : file.bytes.length ≤ self.maxArchiveBytes)
    (h : Traced (afterMemo path expected hit) trace result)
    (hshows : ∀ event ∈ trace,
      (FileState.regular file known reading).Shows self expected path event) :
    result = if hit then .ok true else hashingOutcome expected file reading := by
  cases hit with
  | true => exact (traced_done.mp h).2
  | false =>
    obtain ⟨hashed, rest, rfl, hread⟩ := traced_call.mp h
    have hhashed := hshows ⟨.hashFile path, hashed⟩ (by simp) rfl
    clear h hshows
    cases reading with
    | some message =>
      cases hhashed
      exact (traced_done.mp hread).2
    | none =>
      obtain ⟨reads, hreads, rfl⟩ := hhashed
      rw [hashOpened_eq hreads hlen] at hread
      by_cases hdigest : sha256Hex file.bytes = expected
      · simp only [hdigest, if_true] at hread
        obtain ⟨⟨⟩, rest, rfl, hdone⟩ := traced_call.mp hread
        simpa [hashingOutcome, hdigest] using (traced_done.mp hdone).2
      · simp only [hdigest, if_false] at hread
        obtain ⟨⟨⟩, rest, rfl, hdone⟩ := traced_call.mp hread
        simpa [hashingOutcome, hdigest] using (traced_done.mp hdone).2

/-- The check of a file comes to what its state says. -/
theorem probe_trace {state : FileState} {result : Except ProviderStorageError Bool}
    (h : Traced (archiveMatchesChecksum self path expected).run trace result)
    (hshows : ∀ event ∈ trace, state.Shows self expected path event) :
    result = state.probe self expected := by
  cases state with
  | regular file known reading =>
    by_cases hlen : file.bytes.length ≤ self.maxArchiveBytes
    · obtain ⟨next, hrun, hnext⟩ := archiveMatchesChecksum_run (U := U) path expected hlen
      rw [hrun] at h
      obtain ⟨metadata, rest, rfl, hmemo⟩ := traced_call.mp h
      have hstat : metadata = Except.ok (FileMetadata.mk true file.identity) :=
        hshows ⟨.symlinkMetadata path, metadata⟩ (by simp) rfl
      rw [hstat, hnext] at hmemo
      obtain ⟨hit, rest, rfl, hafter⟩ := traced_call.mp hmemo
      have hhit : hit = known :=
        hshows ⟨.verifiedMatches path file.identity expected, hit⟩ (by simp) rfl rfl rfl
      rw [probe_regular hlen, ← hhit]
      refine afterMemo_trace hlen hafter fun event hevent => hshows event ?_
      exact List.mem_cons_of_mem _ (List.mem_cons_of_mem _ hevent)
    · have hbound : self.maxArchiveBytes < file.identity.len := by
        simp only [File.identity]
        omega
      unfold archiveMatchesChecksum at h
      obtain ⟨first, rest, metadata, rfl, hfirst, h⟩ := traced_lift_bind.mp h
      rw [traced_op.mp hfirst] at hshows
      have hstat := hshows ⟨.symlinkMetadata path, metadata⟩ (by simp) rfl
      cases hstat
      rw [probe_large hlen]
      simp only [hbound, decide_true, Bool.or_true, if_true] at h
      exact (traced_done.mp h).2
  | _ =>
    unfold archiveMatchesChecksum at h
    obtain ⟨first, rest, metadata, rfl, hfirst, h⟩ := traced_lift_bind.mp h
    rw [traced_op.mp hfirst] at hshows
    have hstat := hshows ⟨.symlinkMetadata path, metadata⟩ (by simp) rfl
    first
      | cases hstat
        exact (traced_done.mp h).2
      | obtain ⟨identity, rfl⟩ := hstat
        exact (traced_done.mp h).2

/-- The operations of a check. -/
def isCheck : Op U → Bool
  | .symlinkMetadata _ | .verifiedMatches _ _ _ | .hashFile _ | .recordVerified _ _ _
  | .removeVerified _ => true
  | _ => false

omit [Sha256Crate] in
theorem each_archiveMatchesChecksum :
    Each (isCheck (U := U) · = true) (archiveMatchesChecksum self path expected).run := by
  unfold archiveMatchesChecksum
  refine each_lift_bind ⟨rfl, fun _ => trivial⟩ fun metadata => ?_
  match metadata with
  | .error .notFound => trivial
  | .error (.other message) => trivial
  | .ok metadata =>
    dsimp only
    split
    · trivial
    · refine each_lift_bind ⟨rfl, fun _ => trivial⟩ fun hit => ?_
      cases hit with
      | true => trivial
      | false =>
        refine each_lift_bind ⟨rfl, fun _ => trivial⟩ fun hashed => ?_
        match hashed with
        | .error error => trivial
        | .ok none => exact each_lift_bind ⟨rfl, fun _ => trivial⟩ fun _ => trivial
        | .ok (some (actual, identity)) =>
          dsimp only
          split
          · exact each_lift_bind ⟨rfl, fun _ => trivial⟩ fun _ => trivial
          · exact each_lift_bind ⟨rfl, fun _ => trivial⟩ fun _ => trivial

end Programs

section Lookups

/-- What a lookup meets: the bundled file and the cached one. -/
structure Lookup where
  bundled : FileState
  cached : FileState

variable {U : Type} [Sha256Crate]

/-- The answers agree with what the lookup meets. -/
structure Lookup.Met (store : ProviderStorage) (key : ProviderArchiveKey) (expected : String)
    (lookup : Lookup) (trace : List (Sigma (Res U))) : Prop where
  /-- Without a bundled mirror there is no bundled file. -/
  unbundled : store.bundledPath key = none → lookup.bundled = .absent
  bundled : ∀ path, store.bundledPath key = some path →
    ∀ event ∈ trace, lookup.bundled.Shows store expected path event
  cached : ∀ event ∈ trace, lookup.cached.Shows store expected (store.archivePath key) event

theorem Lookup.Met.mono {store : ProviderStorage} {key : ProviderArchiveKey} {expected : String}
    {lookup : Lookup} {trace part : List (Sigma (Res U))}
    (h : lookup.Met store key expected trace) (hpart : ∀ event, event ∈ part → event ∈ trace) :
    lookup.Met store key expected part where
  unbundled := h.unbundled
  bundled path hpath event hevent := h.bundled path hpath event (hpart event hevent)
  cached event hevent := h.cached event (hpart event hevent)

/-- Neither check answers true, and neither fails. -/
def Lookup.Misses (self : ProviderStorage) (expected : String) (lookup : Lookup) : Prop :=
  lookup.bundled.probe self expected = .ok false ∧ lookup.cached.probe self expected = .ok false

/-- How a lookup ends that does not miss. -/
inductive Lookup.Ends (store : ProviderStorage) (key : ProviderArchiveKey) (expected : String)
    (lookup : Lookup) : Except ProviderStorageError Path → Prop
  | bundled {path : Path} (hpath : store.bundledPath key = some path)
      (h : lookup.bundled.probe store expected = .ok true) : Lookup.Ends store key expected lookup (.ok path)
  | bundledFails {error : ProviderStorageError}
      (h : lookup.bundled.probe store expected = .error error) :
      Lookup.Ends store key expected lookup (.error error)
  | cached (hapart : store.bundledPath key ≠ some (store.archivePath key))
      (hbundled : lookup.bundled.probe store expected = .ok false)
      (h : lookup.cached.probe store expected = .ok true) :
      Lookup.Ends store key expected lookup (.ok (store.archivePath key))
  | cachedFails {error : ProviderStorageError}
      (hbundled : lookup.bundled.probe store expected = .ok false)
      (h : lookup.cached.probe store expected = .error error) :
      Lookup.Ends store key expected lookup (.error error)

/-- The two checks, and what follows when both answer false. -/
def lookupThen (self : ProviderStorage) (key : ProviderArchiveKey) (expected : String)
    (next : Task U Path) : Task U Path := do
  match ← bundledMatches self key expected with
  | some path => return path
  | none =>
    if ← archiveMatchesChecksum self (self.archivePath key) expected then
      return self.archivePath key
    else next

variable {self : ProviderStorage} {key : ProviderArchiveKey} {expected : String}
variable {trace : List (Sigma (Res U))} {result : Except ProviderStorageError Path}

omit [Sha256Crate] in
theorem each_bundledMatches :
    Each (isCheck (U := U) · = true) (bundledMatches self key expected).run := by
  unfold bundledMatches
  cases self.bundledPath key with
  | none => trivial
  | some path =>
    refine each_run_bind each_archiveMatchesChecksum fun found => ?_
    cases found with
    | true => trivial
    | false => trivial

/-- The check of the bundled file finds its path, or nothing, or fails. -/
theorem bundledMatches_trace {found : Except ProviderStorageError (Option Path)} {lookup : Lookup}
    (h : Traced (bundledMatches self key expected).run trace found)
    (hmet : lookup.Met self key expected trace) :
    (∃ path, found = .ok (some path) ∧ self.bundledPath key = some path ∧
      lookup.bundled.probe self expected = .ok true) ∨
    (found = .ok none ∧ lookup.bundled.probe self expected = .ok false) ∨
    ∃ error, found = .error error ∧ lookup.bundled.probe self expected = .error error := by
  unfold bundledMatches at h
  cases hpath : self.bundledPath key with
  | none =>
    rw [hpath] at h
    rw [hmet.unbundled hpath]
    exact .inr (.inl ⟨(traced_done.mp h).2, rfl⟩)
  | some path =>
    rw [hpath] at h
    have hshows := hmet.bundled path hpath
    rcases traced_run_bind h with ⟨first, rest, answer, rfl, hprobe, h⟩ | ⟨error, rfl, hprobe⟩
    · have hanswer := probe_trace hprobe fun event hevent =>
        hshows event (List.mem_append_left _ hevent)
      cases answer with
      | true => exact .inl ⟨path, (traced_done.mp h).2, rfl, hanswer.symm⟩
      | false => exact .inr (.inl ⟨(traced_done.mp h).2, hanswer.symm⟩)
    · exact .inr (.inr ⟨error, rfl, (probe_trace hprobe hshows).symm⟩)

/-- A lookup checks the files first. What it does next, it does after a miss. -/
theorem lookup_trace {next : Task U Path}
    (h : Traced (lookupThen self key expected next).run trace result) :
    ∃ looking rest, trace = looking ++ rest ∧ (∀ event ∈ looking, isCheck event.1 = true) ∧
      ∀ lookup : Lookup, lookup.Met self key expected looking →
        (lookup.Ends self key expected result ∧ rest = []) ∨
          (lookup.Misses self expected ∧ Traced next.run rest result) := by
  unfold lookupThen at h
  rcases traced_run_bind h with ⟨first, others, found, rfl, hfirst, h⟩ | ⟨error, rfl, hfirst⟩
  · have hchecks := traced_each each_bundledMatches hfirst
    cases found with
    | some path =>
      obtain ⟨rfl, rfl⟩ := traced_done.mp h
      refine ⟨first, [], rfl, hchecks, fun lookup hmet => .inl ⟨?_, rfl⟩⟩
      rcases bundledMatches_trace hfirst hmet with ⟨path', hfound, hpath, hprobe⟩ | ⟨hfound, -⟩ |
        ⟨error, hfound, -⟩
      · cases hfound
        exact .bundled hpath hprobe
      · cases hfound
      · cases hfound
    | none =>
      have hbundled : ∀ {lookup : Lookup}, lookup.Met self key expected first →
          lookup.bundled.probe self expected = .ok false := by
        intro lookup hmet
        rcases bundledMatches_trace hfirst hmet with ⟨path, hfound, -⟩ | ⟨-, hprobe⟩ |
          ⟨error, hfound, -⟩
        · cases hfound
        · exact hprobe
        · cases hfound
      have hprobes : ∀ {second answer}, Traced (archiveMatchesChecksum self
          (self.archivePath key) expected).run second answer →
          ∀ event ∈ first ++ second, isCheck event.1 = true := by
        intro second answer hsecond event hevent
        rcases List.mem_append.mp hevent with hevent | hevent
        · exact hchecks event hevent
        · exact traced_each each_archiveMatchesChecksum hsecond event hevent
      rcases traced_run_bind h with ⟨second, rest, answer, rfl, hsecond, h⟩ | ⟨error, rfl, hsecond⟩
      · refine ⟨first ++ second, rest, (List.append_assoc ..).symm, hprobes hsecond,
          fun lookup hmet => ?_⟩
        have hmiss := hbundled (hmet.mono fun _ => List.mem_append_left _)
        have hmet' := hmet.mono fun _ => List.mem_append_right first
        have hcached := probe_trace hsecond hmet'.cached
        cases answer with
        | true =>
          obtain ⟨rfl, rfl⟩ := traced_done.mp h
          refine .inl ⟨.cached (fun hpath => ?_) hmiss hcached.symm, rfl⟩
          -- one path would answer both checks alike
          have hsame := probe_trace hsecond (hmet'.bundled _ hpath)
          rw [hmiss] at hsame
          cases hsame
        | false => exact .inr ⟨⟨hmiss, hcached.symm⟩, h⟩
      · refine ⟨first ++ others, [], (List.append_nil _).symm, hprobes hsecond,
          fun lookup hmet => .inl ⟨?_, rfl⟩⟩
        have hcached := probe_trace hsecond (hmet.mono fun _ => List.mem_append_right first).cached
        exact .cachedFails (hbundled (hmet.mono fun _ => List.mem_append_left _)) hcached.symm
  · refine ⟨trace, [], (List.append_nil _).symm, traced_each each_bundledMatches hfirst,
      fun lookup hmet => .inl ⟨?_, rfl⟩⟩
    rcases bundledMatches_trace hfirst hmet with ⟨path, hfound, -⟩ | ⟨hfound, -⟩ |
      ⟨error', hfound, hprobe⟩
    · cases hfound
    · cases hfound
    · cases hfound
      exact .bundledFails hprobe

end Lookups

section Calls

variable {U : Type} [UrlCrate U] [SemverCrate] [Sha256Crate]

omit [SemverCrate] in
theorem loadOrFetchLocked_eq (self : ProviderStorage) {job : Job}
    (h : job.destination = self.archivePath job.key) :
    (loadOrFetchLocked self job : Task U Path) = lookupThen self job.key job.expected (do
      download self job.key job.metadata job.expected job.destination
      return job.destination) := by
  obtain ⟨key, metadata, expected, destination⟩ := job
  dsimp only at h
  subst h
  rfl

/-- A request whose key and metadata are accepted, with the checksum it expects. -/
structure Accepted (key : ProviderArchiveKey) (metadata : PlatformMetadata) (expected : String) :
    Prop where
  valid : ValidKey key
  named : metadata.filename = key.filename
  checksum : expectedChecksum metadata = .ok expected

omit [UrlCrate U] [Sha256Crate] in
theorem loadOrFetch_eq (self : ProviderStorage) {key : ProviderArchiveKey}
    {metadata : PlatformMetadata} {expected : String} (h : Accepted key metadata expected) :
    (loadOrFetch self key metadata : Task U Path) = lookupThen self key expected (do
      let job ← lift (spawn ⟨key, metadata, expected, self.archivePath key⟩)
      ExceptT.mk (join job)) := by
  have hkey : validateKey key = .ok () := h.valid
  unfold loadOrFetch
  rw [hkey]
  dsimp only
  rw [if_neg (not_not.mpr h.named), h.checksum]
  rfl

/-- Operations that contact nobody. -/
def isLocal : Op U → Bool
  | .outboundGet _ => false
  | _ => true

/-- A request was sent. -/
def Contacted (trace : List (Sigma (Res U))) : Prop := ∃ event ∈ trace, isLocal event.1 = false

/-- The operation enters `download`. -/
def isEntry : Op U → Bool
  | .enterDownload => true
  | _ => false

/-- What was done before `download` was entered. -/
def untilDownload (trace : List (Sigma (Res U))) : List (Sigma (Res U)) :=
  trace.takeWhile fun event => !isEntry event.1

/-- A call, with the task that it spawned: what each did, and the result. -/
structure Handled (store : ProviderStorage) (key : ProviderArchiveKey)
    (metadata : PlatformMetadata) (own inside : List (Sigma (Res U)))
    (result : Except ProviderStorageError Path) : Prop where
  call : Traced (loadOrFetch store key metadata).run own result
  /-- What the call awaits is the result of the task. -/
  task : ∀ job number answer, ⟨.spawn job, number⟩ ∈ own → ⟨.join number, answer⟩ ∈ own →
    Traced (lockedLoadOrFetch store job).run inside answer
  unspawned : (∀ job number, ⟨.spawn job, number⟩ ∉ own) → inside = []

omit [UrlCrate U] [SemverCrate] [Sha256Crate] in
theorem Contacted.within {trace : List (Sigma (Res U))} (h : Contacted trace)
    (before after : List (Sigma (Res U))) : Contacted (before ++ trace ++ after) := by
  obtain ⟨event, hevent, hlocal⟩ := h
  exact ⟨event, List.mem_append_left _ (List.mem_append_right _ hevent), hlocal⟩

omit [UrlCrate U] [SemverCrate] in
/-- A temporary file is filled from a response. -/
theorem fillTemp_contacts {self : ProviderStorage} {url : U} {expected : String}
    {temp destination : Path} {trace : List (Sigma (Res U))}
    (h : Traced (fillTemp self url expected temp destination).run trace (.ok ())) :
    Contacted trace := by
  unfold fillTemp at h
  rcases traced_run_bind h with ⟨creating, rest, ⟨⟩, rfl, -, h⟩ | ⟨error, herror, -⟩
  · obtain ⟨asking, rest, answer, rfl, hasking, -⟩ := traced_lift_bind.mp h
    rw [traced_op.mp hasking]
    exact ⟨⟨.outboundGet url, answer⟩, by simp, rfl⟩
  · cases herror

omit [SemverCrate] in
/-- A success of `download` comes from upstream. -/
theorem download_contacts {self : ProviderStorage} {job : Job} {trace : List (Sigma (Res U))}
    (h : Traced (download self job.key job.metadata job.expected job.destination).run trace (.ok ())) :
    Contacted trace := by
  unfold download at h
  obtain ⟨entering, rest, ⟨⟩, rfl, -, h⟩ := traced_lift_bind.mp h
  cases hurl : (UrlCrate.parse job.metadata.downloadUrl : Option U) with
  | none =>
    rw [hurl] at h
    cases (traced_done.mp h).2
  | some url =>
    rw [hurl] at h
    obtain ⟨acquiring, rest, ⟨⟩, rfl, -, h⟩ := traced_bind.mp h
    obtain ⟨body, rest, result, rfl, hbody, h⟩ := traced_bind.mp h
    obtain ⟨releasing, rest, ⟨⟩, rfl, -, h⟩ := traced_bind.mp h
    obtain ⟨rfl, rfl⟩ := traced_done.mp h
    have hcontacted : Contacted body := by
      unfold downloadPermitted at hbody
      rcases traced_run_bind hbody with ⟨creating, rest, ⟨⟩, rfl, -, h⟩ | ⟨error, herror, -⟩
      · obtain ⟨drawing, rest, sequence, rfl, -, h⟩ := traced_lift_bind.mp h
        obtain ⟨asking, rest, pid, rfl, -, h⟩ := traced_lift_bind.mp h
        rcases traced_run_bind h with ⟨filling, rest, ⟨⟩, rfl, hfill, -⟩ | ⟨error, herror, -⟩
        · obtain ⟨filled, rest', outcome, rfl, hfilled, h⟩ := traced_bind.mp hfill
          cases outcome with
          | ok value =>
            obtain ⟨rfl, -⟩ := traced_done.mp h
            have hwithin := (fillTemp_contacts hfilled).within (creating ++ drawing ++ asking) rest
            simpa using hwithin
          | error error =>
            obtain ⟨removing, rest'', removed, rfl, -, h⟩ := traced_bind.mp h
            cases (traced_done.mp h).2
        · cases herror
      · cases herror
    have hwithin := hcontacted.within (entering ++ acquiring) (releasing ++ [])
    simpa using hwithin

/-- The lookup order, for a call with this result whose lookup met these states. -/
structure InOrder (store : ProviderStorage) (key : ProviderArchiveKey) (expected : String)
    (lookup : Lookup) (result : Except ProviderStorageError Path) (contacted : Prop) : Prop where
  /-- The bundled path is returned iff its content verifies, unless the same path
  was downloaded as the cached one. -/
  bundled : ∀ path, store.bundledPath key = some path →
    (path ≠ store.archivePath key ∨ ¬ contacted) →
      (result = .ok path ↔ lookup.bundled.Verifies store expected)
  /-- Otherwise the cached path is, if its content verifies, without a request. -/
  cached : ¬ lookup.bundled.Verifies store expected → lookup.cached.Verifies store expected →
    result = .ok (store.archivePath key) ∧ ¬ contacted
  /-- A request is sent only if neither verifies. -/
  upstream : contacted →
    ¬ lookup.bundled.Verifies store expected ∧ ¬ lookup.cached.Verifies store expected

/-- No bundled file that fails to be read stands before a cached one that
verifies, and none is known under a checksum that is not its own. -/
structure Unhindered (store : ProviderStorage) (expected : String) (lookup : Lookup) : Prop where
  readable : lookup.bundled.Fails store → ¬ lookup.cached.Verifies store expected
  honest : ¬ lookup.bundled.Misleads store expected

section Order

variable {store : ProviderStorage} {key : ProviderArchiveKey} {expected : String} {lookup : Lookup}
variable {result : Except ProviderStorageError Path} {contacted : Prop}

omit [UrlCrate U] [SemverCrate] in
/-- A lookup that ends without a request is in order just when it is unhindered. -/
theorem inOrder_iff_of_ends (h : lookup.Ends store key expected result) (hcontacted : ¬ contacted) :
    InOrder store key expected lookup result contacted ↔ Unhindered store expected lookup := by
  cases h with
  | @bundled path hpath hprobe =>
    constructor
    · intro horder
      have hverifies := (horder.bundled path hpath (.inr hcontacted)).mp rfl
      refine ⟨fun hfails => ?_, fun hmisleads => not_verifies_of_misleads hmisleads hverifies⟩
      have hexists : ∃ error, lookup.bundled.probe store expected = .error error :=
        probe_error_iff.mpr hfails
      obtain ⟨error, herror⟩ := hexists
      rw [hprobe] at herror
      cases herror
    · intro hfree
      have hverifies := (probe_true_iff.mp hprobe).resolve_right hfree.honest
      refine ⟨fun path' hpath' _ => ?_, fun hnot => absurd hverifies hnot, fun h => absurd h hcontacted⟩
      rw [hpath] at hpath'
      cases hpath'
      exact ⟨fun _ => hverifies, fun _ => rfl⟩
  | bundledFails hprobe =>
    obtain ⟨hverifies, hmisleads, hfails⟩ := probe_error hprobe
    constructor
    · intro horder
      refine ⟨fun _ hcached => ?_, hmisleads⟩
      cases (horder.cached hverifies hcached).1
    · intro hfree
      refine ⟨fun path _ _ => ⟨nofun, fun h => absurd h hverifies⟩, fun _ hcached => ?_,
        fun h => absurd h hcontacted⟩
      exact absurd hcached (hfree.readable hfails)
  | cached hapart hbundled hprobe =>
    obtain ⟨hverifies, hmisleads, hfails⟩ := probe_false hbundled
    constructor
    · intro _
      exact ⟨fun h => absurd h hfails, hmisleads⟩
    · intro _
      refine ⟨fun path hpath _ => ⟨fun heq => ?_, fun h => absurd h hverifies⟩,
        fun _ _ => ⟨rfl, hcontacted⟩, fun h => absurd h hcontacted⟩
      cases heq
      exact absurd hpath hapart
  | cachedFails hbundled hprobe =>
    obtain ⟨hverifies, hmisleads, hfails⟩ := probe_false hbundled
    constructor
    · intro _
      exact ⟨fun h => absurd h hfails, hmisleads⟩
    · intro _
      refine ⟨fun path hpath _ => ⟨nofun, fun h => absurd h hverifies⟩, fun _ hcached => ?_,
        fun h => absurd h hcontacted⟩
      exact absurd hcached (probe_error hprobe).1

omit [UrlCrate U] [SemverCrate] in
/-- So is one that misses, when only a download gives a path. -/
theorem inOrder_iff_of_misses (h : lookup.Misses store expected)
    (hresult : ∀ path, result = .ok path → path = store.archivePath key ∧ contacted) :
    InOrder store key expected lookup result contacted ↔ Unhindered store expected lookup := by
  obtain ⟨hverifies, hmisleads, hfails⟩ := probe_false h.1
  obtain ⟨hcached, -, -⟩ := probe_false h.2
  constructor
  · intro _
    exact ⟨fun h => absurd h hfails, hmisleads⟩
  · intro _
    refine ⟨fun path hpath hapart => ⟨fun heq => ?_, fun h => absurd h hverifies⟩,
      fun _ h => absurd h hcached, fun _ => ⟨hverifies, hcached⟩⟩
    obtain ⟨hsame, hcontacted⟩ := hresult path heq
    exact absurd hsame (hapart.resolve_right (not_not.mpr hcontacted))

end Order

section Claims

variable {store : ProviderStorage} {key : ProviderArchiveKey} {metadata : PlatformMetadata}
variable {expected : String} {lookup outside inside : Lookup}
variable {trace own spawned : List (Sigma (Res U))} {result : Except ProviderStorageError Path}

omit [UrlCrate U] [SemverCrate] [Sha256Crate] in
theorem not_contacted (h : ∀ event ∈ trace, isLocal event.1 = true) : ¬ Contacted trace := by
  rintro ⟨event, hevent, hremote⟩
  rw [h event hevent] at hremote
  cases hremote

omit [UrlCrate U] [SemverCrate] [Sha256Crate] in
theorem isLocal_of_isCheck {op : Op U} (h : isCheck op = true) :
    isLocal op = true ∧ isEntry op = false := by
  cases op <;> first | exact ⟨rfl, rfl⟩ | cases h

omit [UrlCrate U] in
/-- A call ends with its lookup, or awaits the task that it spawned after a miss. -/
theorem call_trace (haccepted : Accepted key metadata expected)
    (h : Traced (loadOrFetch store key metadata).run own result)
    (hmet : outside.Met store key expected own) :
    ¬ Contacted own ∧ ((outside.Ends store key expected result ∧ ∀ job number, ⟨.spawn job, number⟩ ∉ own) ∨
      (outside.Misses store expected ∧ ∃ number,
        ⟨.spawn ⟨key, metadata, expected, store.archivePath key⟩, number⟩ ∈ own ∧
        ⟨.join number, result⟩ ∈ own)) := by
  rw [loadOrFetch_eq store haccepted] at h
  obtain ⟨looking, rest, rfl, hchecks, hends⟩ := lookup_trace h
  rcases hends outside (hmet.mono fun _ => List.mem_append_left _) with ⟨hend, rfl⟩ | ⟨hmiss, h⟩
  · rw [List.append_nil]
    refine ⟨not_contacted fun event hevent => (isLocal_of_isCheck (hchecks event hevent)).1,
      .inl ⟨hend, fun job number hspawn => ?_⟩⟩
    cases hchecks _ hspawn
  · obtain ⟨spawning, rest, number, rfl, hspawn, h⟩ := traced_lift_bind.mp h
    have hjoin : rest = [⟨.join number, result⟩] := traced_op.mp h
    rw [traced_op.mp hspawn, hjoin]
    refine ⟨not_contacted fun event hevent => ?_, .inr ⟨hmiss, number, by simp, by simp⟩⟩
    rcases List.mem_append.mp hevent with hevent | hevent
    · exact (isLocal_of_isCheck (hchecks event hevent)).1
    · simp only [List.cons_append, List.nil_append, List.mem_cons, List.not_mem_nil,
        or_false] at hevent
      rcases hevent with rfl | rfl
      · rfl
      · rfl

omit [SemverCrate] in
/-- The lookup inside the lock is in order just when it is unhindered. -/
theorem locked_inOrder_iff {job : Job} (hdestination : job.destination = store.archivePath job.key)
    (h : Traced (lockedLoadOrFetch store job).run spawned result)
    (hmet : inside.Met store job.key job.expected (untilDownload spawned)) :
    InOrder store job.key job.expected inside result (Contacted spawned) ↔
      Unhindered store job.expected inside := by
  have hlock : ∀ op, Each (fun op' : Op U => isLocal op' = true ∧ isEntry op' = false) (lock op) :=
    fun op => ⟨⟨rfl, rfl⟩, fun _ => trivial⟩
  obtain ⟨before, body, after, rfl, hbody, hbefore, hafter⟩ := traced_section hlock h
  rw [loadOrFetchLocked_eq store hdestination] at hbody
  obtain ⟨looking, rest, rfl, hchecks, hends⟩ := lookup_trace hbody
  have huntil : ∀ event ∈ looking, event ∈ untilDownload (before ++ (looking ++ rest) ++ after) := by
    intro event hevent
    have hfirst : ∀ event ∈ before ++ looking, (!isEntry event.1) = true := by
      intro event hevent
      rcases List.mem_append.mp hevent with hevent | hevent
      · rw [(hbefore event hevent).2]
        rfl
      · rw [(isLocal_of_isCheck (hchecks event hevent)).2]
        rfl
    have hsplit : before ++ (looking ++ rest) ++ after = (before ++ looking) ++ (rest ++ after) := by
      simp only [List.append_assoc]
    rw [untilDownload, hsplit, List.takeWhile_append_of_pos hfirst]
    exact List.mem_append_left _ (List.mem_append_right _ hevent)
  rcases hends inside (hmet.mono huntil) with ⟨hend, rfl⟩ | ⟨hmiss, h⟩
  · refine inOrder_iff_of_ends hend (not_contacted fun event hevent => ?_)
    simp only [List.append_nil, List.mem_append] at hevent
    rcases hevent with (hevent | hevent) | hevent
    · exact (hbefore event hevent).1
    · exact (isLocal_of_isCheck (hchecks event hevent)).1
    · exact (hafter event hevent).1
  · refine inOrder_iff_of_misses hmiss fun path hpath => ?_
    subst hpath
    rcases traced_run_bind h with ⟨downloading, rest, ⟨⟩, rfl, hdownload, h⟩ | ⟨error, herror, -⟩
    · obtain ⟨rfl, heq⟩ := traced_done.mp h
      cases heq
      refine ⟨hdestination, ?_⟩
      have hwithin := (download_contacts hdownload).within (before ++ looking) after
      simpa using hwithin
    · cases herror

instance : Decidable (lookup.Misses store expected) :=
  inferInstanceAs (Decidable (_ ∧ _))

/-- The lookup that decides: the one inside the lock, when the first one misses. -/
def deciding (store : ProviderStorage) (expected : String) (outside inside : Lookup) : Lookup :=
  if outside.Misses store expected then inside else outside

/-- A call follows the lookup order just when the lookup that decides is
unhindered, whatever the two files are at each lookup. -/
theorem lookup_order_iff (haccepted : Accepted key metadata expected)
    (h : Handled store key metadata own spawned result)
    (houtside : outside.Met store key expected own)
    (hinside : inside.Met store key expected (untilDownload spawned)) :
    InOrder store key expected (deciding store expected outside inside) result
        (Contacted (own ++ spawned)) ↔
      Unhindered store expected (deciding store expected outside inside) := by
  obtain ⟨hlocal, hcall⟩ := call_trace haccepted h.call houtside
  rcases hcall with ⟨hend, hspawn⟩ | ⟨hmiss, number, hspawn, hjoin⟩
  · have hdeciding : deciding store expected outside inside = outside := by
      refine if_neg fun hmiss => ?_
      cases hend with
      | bundled hpath hprobe => cases hmiss.1.symm.trans hprobe
      | bundledFails hprobe => cases hmiss.1.symm.trans hprobe
      | cached hapart hbundled hprobe => cases hmiss.2.symm.trans hprobe
      | cachedFails hbundled hprobe => cases hmiss.2.symm.trans hprobe
    rw [hdeciding, h.unspawned hspawn, List.append_nil]
    exact inOrder_iff_of_ends hend hlocal
  · have htask := h.task _ _ _ hspawn hjoin
    have hcontacted : Contacted (own ++ spawned) = Contacted spawned := by
      refine propext ⟨fun ⟨event, hevent, hremote⟩ => ?_, fun h => by simpa using h.within own []⟩
      rcases List.mem_append.mp hevent with hevent | hevent
      · exact absurd ⟨event, hevent, hremote⟩ hlocal
      · exact ⟨event, hevent, hremote⟩
    rw [deciding, if_pos hmiss, hcontacted]
    exact locked_inOrder_iff rfl htask hinside

end Claims

end Calls

section Plain

local instance : SemverCrate := PlainLibraries.plainSemver

local instance : Sha256Crate := PlainLibraries.plainSha256

/-- A store with a bundled mirror. -/
def mirroredStore : ProviderStorage :=
  { PlainLibraries.plainStore with bundledMirror := some ["mirror"] }

/-- The archive of the plain key. -/
def goodFile : File := ⟨[97, 98, 99], some 5, 1, 2⟩

def bundledPlain : Path :=
  ["mirror", "registry.terraform.io", "hashicorp", "null", PlainLibraries.plainKey.filename]

def cachedPlain : Path := mirroredStore.archivePath PlainLibraries.plainKey

theorem plain_accepted :
    Accepted PlainLibraries.plainKey PlainLibraries.plainMetadata plainChecksum := by
  refine ⟨?_, rfl, ?_⟩
  · have hkey : (validateKey PlainLibraries.plainKey).isOk = true := by decide +kernel
    unfold ValidKey
    cases hresult : validateKey PlainLibraries.plainKey with
    | ok value => rfl
    | error error =>
      rw [hresult] at hkey
      cases hkey
  · decide +kernel

/-- What a call does that finds a directory at the bundled path, and the archive
in the cache and in the memo. -/
def rememberedTrace : List (Sigma (Res PlainUrl)) :=
  [⟨.symlinkMetadata bundledPlain, Except.ok (FileMetadata.mk false goodFile.identity)⟩,
    ⟨.symlinkMetadata cachedPlain, Except.ok (FileMetadata.mk true goodFile.identity)⟩,
    ⟨.verifiedMatches cachedPlain goodFile.identity plainChecksum, true⟩]

theorem remembered_handled : Handled mirroredStore PlainLibraries.plainKey
    PlainLibraries.plainMetadata rememberedTrace [] (.ok cachedPlain) := by
  refine ⟨?_, fun job number answer hspawn => ?_, fun _ => rfl⟩
  · rw [loadOrFetch_eq mirroredStore plain_accepted]
    exact .call (.call (.call (.done _)))
  · have hchecks : ∀ event ∈ rememberedTrace, isCheck event.1 = true := by
      simp [rememberedTrace, isCheck]
    cases hchecks _ hspawn

/-- The cached archive is returned past a directory at the bundled path. -/
theorem lookup_order_plain :
    InOrder mirroredStore PlainLibraries.plainKey plainChecksum
      (deciding mirroredStore plainChecksum ⟨.notRegular, .regular goodFile true none⟩
        ⟨.notRegular, .regular goodFile true none⟩)
      (.ok cachedPlain) (Contacted (rememberedTrace ++ [])) := by
  have hmet : ∀ trace, (∀ event ∈ trace, event ∈ rememberedTrace) →
      (⟨.notRegular, .regular goodFile true none⟩ : Lookup).Met mirroredStore
        PlainLibraries.plainKey plainChecksum trace := by
    intro trace hpart
    refine Lookup.Met.mono ⟨nofun, fun path hpath event hevent => ?_, fun event hevent => ?_⟩ hpart
    · have hbundled : path = bundledPlain := (Option.some.inj hpath).symm
      subst hbundled
      simp only [rememberedTrace, List.mem_cons, List.not_mem_nil, or_false] at hevent
      rcases hevent with rfl | rfl | rfl
      · exact fun _ => ⟨_, rfl⟩
      · exact fun heq => absurd heq (by decide)
      · exact fun _ => trivial
    · simp only [rememberedTrace, List.mem_cons, List.not_mem_nil, or_false] at hevent
      rcases hevent with rfl | rfl | rfl
      · exact fun heq => absurd heq (by decide)
      · exact fun _ => rfl
      · exact fun _ _ _ => rfl
  refine (lookup_order_iff plain_accepted remembered_handled (hmet _ fun _ h => h)
    (hmet _ nofun)).mpr ?_
  rw [deciding, ite_self]
  exact ⟨nofun, nofun⟩

/-- A directory with the archive in the cache. -/
def cachedDisk : AList fun _ : Path => Node :=
  (∅ : AList fun _ : Path => Node).insert cachedPlain (.regular goodFile)

/-- The metadata of the bundled file cannot be read, and the cached archive is
not returned. -/
theorem unreadable_bundled_hides_cached :
    let lookup : Lookup := ⟨.statFails "Input/output error", .regular goodFile false none⟩
    let own : List (Sigma (Res PlainUrl)) :=
      [⟨.symlinkMetadata bundledPlain, Except.error (IoError.other "Input/output error")⟩]
    let result : Except ProviderStorageError Path := .error (.io (.other "Input/output error"))
    (solo (exec mirroredStore 0)
      (loadOrFetch mirroredStore PlainLibraries.plainKey PlainLibraries.plainMetadata).run
      (launched (U := PlainUrl) cachedDisk fun _ => 1).shared [.fail "Input/output error"]).map
        (fun ran => (ran.1, ran.2.files cachedPlain)) = some (result, some (.regular goodFile)) ∧
    Handled mirroredStore PlainLibraries.plainKey PlainLibraries.plainMetadata own [] result ∧
    lookup.Met mirroredStore PlainLibraries.plainKey plainChecksum own ∧
    lookup.cached.Verifies mirroredStore plainChecksum ∧
    ¬ InOrder mirroredStore PlainLibraries.plainKey plainChecksum
      (deciding mirroredStore plainChecksum lookup lookup) result (Contacted (own ++ [])) := by
  intro lookup own result
  have hverifies : lookup.cached.Verifies mirroredStore plainChecksum :=
    ⟨by decide, by decide +kernel, .inr rfl⟩
  refine ⟨by decide +kernel, ⟨?_, fun job number answer hspawn => ?_, fun _ => rfl⟩,
    ⟨nofun, fun path hpath event hevent => ?_, fun event hevent => ?_⟩, hverifies, fun horder => ?_⟩
  · rw [loadOrFetch_eq mirroredStore plain_accepted]
    exact .call (.done _)
  · cases List.mem_singleton.mp hspawn
  · cases List.mem_singleton.mp hevent
    exact fun _ => rfl
  · cases List.mem_singleton.mp hevent
    exact fun heq => absurd heq (by decide)
  · rw [deciding, ite_self] at horder
    have hreturned := (horder.cached nofun hverifies).1
    simp only [result, reduceCtorEq] at hreturned

end Plain

end OpenTfMirror.ArchiveLookup
