import OpenTfMirror.StorageSteps

/-!
# The code of the archive store is verified

A specification for every function of the store, from the cache check up to the
detached download, and with them the soundness of the whole machine: whatever
the tasks, the network and the file system do, every reachable state satisfies
the invariant.
-/

namespace OpenTfMirror.StorageProofs

open TaskProgram TaskLogic KeyedLocks LockSections TextOps FileNames FileStore Outbound Provider
  Metadata Storage StorageMachine StorageInvariant StorageSteps

/-- Hashing a file that is within the bound feeds all its reads to the hasher. -/
theorem hashLoop_eq {maxBytes : ℕ} (reads : List Bytes) (total : ℕ) (hashed : Bytes)
    (htotal : total ≤ hashed.length) (hlen : hashed.length + reads.flatten.length ≤ maxBytes) :
    hashLoop maxBytes reads total hashed = some (hashed ++ reads.flatten) := by
  induction reads generalizing total hashed with
  | nil => simp [hashLoop]
  | cons read rest ih =>
    rw [List.flatten_cons, List.length_append] at hlen
    have hbound : ¬maxBytes < min (total + read.length) (2 ^ 64 - 1) := by omega
    unfold hashLoop
    simp only [hbound, if_false]
    rw [ih]
    · simp
    · rw [List.length_append]
      omega
    · rw [List.length_append]
      omega

section Specs

variable {U : Type} [UrlCrate U] [SemverCrate] [Sha256Crate]
variable {store : ProviderStorage} {initial : Path → Option Node} {focus : Focus} {t : ℕ}

omit [UrlCrate U] [SemverCrate] in
/-- The hash of a file is that of all its bytes, however reading is cut. -/
theorem hashOpened_eq {file : File} {reads : List Bytes} (hreads : IsReading file reads)
    {maxBytes : ℕ} (hlen : file.bytes.length ≤ maxBytes) :
    hashOpened maxBytes file reads = some (sha256Hex file.bytes, file.identity) := by
  have hbound : ¬maxBytes < file.identity.len := by
    simp only [File.identity]
    omega
  unfold hashOpened
  rw [if_neg hbound, hashLoop_eq reads 0 [] (Nat.le_refl 0) (by rw [hreads.1]; simpa using hlen)]
  simp [hreads.1]

omit [UrlCrate U] [SemverCrate] in
/-- A hash that was computed is that of all bytes of the file that was opened. -/
theorem hashOpened_some {file : File} {reads : List Bytes} (hreads : IsReading file reads)
    {maxBytes : ℕ} {actual : String} {identity : FileIdentity}
    (h : hashOpened maxBytes file reads = some (actual, identity)) :
    file.identity = identity ∧ sha256Hex file.bytes = actual := by
  by_cases hlen : file.bytes.length ≤ maxBytes
  · rw [hashOpened_eq hreads hlen] at h
    cases h
    exact ⟨rfl, rfl⟩
  · have hbound : maxBytes < file.identity.len := by
      simp only [File.identity]
      omega
    rw [hashOpened, if_pos hbound] at h
    cases h

/-- The assertions, the policy and the machine of the proofs. -/
abbrev Wp (store : ProviderStorage) (initial : Path → Option Node) (focus : Focus) (t : ℕ)
    {α : Type} (program : Code U α) (Q : α → Shared U → Prop) (s : Shared U) : Prop :=
  wp (assertions store initial focus) (policy focus) (machine store) t program Q s

/-- What the others cannot invalidate. -/
abbrev Keep (store : ProviderStorage) (initial : Path → Option Node) (focus : Focus) (t : ℕ)
    (φ : Shared U → Prop) : Prop :=
  Stable (assertions (U := U) store initial focus) t φ

omit [UrlCrate U] [SemverCrate] [Sha256Crate] in
/-- With a focus no operation fails. -/
theorem calm_of_policy {s : Shared U} {op : Op U} {choice : Choice U} (hfocus : focus ≠ none)
    (h : (policy focus).run t s op choice) : Choice.Calm choice := by
  cases focus with
  | none => exact absurd rfl hfocus
  | some pair => exact h

variable {φ : Shared U → Prop} {s : Shared U}

/-- Looking at a path. -/
theorem wp_symlinkMetadata {Q : Except IoError FileMetadata → Shared U → Prop} {path : Path}
    (hφ : Keep store initial focus t φ) (hs : φ s)
    (hlook : ∀ s looked, φ s → φ { s with looked }) (hpath : ¬Temporary path)
    (hmissing : ∀ s₁, φ s₁ → s₁.files path = none → Q (.error .notFound) s₁)
    (hregular : ∀ s₁ file, φ s₁ → s₁.files path = some (.regular file) →
      s₁.looked t = some (path, file) → Q (.ok ⟨true, file.identity⟩) s₁)
    (hother : ∀ s₁ identity, φ s₁ → (∀ file, s₁.files path ≠ some (.regular file)) →
      Q (.ok ⟨false, identity⟩) s₁)
    (hfail : ∀ s₁ message, focus = none → φ s₁ → Q (.error (.other message)) s₁) :
    Wp store initial focus t (symlinkMetadata path) Q s := by
  refine wp_call hs hφ (fun _ _ _ => hpath) fun s₁ choice answer s₂ hinv hs₁ hp hexec _ => ?_
  change s₁.symlinkMetadata t path choice = some (answer, s₂) at hexec
  unfold Shared.symlinkMetadata at hexec
  split at hexec
  · split at hexec
    · rename_i hnone
      cases hexec
      exact hmissing s₁ hs₁ hnone
    · rename_i file hfile
      cases hexec
      exact hregular _ file (hlook s₁ _ hs₁) hfile (Function.update_self ..)
    · rename_i hnot hsome
      cases hexec
      refine hother s₁ _ hs₁ fun file hfile => ?_
      rw [hsome] at hfile
      cases hfile
      exact hnot file rfl
  · cases hexec
    refine hfail s₁ _ ?_ hs₁
    by_contra hfocus
    exact calm_of_policy hfocus hp
  · cases hexec

omit [UrlCrate U] [SemverCrate] [Sha256Crate] in
/-- An answer that fails a file operation comes without a focus. -/
theorem focus_none {s : Shared U} {op : Op U} {choice : Choice U}
    (h : (policy focus).run t s op choice) (hchoice : ¬Choice.Calm choice) : focus = none := by
  by_contra hfocus
  exact hchoice (calm_of_policy hfocus h)

/-- Hashing what a path leads to. -/
theorem wp_hashFile {Q : Except IoError (Option (String × FileIdentity)) → Shared U → Prop}
    {path : Path} (hφ : Keep store initial focus t φ) (hs : φ s) (hpath : ¬Temporary path)
    (hhashed : ∀ s₁ file actual identity, φ s₁ → (path, file) ∈ s₁.seen →
      file.identity = identity → sha256Hex file.bytes = actual →
      (∀ file', s₁.files path = some (.regular file') → file = file') →
      Q (.ok (some (actual, identity))) s₁)
    (hnone : ∀ s₁, φ s₁ → (∀ file, s₁.files path = some (.regular file) →
      store.maxArchiveBytes < file.bytes.length) → Q (.ok none) s₁)
    (hfail : ∀ s₁ message, focus = none → φ s₁ → Q (.error (.other message)) s₁) :
    Wp store initial focus t (hashFile path) Q s := by
  refine wp_call hs hφ (fun _ _ _ => hpath) fun s₁ choice answer s₂ hinv hs₁ hp hexec _ => ?_
  change s₁.hashFile store.maxArchiveBytes path choice = some (answer, s₂) at hexec
  unfold Shared.hashFile at hexec
  split at hexec
  · split at hexec
    · rename_i hopened
      cases hexec
      refine hnone s₁ hs₁ fun file hfile => ?_
      simp [hfile, Node.opened] at hopened
    · cases hexec
  · split at hexec
    · cases hexec
    · rename_i file hopened
      split at hexec
      · rename_i hreads
        cases hexec
        obtain ⟨node, hnode, hfile⟩ := Option.bind_eq_some_iff.mp hopened
        have hseen := hinv.files_seen path node file hpath hnode hfile
        cases hresult : hashOpened store.maxArchiveBytes file _ with
        | none =>
          refine hnone s₁ hs₁ fun file' hfile' => ?_
          rw [hfile'] at hnode
          cases hnode
          cases hfile
          by_contra hlen
          rw [hashOpened_eq hreads (by omega)] at hresult
          cases hresult
        | some pair =>
          obtain ⟨hidentity, hdigest⟩ := hashOpened_some hreads hresult
          refine hhashed s₁ file pair.1 pair.2 hs₁ hseen hidentity hdigest fun file' hfile' => ?_
          rw [hfile'] at hnode
          cases hnode
          cases hfile
          rfl
      · cases hexec
  · cases hexec
    exact hfail s₁ _ (focus_none hp fun h => h) hs₁
  · cases hexec

/-- Operations that cannot fail and only touch what no frame mentions. -/
theorem wp_always {α : Type} {op : Op U} {next : Res U op → Code U α}
    {Q : α → Shared U → Prop} (hφ : Keep store initial focus t φ) (hs : φ s)
    {result : Shared U → Res U op × Shared U}
    (hop : ∀ s₁ choice, exec store t s₁ op choice = always (result s₁) choice)
    (hpre : ∀ s₁, Inv store initial focus s₁ → φ s₁ → Pre store focus t op s₁)
    (hframe : ∀ s₁, Frame store focus t s₁ (result s₁).2)
    (hnext : ∀ s₁ s₂, φ s₁ → φ s₂ → Wp store initial focus t (next (result s₁).1) Q s₂) :
    Wp store initial focus t (.call op next) Q s := by
  have hresult : ∀ s₁ choice answer s₂, (machine store).exec t s₁ op choice = some (answer, s₂) →
      (answer, s₂) = result s₁ := by
    intro s₁ choice answer s₂ hexec
    change exec store t s₁ op choice = some (answer, s₂) at hexec
    rw [hop] at hexec
    unfold always at hexec
    split at hexec
    · exact (Option.some.inj hexec).symm
    · cases hexec
  refine wp_quiet hs hφ hpre ?_ ?_
  · intro s₁ choice answer s₂ _ hexec
    have heq := hresult s₁ choice answer s₂ hexec
    have h2 := hframe s₁
    rw [← heq] at h2
    exact h2
  · intro s₁ choice answer s₂ _ hs₁ _ hexec _ hs₂
    have heq := hresult s₁ choice answer s₂ hexec
    have hwp := hnext s₁ s₂ hs₁ hs₂
    rw [← heq] at hwp
    exact hwp

/-- Comparing with the memo. -/
theorem wp_verifiedMatches {Q : Bool → Shared U → Prop} {path : Path} {identity : FileIdentity}
    {expected : String} (hφ : Keep store initial focus t φ) (hs : φ s)
    (hlooked : ∀ s₁, φ s₁ → ∃ file, s₁.looked t = some (path, file) ∧ file.identity = identity ∧
      file.bytes.length ≤ store.maxArchiveBytes)
    (hnext : ∀ s₁ answer, φ s₁ → Q answer s₁) :
    Wp store initial focus t (verifiedMatches path identity expected) Q s := by
  refine wp_always hφ hs (fun _ _ => rfl) (fun s₁ _ hs₁ => hlooked s₁ hs₁) (fun s₁ => ?_)
    fun _ s₂ _ hs₂ => hnext s₂ _ hs₂
  unfold Shared.verifiedMatches
  split
  · exact frame_refl store focus t s₁
  · split
    · split
      · exact { frame_refl store focus t s₁ with }
      · exact frame_refl store focus t s₁
    · exact frame_refl store focus t s₁

/-- Entering a file in the memo. -/
theorem wp_recordVerified {Q : Unit → Shared U → Prop} {path : Path} {identity : FileIdentity}
    {checksum : String} (hφ : Keep store initial focus t φ) (hs : φ s)
    (hseen : ∀ s₁, Inv store initial focus s₁ → φ s₁ → ∃ file, (path, file) ∈ s₁.seen ∧
      file.identity = identity ∧ sha256Hex file.bytes = checksum)
    (hnext : ∀ s₁, φ s₁ → Q () s₁) :
    Wp store initial focus t (recordVerified path identity checksum) Q s :=
  wp_always hφ hs (fun _ _ => rfl) hseen (fun s₁ => { frame_refl store focus t s₁ with }) fun _ s₂ _ hs₂ => hnext s₂ hs₂

/-- Removing a path from the memo. -/
theorem wp_removeVerified {Q : Unit → Shared U → Prop} {path : Path}
    (hφ : Keep store initial focus t φ) (hs : φ s) (hnext : ∀ s₁, φ s₁ → Q () s₁) :
    Wp store initial focus t (removeVerified path) Q s :=
  wp_always hφ hs (fun _ _ => rfl) (fun _ _ _ => trivial)
    (fun s₁ => { frame_refl store focus t s₁ with }) fun _ s₂ _ hs₂ => hnext s₂ hs₂

/-- The path and the checksum are those in focus, and the archive is in place. -/
def InPlace (store : ProviderStorage) (focus : Focus) (path : Path) (expected : String)
    (s : Shared U) : Prop :=
  ∃ key, focus = some (key, expected) ∧ ValidKey key ∧ path = store.archivePath key ∧
    Cached store key expected s

omit [UrlCrate U] in
theorem keep_inPlace (path : Path) (expected : String) :
    Keep store initial focus t (InPlace (U := U) store focus path expected) := by
  rintro s s' - hframe ⟨key, hfocus, hkey, hpath, hcached⟩
  exact ⟨key, hfocus, hkey, hpath, hframe.cached key expected hfocus hkey hcached⟩

omit [UrlCrate U] in
/-- In place, the path leads to a regular file within the bound, with the checksum. -/
theorem InPlace.file {path : Path} {expected : String} {s : Shared U}
    (h : InPlace store focus path expected s) : ∃ file, s.files path = some (.regular file) ∧
      file.bytes.length ≤ store.maxArchiveBytes ∧ sha256Hex file.bytes = expected := by
  obtain ⟨key, -, -, rfl, file, hfile, hrest⟩ := h
  exact ⟨file, hfile, hrest⟩

/-- The outcome of a cache check that started in the given state. -/
structure Checked (store : ProviderStorage) (focus : Focus) (path : Path) (expected : String)
    (before : Shared U) (result : Except ProviderStorageError Bool) : Prop where
  answered : focus ≠ none → ∃ answer, result = .ok answer
  /-- An archive in place is found. -/
  found : InPlace store focus path expected before → result = .ok true

/-- `archive_matches_checksum`: what the task knew still holds, and an archive
that was in place is found. -/
theorem archiveMatchesChecksum_spec {path : Path} (expected : String)
    (hφ : Keep store initial focus t φ) (hs : φ s)
    (hlook : ∀ s looked, φ s → φ { s with looked }) (hpath : ¬Temporary path) :
    Wp store initial focus t (archiveMatchesChecksum store path expected).run
      (fun result s' => φ s' ∧ Checked store focus path expected s result) s := by
  let ψ : Shared U → Prop := fun s' => φ s' ∧
    (InPlace store focus path expected s → InPlace store focus path expected s')
  have hψ : Keep store initial focus t ψ :=
    hφ.and (Stable.imp (keep_inPlace path expected))
  have hψs : ψ s := ⟨hs, id⟩
  have hψlook : ∀ s looked, ψ s → ψ { s with looked } := fun s looked h =>
    ⟨hlook s looked h.1, h.2⟩
  have hmiss : ∀ s₁, ψ s₁ → ¬InPlace store focus path expected s₁ →
      φ s₁ ∧ Checked store focus path expected s (.ok false) := fun s₁ hs₁ hnot =>
    ⟨hs₁.1, fun _ => ⟨false, rfl⟩, fun hin => absurd (hs₁.2 hin) hnot⟩
  have hfail : ∀ s₁ error, focus = none → ψ s₁ →
      φ s₁ ∧ Checked store focus path expected s (.error error) := by
    refine fun s₁ error hfocus hs₁ => ⟨hs₁.1, fun hsome => absurd hfocus hsome, fun hin => ?_⟩
    obtain ⟨key, hkey, -⟩ := hin
    rw [hfocus] at hkey
    cases hkey
  unfold archiveMatchesChecksum
  refine wp_lift_bind (wp_symlinkMetadata hψ hψs hψlook hpath ?_ ?_ ?_ ?_)
  · intro s₁ hs₁ hnone
    refine hmiss s₁ hs₁ fun hin => ?_
    obtain ⟨file, hfile, -⟩ := hin.file
    rw [hnone] at hfile
    cases hfile
  · intro s₁ file hs₁ hfile hlooked
    by_cases hlen : store.maxArchiveBytes < file.bytes.length
    · have hguard : (!true || decide (store.maxArchiveBytes < file.identity.len)) = true := by
        simp [File.identity, hlen]
      simp only [hguard, if_true]
      refine hmiss s₁ hs₁ fun hin => ?_
      obtain ⟨file', hfile', hlen', -⟩ := hin.file
      rw [hfile] at hfile'
      cases hfile'
      omega
    · have hguard : (!true || decide (store.maxArchiveBytes < file.identity.len)) = false := by
        simp [File.identity, hlen]
      simp only [hguard, Bool.false_eq_true, if_false]
      let χ : Shared U → Prop := fun s' => ψ s' ∧ s'.looked t = some (path, file)
      have hχ : Keep store initial focus t χ := by
        refine hψ.and ?_
        intro s₂ s₃ _ hframe hl
        exact (Frame.looked hframe).trans hl
      refine wp_lift_bind (wp_verifiedMatches hχ ⟨hs₁, hlooked⟩ (fun s₂ hs₂ => ⟨file, hs₂.2, rfl, by omega⟩) ?_)
      intro s₂ answer hs₂
      cases answer with
      | true => exact ⟨hs₂.1.1, fun _ => ⟨true, rfl⟩, fun _ => rfl⟩
      | false =>
        simp only [Bool.false_eq_true, if_false]
        refine wp_lift_bind (wp_hashFile hψ hs₂.1 hpath ?_ ?_ ?_)
        · intro s₃ found actual identity hs₃ hseen hidentity hdigest hregular
          by_cases hactual : actual = expected
          · simp only [hactual, if_true]
            let ω : Shared U → Prop := fun s' => ψ s' ∧ (path, found) ∈ s'.seen
            have hω : Keep store initial focus t ω := by
              refine hψ.and ?_
              intro s₄ s₅ _ hframe hmem
              exact Frame.seen hframe _ hmem
            refine wp_lift_bind (wp_recordVerified hω ⟨hs₃, hseen⟩
              (fun s₄ _ hs₄ => ⟨found, hs₄.2, hidentity, hdigest.trans hactual⟩) ?_)
            exact fun s₄ hs₄ => ⟨hs₄.1.1, fun _ => ⟨true, rfl⟩, fun _ => rfl⟩
          · simp only [hactual, if_false]
            have hnot : ¬InPlace store focus path expected s := by
              intro hin
              obtain ⟨file', hfile', -, hdigest'⟩ := (hs₃.2 hin).file
              refine hactual ?_
              rw [← hdigest, ← hdigest', hregular file' hfile']
            refine wp_lift_bind (wp_removeVerified hψ hs₃ fun s₄ hs₄ => ?_)
            exact ⟨hs₄.1, fun _ => ⟨false, rfl⟩, fun hin => absurd hin hnot⟩
        · intro s₃ hs₃ hnone
          have hnot : ¬InPlace store focus path expected s := by
            intro hin
            obtain ⟨file', hfile', hlen', -⟩ := (hs₃.2 hin).file
            have hlarge := hnone file' hfile'
            omega
          refine wp_lift_bind (wp_removeVerified hψ hs₃ fun s₄ hs₄ => ?_)
          exact ⟨hs₄.1, fun _ => ⟨false, rfl⟩, fun hin => absurd hin hnot⟩
        · exact fun s₃ message hfocus hs₃ => hfail s₃ _ hfocus hs₃
  · intro s₁ identity hs₁ hnot
    refine hmiss s₁ hs₁ fun hin => ?_
    obtain ⟨file, hfile, -⟩ := hin.file
    exact hnot file hfile
  · exact fun s₁ message hfocus hs₁ => hfail s₁ _ hfocus hs₁

/-- `bundled_path` and its check. -/
theorem bundledMatches_spec {key : ProviderArchiveKey} (expected : String) (hkey : ValidKey key)
    (hφ : Keep store initial focus t φ) (hs : φ s)
    (hlook : ∀ s looked, φ s → φ { s with looked }) :
    Wp store initial focus t (bundledMatches store key expected).run
      (fun result s' => φ s' ∧ (focus ≠ none → ∃ found, result = .ok found) ∧
        ∀ path, result = .ok (some path) → store.bundledPath key = some path) s := by
  unfold bundledMatches
  cases hbundled : store.bundledPath key with
  | none => exact ⟨hs, fun _ => ⟨none, rfl⟩, fun path h => by cases h⟩
  | some path =>
    have hpath := bundledPath_not_temporary store hkey hbundled
    refine wp_bind_of (archiveMatchesChecksum_spec expected hφ hs hlook hpath) ?_ ?_
    · rintro value s₁ ⟨hs₁, -⟩
      cases value with
      | true =>
        refine ⟨hs₁, fun _ => ⟨some path, rfl⟩, fun path' h => ?_⟩
        cases h
        rfl
      | false => exact ⟨hs₁, fun _ => ⟨none, rfl⟩, fun path' h => by cases h⟩
    · rintro error s₁ ⟨hs₁, hchecked⟩
      refine ⟨hs₁, fun hfocus => ?_, fun path' h => by cases h⟩
      obtain ⟨answer, hanswer⟩ := hchecked.answered hfocus
      cases hanswer

omit [UrlCrate U] [SemverCrate] [Sha256Crate] in
/-- An operation that only succeeds or fails did one of both. -/
theorem attempt_cases {s s₁ s₂ : Shared U} {choice : Choice U} {result : Except IoError Unit}
    (h : s.attempt s₁ choice = some (result, s₂)) :
    (result = .ok () ∧ s₂ = s₁) ∨
      ∃ message, result = .error (.other message) ∧ s₂ = s ∧ ¬Choice.Calm choice := by
  unfold Shared.attempt at h
  split at h
  · cases h
    exact .inl ⟨rfl, rfl⟩
  · cases h
    exact .inr ⟨_, rfl, rfl, fun hcalm => hcalm⟩
  · cases h

/-- Creating the directory. -/
theorem wp_createDirAll {Q : Except IoError Unit → Shared U → Prop} {dir : Path}
    (hφ : Keep store initial focus t φ) (hs : φ s)
    (hpre : ∀ s₁, φ s₁ → Pre store focus t (.createDirAll dir) s₁)
    (hok : ∀ s₁, φ s₁ → Q (.ok ()) s₁)
    (hfail : ∀ s₁ message, focus = none → φ s₁ → Q (.error (.other message)) s₁) :
    Wp store initial focus t (createDirAll dir) Q s := by
  refine wp_call hs hφ (fun s₁ _ hs₁ => hpre s₁ hs₁) fun s₁ choice answer s₂ _ hs₁ hp hexec _ => ?_
  rcases attempt_cases hexec with ⟨rfl, rfl⟩ | ⟨message, rfl, rfl, hcalm⟩
  · exact hok _ hs₁
  · exact hfail _ message (focus_none hp hcalm) hs₁

/-- Syncing the directory. -/
theorem wp_syncParent {Q : Except IoError Unit → Shared U → Prop} {dir : Path}
    (hφ : Keep store initial focus t φ) (hs : φ s) (hpre : ∀ s₁, φ s₁ → Inside t s₁)
    (hok : ∀ s₁, φ s₁ → Q (.ok ()) s₁)
    (hfail : ∀ s₁ message, focus = none → φ s₁ → Q (.error (.other message)) s₁) :
    Wp store initial focus t (syncParent dir) Q s := by
  refine wp_call hs hφ (fun s₁ _ hs₁ => hpre s₁ hs₁) fun s₁ choice answer s₂ _ hs₁ hp hexec _ => ?_
  rcases attempt_cases hexec with ⟨rfl, rfl⟩ | ⟨message, rfl, rfl, hcalm⟩
  · exact hok _ hs₁
  · exact hfail _ message (focus_none hp hcalm) hs₁

/-- The archive in focus is not in place when the job is about it. -/
def Absent (store : ProviderStorage) (focus : Focus) (job : Job) (s : Shared U) : Prop :=
  ∀ expected, focus = some (job.key, expected) → ¬Cached store job.key expected s

/-- The task runs the job inside the key's section and has entered the download. -/
structure Fetching (store : ProviderStorage) (focus : Focus) (t number : ℕ) (job : Job)
    (s : Shared U) : Prop where
  runs : Runs t number job s
  holds : s.locks.Holds t job.key
  entered : .entered job.key number ∈ s.events
  unfinished : s.results number = none
  unrenamed : .renamed job.key number ∉ s.events
  absent : Absent store focus job s

/-- The task may write its temporary file. -/
structure Draft (store : ProviderStorage) (focus : Focus) (t number : ℕ) (job : Job) (temp : Path)
    (s : Shared U) : Prop extends Fetching store focus t number job s where
  owns : Owns store t temp s

/-- The temporary file holds what was hashed, unless a failed write is still to
be reported. -/
structure Filling (store : ProviderStorage) (focus : Focus) (t number : ℕ) (job : Job) (temp : Path)
    (response : Response U) (hashed : Bytes) (s : Shared U) : Prop
    extends Draft store focus t number job temp s where
  response : s.responses t = some response
  content : ∃ file, s.files temp = some (.regular file) ∧
    (s.unreported temp = false → file.bytes = hashed ∧ hashed.length ≤ maxFileBytes)

variable {number : ℕ} {job : Job}

omit [UrlCrate U] [SemverCrate] in
theorem missing_of_absent (hruns : Runs t number job s) (habsent : Absent store focus job s) :
    Missing store focus t s := by
  rintro key expected hfocus n j ⟨hn, hj⟩ rfl
  rw [hruns.1] at hn
  cases hn
  rw [hruns.2] at hj
  cases hj
  exact habsent expected hfocus

omit [UrlCrate U] in
theorem keep_runs : Keep store initial focus t (Runs (U := U) t number job) := by
  intro s s' _ hframe h
  exact ⟨(Frame.jobOf hframe).trans h.1, Frame.jobs hframe number job h.2⟩

omit [UrlCrate U] in
theorem keep_fetching : Keep store initial focus t (Fetching (U := U) store focus t number job) := by
  intro s s' hinv hframe h
  have hruns := keep_runs s s' hinv hframe h.runs
  have hvalid := (Inv.jobs hinv number job hruns.2).key
  refine ⟨hruns, (Frame.locks hframe).holds_iff.mpr h.holds, Frame.events hframe _ h.entered,
    (Frame.results hframe number h.runs.1).trans h.unfinished,
    fun hmem => h.unrenamed (Frame.renames hframe job.key number h.runs.1 hmem), ?_⟩
  rintro expected hfocus ⟨file, hfile, hrest⟩
  rw [Frame.archive hframe job.key hvalid h.holds] at hfile
  exact h.absent expected hfocus ⟨file, hfile, hrest⟩

omit [UrlCrate U] in
theorem keep_draft (temp : Path) :
    Keep store initial focus t (Draft (U := U) store focus t number job temp) := by
  intro s s' hinv hframe h
  exact ⟨keep_fetching s s' hinv hframe h.toFetching, (Frame.temps hframe temp h.owns).1⟩

omit [UrlCrate U] in
theorem keep_filling (temp : Path) (response : Response U) (hashed : Bytes) :
    Keep store initial focus t (Filling store focus t number job temp response hashed) := by
  intro s s' hinv hframe h
  obtain ⟨howns, hfiles, hunreported⟩ := Frame.temps hframe temp h.owns
  refine ⟨keep_draft temp s s' hinv hframe h.toDraft, (Frame.responses hframe).trans h.response, ?_⟩
  rw [hfiles, hunreported]
  exact h.content

omit [UrlCrate U] in
/-- Changes of temporary files do not put an archive in place. -/
theorem Fetching.temp (hkey : ValidKey job.key) (h : Fetching store focus t number job s)
    {files : Path → Option Node} {unreported : Path → Bool}
    (hfiles : ∀ path, ¬Temporary path → files path = s.files path) :
    Fetching store focus t number job { s with files, unreported } := by
  refine ⟨h.runs, h.holds, h.entered, h.unfinished, h.unrenamed, ?_⟩
  rintro expected hfocus ⟨file, hfile, hrest⟩
  dsimp only at hfile
  rw [hfiles _ (archivePath_not_temporary store hkey)] at hfile
  exact h.absent expected hfocus ⟨file, hfile, hrest⟩

omit [UrlCrate U] [SemverCrate] in
theorem Fetching.missing (h : Fetching store focus t number job s) : Missing store focus t s :=
  missing_of_absent h.runs h.absent

omit [UrlCrate U] [SemverCrate] [Sha256Crate] in
/-- A write to a file appends all bytes, or loses some and has that reported now
or later. -/
theorem write_cases {s s₂ : Shared U} {path : Path} {bytes : Bytes} {choice : Choice U}
    {result : Except IoError Unit} {file : File} (hfile : s.files path = some (.regular file))
    (h : s.write path bytes choice = some (result, s₂)) :
    ∃ written unreported, s₂ = { s with
        files := Function.update s.files path (some (.regular { file with bytes := written }))
        unreported } ∧ (∀ p, p ≠ path → unreported p = s.unreported p) ∧
      (result = .ok () → unreported path = false → s.unreported path = false ∧
        written = file.bytes ++ bytes ∧ written.length ≤ maxFileBytes) ∧
      ∀ error, result = .error error → ∃ message, error = .other message ∧ ¬Choice.Calm choice := by
  unfold Shared.write at h
  split at h
  · simp only [hfile] at h
    split at h
    · cases h
    · rename_i hcond
      cases h
      simp only [Bool.or_eq_true, decide_eq_true_eq, not_or, Bool.not_eq_true] at hcond
      refine ⟨_, s.unreported, rfl, fun _ _ => rfl, fun _ _ => ⟨hcond.1, rfl, ?_⟩, nofun⟩
      rw [List.length_append]
      omega
  · simp only [hfile] at h
    cases h
    refine ⟨_, s.unreported, rfl, fun _ _ => rfl, nofun, fun error herror => ?_⟩
    cases herror
    exact ⟨_, rfl, fun hcalm => hcalm⟩
  · simp only [hfile] at h
    split at h
    · cases h
    · cases h
      refine ⟨_, _, rfl, fun p hp => Function.update_of_ne hp _ _, fun _ hfalse => ?_, nofun⟩
      rw [Function.update_self] at hfalse
      cases hfalse
  · cases h
    refine ⟨file.bytes, Function.update s.unreported path false, ?_,
      fun p hp => Function.update_of_ne hp _ _, nofun, fun error herror => ?_⟩
    · congr 1
      rw [← hfile, Function.update_eq_self]
    · cases herror
      exact ⟨_, rfl, fun hcalm => hcalm⟩
  · cases h

/-- A file operation with its error converted. -/
theorem wp_io {α : Type} {program : Code U (Except IoError α)}
    {Q : Except ProviderStorageError α → Shared U → Prop}
    (h : Wp store initial focus t program (fun result s' => match result with
      | .ok value => Q (.ok value) s'
      | .error error => Q (.error (.io error)) s') s) :
    Wp store initial focus t (io program).run Q s := by
  refine (wp_bind t program _ Q s).mpr (wp_mono h fun result s' hresult => ?_)
  cases result with
  | ok value => exact hresult
  | error error => exact hresult

/-- A file operation under `?`, followed by the rest. -/
theorem wp_io_bind {α β : Type} {program : Code U (Except IoError α)} {next : α → Task U β}
    {R : Except IoError α → Shared U → Prop}
    {Q : Except ProviderStorageError β → Shared U → Prop}
    (h : Wp store initial focus t program R s)
    (hok : ∀ value s', R (.ok value) s' → Wp store initial focus t (next value).run Q s')
    (herror : ∀ error s', R (.error error) s' → Q (.error (.io error)) s') :
    Wp store initial focus t (io program >>= next).run Q s := by
  refine (wp_run_bind t _ _ Q s).mpr (wp_io (wp_mono h fun result s' hresult => ?_))
  cases result with
  | ok value => exact hok value s' hresult
  | error error => exact herror error s' hresult

/-- Writing a chunk that was hashed. -/
theorem wp_writeAll {temp : Path} {response : Response U} {hashed : Bytes} (chunk : Bytes)
    (hs : Filling store focus t number job temp response hashed s) :
    Wp store initial focus t (writeAll temp chunk) (fun result s' => match result with
      | .ok _ => Filling store focus t number job temp response (hashed ++ chunk) s'
      | .error _ => focus = none ∧ Draft store focus t number job temp s') s := by
  refine wp_call hs (keep_filling temp response hashed)
    (fun s₁ _ hs₁ => ⟨hs₁.owns, ⟨number, job, hs₁.runs, hs₁.holds⟩, hs₁.missing⟩) ?_
  intro s₁ choice answer s₂ hinv hs₁ hpolicy hexec _
  obtain ⟨file, hfile, hcontent⟩ := hs₁.content
  have hkey := (hinv.jobs number job hs₁.runs.2).key
  have htemp := owns_temporary hs₁.owns
  obtain ⟨written, unreported, rfl, hunreported, hok, herror⟩ := write_cases hfile hexec
  have hdraft : Draft store focus t number job temp { s₁ with
      files := Function.update s₁.files temp (some (.regular { file with bytes := written }))
      unreported } := by
    refine ⟨hs₁.toFetching.temp hkey fun p hp => ?_, hs₁.owns⟩
    refine Function.update_of_ne ?_ _ _
    rintro rfl
    exact hp htemp
  cases answer with
  | ok value =>
    refine ⟨hdraft, hs₁.response, _, Function.update_self .., fun hfalse => ?_⟩
    obtain ⟨hbefore, rfl, hlen⟩ := hok rfl hfalse
    obtain ⟨hbytes, -⟩ := hcontent hbefore
    rw [hbytes] at hlen ⊢
    exact ⟨rfl, hlen⟩
  | error error =>
    obtain ⟨message, -, hcalm⟩ := herror error rfl
    exact ⟨focus_none hpolicy hcalm, hdraft⟩

/-- The loop over the body: what was hashed is what was written. -/
theorem receive_spec {temp : Path} {response : Response U}
    (chunks : List (Except RequestError Bytes)) (total : ℕ) (hashed : Bytes)
    (htotal : total = min hashed.length (2 ^ 64 - 1)) (hbound : total ≤ store.maxArchiveBytes)
    (hs : Filling store focus t number job temp response hashed s) :
    Wp store initial focus t (receive store temp chunks total hashed).run
      (fun result s' => match result with
        | .ok all => Filling store focus t number job temp response all s' ∧
            min all.length (2 ^ 64 - 1) ≤ store.maxArchiveBytes ∧
            ∃ rest : List Bytes, chunks = rest.map .ok ∧ all = hashed ++ rest.flatten
        | .error _ => Draft store focus t number job temp s') s := by
  induction chunks generalizing total hashed s with
  | nil => exact ⟨hs, htotal ▸ hbound, [], rfl, by simp⟩
  | cons chunk rest ih =>
    cases chunk with
    | error error => exact hs.toDraft
    | ok chunk =>
      unfold receive
      by_cases hlarge : store.maxArchiveBytes < min (total + chunk.length) (2 ^ 64 - 1)
      · simp only [hlarge, if_true]
        exact hs.toDraft
      · simp only [hlarge, if_false]
        refine wp_io_bind (wp_writeAll chunk hs) ?_ ?_
        · intro _ s₁ hs₁
          have htotal' : min (total + chunk.length) (2 ^ 64 - 1) =
              min (hashed ++ chunk).length (2 ^ 64 - 1) := by
            rw [List.length_append]
            omega
          refine wp_mono (ih _ (hashed ++ chunk) htotal' (Nat.le_of_not_lt hlarge) hs₁) ?_
          intro result s₂ hresult
          cases result with
          | ok all =>
            obtain ⟨hfilling, hall, parts, rfl, hparts⟩ := hresult
            refine ⟨hfilling, hall, chunk :: parts, rfl, ?_⟩
            rw [hparts, List.flatten_cons, List.append_assoc]
          | error error => exact hresult
        · exact fun error s₁ hs₁ => hs₁.2

/-- The task has entered the download inside the key's section. -/
structure Held (t number : ℕ) (job : Job) (s : Shared U) : Prop where
  runs : Runs t number job s
  holds : s.locks.Holds t job.key
  entered : .entered job.key number ∈ s.events
  unfinished : s.results number = none

omit [UrlCrate U] in
theorem keep_held : Keep store initial focus t (Held (U := U) t number job) := by
  intro s s' hinv hframe h
  exact ⟨keep_runs s s' hinv hframe h.runs, (Frame.locks hframe).holds_iff.mpr h.holds,
    Frame.events hframe _ h.entered, (Frame.results hframe number h.runs.1).trans h.unfinished⟩

/-- The archive of the job was just renamed into place. -/
structure Renamed (store : ProviderStorage) (t number : ℕ) (job : Job) (s : Shared U) : Prop
    extends Held t number job s where
  renamed : .renamed job.key number ∈ s.events
  file : ∃ file, s.files job.destination = some (.regular file) ∧
    sha256Hex file.bytes = job.expected

omit [UrlCrate U] in
theorem keep_renamed : Keep store initial focus t (Renamed (U := U) store t number job) := by
  intro s s' hinv hframe h
  have hheld := keep_held s s' hinv hframe h.toHeld
  have haccepted := Inv.jobs hinv number job hheld.runs.2
  refine ⟨hheld, Frame.events hframe _ h.renamed, ?_⟩
  obtain ⟨file, hfile, hdigest⟩ := h.file
  refine ⟨file, ?_, hdigest⟩
  rw [haccepted.destination] at hfile ⊢
  rw [Frame.archive hframe job.key haccepted.key h.holds]
  exact hfile

/-- Creating the temporary file. -/
theorem wp_createNew {temp : Path} (hs : Draft store focus t number job temp s) :
    Wp store initial focus t (createNew temp) (fun result s' => match result with
      | .ok _ => Draft store focus t number job temp s' ∧ ∃ file,
          s'.files temp = some (.regular file) ∧ file.bytes = []
      | .error _ => focus = none ∧ Draft store focus t number job temp s') s := by
  refine wp_call hs (keep_draft temp)
    (fun s₁ _ hs₁ => ⟨hs₁.owns, ⟨number, job, hs₁.runs, hs₁.holds⟩, hs₁.missing⟩) ?_
  intro s₁ choice answer s₂ hinv hs₁ hpolicy hexec _
  have hkey := (hinv.jobs number job hs₁.runs.2).key
  have htemp := owns_temporary hs₁.owns
  change s₁.createNew temp choice = some (answer, s₂) at hexec
  unfold Shared.createNew at hexec
  split at hexec
  · split at hexec
    · cases hexec
    · cases hexec
      refine ⟨⟨hs₁.toFetching.temp hkey fun p hp => ?_, hs₁.owns⟩, _, Function.update_self .., rfl⟩
      refine Function.update_of_ne ?_ _ _
      rintro rfl
      exact hp htemp
  · cases hexec
    exact ⟨focus_none hpolicy fun h => h, hs₁⟩
  · cases hexec

/-- Syncing the temporary file: no failed write is left. -/
theorem wp_syncAll {temp : Path} {response : Response U} {hashed : Bytes}
    (hs : Filling store focus t number job temp response hashed s) :
    Wp store initial focus t (syncAll temp) (fun result s' => match result with
      | .ok _ => Filling store focus t number job temp response hashed s' ∧
          s'.unreported temp = false
      | .error _ => focus = none ∧ Draft store focus t number job temp s') s := by
  refine wp_call hs (keep_filling temp response hashed)
    (fun s₁ _ hs₁ => ⟨hs₁.owns, ⟨number, job, hs₁.runs, hs₁.holds⟩, hs₁.missing⟩) ?_
  intro s₁ choice answer s₂ hinv hs₁ hpolicy hexec _
  have hkey := (hinv.jobs number job hs₁.runs.2).key
  change s₁.syncAll temp choice = some (answer, s₂) at hexec
  unfold Shared.syncAll at hexec
  split at hexec
  · split at hexec
    · cases hexec
    · rename_i hclean
      cases hexec
      exact ⟨hs₁, by simpa using hclean⟩
  · cases hexec
    exact ⟨focus_none hpolicy fun h => h, hs₁.toFetching.temp hkey fun _ _ => rfl, hs₁.owns⟩
  · cases hexec

/-- The rename of a complete, verified file. -/
theorem wp_rename {temp : Path} {response : Response U} {hashed : Bytes}
    (hresponse : ∃ chunks : List Bytes, response.chunks = chunks.map .ok ∧ hashed = chunks.flatten)
    (hlen : min hashed.length (2 ^ 64 - 1) ≤ store.maxArchiveBytes)
    (hdigest : sha256Hex hashed = job.expected)
    (hs : Filling store focus t number job temp response hashed s)
    (hclean : s.unreported temp = false) :
    Wp store initial focus t (rename temp job.destination) (fun result s' => match result with
      | .ok _ => Renamed store t number job s'
      | .error _ => focus = none ∧ Draft store focus t number job temp s') s := by
  let ψ : Shared U → Prop := fun s' =>
    Filling store focus t number job temp response hashed s' ∧ s'.unreported temp = false
  have hψ : Keep store initial focus t ψ := by
    rintro s s' hinv hframe ⟨h, hunreported⟩
    refine ⟨keep_filling temp response hashed s s' hinv hframe h, ?_⟩
    rw [(Frame.temps hframe temp h.owns).2.2]
    exact hunreported
  have hverified : ∀ s₁, Inv store initial focus s₁ → ψ s₁ → ∀ file,
      s₁.files temp = some (.regular file) →
      VerifiedPublication store ⟨number, job, response, file⟩ := by
    rintro s₁ hinv ⟨h, hunreported⟩ file hfile
    obtain ⟨file', hfile', hcontent⟩ := h.content
    rw [hfile] at hfile'
    cases hfile'
    obtain ⟨hbytes, hmax⟩ := hcontent hunreported
    refine ⟨hinv.jobs number job h.runs.2, ?_, ?_, ?_⟩
    · obtain ⟨chunks, hchunks, hflatten⟩ := hresponse
      exact ⟨chunks, hchunks, hbytes.trans hflatten⟩
    · have hmaxFile : maxFileBytes < 2 ^ 64 - 1 := by decide
      simp only [hbytes]
      omega
    · simp only [hbytes]
      exact hdigest
  refine wp_call (⟨hs, hclean⟩ : ψ s) hψ (fun s₁ hinv hs₁ => ⟨hs₁.1.owns, hs₁.1.missing, number, job,
    response, hs₁.1.runs, hs₁.1.holds, hs₁.1.unfinished, rfl, hs₁.1.response,
    hverified s₁ hinv hs₁⟩) ?_
  intro s₁ choice answer s₂ hinv hs₁ hpolicy hexec _
  have haccepted := hinv.jobs number job hs₁.1.runs.2
  change s₁.rename t temp job.destination choice = some (answer, s₂) at hexec
  unfold Shared.rename at hexec
  split at hexec
  · split at hexec
    · rename_i file hfile
      cases hexec
      have hpublication := hverified s₁ hinv hs₁ file hfile
      have hrenamed : s₁.renamed t temp job.destination file = { s₁ with
          files := Function.update (Function.update s₁.files temp none) job.destination
            (some (.regular file))
          seen := (job.destination, file) :: s₁.seen
          published := ⟨number, job, response, file⟩ :: s₁.published
          events := .renamed job.key number :: s₁.events } := by
        simp only [Shared.renamed, hs₁.1.runs.1, hs₁.1.runs.2, hs₁.1.response]
      rw [hrenamed]
      exact ⟨⟨hs₁.1.runs, hs₁.1.holds, List.mem_cons_of_mem _ hs₁.1.entered, hs₁.1.unfinished⟩,
        List.mem_cons_self, file, Function.update_self .., hpublication.digest⟩
    · cases hexec
  · cases hexec
    exact ⟨focus_none hpolicy fun h => h, hs₁.1.toDraft⟩
  · cases hexec

/-- The outbound request. -/
theorem wp_outboundGet {temp : Path} {url : U}
    (hs : Draft store focus t number job temp s ∧ ∃ file,
      s.files temp = some (.regular file) ∧ file.bytes = []) :
    Wp store initial focus t (outboundGet url) (fun result s' => match result with
      | .ok response => Filling store focus t number job temp response [] s'
      | .error _ => Draft store focus t number job temp s') s := by
  let ψ : Shared U → Prop := fun s' => Draft store focus t number job temp s' ∧ ∃ file,
    s'.files temp = some (.regular file) ∧ file.bytes = []
  have hψ : Keep store initial focus t ψ := by
    rintro s s' hinv hframe ⟨h, hfile⟩
    refine ⟨keep_draft temp s s' hinv hframe h, ?_⟩
    rw [(Frame.temps hframe temp h.owns).2.1]
    exact hfile
  refine wp_call (φ := ψ) hs hψ (fun s₁ _ hs₁ => ⟨⟨number, job, hs₁.1.runs, hs₁.1.holds⟩, hs₁.1.missing⟩) ?_
  intro s₁ choice answer s₂ hinv hs₁ hpolicy hexec _
  obtain ⟨hdraft, file, hfile, hempty⟩ := hs₁
  change s₁.outboundGet store.outbound t url choice = some (answer, s₂) at hexec
  unfold Shared.outboundGet at hexec
  have hnote : s₁.note t .requested =
      { s₁ with events := .requested job.key number :: s₁.events } := by
    simp [Shared.note, Shared.keyOf, hdraft.runs.1, hdraft.runs.2]
  rw [hnote] at hexec
  split at hexec
  · split at hexec
    · cases hexec
    · cases hexec
      have hdraft' : ∀ responses, Draft store focus t number job temp { s₁ with
          events := .requested job.key number :: s₁.events, responses } := fun responses =>
        ⟨⟨hdraft.runs, hdraft.holds, List.mem_cons_of_mem _ hdraft.entered, hdraft.unfinished,
          by simpa using hdraft.unrenamed, hdraft.absent⟩, hdraft.owns⟩
      cases answer with
      | ok response =>
        exact ⟨hdraft' _, Function.update_self .., file, hfile, fun _ => ⟨hempty, Nat.zero_le _⟩⟩
      | error error => exact hdraft' _
  · cases hexec

/-- `download` up to the rename. -/
theorem fillTemp_spec {url : U} {temp : Path} (hs : Draft store focus t number job temp s) :
    Wp store initial focus t (fillTemp store url job.expected temp job.destination).run
      (fun result s' => match result with
        | .ok _ => Renamed store t number job s'
        | .error _ => Draft store focus t number job temp s') s := by
  unfold fillTemp
  refine wp_io_bind (wp_createNew hs) ?_ ?_
  · intro _ s₁ hs₁
    refine wp_lift_bind (wp_mono (wp_outboundGet hs₁) fun result s₂ hs₂ => ?_)
    cases result with
    | error error => exact hs₂
    | ok response =>
      cases hstatus : errorForStatus response with
      | error error =>
        simp only [hstatus]
        exact hs₂.toDraft
      | ok response' =>
        have hsame : response' = response := by
          unfold errorForStatus at hstatus
          split at hstatus <;> cases hstatus
          rfl
        subst hsame
        simp only [hstatus]
        by_cases hlength : (response'.contentLength.any fun length =>
            decide (store.maxArchiveBytes < length)) = true
        · simp only [hlength, if_true]
          exact hs₂.toDraft
        · simp only [hlength, Bool.false_eq_true, if_false]
          refine wp_bind_of (receive_spec response'.chunks 0 [] rfl (Nat.zero_le _) hs₂) ?_ ?_
          · rintro hashed s₃ ⟨hs₃, hlen, parts, hparts, hhashed⟩
            by_cases hdigest : sha256Hex hashed = job.expected
            · simp only [hdigest, ne_eq, not_true_eq_false, if_false]
              refine wp_io_bind (wp_syncAll hs₃) ?_ ?_
              · rintro _ s₄ ⟨hs₄, hclean⟩
                refine wp_io (wp_mono (wp_rename ⟨parts, hparts, ?_⟩ hlen hdigest hs₄ hclean) ?_)
                · simpa using hhashed
                · intro result s₅ hs₅
                  cases result with
                  | ok value => exact hs₅
                  | error error => exact hs₅.2
              · exact fun error s₄ hs₄ => hs₄.2
            · simp only [hdigest, ne_eq, not_false_eq_true, if_true]
              exact hs₃.toDraft
          · exact fun error s₃ hs₃ => hs₃
  · exact fun error s₁ hs₁ => hs₁.2

/-- `TempCleanup`: a failed download renamed nothing. -/
theorem withTempCleanup_spec {url : U} {temp : Path}
    (hs : Draft store focus t number job temp s) :
    Wp store initial focus t
      (withTempCleanup temp (fillTemp store url job.expected temp job.destination)).run
      (fun result s' => match result with
        | .ok _ => Renamed store t number job s'
        | .error _ => Held t number job s' ∧ .renamed job.key number ∉ s'.events) s := by
  unfold withTempCleanup
  refine (wp_bind t _ _ _ s).mpr (wp_mono (fillTemp_spec hs) fun result s₁ hs₁ => ?_)
  cases result with
  | ok value => exact hs₁
  | error error =>
    refine wp_call hs₁ (keep_draft temp)
      (fun s₂ _ hs₂ => ⟨hs₂.owns, ⟨number, job, hs₂.runs, hs₂.holds⟩, hs₂.missing⟩) ?_
    intro s₂ choice answer s₃ _ hs₂ _ hexec _
    rcases attempt_cases hexec with ⟨-, rfl⟩ | ⟨-, -, rfl, -⟩
    · exact ⟨⟨hs₂.runs, hs₂.holds, hs₂.entered, hs₂.unfinished⟩, hs₂.unrenamed⟩
    · exact ⟨⟨hs₂.runs, hs₂.holds, hs₂.entered, hs₂.unfinished⟩, hs₂.unrenamed⟩

/-- What follows the rename: the memo learns the file that was published. -/
theorem publish_spec {parent : Path} (hkey : ¬Temporary job.destination)
    (hs : Renamed store t number job s) :
    Wp store initial focus t (publish job.expected parent job.destination).run
      (fun result s' => Renamed store t number job s' ∧ (focus ≠ none → result = .ok ())) s := by
  unfold publish
  refine wp_io_bind (R := fun result s' => Renamed store t number job s' ∧
    ∀ error, result = .error error → focus = none) ?_ ?_ ?_
  · refine wp_syncParent keep_renamed hs (fun s₁ hs₁ => ⟨number, job, hs₁.runs, hs₁.holds⟩)
      (fun s₁ hs₁ => ⟨hs₁, nofun⟩) ?_
    exact fun s₁ message hfocus hs₁ => ⟨hs₁, fun _ _ => hfocus⟩
  · rintro _ s₁ ⟨hs₁, -⟩
    refine wp_lift_bind (wp_symlinkMetadata keep_renamed hs₁
      (fun _ _ h => ⟨⟨h.runs, h.holds, h.entered, h.unfinished⟩, h.renamed, h.file⟩) hkey ?_ ?_ ?_ ?_)
    · exact fun s₂ hs₂ _ => ⟨hs₂, fun _ => rfl⟩
    · intro s₂ file hs₂ hfile hlooked
      simp only [if_true]
      let ψ : Shared U → Prop := fun s' => Renamed store t number job s' ∧
        s'.files job.destination = some (.regular file)
      have hψ : Keep store initial focus t ψ := by
        rintro s s' hinv hframe ⟨h, hf⟩
        have hruns := keep_runs s s' hinv hframe h.runs
        have haccepted := Inv.jobs hinv number job hruns.2
        refine ⟨keep_renamed s s' hinv hframe h, ?_⟩
        rw [haccepted.destination] at hf ⊢
        rw [Frame.archive hframe job.key haccepted.key h.holds]
        exact hf
      refine wp_lift_bind (wp_recordVerified hψ ⟨hs₂, hfile⟩ ?_ ?_)
      · rintro s₃ hinv ⟨hs₃, hfile₃⟩
        obtain ⟨file', hfile', hdigest⟩ := hs₃.file
        rw [hfile₃] at hfile'
        cases hfile'
        exact ⟨file, hinv.files_seen _ _ _ hkey hfile₃ rfl, rfl, hdigest⟩
      · exact fun s₃ hs₃ => ⟨hs₃.1, fun _ => rfl⟩
    · exact fun s₂ identity hs₂ _ => ⟨hs₂, fun _ => rfl⟩
    · exact fun s₂ message hfocus hs₂ => ⟨hs₂, fun hsome => absurd hfocus hsome⟩
  · exact fun error s₁ hs₁ => ⟨hs₁.1, fun hsome => absurd (hs₁.2 error rfl) hsome⟩

end Specs

end OpenTfMirror.StorageProofs
