import OpenTfMirror.StorageInvariant

/-!
# Every step of the archive store keeps the invariant

One lemma for each kind of change of the shared state: the invariant holds
after it, and so do the frames of all other tasks.
-/

namespace OpenTfMirror.StorageSteps

open TaskProgram TaskLogic KeyedLocks TextOps FileNames FileStore Outbound Provider Metadata Storage
  StorageMachine StorageInvariant

variable {U : Type} {store : ProviderStorage} {initial : Path → Option Node} {focus : Focus}
variable {t : ℕ} {s s' : Shared U}

/-- Nobody else owns a temporary file of the task. -/
theorem owns_unique {t' : ℕ} {path : Path} (h : Owns store t path s)
    (h' : Owns store t' path s) : t = t' := by
  obtain ⟨-, dir, base, pid, n, rfl, hn⟩ := h
  obtain ⟨-, dir', base', pid', n', heq, hn'⟩ := h'
  rw [tempPath_sequence heq, hn'] at hn
  exact (Option.some.inj hn).symm

theorem owns_temporary {path : Path} (h : Owns store t path s) : Temporary path := by
  obtain ⟨-, dir, base, pid, n, heq, -⟩ := h
  exact ⟨dir, base, pid, n, heq⟩

theorem jobResult_mono {events events' : List Event} {number : ℕ} {job : Job}
    {result : Except ProviderStorageError Path} (h : JobResult store focus events number job result)
    (hevents : ∀ event ∈ events, event ∈ events')
    (hrenames : ∀ key, .renamed key number ∈ events' → .renamed key number ∈ events)
    (hentries : ∀ key, .entered key number ∈ events' → .entered key number ∈ events) :
    JobResult store focus events' number job result where
  path := h.path
  downloaded path hpath hentered := by
    obtain ⟨hdestination, hrenamed⟩ := h.downloaded path hpath (hentries job.key hentered)
    exact ⟨hdestination, hevents _ hrenamed⟩
  error key expected error hfocus hkey herror := by
    obtain ⟨hentered, hunrenamed⟩ := h.error key expected error hfocus hkey herror
    exact ⟨hevents _ hentered, fun hmem => hunrenamed (hrenames key hmem)⟩

/-- Lookups in the memo after an insertion, which may clear it first. -/
theorem memoRecord_lookup {verified : AList fun _ : Path => VerifiedFile} {path path' : Path}
    {identity : FileIdentity} {checksum : String} {entry : VerifiedFile}
    (h : (memoRecord verified path identity checksum).lookup path' = some entry) :
    (path' = path ∧ entry = ⟨identity, checksum⟩) ∨ verified.lookup path' = some entry := by
  unfold memoRecord at h
  rcases lookup_insert_cases h with ⟨hpath, hentry⟩ | ⟨-, hkept⟩
  · exact .inl ⟨hpath, hentry⟩
  · split at hkept
    · simp at hkept
    · exact .inr hkept

/-- Handles after a step on the lock table are old ones or the one just taken. -/
theorem perform_handles {L L' : LockTable ProviderArchiveKey} {op : LockOp ProviderArchiveKey}
    (h : L.perform t op = some L') {u : ℕ} {hd : Handle ProviderArchiveKey}
    (hlookup : L'.handles.lookup u = some hd) :
    (∃ hd', L.handles.lookup u = some hd' ∧ hd'.key = hd.key) ∨
      (u = t ∧ op = .lockFor hd.key) := by
  cases op with
  | lockFor k =>
    cases h
    cases hmap : L.map.lookup k with
    | some m =>
      simp only [LockTable.lockFor, hmap] at hlookup
      rcases lookup_insert_cases hlookup with ⟨rfl, rfl⟩ | ⟨-, hold⟩
      · exact .inr ⟨rfl, rfl⟩
      · exact .inl ⟨hd, hold, rfl⟩
    | none =>
      simp only [LockTable.lockFor, hmap] at hlookup
      rcases lookup_insert_cases hlookup with ⟨rfl, rfl⟩ | ⟨-, hold⟩
      · exact .inr ⟨rfl, rfl⟩
      · exact .inl ⟨hd, hold, rfl⟩
  | acquire =>
    simp only [LockTable.perform, LockTable.acquire] at h
    split at h
    · cases h
    · split at h
      · cases h
      · cases h
        exact .inl ⟨hd, hlookup, rfl⟩
  | release =>
    cases h
    simp only [LockTable.release] at hlookup
    split at hlookup
    · exact .inl ⟨hd, hlookup, rfl⟩
    · split at hlookup
      · exact .inl ⟨hd, hlookup, rfl⟩
      · exact .inl ⟨hd, hlookup, rfl⟩
  | dropBody =>
    cases h
    simp only [LockTable.dropBody] at hlookup
    split at hlookup
    · exact .inl ⟨hd, hlookup, rfl⟩
    · rename_i hd₀ hold₀
      rcases lookup_insert_cases hlookup with ⟨rfl, rfl⟩ | ⟨-, hold⟩
      · exact .inl ⟨hd₀, hold₀, rfl⟩
      · exact .inl ⟨hd, hold, rfl⟩
  | releaseArc =>
    cases h
    simp only [LockTable.releaseArc] at hlookup
    by_cases heq : u = t
    · rw [heq, AList.lookup_erase] at hlookup
      cases hlookup
    · rw [AList.lookup_erase_ne heq] at hlookup
      exact .inl ⟨hd, hlookup, rfl⟩

/-- Spawned jobs keep their numbers. -/
theorem jobs_append {jobs : List Job} {job job' : Job} {number : ℕ}
    (h : jobs[number]? = some job) : (jobs ++ [job'])[number]? = some job := by
  have hlt : number < jobs.length := (List.getElem?_eq_some_iff.mp h).1
  rw [List.getElem?_append_left hlt]
  exact h

/-- A job is an old one or the one just spawned. -/
theorem jobs_append_cases {jobs : List Job} {job job' : Job} {number : ℕ}
    (h : (jobs ++ [job'])[number]? = some job) :
    jobs[number]? = some job ∨ (number = jobs.length ∧ job = job') := by
  rcases Nat.lt_trichotomy number jobs.length with hlt | heq | hgt
  · rw [List.getElem?_append_left hlt] at h
    exact .inl h
  · subst heq
    simp only [List.getElem?_concat_length, Option.some.injEq] at h
    exact .inr ⟨rfl, h.symm⟩
  · have hlen : (jobs ++ [job']).length ≤ number := by
      rw [List.length_append, List.length_singleton]
      omega
    rw [List.getElem?_eq_none hlen] at h
    cases h

/-- The record of events is nothing that a task reads. -/
@[simp] theorem note_responses (s : Shared U) (t : ℕ) (event : ProviderArchiveKey → ℕ → Event) :
    (s.note t event).responses = s.responses := by
  unfold Shared.note
  split <;> rfl

variable [SemverCrate]

/-- A stale name is the name of no archive. -/
theorem isStaleName_not_archive {path : Path} (hstale : isStaleName path = true)
    {key : ProviderArchiveKey} (hkey : ValidKey key) : store.archivePath key ≠ path := by
  rintro rfl
  obtain ⟨stem, hstem⟩ := validKey_filename hkey
  simp only [isStaleName, ProviderStorage.archivePath, List.getLast?_append, List.getLast?_cons_cons,
    List.getLast?_singleton, Option.some_or, Option.any_some, Bool.and_eq_true,
    Option.isSome_iff_exists, stripSuffix_eq_some, hstem] at hstale
  obtain ⟨-, rest, hrest⟩ := hstale
  have hending := (eq_of_append_eq (by decide) hrest).2
  exact absurd hending (by decide)

variable [Sha256Crate]

theorem frame_refl (store : ProviderStorage) (focus : Focus) (t : ℕ) (s : Shared U) :
    Frame store focus t s s where
  locks := same_refl t s.locks
  seen _ h := h
  archive _ _ _ := rfl
  temps _ h := ⟨h, rfl, rfl⟩
  looked := rfl
  responses := rfl
  permits := .rfl
  jobOf := rfl
  jobs _ _ h := h
  calls := rfl
  events _ h := h
  finished _ _ h := h
  results _ _ := rfl
  renames _ _ _ h := h
  entries _ _ _ h := h
  cached _ _ _ _ h := h

theorem frame_trans {s₁ s₂ s₃ : Shared U} (h : Frame store focus t s₁ s₂)
    (h' : Frame store focus t s₂ s₃) : Frame store focus t s₁ s₃ where
  locks := h.locks.trans h'.locks
  seen x hx := h'.seen x (h.seen x hx)
  archive key hkey hholds := by
    have hholds' := h.locks.holds_iff.mpr hholds
    rw [h'.archive key hkey hholds', h.archive key hkey hholds]
  temps path hown := by
    obtain ⟨hown₂, hfiles₂, hunreported₂⟩ := h.temps path hown
    obtain ⟨hown₃, hfiles₃, hunreported₃⟩ := h'.temps path hown₂
    exact ⟨hown₃, hfiles₃.trans hfiles₂, hunreported₃.trans hunreported₂⟩
  looked := h'.looked.trans h.looked
  responses := h'.responses.trans h.responses
  permits := h'.permits.trans h.permits
  jobOf := h'.jobOf.trans h.jobOf
  jobs number job hjob := h'.jobs number job (h.jobs number job hjob)
  calls := h'.calls.trans h.calls
  events event hevent := h'.events event (h.events event hevent)
  finished number result hresult := h'.finished number result (h.finished number result hresult)
  results number hnumber :=
    (h'.results number (h.jobOf.trans hnumber)).trans (h.results number hnumber)
  renames key number hnumber hevent :=
    h.renames key number hnumber (h'.renames key number (h.jobOf.trans hnumber) hevent)
  entries key number hnumber hevent :=
    h.entries key number hnumber (h'.entries key number (h.jobOf.trans hnumber) hevent)
  cached key expected hfocus hkey hcached :=
    h'.cached key expected hfocus hkey (h.cached key expected hfocus hkey hcached)

/-- What the proofs about single tasks rely on. -/
def assertions (store : ProviderStorage) (initial : Path → Option Node) (focus : Focus) :
    Assertions (Op U) (Shared U) where
  inv := Inv store initial focus
  frame := Frame store focus
  pre := Pre store focus
  frame_refl := frame_refl store focus
  frame_trans _ _ _ _ := frame_trans

/-- The step lemma's conclusion, for a step of the task `t`. -/
def Keeps (store : ProviderStorage) (initial : Path → Option Node) (focus : Focus) (t : ℕ)
    (s s' : Shared U) : Prop :=
  Inv store initial focus s' ∧ ∀ t', t' ≠ t → Frame store focus t' s s'

theorem keeps_refl (h : Inv store initial focus s) : Keeps store initial focus t s s :=
  ⟨h, fun t' _ => frame_refl store focus t' s⟩

/-- Looking at a regular file. -/
theorem keeps_look (h : Inv store initial focus s) {path : Path} {file : File}
    (hpath : ¬Temporary path) (hfile : s.files path = some (.regular file)) :
    Keeps store initial focus t s
      { s with looked := Function.update s.looked t (some (path, file)) } := by
  refine ⟨{ h with looked := ?_ }, fun t' hne => ?_⟩
  · intro u path' file' hu
    dsimp only at hu
    by_cases heq : u = t
    · rw [heq, Function.update_self] at hu
      cases hu
      exact h.files_seen path _ file hpath hfile rfl
    · rw [Function.update_of_ne heq] at hu
      exact h.looked u path' file' hu
  · exact { frame_refl store focus t' s with looked := Function.update_of_ne hne _ _ }

/-- A memo hit on the file the task looked at. -/
theorem keeps_hit (h : Inv store initial focus s) {path : Path} {file : File}
    {entry : VerifiedFile} (hlooked : s.looked t = some (path, file))
    (hlen : file.bytes.length ≤ store.maxArchiveBytes)
    (hentry : s.verified.lookup path = some entry) (hidentity : entry.identity = file.identity) :
    Keeps store initial focus t s
      { s with hits := ⟨path, file, entry.checksum⟩ :: s.hits } := by
  refine ⟨{ h with hits := ?_ }, fun t' _ => { frame_refl store focus t' s with }⟩
  intro hit hmem
  rcases List.mem_cons.mp hmem with rfl | hmem'
  · obtain ⟨file', hseen, hid, hdigest⟩ := h.memo path entry hentry
    exact ⟨h.looked t path file hlooked, hlen, file', hseen, hid.trans hidentity, hdigest⟩
  · exact h.hits hit hmem'

/-- Recording a file that was seen and hashed. -/
theorem keeps_record (h : Inv store initial focus s) {path : Path} {identity : FileIdentity}
    {checksum : String} (hseen : ∃ file, (path, file) ∈ s.seen ∧ file.identity = identity ∧
      sha256Hex file.bytes = checksum) :
    Keeps store initial focus t s
      { s with verified := memoRecord s.verified path identity checksum } := by
  refine ⟨{ h with memo := ?_ }, fun t' _ => { frame_refl store focus t' s with }⟩
  intro path' entry hentry
  rcases memoRecord_lookup hentry with ⟨rfl, rfl⟩ | hold
  · exact hseen
  · exact h.memo path' entry hold

/-- Forgetting a path. -/
theorem keeps_forget (h : Inv store initial focus s) (path : Path) :
    Keeps store initial focus t s { s with verified := s.verified.erase path } := by
  refine ⟨{ h with memo := ?_ }, fun t' _ => { frame_refl store focus t' s with }⟩
  intro path' entry hentry
  dsimp only at hentry
  by_cases heq : path' = path
  · rw [heq, AList.lookup_erase] at hentry
    cases hentry
  · rw [AList.lookup_erase_ne heq] at hentry
    exact h.memo path' entry hentry

/-- A step on the lock table. -/
theorem keeps_lock (h : Inv store initial focus s) {op : LockOp ProviderArchiveKey}
    {locks : LockTable ProviderArchiveKey} (hpre : op.Pre s.locks t) (hpermit : t ∉ s.permits)
    {number : ℕ} {job : Job} (hruns : Runs t number job s)
    (hkey : ∀ key, op = .lockFor key → key = job.key) (hperform : s.locks.perform t op = some locks) :
    Keeps store initial focus t s { s with locks } := by
  have hsame : ∀ t', t' ≠ t → s.locks.Same t' locks := fun t' hne => perform_same hne hperform
  refine ⟨{ h with
    consistent := perform_consistent h.consistent hpre hperform
    handles := ?_
    permits := ?_ }, fun t' hne => { frame_refl store focus t' s with locks := hsame t' hne }⟩
  · intro u hd hlookup
    rcases perform_handles hperform hlookup with ⟨hd', hold, heq⟩ | ⟨rfl, hop⟩
    · rw [← heq]
      exact h.handles u hd' hold
    · exact ⟨number, job, hruns, (hkey hd.key hop).symm⟩
  · intro u hu
    have hne : u ≠ t := by
      rintro rfl
      exact hpermit hu
    obtain ⟨number, job, hruns, hholds⟩ := h.permits u hu
    exact ⟨number, job, hruns, (hsame u hne).holds_iff.mpr hholds⟩

/-- Taking a download permit inside the key's section. -/
theorem keeps_permit (h : Inv store initial focus s)
    (hruns : Inside t s) (hpermit : t ∉ s.permits) :
    Keeps store initial focus t s { s with permits := t :: s.permits } := by
  refine ⟨{ h with permits := ?_, permits_nodup := ?_ }, fun t' hne =>
    { frame_refl store focus t' s with permits := ?_ }⟩
  · intro u hu
    rcases List.mem_cons.mp hu with rfl | hu'
    · exact hruns
    · exact h.permits u hu'
  · exact List.nodup_cons.mpr ⟨hpermit, h.permits_nodup⟩
  · simp [hne]

/-- Giving the permit back. -/
theorem keeps_unpermit (h : Inv store initial focus s) :
    Keeps store initial focus t s { s with permits := s.permits.erase t } := by
  refine ⟨{ h with permits := ?_, permits_nodup := h.permits_nodup.erase t }, fun t' hne =>
    { frame_refl store focus t' s with permits := ?_ }⟩
  · intro u hu
    exact h.permits u (List.mem_of_mem_erase hu)
  · exact List.mem_erase_of_ne hne

/-- Drawing a sequence number. -/
theorem keeps_draw (h : Inv store initial focus s) {number : ℕ} (hjobOf : s.jobOf t = some number) :
    Keeps store initial focus t s { s with
      sequence := s.sequence + 1
      owner := Function.update s.owner s.sequence (some t) } := by
  refine ⟨{ h with owner := ?_, idle := ?_ }, fun t' hne =>
    { frame_refl store focus t' s with temps := ?_ }⟩
  · intro n u hu
    dsimp only at hu ⊢
    by_cases heq : n = s.sequence
    · omega
    · rw [Function.update_of_ne heq] at hu
      have hlt := h.owner n u hu
      omega
  · intro hserving
    rw [(h.idle hserving).2.2.1 t] at hjobOf
    cases hjobOf
  · rintro path ⟨hbelow, dir, base, pid, n, rfl, hn⟩
    refine ⟨⟨hbelow, dir, base, pid, n, rfl, ?_⟩, rfl, rfl⟩
    have hlt := h.owner n t' hn
    have hne' : n ≠ s.sequence := by omega
    dsimp only
    rw [Function.update_of_ne hne']
    exact hn

/-- A change of one of the task's temporary files. -/
theorem keeps_temp (h : Inv store initial focus s) {path : Path} (hown : Owns store t path s)
    {files : Path → Option Node} {unreported : Path → Bool}
    (hfiles : ∀ p, p ≠ path → files p = s.files p)
    (hunreported : ∀ p, p ≠ path → unreported p = s.unreported p) :
    Keeps store initial focus t s { s with files, unreported } := by
  have hother : ∀ p, ¬Temporary p → files p = s.files p := by
    intro p hp
    apply hfiles
    rintro rfl
    exact hp (owns_temporary hown)
  have harchive : ∀ key, ValidKey key → files (store.archivePath key) =
      s.files (store.archivePath key) := fun key hkey =>
    hother _ (archivePath_not_temporary store hkey)
  have hcached : ∀ key expected, ValidKey key → Cached store key expected s →
      Cached store key expected { s with files, unreported } := by
    rintro key expected hkey ⟨file, hfile, hrest⟩
    exact ⟨file, (harchive key hkey).trans hfile, hrest⟩
  refine ⟨{ h with
    archives := ?_
    files_seen := ?_
    cached := fun key expected hfocus hevent hkey =>
      hcached key expected hkey (h.cached key expected hfocus hevent hkey) }, fun t' hne =>
    { frame_refl store focus t' s with
      archive := fun key hkey _ => harchive key hkey
      temps := ?_
      cached := fun key expected _ hkey hc => hcached key expected hkey hc }⟩
  · intro key hkey
    dsimp only
    rw [harchive key hkey]
    exact h.archives key hkey
  · intro p node file hp hnode hopened
    dsimp only at hnode
    rw [hother p hp] at hnode
    exact h.files_seen p node file hp hnode hopened
  · intro p hp
    have hpath : p ≠ path := by
      rintro rfl
      exact hne (owns_unique hp hown)
    exact ⟨hp, hfiles p hpath, hunreported p hpath⟩

/-- A write to the task's temporary file. -/
theorem keeps_write (h : Inv store initial focus s) {path : Path} (hown : Owns store t path s)
    {bytes : Bytes} {choice : Choice U} {result : Except IoError Unit}
    (hwrite : s.write path bytes choice = some (result, s')) :
    Keeps store initial focus t s s' := by
  unfold Shared.write at hwrite
  split at hwrite
  · split at hwrite
    · split at hwrite
      · cases hwrite
      · cases hwrite
        exact keeps_temp h hown (fun p hp => Function.update_of_ne hp _ _) (fun _ _ => rfl)
    · cases hwrite
  · split at hwrite
    · cases hwrite
      exact keeps_temp h hown (fun p hp => Function.update_of_ne hp _ _) (fun _ _ => rfl)
    · cases hwrite
  · split at hwrite
    · split at hwrite
      · cases hwrite
      · cases hwrite
        exact keeps_temp h hown (fun p hp => Function.update_of_ne hp _ _)
          (fun p hp => Function.update_of_ne hp _ _)
    · cases hwrite
  · cases hwrite
    exact keeps_temp h hown (fun _ _ => rfl) (fun p hp => Function.update_of_ne hp _ _)
  · cases hwrite

/-- Adding an event of a task that runs a job: only a download whose archive is
missing is entered or sends a request. -/
theorem keeps_note (h : Inv store initial focus s) {number : ℕ} {job : Job}
    (hruns : Runs t number job s) (hmissing : Missing store focus t s)
    {event : ProviderArchiveKey → ℕ → Event}
    (hevent : event = .entered ∧ s.results number = none ∨ event = .requested)
    {responses : ℕ → Option (Response U)}
    (hresponses : ∀ t', t' ≠ t → responses t' = s.responses t') :
    Keeps store initial focus t s { s.note t event with responses } := by
  have hkeyOf : s.keyOf t = some (job.key, number) := by
    simp [Shared.keyOf, hruns.1, hruns.2]
  have hnote : s.note t event = { s with events := event job.key number :: s.events } := by
    simp only [Shared.note, hkeyOf]
  rw [hnote]
  have hmono : ∀ e ∈ s.events, e ∈ event job.key number :: s.events :=
    fun e he => List.mem_cons_of_mem _ he
  have hrenames : ∀ key n, .renamed key n ∈ event job.key number :: s.events →
      .renamed key n ∈ s.events := by
    intro key n hmem
    rcases List.mem_cons.mp hmem with heq | hmem'
    · rcases hevent with ⟨rfl, -⟩ | rfl <;> cases heq
    · exact hmem'
  have hentries : ∀ key n, n ≠ number ∨ s.results number ≠ none →
      .entered key n ∈ event job.key number :: s.events → .entered key n ∈ s.events := by
    intro key n hor hmem
    rcases List.mem_cons.mp hmem with heq | hmem'
    · rcases hevent with ⟨rfl, hunfinished⟩ | rfl
      · cases heq
        rcases hor with hne | hfinished
        · exact absurd rfl hne
        · exact absurd hunfinished hfinished
      · cases heq
    · exact hmem'
  refine ⟨{ h with
    renamed_published := fun key n hn => h.renamed_published key n (hrenames key n hn)
    waiting := ?_
    event_lt := ?_
    results := ?_
    ordered := ?_
    cached := ?_ }, fun t' hne =>
    { frame_refl store focus t' s with
      responses := hresponses t' hne
      events := hmono
      renames := fun key n _ => hrenames key n
      entries := fun key n hn => hentries key n (.inl fun heq =>
        hne (h.running t' t number (heq ▸ hn) hruns.1)) }⟩
  · intro n hn
    obtain ⟨hlt, hjobOf, hresult, hunrenamed⟩ := h.waiting n hn
    have hne : n ≠ number := by
      rintro rfl
      exact hjobOf t hruns.1
    refine ⟨hlt, hjobOf, hresult, fun key => ⟨fun hmem => ?_, fun hmem => ?_⟩⟩
    · exact (hunrenamed key).1 (hrenames key n hmem)
    · exact (hunrenamed key).2 (hentries key n (.inl hne) hmem)
  · intro key n hn
    by_cases heq : n = number
    · exact heq ▸ h.running_lt t number hruns.1
    · exact h.event_lt key n (hn.imp (hrenames key n) (hentries key n (.inl heq)))
  · intro n result hresult
    obtain ⟨job', hjob', hgood⟩ := h.results n result hresult
    refine ⟨job', hjob', jobResult_mono hgood hmono (fun key => hrenames key n) fun key => ?_⟩
    refine hentries key n ?_
    by_cases heq : n = number
    · subst heq
      exact .inr (by rw [hresult]; exact Option.some_ne_none _)
    · exact .inl heq
  · intro key expected hfocus
    refine List.pairwise_cons.mpr ⟨?_, h.ordered key expected hfocus⟩
    rintro earlier hearlier n m hlater rfl
    have hkey : job.key = key := by
      rcases hevent with ⟨rfl, -⟩ | rfl <;> rcases hlater with hlater | hlater <;> cases hlater <;> rfl
    have hvalid : ValidKey key := by
      rw [← hkey]
      exact (h.jobs number job hruns.2).key
    exact hmissing key expected hfocus number job hruns hkey
      (h.cached key expected hfocus ⟨m, hearlier⟩ hvalid)
  · rintro key expected hfocus ⟨n, hn⟩ hkey
    exact h.cached key expected hfocus ⟨n, hrenames key n hn⟩ hkey

/-- Renaming a verified download into place. -/
theorem keeps_rename (h : Inv store initial focus s) {source : Path} {number : ℕ} {job : Job}
    {response : Response U} {file : File} (hown : Owns store t source s)
    (hruns : Runs t number job s) (hholds : s.locks.Holds t job.key)
    (hunfinished : s.results number = none) (hresponse : s.responses t = some response)
    (hverified : VerifiedPublication store ⟨number, job, response, file⟩) :
    Keeps store initial focus t s (s.renamed t source job.destination file) := by
  have haccepted := h.jobs number job hruns.2
  have hrenamed : s.renamed t source job.destination file = { s with
      files := Function.update (Function.update s.files source none) job.destination
        (some (.regular file))
      seen := (job.destination, file) :: s.seen
      published := ⟨number, job, response, file⟩ :: s.published
      events := .renamed job.key number :: s.events } := by
    simp only [Shared.renamed, hruns.1, hruns.2, hresponse]
  rw [hrenamed]
  have hmono : ∀ e ∈ s.events, e ∈ .renamed job.key number :: s.events :=
    fun e he => List.mem_cons_of_mem _ he
  have hrenames : ∀ key n, n ≠ number → .renamed key n ∈ .renamed job.key number :: s.events →
      .renamed key n ∈ s.events := by
    intro key n hne hmem
    rcases List.mem_cons.mp hmem with heq | hmem'
    · cases heq
      exact absurd rfl hne
    · exact hmem'
  have hentries : ∀ key n, .entered key n ∈ .renamed job.key number :: s.events →
      .entered key n ∈ s.events := by
    intro key n hmem
    rcases List.mem_cons.mp hmem with heq | hmem'
    · cases heq
    · exact hmem'
  have htemp : Temporary source := owns_temporary hown
  have htarget : ¬Temporary job.destination := by
    rw [haccepted.destination]
    exact archivePath_not_temporary store haccepted.key
  have hfiles : ∀ p, p ≠ job.destination → ¬Temporary p →
      Function.update (Function.update s.files source none) job.destination
        (some (.regular file)) p = s.files p := by
    intro p hp htmp
    have hsource : p ≠ source := by
      rintro rfl
      exact htmp htemp
    rw [Function.update_of_ne hp, Function.update_of_ne hsource]
  have harchive : ∀ key, ValidKey key → key ≠ job.key →
      Function.update (Function.update s.files source none) job.destination
        (some (.regular file)) (store.archivePath key) = s.files (store.archivePath key) := by
    intro key hkey hne
    refine hfiles _ ?_ (archivePath_not_temporary store hkey)
    rw [haccepted.destination]
    exact fun heq => hne (archivePath_inj store heq)
  have hcached : ∀ key expected, focus = some (key, expected) → ValidKey key →
      (key = job.key ∨ Cached store key expected s) →
      ∃ f, Function.update (Function.update s.files source none) job.destination
        (some (.regular file)) (store.archivePath key) = some (.regular f) ∧
        f.bytes.length ≤ store.maxArchiveBytes ∧ sha256Hex f.bytes = expected := by
    intro key expected hfocus hkey hor
    by_cases heq : key = job.key
    · subst heq
      refine ⟨file, ?_, hverified.size, ?_⟩
      · rw [haccepted.destination, Function.update_self]
      · rw [hverified.digest]
        exact h.jobs_agree _ expected hfocus number job hruns.2 rfl
    · obtain ⟨f, hf, hrest⟩ := hor.resolve_left heq
      exact ⟨f, (harchive key hkey heq).trans hf, hrest⟩
  refine ⟨{ h with
    archives := ?_
    published := ?_
    renamed_published := ?_
    memo := ?_
    files_seen := ?_
    looked := fun u path f hu => List.mem_cons_of_mem _ (h.looked u path f hu)
    hits := ?_
    waiting := ?_
    event_lt := ?_
    results := ?_
    ordered := ?_
    cached := ?_ }, fun t' hne =>
    { frame_refl store focus t' s with
      seen := fun x hx => List.mem_cons_of_mem _ hx
      archive := ?_
      temps := ?_
      events := hmono
      renames := fun key n hn => hrenames key n fun heq =>
        hne (h.running t' t number (heq ▸ hn) hruns.1)
      entries := fun key n _ => hentries key n
      cached := fun key expected hfocus hkey hc => hcached key expected hfocus hkey (.inr hc) }⟩
  · intro key hkey
    by_cases heq : key = job.key
    · subst heq
      refine .inr ⟨_, List.mem_cons_self, rfl, ?_⟩
      dsimp only
      rw [haccepted.destination, Function.update_self]
    · dsimp only
      rw [harchive key hkey heq]
      rcases h.archives key hkey with hold | ⟨p, hp, hrest⟩
      · exact .inl hold
      · exact .inr ⟨p, List.mem_cons_of_mem _ hp, hrest⟩
  · intro p hp
    rcases List.mem_cons.mp hp with rfl | hp'
    · exact ⟨hverified, hruns.2⟩
    · exact h.published p hp'
  · intro key n hn
    rcases List.mem_cons.mp hn with heq | hn'
    · cases heq
      exact ⟨_, List.mem_cons_self, rfl, rfl⟩
    · obtain ⟨p, hp, hnumber⟩ := h.renamed_published key n hn'
      exact ⟨p, List.mem_cons_of_mem _ hp, hnumber⟩
  · intro path entry hentry
    obtain ⟨f, hf, hrest⟩ := h.memo path entry hentry
    exact ⟨f, List.mem_cons_of_mem _ hf, hrest⟩
  · intro path node f hpath hnode hopened
    dsimp only at hnode ⊢
    by_cases heq : path = job.destination
    · rw [heq, Function.update_self] at hnode
      cases hnode
      cases hopened
      rw [heq]
      exact List.mem_cons_self
    · rw [hfiles path heq hpath] at hnode
      exact List.mem_cons_of_mem _ (h.files_seen path node f hpath hnode hopened)
  · intro hit hhit
    obtain ⟨hseen, hlen, f, hf, hrest⟩ := h.hits hit hhit
    exact ⟨List.mem_cons_of_mem _ hseen, hlen, f, List.mem_cons_of_mem _ hf, hrest⟩
  · intro n hn
    obtain ⟨hlt, hjobOf, hresult, hunrenamed⟩ := h.waiting n hn
    have hne : n ≠ number := by
      rintro rfl
      exact hjobOf t hruns.1
    refine ⟨hlt, hjobOf, hresult, fun key => ⟨fun hmem => ?_, fun hmem => ?_⟩⟩
    · exact (hunrenamed key).1 (hrenames key n hne hmem)
    · exact (hunrenamed key).2 (hentries key n hmem)
  · intro key n hn
    by_cases heq : n = number
    · exact heq ▸ h.running_lt t number hruns.1
    · exact h.event_lt key n (hn.imp (hrenames key n heq) (hentries key n))
  · intro n result hresult
    obtain ⟨job', hjob', hgood⟩ := h.results n result hresult
    have hne : n ≠ number := by
      rintro rfl
      rw [hunfinished] at hresult
      cases hresult
    exact ⟨job', hjob', jobResult_mono hgood hmono (fun key => hrenames key n hne)
      fun key => hentries key n⟩
  · intro key expected hfocus
    refine List.pairwise_cons.mpr ⟨?_, h.ordered key expected hfocus⟩
    intro earlier _ n m hlater
    rcases hlater with hlater | hlater <;> cases hlater
  · rintro key expected hfocus ⟨n, hn⟩ hkey
    refine hcached key expected hfocus hkey ?_
    rcases List.mem_cons.mp hn with heq | hn'
    · cases heq
      exact .inl rfl
    · exact .inr (h.cached key expected hfocus ⟨n, hn'⟩ hkey)
  · intro key hkey hother
    have hne' : key ≠ job.key := by
      rintro rfl
      exact hne (holds_unique h.consistent hother hholds)
    exact harchive key hkey hne'
  · intro p hp
    have hsource : p ≠ source := by
      rintro rfl
      exact hne (owns_unique hp hown)
    have hdest : p ≠ job.destination := by
      rintro rfl
      exact htarget (owns_temporary hp)
    refine ⟨hp, ?_, rfl⟩
    dsimp only
    rw [Function.update_of_ne hdest, Function.update_of_ne hsource]

/-- Spawning the job of a call. -/
theorem keeps_spawn (h : Inv store initial focus s) {job : Job} {call : Call}
    (haccepted : AcceptedJob store job) (hcall : s.calls t = some call)
    (hkey : call.key = job.key) (hmetadata : call.metadata = job.metadata) :
    Keeps store initial focus t s { s with
      jobs := s.jobs ++ [job]
      waiting := s.jobs.length :: s.waiting
      calls := Function.update s.calls t
        ((s.calls t).map fun call => { call with job := some s.jobs.length }) } := by
  have hlen : (s.jobs ++ [job]).length = s.jobs.length + 1 := by
    rw [List.length_append, List.length_singleton]
  have hcalls : ∀ u c, Function.update s.calls t
      ((s.calls t).map fun call => { call with job := some s.jobs.length }) u = some c →
      (u = t ∧ c = { call with job := some s.jobs.length }) ∨ (u ≠ t ∧ s.calls u = some c) := by
    intro u c hu
    by_cases heq : u = t
    · subst heq
      rw [Function.update_self, hcall] at hu
      exact .inl ⟨rfl, (Option.some.inj hu).symm⟩
    · rw [Function.update_of_ne heq] at hu
      exact .inr ⟨heq, hu⟩
  refine ⟨{ h with
    handles := ?_
    published := ?_
    idle := ?_
    permits := ?_
    jobs := ?_
    waiting := ?_
    waiting_nodup := ?_
    event_lt := ?_
    running_lt := ?_
    exclusive := ?_
    spawned := ?_
    results := ?_
    calls_agree := ?_
    jobs_agree := ?_
    started := ?_ }, fun t' hne =>
    { frame_refl store focus t' s with
      jobs := fun n j hj => jobs_append hj
      calls := Function.update_of_ne hne _ _ }⟩
  · intro u hd hu
    obtain ⟨n, j, ⟨hjobOf, hj⟩, hkey'⟩ := h.handles u hd hu
    exact ⟨n, j, ⟨hjobOf, jobs_append hj⟩, hkey'⟩
  · intro p hp
    exact ⟨(h.published p hp).1, jobs_append (h.published p hp).2⟩
  · intro hserving
    rw [(h.idle hserving).1 t] at hcall
    cases hcall
  · intro u hu
    obtain ⟨n, j, ⟨hjobOf, hj⟩, hholds⟩ := h.permits u hu
    exact ⟨n, j, ⟨hjobOf, jobs_append hj⟩, hholds⟩
  · intro n j hj
    rcases jobs_append_cases hj with hold | ⟨-, rfl⟩
    · exact h.jobs n j hold
    · exact haccepted
  · intro n hn
    dsimp only
    rw [hlen]
    rcases List.mem_cons.mp hn with rfl | hn'
    · refine ⟨Nat.lt_succ_self _, fun u hu => ?_, ?_, fun key => ?_⟩
      · have hlt := h.running_lt u _ hu
        omega
      · cases hresult : s.results s.jobs.length with
        | none => rfl
        | some result =>
          obtain ⟨j, hj, -⟩ := h.results _ result hresult
          have hlt := (List.getElem?_eq_some_iff.mp hj).1
          omega
      · constructor <;> intro hmem
        · have hlt := h.event_lt key _ (.inl hmem)
          omega
        · have hlt := h.event_lt key _ (.inr hmem)
          omega
    · obtain ⟨hlt, hrest⟩ := h.waiting n hn'
      exact ⟨by omega, hrest⟩
  · refine List.nodup_cons.mpr ⟨fun hmem => ?_, h.waiting_nodup⟩
    have hlt := (h.waiting _ hmem).1
    omega
  · intro key n hn
    have hlt := h.event_lt key n hn
    dsimp only
    rw [hlen]
    omega
  · intro u n hu
    have hlt := h.running_lt u n hu
    dsimp only
    rw [hlen]
    omega
  · intro u c hu
    rcases hcalls u c hu with ⟨rfl, -⟩ | ⟨-, hold⟩
    · exact h.exclusive _ call hcall
    · exact h.exclusive u c hold
  · intro u c n hu hn
    rcases hcalls u c hu with ⟨-, rfl⟩ | ⟨-, hold⟩
    · cases hn
      exact ⟨job, by simp, hkey.symm, hmetadata.symm⟩
    · obtain ⟨j, hj, hrest⟩ := h.spawned u c n hold hn
      exact ⟨j, jobs_append hj, hrest⟩
  · intro n result hresult
    obtain ⟨j, hj, hgood⟩ := h.results n result hresult
    exact ⟨j, jobs_append hj, hgood⟩
  · intro key expected hfocus u c hu hc e he
    rcases hcalls u c hu with ⟨rfl, rfl⟩ | ⟨-, hold⟩
    · exact h.calls_agree key expected hfocus _ call hcall hc e he
    · exact h.calls_agree key expected hfocus u c hold hc e he
  · intro key expected hfocus n j hj hjkey
    rcases jobs_append_cases hj with hold | ⟨-, rfl⟩
    · exact h.jobs_agree key expected hfocus n j hold hjkey
    · refine h.calls_agree key expected hfocus t call hcall (hkey.trans hjkey) _ ?_
      rw [hmetadata]
      exact haccepted.expected
  · intro key expected hfocus n hn
    dsimp only at hn ⊢
    rw [hlen] at hn
    by_cases heq : n = s.jobs.length
    · exact .inl (heq ▸ List.mem_cons_self)
    · rcases h.started key expected hfocus n (by omega) with hwaiting | hrunning
      · exact .inl (List.mem_cons_of_mem _ hwaiting)
      · exact .inr hrunning

/-- Storing the result of the task's job. -/
theorem keeps_finish (h : Inv store initial focus s) {number : ℕ} {job : Job}
    {result : Except ProviderStorageError Path} (hruns : Runs t number job s)
    (hunfinished : s.results number = none)
    (hgood : JobResult store focus s.events number job result) :
    Keeps store initial focus t s
      { s with results := Function.update s.results number (some result) } := by
  refine ⟨{ h with waiting := ?_, results := ?_ }, fun t' hne =>
    { frame_refl store focus t' s with finished := ?_, results := ?_ }⟩
  · intro n hn
    obtain ⟨hlt, hjobOf, hresult, hunrenamed⟩ := h.waiting n hn
    have hne : n ≠ number := by
      rintro rfl
      exact hjobOf t hruns.1
    exact ⟨hlt, hjobOf, (Function.update_of_ne hne _ _).trans hresult, hunrenamed⟩
  · intro n r hr
    dsimp only at hr
    by_cases heq : n = number
    · rw [heq, Function.update_self] at hr
      cases hr
      subst heq
      exact ⟨job, hruns.2, hgood⟩
    · rw [Function.update_of_ne heq] at hr
      exact h.results n r hr
  · intro n r hr
    have heq : n ≠ number := by
      rintro rfl
      rw [hunfinished] at hr
      cases hr
    exact (Function.update_of_ne heq _ _).trans hr
  · intro n hn
    refine Function.update_of_ne ?_ _ _
    rintro rfl
    exact hne (h.running t' t n hn hruns.1)

/-- A call arrives at a new task. -/
theorem keeps_call (h : Inv store initial focus s) {key : ProviderArchiveKey}
    {metadata : PlatformMetadata} (hnew : s.jobOf t = none)
    (hagree : ∀ key' expected, focus = some (key', expected) → key = key' →
      ∀ e, expectedChecksum metadata = .ok e → e = expected) :
    Keeps store initial focus t s { s with
      serving := true
      calls := Function.update s.calls t (some ⟨key, metadata, none⟩) } := by
  refine ⟨{ h with idle := nofun, exclusive := ?_, spawned := ?_, calls_agree := ?_ }, fun t' hne =>
    { frame_refl store focus t' s with calls := Function.update_of_ne hne _ _ }⟩
  · intro u call hu
    dsimp only at hu
    by_cases heq : u = t
    · exact heq ▸ hnew
    · rw [Function.update_of_ne heq] at hu
      exact h.exclusive u call hu
  · intro u call n hu hn
    dsimp only at hu
    by_cases heq : u = t
    · rw [heq, Function.update_self] at hu
      cases hu
      cases hn
    · rw [Function.update_of_ne heq] at hu
      exact h.spawned u call n hu hn
  · intro key' expected hfocus u call hu hkey e he
    dsimp only at hu
    by_cases heq : u = t
    · rw [heq, Function.update_self] at hu
      cases hu
      exact hagree key' expected hfocus hkey e he
    · rw [Function.update_of_ne heq] at hu
      exact h.calls_agree key' expected hfocus u call hu hkey e he

/-- A call is dropped. -/
theorem keeps_drop (h : Inv store initial focus s) :
    Keeps store initial focus t s { s with calls := Function.update s.calls t none } := by
  have hcalls : ∀ u call, Function.update s.calls t none u = some call → s.calls u = some call := by
    intro u call hu
    by_cases heq : u = t
    · rw [heq, Function.update_self] at hu
      cases hu
    · rw [Function.update_of_ne heq] at hu
      exact hu
  refine ⟨{ h with
    idle := ?_
    exclusive := fun u call hu => h.exclusive u call (hcalls u call hu)
    spawned := fun u call number hu => h.spawned u call number (hcalls u call hu)
    calls_agree := fun key expected hfocus u call hu =>
      h.calls_agree key expected hfocus u call (hcalls u call hu) }, fun t' hne =>
    { frame_refl store focus t' s with calls := Function.update_of_ne hne _ _ }⟩
  intro hserving
  obtain ⟨hnone, hrest⟩ := h.idle hserving
  refine ⟨fun u => ?_, hrest⟩
  cases hu : Function.update s.calls t none u with
  | none => exact hu
  | some call =>
    have hold := hcalls u call hu
    rw [hnone u] at hold
    cases hold

/-- The detached task of a waiting job starts. -/
theorem keeps_detach (h : Inv store initial focus s) {number : ℕ} (hwaiting : number ∈ s.waiting)
    (hnew : s.jobOf t = none) (hcall : s.calls t = none) :
    Keeps store initial focus t s { s with
      waiting := s.waiting.erase number
      jobOf := Function.update s.jobOf t (some number) } := by
  obtain ⟨hlt, hfree, -⟩ := h.waiting number hwaiting
  have hjobOf : ∀ u n, Function.update s.jobOf t (some number) u = some n →
      (u = t ∧ n = number) ∨ (u ≠ t ∧ s.jobOf u = some n) := by
    intro u n hu
    by_cases heq : u = t
    · subst heq
      rw [Function.update_self] at hu
      exact .inl ⟨rfl, (Option.some.inj hu).symm⟩
    · rw [Function.update_of_ne heq] at hu
      exact .inr ⟨heq, hu⟩
  have hold : ∀ u n, s.jobOf u = some n → Function.update s.jobOf t (some number) u = some n := by
    intro u n hu
    have hne : u ≠ t := by
      rintro rfl
      rw [hnew] at hu
      cases hu
    exact (Function.update_of_ne hne _ _).trans hu
  refine ⟨{ h with
    handles := ?_
    idle := ?_
    permits := ?_
    waiting := ?_
    waiting_nodup := h.waiting_nodup.erase number
    running_lt := ?_
    running := ?_
    exclusive := ?_
    started := ?_ }, fun t' hne =>
    { frame_refl store focus t' s with jobOf := Function.update_of_ne hne _ _ }⟩
  · intro u hd hu
    obtain ⟨n, j, ⟨hn, hj⟩, hkey⟩ := h.handles u hd hu
    exact ⟨n, j, ⟨hold u n hn, hj⟩, hkey⟩
  · intro hserving
    rw [(h.idle hserving).2.1] at hwaiting
    cases hwaiting
  · intro u hu
    obtain ⟨n, j, ⟨hn, hj⟩, hholds⟩ := h.permits u hu
    exact ⟨n, j, ⟨hold u n hn, hj⟩, hholds⟩
  · intro n hn
    have hmem := List.mem_of_mem_erase hn
    refine ⟨(h.waiting n hmem).1, fun u hu => ?_, (h.waiting n hmem).2.2⟩
    rcases hjobOf u n hu with ⟨-, rfl⟩ | ⟨-, hu'⟩
    · exact h.waiting_nodup.not_mem_erase hn
    · exact (h.waiting n hmem).2.1 u hu'
  · intro u n hu
    rcases hjobOf u n hu with ⟨-, rfl⟩ | ⟨-, hu'⟩
    · exact hlt
    · exact h.running_lt u n hu'
  · intro u u' n hu hu'
    rcases hjobOf u n hu with ⟨rfl, rfl⟩ | ⟨-, hu₁⟩
    · rcases hjobOf u' n hu' with ⟨rfl, -⟩ | ⟨-, hu₂⟩
      · rfl
      · exact absurd hu₂ (hfree u')
    · rcases hjobOf u' n hu' with ⟨-, rfl⟩ | ⟨-, hu₂⟩
      · exact absurd hu₁ (hfree u)
      · exact h.running u u' n hu₁ hu₂
  · intro u call hu
    have hne : u ≠ t := by
      rintro rfl
      rw [hcall] at hu
      cases hu
    exact (Function.update_of_ne hne _ _).trans (h.exclusive u call hu)
  · intro key expected hfocus n hn
    by_cases heq : n = number
    · exact .inr ⟨t, by rw [heq]; exact Function.update_self ..⟩
    · rcases h.started key expected hfocus n hn with hmem | ⟨u, hu⟩
      · exact .inl ((List.mem_erase_of_ne heq).mpr hmem)
      · exact .inr ⟨u, hold u n hu⟩

/-- A step outside the tasks that changes one path, no archive and no temporary
file of a task. -/
theorem keeps_outside (h : Inv store initial focus s) {path : Path} {node : Option Node}
    {seen : List (Path × File)} (hmono : ∀ x ∈ s.seen, x ∈ seen)
    (hseen : ∀ n file, node = some n → n.opened = some file → (path, file) ∈ seen)
    (harchive : ∀ key, ValidKey key → store.archivePath key ≠ path)
    (htemp : ∀ u, ¬Owns store u path s) :
    Inv store initial focus { s with files := Function.update s.files path node, seen } ∧
      ∀ u, Frame store focus u s { s with files := Function.update s.files path node, seen } := by
  have hfiles : ∀ key, ValidKey key → Function.update s.files path node (store.archivePath key) =
      s.files (store.archivePath key) := fun key hkey => Function.update_of_ne (harchive key hkey) _ _
  have hcached : ∀ key expected, ValidKey key → Cached store key expected s →
      Cached store key expected { s with files := Function.update s.files path node, seen } := by
    rintro key expected hkey ⟨file, hfile, hrest⟩
    exact ⟨file, (hfiles key hkey).trans hfile, hrest⟩
  refine ⟨{ h with
    archives := ?_
    memo := ?_
    files_seen := ?_
    looked := fun u p f hu => hmono _ (h.looked u p f hu)
    hits := ?_
    cached := fun key expected hfocus hevent hkey =>
      hcached key expected hkey (h.cached key expected hfocus hevent hkey) }, fun u =>
    { frame_refl store focus u s with
      seen := hmono
      archive := fun key hkey _ => hfiles key hkey
      temps := ?_
      cached := fun key expected _ hkey hc => hcached key expected hkey hc }⟩
  · intro key hkey
    dsimp only
    rw [hfiles key hkey]
    exact h.archives key hkey
  · intro p entry hentry
    obtain ⟨f, hf, hrest⟩ := h.memo p entry hentry
    exact ⟨f, hmono _ hf, hrest⟩
  · intro p n file hp hnode hopened
    dsimp only at hnode
    by_cases heq : p = path
    · rw [heq, Function.update_self] at hnode
      rw [heq]
      exact hseen n file hnode hopened
    · rw [Function.update_of_ne heq] at hnode
      exact hmono _ (h.files_seen p n file hp hnode hopened)
  · intro hit hhit
    obtain ⟨hs, hlen, f, hf, hrest⟩ := h.hits hit hhit
    exact ⟨hmono _ hs, hlen, f, hmono _ hf, hrest⟩
  · intro p hp
    have hne : p ≠ path := by
      rintro rfl
      exact htemp u hp
    exact ⟨hp, Function.update_of_ne hne _ _, rfl⟩

/-- Steps outside the tasks. -/
theorem keeps_move (h : Inv store initial focus s) {m : Move} (hmove : move store s m = some s') :
    Inv store initial focus s' ∧ ∀ u, Frame store focus u s s' := by
  cases m with
  | replace path node =>
    simp only [move] at hmove
    split at hmove
    · cases hmove
    · rename_i hbelow
      cases hmove
      refine keeps_outside h (fun x hx => List.mem_append_right _ hx) ?_ ?_ ?_
      · rintro n file rfl hopened
        simp [hopened]
      · rintro key - rfl
        exact hbelow (archivePath_below store key)
      · rintro u ⟨hinside, -⟩
        exact hbelow hinside
  | removeStale path =>
    simp only [move] at hmove
    split at hmove
    · rename_i hcond
      cases hmove
      refine keeps_outside h (fun x hx => hx) nofun ?_ ?_
      · exact fun key hkey => isStaleName_not_archive hcond.2.1 hkey
      · rintro u ⟨-, dir, base, pid, n, -, hn⟩
        rw [(h.idle hcond.2.2).2.2.2 n] at hn
        cases hn
    · cases hmove

/-- The invariant survives the death of the process. -/
theorem keeps_reboot (h : Inv store initial focus s) (hfocus : focus = none)
    (hreboot : reboot s = some s') : Inv store initial focus s' := by
  subst hfocus
  cases hreboot
  exact { h with
    consistent := empty_consistent
    handles := fun u hd hu => by simp [LockTable.empty] at hu
    memo := fun path entry hentry => by simp at hentry
    looked := nofun
    owner := nofun
    idle := fun _ => ⟨fun _ => rfl, rfl, fun _ => rfl, fun _ => rfl⟩
    permits := nofun
    permits_nodup := List.nodup_nil
    waiting := nofun
    waiting_nodup := List.nodup_nil
    running_lt := nofun
    running := nofun
    exclusive := nofun
    spawned := nofun
    calls_agree := nofun
    started := nofun }

/-- Operations that cannot fail. -/
theorem keeps_always {α : Type} {result : α × Shared U} {choice : Choice U} {answer : α}
    (hexec : always result choice = some (answer, s'))
    (hkeeps : Keeps store initial focus t s result.2) : Keeps store initial focus t s s' := by
  cases choice with
  | ok =>
    cases hexec
    exact hkeeps
  | _ => cases hexec

theorem keeps_eventually {α : Type} {result : Option (α × Shared U)} {choice : Choice U}
    {answer : α} (hexec : eventually result choice = some (answer, s'))
    (hkeeps : ∀ r, result = some r → Keeps store initial focus t s r.2) :
    Keeps store initial focus t s s' := by
  cases choice with
  | ok => exact hkeeps (answer, s') hexec
  | _ => cases hexec

/-- Operations that succeed or change nothing. -/
theorem keeps_attempt (h : Inv store initial focus s) {s₁ : Shared U} {choice : Choice U}
    {result : Except IoError Unit} (hexec : s.attempt s₁ choice = some (result, s'))
    (hkeeps : Keeps store initial focus t s s₁) : Keeps store initial focus t s s' := by
  cases choice with
  | ok =>
    cases hexec
    exact hkeeps
  | fail message =>
    cases hexec
    exact keeps_refl h
  | _ => cases hexec

theorem keeps_symlinkMetadata (h : Inv store initial focus s) {path : Path}
    (hpath : ¬Temporary path) {choice : Choice U} {answer : Except IoError FileMetadata}
    (hexec : s.symlinkMetadata t path choice = some (answer, s')) :
    Keeps store initial focus t s s' := by
  unfold Shared.symlinkMetadata at hexec
  split at hexec
  · split at hexec
    · cases hexec
      exact keeps_refl h
    · rename_i file hfile
      cases hexec
      exact keeps_look h hpath hfile
    · cases hexec
      exact keeps_refl h
  · cases hexec
    exact keeps_refl h
  · cases hexec

theorem keeps_verifiedMatches (h : Inv store initial focus s) {path : Path}
    {identity : FileIdentity} {expected : String}
    (hpre : ∃ file, s.looked t = some (path, file) ∧ file.identity = identity ∧
      file.bytes.length ≤ store.maxArchiveBytes) :
    Keeps store initial focus t s (s.verifiedMatches t path identity expected).2 := by
  obtain ⟨file, hlooked, hidentity, hlen⟩ := hpre
  unfold Shared.verifiedMatches
  split
  · exact keeps_refl h
  · rename_i entry hentry
    split
    · rename_i hmatch
      rw [hlooked]
      have hit := keeps_hit h hlooked hlen hentry (hmatch.1.trans hidentity.symm)
      rw [hmatch.2] at hit
      exact hit
    · exact keeps_refl h

theorem keeps_hashFile (h : Inv store initial focus s) {maxBytes : ℕ} {path : Path}
    {choice : Choice U} {answer : Except IoError (Option (String × FileIdentity))}
    (hexec : s.hashFile maxBytes path choice = some (answer, s')) :
    Keeps store initial focus t s s' := by
  have hsame : s' = s := by
    unfold Shared.hashFile at hexec
    split at hexec
    · split at hexec <;> cases hexec
      rfl
    · split at hexec
      · cases hexec
      · split at hexec <;> cases hexec
        rfl
    · cases hexec
      rfl
    · cases hexec
  rw [hsame]
  exact keeps_refl h

theorem keeps_createNew (h : Inv store initial focus s) {path : Path} (hown : Owns store t path s)
    {choice : Choice U} {result : Except IoError Unit}
    (hexec : s.createNew path choice = some (result, s')) : Keeps store initial focus t s s' := by
  unfold Shared.createNew at hexec
  split at hexec
  · split at hexec
    · cases hexec
    · cases hexec
      exact keeps_temp h hown (fun p hp => Function.update_of_ne hp _ _)
        (fun p hp => Function.update_of_ne hp _ _)
  · cases hexec
    exact keeps_refl h
  · cases hexec

theorem keeps_syncAll (h : Inv store initial focus s) {path : Path} (hown : Owns store t path s)
    {choice : Choice U} {result : Except IoError Unit}
    (hexec : s.syncAll path choice = some (result, s')) : Keeps store initial focus t s s' := by
  unfold Shared.syncAll at hexec
  split at hexec
  · split at hexec
    · cases hexec
    · cases hexec
      exact keeps_refl h
  · cases hexec
    exact keeps_temp h hown (fun _ _ => rfl) (fun p hp => Function.update_of_ne hp _ _)
  · cases hexec

variable [UrlCrate U]

theorem keeps_outboundGet (h : Inv store initial focus s) {number : ℕ} {job : Job}
    (hruns : Runs t number job s) (hmissing : Missing store focus t s) {client : OutboundClient}
    {url : U} {choice : Choice U} {answer : Except OutboundError (Response U)}
    (hexec : s.outboundGet client t url choice = some (answer, s')) :
    Keeps store initial focus t s s' := by
  unfold Shared.outboundGet at hexec
  split at hexec
  · split at hexec
    · cases hexec
    · cases hexec
      exact keeps_note h hruns hmissing (.inr rfl) fun t' hne => Function.update_of_ne hne _ _
  · cases hexec

/-- Every operation under its precondition keeps the invariant and the frames of
the other tasks. -/
theorem keeps_exec (h : Inv store initial focus s) {op : Op U} {choice : Choice U}
    {answer : Res U op} (hpre : Pre store focus t op s)
    (hexec : exec store t s op choice = some (answer, s')) : Keeps store initial focus t s s' := by
  cases op with
  | symlinkMetadata path => exact keeps_symlinkMetadata h hpre hexec
  | verifiedMatches path identity expected =>
    exact keeps_always hexec (keeps_verifiedMatches h hpre)
  | hashFile path => exact keeps_hashFile h hexec
  | recordVerified path identity checksum => exact keeps_always hexec (keeps_record h hpre)
  | removeVerified path => exact keeps_always hexec (keeps_forget h path)
  | lock op =>
    obtain ⟨hop, hpermit, number, job, hruns, hkey⟩ := hpre
    refine keeps_eventually hexec fun r hr => ?_
    obtain ⟨locks, hperform, rfl⟩ := Option.map_eq_some_iff.mp hr
    exact keeps_lock h hop hpermit hruns hkey hperform
  | acquirePermit =>
    refine keeps_eventually hexec fun r hr => ?_
    split at hr
    · cases hr
      exact keeps_permit h hpre.1 hpre.2.1
    · cases hr
  | releasePermit => exact keeps_always hexec (keeps_unpermit h)
  | createDirAll dir => exact keeps_attempt h hexec (keeps_refl h)
  | nextSequence =>
    obtain ⟨⟨number, job, hruns, -⟩, -⟩ := hpre
    exact keeps_always hexec (keeps_draw h hruns.1)
  | processId => exact keeps_always hexec (keeps_refl h)
  | createNew path => exact keeps_createNew h hpre.1 hexec
  | outboundGet url =>
    obtain ⟨⟨number, job, hruns, -⟩, hmissing⟩ := hpre
    exact keeps_outboundGet h hruns hmissing hexec
  | writeAll path bytes => exact keeps_write h hpre.1 hexec
  | syncAll path => exact keeps_syncAll h hpre.1 hexec
  | rename source target =>
    obtain ⟨hown, -, number, job, response, hruns, hholds, hunfinished, rfl, hresponse,
      hverified⟩ := hpre
    change s.rename t source job.destination choice = some (answer, s') at hexec
    unfold Shared.rename at hexec
    split at hexec
    · split at hexec
      · rename_i file hfile
        cases hexec
        exact keeps_rename h hown hruns hholds hunfinished hresponse (hverified file hfile)
      · cases hexec
    · cases hexec
      exact keeps_refl h
    · cases hexec
  | removeFile path =>
    exact keeps_attempt h hexec
      (keeps_temp h hpre.1 (fun p hp => Function.update_of_ne hp _ _) (fun _ _ => rfl))
  | syncParent dir => exact keeps_attempt h hexec (keeps_refl h)
  | spawn job =>
    obtain ⟨haccepted, call, hcall, hkey, hmetadata⟩ := hpre
    exact keeps_always hexec (keeps_spawn h haccepted hcall hkey hmetadata)
  | join number =>
    refine keeps_eventually hexec fun r hr => ?_
    obtain ⟨result, -, rfl⟩ := Option.map_eq_some_iff.mp hr
    exact keeps_refl h
  | enterDownload =>
    obtain ⟨⟨number, job, hruns, -, hunfinished⟩, hmissing⟩ := hpre
    exact keeps_always hexec (keeps_note h hruns hmissing (.inl ⟨rfl, hunfinished⟩) fun t' _ =>
      congrFun (note_responses s t .entered) t')
  | finish result =>
    obtain ⟨number, job, hruns, hunfinished, hgood⟩ := hpre
    refine keeps_eventually hexec fun r hr => ?_
    obtain ⟨n, hn, rfl⟩ := Option.map_eq_some_iff.mp hr
    rw [hruns.1] at hn
    cases hn
    exact keeps_finish h hruns hunfinished hgood

end OpenTfMirror.StorageSteps
