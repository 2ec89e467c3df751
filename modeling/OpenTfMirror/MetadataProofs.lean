import OpenTfMirror.MetadataExec

/-!
# Specifications of the code below the loaders

Rules for single operations first, then reading and writing a document, and the
refresh of an index. What only grows survives every program, so the
specifications speak about the rest.
-/

namespace OpenTfMirror.MetadataProofs

open TaskProgram TaskLogic Fallible KeyedLocks FileNames FileStore Outbound Provider Metadata
  MetadataService IndexDiscovery MetadataMachine MetadataInvariant MetadataSteps MetadataFiles
  MetadataExec

section Rules

variable (U : Type) [UrlCrate U] [SemverCrate] [JsonCrate]
variable (service : ProviderMetadataService) (R : Rules) (t : ℕ)

/-- The assertions, the policy and the machine of the proofs. -/
abbrev Wp {α : Type} (program : Code α) (Q : α → Shared → Prop) (s : Shared) : Prop :=
  wp (assertions U service R) (policy R) (machine U service) t program Q s

/-- What the others cannot invalidate. -/
abbrev Keep (φ : Shared → Prop) : Prop := Stable (assertions U service R) t φ

variable {U service R t} {α β : Type} {φ : Shared → Prop} {s : Shared}

/-- What only grows survives every program. -/
theorem wp_grows {program : Code α} {Q : α → Shared → Prop} (h : Wp U service R t program Q s) :
    Wp U service R t program (fun value s' => Q value s' ∧ Grows U service R s s') s := by
  have hrest : ∀ (program : Code α) (s₀ s : Shared), Grows U service R s₀ s →
      Wp U service R t program Q s →
      Wp U service R t program (fun value s' => Q value s' ∧ Grows U service R s₀ s') s := by
    intro program
    induction program with
    | done value => exact fun s₀ s hg h => ⟨h, hg⟩
    | call op next ih =>
      intro s₀ s hg h s₁ hinv hframe
      obtain ⟨hpre, hnext⟩ := h s₁ hinv hframe
      refine ⟨hpre, fun choice answer s₂ hp hexec hinv₂ => ?_⟩
      have hkeeps := keeps_exec hinv hpre hexec
      have hown := (hkeeps.frame (t + 1) (Nat.succ_ne_self t)).grows
      exact ih answer s₀ s₂ (grows_trans (grows_trans hg hframe.grows) hown)
        (hnext choice answer s₂ hp hexec hinv₂)
  exact hrest program s s (grows_refl s) h

/-- A silent operation: the task still knows what it knew. -/
theorem wp_silent {op : Op} {next : Res op → Code α} {Q : α → Shared → Prop} (hop : Silent op)
    (hφ : Keep U service R t φ) (hs : φ s)
    (hnext : ∀ s₁ choice answer s₂, Inv U service R s₁ → φ s₁ → (policy R).run t s₁ op choice →
      exec U service t s₁ op choice = some (answer, s₂) → Inv U service R s₂ → φ s₂ →
      Wp U service R t (next answer) Q s₂) :
    Wp U service R t (.call op next) Q s := by
  refine wp_quiet hs hφ (fun s₁ _ _ => ?_) (fun s₁ choice answer s₂ hinv hexec => ?_) hnext
  · cases op with
    | file op => exact filePre_of_silent hop
    | _ => trivial
  · exact (keeps_unseen hinv (unseen_of_silent Everyone hop hexec)).frame t trivial

/-- A silent operation whose answer is a function of the state. -/
theorem wp_read {op : Op} {Q : Res op → Shared → Prop} (hop : Silent op)
    (result : Shared → Res op) (hφ : Keep U service R t φ) (hs : φ s)
    (hexec : ∀ s₁ choice, exec U service t s₁ op choice = always (result s₁, s₁) choice)
    (hnext : ∀ s₁, Inv U service R s₁ → φ s₁ → Q (result s₁) s₁) :
    Wp U service R t (.call op .done) Q s := by
  refine wp_silent hop hφ hs fun s₁ choice answer s₂ hinv hs₁ _ h _ _ => ?_
  rw [hexec] at h
  cases always_some h
  exact hnext s₁ hinv hs₁

/-- A silent operation whose answer does not matter. -/
theorem wp_step {op : Op} {Q : Res op → Shared → Prop} (hop : Silent op)
    (hφ : Keep U service R t φ) (hs : φ s)
    (hnext : ∀ answer s₁, Inv U service R s₁ → φ s₁ → Q answer s₁) :
    Wp U service R t (.call op .done) Q s :=
  wp_silent hop hφ hs fun _ _ answer s₂ _ _ _ _ hinv hs₂ => hnext answer s₂ hinv hs₂

/-- A file operation and the await that follows. -/
theorem wp_file {op : FileOp} {ψ : Except IoError Bytes → Shared → Prop}
    (hφ : Keep U service R t φ) (hψ : ∀ result, Keep U service R t (ψ result)) (hs : φ s)
    (hpre : ∀ s₁, Inv U service R s₁ → φ s₁ → FilePre U service R t op s₁)
    (hstep : ∀ s₁ choice answer s₂, Inv U service R s₁ → φ s₁ →
      (policy R).run t s₁ (.file op) choice →
      (basis s₁ s₁.detached (s₁.issued + 1)).fileOp s₁.issued op choice = some (answer, s₂) →
      Inv U service R s₂ → ψ answer s₂) :
    Wp U service R t (file op) ψ s := by
  refine wp_call hs hφ hpre fun s₁ choice answer s₂ hinv hs₁ hp hexec hinv₂ => ?_
  have hanswer := hstep s₁ choice answer s₂ hinv hs₁ hp hexec hinv₂
  change Wp U service R t (.call .resume fun _ => .done answer) ψ s₂
  exact wp_silent trivial (hψ answer) hanswer fun _ _ _ _ _ _ _ _ _ h => h

/-- A file operation under `?`. -/
theorem wp_io {op : FileOp} {Q : Except MetadataError Bytes → Shared → Prop}
    (h : Wp U service R t (file op) (fun result s' =>
      match result with
      | .ok bytes => Q (.ok bytes) s'
      | .error error => Q (.error (.io error)) s') s) :
    Wp U service R t (io op).run Q s := by
  refine (wp_bind t _ _ Q s).mpr (wp_mono h fun result s' hresult => ?_)
  cases result with
  | ok bytes => exact hresult
  | error error => exact hresult

/-- A file operation under `?`, followed by the rest. -/
theorem wp_io_bind {op : FileOp} {next : Bytes → MetadataService.Task β}
    {ψ : Except IoError Bytes → Shared → Prop} {Q : Except MetadataError β → Shared → Prop}
    (h : Wp U service R t (file op) ψ s)
    (hok : ∀ bytes s', ψ (.ok bytes) s' → Wp U service R t (next bytes).run Q s')
    (herror : ∀ error s', ψ (.error error) s' → Q (.error (.io error)) s') :
    Wp U service R t (io op >>= next).run Q s := by
  refine (wp_run_bind t _ _ Q s).mpr (wp_io (wp_mono h fun result s' hresult => ?_))
  cases result with
  | ok bytes => exact hok bytes s' hresult
  | error error => exact herror error s' hresult

end Rules

section Kept

variable {U : Type} [UrlCrate U] [SemverCrate] [JsonCrate]
variable {service : ProviderMetadataService} {R : Rules} {t : ℕ}

/-- Inside the section of a key. -/
theorem keep_holds (key : ProviderKey) :
    Keep U service R t fun s => s.indexLocks.Holds t key :=
  fun _ _ _ hframe h => hframe.index_locks.holds_iff.mpr h

theorem keep_free : Keep U service R t fun s => s.indexLocks.handles.lookup t = none :=
  fun _ _ _ hframe h => hframe.index_locks.handle.trans h

theorem keep_holds_version (key : VersionKey) :
    Keep U service R t fun s => s.versionLocks.Holds t key :=
  fun _ _ _ hframe h => hframe.version_locks.holds_iff.mpr h

theorem keep_free_version : Keep U service R t fun s => s.versionLocks.handles.lookup t = none :=
  fun _ _ _ hframe h => hframe.version_locks.handle.trans h

theorem keep_grounded : Keep U service R t (Grounded t) := by
  intro s s' _ hframe h flight hflight htask
  exact h flight ((hframe.flights flight htask).mp hflight) htask

theorem keep_flight (stamp : ℕ) (key : ProviderKey) :
    Keep U service R t fun s => ⟨t, stamp, key⟩ ∈ s.inFlight :=
  fun _ _ _ hframe h => (hframe.flights _ rfl).mpr h

/-- What survives growth is kept. -/
theorem keep_of_grows {φ : Shared → Prop}
    (h : ∀ s s', Grows U service R s s' → φ s → φ s') : Keep U service R t φ :=
  fun s s' _ hframe hs => h s s' hframe.grows hs

/-- The task has a temporary file, of which this is known. -/
def Drafted (t : ℕ) (temp : Path) (p : Option Bytes → Bool → Prop) (s : Shared) : Prop :=
  Owns t temp s ∧ p (s.files.lookup temp) (s.unreported temp)

theorem keep_drafted (temp : Path) (p : Option Bytes → Bool → Prop) :
    Keep U service R t (Drafted t temp p) := by
  intro s s' _ hframe h
  obtain ⟨howns, hfiles, hunreported⟩ := hframe.temps temp h.1
  refine ⟨howns, ?_⟩
  rw [hfiles, hunreported]
  exact h.2

end Kept

section Writing

variable {U : Type} [UrlCrate U] [SemverCrate] [JsonCrate]
variable {service : ProviderMetadataService} {R : Rules} {t : ℕ} {φ : Shared → Prop} {s : Shared}

/-- The predicate does not speak about files, but for what only grows. -/
def Elsewhere (U : Type) [UrlCrate U] (service : ProviderMetadataService) (R : Rules)
    (φ : Shared → Prop) : Prop :=
  ∀ (s : Shared) files unreported found issued,
    Grows U service R s
      { s with files := files, unreported := unreported, found := found, issued := issued } →
    φ s → φ { s with files := files, unreported := unreported, found := found, issued := issued }

/-- Every operation only lets grow. -/
theorem grows_exec {op : Op} {choice : Choice} {answer : Res op} {s s' : Shared}
    (hinv : Inv U service R s) (hpre : Pre U service R t op s)
    (hexec : exec U service t s op choice = some (answer, s')) : Grows U service R s s' :=
  ((keeps_exec hinv hpre hexec).frame (t + 1) (Nat.succ_ne_self t)).grows

/-- A file operation without a temporary file. -/
theorem wp_file_silent {op : FileOp} (hop : tempOf op = none) (hφ : Keep U service R t φ)
    (hs : φ s) : Wp U service R t (file op) (fun _ => φ) s := by
  refine wp_silent (show Silent (.file op) from hop) hφ hs fun s₁ choice answer s₂ _ _ _ _ _ hs₂ => ?_
  exact wp_silent (show Silent .resume from trivial) hφ hs₂ fun _ _ _ _ _ _ _ _ _ h => h

/-- An operation on the task's own temporary file. -/
theorem wp_draft {op : FileOp} {temp : Path} {p : Option Bytes → Bool → Prop}
    {q : Except IoError Bytes → Option Bytes → Bool → Prop} (hop : tempOf op = some temp)
    (hrename : ∀ source target document, op ≠ .rename source target document)
    (hφ : Keep U service R t φ) (hlocal : Elsewhere U service R φ) (hs : φ s) (hdraft : Drafted t temp p s)
    (hstep : ∀ (s₁ : Shared) choice answer s₂, p (s₁.files.lookup temp) (s₁.unreported temp) →
      (basis s₁ s₁.detached (s₁.issued + 1)).fileOp s₁.issued op choice = some (answer, s₂) →
      q answer (s₂.files.lookup temp) (s₂.unreported temp)) :
    Wp U service R t (file op) (fun result s' => φ s' ∧ Drafted t temp (q result) s') s := by
  have hpre : ∀ s₁, Inv U service R s₁ → φ s₁ ∧ Drafted t temp p s₁ → FilePre U service R t op s₁ := by
    intro s₁ _ hs₁
    refine ⟨fun path hpath => ?_, fun source target document heq => absurd heq ?_⟩
    · rw [hop] at hpath
      cases hpath
      exact hs₁.2.1
    · exact hrename source target document
  refine wp_file (hφ.and (keep_drafted temp p)) (fun result => hφ.and (keep_drafted temp (q result)))
    ⟨hs, hdraft⟩ hpre fun s₁ choice answer s₂ hinv hs₁ _ hexec _ => ?_
  have hq := hstep s₁ choice answer s₂ hs₁.2.2 hexec
  have hexec' : exec U service t s₁ (.file op) choice = some (answer, s₂) := hexec
  have hpre' : Pre U service R t (.file op) s₁ := hpre s₁ hinv hs₁
  have hgrows : Grows U service R s₁ s₂ := grows_exec hinv hpre' hexec'
  obtain ⟨files, unreported, found, rfl, -, -⟩ := fileOp_touches hrename hexec
  exact ⟨hlocal s₁ files unreported found (s₁.issued + 1) hgrows hs₁.1, hs₁.2.1, hq⟩

/-- Creating the temporary file. -/
theorem wp_createNew {temp : Path} (hφ : Keep U service R t φ) (hlocal : Elsewhere U service R φ) (hs : φ s)
    (hdraft : Drafted t temp (fun _ _ => True) s) :
    Wp U service R t (file (.createNew temp)) (fun result s' => φ s' ∧ Drafted t temp
      (fun content unreported => ∀ bytes, result = .ok bytes →
        content = some [] ∧ unreported = false) s') s := by
  refine wp_draft rfl nofun hφ hlocal hs hdraft fun s₁ choice answer s₂ _ hexec => ?_
  intro bytes hok
  subst hok
  exact createNew_content hexec

omit [SemverCrate] [JsonCrate] in
theorem Drafted.weaken {temp : Path} {p q : Option Bytes → Bool → Prop}
    (h : Drafted t temp p s) (himp : ∀ content unreported, p content unreported →
      q content unreported) : Drafted t temp q s :=
  ⟨h.1, himp _ _ h.2⟩

/-- Writing the document: it is complete, or the failure will be reported. -/
theorem wp_writeAll {temp : Path} {bytes : Bytes} (hφ : Keep U service R t φ)
    (hlocal : Elsewhere U service R φ) (hs : φ s)
    (hdraft : Drafted t temp (fun content unreported => content = some [] ∧ unreported = false) s) :
    Wp U service R t (file (.writeAll temp bytes)) (fun result s' => φ s' ∧
      match result with
      | .ok _ => Drafted t temp
          (fun content unreported => content = some bytes ∨ unreported = true) s'
      | .error _ => Drafted t temp (fun _ _ => True) s') s := by
  refine wp_mono (wp_draft (q := fun result content unreported => ∀ b, result = .ok b →
    content = some bytes ∨ unreported = true) rfl nofun hφ hlocal hs hdraft ?_) ?_
  · intro s₁ choice answer s₂ hp hexec b hok
    subst hok
    let base := basis s₁ s₁.detached (s₁.issued + 1)
    have hcontent : base.files.lookup temp = some [] := hp.1
    have hreported : base.unreported temp = false := hp.2
    exact writeAll_content hcontent hreported hexec
  · intro result s' h
    refine ⟨h.1, ?_⟩
    cases result with
    | ok b => exact h.2.weaken fun _ _ hp => hp b rfl
    | error error => exact h.2.weaken fun _ _ _ => trivial

/-- After a successful `sync_all` the document is complete. -/
theorem wp_syncAll {temp : Path} {bytes : Bytes} (hφ : Keep U service R t φ)
    (hlocal : Elsewhere U service R φ) (hs : φ s)
    (hdraft : Drafted t temp
      (fun content unreported => content = some bytes ∨ unreported = true) s) :
    Wp U service R t (file (.syncAll temp)) (fun result s' => φ s' ∧
      match result with
      | .ok _ => Drafted t temp (fun content _ => content = some bytes) s'
      | .error _ => Drafted t temp (fun _ _ => True) s') s := by
  refine wp_mono (wp_draft (q := fun result content _ => ∀ b, result = .ok b →
    content = some bytes) rfl nofun hφ hlocal hs hdraft ?_) ?_
  · intro s₁ choice answer s₂ hp hexec b hok
    subst hok
    obtain ⟨rfl, hunreported⟩ := syncAll_content hexec
    refine hp.resolve_right fun hlost => ?_
    have hreported : s₁.unreported temp = false := hunreported
    rw [hreported] at hlost
    cases hlost
  · intro result s' h
    refine ⟨h.1, ?_⟩
    cases result with
    | ok b => exact h.2.weaken fun _ _ hp => hp b rfl
    | error error => exact h.2.weaken fun _ _ _ => trivial

/-- Removing the temporary file. -/
theorem wp_removeFile {temp : Path} (hφ : Keep U service R t φ) (hlocal : Elsewhere U service R φ) (hs : φ s)
    (hdraft : Drafted t temp (fun _ _ => True) s) :
    Wp U service R t (file (.removeFile temp)) (fun _ => φ) s := by
  refine wp_mono (wp_draft (q := fun _ _ _ => True) rfl nofun hφ hlocal hs hdraft ?_) ?_
  · exact fun _ _ _ _ _ _ => trivial
  · exact fun _ _ h => h.1

/-- An operation on the temporary file, which is removed when it fails. -/
theorem wp_ioOrRemove {op : FileOp} {temp : Path} {ψ : Shared → Prop}
    (hφ : Keep U service R t φ) (hlocal : Elsewhere U service R φ)
    (h : Wp U service R t (file op) (fun result s' =>
      match result with
      | .ok _ => ψ s'
      | .error _ => φ s' ∧ Drafted t temp (fun _ _ => True) s') s) :
    Wp U service R t (ioOrRemove temp op).run (fun result s' =>
      match result with
      | .ok _ => ψ s'
      | .error _ => φ s') s := by
  unfold ioOrRemove
  refine wp_lift_bind (wp_mono h fun result s' hresult => ?_)
  cases result with
  | ok bytes => exact hresult
  | error error =>
    exact wp_lift_bind (wp_mono (wp_removeFile hφ hlocal hresult.1 hresult.2) fun _ _ h => h)

/-- The same, for an operation that keeps what is known besides the file. -/
theorem wp_ioOrRemove_draft {op : FileOp} {temp : Path} {p : Option Bytes → Bool → Prop}
    (hφ : Keep U service R t φ) (hlocal : Elsewhere U service R φ)
    (h : Wp U service R t (file op) (fun result s' => φ s' ∧
      match result with
      | .ok _ => Drafted t temp p s'
      | .error _ => Drafted t temp (fun _ _ => True) s') s) :
    Wp U service R t (ioOrRemove temp op).run (fun result s' =>
      match result with
      | .ok _ => φ s' ∧ Drafted t temp p s'
      | .error _ => φ s') s := by
  refine wp_ioOrRemove hφ hlocal (wp_mono h fun result s' hresult => ?_)
  cases result with
  | ok bytes => exact hresult
  | error error => exact hresult

/-- What a task must know to publish a document. -/
structure Publishing (U : Type) [UrlCrate U] [SemverCrate] [JsonCrate]
    (service : ProviderMetadataService) (R : Rules) (t : ℕ) (document : Document)
    (s : Shared) : Prop where
  index : ∀ key n, IsIndex document key n →
    n < s.nextStamp ∧ s.indexLocks.Holds t key ∧ Below service key n s
  settled : ∀ key entry, document = .version key entry → Settled U service key s
  indexed : ∀ key entry, document = .version key entry → Indexed key s
  answered : Answered document s

/-- Renaming the complete document to its place. -/
theorem wp_rename {temp path : Path} {document : Document} {bytes : Bytes} {ψ : Shared → Prop}
    (hφ : Keep U service R t φ) (hlocal : Elsewhere U service R φ) (hψ : Keep U service R t ψ) (hs : φ s)
    (hsane : Sane U service R document) (hpath : document.path service = path)
    (hvec : document.toVec = .ok bytes)
    (hpublishing : ∀ s₁, Inv U service R s₁ → φ s₁ → Publishing U service R t document s₁)
    (hrenamed : ∀ s₁ : Shared, Inv U service R s₁ → φ s₁ → ∀ bytes, ψ (renamed s₁ s₁.detached
      (s₁.issued + 1) s₁.issued temp path document bytes))
    (hdraft : Drafted t temp (fun content _ => content = some bytes) s) :
    Wp U service R t (file (.rename temp path document)) (fun result s' =>
      match result with
      | .ok _ => ψ s'
      | .error _ => φ s' ∧ Drafted t temp (fun _ _ => True) s') s := by
  have hpre : ∀ s₁, Inv U service R s₁ →
      φ s₁ ∧ Drafted t temp (fun content _ => content = some bytes) s₁ →
      FilePre U service R t (.rename temp path document) s₁ := by
    intro s₁ hinv hs₁
    obtain ⟨hindex, hsettled, hindexed, hanswered⟩ := hpublishing s₁ hinv hs₁.1
    refine ⟨fun path' hpath' => ?_, fun source target document' heq => ?_⟩
    · cases hpath'
      exact hs₁.2.1
    · cases heq
      refine ⟨⟨hsane, hpath, ⟨bytes, hvec, hs₁.2.2⟩, fun key n hn => (hindex key n hn).1, hsettled,
        hindexed, hanswered⟩,
        fun key n hn => (hindex key n hn).2⟩
  refine wp_file (hφ.and (keep_drafted temp _)) (fun result => ?_) ⟨hs, hdraft⟩ hpre
    fun s₁ choice answer s₂ hinv hs₁ _ hexec _ => ?_
  · cases result with
    | ok bytes => exact hψ
    | error error => exact hφ.and (keep_drafted temp _)
  · have hexec' : exec U service t s₁ (.file (.rename temp path document)) choice =
        some (answer, s₂) := hexec
    have hpre' : Pre U service R t (.file (.rename temp path document)) s₁ := hpre s₁ hinv hs₁
    have hgrows : Grows U service R s₁ s₂ := grows_exec hinv hpre' hexec'
    rcases rename_cases hexec with ⟨rfl, error, rfl⟩ | ⟨bytes', -, rfl, rfl⟩
    · exact ⟨hlocal s₁ _ _ _ _ hgrows hs₁.1, hs₁.2.1, trivial⟩
    · exact hrenamed s₁ hinv hs₁.1 bytes'

/-- The predicate does not speak about sequence numbers. -/
def Unnumbered (φ : Shared → Prop) : Prop :=
  ∀ (s : Shared) sequence owner, φ s → φ { s with sequence := sequence, owner := owner }

/-- Drawing a sequence number gives the task a temporary file. -/
theorem wp_nextSequence (hφ : Keep U service R t φ) (hlocal : Unnumbered φ) (hs : φ s) :
    Wp U service R t nextSequence (fun n s' => φ s' ∧ s'.owner n = some t) s := by
  refine wp_call hs hφ (fun _ _ _ => trivial) fun s₁ choice answer s₂ _ hs₁ _ hexec _ => ?_
  cases always_some hexec
  exact ⟨hlocal s₁ _ _ hs₁, Function.update_self ..⟩

theorem keep_owner (n : ℕ) : Keep U service R t fun s => s.owner n = some t := by
  intro s s' _ hframe h
  obtain ⟨dir, pid, m, hpath, howner⟩ := (hframe.temps (tempPath [] "metadata" 0 n)
    ⟨[], 0, n, rfl, h⟩).1
  have hn := tempPath_sequence hpath
  rw [hn]
  exact howner

/-- `write_json_atomic`: the document is in place, or at least an error is
returned and its lock and its order are as before or as after. -/
theorem writeJsonAtomic_spec {path : Path} {document : Document} {ψ : Shared → Prop}
    (hφ : Keep U service R t φ) (hlocal : Elsewhere U service R φ) (hunnumbered : Unnumbered φ)
    (hψ : Keep U service R t ψ) (hs : φ s)
    (hsane : Sane U service R document) (hpath : document.path service = path)
    (hpublishing : ∀ s₁, Inv U service R s₁ → φ s₁ → Publishing U service R t document s₁)
    (hrenamed : ∀ s₁ : Shared, Inv U service R s₁ → φ s₁ → ∀ temp bytes, ψ (renamed s₁ s₁.detached
      (s₁.issued + 1) s₁.issued temp path document bytes)) :
    Wp U service R t (writeJsonAtomic path document).run (fun result s' =>
      match result with
      | .ok _ => ψ s'
      | .error _ => φ s' ∨ ψ s') s := by
  unfold writeJsonAtomic
  refine wp_io_bind (wp_file_silent rfl hφ hs) ?_ (fun _ _ h => .inl h)
  intro _ s₁ hs₁
  refine wp_lift_bind (wp_mono (wp_nextSequence hφ hunnumbered hs₁) fun n s₂ hs₂ => ?_)
  refine wp_lift_bind (wp_step trivial (hφ.and (keep_owner n)) hs₂ fun pid s₃ _ hs₃ => ?_)
  have hdraft : ∀ s', s'.owner n = some t →
      Drafted t (tempPath path.dropLast "metadata" pid n) (fun _ _ => True) s' :=
    fun s' howner => ⟨⟨path.dropLast, pid, n, rfl, howner⟩, trivial⟩
  cases hvec : document.toVec with
  | error message => exact (wp_run_throw t _ _ s₃).mpr (.inl hs₃.1)
  | ok bytes =>
    refine wp_io_bind (wp_createNew hφ hlocal hs₃.1 (hdraft s₃ hs₃.2)) ?_ (fun _ _ h => .inl h.1)
    intro created s₄ hs₄
    have hempty := hs₄.2.weaken (fun content unreported h => h created rfl)
    refine wp_bind_of (wp_ioOrRemove_draft hφ hlocal (wp_writeAll hφ hlocal hs₄.1 hempty)) ?_
      (fun _ _ h => .inl h)
    intro _ s₅ hs₅
    refine wp_bind_of (wp_ioOrRemove_draft hφ hlocal (wp_syncAll hφ hlocal hs₅.1 hs₅.2)) ?_
      (fun _ _ h => .inl h)
    intro _ s₆ hs₆
    refine wp_bind_of (wp_ioOrRemove hφ hlocal (wp_rename hφ hlocal hψ hs₆.1 hsane hpath hvec
      hpublishing (fun s' hinv h => hrenamed s' hinv h _) hs₆.2)) ?_ (fun _ _ h => .inl h)
    intro _ s₇ hs₇
    exact wp_io_bind (wp_file_silent rfl hψ hs₇) (fun _ _ h => h) (fun _ _ h => .inr h)

end Writing

section Refreshing

variable {U : Type} [UrlCrate U] [SemverCrate] [JsonCrate]
variable {service : ProviderMetadataService} {R : Rules} {t : ℕ} {s : Shared}

/-- An acceptable index of known origin, of a key that is cached. -/
structure GoodIndex (service : ProviderMetadataService) (key : ProviderKey) (entry : IndexEntry)
    (s : Shared) : Prop where
  valid : validateRegistryVersions entry.value = .ok ()
  origin : IndexOrigin service key entry s
  cached : key ∈ s.indices

theorem goodIndex_grows {key : ProviderKey} {entry : IndexEntry} {s s' : Shared}
    (hg : Grows U service R s s') (h : GoodIndex service key entry s) :
    GoodIndex service key entry s' :=
  ⟨h.valid, indexOrigin_grows h.origin hg, hg.indices key h.cached⟩

theorem keep_goodIndex (key : ProviderKey) (entry : IndexEntry) :
    Keep U service R t (GoodIndex service key entry) :=
  keep_of_grows fun _ _ hg h => goodIndex_grows hg h

/-- The task is in the section of the key's index and waits for no answer. The
last condition is about its version lock. -/
structure InIndex (t : ℕ) (key : ProviderKey) (C : LockTable VersionKey → Prop) (s : Shared) :
    Prop where
  holds : s.indexLocks.Holds t key
  grounded : Grounded t s
  rest : C s.versionLocks

/-- A condition on the version locks that the others cannot invalidate. -/
abbrev KeepLocks (U : Type) [UrlCrate U]
    (service : ProviderMetadataService) (R : Rules) (t : ℕ) (C : LockTable VersionKey → Prop) :
    Prop :=
  Keep U service R t fun s => C s.versionLocks

variable {key : ProviderKey} {C : LockTable VersionKey → Prop}

theorem keep_inIndex (hC : KeepLocks U service R t C) : Keep U service R t (InIndex t key C) := by
  intro s s' hinv hframe h
  exact ⟨keep_holds key s s' hinv hframe h.holds, keep_grounded s s' hinv hframe h.grounded,
    hC s s' hinv hframe h.rest⟩

/-- The answer to the task's request, which is newer than all that is known. -/
structure Fetched (service : ProviderMetadataService) (t : ℕ) (key : ProviderKey)
    (C : LockTable VersionKey → Prop) (stamp : ℕ) (versions : List RegistryVersion) (s : Shared) :
    Prop where
  inside : InIndex t key C s
  fetched : ⟨key, stamp, versions⟩ ∈ s.fetched
  started : stamp < s.nextStamp
  below : Below service key stamp s

theorem keep_fetched (hC : KeepLocks U service R t C) (stamp : ℕ) (versions : List RegistryVersion) :
    Keep U service R t (Fetched service t key C stamp versions) := by
  intro s s' hinv hframe h
  exact ⟨keep_inIndex hC s s' hinv hframe h.inside, hframe.grows.fetched _ h.fetched,
    lt_of_lt_of_le h.started hframe.grows.stamp, hframe.below key stamp h.inside.holds h.below⟩

/-- The document of the task's request is in place, and may be published. -/
structure Persisted (service : ProviderMetadataService) (R : Rules) (t : ℕ) (key : ProviderKey)
    (C : LockTable VersionKey → Prop) (stamp : ℕ) (entry : IndexEntry) (s : Shared) :
    Prop where
  inside : InIndex t key C s
  fetched : ⟨key, stamp, entry.value⟩ ∈ s.fetched
  published : ∀ p ∈ s.published, p.key = key → p.stamp < stamp
  placed : R.ordered → R.plain → Placed service key stamp entry s

theorem keep_persisted (hC : KeepLocks U service R t C) (stamp : ℕ) (entry : IndexEntry) :
    Keep U service R t (Persisted service R t key C stamp entry) := by
  intro s s' hinv hframe h
  have hheld := h.inside.holds
  refine ⟨keep_inIndex hC s s' hinv hframe h.inside, hframe.grows.fetched _ h.fetched, ?_,
    fun ho hp => hframe.placed ho hp key stamp entry hheld (h.placed ho hp)⟩
  intro p hp hkey
  exact h.published p (hframe.published key hheld p hp hkey) hkey

/-- Starting an index request gives it the latest stamp. -/
theorem wp_startVersions (hC : KeepLocks U service R t C) (hs : InIndex t key C s) :
    Wp U service R t (startVersions key) (fun stamp s' => s'.indexLocks.Holds t key ∧
      C s'.versionLocks ∧ ⟨t, stamp, key⟩ ∈ s'.inFlight ∧ Below service key stamp s') s := by
  refine wp_call hs (keep_inIndex hC) (fun _ _ h => ⟨h.holds, h.grounded⟩)
    fun s₁ choice answer s₂ hinv hs₁ _ hexec _ => ?_
  cases always_some hexec
  refine ⟨hs₁.holds, hs₁.rest, List.mem_cons_self, ?_⟩
  constructor
  · intro p hp _
    exact hinv.published.fetched _ (hinv.published.published p hp).2
  · exact fun n hn => hinv.files.written_lt key n hn
  · intro d hd n hn
    obtain ⟨source, target, document, hop, hdocument⟩ := hn
    exact (hinv.files.publishable d hd source target document hop).stamp key n hdocument

/-- The answer to an index request. -/
theorem wp_awaitVersions {stamp : ℕ} (hC : KeepLocks U service R t C)
    (hs : s.indexLocks.Holds t key ∧ C s.versionLocks ∧ ⟨t, stamp, key⟩ ∈ s.inFlight ∧
      Below service key stamp s) :
    Wp U service R t (awaitVersions key stamp) (fun answer s' =>
      match answer with
      | .ok versions => Fetched service t key C stamp versions s'
      | .error _ => InIndex t key C s') s := by
  have hkeep : Keep U service R t fun s => s.indexLocks.Holds t key ∧ C s.versionLocks ∧
      ⟨t, stamp, key⟩ ∈ s.inFlight ∧ Below service key stamp s := by
    intro s s' hinv hframe h
    obtain ⟨hheld, hrest, hflight, hbelow⟩ := h
    exact ⟨keep_holds key s s' hinv hframe hheld, hC s s' hinv hframe hrest,
      keep_flight stamp key s s' hinv hframe hflight, hframe.below key stamp hheld hbelow⟩
  refine wp_call hs hkeep (fun _ _ h => h.2.2.1) fun s₁ choice answer s₂ hinv hs₁ _ hexec _ => ?_
  obtain ⟨hheld, hrest, hflight, hbelow⟩ := hs₁
  have hstarted := hinv.flights.started _ hflight
  have hgrounded : ∀ flight ∈ s₁.inFlight.filter (fun flight => flight.task ≠ t),
      flight.task ≠ t := by
    intro flight hmem
    simpa using (List.mem_filter.mp hmem).2
  change s₁.awaitVersions t key stamp choice = some (answer, s₂) at hexec
  unfold Shared.awaitVersions at hexec
  cases choice with
  | versions reply =>
    cases reply with
    | error error =>
      cases hexec
      exact ⟨hheld, hgrounded, hrest⟩
    | ok versions =>
      cases hexec
      exact ⟨⟨hheld, hgrounded, hrest⟩, List.mem_cons_self, hstarted,
        ⟨hbelow.published, hbelow.written, hbelow.detached⟩⟩
  | _ => cases hexec

/-- Persisting the fetched index. -/
theorem writeIndex_spec {stamp : ℕ} {entry : IndexEntry} (hC : KeepLocks U service R t C)
    (hkey : Admissible service key) (hvalid : validateRegistryVersions entry.value = .ok ())
    (hs : Fetched service t key C stamp entry.value s) :
    Wp U service R t (writeJsonAtomic (service.indexPath key) (.index key stamp entry)).run
      (fun result s' =>
        match result with
        | .ok _ => Persisted service R t key C stamp entry s'
        | .error _ => InIndex t key C s') s := by
  have hindex : IsIndex (.index key stamp entry) key stamp := ⟨entry, rfl⟩
  have hpersisted : Keep U service R t (Persisted service R t key C stamp entry) :=
    keep_persisted hC stamp entry
  refine wp_mono (writeJsonAtomic_spec (keep_fetched hC stamp entry.value) ?_ ?_
    hpersisted hs ⟨hkey, hvalid⟩ rfl ?_ ?_) ?_
  · exact fun s _ _ _ _ _ h => ⟨⟨h.inside.holds, h.inside.grounded, h.inside.rest⟩, h.fetched,
      h.started, h.below.published, h.below.written, h.below.detached⟩
  · exact fun s _ _ h => ⟨⟨h.inside.holds, h.inside.grounded, h.inside.rest⟩, h.fetched,
      h.started, h.below.published, h.below.written, h.below.detached⟩
  · intro s₁ _ h
    refine ⟨fun key' n hn => ?_, nofun, nofun, fun key' n entry' hdocument => ?_⟩
    · obtain ⟨hkey', hn'⟩ := isIndex_unique hn hindex
      subst hkey'
      subst hn'
      exact ⟨h.started, h.inside.holds, h.below⟩
    · cases hdocument
      exact h.fetched
  · intro s₁ hinv h temp bytes
    refine ⟨⟨h.inside.holds, h.inside.grounded, h.inside.rest⟩, h.fetched, h.below.published, ?_⟩
    intro _ _
    refine ⟨Function.update_self .., fun d hd n hn => ?_⟩
    rw [renamed_latest_target]
    exact hinv.files.issue d hd
  · intro result s' h
    cases result with
    | ok value => exact h
    | error error =>
      rcases h with h | h
      · exact h.inside
      · exact h.inside

/-- `refresh_index_unlocked`. -/
theorem refreshIndexUnlocked_spec (hC : KeepLocks U service R t C) (hkey : Admissible service key)
    (hs : InIndex t key C s) :
    Wp U service R t (refreshIndexUnlocked service key).run (fun result s' => InIndex t key C s' ∧
      ∀ entry, result = .ok entry → GoodIndex service key entry s') s := by
  unfold refreshIndexUnlocked
  refine wp_lift_bind (wp_mono (wp_startVersions hC hs) fun stamp s₁ hs₁ => ?_)
  refine wp_lift_bind (wp_mono (wp_awaitVersions hC hs₁) fun answer s₂ hs₂ => ?_)
  cases answer with
  | error error => exact (wp_run_throw t _ _ s₂).mpr ⟨hs₂, nofun⟩
  | ok versions =>
    dsimp only
    cases hvalid : validateRegistryVersions versions with
    | error error => exact (wp_run_throw t _ _ s₂).mpr ⟨hs₂.inside, nofun⟩
    | ok value =>
      refine wp_lift_bind (wp_step trivial (keep_fetched hC stamp versions) hs₂ ?_)
      intro fetchedAt s₃ _ hs₃
      have hwrite : Wp U service R t (writeJsonAtomic (service.indexPath key)
          (.index key stamp ⟨fetchedAt, true, versions⟩)).run _ s₃ := writeIndex_spec hC hkey hvalid hs₃
      refine wp_bind_of hwrite ?_ (fun _ _ h => ⟨h, nofun⟩)
      intro _ s₄ hs₄
      refine wp_lift_bind (wp_call hs₄ (keep_persisted hC stamp _) ?_ ?_)
      · intro s₅ _ h
        exact ⟨h.inside.holds, h.published, hkey, hvalid, rfl, h.fetched, h.placed⟩
      · intro s₅ choice result s₆ _ hs₅ _ hexec _
        cases always_some hexec
        constructor
        · exact ⟨hs₅.inside.holds, hs₅.inside.grounded, hs₅.inside.rest⟩
        · intro entry heq
          cases heq
          exact ⟨hvalid, .inl ⟨stamp, List.mem_cons_self⟩, (AList.mem_insert _).mpr (.inl rfl)⟩

/-- The refresh with its retry timer. -/
theorem refreshIndexTimed_spec (hC : KeepLocks U service R t C) (hkey : Admissible service key)
    (hs : InIndex t key C s) :
    Wp U service R t (refreshIndexTimed service key).run (fun result s' => InIndex t key C s' ∧
      ∀ entry, result = .ok entry → GoodIndex service key entry s') s := by
  unfold refreshIndexTimed
  refine wp_lift_bind (wp_mono (refreshIndexUnlocked_spec hC hkey hs) fun result s₁ hs₁ => ?_)
  obtain ⟨hinside, hgood⟩ := hs₁
  cases result with
  | ok entry =>
    refine wp_lift_bind (wp_step trivial ((keep_inIndex hC).and (keep_goodIndex key entry))
      ⟨hinside, hgood entry rfl⟩ fun _ s₂ _ hs₂ => ?_)
    refine (wp_run_pure t _ _ _).mpr ⟨hs₂.1, fun entry' heq => ?_⟩
    cases heq
    exact hs₂.2
  | error error =>
    dsimp only
    split
    · refine wp_lift_bind (wp_step trivial (keep_inIndex hC) hinside fun _ s₂ _ hs₂ => ?_)
      exact (wp_run_throw t _ _ s₂).mpr ⟨hs₂, nofun⟩
    · exact (wp_run_throw t _ _ s₁).mpr ⟨hinside, nofun⟩

end Refreshing

end OpenTfMirror.MetadataProofs
