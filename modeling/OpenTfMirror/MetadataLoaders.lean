import OpenTfMirror.MetadataProofs

/-!
# What both loaders guarantee

`load_index` and `load_version` differ in their cache, lock, document and
refresh. What these parts must do is a specification of its own; from it a
loader answers with entries of known origin only, and always answers when the
key was available before.
-/

namespace OpenTfMirror.MetadataLoaders

open TaskProgram TaskLogic Fallible KeyedLocks LockSections FileNames FileStore Outbound Provider
  Metadata MetadataService IndexDiscovery MetadataMachine MetadataInvariant MetadataSteps
  MetadataFiles MetadataExec MetadataProofs

section Access

variable {U : Type} [UrlCrate U] [SemverCrate] [JsonCrate]
variable {service : ProviderMetadataService} {R : Rules} {t : ℕ}

/-- A step on the locks of the indices, while no answer is awaited. -/
theorem indexAccess : LockAccess (assertions U service R) (policy R) (machine U service) t
    Shared.indexLocks (fun s locks => { s with indexLocks := locks }) (fun _ => True)
    (Grounded t) indexLock where
  consistent _ hinv := hinv.index_locks
  same _ _ hframe := hframe.index_locks
  table_replace _ _ := rfl
  perform op Q s hs h s₁ hinv hframe := by
    obtain ⟨hpre, -, hnext⟩ := h s₁ hinv hframe
    have hgrounded : Grounded t s₁ := keep_grounded s s₁ hinv hframe hs
    refine ⟨⟨hpre, hgrounded⟩, fun choice answer s₂ _ hexec hinv₂ => ?_⟩
    obtain ⟨locks, hlocks, heq⟩ := Option.map_eq_some_iff.mp (eventually_some hexec)
    cases heq
    exact hnext locks hlocks hinv₂

/-- A step on the locks of the versions. -/
theorem versionAccess : LockAccess (assertions U service R) (policy R) (machine U service) t
    Shared.versionLocks (fun s locks => { s with versionLocks := locks }) (fun _ => True)
    (fun _ => True) versionLock where
  consistent _ hinv := hinv.version_locks
  same _ _ hframe := hframe.version_locks
  table_replace _ _ := rfl
  perform op Q s _ h s₁ hinv hframe := by
    obtain ⟨hpre, -, hnext⟩ := h s₁ hinv hframe
    refine ⟨hpre, fun choice answer s₂ _ hexec hinv₂ => ?_⟩
    obtain ⟨locks, hlocks, heq⟩ := Option.map_eq_some_iff.mp (eventually_some hexec)
    cases heq
    exact hnext locks hlocks hinv₂

end Access

section Loaders

variable {U : Type} [UrlCrate U] [SemverCrate] [JsonCrate]
variable {service : ProviderMetadataService} {R : Rules} {t : ℕ} {K α : Type}

/-- What the parts of a loader do. `inside` and `outside` say where the task
stands, `good` that an entry has a known origin, `ready` that a refresh may
persist its document, `absent` that the cache is empty for good, and `counted`
that an answer is promised for the key. -/
structure LoaderSpec (U : Type) [UrlCrate U] [SemverCrate] [JsonCrate]
    (service : ProviderMetadataService) (R : Rules) (t : ℕ) (L : Loader K α) where
  admissible : K → Prop
  counted : K → Prop
  inside : K → Shared → Prop
  outside : Shared → Prop
  good : K → CacheEntry α → Shared → Prop
  present : K → Shared → Prop
  absent : K → Shared → Prop
  ready : K → Shared → Prop
  available : K → Shared → Prop
  keep_inside : ∀ key, Keep U service R t (inside key)
  keep_outside : Keep U service R t outside
  keep_absent : ∀ key, Keep U service R t fun s => inside key s ∧ absent key s
  good_grows : ∀ key entry s s', Grows U service R s s' → good key entry s → good key entry s'
  present_grows : ∀ key s s', Grows U service R s s' → present key s → present key s'
  ready_grows : ∀ key s s', Grows U service R s s' → ready key s → ready key s'
  available_grows : ∀ key, counted key → ∀ s s', Grows U service R s s' →
    available key s → available key s'
  /-- Available is what the cache or a valid document holds. -/
  available_cases : ∀ key s, available key s → present key s ∨
    ∃ bytes entry, s.files.lookup (L.path key) = some bytes ∧ L.decode bytes = .ok entry ∧
      L.validate key entry.value = .ok ()
  ready_present : ∀ key s, present key s → ready key s
  /-- Without a valid document a refresh may persist. -/
  ready_missing : ∀ key s, (∀ bytes entry, s.files.lookup (L.path key) = some bytes →
    L.decode bytes = .ok entry → L.validate key entry.value ≠ .ok ()) → ready key s
  entry : ∀ key (φ : Shared → Prop) s, Keep U service R t φ → φ s →
    Wp U service R t (L.entry key) (fun answer s' => φ s' ∧ match answer with
      | some entry => good key entry s'
      | none => ¬present key s') s
  contains : ∀ key (φ : Shared → Prop) s, Keep U service R t φ → φ s → inside key s →
    Wp U service R t (L.contains key) (fun answer s' => φ s' ∧ inside key s' ∧ match answer with
      | true => present key s'
      | false => absent key s' ∧ ¬present key s') s
  /-- A valid document is inserted. -/
  insert : ∀ key entry bytes s, admissible key → inside key s → absent key s →
    (L.path key, bytes) ∈ s.found → L.decode bytes = .ok entry →
    L.validate key entry.value = .ok () → Wp U service R t (L.insert key entry) (fun _ s' => inside key s' ∧ present key s') s
  refresh : ∀ key s, admissible key → inside key s → ready key s →
    Wp U service R t (L.refresh key).run (fun result s' => inside key s' ∧
      ∀ entry, result = .ok entry → good key entry s') s
  guard : ∀ key (body : Code (Except MetadataError (CacheEntry α))) (φ : Shared → Prop)
    (ψ : Except MetadataError (CacheEntry α) → Shared → Prop), admissible key →
    (∀ s s', Grows U service R s s' → φ s → φ s') →
    (∀ result s s', Grows U service R s s' → ψ result s → ψ result s') →
    (∀ s, Inv U service R s → inside key s → φ s →
      Wp U service R t body (fun result s' => inside key s' ∧ ψ result s') s) →
    ∀ s, outside s → φ s → Wp U service R t (guarded L.lock key body)
      (fun result s' => outside s' ∧ ψ result s') s
  enter : ∀ key (φ : Shared → Prop) s, Keep U service R t φ → φ s →
    Wp U service R t (L.enter key) (fun answer s' => φ s' ∧ (answer = .cached → present key s') ∧
      (answer = .persisted → available key s')) s
  leave : ∀ key answer result (φ : Shared → Prop) s, Keep U service R t φ → φ s →
    (∀ entry, result = .ok entry → good key entry s) →
    (Promised (counted key ∧ R.readable (L.path key)) answer → ∃ entry, result = .ok entry) →
    Wp U service R t (L.leave key answer result) (fun _ => φ) s

namespace LoaderSpec

variable {L : Loader K α} (S : LoaderSpec U service R t L) {key : K} {s : Shared}

/-- What a loader promises about its answer, when the key counts on one. -/
def Answer (key : K) (flag : Prop) (result : Except MetadataError (CacheEntry α)) (s : Shared) :
    Prop :=
  (∀ entry, result = .ok entry → S.good key entry s) ∧ (flag → ∃ entry, result = .ok entry)

theorem answer_grows {flag : Prop} {result : Except MetadataError (CacheEntry α)} {s s' : Shared}
    (hg : Grows U service R s s') (h : S.Answer key flag result s) :
    S.Answer key flag result s' :=
  ⟨fun entry heq => S.good_grows key entry s s' hg (h.1 entry heq), h.2⟩

theorem keep_answer (flag : Prop) (result : Except MetadataError (CacheEntry α)) :
    Keep U service R t (S.Answer key flag result) :=
  fun _ _ _ hframe h => S.answer_grows hframe.grows h

theorem answer_ok {flag : Prop} {entry : CacheEntry α} (h : S.good key entry s) :
    S.Answer key flag (.ok entry) s := by
  refine ⟨fun entry' heq => ?_, fun _ => ⟨entry, rfl⟩⟩
  cases heq
  exact h

theorem answer_error {flag : Prop} (error : MetadataError) (h : ¬flag) :
    S.Answer key flag (.error error) s :=
  ⟨nofun, fun hflag => absurd hflag h⟩

theorem keep_good (entry : CacheEntry α) : Keep U service R t (S.good key entry) :=
  fun s s' _ hframe h => S.good_grows key entry s s' hframe.grows h

theorem keep_present : Keep U service R t (S.present key) :=
  fun s s' _ hframe h => S.present_grows key s s' hframe.grows h

/-- The cached entry, when it is fresh. -/
theorem freshEntry_spec {φ : Shared → Prop} (hφ : Keep U service R t φ) (hs : φ s) :
    Wp U service R t (L.freshEntry service key) (fun answer s' => φ s' ∧
      ∀ entry, answer = some entry → S.good key entry s') s := by
  unfold Loader.freshEntry
  refine (wp_bind t _ _ _ s).mpr (wp_mono (S.entry key φ s hφ hs) fun answer s₁ hs₁ => ?_)
  obtain ⟨hφ₁, hanswer⟩ := hs₁
  cases answer with
  | none => exact (wp_done t _ _ _).mpr ⟨hφ₁, nofun⟩
  | some entry =>
    refine (wp_bind t _ _ _ s₁).mpr ?_
    refine wp_step trivial (hφ.and (S.keep_good entry)) ⟨hφ₁, hanswer⟩ fun now s₂ _ hs₂ => ?_
    split
    · refine (wp_done t _ _ _).mpr ⟨hs₂.1, fun entry' heq => ?_⟩
      cases heq
      exact hs₂.2
    · exact (wp_done t _ _ _).mpr ⟨hs₂.1, nofun⟩

/-- The key counts on its document: it is available, and can be read. -/
def OnFile (key : K) (flag : Prop) (s : Shared) : Prop :=
  flag → S.counted key ∧ R.readable (L.path key) ∧ S.available key s

theorem onFile_grows {flag : Prop} {s s' : Shared} (hg : Grows U service R s s')
    (h : S.OnFile key flag s) : S.OnFile key flag s' := by
  intro hflag
  obtain ⟨hcounted, hreadable, havailable⟩ := h hflag
  exact ⟨hcounted, hreadable, S.available_grows key hcounted s s' hg havailable⟩

/-- The key counts on an answer: it is cached, or its document can be read. -/
def Counts (key : K) (flag : Prop) (s : Shared) : Prop :=
  flag → S.present key s ∨ S.counted key ∧ R.readable (L.path key) ∧ S.available key s

theorem counts_grows {flag : Prop} {s s' : Shared} (hg : Grows U service R s s')
    (h : S.Counts key flag s) : S.Counts key flag s' := by
  intro hflag
  rcases h hflag with hpresent | ⟨hcounted, hreadable, havailable⟩
  · exact .inl (S.present_grows key s s' hg hpresent)
  · exact .inr ⟨hcounted, hreadable, S.available_grows key hcounted s s' hg havailable⟩

/-- While nothing is cached, the key counts on its document. -/
theorem onFile_of_counts {flag : Prop} (h : S.Counts key flag s) (hpresent : ¬S.present key s) :
    S.OnFile key flag s :=
  fun hflag => (h hflag).resolve_left hpresent

/-- A refresh may persist, and a key that counts on an answer is cached. -/
def Filled (key : K) (flag : Prop) (s : Shared) : Prop :=
  S.ready key s ∧ (flag → S.present key s)

theorem filled_grows {flag : Prop} {s s' : Shared} (hg : Grows U service R s s')
    (h : S.Filled key flag s) : S.Filled key flag s' :=
  ⟨S.ready_grows key s s' hg h.1, fun hflag => S.present_grows key s s' hg (h.2 hflag)⟩

theorem filled_present {flag : Prop} (h : S.present key s) : S.Filled key flag s :=
  ⟨S.ready_present key s h, fun _ => h⟩

/-- Without a valid document, what counts on an answer is in the cache. -/
theorem filled_missing {flag : Prop} (hcounts : S.OnFile key flag s)
    (hmissing : ∀ bytes entry, s.files.lookup (L.path key) = some bytes →
      L.decode bytes = .ok entry → L.validate key entry.value ≠ .ok ()) :
    S.Filled key flag s := by
  refine ⟨S.ready_missing key s hmissing, fun hflag => ?_⟩
  rcases S.available_cases key s (hcounts hflag).2.2 with hpresent | hfile
  · exact hpresent
  · obtain ⟨bytes, entry, hlookup, hdecode, hvalid⟩ := hfile
    exact absurd hvalid (hmissing bytes entry hlookup hdecode)

/-- What reading the document tells. -/
def Found (key : K) (flag : Prop) (result : Except IoError Bytes) (s : Shared) : Prop :=
  match result with
  | .ok bytes => (L.path key, bytes) ∈ s.found ∧
      ((∀ entry, L.decode bytes = .ok entry → L.validate key entry.value ≠ .ok ()) →
        S.Filled key flag s)
  | .error .notFound => S.Filled key flag s
  | .error _ => ¬flag

theorem keep_found (flag : Prop) (result : Except IoError Bytes) :
    Keep U service R t (S.Found key flag result) := by
  intro s s' _ hframe h
  cases result with
  | ok bytes =>
    exact ⟨hframe.grows.found _ h.1, fun hinvalid => S.filled_grows hframe.grows (h.2 hinvalid)⟩
  | error error =>
    cases error with
    | notFound => exact S.filled_grows hframe.grows h
    | _ => exact h

/-- Reading the document. -/
theorem read_spec {flag : Prop} {φ : Shared → Prop} (hφ : Keep U service R t φ) (hs : φ s)
    (hcounts : S.OnFile key flag s) :
    Wp U service R t (file (.read (L.path key)))
      (fun result s' => φ s' ∧ S.Found key flag result s') s := by
  have hkeep : Keep U service R t fun s => φ s ∧ S.OnFile key flag s :=
    hφ.and fun s s' _ hframe h => S.onFile_grows hframe.grows h
  refine wp_file hkeep (fun result => hφ.and (S.keep_found flag result)) ⟨hs, hcounts⟩
    (fun s₁ _ _ => filePre_of_silent rfl) fun s₁ choice answer s₂ hinv hs₁ hpolicy hexec hinv₂ => ?_
  have hexec' : exec U service t s₁ (.file (.read (L.path key))) choice = some (answer, s₂) := hexec
  have hsilent : Silent (.file (.read (L.path key))) := rfl
  have hunseen : Unseen Everyone s₁ s₂ := unseen_of_silent Everyone hsilent hexec'
  have hgrows : Grows U service R s₁ s₂ := hunseen.grows
  refine ⟨hφ s₁ s₂ hinv₂ ((keeps_unseen hinv hunseen).frame t trivial) hs₁.1, ?_⟩
  unfold Shared.fileOp Shared.read at hexec
  dsimp only at hexec
  cases choice with
  | ok =>
    dsimp only at hexec
    split at hexec
    · next hnone =>
        cases hexec
        refine S.filled_grows hgrows (S.filled_missing hs₁.2 fun bytes entry hlookup => ?_)
        rw [show s₁.files.lookup (L.path key) = none from hnone] at hlookup
        cases hlookup
    · next bytes hsome =>
        cases hexec
        refine ⟨List.mem_cons_self, fun hinvalid => ?_⟩
        refine S.filled_grows hgrows (S.filled_missing hs₁.2 fun bytes' entry hlookup => ?_)
        rw [show s₁.files.lookup (L.path key) = some bytes from hsome] at hlookup
        cases hlookup
        exact hinvalid entry
  | fail message =>
    cases hexec
    exact fun hflag => hpolicy _ message rfl (hs₁.2 hflag).2.1 rfl
  | _ => cases hexec

/-- What filling the cache leaves. -/
def Prepared (key : K) (flag : Prop) (result : Except MetadataError Unit) (s : Shared) : Prop :=
  S.inside key s ∧ match result with
    | .ok _ => S.Filled key flag s
    | .error _ => ¬flag

/-- Fill an empty cache from the persisted document. -/
theorem readPersisted_spec {flag : Prop} (hkey : S.admissible key) (hs : S.inside key s)
    (hcounts : S.Counts key flag s) :
    Wp U service R t (L.readPersisted key).run (S.Prepared key flag) s := by
  have hkeep : Keep U service R t (S.Counts key flag) :=
    fun s s' _ hframe h => S.counts_grows hframe.grows h
  unfold Loader.readPersisted
  refine wp_lift_bind (wp_mono (S.contains key _ s hkeep hcounts hs) fun answer s₁ hs₁ => ?_)
  obtain ⟨hcounts₁, hinside₁, hanswer⟩ := hs₁
  cases answer with
  | true => exact (wp_run_pure t _ _ s₁).mpr ⟨hinside₁, S.filled_present hanswer⟩
  | false =>
    refine (wp_run_bind t _ _ _ s₁).mpr ?_
    unfold readJson
    have honFile₁ := S.onFile_of_counts hcounts₁ hanswer.2
    refine wp_lift_bind (wp_mono
      (S.read_spec (S.keep_absent key) ⟨hinside₁, hanswer.1⟩ honFile₁) fun result s₂ hs₂ => ?_)
    obtain ⟨⟨hinside₂, habsent₂⟩, hfound⟩ := hs₂
    cases result with
    | error error =>
      cases error with
      | notFound => exact (wp_run_pure t _ _ s₂).mpr ⟨hinside₂, hfound⟩
      | other message => exact (wp_run_throw t _ _ s₂).mpr ⟨hinside₂, hfound⟩
    | ok bytes =>
      obtain ⟨hfile, hinvalid⟩ := hfound
      dsimp only
      cases hdecode : L.decode bytes with
      | error message =>
        refine (wp_run_pure t _ _ s₂).mpr ⟨hinside₂, hinvalid fun entry hentry => ?_⟩
        rw [hdecode] at hentry
        cases hentry
      | ok entry =>
        refine (wp_run_pure t _ _ s₂).mpr ?_
        dsimp only
        cases hvalid : L.validate key entry.value with
        | error error =>
          refine (wp_run_pure t _ _ s₂).mpr ⟨hinside₂, hinvalid fun entry' hentry => ?_⟩
          rw [hdecode] at hentry
          cases hentry
          rw [hvalid]
          exact nofun
        | ok value =>
          refine (wp_run_lift t _ _ s₂).mpr (wp_mono (S.insert key entry bytes s₂ hkey hinside₂
            habsent₂ hfile hdecode hvalid) fun _ s₃ hs₃ => ?_)
          exact ⟨hs₃.1, S.filled_present hs₃.2⟩

/-- After a failed refresh: the entry cached before, or one cached meanwhile. -/
theorem fallback_spec {flag : Prop} {cached : Option (CacheEntry α)} {error : MetadataError}
    (hs : S.inside key s) (hcached : ∀ entry, cached = some entry → S.good key entry s)
    (hflag : flag → S.present key s) :
    Wp U service R t (L.fallback key cached error).run (fun result s' =>
      S.inside key s' ∧ S.Answer key flag result s') s := by
  unfold Loader.fallback
  cases cached with
  | some entry => exact (wp_run_pure t _ _ s).mpr ⟨hs, S.answer_ok (hcached entry rfl)⟩
  | none =>
    have hkeep : Keep U service R t fun s => S.inside key s ∧ (flag → S.present key s) :=
      (S.keep_inside key).and (Stable.imp S.keep_present)
    refine wp_lift_bind (wp_mono (S.entry key _ s hkeep ⟨hs, hflag⟩) fun answer s₁ hs₁ => ?_)
    obtain ⟨⟨hinside₁, hflag₁⟩, hanswer⟩ := hs₁
    cases answer with
    | some entry => exact (wp_run_pure t _ _ s₁).mpr ⟨hinside₁, S.answer_ok hanswer⟩
    | none =>
      exact (wp_run_throw t _ _ s₁).mpr
        ⟨hinside₁, S.answer_error error fun h => hanswer (hflag₁ h)⟩

/-- Refresh, unless the key is in backoff; fall back to what is cached. -/
theorem refreshOrCached_spec {flag : Prop} (hkey : S.admissible key) (hs : S.inside key s)
    (hfilled : S.Filled key flag s) :
    Wp U service R t (L.refreshOrCached key).run (fun result s' =>
      S.inside key s' ∧ S.Answer key flag result s') s := by
  have hkeep : Keep U service R t fun s => S.inside key s ∧ S.Filled key flag s :=
    (S.keep_inside key).and fun s s' _ hframe h => S.filled_grows hframe.grows h
  unfold Loader.refreshOrCached
  refine wp_lift_bind (wp_mono (S.entry key _ s hkeep ⟨hs, hfilled⟩) fun cached s₁ hs₁ => ?_)
  obtain ⟨⟨hinside₁, hfilled₁⟩, hcached⟩ := hs₁
  -- what was cached, and why it is there when it counts
  have hgood₁ : ∀ entry, cached = some entry → S.good key entry s₁ := by
    intro entry heq
    rw [heq] at hcached
    exact hcached
  have hsome : flag → ∃ entry, cached = some entry := by
    intro hflag
    cases cached with
    | none => exact absurd (hfilled₁.2 hflag) hcached
    | some entry => exact ⟨entry, rfl⟩
  have hkeepCached : Keep U service R t fun s => ∀ entry, cached = some entry →
      S.good key entry s := by
    intro s s' _ hframe h entry heq
    exact S.good_grows key entry s s' hframe.grows (h entry heq)
  refine wp_lift_bind (wp_step trivial (hkeep.and hkeepCached)
    ⟨⟨hinside₁, hfilled₁⟩, hgood₁⟩ fun allowed s₂ _ hs₂ => ?_)
  obtain ⟨⟨hinside₂, hfilled₂⟩, hgood₂⟩ := hs₂
  split
  · refine wp_lift_bind (wp_mono (wp_grows (S.refresh key s₂ hkey hinside₂ hfilled₂.1)) ?_)
    intro result s₃ hs₃
    obtain ⟨⟨hinside₃, hresult⟩, hgrows⟩ := hs₃
    have hgood₃ : ∀ entry, cached = some entry → S.good key entry s₃ :=
      fun entry heq => S.good_grows key entry s₂ s₃ hgrows (hgood₂ entry heq)
    have hpresent₃ : flag → S.present key s₃ :=
      fun hflag => S.present_grows key s₂ s₃ hgrows (hfilled₂.2 hflag)
    cases result with
    | ok entry =>
      refine wp_lift_bind (wp_step trivial ((S.keep_inside key).and (S.keep_good entry))
        ⟨hinside₃, hresult entry rfl⟩ fun _ s₄ _ hs₄ => ?_)
      exact (wp_run_pure t _ _ s₄).mpr ⟨hs₄.1, S.answer_ok hs₄.2⟩
    | error error =>
      dsimp only
      split
      · have hkeep₃ : Keep U service R t fun s => S.inside key s ∧
            (∀ entry, cached = some entry → S.good key entry s) ∧ (flag → S.present key s) :=
          (S.keep_inside key).and (hkeepCached.and (Stable.imp S.keep_present))
        refine wp_lift_bind (wp_step trivial hkeep₃ ⟨hinside₃, hgood₃, hpresent₃⟩ ?_)
        intro _ s₄ _ hs₄
        exact S.fallback_spec hs₄.1 hs₄.2.1 hs₄.2.2
      · exact S.fallback_spec hinside₃ hgood₃ hpresent₃
  · cases cached with
    | some entry => exact (wp_run_pure t _ _ s₂).mpr ⟨hinside₂, S.answer_ok (hgood₂ entry rfl)⟩
    | none =>
      refine (wp_run_throw t _ _ s₂).mpr ⟨hinside₂, S.answer_error _ fun hflag => ?_⟩
      obtain ⟨entry, heq⟩ := hsome hflag
      cases heq

/-- What a loader does inside the lock. -/
theorem loadLocked_spec {flag : Prop} (hkey : S.admissible key) (hs : S.inside key s)
    (hcounts : S.Counts key flag s) :
    Wp U service R t (L.loadLocked service key).run (fun result s' =>
      S.inside key s' ∧ S.Answer key flag result s') s := by
  have hkeep : Keep U service R t fun s => S.inside key s ∧ S.Counts key flag s :=
    (S.keep_inside key).and fun s s' _ hframe h => S.counts_grows hframe.grows h
  unfold Loader.loadLocked
  refine wp_lift_bind (wp_mono (S.freshEntry_spec hkeep ⟨hs, hcounts⟩) fun answer s₁ hs₁ => ?_)
  obtain ⟨⟨hinside₁, hcounts₁⟩, hanswer⟩ := hs₁
  cases answer with
  | some entry => exact (wp_run_pure t _ _ s₁).mpr ⟨hinside₁, S.answer_ok (hanswer entry rfl)⟩
  | none =>
    refine wp_bind_of (S.readPersisted_spec hkey hinside₁ hcounts₁) ?_
      fun error s₂ hs₂ => ⟨hs₂.1, S.answer_error error hs₂.2⟩
    intro _ s₂ hs₂
    have hkeepFilled : Keep U service R t fun s => S.inside key s ∧ S.Filled key flag s :=
      (S.keep_inside key).and fun s s' _ hframe h => S.filled_grows hframe.grows h
    refine wp_lift_bind (wp_mono (S.freshEntry_spec hkeepFilled hs₂) fun answer s₃ hs₃ => ?_)
    obtain ⟨⟨hinside₃, hfilled₃⟩, hanswer₃⟩ := hs₃
    cases answer with
    | some entry => exact (wp_run_pure t _ _ s₃).mpr ⟨hinside₃, S.answer_ok (hanswer₃ entry rfl)⟩
    | none => exact S.refreshOrCached_spec hkey hinside₃ hfilled₃

/-- A loader answers with entries of known origin, and its call is on record. -/
theorem load_spec (hkey : S.admissible key) (hs : S.outside s) :
    Wp U service R t (L.load service key).run (fun result s' => S.outside s' ∧
      ∀ entry, result = .ok entry → S.good key entry s') s := by
  unfold Loader.load
  refine (wp_bind t _ _ _ s).mpr (wp_mono (S.enter key _ s S.keep_outside hs) ?_)
  intro presence s₁ hs₁
  obtain ⟨houtside₁, hcached, hpersisted⟩ := hs₁
  have hcounts₁ : S.Counts key (Promised (S.counted key ∧ R.readable (L.path key)) presence) s₁ := by
    intro hflag
    cases presence with
    | missing => exact hflag.elim
    | persisted => exact .inr ⟨hflag.1, hflag.2, hpersisted rfl⟩
    | cached => exact .inl (hcached rfl)
  have hkeep : Keep U service R t fun s => S.outside s ∧
      S.Counts key (Promised (S.counted key ∧ R.readable (L.path key)) presence) s :=
    S.keep_outside.and fun s s' _ hframe h => S.counts_grows hframe.grows h
  refine (wp_bind t _ _ _ s₁).mpr (wp_mono (Q := fun result s' => S.outside s' ∧
    S.Answer key (Promised (S.counted key ∧ R.readable (L.path key)) presence) result s') ?_ ?_)
  · refine (wp_bind t _ _ _ s₁).mpr
      (wp_mono (S.freshEntry_spec hkeep ⟨houtside₁, hcounts₁⟩) fun answer s₂ hs₂ => ?_)
    obtain ⟨⟨houtside₂, hcounts₂⟩, hanswer⟩ := hs₂
    cases answer with
    | some entry => exact (wp_done t _ _ s₂).mpr ⟨houtside₂, S.answer_ok (hanswer entry rfl)⟩
    | none =>
      exact S.guard key (L.loadLocked service key).run (S.Counts key _) (S.Answer key _) hkey
        (fun s s' hg h => S.counts_grows hg h) (fun result s s' hg h => S.answer_grows hg h)
        (fun s _ hinside hcounts => S.loadLocked_spec hkey hinside hcounts) s₂ houtside₂ hcounts₂
  · intro result s₂ hs₂
    have hkeepAnswer : Keep U service R t fun s => S.outside s ∧
        ∀ entry, result = .ok entry → S.good key entry s := by
      refine S.keep_outside.and fun s s' _ hframe h entry heq => ?_
      exact S.good_grows key entry s s' hframe.grows (h entry heq)
    refine (wp_bind t _ _ _ s₂).mpr (wp_mono (S.leave key presence result _ s₂ hkeepAnswer
      ⟨hs₂.1, hs₂.2.1⟩ hs₂.2.1 hs₂.2.2) ?_)
    intro _ s₃ hs₃
    exact (wp_done t _ _ s₃).mpr hs₃

end LoaderSpec

end Loaders

end OpenTfMirror.MetadataLoaders
