import OpenTfMirror.FetchHistory
import OpenTfMirror.LoaderOps

/-!
# The spacing of index fetches

While the timer maps have room, a failed fetch bars the requests from another
one for the backoff, and a forced refresh bars them from another forced one: the
questions that decide are asked by the holder of the key, and only a holder
fetches or records.
-/

namespace OpenTfMirror.FetchSpacing

open TaskProgram TaskLogic TaskHistory Fallible KeyedLocks LockSections FileNames FileStore Outbound
  Provider Metadata MetadataService IndexDiscovery MetadataMachine MetadataExec MetadataRuns
  RetryTimers FetchHistory LoaderOps

section Stability

variable {t : ℕ} {key : ProviderKey}

variable (t) in
/-- A predicate on views that the other tasks cannot invalidate. -/
abbrev Keep (φ : View → Prop) : Prop := Stable assertions t fun s => φ (view s)

/-- The task has nothing to do with the locks of the indices. -/
def Free (t : ℕ) (v : View) : Prop := v.locks.handles.lookup t = none

/-- The task holds the key, and may fetch its index. -/
def Ready (t : ℕ) (key : ProviderKey) (v : View) : Prop :=
  v.locks.Holds t key ∧ (v.syncing ≠ some t → Calm key v)

theorem keep_free : Keep t (Free t) := by
  intro s s' _ hframe h
  have hhandle := hframe.locks.handle
  unfold Free at h ⊢
  rw [hhandle]
  exact h

theorem keep_holds : Keep t fun v => v.locks.Holds t key :=
  fun _ _ _ hframe h => hframe.locks.holds_iff.mpr h

theorem keep_ready : Keep t (Ready t key) := by
  intro s s' _ hframe h
  refine ⟨hframe.locks.holds_iff.mpr h.1, fun hsyncing => ?_⟩
  have hother : (view s).syncing ≠ some t := fun heq => hsyncing (hframe.syncing.mpr heq)
  exact hframe.calm key h.1 (h.2 hother)

theorem keep_syncing : Keep t fun v => v.syncing = some t :=
  fun _ _ _ hframe h => hframe.syncing.mpr h

/-- A fetch may start after a positive answer. -/
theorem ready_of_allowed {v : View} (hv : Inv v) (hholds : v.locks.Holds t key)
    (hallowed : refreshAllowedAt v.indexFailures key v.clock refreshBackoff = true) :
    Ready t key v :=
  ⟨hholds, fun _ => elapsed_of_allowed (hv.failures key) (by decide) hallowed⟩

end Stability

section Programs

variable {U : Type} [UrlCrate U] [SemverCrate] [JsonCrate] {service : ProviderMetadataService}
variable {t : ℕ} {key : ProviderKey} {s : Noted Shared Event} {φ φ' : View → Prop}

variable (U service t) in
/-- The rule for a piece of a request, about views. -/
abbrev Wp {α : Type} (program : Code α) (Q : α → View → Prop) (s : Noted Shared Event) : Prop :=
  wp assertions (besides roomy) (noted U service) t program (fun value s' => Q value (view s')) s

/-- Neutral programs keep what the others cannot invalidate. -/
theorem wp_neutral {α : Type} {program : Code α} (h : Each Neutral program) (hφ : Keep t φ)
    (hs : φ (view s)) : Wp U service t program (fun _ => φ) s := by
  refine wp_each hφ (fun s op _ hop hs => ⟨?_, fun choice answer s' hexec => ?_⟩) h hs
  · cases op with
    | recordFailure timer =>
      cases timer with
      | version key => trivial
      | _ => cases hop
    | clearFailure timer =>
      cases timer with
      | version key => trivial
      | _ => cases hop
    | indexLock op => cases hop
    | startVersions key => cases hop
    | _ => trivial
  · rw [view_neutral hop hexec]
    exact hs

/-- A neutral program, followed by the rest. -/
theorem wp_neutral_bind {α β : Type} {program : Code α} {next : α → Code β}
    {Q : β → View → Prop} (h : Each Neutral program) (hφ : Keep t φ) (hs : φ (view s))
    (hnext : ∀ value s', φ (view s') → Wp U service t (next value) Q s') :
    Wp U service t (program >>= next) Q s :=
  (wp_bind t _ _ _ s).mpr (wp_mono (wp_neutral h hφ hs) fun value s' => hnext value s')

/-- The same in fallible code. -/
theorem wp_neutral_lift {α β : Type} {program : Code α} {next : α → MetadataService.Task β}
    {Q : Except MetadataError β → View → Prop} (h : Each Neutral program) (hφ : Keep t φ)
    (hs : φ (view s))
    (hnext : ∀ value s', φ (view s') → Wp U service t (next value).run Q s') :
    Wp U service t (lift program >>= next).run Q s :=
  wp_lift_bind (wp_mono (wp_neutral h hφ hs) fun value s' => hnext value s')

/-- One operation that is not neutral, under its precondition. -/
theorem wp_operation {op : Op} {Q : Res op → View → Prop} (hφ : Keep t φ) (hs : φ (view s))
    (hpre : ∀ v, φ v → Pre t op v)
    (hQ : ∀ s₁ choice answer s₂, Inv (view s₁) → φ (view s₁) →
      (noted U service).exec t s₁ op choice = some (answer, s₂) → Q answer (view s₂)) :
    Wp U service t (.call op .done) Q s := by
  intro s₁ hinv hframe
  have hs₁ := hφ s s₁ hinv hframe hs
  exact ⟨hpre _ hs₁, fun choice answer s₂ _ hexec _ => hQ s₁ choice answer s₂ hinv hs₁ hexec⟩

/-- What a positive answer to the question for a refresh says. -/
theorem wp_refreshAllowed {timer : Timer} {site : Site} (hφ : Keep t φ) (hs : φ (view s))
    (hallowed : ∀ s, Inv (view s) → φ (view s) → s.state.refreshAllowed timer = true →
      φ' (view s)) :
    Wp U service t (refreshAllowed timer site)
      (fun allowed v => φ v ∧ (allowed = true → φ' v)) s := by
  refine wp_operation hφ hs (fun _ _ => trivial) fun s₁ choice answer s₂ hinv hs₁ hexec => ?_
  have hneutral : Neutral (.refreshAllowed timer site) := trivial
  have hview : view s₂ = view s₁ := view_neutral hneutral hexec
  obtain ⟨hexec', -⟩ := noted_exec hexec
  have hanswer : answer = s₁.state.refreshAllowed timer :=
    congrArg Prod.fst (always_some hexec')
  rw [hview, hanswer]
  exact ⟨hs₁, hallowed s₁ hinv hs₁⟩

theorem wp_startVersions (hs : Ready t key (view s)) :
    Wp U service t (startVersions key) (fun _ => Ready t key) s := by
  refine wp_operation keep_ready hs (fun _ h => h) fun s₁ choice answer s₂ _ hs₁ hexec => ?_
  obtain ⟨hexec', hhistory⟩ := noted_exec hexec
  obtain ⟨state₂, history₂⟩ := s₂
  cases hhistory
  cases always_some hexec'
  exact hs₁

theorem wp_recordIndex (hs : Ready t key (view s)) :
    Wp U service t (recordFailure (.index key)) (fun _ v => v.locks.Holds t key) s := by
  refine wp_operation keep_ready hs (fun _ h => h.1) fun s₁ choice answer s₂ _ hs₁ hexec => ?_
  obtain ⟨hexec', hhistory⟩ := noted_exec hexec
  obtain ⟨state₂, history₂⟩ := s₂
  cases hhistory
  cases always_some hexec'
  exact hs₁.1

theorem wp_clearIndex (hs : Ready t key (view s)) :
    Wp U service t (clearFailure (.index key)) (fun _ v => v.locks.Holds t key) s := by
  refine wp_operation keep_ready hs (fun _ h => h) fun s₁ choice answer s₂ _ hs₁ hexec => ?_
  obtain ⟨hexec', hhistory⟩ := noted_exec hexec
  obtain ⟨state₂, history₂⟩ := s₂
  cases hhistory
  cases always_some hexec'
  exact hs₁.1

/-- A forced refresh is noted, and the fetch may follow. -/
theorem wp_recordMiss (hs : Ready t key (view s) ∧ Unforced key (view s)) :
    Wp U service t (recordFailure (.miss key)) (fun _ => Ready t key) s := by
  have hkeep : Keep t fun v => Ready t key v ∧ Unforced key v := by
    intro s s' hinv hframe h
    exact ⟨keep_ready s s' hinv hframe h.1, hframe.unforced key h.1.1 h.2⟩
  refine wp_operation hkeep hs (fun _ h => ⟨h.1.1, h.2⟩) fun s₁ choice answer s₂ _ hs₁ hexec => ?_
  obtain ⟨hexec', hhistory⟩ := noted_exec hexec
  obtain ⟨state₂, history₂⟩ := s₂
  cases hhistory
  cases always_some hexec'
  exact hs₁.1

end Programs

section NeutralPrograms

variable {U : Type} [UrlCrate U] [SemverCrate] [JsonCrate] {service : ProviderMetadataService}

omit [SemverCrate] [JsonCrate] in
theorem writes_neutral {path : Path} : Writes Neutral path := by
  constructor <;> intros <;> trivial

variable {K α : Type} {L : Loader K α} {key : K}

/-- The operations of a loader, but for its lock, its timer and its refresh. -/
structure Quiet (L : Loader K α) (key : K) : Prop where
  entry : Each Neutral (L.entry key)
  contains : Each Neutral (L.contains key)
  insert : ∀ entry, Each Neutral (L.insert key entry)
  enter : Each Neutral (L.enter key)
  leave : ∀ presence result, Each Neutral (L.leave key presence result)

omit [SemverCrate] in
theorem quiet_index (key : ProviderKey) : Quiet (indexLoader service) key where
  entry := ⟨trivial, fun _ => trivial⟩
  contains := ⟨trivial, fun _ => trivial⟩
  insert _ := ⟨trivial, fun _ => trivial⟩
  enter := ⟨trivial, fun _ => trivial⟩
  leave _ _ := ⟨trivial, fun _ => trivial⟩

theorem quiet_version (key : VersionKey) : Quiet (versionLoader U service) key where
  entry := ⟨trivial, fun _ => trivial⟩
  contains := ⟨trivial, fun _ => trivial⟩
  insert _ := ⟨trivial, fun _ => trivial⟩
  enter := ⟨trivial, fun _ => trivial⟩
  leave _ _ := ⟨trivial, fun _ => trivial⟩

omit [SemverCrate] [JsonCrate] in
theorem Quiet.reads (h : Quiet L key) : Reads Neutral L key :=
  ⟨h.entry, h.contains, h.insert, trivial, trivial, trivial⟩

theorem each_listedRefresh (key : VersionKey) (summary : RegistryVersion) :
    Each Neutral (refreshListed U service key summary).run :=
  each_refreshListed trivial (fun _ => trivial) trivial writes_neutral fun _ _ => trivial

end NeutralPrograms

section Loaders

variable {U : Type} [UrlCrate U] [SemverCrate] [JsonCrate] {service : ProviderMetadataService}
variable {t : ℕ} {K α : Type} {L : Loader K α} {key : K} {outside inside ready : View → Prop}

variable (U service t) in
/-- Where the task stands outside and inside a loader's lock, and when its
refresh may start. -/
structure LoaderRule (L : Loader K α) (key : K) (outside inside ready : View → Prop) : Prop where
  quiet : Quiet L key
  keep_outside : Keep t outside
  keep_inside : Keep t inside
  keep_ready : Keep t ready
  ready_inside : ∀ v, ready v → inside v
  /-- The body of the section is run inside the lock. -/
  guard : ∀ {β : Type} (body : Code β),
    (∀ s, inside (view s) → Wp U service t body (fun _ => inside) s) →
      ∀ s, outside (view s) → Wp U service t (guarded L.lock key body) (fun _ => outside) s
  allowed : ∀ s, Inv (view s) → inside (view s) →
    s.state.refreshAllowed (L.timer key) = true → ready (view s)
  refresh : ∀ s, ready (view s) → Wp U service t (L.refresh key).run (fun _ => ready) s
  clear : ∀ s, ready (view s) → Wp U service t (clearFailure (L.timer key)) (fun _ => inside) s
  record : ∀ s, ready (view s) → Wp U service t (recordFailure (L.timer key)) (fun _ => inside) s

variable (rule : LoaderRule U service t L key outside inside ready) {s : Noted Shared Event}

include rule

theorem refreshOrCached_keeps (hs : inside (view s)) :
    Wp U service t (L.refreshOrCached key).run (fun _ => inside) s := by
  unfold Loader.refreshOrCached
  refine wp_neutral_lift rule.quiet.entry rule.keep_inside hs fun cached s₁ hs₁ => ?_
  refine wp_lift_bind (wp_mono (wp_refreshAllowed rule.keep_inside hs₁ rule.allowed) ?_)
  intro allowed s₂ hs₂
  cases allowed with
  | true =>
    refine wp_lift_bind (wp_mono (rule.refresh s₂ (hs₂.2 rfl)) fun result s₃ hs₃ => ?_)
    cases result with
    | ok entry => exact wp_lift_bind (wp_mono (rule.clear s₃ hs₃) fun _ _ hs₄ => hs₄)
    | error error =>
      dsimp only
      split
      · refine wp_lift_bind (wp_mono (rule.record s₃ hs₃) fun _ s₄ hs₄ => ?_)
        exact wp_neutral (each_fallback rule.quiet.reads cached error) rule.keep_inside hs₄
      · exact wp_neutral (each_fallback rule.quiet.reads cached error) rule.keep_inside
          (rule.ready_inside _ hs₃)
  | false =>
    cases cached with
    | some entry => exact hs₂.1
    | none => exact hs₂.1

/-- A loader gives back what it takes. -/
theorem load_keeps (hs : outside (view s)) :
    Wp U service t (L.load service key).run (fun _ => outside) s := by
  have hlocked : ∀ s, inside (view s) →
      Wp U service t (L.loadLocked service key).run (fun _ => inside) s := by
    intro s hs
    unfold Loader.loadLocked
    refine wp_neutral_lift (each_freshEntry rule.quiet.reads) rule.keep_inside hs fun fresh s₁ hs₁ => ?_
    cases fresh with
    | some entry => exact hs₁
    | none =>
      refine (wp_run_bind t _ _ _ _).mpr (wp_mono (wp_neutral (each_readPersisted rule.quiet.reads)
        rule.keep_inside hs₁) fun result s₂ hs₂ => ?_)
      cases result with
      | error error => exact hs₂
      | ok value =>
        refine wp_neutral_lift (each_freshEntry rule.quiet.reads) rule.keep_inside hs₂ ?_
        intro fresh s₃ hs₃
        cases fresh with
        | some entry => exact hs₃
        | none => exact refreshOrCached_keeps rule hs₃
  unfold Loader.load
  refine wp_neutral_bind rule.quiet.enter rule.keep_outside hs fun presence s₁ hs₁ => ?_
  refine (wp_bind t _ _ _ _).mpr (wp_mono (Q := fun _ s => outside (view s)) ?_ ?_)
  · refine wp_neutral_bind (each_freshEntry rule.quiet.reads) rule.keep_outside hs₁ fun fresh s₂ hs₂ => ?_
    cases fresh with
    | some entry => exact hs₂
    | none => exact rule.guard _ hlocked s₂ hs₂
  · intro result s₂ hs₂
    refine wp_neutral_bind (rule.quiet.leave presence result) rule.keep_outside hs₂ ?_
    exact fun _ s₃ hs₃ => hs₃

end Loaders

section Requests

variable {U : Type} [UrlCrate U] [SemverCrate] [JsonCrate] {service : ProviderMetadataService}
variable {t : ℕ} {key : ProviderKey} {s : Noted Shared Event}

/-- A step on the locks of the indices. -/
theorem access : LockAccess assertions (besides roomy) (noted U service) t
    (fun s => s.state.indexLocks)
    (fun s locks => { s with state := { s.state with indexLocks := locks } }) (fun _ => True)
    (fun _ => True) indexLock where
  consistent _ hinv := hinv.locks
  same _ _ hframe := hframe.locks
  table_replace _ _ := rfl
  perform op Q s _ h s₁ hinv hframe := by
    obtain ⟨hpre, -, hnext⟩ := h s₁ hinv hframe
    refine ⟨hpre, fun choice answer s₂ _ hexec hinv₂ => ?_⟩
    obtain ⟨hexec', hhistory⟩ := noted_exec hexec
    obtain ⟨locks, hlocks, heq⟩ := Option.map_eq_some_iff.mp (eventually_some hexec')
    obtain ⟨state₂, history₂⟩ := s₂
    cases hhistory
    cases heq
    exact hnext locks hlocks hinv₂

/-- A section in which the task holds the key. -/
theorem guarded_index {α : Type} {body : Code α} {φ : View → Prop} (hφ : Keep t φ)
    (hlocks : ∀ v L, φ v → φ { v with locks := L })
    (hbody : ∀ s, (view s).locks.Holds t key → φ (view s) →
      Wp U service t body (fun _ v => v.locks.Holds t key ∧ φ v) s)
    (hfree : Free t (view s)) (hs : φ (view s)) :
    Wp U service t (guarded indexLock key body) (fun _ v => Free t v ∧ φ v) s := by
  have haccess : LockAccess assertions (besides roomy) (noted U service) t _ _ _ _ indexLock := access
  exact wp_guarded haccess trivial (φ := fun s => φ (view s)) (ψ := fun _ s => φ (view s)) hφ
    (fun _ => hφ) (fun s L h => hlocks (view s) L h) (fun _ s L h => hlocks (view s) L h)
    (fun _ _ => trivial) (fun _ _ _ => trivial) (fun s _ hholds hs => hbody s hholds hs) hfree hs

/-- What follows the start of a fetch. -/
def fetchStarted (service : ProviderMetadataService) (key : ProviderKey) (stamp : ℕ) :
    MetadataService.Task IndexEntry := do
  match ← lift (awaitVersions key stamp) with
  | .error error => throw (mapRegistry error)
  | .ok versions =>
    match validateRegistryVersions versions with
    | .error error => throw error
    | .ok () =>
      let fetchedAt ← lift nowEpoch
      let entry : IndexEntry := ⟨fetchedAt, true, versions⟩
      writeJsonAtomic (service.indexPath key) (.index key stamp entry)
      lift (insertIndex key entry (.fetched stamp))
      return entry

omit [SemverCrate] in
theorem each_fetchStarted (stamp : ℕ) : Each Neutral (fetchStarted service key stamp).run := by
  unfold fetchStarted
  refine each_lift_bind ⟨trivial, fun _ => trivial⟩ fun answer => ?_
  cases answer with
  | error error => trivial
  | ok versions =>
    dsimp only
    cases validateRegistryVersions versions with
    | error error => trivial
    | ok value =>
      refine each_lift_bind ⟨trivial, fun _ => trivial⟩ fun fetchedAt => ?_
      refine each_run_bind (each_writeJsonAtomic writes_neutral _) fun _ => ?_
      exact each_lift_bind ⟨trivial, fun _ => trivial⟩ fun _ => trivial

/-- After its start a fetch is neutral. -/
theorem refreshIndexUnlocked_keeps (hs : Ready t key (view s)) :
    Wp U service t (refreshIndexUnlocked service key).run (fun _ => Ready t key) s :=
  wp_lift_bind (wp_mono (wp_startVersions hs) fun stamp _ hs₁ =>
    wp_neutral (each_fetchStarted stamp) keep_ready hs₁)

theorem refreshIndexTimed_keeps (hs : Ready t key (view s)) :
    Wp U service t (refreshIndexTimed service key).run (fun _ v => v.locks.Holds t key) s := by
  unfold refreshIndexTimed
  refine wp_lift_bind (wp_mono (refreshIndexUnlocked_keeps hs) fun result s₁ hs₁ => ?_)
  cases result with
  | ok entry => exact wp_lift_bind (wp_mono (wp_clearIndex hs₁) fun _ _ hs₂ => hs₂)
  | error error =>
    dsimp only
    split
    · exact wp_lift_bind (wp_mono (wp_recordIndex hs₁) fun _ _ hs₂ => hs₂)
    · exact hs₁.1

/-- The loader of indices asks inside the lock whether it may fetch. -/
theorem indexRule : LoaderRule U service t (indexLoader service) key (Free t)
    (fun v => v.locks.Holds t key) (Ready t key) where
  quiet := quiet_index key
  keep_outside := keep_free
  keep_inside := keep_holds
  keep_ready := keep_ready
  ready_inside _ h := h.1
  guard body hbody s hs := by
    have hguarded := guarded_index (φ := fun _ => True) (fun _ _ _ _ _ => trivial)
      (fun _ _ _ => trivial) (fun s hholds _ => wp_mono (hbody s hholds) fun _ _ h => ⟨h, trivial⟩)
      hs trivial
    exact wp_mono hguarded fun _ _ h => h.1
  allowed s hinv hholds hallowed := ready_of_allowed hinv hholds hallowed
  refresh _ hs := refreshIndexUnlocked_keeps hs
  clear _ hs := wp_clearIndex hs
  record _ hs := wp_recordIndex hs

/-- Asking for a forced refresh, and what follows two positive answers. -/
theorem whenMissing_keeps {key : VersionKey} {index : IndexEntry}
    {force : MetadataService.Task IndexEntry} {φ ψ χ : View → Prop} (hφ : Keep t φ)
    (hψ : Keep t ψ) (hs : φ (view s))
    (hmiss : ∀ s, Inv (view s) → φ (view s) →
      s.state.refreshAllowed (.miss key.provider) = true → ψ (view s))
    (hindex : ∀ s, Inv (view s) → ψ (view s) →
      s.state.refreshAllowed (.index key.provider) = true → χ (view s))
    (hback : ∀ v, ψ v → φ v)
    (hforce : ∀ s, χ (view s) → Wp U service t force.run (fun _ => φ) s) :
    Wp U service t (whenMissing key index force).run (fun _ => φ) s := by
  unfold whenMissing
  cases listedVersion index key.version with
  | some item => exact hs
  | none =>
    refine wp_lift_bind (wp_mono (wp_refreshAllowed hφ hs hmiss) fun missed s₁ hs₁ => ?_)
    cases missed with
    | false => exact hs₁.1
    | true =>
      have hs₁' := hs₁.2 rfl
      refine wp_lift_bind (wp_mono (wp_refreshAllowed hψ hs₁' hindex) fun allowed s₂ hs₂ => ?_)
      cases allowed with
      | false => exact hback _ hs₂.1
      | true => exact hforce s₂ (hs₂.2 rfl)

/-- The forced refresh asks again inside the lock. -/
theorem forceIndexLocked_keeps {key : VersionKey} {index : IndexEntry}
    (hs : (view s).locks.Holds t key.provider) :
    Wp U service t (forceIndexLocked service key index).run
      (fun _ v => v.locks.Holds t key.provider) s := by
  have hkeep : Keep t fun v => v.locks.Holds t key.provider ∧ Unforced key.provider v := by
    intro s s' hinv hframe h
    exact ⟨keep_holds s s' hinv hframe h.1, hframe.unforced key.provider h.1 h.2⟩
  unfold forceIndexLocked
  refine wp_neutral_lift ⟨trivial, fun _ => trivial⟩ keep_holds hs fun current s₁ hs₁ => ?_
  refine whenMissing_keeps keep_holds hkeep hs₁ (fun s hinv hholds hallowed => ?_)
    (χ := fun v => Ready t key.provider v ∧ Unforced key.provider v) ?_ (fun _ h => h.1) ?_
  · exact ⟨hholds, elapsed_of_allowed (hinv.misses key.provider) (by decide) hallowed⟩
  · exact fun s hinv h hallowed => ⟨ready_of_allowed hinv h.1 hallowed, h.2⟩
  · intro s₂ hs₂
    refine wp_lift_bind (wp_mono (wp_recordMiss hs₂) fun _ s₃ hs₃ => ?_)
    exact refreshIndexTimed_keeps hs₃

theorem forceIndex_keeps {key : VersionKey} {index : IndexEntry} (hs : Free t (view s)) :
    Wp U service t (forceIndex service key index).run (fun _ => Free t) s := by
  refine whenMissing_keeps keep_free keep_free hs (fun _ _ h _ => h) (fun _ _ h _ => h)
    (fun _ h => h) fun s₁ hs₁ => ?_
  exact indexRule.guard _ (fun s hholds => forceIndexLocked_keeps hholds) s₁ hs₁

theorem refreshVersion_keeps {key : VersionKey} (hs : Free t (view s)) :
    Wp U service t (refreshVersion U service key).run (fun _ => Free t) s := by
  unfold refreshVersion
  refine (wp_run_bind t _ _ _ _).mpr (wp_mono (load_keeps indexRule hs) fun result s₁ hs₁ => ?_)
  cases result with
  | error error => exact hs₁
  | ok index =>
    refine (wp_run_bind t _ _ _ _).mpr (wp_mono (forceIndex_keeps hs₁) fun result s₂ hs₂ => ?_)
    cases result with
    | error error => exact hs₂
    | ok index =>
      dsimp only
      cases listedVersion index key.version with
      | none => exact hs₂
      | some summary => exact wp_neutral (each_listedRefresh key summary) keep_free hs₂

/-- The loader of versions leaves the locks of the indices alone, but for its refresh. -/
theorem versionRule {key : VersionKey} :
    LoaderRule U service t (versionLoader U service) key (Free t) (Free t) (Free t) where
  quiet := quiet_version key
  keep_outside := keep_free
  keep_inside := keep_free
  keep_ready := keep_free
  ready_inside _ h := h
  guard body hbody s hs := by
    unfold guarded
    refine wp_neutral_bind ⟨trivial, fun _ => trivial⟩ keep_free hs fun _ s₁ hs₁ => ?_
    refine wp_neutral_bind ⟨trivial, fun _ => trivial⟩ keep_free hs₁ fun _ s₂ hs₂ => ?_
    refine (wp_bind t _ _ _ _).mpr (wp_mono (hbody s₂ hs₂) fun result s₃ hs₃ => ?_)
    refine wp_neutral_bind ⟨trivial, fun _ => trivial⟩ keep_free hs₃ fun _ s₄ hs₄ => ?_
    refine wp_neutral_bind ⟨trivial, fun _ => trivial⟩ keep_free hs₄ fun _ s₅ hs₅ => ?_
    exact wp_neutral_bind ⟨trivial, fun _ => trivial⟩ keep_free hs₅ fun _ s₆ hs₆ => hs₆
  allowed _ _ h _ := h
  refresh _ hs := refreshVersion_keeps hs
  clear _ hs := wp_neutral ⟨trivial, fun _ => trivial⟩ keep_free hs
  record _ hs := wp_neutral ⟨trivial, fun _ => trivial⟩ keep_free hs

/-- Operations that do not begin or end a synchronization. -/
def Unsynced : Op → Prop
  | .trySync | .endSync => False
  | _ => True

omit [SemverCrate] in
/-- A fetch does not begin or end a synchronization. -/
theorem each_refreshIndexTimed : Each Unsynced (refreshIndexTimed service key).run := by
  have hneutral : ∀ op, Neutral op → Unsynced op := by
    intro op hop
    cases op with
    | trySync => exact hop
    | endSync => exact hop
    | _ => trivial
  unfold refreshIndexTimed
  refine each_lift_bind (each_lift_bind ⟨trivial, fun _ => trivial⟩ fun stamp =>
    each_mono (each_fetchStarted stamp) hneutral) fun result => ?_
  cases result with
  | ok entry => exact each_lift_bind ⟨trivial, fun _ => trivial⟩ fun _ => trivial
  | error error =>
    dsimp only
    split
    · exact each_lift_bind ⟨trivial, fun _ => trivial⟩ fun _ => trivial
    · trivial

theorem syncing_exec {s' : Noted Shared Event} {op : Op} {choice : Choice} {answer : Res op}
    (hop : Unsynced op) (h : (noted U service).exec t s op choice = some (answer, s')) :
    s'.state.syncing = s.state.syncing := by
  by_cases hneutral : Neutral op
  · exact congrArg View.syncing (view_neutral hneutral h)
  · obtain ⟨hexec, -⟩ := noted_exec h
    obtain ⟨state', history'⟩ := s'
    cases op with
    | trySync => cases hop
    | endSync => cases hop
    | indexLock op =>
      obtain ⟨L, -, heq⟩ := Option.map_eq_some_iff.mp (eventually_some hexec)
      cases heq
      rfl
    | startVersions key =>
      cases always_some hexec
      rfl
    | recordFailure timer =>
      cases always_some hexec
      cases timer <;> rfl
    | clearFailure timer =>
      cases always_some hexec
      cases timer <;> rfl
    | _ => exact absurd trivial hneutral

/-- The loop of `sync_known` fetches without asking. -/
theorem syncKeys_keeps {keys : List ProviderKey} {failures : ℕ} (hfree : Free t (view s))
    (hsyncing : (view s).syncing = some t) :
    Wp U service t (syncKeys service keys failures) (fun _ => Free t) s := by
  induction keys generalizing failures s with
  | nil => exact hfree
  | cons key rest ih =>
    unfold syncKeys
    have hguarded : Wp U service t (guarded indexLock key (refreshIndexTimed service key).run)
        (fun _ v => Free t v ∧ v.syncing = some t) s := by
      refine guarded_index keep_syncing (fun _ _ h => h) (fun s hholds hs => ?_) hfree hsyncing
      have hfetch : Wp U service t (refreshIndexTimed service key).run
          (fun _ v => v.locks.Holds t key) s :=
        refreshIndexTimed_keeps ⟨hholds, fun hother => absurd hs hother⟩
      refine wp_beside keep_syncing (fun s op choice answer s' hop hs hexec => ?_)
        each_refreshIndexTimed hfetch hs
      exact (syncing_exec hop hexec).trans hs
    refine (wp_bind t _ _ _ s).mpr (wp_mono hguarded fun result s₁ hs₁ => ?_)
    cases result with
    | error error => exact ih hs₁.1 hs₁.2
    | ok entry => exact ih hs₁.1 hs₁.2

/-- `sync_known` marks itself before it fetches. -/
theorem syncKnown_keeps (hs : Free t (view s)) :
    Wp U service t (syncKnown service).run (fun _ => Free t) s := by
  have hend : ∀ s, Free t (view s) → Wp U service t endSync (fun _ => Free t) s := by
    intro s hs
    refine wp_operation keep_free hs (fun _ _ => trivial) fun s₁ choice answer s₂ _ hs₁ hexec => ?_
    obtain ⟨hexec', -⟩ := noted_exec hexec
    obtain ⟨state₂, history₂⟩ := s₂
    cases always_some hexec'
    exact hs₁
  have htry : Wp U service t trySync (fun mine v => Free t v ∧ (mine = true → v.syncing = some t)) s := by
    refine wp_operation keep_free hs (fun _ _ => trivial) fun s₁ choice answer s₂ _ hs₁ hexec => ?_
    obtain ⟨hexec', -⟩ := noted_exec hexec
    obtain ⟨state₂, history₂⟩ := s₂
    unfold exec at hexec'
    dsimp only at hexec'
    split at hexec'
    · cases always_some hexec'
      exact ⟨hs₁, nofun⟩
    · cases always_some hexec'
      exact ⟨hs₁, fun _ => rfl⟩
  have hkeep : Keep t fun v => Free t v ∧ v.syncing = some t := keep_free.and keep_syncing
  unfold syncKnown
  refine wp_lift_bind (wp_mono htry fun mine s₁ hs₁ => ?_)
  cases mine with
  | false => exact hs₁.1
  | true =>
    have hkeys : Each Neutral indexKeys := ⟨trivial, fun _ => trivial⟩
    refine wp_neutral_lift hkeys hkeep ⟨hs₁.1, hs₁.2 rfl⟩ fun keys s₂ hs₂ => ?_
    refine wp_lift_bind (wp_mono (syncKeys_keeps hs₂.1 hs₂.2) fun failures s₃ hs₃ => ?_)
    refine wp_lift_bind (wp_mono (hend s₃ hs₃) fun _ s₄ hs₄ => ?_)
    split
    · exact hs₄
    · exact hs₄

theorem getVersionEntry_keeps {hostname providerNamespace providerType version : String}
    (hs : Free t (view s)) :
    Wp U service t (getVersionEntry U service hostname providerNamespace providerType version).run
      (fun _ => Free t) s := by
  unfold getVersionEntry
  cases validateVersion version "version" with
  | error error => exact hs
  | ok value =>
    cases service.providerKey hostname providerNamespace providerType with
    | error error => exact hs
    | ok provider =>
      refine wp_lift_bind (wp_mono (load_keeps versionRule hs) fun result s₁ hs₁ => ?_)
      cases result with
      | ok entry => exact hs₁
      | error error =>
        cases error with
        | notFound => exact hs₁
        | _ => exact hs₁

/-- A request, from its start. -/
theorem request_keeps {entry : Entry} (hs : Free t (view s)) :
    Wp U service t (request U service entry) (fun _ _ => True) s := by
  cases entry with
  | listVersions hostname providerNamespace providerType =>
    refine (wp_bind t _ _ _ s).mpr (wp_mono (Q := fun _ s => Free t (view s)) ?_ fun _ _ _ => trivial)
    unfold listVersions
    cases service.providerKey hostname providerNamespace providerType with
    | error error => exact hs
    | ok key => exact wp_bind_of (load_keeps indexRule hs) (fun _ _ h => h) (fun _ _ h => h)
  | sync =>
    exact (wp_bind t _ _ _ s).mpr (wp_mono (syncKnown_keeps hs) fun _ _ _ => trivial)
  | getVersion hostname providerNamespace providerType version =>
    refine (wp_bind t _ _ _ s).mpr (wp_mono (Q := fun _ s => Free t (view s)) ?_ fun _ _ _ => trivial)
    exact wp_bind_of (getVersionEntry_keeps hs) (fun _ _ h => h) (fun _ _ h => h)
  | getPlatform hostname providerNamespace providerType filename =>
    refine (wp_bind t _ _ _ s).mpr (wp_mono (Q := fun _ s => Free t (view s)) ?_ fun _ _ _ => trivial)
    unfold getPlatformByArchive
    cases ArchiveName.parse providerType filename with
    | error error => exact hs
    | ok archive => exact wp_bind_of (getVersionEntry_keeps hs) (fun _ _ h => h) (fun _ _ h => h)

/-- The destructors after those of the index lock. -/
def unwindRest : Code MetadataMachine.Out := do
  versionLock .release
  versionLock .dropBody
  versionLock .releaseArc
  endSync
  return .dropped

omit [SemverCrate] [JsonCrate] in
theorem keep_true : Keep t fun _ => True := fun _ _ _ _ _ => trivial

theorem unwindRest_keeps : Wp U service t unwindRest (fun _ _ => True) s := by
  have hlock : ∀ op, Each Neutral (versionLock op) := fun _ => ⟨trivial, fun _ => trivial⟩
  refine wp_neutral_bind (hlock _) keep_true trivial fun _ s₂ hs₂ => ?_
  refine wp_neutral_bind (hlock _) keep_true hs₂ fun _ s₃ hs₃ => ?_
  refine wp_neutral_bind (hlock _) keep_true hs₃ fun _ s₄ hs₄ => ?_
  have hend : Wp U service t endSync (fun _ _ => True) s₄ :=
    wp_operation keep_true hs₄ (fun _ _ => trivial) fun _ _ _ _ _ _ _ => trivial
  exact (wp_bind t _ _ _ _).mpr (wp_mono hend fun _ _ _ => trivial)

/-- The destructors of a dropped request, from anywhere. -/
theorem unwind_keeps : Wp U service t unwind (fun _ _ => True) s := by
  have haccess : LockAccess assertions (besides roomy) (noted U service) t _ _ _ _ indexLock := access
  exact wp_unlock haccess (ψ := fun _ => True) keep_true (fun _ _ h => h) (fun _ h => h)
    (fun _ _ _ => unwindRest_keeps) trivial

end Requests

section Runs

variable {U : Type} [UrlCrate U] [SemverCrate] [JsonCrate] {service : ProviderMetadataService}

/-- Dropping a request at an await changes nothing that matters. -/
theorem view_cancel {t : ℕ} {s s' : Noted Shared Event} {op : Op}
    (h : (noted U service).cancel t s op = some s') : view s' = view s := by
  obtain ⟨hcancel', hhistory⟩ := noting_cancel h
  obtain ⟨state', history'⟩ := s'
  dsimp only at hcancel' hhistory
  subst hhistory
  cases op with
  | file op =>
    cases hcancel'
    rfl
  | indexLock op =>
    cases op with
    | acquire =>
      cases hcancel'
      rfl
    | _ => cases hcancel'
  | versionLock op =>
    cases op with
    | acquire =>
      cases hcancel'
      rfl
    | _ => cases hcancel'
  | resume =>
    cases hcancel'
    rfl
  | awaitVersions key stamp =>
    cases hcancel'
    rfl
  | packages key platforms =>
    cases hcancel'
    rfl
  | _ => cases hcancel'

/-- The clock advances, or nothing that matters changes. -/
theorem view_move {s s' : Noted Shared Event} {m : Move}
    (h : (noted U service).move s m = some s') :
    ∃ duration, view s' = { view s with clock := s.state.clock + duration } := by
  obtain ⟨hmoved, hhistory⟩ := noting_move h
  obtain ⟨state', history'⟩ := s'
  dsimp only at hhistory
  subst hhistory
  have hmove' : move s.state m = some state' := hmoved
  cases m with
  | tick duration =>
    cases hmove'
    exact ⟨duration, rfl⟩
  | land position choice =>
    unfold move at hmove'
    dsimp only at hmove'
    split at hmove'
    · cases hmove'
    · obtain ⟨⟨answer, state₁⟩, hop, heq⟩ := Option.map_eq_some_iff.mp hmove'
      subst heq
      exact ⟨0, (view_fileOp hop).trans rfl⟩

omit [SemverCrate] [JsonCrate] in
theorem inv_tick {v : View} (hv : Inv v) (duration : ℕ) :
    Inv { v with clock := v.clock + duration } where
  locks := hv.locks
  failures key := covered_later (hv.failures key) (Nat.le_add_right _ _)
  misses key := covered_later (hv.misses key) (Nat.le_add_right _ _)
  spaced := hv.spaced

omit [SemverCrate] [JsonCrate] in
theorem frame_tick (t : ℕ) (v : View) (duration : ℕ) :
    Frame t v { v with clock := v.clock + duration } where
  locks := same_refl t _
  syncing := Iff.rfl
  calm _ _ hcalm := elapsed_later hcalm (Nat.le_add_right _ _)
  unforced _ _ hun := elapsed_later hun (Nat.le_add_right _ _)

/-- The proofs about single requests add up. -/
theorem noted_sound : Sound assertions (besides roomy) (noted U service) fun _ _ _ => True where
  exec t s op choice answer s' hinv hpre hroom hexec := keeps_exec hinv hpre hroom hexec
  start t s entry program s' hinv _ hstart := by
    obtain ⟨started, hstarted, heq⟩ := Option.map_eq_some_iff.mp hstart
    have hstart' : (if s.state.unused t then some (request U service entry, s.state) else none) =
        some started := hstarted
    split at hstart'
    · next hunused =>
        cases hstart'
        cases heq
        simp only [Shared.unused, Bool.and_eq_true, Option.isNone_iff_eq_none] at hunused
        exact ⟨hinv, fun t' _ => frame_refl t' _, request_keeps hunused.1.1.1⟩
    · cases hstart'
  cancel t s op s' hinv _ _ hcancel := by
    have hview := view_cancel hcancel
    refine ⟨?_, fun t' _ => ?_, unwind_keeps⟩
    · change Inv (view s')
      rw [hview]
      exact hinv
    · change Frame t' (view s) (view s')
      rw [hview]
      exact frame_refl t' _
  move s m s' hinv _ hmove := by
    obtain ⟨duration, hview⟩ := view_move hmove
    refine ⟨?_, fun t => ?_⟩
    · change Inv (view s')
      rw [hview]
      exact inv_tick hinv duration
    · change Frame t (view s) (view s')
      rw [hview]
      exact frame_tick t (view s) duration
  reboot _ _ _ hfalse _ := hfalse.elim
  post _ _ := Stable.const True

omit [SemverCrate] in
theorem inv_boot {files : Files} {pid : ℕ} {s : Shared} (h : boot service files pid = .ok s) :
    Inv (view ⟨s, []⟩) := by
  unfold boot at h
  cases hindices : discoverIndices files service.dataDir service.allowedRegistries with
  | error error =>
    rw [hindices] at h
    cases h
  | ok indices =>
    rw [hindices] at h
    cases h
    exact ⟨empty_consistent, fun _ => covered_nil, fun _ => covered_nil, spaced_nil⟩

end Runs

section Plain

open PlainLibraries PlainMetadata

/-- The operation records a failure in a map without room. -/
def crowded (s : Noted Shared Event) : Op → Bool
  | .recordFailure (.index _) => maxFailures ≤ unexpired s.state.indexFailures s.state.clock
  | .recordFailure (.miss _) => maxFailures ≤ unexpired s.state.indexMissRefreshes s.state.clock
  | _ => false

theorem run_uncrowded {U : Type} [UrlCrate U] [SemverCrate] [JsonCrate]
    {service : ProviderMetadataService} (t : ℕ) (answer : Op → Choice) (n : ℕ)
    (c : Config Op Res MetadataMachine.Out (Noted Shared Event)) :
    (noted U service).Run (besides roomy) c ((noted U service).follow t answer crowded n c) := by
  refine run_follow _ _ crowded (fun s op hgo => ?_) n c
  cases op with
  | recordFailure timer =>
    cases timer with
    | version key => trivial
    | index key =>
      have hroom := of_decide_eq_false hgo
      exact Nat.lt_of_not_le hroom
    | miss key =>
      have hroom := of_decide_eq_false hgo
      exact Nat.lt_of_not_le hroom
  | _ => trivial

/-- The registry cannot be reached. -/
def unreachable : Op → Choice := answers 100 (.error (.invalidResponse "unreachable")) []

end Plain

end OpenTfMirror.FetchSpacing
