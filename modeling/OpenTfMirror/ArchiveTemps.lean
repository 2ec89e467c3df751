import OpenTfMirror.MetadataRuns
import OpenTfMirror.PlainLibraries
import OpenTfMirror.PlainMetadata
import OpenTfMirror.StorageTasks
import OpenTfMirror.TempFiles

/-!
# What becomes of the temporary file of a download

`download` has a destructor that removes the file unless it was renamed. So a
download whose future is dropped leaves its file only when the removal fails, or
comes before the creation that was already handed over.
-/

namespace OpenTfMirror.ArchiveTemps

open TaskProgram TaskLogic TaskEndings Fallible TextOps FileNames FileStore Outbound Provider Metadata
  Storage StorageMachine StorageProofs StorageInvariant TempFiles PlainLibraries PlainMetadata

section Steps

variable {U : Type}

/-- What the others may do meanwhile: they leave the temporary file alone, and the
target as good as it was. -/
structure Beside (temp target : Path) (Good : Option Node → Prop) (s s' : Shared U) : Prop where
  content : s'.files temp = s.files temp
  unreported : s'.unreported temp = s.unreported temp
  target : Good (s.files target) → Good (s'.files target)

/-- The operations on the file, and the steps they are. -/
inductive TempOp (temp target : Path) : Op U → TempStep → Prop
  | create : TempOp temp target (.createNew temp) .create
  | write (bytes : Bytes) : TempOp temp target (.writeAll temp bytes) .write
  | sync : TempOp temp target (.syncAll temp) .sync
  | rename : TempOp temp target (.rename temp target) .rename
  | remove : TempOp temp target (.removeFile temp) .remove

/-- The step that is taken with the file, and its success. -/
def watch (temp : Path) : Sigma (Res U) → Option (TempStep × Bool)
  | ⟨.createNew path, answer⟩ => if path = temp then some (.create, Except.isOk answer) else none
  | ⟨.writeAll path _, answer⟩ => if path = temp then some (.write, Except.isOk answer) else none
  | ⟨.syncAll path, answer⟩ => if path = temp then some (.sync, Except.isOk answer) else none
  | ⟨.rename source _, answer⟩ => if source = temp then some (.rename, Except.isOk answer) else none
  | ⟨.removeFile path, answer⟩ => if path = temp then some (.remove, Except.isOk answer) else none
  | _ => none

/-- The sequence number that was drawn, and the process number that was read. -/
def sequenceDrawn : Sigma (Res U) → Option ℕ
  | ⟨.nextSequence, answer⟩ => some answer
  | _ => none

def pidDrawn : Sigma (Res U) → Option ℕ
  | ⟨.processId, answer⟩ => some answer
  | _ => none

/-- They are these. -/
def Drawn (numbers : ℕ × ℕ) (event : Sigma (Res U)) : Prop :=
  (∀ n ∈ sequenceDrawn event, n = numbers.1) ∧ ∀ n ∈ pidDrawn event, n = numbers.2

instance (numbers : ℕ × ℕ) : DecidablePred (Drawn (U := U) numbers) :=
  fun _ => inferInstanceAs (Decidable (_ ∧ _))

end Steps

section Effects

variable {U : Type} [UrlCrate U] [SemverCrate] [Sha256Crate] {self : ProviderStorage} {t : ℕ}
variable {temp target : Path} {steps : Steps} {s s' : Shared U}

/-- What one step does: the file is gone as the steps say, and only a successful
rename changes the target, into the file. -/
structure Effect (temp target : Path) (steps : Steps) (step : TempStep × Bool)
    (s s' : Shared U) : Prop where
  tracks : Tracks steps (s.files temp = none) → Tracks (steps ++ [step]) (s'.files temp = none)
  target : s'.files target = s.files target ∨
    step = (.rename, true) ∧ ∃ file, s.files temp = some (.regular file) ∧
      s'.files target = some (.regular file)

omit [UrlCrate U] [SemverCrate] [Sha256Crate] in
/-- A write neither makes nor removes a file. -/
theorem write_files {path : Path} {bytes : Bytes} {choice : Choice U} {answer : Except IoError Unit}
    (h : s.write path bytes choice = some (answer, s')) :
    (s'.files path = none ↔ s.files path = none) ∧ ∀ p, p ≠ path → s'.files p = s.files p := by
  cases hnode : s.files path with
  | some node =>
    cases node with
    | regular file =>
      obtain ⟨written, unreported, rfl, -⟩ := write_cases hnode h
      exact ⟨by simp, fun p hp => Function.update_of_ne hp _ _⟩
    | _ =>
      unfold Shared.write at h
      rw [hnode] at h
      cases choice with
      | fail message =>
        cases h
        exact ⟨by simp [hnode], fun _ _ => rfl⟩
      | _ => cases h
  | none =>
    unfold Shared.write at h
    rw [hnode] at h
    cases choice with
    | fail message =>
      cases h
      exact ⟨by simp [hnode], fun _ _ => rfl⟩
    | _ => cases h

omit [SemverCrate] in
theorem exec_effect (steps : Steps) {op : Op U} {step : TempStep} {choice : Choice U} {answer : Res U op}
    (hne : temp ≠ target) (hop : TempOp temp target op step)
    (hcreate : step = .create → ¬ Created steps)
    (hexec : exec self t s op choice = some (answer, s')) :
    ∃ success, watch temp ⟨op, answer⟩ = some (step, success) ∧
      Effect temp target steps (step, success) s s' := by
  cases hop with
  | create =>
    change s.createNew temp choice = some (answer, s') at hexec
    unfold Shared.createNew at hexec
    split at hexec
    · split at hexec
      · cases hexec
      · cases hexec
        refine ⟨true, if_pos rfl, fun _ => .create (hcreate rfl) ?_, .inl ?_⟩
        · simp
        · exact Function.update_of_ne (Ne.symm hne) _ _
    · cases hexec
      exact ⟨false, if_pos rfl, fun h => h.keep Iff.rfl nofun nofun nofun, .inl rfl⟩
    · cases hexec
  | write bytes =>
    change s.write temp bytes choice = some (answer, s') at hexec
    obtain ⟨hpresent, hothers⟩ := write_files hexec
    exact ⟨_, if_pos rfl, fun h => h.keep hpresent nofun nofun nofun, .inl (hothers target (Ne.symm hne))⟩
  | sync =>
    change s.syncAll temp choice = some (answer, s') at hexec
    have hfiles : s'.files = s.files := by
      unfold Shared.syncAll at hexec
      split at hexec
      · split at hexec
        · cases hexec
        · cases hexec
          rfl
      · cases hexec
        rfl
      · cases hexec
    refine ⟨_, if_pos rfl, fun h => h.keep ?_ nofun nofun nofun, .inl ?_⟩
    · rw [hfiles]
    · rw [hfiles]
  | rename =>
    change s.rename t temp target choice = some (answer, s') at hexec
    unfold Shared.rename at hexec
    split at hexec
    · split at hexec
      · next file hfile =>
          cases hexec
          have hfiles : (s.renamed t temp target file).files = Function.update
              (Function.update s.files temp none) target (some (.regular file)) := by
            unfold Shared.renamed
            dsimp only
            split
            · rfl
            · split <;> rfl
          refine ⟨true, if_pos rfl, fun _ => .settle ?_ (.inl rfl), .inr ⟨rfl, file, hfile, ?_⟩⟩
          · rw [hfiles, Function.update_of_ne hne, Function.update_self]
          · rw [hfiles, Function.update_self]
      · cases hexec
    · cases hexec
      exact ⟨false, if_pos rfl, fun h => h.keep Iff.rfl nofun nofun nofun, .inl rfl⟩
    · cases hexec
  | remove =>
    rcases attempt_cases hexec with ⟨rfl, rfl⟩ | ⟨message, rfl, rfl, -⟩
    · refine ⟨true, if_pos rfl, fun _ => .settle (Function.update_self ..) (.inr rfl), .inl ?_⟩
      exact Function.update_of_ne (Ne.symm hne) _ _
    · exact ⟨false, if_pos rfl, fun h => h.keep Iff.rfl nofun nofun nofun, .inl rfl⟩

end Effects

section Dropping

variable {U : Type} [UrlCrate U] [SemverCrate] [Sha256Crate]

/-- An operation that was handed over is carried out, or it was not handed over. -/
def Landed (self : ProviderStorage) (t : ℕ) (s : Shared U) (op : Op U) (trace : List (Sigma (Res U)))
    (s' : Shared U) : Prop :=
  (trace = [] ∧ s' = s) ∨
    ∃ choice answer, exec self t s op choice = some (answer, s') ∧ trace = [⟨op, answer⟩]

/-- The destructor removes the file. -/
def Removed (self : ProviderStorage) (t : ℕ) (temp : Path) (s : Shared U)
    (trace : List (Sigma (Res U))) (s' : Shared U) : Prop :=
  ∃ choice answer, exec self t s (.removeFile temp) choice = some (answer, s') ∧
    trace = [⟨.removeFile temp, answer⟩]

/-- Both happen, in either order. -/
def Guarded (self : ProviderStorage) (t : ℕ) (temp target : Path) (Good : Option Node → Prop)
    (s : Shared U) (op : Op U) (trace : List (Sigma (Res U))) (s' : Shared U) : Prop :=
  ∃ first second s₁ s₂ s₃, trace = first ++ second ∧ Beside temp target Good s₁ s₂ ∧
    Beside temp target Good s₃ s' ∧
    ((Landed self t s op first s₁ ∧ Removed self t temp s₂ second s₃) ∨
      (Removed self t temp s first s₁ ∧ Landed self t s₂ op second s₃))

/-- A download among other tasks. Between the creation of the file and its rename
the destructor is armed. -/
def among (self : ProviderStorage) (t : ℕ) (temp target : Path) (Good : Option Node → Prop) :
    Setting (Op U) (Res U) (Shared U) (Choice U) where
  exec := exec self t
  rely := Beside temp target Good
  drop s op trace s' :=
    match op with
    | .createNew _ | .writeAll _ _ | .syncAll _ | .rename _ _ =>
      Guarded self t temp target Good s op trace s'
    | .outboundGet _ => ∃ s₁, Removed self t temp s trace s₁ ∧ Beside temp target Good s₁ s'
    | .createDirAll _ | .syncParent _ | .symlinkMetadata _ =>
      ∃ s₁, Landed self t s op trace s₁ ∧ Beside temp target Good s₁ s'
    | .acquirePermit => trace = [] ∧ Beside temp target Good s s'
    | _ => False

variable {self : ProviderStorage} {t : ℕ} {temp target : Path} {Good : Option Node → Prop}
variable {numbers : ℕ × ℕ} {steps : Steps} {s s' : Shared U}

omit [UrlCrate U] [SemverCrate] [Sha256Crate] in
theorem beside_refl (s : Shared U) : Beside temp target Good s s := ⟨rfl, rfl, id⟩

omit [UrlCrate U] [SemverCrate] [Sha256Crate] in
theorem beside_trans {s₁ s₂ s₃ : Shared U} (h : Beside temp target Good s₁ s₂)
    (h' : Beside temp target Good s₂ s₃) : Beside temp target Good s₁ s₃ :=
  ⟨h'.content.trans h.content, h'.unreported.trans h.unreported, fun hgood => h'.target (h.target hgood)⟩

/-- What is known while the file is filled. -/
structure Draft (temp target : Path) (Good : Option Node → Prop) (steps : Steps)
    (p : Option Node → Bool → Prop) (s : Shared U) : Prop where
  tracks : Tracks steps (s.files temp = none)
  unfinished : Unfinished steps
  temp : p (s.files temp) (s.unreported temp)
  target : Good (s.files target)

omit [UrlCrate U] [SemverCrate] [Sha256Crate] in
theorem Draft.beside {p : Option Node → Bool → Prop} (h : Draft temp target Good steps p s)
    (hrely : Beside temp target Good s s') : Draft temp target Good steps p s' := by
  refine ⟨?_, h.unfinished, ?_, hrely.target h.target⟩
  · rw [hrely.content]
    exact h.tracks
  · rw [hrely.content, hrely.unreported]
    exact h.temp

omit [UrlCrate U] [SemverCrate] [Sha256Crate] in
theorem Draft.weaken {p : Option Node → Bool → Prop} (h : Draft temp target Good steps p s) :
    Draft temp target Good steps (fun _ _ => True) s :=
  ⟨h.tracks, h.unfinished, trivial, h.target⟩

/-- How a download ended: what became of its file, and a good target. -/
structure Report {α : Type} (temp target : Path) (Good : Option Node → Prop) (outcome : Option α)
    (steps : Steps) (s : Shared U) : Prop where
  fate : Fate steps (outcome = none) (s.files temp = none)
  target : Good (s.files target)

omit [UrlCrate U] [SemverCrate] [Sha256Crate] in
theorem Report.beside {α : Type} {outcome : Option α} (h : Report temp target Good outcome steps s)
    (hrely : Beside temp target Good s s') : Report temp target Good outcome steps s' := by
  refine ⟨?_, hrely.target h.target⟩
  rw [hrely.content]
  exact h.fate

omit [SemverCrate] in
/-- The removal leaves the target alone, and what is there of the file is the file. -/
theorem removed_effect (steps : Steps) {trace : List (Sigma (Res U))} (hne : temp ≠ target)
    (h : Removed self t temp s trace s') : ∃ success,
      trace.filterMap (watch temp) = [(.remove, success)] ∧
      Effect temp target steps (.remove, success) s s' ∧
      ∀ node, s'.files temp = some node → s.files temp = some node := by
  obtain ⟨choice, answer, hexec, rfl⟩ := h
  obtain ⟨success, hwatch, heffect⟩ := exec_effect steps hne .remove nofun hexec
  refine ⟨success, by simp [hwatch], heffect, fun node hnode => ?_⟩
  rcases attempt_cases hexec with ⟨-, rfl⟩ | ⟨message, -, rfl, -⟩
  · simp at hnode
  · exact hnode

/-- What a rename may put into place. -/
def Sealed (temp : Path) (Good : Option Node → Prop) (s : Shared U) : Prop :=
  ∀ file, s.files temp = some (.regular file) → Good (some (.regular file))

omit [UrlCrate U] [SemverCrate] [Sha256Crate] in
/-- A step keeps the target good. -/
theorem Effect.good {step : TempStep × Bool} (h : Effect temp target steps step s s')
    (hgood : Good (s.files target)) (hsealed : step = (.rename, true) → Sealed temp Good s) :
    Good (s'.files target) := by
  rcases h.target with hsame | ⟨hstep, file, hfile, htarget⟩
  · rw [hsame]
    exact hgood
  · rw [htarget]
    exact hsealed hstep file hfile

omit [SemverCrate] in
/-- What was handed over is a step, or nothing. -/
theorem landed_effect {op : Op U} {step : TempStep} {trace : List (Sigma (Res U))}
    (hne : temp ≠ target) (hop : TempOp temp target op step)
    (hcreate : step = .create → ¬ Created steps) (hsealed : step = .rename → Sealed temp Good s)
    (htracks : Tracks steps (s.files temp = none)) (hgood : Good (s.files target))
    (h : Landed self t s op trace s') :
    Tracks (steps ++ trace.filterMap (watch temp)) (s'.files temp = none) ∧ Good (s'.files target) := by
  rcases h with ⟨rfl, rfl⟩ | ⟨choice, answer, hexec, rfl⟩
  · rw [List.filterMap_nil, List.append_nil]
    exact ⟨htracks, hgood⟩
  · obtain ⟨success, hwatch, heffect⟩ := exec_effect steps hne hop hcreate hexec
    have hstep : [(⟨op, answer⟩ : Sigma (Res U))].filterMap (watch temp) = [(step, success)] := by
      simp [hwatch]
    rw [hstep]
    exact ⟨heffect.tracks htracks, heffect.good hgood fun heq => hsealed (congrArg Prod.fst heq)⟩

omit [SemverCrate] in
/-- A download that is dropped at an operation on its file is reported. -/
theorem guarded_report {α : Type} {op : Op U} {step : TempStep} {trace : List (Sigma (Res U))}
    (hne : temp ≠ target) (hop : TempOp temp target op step)
    (hcreate : step = .create → ¬ Created steps) (hsealed : step = .rename → Sealed temp Good s)
    (htracks : Tracks steps (s.files temp = none)) (hgood : Good (s.files target))
    (h : Guarded self t temp target Good s op trace s') :
    Report temp target Good (none : Option α) (steps ++ trace.filterMap (watch temp)) s' := by
  obtain ⟨first, second, s₁, s₂, s₃, rfl, hmiddle, hlast, ⟨hlanded, hremoved⟩ | ⟨hremoved, hlanded⟩⟩ := h
  · obtain ⟨htracks₁, hgood₁⟩ := landed_effect hne hop hcreate hsealed htracks hgood hlanded
    obtain ⟨success, hwatch, heffect, -⟩ :=
      removed_effect (steps ++ first.filterMap (watch temp)) hne hremoved
    rw [List.filterMap_append, hwatch, ← List.append_assoc]
    rw [← hmiddle.content] at htracks₁
    refine Report.beside ⟨(heffect.tracks htracks₁).fate rfl, ?_⟩ hlast
    exact heffect.good (hmiddle.target hgood₁) nofun
  · obtain ⟨success, hwatch, heffect, hleft⟩ := removed_effect steps hne hremoved
    have htracks₂ : Tracks (steps ++ [(.remove, success)]) (s₂.files temp = none) := by
      rw [hmiddle.content]
      exact heffect.tracks htracks
    have hgood₂ : Good (s₂.files target) := hmiddle.target (heffect.good hgood nofun)
    have hcreate₂ : step = .create → ¬ Created (steps ++ [(.remove, success)]) := by
      intro hstep hcreated
      exact hcreate hstep ((created_append.mp hcreated).resolve_right nofun)
    have hsealed₂ : step = .rename → Sealed temp Good s₂ := by
      intro hstep file hfile
      rw [hmiddle.content] at hfile
      exact hsealed hstep file (hleft _ hfile)
    obtain ⟨htracks₃, hgood₃⟩ := landed_effect hne hop hcreate₂ hsealed₂ htracks₂ hgood₂ hlanded
    rw [List.filterMap_append, hwatch, ← List.append_assoc]
    exact Report.beside ⟨htracks₃.fate rfl, hgood₃⟩ hlast

omit [SemverCrate] in
/-- An operation on the file, in a download that goes on or is dropped there. -/
theorem assured_step {op : Op U} {step : TempStep} {p : Option Node → Bool → Prop}
    {q : Res U op → Option Node → Bool → Prop} {success : Res U op → Bool}
    {Q : Option (Res U op) → Steps → Shared U → Prop} (hne : temp ≠ target)
    (hop : TempOp temp target op step) (hkind : step ≠ .remove)
    (hwatch : ∀ answer, watch temp ⟨op, answer⟩ = some (step, success answer))
    (hcreate : step = .create → ¬ Created steps)
    (hsealed : ∀ s₁ : Shared U, Draft temp target Good steps p s₁ → step = .rename → Sealed temp Good s₁)
    (hs : Draft temp target Good steps p s)
    (heffect : ∀ s₁ choice answer s₂, p (s₁.files temp) (s₁.unreported temp) →
      exec self t s₁ op choice = some (answer, s₂) → q answer (s₂.files temp) (s₂.unreported temp))
    (hQ : ∀ answer s', Tracks (steps ++ [(step, success answer)]) (s'.files temp = none) →
      q answer (s'.files temp) (s'.unreported temp) → Good (s'.files target) →
        Q (some answer) (steps ++ [(step, success answer)]) s')
    (hdropped : ∀ steps s', Report temp target Good (none : Option (Res U op)) steps s' →
      Q none steps s') :
    Assured (among self t temp target Good) (watch temp) (Drawn numbers)
      (.call op .done : Code U (Res U op)) steps s Q := by
  refine assured_call (fun s₁ choice answer s₂ hrely hexec _ => ?_) fun s₁ trace s' hrely hdrop => ?_
  · have hs₁ := hs.beside hrely
    obtain ⟨success', hwatch', heff⟩ := exec_effect steps hne hop hcreate hexec
    rw [hwatch answer] at hwatch'
    cases hwatch'
    rw [hwatch answer]
    refine assured_done fun s' hrely' => hQ answer s' ?_ ?_ ?_
    · rw [hrely'.content]
      exact heff.tracks hs₁.tracks
    · rw [hrely'.content, hrely'.unreported]
      exact heffect s₁ choice answer s₂ hs₁.temp hexec
    · refine hrely'.target (heff.good hs₁.target fun heq => ?_)
      exact hsealed s₁ hs₁ (congrArg Prod.fst heq)
  · have hs₁ := hs.beside hrely
    have hguarded : Guarded self t temp target Good s₁ op trace s' := by
      cases hop with
      | remove => exact absurd rfl hkind
      | _ => exact hdrop
    exact hdropped _ s' (guarded_report hne hop hcreate (hsealed s₁ hs₁) hs₁.tracks hs₁.target hguarded)

/-- Operations that leave all files alone. -/
inductive Quiet : Op U → Prop
  | enterDownload : Quiet .enterDownload
  | acquirePermit : Quiet .acquirePermit
  | releasePermit : Quiet .releasePermit
  | createDirAll (dir : Path) : Quiet (.createDirAll dir)
  | nextSequence : Quiet .nextSequence
  | processId : Quiet .processId
  | outboundGet (url : U) : Quiet (.outboundGet url)
  | syncParent (dir : Path) : Quiet (.syncParent dir)
  | symlinkMetadata (path : Path) : Quiet (.symlinkMetadata path)
  | recordVerified (path : Path) (identity : FileIdentity) (checksum : String) :
      Quiet (.recordVerified path identity checksum)

omit [UrlCrate U] [SemverCrate] [Sha256Crate] in
theorem beside_of_files (hfiles : s'.files = s.files) (hreported : s'.unreported = s.unreported) :
    Beside temp target Good s s' := by
  refine ⟨by rw [hfiles], by rw [hreported], fun hgood => ?_⟩
  rw [hfiles]
  exact hgood

omit [UrlCrate U] [SemverCrate] [Sha256Crate] in
theorem beside_note (s : Shared U) (t : ℕ) (event : ProviderArchiveKey → ℕ → Event) :
    Beside temp target Good s (s.note t event) := by
  unfold Shared.note
  split
  · exact beside_refl s
  · exact beside_of_files rfl rfl

omit [UrlCrate U] [SemverCrate] [Sha256Crate] in
theorem beside_always {α : Type} {result : α × Shared U} {choice : Choice U} {answer : α}
    (hresult : Beside temp target Good s result.2) (h : always result choice = some (answer, s')) :
    Beside temp target Good s s' := by
  unfold always at h
  split at h
  · cases h
    exact hresult
  · cases h

omit [SemverCrate] in
theorem exec_quiet {op : Op U} {choice : Choice U} {answer : Res U op} (hop : Quiet op)
    (h : exec self t s op choice = some (answer, s')) : Beside temp target Good s s' := by
  have hattempt : ∀ {result}, s.attempt s choice = some (result, s') → Beside temp target Good s s' := by
    intro result h
    rcases attempt_cases h with ⟨-, rfl⟩ | ⟨message, -, rfl, -⟩
    · exact beside_refl _
    · exact beside_refl _
  cases hop with
  | enterDownload => exact beside_always (beside_note s t .entered) h
  | acquirePermit =>
    change eventually _ choice = some (answer, s') at h
    unfold eventually at h
    split at h
    · split at h
      · cases h
        exact beside_of_files rfl rfl
      · cases h
    · cases h
  | releasePermit => exact beside_always (beside_of_files rfl rfl) h
  | createDirAll dir => exact hattempt h
  | nextSequence => exact beside_always (beside_of_files rfl rfl) h
  | processId => exact beside_always (beside_refl s) h
  | outboundGet url =>
    change s.outboundGet self.outbound t url choice = some (answer, s') at h
    unfold Shared.outboundGet at h
    split at h
    · split at h
      · cases h
      · cases h
        exact beside_trans (beside_note s t .requested) (beside_of_files rfl rfl)
    · cases h
  | syncParent dir => exact hattempt h
  | symlinkMetadata path =>
    change s.symlinkMetadata t path choice = some (answer, s') at h
    unfold Shared.symlinkMetadata at h
    split at h
    · split at h
      · cases h
        exact beside_refl _
      · cases h
        exact beside_of_files rfl rfl
      · cases h
        exact beside_refl _
    · cases h
      exact beside_refl _
    · cases h
  | recordVerified path identity checksum => exact beside_always (beside_of_files rfl rfl) h

omit [UrlCrate U] [SemverCrate] [Sha256Crate] in
theorem watch_quiet {op : Op U} (hop : Quiet op) (answer : Res U op) :
    watch temp ⟨op, answer⟩ = none := by
  cases hop <;> rfl

omit [SemverCrate] in
/-- A quiet operation, in a download that goes on or is dropped there. The
destructor is armed only while the request is under way. -/
theorem assured_quiet {op : Op U} {Q : Option (Res U op) → Steps → Shared U → Prop}
    (hop : Quiet op) (hrequest : ∀ url, op ≠ .outboundGet url)
    (hQ : ∀ answer s', Drawn numbers ⟨op, answer⟩ → Beside temp target Good s s' →
      Q (some answer) steps s')
    (hdropped : ∀ s', Beside temp target Good s s' → Q none steps s') :
    Assured (among self t temp target Good) (watch temp) (Drawn numbers)
      (.call op .done : Code U (Res U op)) steps s Q := by
  refine assured_call (fun s₁ choice answer s₂ hrely hexec hdrawn => ?_) fun s₁ trace s' hrely hdrop => ?_
  · have hafter : Beside temp target Good s s₂ := beside_trans hrely (exec_quiet hop hexec)
    rw [watch_quiet hop]
    refine assured_done fun s' hrely' => ?_
    simpa using hQ answer s' hdrawn (beside_trans hafter hrely')
  · have hlanded : ∀ {s₂}, Landed self t s₁ op trace s₂ → Beside temp target Good s₂ s' →
        Q none (steps ++ trace.filterMap (watch temp)) s' := by
      intro s₂ hlanded hrely'
      rcases hlanded with ⟨rfl, rfl⟩ | ⟨choice, answer, hexec, rfl⟩
      · simpa using hdropped s' (beside_trans hrely hrely')
      · have hafter : Beside temp target Good s s₂ := beside_trans hrely (exec_quiet hop hexec)
        have hwatch : [(⟨op, answer⟩ : Sigma (Res U))].filterMap (watch temp) = [] := by
          simp [watch_quiet hop]
        rw [hwatch, List.append_nil]
        exact hdropped s' (beside_trans hafter hrely')
    cases hop with
    | outboundGet url => exact absurd rfl (hrequest url)
    | acquirePermit =>
      obtain ⟨rfl, hrely'⟩ := hdrop
      exact hlanded (.inl ⟨rfl, rfl⟩) hrely'
    | createDirAll dir =>
      obtain ⟨s₂, hlanding, hrely'⟩ := hdrop
      exact hlanded hlanding hrely'
    | syncParent dir =>
      obtain ⟨s₂, hlanding, hrely'⟩ := hdrop
      exact hlanded hlanding hrely'
    | symlinkMetadata path =>
      obtain ⟨s₂, hlanding, hrely'⟩ := hdrop
      exact hlanded hlanding hrely'
    | _ => exact hdrop.elim

omit [SemverCrate] in
/-- The request, during which the destructor is armed. -/
theorem assured_outboundGet {url : U} {p : Option Node → Bool → Prop}
    {Q : Option (Except OutboundError (Response U)) → Steps → Shared U → Prop} (hne : temp ≠ target)
    (hs : Draft temp target Good steps p s)
    (hQ : ∀ answer s', Draft temp target Good steps p s' → Q (some answer) steps s')
    (hdropped : ∀ steps s', Report temp target Good
      (none : Option (Except OutboundError (Response U))) steps s' → Q none steps s') :
    Assured (among self t temp target Good) (watch temp) (Drawn numbers) (outboundGet url) steps s
      Q := by
  refine assured_call (fun s₁ choice answer s₂ hrely hexec _ => ?_) fun s₁ trace s' hrely hdrop => ?_
  · have hafter : Beside temp target Good s s₂ :=
      beside_trans hrely (exec_quiet (.outboundGet url) hexec)
    rw [watch_quiet (.outboundGet url)]
    refine assured_done fun s' hrely' => ?_
    simpa using hQ answer s' (hs.beside (beside_trans hafter hrely'))
  · obtain ⟨s₂, hremoved, hrely'⟩ := hdrop
    have hs₁ := hs.beside hrely
    obtain ⟨success, hwatch, heffect, -⟩ := removed_effect steps hne hremoved
    rw [hwatch]
    refine hdropped _ s' (Report.beside ⟨(heffect.tracks hs₁.tracks).fate rfl, ?_⟩ hrely')
    exact heffect.good hs₁.target nofun

omit [SemverCrate] in
/-- An operation with `?`, at the end. -/
theorem assured_io {α : Type} {program : Code U (Except IoError α)}
    {Q : Option (Except ProviderStorageError α) → Steps → Shared U → Prop}
    (h : Assured (among self t temp target Good) (watch temp) (Drawn numbers) program steps s
      fun outcome steps s₁ =>
        match outcome with
        | some (.ok value) => ∀ s', Beside temp target Good s₁ s' → Q (some (.ok value)) steps s'
        | some (.error error) => ∀ s', Beside temp target Good s₁ s' →
            Q (some (.error (.io error))) steps s'
        | none => Q none steps s₁) :
    Assured (among self t temp target Good) (watch temp) (Drawn numbers) (io program).run steps s
      Q := by
  refine assured_bind beside_refl (assured_mono h fun outcome steps s₁ hprogram => ?_)
  match outcome with
  | some (.ok value) => exact assured_done hprogram
  | some (.error error) => exact assured_done hprogram
  | none => exact hprogram

omit [SemverCrate] in
/-- An operation with `?`. -/
theorem assured_io_bind {α β : Type} {program : Code U (Except IoError α)} {next : α → Task U β}
    {Q : Option (Except ProviderStorageError β) → Steps → Shared U → Prop}
    (h : Assured (among self t temp target Good) (watch temp) (Drawn numbers) program steps s
      fun outcome steps s₁ =>
        match outcome with
        | some (.ok value) => ∀ s', Beside temp target Good s₁ s' →
            Assured (among self t temp target Good) (watch temp) (Drawn numbers) (next value).run steps
              s' Q
        | some (.error error) => ∀ s', Beside temp target Good s₁ s' →
            Q (some (.error (.io error))) steps s'
        | none => Q none steps s₁) :
    Assured (among self t temp target Good) (watch temp) (Drawn numbers) (io program >>= next).run
      steps s Q := by
  refine assured_run_bind beside_refl (assured_io (assured_mono h fun outcome steps s₁ hprogram => ?_))
  match outcome with
  | some (.ok value) => exact hprogram
  | some (.error error) =>
    exact fun s' hrely s'' hrely' => hprogram s'' (beside_trans hrely hrely')
  | none => exact hprogram

omit [UrlCrate U] [SemverCrate] [Sha256Crate] in
/-- Dropped there, whatever would have been returned. -/
theorem Report.dropped {α β : Type} {outcome : Option α} (h : Report temp target Good outcome steps s) :
    Report temp target Good (none : Option β) steps s :=
  ⟨by simpa using h.fate.of_drop, h.target⟩

/-- The file has what was hashed, or the failure of a write will be reported. -/
def Filled (hashed : Bytes) (content : Option Node) (unreported : Bool) : Prop :=
  ∃ file, content = some (.regular file) ∧ (unreported = false → file.bytes = hashed)

omit [SemverCrate] in
/-- The loop over the body: what was hashed is what was written. -/
theorem assured_receive (hne : temp ≠ target) (chunks : List (Except RequestError Bytes))
    (total : ℕ) (hashed : Bytes) (hs : Draft temp target Good steps (Filled hashed) s) :
    Assured (among self t temp target Good) (watch temp) (Drawn numbers)
      (receive self temp chunks total hashed).run steps s fun outcome steps s' =>
        match outcome with
        | some (.ok all) => Draft temp target Good steps (Filled all) s'
        | some (.error _) => Draft temp target Good steps (fun _ _ => True) s'
        | none => Report temp target Good (none : Option Unit) steps s' := by
  induction chunks generalizing steps s total hashed with
  | nil => exact assured_done fun s' hrely => hs.beside hrely
  | cons chunk rest ih =>
    cases chunk with
    | error error => exact assured_done fun s' hrely => hs.weaken.beside hrely
    | ok chunk =>
      unfold receive
      dsimp only
      split
      · exact assured_done fun s' hrely => hs.weaken.beside hrely
      · have hwatch : ∀ answer : Res U (.writeAll temp chunk),
            watch temp ⟨.writeAll temp chunk, answer⟩ = some (.write, Except.isOk answer) :=
          fun _ => if_pos rfl
        have hunfinished : ∀ success, Unfinished (steps ++ [(.write, success)]) :=
          fun success => hs.unfinished.step (.write, success) (fun h => by cases h) fun h => by cases h
        refine assured_io_bind (assured_step (q := fun (answer : Res U (.writeAll temp chunk))
          content unreported => answer = (.ok () : Except IoError Unit) →
            Filled (hashed ++ chunk) content unreported) hne
          (.write chunk) (fun h => by cases h) hwatch (fun h => by cases h) (fun _ _ h => by cases h) hs
          ?_ ?_ ?_)
        · intro s₁ choice answer s₂ hbefore hexec hok
          obtain ⟨file, hfile, hbytes⟩ := hbefore
          subst hok
          obtain ⟨written, unreported, rfl, -, hwritten, -⟩ := write_cases hfile hexec
          refine ⟨_, Function.update_self .., fun hfalse => ?_⟩
          obtain ⟨hreported, rfl, -⟩ := hwritten rfl hfalse
          rw [hbytes hreported]
        · intro answer s' htracks hfilled hgood
          cases answer with
          | ok value =>
            intro s'' hrely
            exact ih _ _ (Draft.beside ⟨htracks, hunfinished true, hfilled rfl, hgood⟩ hrely)
          | error error =>
            intro s'' hrely
            exact Draft.beside ⟨htracks, hunfinished false, trivial, hgood⟩ hrely
        · exact fun steps s' hreport => hreport.dropped

/-- How the part of a download ended in which the destructor is armed: after a
failure it has yet to run. -/
def Armed (temp target : Path) (Good : Option Node → Prop)
    (outcome : Option (Except ProviderStorageError Unit)) (steps : Steps) (s : Shared U) : Prop :=
  match outcome with
  | some (.ok _) => Report temp target Good (some ()) steps s
  | some (.error _) => Draft temp target Good steps (fun _ _ => True) s
  | none => Report temp target Good (none : Option Unit) steps s

omit [UrlCrate U] [SemverCrate] [Sha256Crate] in
theorem Armed.beside {outcome : Option (Except ProviderStorageError Unit)}
    (h : Armed temp target Good outcome steps s) (hrely : Beside temp target Good s s') :
    Armed temp target Good outcome steps s' := by
  match outcome with
  | some (.ok value) => exact Report.beside h hrely
  | some (.error error) => exact Draft.beside h hrely
  | none => exact Report.beside h hrely

omit [SemverCrate] in
/-- A complete file is synced and renamed. -/
theorem assured_seal {all : Bytes} (hne : temp ≠ target)
    (hgood : ∀ file : File, file.bytes = all → Good (some (.regular file)))
    (hs : Draft temp target Good steps (Filled all) s) :
    Assured (among self t temp target Good) (watch temp) (Drawn numbers)
      (do
        io (syncAll temp)
        io (rename temp target) : Task U Unit).run steps s (Armed temp target Good) := by
  have hsync : ∀ answer : Res U (.syncAll temp),
      watch temp ⟨.syncAll temp, answer⟩ = some (.sync, Except.isOk answer) := fun _ => if_pos rfl
  have hrename : ∀ answer : Res U (.rename temp target),
      watch temp ⟨.rename temp target, answer⟩ = some (.rename, Except.isOk answer) := fun _ => if_pos rfl
  have hsynced : ∀ success, Unfinished (steps ++ [(.sync, success)]) :=
    fun success => hs.unfinished.step (.sync, success) nofun nofun
  refine assured_io_bind (assured_step (q := fun (answer : Res U (.syncAll temp)) content unreported =>
    answer = (.ok () : Except IoError Unit) → Filled all content unreported ∧ unreported = false) hne .sync
    nofun hsync nofun nofun hs ?_ ?_ fun steps s' hreport => hreport.dropped)
  · intro s₁ choice answer s₂ hfilled hexec hok
    subst hok
    change s₁.syncAll temp choice = some (.ok (), s₂) at hexec
    unfold Shared.syncAll at hexec
    split at hexec
    · split at hexec
      · cases hexec
      · next hreported =>
          cases hexec
          exact ⟨hfilled, by simpa using hreported⟩
    · cases hexec
    · cases hexec
  intro answer s₁ htracks hfilled hgood₁
  cases answer with
  | error error => exact fun s' hrely => Draft.beside ⟨htracks, hsynced false, trivial, hgood₁⟩ hrely
  | ok value =>
    intro s₂ hrely
    have hs₂ : Draft temp target Good (steps ++ [(.sync, true)])
        (fun content unreported => Filled all content unreported ∧ unreported = false) s₂ :=
      Draft.beside ⟨htracks, hsynced true, hfilled rfl, hgood₁⟩ hrely
    refine assured_io (assured_step (q := fun _ _ _ => True) hne .rename nofun hrename nofun ?_ hs₂
      (fun _ _ _ _ _ _ => trivial) ?_ fun steps s' hreport => hreport.dropped)
    · intro s₃ hs₃ _ file hfile
      obtain ⟨⟨file', hfile', hbytes⟩, hreported⟩ := hs₃.temp
      have hsame : file' = file := by
        rw [hfile] at hfile'
        cases hfile'
        rfl
      rw [hsame] at hbytes
      exact hgood file (hbytes hreported)
    · intro answer s₃ htracks₃ _ hgood₃
      cases answer with
      | error error =>
        have hunrenamed : Unfinished (steps ++ [(.sync, true)] ++ [(.rename, false)]) :=
          hs₂.unfinished.step (.rename, false) nofun nofun
        exact fun s' hrely => Draft.beside ⟨htracks₃, hunrenamed, trivial, hgood₃⟩ hrely
      | ok value =>
        exact fun s' hrely => Report.beside ⟨hs₂.unfinished.fate_renamed htracks₃, hgood₃⟩ hrely

omit [SemverCrate] in
/-- Once the file is created, it is filled, synced and renamed. -/
theorem assured_fillTemp {url : U} {expected : String} (hne : temp ≠ target)
    (hgood : ∀ file : File, sha256Hex file.bytes = expected → Good (some (.regular file)))
    (hs : Good (s.files target)) :
    Assured (among self t temp target Good) (watch temp) (Drawn numbers)
      (fillTemp self url expected temp target).run [] s (Armed temp target Good) := by
  have hs₀ : Draft temp target Good [] (fun _ _ => True) s :=
    ⟨fun hcreated => by simp [Created] at hcreated, ⟨by simp, by simp⟩, trivial, hs⟩
  have hcreate : ∀ answer : Res U (.createNew temp),
      watch temp ⟨.createNew temp, answer⟩ = some (.create, Except.isOk answer) := fun _ => if_pos rfl
  have hmade : ∀ success, Unfinished ([] ++ [(.create, success)]) :=
    fun success => hs₀.unfinished.step (.create, success) (fun h => by cases h) fun h => by cases h
  unfold fillTemp
  refine assured_io_bind (assured_step (q := fun (answer : Res U (.createNew temp)) content unreported =>
    answer = (.ok () : Except IoError Unit) → Filled [] content unreported) hne .create
    (fun h => by cases h) hcreate (fun _ => by simp [Created]) (fun _ _ h => by cases h) hs₀ ?_ ?_ fun
    steps s' hreport => hreport.dropped)
  · intro s₁ choice answer s₂ _ hexec hok
    subst hok
    change s₁.createNew temp choice = some (.ok (), s₂) at hexec
    unfold Shared.createNew at hexec
    split at hexec
    · split at hexec
      · cases hexec
      · cases hexec
        exact ⟨_, Function.update_self .., fun _ => rfl⟩
    · cases hexec
    · cases hexec
  intro answer s₁ htracks hfilled hgood₁
  cases answer with
  | error error => exact fun s' hrely => Draft.beside ⟨htracks, hmade false, trivial, hgood₁⟩ hrely
  | ok made =>
    intro s₂ hrely
    have hs₂ : Draft temp target Good ([] ++ [(.create, true)]) (Filled []) s₂ :=
      Draft.beside ⟨htracks, hmade true, hfilled rfl, hgood₁⟩ hrely
    refine assured_lift_bind beside_refl (assured_outboundGet hne hs₂ ?_
      fun steps s' hreport => hreport.dropped)
    intro answer s₃ hs₃
    cases answer with
    | error error => exact assured_done fun s' hrely => hs₃.weaken.beside hrely
    | ok response =>
      dsimp only
      split
      · exact assured_done fun s' hrely => hs₃.weaken.beside hrely
      · split
        · exact assured_done fun s' hrely => hs₃.weaken.beside hrely
        · refine assured_run_bind beside_refl (assured_mono (assured_receive hne _ _ _ hs₃) ?_)
          intro outcome steps s₄ hreceived
          cases outcome with
          | none => exact hreceived.dropped
          | some result =>
            cases result with
            | error error => exact fun s' hrely => Draft.beside hreceived hrely
            | ok all =>
              dsimp only
              split
              · exact assured_done fun s' hrely => (Draft.weaken hreceived).beside hrely
              · next hdigest =>
                  refine assured_seal hne (fun file hbytes => hgood file ?_) hreceived
                  rw [hbytes]
                  exact not_not.mp hdigest

omit [SemverCrate] in
/-- After a failure the destructor removes the file. -/
theorem assured_withTempCleanup {body : Task U Unit} (hne : temp ≠ target)
    (h : Assured (among self t temp target Good) (watch temp) (Drawn numbers) body.run steps s
      (Armed temp target Good)) :
    Assured (among self t temp target Good) (watch temp) (Drawn numbers)
      (withTempCleanup temp body).run steps s (Report temp target Good) := by
  refine assured_bind beside_refl (assured_mono h fun outcome steps s₁ harmed => ?_)
  match outcome with
  | none => exact harmed.dropped
  | some (.ok value) =>
    exact assured_done fun s' hrely => Report.beside ⟨by simpa using harmed.fate, harmed.target⟩ hrely
  | some (.error error) =>
    have hdraft : Draft temp target Good steps (fun _ _ => True) s₁ := harmed
    refine assured_call (fun s₂ choice answer s₃ hrely hexec _ => ?_) fun s₂ trace s' _ hdrop => hdrop.elim
    have hs₂ := hdraft.beside hrely
    change exec self t s₂ (.removeFile temp) choice = some (answer, s₃) at hexec
    obtain ⟨success, hwatch, heffect⟩ := exec_effect steps hne .remove nofun hexec
    rw [hwatch]
    refine assured_done fun s' hrely' => Report.beside ⟨?_, ?_⟩ hrely'
    · exact hs₂.unfinished.fate_removed (heffect.tracks hs₂.tracks)
    · exact heffect.good hs₂.target nofun

omit [SemverCrate] in
/-- What follows the rename leaves it as it is. -/
theorem assured_publish {expected : String} {parent : Path}
    (hs : Report temp target Good (some ()) steps s) :
    Assured (among self t temp target Good) (watch temp) (Drawn numbers)
      (publish expected parent target).run steps s (Report temp target Good) := by
  have hdone : ∀ (value : Except ProviderStorageError Unit) {s₁ : Shared U}, Beside temp target Good s s₁ →
      Report temp target Good (some value) steps s₁ := by
    intro value s₁ hrely
    exact Report.beside ⟨by simpa using hs.fate, hs.target⟩ hrely
  unfold publish
  refine assured_io_bind (assured_quiet (.syncParent parent) nofun ?_
    fun s' hrely => (hs.beside hrely).dropped)
  intro answer s₁ _ hrely₁
  cases answer with
  | error error => exact fun s' hrely => hdone _ (beside_trans hrely₁ hrely)
  | ok value =>
    intro s₂ hrely₂
    have hafter : Beside temp target Good s s₂ := beside_trans hrely₁ hrely₂
    refine assured_lift_bind beside_refl (assured_quiet (.symlinkMetadata target) nofun ?_
      fun s' hrely => (hs.beside (beside_trans hafter hrely)).dropped)
    intro answer s₃ _ hrely₃
    cases answer with
    | error error =>
      have hafter₃ : Beside temp target Good s s₃ := beside_trans hafter hrely₃
      exact assured_done fun s' hrely => hdone _ (beside_trans hafter₃ hrely)
    | ok metadata =>
      have hafter₃ : Beside temp target Good s s₃ := beside_trans hafter hrely₃
      dsimp only
      split
      · refine assured_lift_bind beside_refl (assured_quiet
          (.recordVerified target metadata.identity expected) nofun ?_ fun s' hrely => (hs.beside (beside_trans hafter₃ hrely)).dropped)
        intro answer s₄ _ hrely₄
        exact assured_done fun s' hrely => hdone _ (beside_trans (beside_trans hafter₃ hrely₄) hrely)
      · exact assured_done fun s' hrely => hdone _ (beside_trans hafter₃ hrely)

omit [UrlCrate U] [SemverCrate] [Sha256Crate] in
/-- Without any step with the file there is nothing to clean up. -/
theorem report_uncreated {α : Type} {outcome : Option α} (hs : Good (s.files target)) :
    Report temp target Good outcome [] s :=
  ⟨.uncreated (by simp [Created]), hs⟩

omit [SemverCrate] in
theorem assured_downloadPermitted {key : ProviderArchiveKey} {url : U} {expected : String}
    (htemp : temp = target.dropLast ++ [tempName key.filename numbers.2 numbers.1]) (hne : temp ≠ target)
    (hgood : ∀ file : File, sha256Hex file.bytes = expected → Good (some (.regular file)))
    (hs : Good (s.files target)) :
    Assured (among self t temp target Good) (watch temp) (Drawn numbers)
      (downloadPermitted self key url expected target).run [] s (Report temp target Good) := by
  unfold downloadPermitted
  refine assured_io_bind (assured_quiet (.createDirAll target.dropLast) nofun ?_
    fun s' hrely => report_uncreated (hrely.target hs))
  intro answer s₁ _ hrely₁
  have hs₁ := hrely₁.target hs
  cases answer with
  | error error => exact fun s' hrely => report_uncreated (hrely.target hs₁)
  | ok value =>
    intro s₂ hrely₂
    have hs₂ := hrely₂.target hs₁
    refine assured_lift_bind beside_refl (assured_quiet .nextSequence nofun ?_
      fun s' hrely => report_uncreated (hrely.target hs₂))
    intro sequence s₃ hsequence hrely₃
    have hs₃ := hrely₃.target hs₂
    refine assured_lift_bind beside_refl (assured_quiet .processId nofun ?_
      fun s' hrely => report_uncreated (hrely.target hs₃))
    intro pid s₄ hpid hrely₄
    have hs₄ := hrely₄.target hs₃
    have hsame : target.dropLast ++ [tempName key.filename pid sequence] = temp := by
      rw [htemp, ← hsequence.1 sequence rfl, ← hpid.2 pid rfl]
    dsimp only
    rw [hsame]
    refine assured_run_bind beside_refl (assured_mono
      (assured_withTempCleanup hne (assured_fillTemp hne hgood hs₄)) fun outcome steps s₅ hreport => ?_)
    match outcome with
    | none => exact hreport.dropped
    | some (.error error) => exact fun s' hrely => hreport.beside hrely
    | some (.ok value) => exact assured_publish ⟨by simpa using hreport.fate, hreport.target⟩

omit [SemverCrate] in
/-- However `download` ends: what became of its file, and a good target. -/
theorem assured_download {key : ProviderArchiveKey} {metadata : PlatformMetadata} {expected : String}
    (htemp : temp = target.dropLast ++ [tempName key.filename numbers.2 numbers.1]) (hne : temp ≠ target)
    (hgood : ∀ file : File, sha256Hex file.bytes = expected → Good (some (.regular file)))
    (hs : Good (s.files target)) :
    Assured (among self t temp target Good) (watch temp) (Drawn numbers)
      (download self key metadata expected target : Task U Unit).run [] s (Report temp target Good) := by
  unfold download
  refine assured_lift_bind beside_refl (assured_quiet .enterDownload nofun ?_
    fun s' hrely => report_uncreated (hrely.target hs))
  intro _ s₁ _ hrely₁
  have hs₁ := hrely₁.target hs
  dsimp only
  split
  · exact assured_done fun s' hrely => report_uncreated (hrely.target hs₁)
  · refine assured_bind beside_refl (assured_quiet .acquirePermit nofun ?_
      fun s' hrely => report_uncreated (hrely.target hs₁))
    intro _ s₂ _ hrely₂
    have hs₂ := hrely₂.target hs₁
    refine assured_bind beside_refl (assured_mono (assured_downloadPermitted htemp hne hgood hs₂) ?_)
    intro outcome steps s₃ hreport
    cases outcome with
    | none => exact hreport
    | some result =>
      refine assured_bind beside_refl (assured_quiet .releasePermit nofun ?_
        fun s' hrely => (hreport.beside hrely).dropped)
      intro _ s₄ _ hrely₄
      exact assured_done fun s' hrely => (hreport.beside hrely₄).beside hrely

/-- The temporary file of a download that draws these numbers. -/
def archiveTemp (self : ProviderStorage) (key : ProviderArchiveKey) (numbers : ℕ × ℕ) : Path :=
  (self.archivePath key).dropLast ++ [tempName key.filename numbers.2 numbers.1]

omit [UrlCrate U] in
/-- In a run of the store the others leave the file alone. -/
theorem beside_of_frame {focus : Focus} (hframe : Frame self focus t s s') (howns : Owns self t temp s)
    (hgood : Good (s.files target) → Good (s'.files target)) : Beside temp target Good s s' := by
  obtain ⟨-, hcontent, hunreported⟩ := hframe.temps temp howns
  exact ⟨hcontent, hunreported, hgood⟩

end Dropping

section Runs

/-- The index of the plain service. -/
def plainDocument : MetadataService.Document := .index plainProvider 0 (plainIndex 100 ["1.0.0"])

/-- The task has ended as a dropped one. -/
def wasDropped
    (c : Config MetadataService.Op MetadataService.Res MetadataMachine.Out MetadataMachine.Shared) (t : ℕ) : Bool :=
  match c.tasks t with
  | some (.done .dropped) => true
  | _ => false

theorem task_of_wasDropped
    {c : Config MetadataService.Op MetadataService.Res MetadataMachine.Out MetadataMachine.Shared} {t : ℕ}
    (h : wasDropped c t = true) : c.tasks t = some (.done .dropped) := by
  unfold wasDropped at h
  split at h
  · next htask => exact htask
  · cases h

/-- Where the index of the plain service belongs, and its first temporary file. -/
def plainTarget : Path := plainDocument.path (plainService 0)

def plainTemp : Path := documentTemp (plainService 0) plainDocument (0, 7)

/-- The first temporary file of the plain store. -/
def plainArchiveTemp : Path := archiveTemp plainStore plainKey (0, 1)

end Runs
end OpenTfMirror.ArchiveTemps
