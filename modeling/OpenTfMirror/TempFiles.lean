import OpenTfMirror.MetadataExec
import OpenTfMirror.TaskEndings

/-!
# What becomes of a temporary file

The steps that a write takes with its temporary file, and whether the file is
left when the write has ended. `write_json_atomic` removes it after an error of
its own, but has no destructor: when its future is dropped, the file stays.
-/

namespace OpenTfMirror.TempFiles

open TaskProgram TaskEndings FileNames FileStore Outbound Provider Metadata MetadataService
  MetadataMachine MetadataInvariant MetadataSteps MetadataFiles MetadataExec

section Steps

/-- What is done with a temporary file. -/
inductive TempStep where
  | create
  | write
  | sync
  | rename
  | remove
  deriving DecidableEq, Repr

/-- The steps of one write, in order, with their successes. -/
abbrev Steps : Type := List (TempStep × Bool)

def Created (steps : Steps) : Prop := (.create, true) ∈ steps

/-- After its creation the file was renamed or removed. -/
def Settled (steps : Steps) : Prop :=
  ∃ before after, steps = before ++ (.create, true) :: after ∧
    ((.rename, true) ∈ after ∨ (.remove, true) ∈ after)

/-- No removal fails in a write that comes to its end, and one that is dropped
has renamed or removed the file by then. -/
structure Cleaned (steps : Steps) (dropped : Prop) : Prop where
  removed : ¬ dropped → (.remove, false) ∉ steps
  settled : dropped → Settled steps

/-- What became of the file. -/
inductive Fate (steps : Steps) (dropped gone : Prop) : Prop
  | uncreated (h : ¬ Created steps)
  | cleared (hgone : gone) (hremoved : ¬ dropped → (.remove, false) ∉ steps)
      (hsettled : Settled steps)
  | left (hcreated : Created steps) (hgone : ¬ gone) (hunsettled : ¬ Settled steps)
      (h : ¬ dropped → (.remove, false) ∈ steps)

variable {steps : Steps} {dropped gone : Prop}

/-- A file that was created is gone just when the write was cleaned up. -/
theorem Fate.gone_iff (h : Fate steps dropped gone) :
    (Created steps → gone) ↔ (Created steps → Cleaned steps dropped) := by
  cases h with
  | uncreated huncreated =>
    exact ⟨fun _ hcreated => absurd hcreated huncreated, fun _ hcreated => absurd hcreated huncreated⟩
  | cleared hgone hremoved hsettled =>
    exact ⟨fun _ _ => ⟨hremoved, fun _ => hsettled⟩, fun _ _ => hgone⟩
  | left hcreated hleft hunsettled hfails =>
    constructor
    · intro h
      exact absurd (h hcreated) hleft
    · intro h
      have hcleaned := h hcreated
      have hfinished : ¬ dropped := fun hdropped => hunsettled (hcleaned.settled hdropped)
      exact absurd (hfails hfinished) (hcleaned.removed hfinished)

/-- A write that ended in order: the file it created is gone, and the target is
as it should be. -/
structure Tidy (steps : Steps) (gone good : Prop) : Prop where
  temp : Created steps → gone
  target : good

theorem Fate.tidy_iff {good : Prop} (h : Fate steps dropped gone) (hgood : good) :
    Tidy steps gone good ↔ (Created steps → Cleaned steps dropped) := by
  rw [← h.gone_iff]
  exact ⟨fun htidy => htidy.temp, fun hgone => ⟨hgone, hgood⟩⟩

/-- A write that is dropped after its last step leaves what a finished one does. -/
theorem Fate.of_drop (h : Fate steps dropped gone) : Fate steps True gone := by
  cases h with
  | uncreated huncreated => exact .uncreated huncreated
  | cleared hgone hremoved hsettled => exact .cleared hgone (fun h => absurd trivial h) hsettled
  | left hcreated hleft hunsettled hfails =>
    exact .left hcreated hleft hunsettled fun h => absurd trivial h

/-- The file was neither renamed nor removed yet. -/
structure Unfinished (steps : Steps) : Prop where
  unrenamed : (.rename, true) ∉ steps
  unremoved : ∀ success, (.remove, success) ∉ steps

theorem Unfinished.step (h : Unfinished steps) (step : TempStep × Bool)
    (hrename : step ≠ (.rename, true)) (hremove : step.1 ≠ .remove) :
    Unfinished (steps ++ [step]) := by
  constructor
  · intro hmem
    rcases List.mem_append.mp hmem with hmem | hmem
    · exact h.unrenamed hmem
    · exact hrename (List.mem_singleton.mp hmem).symm
  · intro success hmem
    rcases List.mem_append.mp hmem with hmem | hmem
    · exact h.unremoved success hmem
    · exact hremove (congrArg Prod.fst (List.mem_singleton.mp hmem)).symm

/-- The file was created, and is still there. -/
structure Holding (steps : Steps) : Prop extends Unfinished steps where
  created : Created steps

theorem Unfinished.unsettled (h : Unfinished steps) : ¬ Settled steps := by
  rintro ⟨before, after, rfl, hrename | hremove⟩
  · exact h.unrenamed (List.mem_append_right _ (List.mem_cons_of_mem _ hrename))
  · exact h.unremoved true (List.mem_append_right _ (List.mem_cons_of_mem _ hremove))

/-- Any other step keeps it. -/
theorem Holding.step (h : Holding steps) (step : TempStep × Bool) (hrename : step ≠ (.rename, true))
    (hremove : step.1 ≠ .remove) : Holding (steps ++ [step]) :=
  ⟨h.toUnfinished.step step hrename hremove, List.mem_append_left _ h.created⟩

theorem settled_of_created (h : Created steps) {success : TempStep × Bool}
    (hstep : success = (.rename, true) ∨ success = (.remove, true)) : Settled (steps ++ [success]) := by
  obtain ⟨before, after, rfl⟩ := List.append_of_mem h
  refine ⟨before, after ++ [success], by simp, ?_⟩
  rcases hstep with rfl | rfl
  · exact .inl (List.mem_append_right _ (List.mem_singleton_self _))
  · exact .inr (List.mem_append_right _ (List.mem_singleton_self _))

/-- Another step does not settle it. -/
theorem settled_append {step : TempStep × Bool} (hrename : step ≠ (.rename, true))
    (hremove : step ≠ (.remove, true)) : Settled (steps ++ [step]) ↔ Settled steps := by
  constructor
  · rintro ⟨before, after, heq, hmem⟩
    rcases List.eq_nil_or_concat after with rfl | ⟨first, last, rfl⟩
    · simp at hmem
    · rw [List.concat_eq_append] at hmem heq
      have hsplit : steps ++ [step] = (before ++ (.create, true) :: first) ++ [last] := by
        rw [heq]
        simp
      obtain ⟨rfl, hlast⟩ := List.append_inj' hsplit rfl
      cases List.singleton_inj.mp hlast
      refine ⟨before, first, rfl, ?_⟩
      rcases hmem with hmem | hmem
      · rcases List.mem_append.mp hmem with hmem | hmem
        · exact .inl hmem
        · exact absurd (List.mem_singleton.mp hmem).symm hrename
      · rcases List.mem_append.mp hmem with hmem | hmem
        · exact .inr hmem
        · exact absurd (List.mem_singleton.mp hmem).symm hremove
  · rintro ⟨before, after, rfl, hmem⟩
    exact ⟨before, after ++ [step], by simp, hmem.imp (List.mem_append_left _) (List.mem_append_left _)⟩

/-- Neither does a removal that fails. -/
theorem Unfinished.unsettled_of_failed (h : Unfinished steps) :
    ¬ Settled (steps ++ [(.remove, false)]) := by
  have hsame : Settled (steps ++ [(.remove, false)]) ↔ Settled steps := settled_append nofun nofun
  rw [hsame]
  exact h.unsettled

theorem created_append {step : TempStep × Bool} :
    Created (steps ++ [step]) ↔ Created steps ∨ step = (.create, true) := by
  simp [Created, eq_comm]

/-- Once it was created, the file is gone just when it is settled. -/
def Tracks (steps : Steps) (gone : Prop) : Prop := Created steps → (gone ↔ Settled steps)

/-- A write that was dropped has no other duty. -/
theorem Tracks.fate (h : Tracks steps gone) (hdropped : dropped) : Fate steps dropped gone := by
  by_cases hcreated : Created steps
  · by_cases hgone : gone
    · exact .cleared hgone (fun hfinished => absurd hdropped hfinished) ((h hcreated).mp hgone)
    · exact .left hcreated hgone (fun hsettled => hgone ((h hcreated).mpr hsettled))
        fun hfinished => absurd hdropped hfinished
  · exact .uncreated hcreated

theorem Tracks.create (h : ¬ Created steps) (hgone : ¬ gone) :
    Tracks (steps ++ [(.create, true)]) gone := by
  intro _
  have hunsettled : ¬ Settled (steps ++ [(.create, true)]) := by
    have hsame : Settled (steps ++ [(.create, true)]) ↔ Settled steps := settled_append nofun nofun
    rw [hsame]
    rintro ⟨before, after, rfl, -⟩
    exact h (List.mem_append_right _ List.mem_cons_self)
  exact ⟨fun h => absurd h hgone, fun h => absurd h hunsettled⟩

theorem Tracks.settle (hgone : gone) {step : TempStep × Bool}
    (hstep : step = (.rename, true) ∨ step = (.remove, true)) : Tracks (steps ++ [step]) gone := by
  intro hcreated
  have hbefore : Created steps := by
    refine (created_append.mp hcreated).resolve_right fun heq => ?_
    rcases hstep with rfl | rfl
    · cases heq
    · cases heq
  exact ⟨fun _ => settled_of_created hbefore hstep, fun _ => hgone⟩

theorem Tracks.keep {gone' : Prop} (h : Tracks steps gone) (hgone : gone' ↔ gone)
    {step : TempStep × Bool} (hcreate : step ≠ (.create, true)) (hrename : step ≠ (.rename, true))
    (hremove : step ≠ (.remove, true)) : Tracks (steps ++ [step]) gone' := by
  intro hcreated
  have hbefore := (created_append.mp hcreated).resolve_right hcreate
  rw [settled_append hrename hremove, hgone]
  exact h hbefore

/-- A write that has renamed its file has cleaned up. -/
theorem Unfinished.fate_renamed (h : Unfinished steps)
    (htracks : Tracks (steps ++ [(.rename, true)]) gone) :
    Fate (steps ++ [(.rename, true)]) dropped gone := by
  by_cases hcreated : Created steps
  · have hsettled : Settled (steps ++ [(.rename, true)]) := settled_of_created hcreated (.inl rfl)
    refine .cleared ((htracks (List.mem_append_left _ hcreated)).mpr hsettled) (fun _ hmem => ?_) hsettled
    rcases List.mem_append.mp hmem with hmem | hmem
    · exact h.unremoved false hmem
    · cases List.mem_singleton.mp hmem
  · exact .uncreated fun hafter => hcreated ((created_append.mp hafter).resolve_right nofun)

/-- A removal decides what becomes of the file. -/
theorem Unfinished.fate_removed (h : Unfinished steps) {success : Bool}
    (htracks : Tracks (steps ++ [(.remove, success)]) gone) :
    Fate (steps ++ [(.remove, success)]) dropped gone := by
  by_cases hcreated : Created steps
  · have hafter : Created (steps ++ [(.remove, success)]) := List.mem_append_left _ hcreated
    cases success with
    | true =>
      have hsettled : Settled (steps ++ [(.remove, true)]) := settled_of_created hcreated (.inr rfl)
      refine .cleared ((htracks hafter).mpr hsettled) (fun _ hmem => ?_) hsettled
      rcases List.mem_append.mp hmem with hmem | hmem
      · exact h.unremoved false hmem
      · cases List.mem_singleton.mp hmem
    | false =>
      have hunsettled := h.unsettled_of_failed
      refine .left hafter (fun hgone => hunsettled ((htracks hafter).mp hgone)) hunsettled fun _ => ?_
      exact List.mem_append_right _ (List.mem_singleton_self _)
  · exact .uncreated fun hafter => hcreated ((created_append.mp hafter).resolve_right nofun)

end Steps

section Writing

/-- What the others may do meanwhile: they leave the temporary file alone, and the
target as good as it was. -/
structure Beside (temp target : Path) (Good : Option Bytes → Prop) (s s' : Shared) : Prop where
  content : s'.files.lookup temp = s.files.lookup temp
  unreported : s'.unreported temp = s.unreported temp
  target : Good (s.files.lookup target) → Good (s'.files.lookup target)

/-- The step that a file operation takes with the file. -/
def stepWith (temp : Path) : FileOp → Option TempStep
  | .createNew path => if path = temp then some .create else none
  | .writeAll path _ => if path = temp then some .write else none
  | .syncAll path => if path = temp then some .sync else none
  | .rename source _ _ => if source = temp then some .rename else none
  | .removeFile path => if path = temp then some .remove else none
  | .read _ | .createDirAll _ | .syncParent _ => none

/-- The step, with its success. -/
def watch (temp : Path) : Sigma Res → Option (TempStep × Bool)
  | ⟨.file op, answer⟩ => (stepWith temp op).map fun step => (step, Except.isOk answer)
  | _ => none

/-- The sequence number that was drawn, and the process number that was read. -/
def sequenceDrawn : Sigma Res → Option ℕ
  | ⟨.nextSequence, answer⟩ => some answer
  | _ => none

def pidDrawn : Sigma Res → Option ℕ
  | ⟨.processId, answer⟩ => some answer
  | _ => none

/-- They are these. -/
def Drawn (numbers : ℕ × ℕ) (event : Sigma Res) : Prop :=
  (∀ n ∈ sequenceDrawn event, n = numbers.1) ∧ ∀ n ∈ pidDrawn event, n = numbers.2

instance (numbers : ℕ × ℕ) : DecidablePred (Drawn numbers) := fun _ => inferInstanceAs (Decidable (_ ∧ _))

variable (U : Type) [UrlCrate U] [SemverCrate] [JsonCrate]

/-- A write among other requests. An operation that was handed over when the
future is dropped is carried out later, and nothing else happens. -/
def among (self : ProviderMetadataService) (t : ℕ) (temp target : Path)
    (Good : Option Bytes → Prop) : Setting Op Res Shared Choice where
  exec := exec U self t
  rely := Beside temp target Good
  drop s op trace s' :=
    match op with
    | .file op => ∃ issue choice answer s₁, s.fileOp issue op choice = some (answer, s₁) ∧
        Beside temp target Good s₁ s' ∧ trace = [⟨.file op, answer⟩]
    | .resume => trace = [] ∧ Beside temp target Good s s'
    | _ => False

variable {U} {self : ProviderMetadataService} {t : ℕ} {temp target : Path}
variable {Good : Option Bytes → Prop} {numbers : ℕ × ℕ} {steps : Steps} {s : Shared}

omit [SemverCrate] [JsonCrate] in
theorem beside_refl (s : Shared) : Beside temp target Good s s := ⟨rfl, rfl, id⟩

omit [SemverCrate] [JsonCrate] in
theorem beside_trans {s₁ s₂ s₃ : Shared} (h : Beside temp target Good s₁ s₂)
    (h' : Beside temp target Good s₂ s₃) : Beside temp target Good s₁ s₃ :=
  ⟨h'.content.trans h.content, h'.unreported.trans h.unreported, fun hgood => h'.target (h.target hgood)⟩

/-- A file operation is carried out also when its future is dropped. -/
theorem assured_file {op : FileOp}
    {Q : Option (Except IoError Bytes) → Steps → Shared → Prop}
    (h : ∀ s₁ issue choice answer s₂ s', Beside temp target Good s s₁ →
      s₁.fileOp issue op choice = some (answer, s₂) → Beside temp target Good s₂ s' →
      ∀ outcome, (outcome = none ∨ outcome = some answer) →
        Q outcome (steps ++ ((stepWith temp op).map fun step => (step, Except.isOk answer)).toList) s') :
    Assured (among U self t temp target Good) (watch temp) (Drawn numbers) (file op) steps s Q := by
  refine assured_call (fun s₁ choice answer s₂ hrely hexec _ => ?_) fun s₁ trace s' hrely hdrop => ?_
  · have hbase : Beside temp target Good s { s₁ with issued := s₁.issued + 1 } :=
      ⟨hrely.content, hrely.unreported, hrely.target⟩
    refine assured_call (fun s₃ choice' answer' s₄ hrely' hexec' _ => ?_)
      fun s₃ trace s' hrely' hdrop => ?_
    · refine assured_done fun s' hrely'' => ?_
      have hresumed : s₄ = s₃ := by
        cases always_some hexec'
        rfl
      subst hresumed
      have hquiet : steps ++ (watch temp ⟨.file op, answer⟩).toList ++
          (watch temp ⟨.resume, answer'⟩).toList =
            steps ++ ((stepWith temp op).map fun step => (step, Except.isOk answer)).toList := by
        simp [watch]
      rw [hquiet]
      exact h _ _ choice answer s₂ s' hbase hexec (beside_trans hrely' hrely'') _ (.inr rfl)
    · obtain ⟨rfl, hrely''⟩ := hdrop
      rw [List.filterMap_nil, List.append_nil]
      exact h _ _ choice answer s₂ s' hbase hexec (beside_trans hrely' hrely'') _ (.inl rfl)
  · obtain ⟨issue, choice, answer, s₂, hexec, hrely', rfl⟩ := hdrop
    have hwatched : [(⟨.file op, answer⟩ : Sigma Res)].filterMap (watch temp) =
        ((stepWith temp op).map fun step => (step, Except.isOk answer)).toList := by
      cases hstep : stepWith temp op with
      | none => simp [watch, hstep]
      | some step => simp [watch, hstep]
    rw [hwatched]
    exact h s₁ issue choice answer s₂ s' hrely hexec hrely' none (.inl rfl)

/-- What is known of the temporary file, with a good target. -/
structure Draft (temp target : Path) (Good : Option Bytes → Prop) (p : Option Bytes → Bool → Prop)
    (s : Shared) : Prop where
  temp : p (s.files.lookup temp) (s.unreported temp)
  target : Good (s.files.lookup target)

omit [SemverCrate] [JsonCrate] in
theorem Draft.beside {p : Option Bytes → Bool → Prop} {s s' : Shared}
    (h : Draft temp target Good p s) (hrely : Beside temp target Good s s') :
    Draft temp target Good p s' := by
  refine ⟨?_, hrely.target h.target⟩
  rw [hrely.content, hrely.unreported]
  exact h.temp

/-- An operation that is no rename, and does not work on the target. -/
theorem assured_draft {op : FileOp} {p : Option Bytes → Bool → Prop}
    {q : Except IoError Bytes → Option Bytes → Bool → Prop}
    {Q : Option (Except IoError Bytes) → Steps → Shared → Prop}
    (hop : ∀ source target document, op ≠ .rename source target document)
    (htarget : tempOf op ≠ some target) (hs : Draft temp target Good p s)
    (heffect : ∀ (s₁ : Shared) issue choice answer s₂, p (s₁.files.lookup temp) (s₁.unreported temp) →
      s₁.fileOp issue op choice = some (answer, s₂) →
        q answer (s₂.files.lookup temp) (s₂.unreported temp))
    (hQ : ∀ answer outcome s', (outcome = none ∨ outcome = some answer) →
      Draft temp target Good (q answer) s' →
        Q outcome (steps ++ ((stepWith temp op).map fun step => (step, Except.isOk answer)).toList) s') :
    Assured (among U self t temp target Good) (watch temp) (Drawn numbers) (file op) steps s Q := by
  refine assured_file fun s₁ issue choice answer s₂ s' hbefore hexec hafter outcome houtcome => ?_
  have hs₁ := hs.beside hbefore
  have htemp := heffect s₁ issue choice answer s₂ hs₁.temp hexec
  have hgood : Good (s₂.files.lookup target) := by
    obtain ⟨files, unreported, found, rfl, hsame, -⟩ := fileOp_touches hop hexec
    have hlookup : files.lookup target = s₁.files.lookup target := (hsame target htarget).1
    change Good (files.lookup target)
    rw [hlookup]
    exact hs₁.target
  have hs₂ : Draft temp target Good (q answer) s₂ := ⟨htemp, hgood⟩
  exact hQ answer outcome s' houtcome (hs₂.beside hafter)

/-- How a write ended: what became of its file, and a good target. -/
structure Report {α : Type} (temp target : Path) (Good : Option Bytes → Prop) (outcome : Option α)
    (steps : Steps) (s : Shared) : Prop where
  fate : Fate steps (outcome = none) (s.files.lookup temp = none)
  target : Good (s.files.lookup target)

omit [SemverCrate] [JsonCrate] in
theorem Report.beside {α : Type} {outcome : Option α} {s s' : Shared}
    (h : Report temp target Good outcome steps s) (hrely : Beside temp target Good s s') :
    Report temp target Good outcome steps s' := by
  refine ⟨?_, hrely.target h.target⟩
  rw [hrely.content]
  exact h.fate

/-- A file operation with `?`. -/
theorem assured_io_bind {op : FileOp} {α : Type} {next : Bytes → MetadataService.Task α}
    {Q : Option (Except MetadataError α) → Steps → Shared → Prop}
    (h : Assured (among U self t temp target Good) (watch temp) (Drawn numbers) (file op) steps s
      fun outcome steps s₁ =>
        match outcome with
        | some (.ok bytes) =>
          Assured (among U self t temp target Good) (watch temp) (Drawn numbers) (next bytes).run steps s₁
            Q
        | some (.error error) => ∀ s', Beside temp target Good s₁ s' →
            Q (some (.error (.io error))) steps s'
        | none => Q none steps s₁) :
    Assured (among U self t temp target Good) (watch temp) (Drawn numbers) (io op >>= next).run steps s
      Q := by
  rw [Fallible.run_bind]
  change Assured _ _ _ ((file op >>= _) >>= _) steps s Q
  rw [Prog.bind_assoc]
  refine assured_bind beside_refl (assured_mono h fun outcome steps s₁ hfile => ?_)
  cases outcome with
  | none => exact hfile
  | some answer =>
    cases answer with
    | ok bytes => exact hfile
    | error error => exact assured_done hfile

/-- A file operation after whose failure the file is removed. -/
theorem assured_ioOrRemove_bind {op : FileOp} {α : Type} {next : Unit → MetadataService.Task α}
    {Q : Option (Except MetadataError α) → Steps → Shared → Prop}
    (h : Assured (among U self t temp target Good) (watch temp) (Drawn numbers) (file op) steps s
      fun outcome steps s₁ =>
        match outcome with
        | some (.ok _) =>
          Assured (among U self t temp target Good) (watch temp) (Drawn numbers) (next ()).run steps s₁ Q
        | some (.error error) => Assured (among U self t temp target Good) (watch temp) (Drawn numbers)
            (file (.removeFile temp)) steps s₁ fun outcome steps s₂ =>
              match outcome with
              | some _ => ∀ s', Beside temp target Good s₂ s' →
                  Q (some (.error (.io error))) steps s'
              | none => Q none steps s₂
        | none => Q none steps s₁) :
    Assured (among U self t temp target Good) (watch temp) (Drawn numbers)
      (ioOrRemove temp op >>= next).run steps s Q := by
  unfold ioOrRemove
  rw [Fallible.run_bind, Fallible.run_lift_bind, Prog.bind_assoc]
  refine assured_bind beside_refl (assured_mono h fun outcome steps s₁ hfile => ?_)
  cases outcome with
  | none => exact hfile
  | some answer =>
    cases answer with
    | ok bytes => exact hfile
    | error error =>
      dsimp only
      rw [Fallible.run_lift_bind, Prog.bind_assoc]
      refine assured_bind beside_refl (assured_mono hfile fun outcome steps s₂ hremoved => ?_)
      cases outcome with
      | some answer => exact assured_done hremoved
      | none => exact hremoved

/-- The file is there. -/
abbrev Present (content : Option Bytes) (_ : Bool) : Prop := content ≠ none

omit [SemverCrate] [JsonCrate] in
/-- A write that is dropped while it holds the file leaves it. -/
theorem report_dropped {α : Type} (hsteps : Holding steps)
    (hs : Draft temp target Good Present s) :
    Report temp target Good (none : Option α) steps s :=
  ⟨.left hsteps.created hs.temp hsteps.unsettled fun h => absurd rfl h, hs.target⟩

/-- After a failure the file is removed, or left when this fails too. -/
theorem assured_removeFile {α : Type} {error : MetadataError} (hne : temp ≠ target)
    (hsteps : Holding steps) (hs : Draft temp target Good Present s) :
    Assured (among U self t temp target Good) (watch temp) (Drawn numbers) (file (.removeFile temp)) steps
      s fun outcome steps s₁ =>
        match outcome with
        | some _ => ∀ s', Beside temp target Good s₁ s' →
            Report temp target Good (some (.error error : Except MetadataError α)) steps s'
        | none => Report temp target Good (none : Option (Except MetadataError α)) steps s₁ := by
  have htarget : tempOf (.removeFile temp) ≠ some target := fun heq => hne (Option.some.inj heq)
  refine assured_draft (q := fun answer content _ =>
    if Except.isOk answer then content = none else content ≠ none) nofun htarget hs ?_ ?_
  · intro s₁ issue choice answer s₂ hp hexec
    rcases removeFile_cases hexec with ⟨rfl, error, rfl⟩ | ⟨rfl, rfl⟩
    · exact hp
    · exact AList.lookup_erase _ _
  · intro answer outcome s' _ hs'
    have hstep : stepWith temp (.removeFile temp) = some .remove := if_pos rfl
    have hreport : ∀ outcome : Option (Except MetadataError α),
        Report temp target Good outcome (steps ++ [(.remove, Except.isOk answer)]) s' := by
      intro outcome
      cases answer with
      | ok bytes =>
        refine ⟨.cleared hs'.temp (fun _ hmem => ?_) (settled_of_created hsteps.created (.inr rfl)),
          hs'.target⟩
        rcases List.mem_append.mp hmem with hmem | hmem
        · exact hsteps.unremoved false hmem
        · cases List.mem_singleton.mp hmem
      | error error =>
        have hfailed : (TempStep.remove, false) ∈ steps ++ [(TempStep.remove, false)] :=
          List.mem_append_right _ (List.mem_singleton_self _)
        exact ⟨.left (List.mem_append_left _ hsteps.created) hs'.temp hsteps.unsettled_of_failed
          fun _ => hfailed, hs'.target⟩
    rw [hstep]
    cases outcome with
    | some answer' => exact fun s'' hrely => (hreport _).beside hrely
    | none => exact hreport none

/-- A write or a synchronization of the file goes on, or ends the write. -/
theorem assured_kept {op : FileOp} {step : TempStep} {α : Type}
    {next : Unit → MetadataService.Task α} {p q : Option Bytes → Bool → Prop} (hne : temp ≠ target)
    (hop : (∃ bytes, op = .writeAll temp bytes) ∨ op = .syncAll temp)
    (hstep : stepWith temp op = some step) (hkind : step ≠ .rename ∧ step ≠ .remove)
    (hsteps : Holding steps) (hs : Draft temp target Good p s)
    (hpresent : ∀ content unreported, p content unreported → content ≠ none)
    (heffect : ∀ (s₁ : Shared) issue choice bytes s₂, p (s₁.files.lookup temp) (s₁.unreported temp) →
      s₁.fileOp issue op choice = some (.ok bytes, s₂) →
        q (s₂.files.lookup temp) (s₂.unreported temp))
    (hnext : ∀ s', Draft temp target Good (fun content unreported => content ≠ none ∧
        q content unreported) s' →
      Assured (among U self t temp target Good) (watch temp) (Drawn numbers) (next ()).run
        (steps ++ [(step, true)]) s' (Report temp target Good)) :
    Assured (among U self t temp target Good) (watch temp) (Drawn numbers)
      (ioOrRemove temp op >>= next).run steps s (Report temp target Good) := by
  have hrename : ∀ source target document, op ≠ .rename source target document := by
    rintro source target document rfl
    rcases hop with ⟨bytes, heq⟩ | heq
    · cases heq
    · cases heq
  have hown : tempOf op = some temp := by
    rcases hop with ⟨bytes, rfl⟩ | rfl
    · rfl
    · rfl
  have htarget : tempOf op ≠ some target := by
    rw [hown]
    exact fun heq => hne (Option.some.inj heq)
  have hheld : ∀ success, Holding (steps ++ [(step, success)]) := fun success =>
    hsteps.step (step, success) (fun heq => hkind.1 (congrArg Prod.fst heq)) hkind.2
  refine assured_ioOrRemove_bind (assured_draft (q := fun answer content unreported =>
    content ≠ none ∧ ∀ bytes, answer = .ok bytes → q content unreported) hrename htarget hs ?_ ?_)
  · intro s₁ issue choice answer s₂ hp hexec
    refine ⟨fileOp_present hop (hpresent _ _ hp) hexec, fun bytes hok => ?_⟩
    subst hok
    exact heffect s₁ issue choice bytes s₂ hp hexec
  · intro answer outcome s' houtcome hs'
    have hkept : Draft temp target Good Present s' := ⟨hs'.temp.1, hs'.target⟩
    rw [hstep]
    rcases houtcome with rfl | rfl
    · exact report_dropped (hheld _) hkept
    · cases answer with
      | ok bytes => exact hnext s' ⟨⟨hs'.temp.1, hs'.temp.2 bytes rfl⟩, hs'.target⟩
      | error error => exact assured_removeFile hne (hheld false) hkept

/-- The rename puts the file into place, or ends the write. -/
theorem assured_renamed {α : Type} {document : Document} {bytes : Bytes}
    {next : Unit → MetadataService.Task α} (hne : temp ≠ target) (hgood : Good (some bytes))
    (hsteps : Holding steps)
    (hs : Draft temp target Good (fun content _ => content = some bytes) s)
    (hnext : ∀ s', Draft temp target Good (fun content _ => content = none) s' →
      Assured (among U self t temp target Good) (watch temp) (Drawn numbers) (next ()).run
        (steps ++ [(.rename, true)]) s' (Report temp target Good)) :
    Assured (among U self t temp target Good) (watch temp) (Drawn numbers)
      (ioOrRemove temp (.rename temp target document) >>= next).run steps s
      (Report temp target Good) := by
  have hstep : stepWith temp (.rename temp target document) = some .rename := if_pos rfl
  refine assured_ioOrRemove_bind (assured_file fun s₁ issue choice answer s₂ s' hbefore hexec hafter
    outcome houtcome => ?_)
  have hs₁ := hs.beside hbefore
  rw [hstep]
  rcases rename_cases hexec with ⟨rfl, error, rfl⟩ | ⟨content, hcontent, rfl, rfl⟩
  · have hpresent : Draft temp target Good Present s' := by
      refine Draft.beside ⟨?_, hs₁.target⟩ hafter
      rw [Present, hs₁.temp]
      exact nofun
    have hheld : Holding (steps ++ [(.rename, false)]) := hsteps.step (.rename, false) nofun nofun
    rcases houtcome with rfl | rfl
    · exact report_dropped hheld hpresent
    · exact assured_removeFile hne hheld hpresent
  · have hsame : content = bytes := Option.some.inj (hcontent.symm.trans hs₁.temp)
    subst hsame
    have hrenamed : Draft temp target Good (fun content _ => content = none) s' := by
      refine Draft.beside ⟨?_, ?_⟩ hafter
      · change ((s₁.files.erase temp).insert target content).lookup temp = none
        rw [AList.lookup_insert_ne hne, AList.lookup_erase]
      · change Good (((s₁.files.erase temp).insert target content).lookup target)
        rw [AList.lookup_insert]
        exact hgood
    rcases houtcome with rfl | rfl
    · have hremoved : (TempStep.remove, false) ∉ steps ++ [(TempStep.rename, true)] := by
        intro hmem
        rcases List.mem_append.mp hmem with hmem | hmem
        · exact hsteps.unremoved false hmem
        · cases List.mem_singleton.mp hmem
      exact ⟨.cleared hrenamed.temp (fun _ => hremoved) (settled_of_created hsteps.created (.inl rfl)),
        hrenamed.target⟩
    · exact hnext s' hrenamed

/-- An operation without a temporary file. -/
theorem assured_silent {op : FileOp} {p : Option Bytes → Bool → Prop}
    {Q : Option (Except IoError Bytes) → Steps → Shared → Prop} (hop : tempOf op = none)
    (hs : Draft temp target Good p s)
    (hQ : ∀ answer outcome s', (outcome = none ∨ outcome = some answer) →
      Draft temp target Good p s' → Q outcome steps s') :
    Assured (among U self t temp target Good) (watch temp) (Drawn numbers) (file op) steps s Q := by
  have hrename : ∀ source target document, op ≠ .rename source target document := by
    rintro source target document rfl
    cases hop
  have hstep : stepWith temp op = none := by
    cases op <;> first | rfl | cases hop
  refine assured_draft (q := fun _ => p) hrename (by rw [hop]; exact nofun) hs ?_ ?_
  · intro s₁ issue choice answer s₂ hp hexec
    obtain ⟨files, unreported, found, rfl, hsame, -⟩ := fileOp_touches hrename hexec
    obtain ⟨hfiles, hreported⟩ := hsame temp (by rw [hop]; exact nofun)
    change p (files.lookup temp) (unreported temp)
    rw [hfiles, hreported]
    exact hp
  · intro answer outcome s' houtcome hs'
    rw [hstep]
    simpa using hQ answer outcome s' houtcome hs'

/-- A number is drawn, or the process number read. -/
theorem assured_number {op : Op} {p : Option Bytes → Bool → Prop}
    (hop : op = .nextSequence ∨ op = .processId) (hs : Draft temp target Good p s) {Q : Option (Res op) → Steps → Shared → Prop}
    (hQ : ∀ answer s', Drawn numbers ⟨op, answer⟩ → Draft temp target Good p s' →
      Q (some answer) steps s') :
    Assured (among U self t temp target Good) (watch temp) (Drawn numbers)
      (.call op .done : Code (Res op)) steps s Q := by
  refine assured_call (fun s₁ choice answer s₂ hrely hexec hdrawn => ?_) fun s₁ trace s' _ hdrop => ?_
  · refine assured_done fun s' hrely' => ?_
    have hs₂ : Draft temp target Good p s₂ := by
      have hs₁ := hs.beside hrely
      rcases hop with rfl | rfl
      · cases always_some hexec
        exact ⟨hs₁.temp, hs₁.target⟩
      · cases always_some hexec
        exact hs₁
    have hquiet : watch temp ⟨op, answer⟩ = none := by
      rcases hop with rfl | rfl
      · rfl
      · rfl
    rw [hquiet]
    simpa using hQ answer s' hdrawn (hs₂.beside hrely')
  · rcases hop with rfl | rfl
    · exact hdrop.elim
    · exact hdrop.elim

omit [SemverCrate] [JsonCrate] in
/-- Before the file is created there is nothing to clean up. -/
theorem report_uncreated {α : Type} {outcome : Option α} {p : Option Bytes → Bool → Prop}
    (hsteps : ¬ Created steps) (hs : Draft temp target Good p s) :
    Report temp target Good outcome steps s :=
  ⟨.uncreated hsteps, hs.target⟩

/-- The part of a write after the file was created. -/
theorem assured_created {document : Document} {bytes : Bytes} {dir : Path} (hne : temp ≠ target)
    (hgood : Good (some bytes))
    (hs : Draft temp target Good (fun content unreported => content = some [] ∧ unreported = false) s) :
    Assured (among U self t temp target Good) (watch temp) (Drawn numbers)
      (do
        ioOrRemove temp (.writeAll temp bytes)
        ioOrRemove temp (.syncAll temp)
        ioOrRemove temp (.rename temp target document)
        let _ ← io (.syncParent dir)
        return () : MetadataService.Task Unit).run [(.create, true)] s (Report temp target Good) := by
  have hheld : Holding [(.create, true)] :=
    ⟨⟨by simp, by simp⟩, List.mem_singleton_self _⟩
  have hwrite : stepWith temp (.writeAll temp bytes) = some .write := if_pos rfl
  have hsync : stepWith temp (.syncAll temp) = some .sync := if_pos rfl
  refine assured_kept (q := fun content unreported => content = some bytes ∨ unreported = true) hne
    (.inl ⟨bytes, rfl⟩) hwrite ⟨nofun, nofun⟩ hheld hs ?_ ?_ fun s₁ hs₁ => ?_
  · intro content unreported hp
    rw [hp.1]
    exact nofun
  · intro s₁ issue choice written s₂ hp hexec
    exact writeAll_content hp.1 hp.2 hexec
  have hheld₁ := hheld.step (.write, true) nofun nofun
  refine assured_kept (q := fun content _ => content = some bytes) hne (.inr rfl) hsync
    ⟨nofun, nofun⟩ hheld₁ hs₁ ?_ ?_ fun s₂ hs₂ => ?_
  · intro content unreported hp
    exact hp.1
  · intro s₁ issue choice written s₂ hp hexec
    obtain ⟨rfl, hreported⟩ := syncAll_content hexec
    refine hp.2.resolve_right fun hlost => ?_
    rw [hreported] at hlost
    cases hlost
  have hheld₂ := hheld₁.step (.sync, true) nofun nofun
  have hs₂' : Draft temp target Good (fun content _ => content = some bytes) s₂ :=
    ⟨hs₂.temp.2, hs₂.target⟩
  refine assured_renamed hne hgood hheld₂ hs₂' fun s₃ hs₃ => ?_
  have hdone : ∀ {α : Type} (outcome : Option α) s',
      Draft temp target Good (fun content _ => content = none) s' →
      Report temp target Good outcome
        ([(.create, true), (.write, true), (.sync, true), (.rename, true)]) s' := by
    intro α outcome s' hs'
    refine ⟨.cleared hs'.temp (fun _ => by simp) ?_, hs'.target⟩
    exact settled_of_created hheld₂.created (.inl rfl)
  refine assured_io_bind (assured_silent rfl hs₃ fun answer outcome s' houtcome hs' => ?_)
  rcases houtcome with rfl | rfl
  · exact hdone none s' hs'
  · cases answer with
    | ok bytes => exact assured_done fun s'' hrely => hdone _ s'' (hs'.beside hrely)
    | error error => exact fun s'' hrely => hdone _ s'' (hs'.beside hrely)

/-- However `write_json_atomic` ends: what became of its file, and a good target. -/
theorem assured_writeJsonAtomic {document : Document}
    (htemp : temp = tempPath target.dropLast "metadata" numbers.2 numbers.1) (hne : temp ≠ target)
    (hgood : ∀ bytes, document.toVec = .ok bytes → Good (some bytes))
    (hs : Good (s.files.lookup target)) :
    Assured (among U self t temp target Good) (watch temp) (Drawn numbers)
      (writeJsonAtomic target document).run [] s (Report temp target Good) := by
  have huncreated : ¬ Created [] := by simp [Created]
  have hs₀ : Draft temp target Good (fun _ _ => True) s := ⟨trivial, hs⟩
  unfold writeJsonAtomic
  refine assured_io_bind (assured_silent rfl hs₀ fun answer outcome s₁ houtcome hs₁ => ?_)
  rcases houtcome with rfl | rfl
  · exact report_uncreated huncreated hs₁
  cases answer with
  | error error => exact fun s' hrely => report_uncreated huncreated (hs₁.beside hrely)
  | ok made =>
    refine assured_lift_bind beside_refl
      (assured_number (.inl rfl) hs₁ fun sequence s₂ hsequence hs₂ => ?_)
    refine assured_lift_bind beside_refl (assured_number (.inr rfl) hs₂ fun pid s₃ hpid hs₃ => ?_)
    have hsame : tempPath target.dropLast "metadata" pid sequence = temp := by
      rw [htemp, ← hsequence.1 sequence rfl, ← hpid.2 pid rfl]
    dsimp only
    rw [hsame]
    cases hvec : document.toVec with
    | error message => exact assured_done fun s' hrely => report_uncreated huncreated (hs₃.beside hrely)
    | ok bytes =>
      have htarget : tempOf (.createNew temp) ≠ some target := fun heq => hne (Option.some.inj heq)
      have hstep : stepWith temp (.createNew temp) = some .create := if_pos rfl
      refine assured_io_bind (assured_draft (q := fun answer content unreported =>
        ∀ made, answer = .ok made → content = some [] ∧ unreported = false) nofun htarget hs₃ ?_ ?_)
      · intro s₄ issue choice answer s₅ _ hexec made hok
        subst hok
        exact createNew_content hexec
      · intro answer outcome s₄ houtcome hs₄
        rw [hstep]
        cases answer with
        | error error =>
          have hfailed : ¬ Created [(.create, false)] := by simp [Created]
          rcases houtcome with rfl | rfl
          · exact report_uncreated hfailed hs₄
          · exact fun s' hrely => report_uncreated hfailed (hs₄.beside hrely)
        | ok made =>
          have hempty := hs₄.temp made rfl
          rcases houtcome with rfl | rfl
          · refine report_dropped ⟨⟨by simp, by simp⟩, List.mem_singleton_self _⟩ ⟨?_, hs₄.target⟩
            rw [Present, hempty.1]
            exact nofun
          · exact assured_created hne (hgood bytes hvec) ⟨hempty, hs₄.target⟩

/-- The temporary file of a write that draws these numbers. -/
def documentTemp (self : ProviderMetadataService) (document : Document) (numbers : ℕ × ℕ) : Path :=
  tempPath (document.path self).dropLast "metadata" numbers.2 numbers.1

/-- In a run of the service the others leave the file alone. -/
theorem beside_of_frame {R : Rules} {s' : Shared} (hframe : Frame U self R t s s') (howns : Owns t temp s)
    (hgood : Good (s.files.lookup target) → Good (s'.files.lookup target)) :
    Beside temp target Good s s' := by
  obtain ⟨-, hcontent, hunreported⟩ := hframe.temps temp howns
  exact ⟨hcontent, hunreported, hgood⟩

end Writing

end OpenTfMirror.TempFiles
