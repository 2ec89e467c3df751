import Mathlib.Data.List.Induction
import OpenTfMirror.MetadataPaths

/-!
# Stale temporary files

`remove_stale_temp_files` over the directory tree below the data directory. Names
are what the system gives, text or not. Whatever fails, only regular files with a
stale name are removed; when nothing fails, all of them are.
-/

namespace OpenTfMirror.StaleFiles

open TextOps FileStore

section Names

/-- A piece of a file name: a character, or bytes that encode none. -/
inductive OsUnit where
  | char (c : Char)
  | invalid (bytes : Bytes)
  deriving DecidableEq, Repr

abbrev OsString := List OsUnit

/-- The name that a text is written as. -/
def ofText (text : String) : OsString := text.toList.map .char

/-- What is no text becomes the replacement character. -/
def OsUnit.lossy : OsUnit → Char
  | .char c => c
  | .invalid _ => Char.ofNat 0xfffd

/-- `to_string_lossy`. -/
def toStringLossy (name : OsString) : String := String.ofList (name.map OsUnit.lossy)

/-- The test of `remove_stale_temp_files`. -/
def isStale (name : OsString) : Bool :=
  (stripPrefix "." (toStringLossy name)).isSome && (stripSuffix ".tmp" (toStringLossy name)).isSome

/-- The name starts with a dot and ends with `.tmp`. -/
def StaleName (name : OsString) : Prop := ofText "." <+: name ∧ ofText ".tmp" <:+ name

instance (name : OsString) : Decidable (StaleName name) := inferInstanceAs (Decidable (_ ∧ _))

/-- Characters other than the replacement character stand for themselves. -/
theorem eq_of_lossy {name : OsString} {chars : List Char} (hchars : Char.ofNat 0xfffd ∉ chars)
    (h : name.map OsUnit.lossy = chars) : name = chars.map .char := by
  induction name generalizing chars with
  | nil =>
    rw [← h]
    rfl
  | cons unit name ih =>
    rw [List.map_cons] at h
    rw [← h, List.mem_cons, not_or] at hchars
    rw [← h, List.map_cons, ← ih hchars.2 rfl]
    cases unit with
    | char c => rfl
    | invalid bytes => exact absurd rfl hchars.1

theorem lossy_chars (chars : List Char) : (chars.map OsUnit.char).map OsUnit.lossy = chars := by
  rw [List.map_map]
  exact List.map_id chars

theorem toStringLossy_ofText (text : String) : toStringLossy (ofText text) = text := by
  rw [toStringLossy, ofText, lossy_chars, String.ofList_toList]

/-- The test of the code is the one on the names themselves. -/
theorem isStale_iff (name : OsString) : isStale name = true ↔ StaleName name := by
  have hdot : Char.ofNat 0xfffd ∉ ".".toList := by decide
  have hending : Char.ofNat 0xfffd ∉ ".tmp".toList := by decide
  simp only [isStale, Bool.and_eq_true, Option.isSome_iff_exists, stripPrefix_eq_some,
    stripSuffix_eq_some]
  refine and_congr ⟨fun hprefix => ?_, fun hprefix => ?_⟩ ⟨fun hsuffix => ?_, fun hsuffix => ?_⟩
  · obtain ⟨rest, h⟩ := hprefix
    have hlist : name.map OsUnit.lossy = ".".toList ++ rest.toList := by
      rw [← String.toList_append, ← h, toStringLossy, String.toList_ofList]
    obtain ⟨front, back, rfl, hfront, -⟩ := List.map_eq_append_iff.mp hlist
    rw [eq_of_lossy hdot hfront]
    exact ⟨back, rfl⟩
  · obtain ⟨rest, h⟩ := hprefix
    refine ⟨toStringLossy rest, ?_⟩
    rw [← h, toStringLossy, List.map_append, String.ofList_append]
    exact congrArg (· ++ toStringLossy rest) (toStringLossy_ofText ".")
  · obtain ⟨start, h⟩ := hsuffix
    have hlist : name.map OsUnit.lossy = start.toList ++ ".tmp".toList := by
      rw [← String.toList_append, ← h, toStringLossy, String.toList_ofList]
    obtain ⟨front, back, rfl, -, hback⟩ := List.map_eq_append_iff.mp hlist
    rw [eq_of_lossy hending hback]
    exact ⟨front, rfl⟩
  · obtain ⟨start, h⟩ := hsuffix
    refine ⟨toStringLossy start, ?_⟩
    rw [← h, toStringLossy, List.map_append, String.ofList_append]
    exact congrArg (toStringLossy start ++ ·) (toStringLossy_ofText ".tmp")

end Names

section Trees

abbrev OsPath := List OsString

/-- `DirEntry::file_type`; a link is neither a directory nor a file. -/
inductive FileType where
  | dir
  | file
  | other
  deriving DecidableEq, Repr

/-- What stands at a path below the data directory. -/
structure Entry where
  path : OsPath
  type : FileType
  deriving DecidableEq, Repr

/-- The data directory with everything below it, in any order. -/
structure DataDir where
  entries : List Entry
  nodup : (entries.map Entry.path).Nodup
  path_ne : ∀ e ∈ entries, e.path ≠ []
  /-- What lies below the first level lies in a directory. -/
  nested : ∀ e ∈ entries, e.path.dropLast ≠ [] → ⟨e.path.dropLast, .dir⟩ ∈ entries

/-- The tree without what is no directory at the path. -/
def DataDir.without (tree : DataDir) (path : OsPath) (h : ⟨path, .dir⟩ ∉ tree.entries) :
    DataDir where
  entries := tree.entries.filter fun e => e.path ≠ path
  nodup := tree.nodup.sublist (List.filter_sublist.map Entry.path)
  path_ne := fun e he => tree.path_ne e (List.mem_of_mem_filter he)
  nested := by
    intro e he hne
    have hdir := tree.nested e (List.mem_of_mem_filter he) hne
    refine List.mem_filter.mpr ⟨hdir, decide_eq_true fun heq => ?_⟩
    dsimp only at heq
    rw [heq] at hdir
    exact h hdir

/-- A regular file at or below the path, with a stale name. -/
def Leftover (directory : OsPath) (e : Entry) : Prop :=
  directory <+: e.path ∧ e.type = .file ∧ ∃ name, e.path.getLast? = some name ∧ StaleName name

/-- The test of the code, on the last component. -/
theorem staleName_iff (path : OsPath) : path.getLast?.any isStale = true ↔
    ∃ name, path.getLast? = some name ∧ StaleName name := by
  cases path.getLast? with
  | none => simp
  | some name => simp [isStale_iff]

instance (directory : OsPath) (e : Entry) : Decidable (Leftover directory e) :=
  have : Decidable (∃ name, e.path.getLast? = some name ∧ StaleName name) :=
    decidable_of_iff _ (staleName_iff e.path)
  inferInstanceAs (Decidable (_ ∧ _ ∧ _))

/-- The calls that may fail. -/
inductive Call where
  | readDir (directory : OsPath)
  | entry (path : OsPath)
  | fileType (path : OsPath)
  | removeFile (path : OsPath)
  deriving DecidableEq, Repr

/-- `std::fs::read_dir`. -/
def readDir (fault : Call → Option IoError) (tree : DataDir) (directory : OsPath) :
    Except IoError (List Entry) :=
  match fault (.readDir directory) with
  | some error => .error error
  | none =>
    if ⟨directory, .dir⟩ ∈ tree.entries then
      .ok (tree.entries.filter fun e => e.path.dropLast = directory)
    else if directory ∈ tree.entries.map Entry.path then .error (.other "Not a directory")
    else .error .notFound

/-- `std::fs::remove_file`. -/
def removeFile (fault : Call → Option IoError) (tree : DataDir) (path : OsPath) :
    Except IoError DataDir :=
  match fault (.removeFile path) with
  | some error => .error error
  | none =>
    if hdir : ⟨path, .dir⟩ ∈ tree.entries then .error (.other "Is a directory")
    else if path ∈ tree.entries.map Entry.path then .ok (tree.without path hdir)
    else .error .notFound

end Trees

section Walk

/-- The tree and the files removed so far. -/
structure State where
  tree : DataDir
  removed : ℕ

/-- A computation on the tree that may fail; none when the fuel runs out. -/
abbrev Walk := ExceptT IoError (StateT State Option)

variable (fault : Call → Option IoError)

def call (request : Call) : Walk Unit :=
  match fault request with
  | some error => throw error
  | none => pure ()

/-- The body of the loop, behind `file_type`. -/
def visit (walk : OsPath → Walk Unit) (entry : Entry) : Walk Unit :=
  match entry.type with
  | .dir => walk entry.path
  | .file =>
    if entry.path.getLast?.any isStale then do
      let s ← get
      match removeFile fault s.tree entry.path with
      | .ok tree => set (State.mk tree (s.removed + 1))
      | .error error => throw error
    else pure ()
  | .other => pure ()

/-- The loop of `walk` over the entries of a directory. -/
def eachEntry (walk : OsPath → Walk Unit) : List Entry → Walk Unit
  | [] => pure ()
  | entry :: entries => do
    call fault (.entry entry.path)
    call fault (.fileType entry.path)
    visit fault walk entry
    eachEntry walk entries

/-- `walk`, which calls itself at most as often as the tree is deep. -/
def walk : ℕ → OsPath → Walk Unit
  | 0, _ => ExceptT.mk fun _ => none
  | fuel + 1, directory => do
    let s ← get
    match readDir fault s.tree directory with
    | .ok entries => eachEntry fault (walk fuel) entries
    | .error .notFound => pure ()
    | .error error => throw error

/-- `remove_stale_temp_files`. -/
def removeStaleTempFiles (fuel : ℕ) : Walk ℕ := do
  ["providers", "metadata"].forM fun directory => walk fault fuel [ofText directory]
  let s ← get
  return s.removed

end Walk

section Rules

variable {α β : Type}

/-- The computation comes to an end, and its outcome is as said. -/
def Ends (x : Walk α) (s : State) (post : Except IoError α → State → Prop) : Prop :=
  ∃ outcome s', x.run s = some (outcome, s') ∧ post outcome s'

theorem Ends.pure {value : α} {s : State} {post : Except IoError α → State → Prop}
    (h : post (.ok value) s) : Ends (Pure.pure value) s post := ⟨_, _, rfl, h⟩

theorem Ends.throw {error : IoError} {s : State} {post : Except IoError α → State → Prop}
    (h : post (.error error) s) : Ends (MonadExcept.throw error : Walk α) s post := ⟨_, _, rfl, h⟩

theorem Ends.get_bind {s : State} {f : State → Walk α} {post : Except IoError α → State → Prop}
    (h : Ends (f s) s post) : Ends (MonadState.get >>= f) s post := h

theorem Ends.set {s s' : State} {post : Except IoError PUnit → State → Prop} (h : post (.ok ()) s') :
    Ends (MonadStateOf.set s' : Walk PUnit) s post := ⟨_, _, rfl, h⟩

/-- What comes behind goes on from what has been reached. -/
theorem Ends.bind {x : Walk α} {f : α → Walk β} {s : State} {mid : Except IoError α → State → Prop}
    {post : Except IoError β → State → Prop} (hx : Ends x s mid)
    (hok : ∀ value s', mid (.ok value) s' → Ends (f value) s' post)
    (herror : ∀ error s', mid (.error error) s' → post (.error error) s') :
    Ends (x >>= f) s post := by
  obtain ⟨outcome, s', hrun, hmid⟩ := hx
  have hbind : (x >>= f).run s =
      (x.run s).bind fun (outcome, s') => ExceptT.bindCont f outcome s' := rfl
  cases outcome with
  | ok value =>
    obtain ⟨outcome, s'', hrun', hpost⟩ := hok value s' hmid
    refine ⟨outcome, s'', ?_, hpost⟩
    rw [hbind, hrun]
    exact hrun'
  | error error =>
    refine ⟨.error error, s', ?_, herror error s' hmid⟩
    rw [hbind, hrun]
    rfl

theorem Ends.mono {x : Walk α} {s : State} {mid post : Except IoError α → State → Prop}
    (hx : Ends x s mid) (h : ∀ outcome s', mid outcome s' → post outcome s') : Ends x s post := by
  obtain ⟨outcome, s', hrun, hmid⟩ := hx
  exact ⟨outcome, s', hrun, h outcome s' hmid⟩

/-- A call that may fail changes nothing. -/
theorem Ends.call {fault : Call → Option IoError} {request : Call} {s : State} :
    Ends (StaleFiles.call fault request) s fun outcome s' =>
      s' = s ∧ (fault request = none → outcome = .ok ()) := by
  unfold StaleFiles.call
  cases hfault : fault request with
  | none => exact .pure ⟨rfl, fun _ => rfl⟩
  | some error => exact .throw ⟨rfl, fun h => by cases h⟩

end Rules

section Sweeps

/-- Some entries of a kind are gone, and have been counted; the others stay. -/
structure Swept (kind : Entry → Prop) (s s' : State) : Prop where
  kept : ∃ keep : Entry → Bool, s'.tree.entries = s.tree.entries.filter keep ∧
    ∀ e ∈ s.tree.entries, keep e = false → kind e
  balance : s'.removed + s'.tree.entries.length = s.removed + s.tree.entries.length

variable {kind kind' : Entry → Prop} {s s' s'' : State}

theorem Swept.refl (s : State) : Swept kind s s :=
  ⟨⟨fun _ => true, by simp, fun _ _ h => by cases h⟩, rfl⟩

theorem Swept.mono (h : Swept kind s s') (hkind : ∀ e ∈ s.tree.entries, kind e → kind' e) :
    Swept kind' s s' := by
  obtain ⟨keep, heq, hkeep⟩ := h.kept
  exact ⟨⟨keep, heq, fun e he hgone => hkind e he (hkeep e he hgone)⟩, h.balance⟩

theorem Swept.trans (h : Swept kind s s') (h' : Swept kind s' s'') : Swept kind s s'' := by
  obtain ⟨keep, heq, hkeep⟩ := h.kept
  obtain ⟨keep', heq', hkeep'⟩ := h'.kept
  refine ⟨⟨fun e => keep' e && keep e, ?_, fun e he hgone => ?_⟩, h'.balance.trans h.balance⟩
  · rw [heq', heq, List.filter_filter]
  · cases hfirst : keep e with
    | false => exact hkeep e he hfirst
    | true =>
      dsimp only at hgone
      rw [hfirst, Bool.and_true] at hgone
      refine hkeep' e ?_ hgone
      rw [heq]
      exact List.mem_filter.mpr ⟨he, hfirst⟩

/-- Nothing new appears. -/
theorem Swept.subset (h : Swept kind s s') {e : Entry} (he : e ∈ s'.tree.entries) :
    e ∈ s.tree.entries := by
  obtain ⟨keep, heq, -⟩ := h.kept
  rw [heq] at he
  exact List.mem_of_mem_filter he

/-- What is of another kind stays. -/
theorem Swept.stays (h : Swept kind s s') {e : Entry} (he : e ∈ s.tree.entries) (hkind : ¬kind e) :
    e ∈ s'.tree.entries := by
  obtain ⟨keep, heq, hkeep⟩ := h.kept
  rw [heq]
  refine List.mem_filter.mpr ⟨he, ?_⟩
  cases hgone : keep e with
  | false => exact absurd (hkeep e he hgone) hkind
  | true => rfl

/-- When all of the kind are gone, the rest is left, and the number is theirs. -/
theorem Swept.exact [DecidablePred kind] (h : Swept kind s s')
    (hgone : ∀ e ∈ s'.tree.entries, ¬kind e) :
    s'.tree.entries = s.tree.entries.filter (fun e => ¬kind e) ∧
      s'.removed = s.removed + (s.tree.entries.filter fun e => kind e).length := by
  obtain ⟨keep, heq, hkeep⟩ := h.kept
  have hleft : s'.tree.entries = s.tree.entries.filter (fun e => ¬kind e) := by
    rw [heq]
    refine List.filter_congr fun e he => ?_
    cases hkept : keep e with
    | true =>
      have hin : e ∈ s'.tree.entries := by
        rw [heq]
        exact List.mem_filter.mpr ⟨he, hkept⟩
      exact (decide_eq_true (hgone e hin)).symm
    | false => exact (decide_eq_false (not_not.mpr (hkeep e he hkept))).symm
  refine ⟨hleft, ?_⟩
  have hbalance := h.balance
  have hsplit := List.length_eq_length_filter_add (l := s.tree.entries) fun e => decide (kind e)
  rw [hleft] at hbalance
  simp only [decide_not] at hbalance
  omega

/-- Two entries at one path are one. -/
theorem DataDir.eq_of_path (tree : DataDir) {e e' : Entry} (he : e ∈ tree.entries)
    (he' : e' ∈ tree.entries) (h : e.path = e'.path) : e = e' :=
  List.inj_on_of_nodup_map tree.nodup he he' h

/-- Whatever lies above an entry is a directory. -/
theorem DataDir.above (tree : DataDir) {e : Entry} (he : e ∈ tree.entries) {path : OsPath}
    (hpath : path ≠ []) {name : OsString} {rest : OsPath} (h : e.path = path ++ name :: rest) :
    ⟨path, .dir⟩ ∈ tree.entries := by
  induction rest using List.reverseRecOn generalizing e with
  | nil =>
    have hparent := tree.nested e he
    rw [h, List.dropLast_concat] at hparent
    exact hparent hpath
  | append_singleton rest last ih =>
    have hparent := tree.nested e he
    rw [h, ← List.cons_append, ← List.append_assoc, List.dropLast_concat] at hparent
    exact ih (hparent (by simp)) rfl

end Sweeps

section Sweeping

variable {fault : Call → Option IoError} {clean : Prop} {directory : OsPath} {s s' : State}

/-- No call fails, and a file stands in the place of neither directory. -/
structure Faultless (fault : Call → Option IoError) (tree : DataDir) : Prop where
  quiet : ∀ request, fault request = none
  opens : ∀ e ∈ tree.entries, ∀ directory ∈ ["providers", "metadata"],
    e.path = [ofText directory] → e.type = .dir

/-- A computation that sweeps a kind away, all of it in a clean run. -/
def Sweeps (clean : Prop) (kind : Entry → Prop) (s : State) (outcome : Except IoError Unit)
    (s' : State) : Prop :=
  Swept kind s s' ∧ (clean → outcome = .ok () ∧ ∀ e ∈ s'.tree.entries, ¬kind e)

theorem Sweeps.refl {kind : Entry → Prop} (h : ∀ e ∈ s.tree.entries, ¬kind e) :
    Sweeps clean kind s (.ok ()) s := ⟨.refl s, fun _ => ⟨rfl, h⟩⟩

/-- After a failure. -/
theorem Sweeps.failed {kind : Entry → Prop} (error : IoError) (h : ¬clean) :
    Sweeps clean kind s (.error error) s := ⟨.refl s, fun hclean => absurd hclean h⟩

/-- The removal of a stale file. -/
theorem swept_without {e : Entry} (he : e ∈ s.tree.entries) (hleft : Leftover e.path e)
    (hdir : ⟨e.path, .dir⟩ ∉ s.tree.entries) :
    Swept (Leftover e.path) s ⟨s.tree.without e.path hdir, s.removed + 1⟩ := by
  refine ⟨⟨_, rfl, fun e' he' hgone => ?_⟩, ?_⟩
  · obtain rfl : e' = e := s.tree.eq_of_path he' he (by simpa using hgone)
    exact hleft
  · have hone : (s.tree.entries.filter fun e' => e'.path = e.path).length = 1 := by
      have hcount := List.count_eq_one_of_mem s.tree.nodup (List.mem_map_of_mem he)
      have hsame : ((· == e.path) ∘ Entry.path) = fun e' => decide (e'.path = e.path) :=
        funext fun e' => beq_eq_decide ..
      rwa [List.count, List.countP_map, List.countP_eq_length_filter, hsame] at hcount
    have hsplit := List.length_eq_length_filter_add (l := s.tree.entries)
      fun e' => decide (e'.path = e.path)
    simp only [DataDir.without, ne_eq, decide_not]
    omega

/-- What lies at or below an entry is swept when the entry is visited. -/
theorem ends_visit {walk : OsPath → Walk Unit} {e : Entry}
    (hquiet : clean → ∀ request, fault request = none) (he : e ∈ s.tree.entries)
    (hwalk : e.type = .dir → Ends (walk e.path) s (Sweeps clean (Leftover e.path) s)) :
    Ends (visit fault walk e) s (Sweeps clean (Leftover e.path) s) := by
  have hbelow : e.type ≠ .dir → ∀ e' ∈ s.tree.entries, e.path <+: e'.path → e' = e := by
    intro htype e' he' hprefix
    obtain ⟨rest, hrest⟩ := hprefix
    cases rest with
    | nil =>
      rw [List.append_nil] at hrest
      exact s.tree.eq_of_path he' he hrest.symm
    | cons name rest =>
      have habove := s.tree.above he' (s.tree.path_ne e he) hrest.symm
      have heq : e = ⟨e.path, .dir⟩ := s.tree.eq_of_path he habove rfl
      exact absurd (congrArg Entry.type heq) htype
  unfold visit
  cases htype : e.type with
  | dir => exact hwalk htype
  | file =>
    have hne : e.type ≠ .dir := by rw [htype]; decide
    dsimp only
    split
    · next hstale =>
        have hdir : ⟨e.path, .dir⟩ ∉ s.tree.entries := by
          intro hmem
          have heq : e = ⟨e.path, .dir⟩ := s.tree.eq_of_path he hmem rfl
          exact hne (congrArg Entry.type heq)
        have hpath : e.path ∈ s.tree.entries.map Entry.path := List.mem_map_of_mem he
        refine .get_bind ?_
        unfold removeFile
        cases hfault : fault (.removeFile e.path) with
        | some error =>
          refine .throw (.failed error fun hclean => ?_)
          rw [hquiet hclean] at hfault
          cases hfault
        | none =>
          rw [dif_neg hdir, if_pos hpath]
          refine .set ⟨swept_without he ⟨List.prefix_rfl, htype, (staleName_iff _).mp hstale⟩ hdir, fun _ =>
            ⟨rfl, fun e' he' hleft => ?_⟩⟩
          obtain ⟨hin, hother⟩ := List.mem_filter.mp he'
          rw [hbelow hne e' hin hleft.1] at hother
          simp at hother
    · next hfresh =>
        refine .pure (.refl fun e' he' hleft => hfresh ((staleName_iff _).mpr ?_))
        rw [← hbelow hne e' he' hleft.1]
        exact hleft.2.2
  | other =>
    have hne : e.type ≠ .dir := by rw [htype]; decide
    refine .pure (.refl fun e' he' hleft => ?_)
    have hfile := hleft.2.1
    rw [hbelow hne e' he' hleft.1, htype] at hfile
    cases hfile

/-- The loop sweeps what lies at or below its entries. -/
theorem ends_eachEntry {walk : OsPath → Walk Unit} {entries : List Entry} {level : ℕ}
    (hquiet : clean → ∀ request, fault request = none)
    (hin : ∀ e ∈ entries, e ∈ s.tree.entries) (hnodup : (entries.map Entry.path).Nodup)
    (hlevel : ∀ e ∈ entries, e.path.length = level)
    (hwalk : ∀ e ∈ entries, e.type = .dir → ∀ s', e ∈ s'.tree.entries →
      (∀ e' ∈ s'.tree.entries, e' ∈ s.tree.entries) →
        Ends (walk e.path) s' (Sweeps clean (Leftover e.path) s')) :
    Ends (eachEntry fault walk entries) s
      (Sweeps clean (fun e' => ∃ e ∈ entries, Leftover e.path e') s) := by
  induction entries generalizing s with
  | nil => exact .pure (.refl fun e' _ ⟨e, he, _⟩ => by cases he)
  | cons e entries ih =>
    have hfailed : ∀ {request : Call} {error : IoError}, (fault request = none →
        (.error error : Except IoError Unit) = .ok ()) → ¬clean := by
      intro request error h hclean
      have hok := h (hquiet hclean request)
      cases hok
    have he := hin e (List.mem_cons_self ..)
    refine .bind .call (fun _ s' ⟨hs, _⟩ => ?_)
      (fun error s' ⟨hs, h⟩ => hs ▸ .failed error (hfailed h))
    subst hs
    refine .bind .call (fun _ s' ⟨hs, _⟩ => ?_)
      (fun error s' ⟨hs, h⟩ => hs ▸ .failed error (hfailed h))
    subst hs
    refine .bind (ends_visit hquiet he fun htype => hwalk e (List.mem_cons_self ..) htype s' he
      fun _ h => h) (fun _ s₁ ⟨hswept, hclean⟩ => ?_) (fun error s₁ ⟨hswept, hclean⟩ => ?_)
    · obtain ⟨hnot, hrest⟩ := List.nodup_cons.mp hnodup
      have hstays : ∀ e' ∈ entries, e' ∈ s₁.tree.entries := by
        intro e' he'
        refine hswept.stays (hin e' (List.mem_cons_of_mem _ he')) fun hleft => hnot ?_
        have hlength : e.path.length = e'.path.length :=
          (hlevel e (List.mem_cons_self ..)).trans (hlevel e' (List.mem_cons_of_mem _ he')).symm
        rw [hleft.1.eq_of_length hlength]
        exact List.mem_map_of_mem he'
      refine (ih hstays hrest (fun e' he' => hlevel e' (List.mem_cons_of_mem _ he'))
        fun e' he' htype s₂ hin₂ hsub => hwalk e' (List.mem_cons_of_mem _ he') htype s₂ hin₂
          fun e'' he'' => hswept.subset (hsub e'' he'')).mono ?_
      rintro outcome s₂ ⟨hswept', hclean'⟩
      refine ⟨(hswept.mono fun e' _ hleft => ⟨e, List.mem_cons_self .., hleft⟩).trans
        (hswept'.mono fun e' _ ⟨e'', he'', hleft⟩ => ⟨e'', List.mem_cons_of_mem _ he'', hleft⟩),
        fun h => ?_⟩
      obtain ⟨hok, hgone⟩ := hclean' h
      refine ⟨hok, fun e' he' ⟨e'', hmem, hleft⟩ => ?_⟩
      rcases List.mem_cons.mp hmem with rfl | hmem
      · exact (hclean h).2 e' (hswept'.subset he') hleft
      · exact hgone e' he' ⟨e'', hmem, hleft⟩
    · refine ⟨hswept.mono fun e' _ hleft => ⟨e, List.mem_cons_self .., hleft⟩, fun h => ?_⟩
      have hok := (hclean h).1
      cases hok

/-- A walk with fuel for the depth of the tree sweeps what lies below its directory. -/
theorem ends_walk {fuel : ℕ} (hquiet : clean → ∀ request, fault request = none)
    (hne : directory ≠ []) (hpos : 0 < fuel)
    (hfuel : ∀ e ∈ s.tree.entries, e.path.length < directory.length + fuel)
    (hopens : clean → ∀ e ∈ s.tree.entries, e.path = directory → e.type = .dir) :
    Ends (walk fault fuel directory) s (Sweeps clean (Leftover directory) s) := by
  induction fuel generalizing s directory with
  | zero => exact absurd hpos (lt_irrefl 0)
  | succ fuel ih =>
    refine .get_bind ?_
    unfold readDir
    cases hfault : fault (.readDir directory) with
    | some error =>
      have hfaulty : ¬clean := by
        intro hclean
        rw [hquiet hclean] at hfault
        cases hfault
      cases error with
      | notFound => exact .pure ⟨.refl s, fun hclean => absurd hclean hfaulty⟩
      | other message => exact .throw (.failed _ hfaulty)
    | none =>
      dsimp only
      by_cases hdir : ⟨directory, .dir⟩ ∈ s.tree.entries
      · rw [if_pos hdir]
        have hlisted : ∀ e ∈ s.tree.entries.filter (fun e => e.path.dropLast = directory),
            e ∈ s.tree.entries ∧ e.path.dropLast = directory ∧
              e.path.length = directory.length + 1 := by
          intro e he
          obtain ⟨hin, hparent⟩ := List.mem_filter.mp he
          have hparent : e.path.dropLast = directory := of_decide_eq_true hparent
          have hlength := List.length_pos_of_ne_nil (s.tree.path_ne e hin)
          refine ⟨hin, hparent, ?_⟩
          rw [← hparent, List.length_dropLast]
          omega
        refine (ends_eachEntry hquiet (fun e he => (hlisted e he).1)
          (s.tree.nodup.sublist (List.filter_sublist.map Entry.path))
          (fun e he => (hlisted e he).2.2) fun e he htype s' he' hsub => ?_).mono ?_
        · obtain ⟨hin, -, hlength⟩ := hlisted e he
          have hdeep := hfuel e hin
          refine ih (s.tree.path_ne e hin) (by omega) (fun e' hmem => ?_) fun _ e' hmem hpath => ?_
          · have hdeep' := hfuel e' (hsub e' hmem)
            omega
          · rw [s'.tree.eq_of_path hmem he' hpath]
            exact htype
        · rintro outcome s' ⟨hswept, hclean⟩
          refine ⟨hswept.mono fun e' _ ⟨e, he, hleft⟩ => ⟨?_, hleft.2⟩, fun h => ?_⟩
          · rw [← (hlisted e he).2.1]
            exact (List.dropLast_prefix _).trans hleft.1
          · obtain ⟨hok, hgone⟩ := hclean h
            refine ⟨hok, fun e he hleft => ?_⟩
            have hin := hswept.subset he
            obtain ⟨rest, hrest⟩ := hleft.1
            cases rest with
            | nil =>
              -- a file cannot stand where the directory is
              rw [List.append_nil] at hrest
              have heq : e = ⟨directory, .dir⟩ := s.tree.eq_of_path hin hdir hrest.symm
              have hfile := hleft.2.1
              rw [heq] at hfile
              cases hfile
            | cons name rest =>
              obtain ⟨child, hchild, hpath⟩ : ∃ child ∈ s.tree.entries,
                  child.path = directory ++ [name] := by
                cases rest with
                | nil => exact ⟨e, hin, hrest.symm⟩
                | cons name' rest =>
                  have hdeeper : e.path = (directory ++ [name]) ++ name' :: rest := by
                    rw [← hrest, List.append_assoc, List.singleton_append]
                  exact ⟨_, s.tree.above hin (by simp) hdeeper, rfl⟩
              refine hgone e he ⟨child, List.mem_filter.mpr ⟨hchild, decide_eq_true ?_⟩, ?_, hleft.2⟩
              · rw [hpath, List.dropLast_concat]
              · rw [hpath, ← hrest]
                exact ⟨rest, by rw [List.append_assoc, List.singleton_append]⟩
      · rw [if_neg hdir]
        by_cases hstands : directory ∈ s.tree.entries.map Entry.path
        · rw [if_pos hstands]
          refine .throw (.failed _ fun hclean => ?_)
          obtain ⟨⟨path, type⟩, he, hpath⟩ := List.mem_map.mp hstands
          have htype := hopens hclean _ he hpath
          dsimp only at hpath htype
          rw [hpath, htype] at he
          exact hdir he
        · rw [if_neg hstands]
          refine .pure (.refl fun e he hleft => ?_)
          obtain ⟨rest, hrest⟩ := hleft.1
          cases rest with
          | nil =>
            rw [List.append_nil] at hrest
            exact hstands (List.mem_map.mpr ⟨e, he, hrest.symm⟩)
          | cons name rest => exact hdir (s.tree.above he hne hrest.symm)

/-- A stale file below `providers` or `metadata`. -/
def Stale (e : Entry) : Prop :=
  ∃ directory ∈ ["providers", "metadata"], Leftover [ofText directory] e

instance (e : Entry) : Decidable (Stale e) := inferInstanceAs (Decidable (∃ _ ∈ _, _))

/-- The whole cleanup. -/
theorem ends_removeStaleTempFiles {fuel : ℕ} (hpos : 0 < fuel)
    (hfuel : ∀ e ∈ s.tree.entries, e.path.length < fuel) :
    Ends (removeStaleTempFiles fault fuel) s fun outcome s' => Swept Stale s s' ∧
      (Faultless fault s.tree → outcome = .ok s'.removed ∧ ∀ e ∈ s'.tree.entries, ¬Stale e) := by
  have hwalk : ∀ directory ∈ ["providers", "metadata"], ∀ s' : State,
      (∀ e ∈ s'.tree.entries, e ∈ s.tree.entries) →
        Ends (walk fault fuel [ofText directory]) s'
          (Sweeps (Faultless fault s.tree) (Leftover [ofText directory]) s') := by
    intro directory hdirectory s' hsub
    refine ends_walk Faultless.quiet (by simp) hpos (fun e he => ?_)
      fun hfaultless e he hpath => hfaultless.opens e (hsub e he) directory hdirectory hpath
    have hdeep := hfuel e (hsub e he)
    rw [List.length_singleton]
    omega
  have hproviders : ∀ e, Leftover [ofText "providers"] e → Stale e :=
    fun e hleft => ⟨"providers", by simp, hleft⟩
  have hmetadata : ∀ e, Leftover [ofText "metadata"] e → Stale e :=
    fun e hleft => ⟨"metadata", by simp, hleft⟩
  have hloop : Ends (["providers", "metadata"].forM fun directory =>
      walk fault fuel [ofText directory]) s (Sweeps (Faultless fault s.tree) Stale s) := by
    change Ends (do
      walk fault fuel [ofText "providers"]
      walk fault fuel [ofText "metadata"]
      pure PUnit.unit) s _
    refine .bind (hwalk "providers" (by simp) s fun _ h => h) (fun _ s₁ ⟨hswept, hclean⟩ => ?_)
      (fun error s₁ ⟨hswept, hclean⟩ => ⟨hswept.mono fun e _ => hproviders e, fun h => by cases (hclean h).1⟩)
    refine .bind (hwalk "metadata" (by simp) s₁ fun _ => hswept.subset)
      (fun _ s₂ ⟨hswept', hclean'⟩ => .pure ?_)
      (fun error s₂ ⟨hswept', hclean'⟩ =>
        ⟨(hswept.mono fun e _ => hproviders e).trans (hswept'.mono fun e _ => hmetadata e),
          fun h => by cases (hclean' h).1⟩)
    refine ⟨(hswept.mono fun e _ => hproviders e).trans (hswept'.mono fun e _ => hmetadata e),
      fun hfaultless => ⟨rfl, ?_⟩⟩
    rintro e he ⟨directory, hdirectory, hleft⟩
    simp only [List.mem_cons, List.not_mem_nil, or_false] at hdirectory
    rcases hdirectory with rfl | rfl
    · exact (hclean hfaultless).2 e (hswept'.subset he) hleft
    · exact (hclean' hfaultless).2 e he hleft
  refine .bind hloop (fun _ s' ⟨hswept, hclean⟩ => .get_bind (.pure ⟨hswept, fun h => ⟨rfl, ?_⟩⟩))
    (fun error s' ⟨hswept, hclean⟩ => ⟨hswept, fun h => by cases (hclean h).1⟩)
  exact (hclean h).2

end Sweeping

section Writers

open FileNames PathText Provider Storage MetadataService MetadataPaths ArchivePaths

theorem ofText_append (text text' : String) : ofText (text ++ text') = ofText text ++ ofText text' := by
  rw [ofText, String.toList_append, List.map_append]
  rfl

/-- The names of the temporary files are stale. -/
theorem staleName_tempName (base : String) (pid n : ℕ) : StaleName (ofText (tempName base pid n)) := by
  constructor
  · simp only [tempName, ofText_append, List.append_assoc]
    exact ⟨_, rfl⟩
  · rw [tempName, ofText_append]
    exact ⟨_, rfl⟩

/-- The names of the archives are not. -/
theorem not_staleName_start (rest : String) : ¬StaleName (ofText ("terraform-provider-" ++ rest)) := by
  rintro ⟨⟨tail, htail⟩, -⟩
  rw [ofText_append] at htail
  have hne : some (OsUnit.char '.') ≠ some (.char 't') := by decide
  exact hne (congrArg List.head? htail)

/-- Nor are those of the documents. -/
theorem not_staleName_json (stem : String) : ¬StaleName (ofText (stem ++ ".json")) := by
  rintro ⟨-, ⟨start, hstart⟩⟩
  rw [ofText_append] at hstart
  have hlast := congrArg List.getLast? hstart
  rw [List.getLast?_append_of_ne_nil _ (by decide), List.getLast?_append_of_ne_nil _ (by decide)]
    at hlast
  exact absurd hlast (by decide)

/-- The path below the data directory. -/
def osPath (parts : Path) : OsPath := parts.map ofText

theorem stale_of_name {directory name : String} {parts : Path}
    (hdirectory : directory ∈ ["providers", "metadata"]) (hname : StaleName (ofText name)) :
    Stale ⟨osPath (directory :: (parts ++ [name])), .file⟩ := by
  refine ⟨directory, hdirectory, ⟨osPath (parts ++ [name]), rfl⟩, rfl, ofText name, ?_, hname⟩
  rw [osPath, List.getLast?_map, ← List.cons_append, List.getLast?_concat]
  rfl

theorem not_stale_of_name {parts : Path} {name : String} {type : FileType}
    (hname : ¬StaleName (ofText name)) : ¬Stale ⟨osPath (parts ++ [name]), type⟩ := by
  rintro ⟨directory, -, -, -, name', hlast, hstale⟩
  dsimp only at hlast
  rw [osPath, List.getLast?_map, List.getLast?_concat] at hlast
  obtain rfl : ofText name = name' := Option.some.inj hlast
  exact hname hstale

variable [SemverCrate]

/-- With fuel for the depth of the tree the cleanup ends. Whatever fails, only regular
files with a stale name below the two directories are gone; when nothing fails, all of
them are, and their number is returned. The temporary files of every accepted address
are among them, the archives and the documents are not. -/
theorem stale_files_removed (hgrammar : SemverGrammar) (service : ProviderMetadataService)
    (root : String) :
    (∀ (fault : Call → Option IoError) (tree : DataDir) (fuel : ℕ), 0 < fuel →
      (∀ e ∈ tree.entries, e.path.length < fuel) →
      ∃ outcome s', (removeStaleTempFiles fault fuel).run ⟨tree, 0⟩ = some (outcome, s') ∧
        (∀ e ∈ tree.entries, ¬Stale e → e ∈ s'.tree.entries) ∧
        (Faultless fault tree → outcome = .ok (tree.entries.filter fun e => Stale e).length ∧
          s'.tree.entries = tree.entries.filter fun e => ¬Stale e)) ∧
    (∀ (key : ProviderArchiveKey) (pid n : ℕ), validateKey key = .ok () →
      ∃ parts, components (tempPathText root key pid n) = components root ++ parts ∧
        Stale ⟨osPath parts, .file⟩) ∧
    (∀ (key : MetadataKey) (pid n : ℕ), key.Accepted service →
      ∃ parts, components (key.tempText (push root "metadata") pid n) = components root ++ parts ∧
        Stale ⟨osPath parts, .file⟩) ∧
    (∀ (key : ProviderArchiveKey), validateKey key = .ok () →
      ∃ parts, components (archivePathText root key) = components root ++ parts ∧
        ∀ type, ¬Stale ⟨osPath parts, type⟩) ∧
    (∀ (key : MetadataKey), key.Accepted service →
      ∃ parts, components (key.pathText (push root "metadata")) = components root ++ parts ∧
        ∀ type, ¬Stale ⟨osPath parts, type⟩) := by
  have hmetadata : components (push root "metadata") = components root ++ ["metadata"] :=
    @components_joinAll root ["metadata"] fun part hpart => by
      rw [List.mem_singleton.mp hpart]
      exact ⟨by decide, by decide, by decide, by simp⟩
  refine ⟨fun fault tree fuel hpos hfuel => ?_, fun key pid n h => ?_, fun key pid n h => ?_,
    fun key h => ?_, fun key h => ?_⟩
  · obtain ⟨outcome, s', hrun, hswept, hclean⟩ :=
      @ends_removeStaleTempFiles fault ⟨tree, 0⟩ fuel hpos hfuel
    refine ⟨outcome, s', hrun, fun e he hfresh => hswept.stays he hfresh, fun hfaultless => ?_⟩
    obtain ⟨rfl, hgone⟩ := hclean hfaultless
    obtain ⟨hleft, hcount⟩ := hswept.exact hgone
    rw [zero_add] at hcount
    exact ⟨congrArg Except.ok hcount, hleft⟩
  · exact ⟨_, components_tempPath hgrammar root (validateKey_ok.mp h) pid n,
      @stale_of_name "providers" _ [key.hostname, key.providerNamespace, key.providerType] (by simp)
        (staleName_tempName key.filename pid n)⟩
  · refine ⟨"metadata" :: documentParts key (tempName "metadata" pid n), ?_,
      @stale_of_name "metadata" _ [key.provider.hostname, key.provider.providerNamespace,
        key.provider.providerType] (by simp) (staleName_tempName "metadata" pid n)⟩
    rw [components_tempText h, hmetadata, List.append_assoc]
    rfl
  · have haccepted := validateKey_ok.mp h
    obtain ⟨name, hname⟩ := haccepted.archive
    obtain ⟨rest, hrest⟩ := parse_start hname
    refine ⟨_, components_archivePath hgrammar root haccepted, fun type =>
      @not_stale_of_name ["providers", key.hostname, key.providerNamespace, key.providerType]
        key.filename type ?_⟩
    rw [hrest]
    exact not_staleName_start rest
  · refine ⟨"metadata" :: documentParts key key.fileName, ?_, fun type =>
      @not_stale_of_name ["metadata", key.provider.hostname, key.provider.providerNamespace,
        key.provider.providerType] key.fileName type ?_⟩
    · rw [components_pathText h, hmetadata, List.append_assoc]
      rfl
    · cases key with
      | index provider => exact not_staleName_json "index"
      | version versionKey => exact not_staleName_json versionKey.version

/-- A leftover of a download, and a document in a directory that is named like one. -/
def plainTree : DataDir where
  entries :=
    [⟨osPath ["providers"], .dir⟩, ⟨osPath ["providers", ".null.zip-7-0.tmp"], .file⟩,
      ⟨osPath ["metadata"], .dir⟩, ⟨osPath ["metadata", ".a.tmp"], .dir⟩,
      ⟨osPath ["metadata", ".a.tmp", "index.json"], .file⟩]
  nodup := by decide +kernel
  path_ne := by decide +kernel
  nested := by decide +kernel

omit [SemverCrate] in
theorem stale_files_removed_plain :
    ∃ s', (removeStaleTempFiles (fun _ => none) 4).run ⟨plainTree, 0⟩ = some (.ok 1, s') ∧
      s'.tree.entries = [⟨osPath ["providers"], .dir⟩, ⟨osPath ["metadata"], .dir⟩,
        ⟨osPath ["metadata", ".a.tmp"], .dir⟩, ⟨osPath ["metadata", ".a.tmp", "index.json"], .file⟩] := by
  have h := @stale_files_removed PlainLibraries.plainSemver PlainLibraries.plainSemver_grammar
    (PlainMetadata.plainService 0) "/data"
  obtain ⟨outcome, s', hrun, -, hclean⟩ := h.1 (fun _ => none) plainTree 4 (by decide)
    (by decide +kernel)
  obtain ⟨rfl, hleft⟩ := hclean ⟨fun _ => rfl, by decide +kernel⟩
  have hcount : (plainTree.entries.filter fun e => Stale e).length = 1 := by decide +kernel
  rw [hcount] at hrun
  refine ⟨s', hrun, hleft.trans ?_⟩
  decide +kernel

end Writers

end OpenTfMirror.StaleFiles
