import OpenTfMirror.FileNames

/-!
# Paths as text

How a path is joined and taken apart on Unix, as `PathBuf::push` and
`Path::components` do it. A plain component keeps its identity: joining it adds
exactly that component.
-/

namespace OpenTfMirror.PathText

open TextOps FileNames

/-- A component that names an entry of its directory and nothing else. -/
structure Plain (component : String) : Prop where
  nonempty : component ≠ ""
  not_current : component ≠ "."
  not_parent : component ≠ ".."
  no_separator : ∀ c ∈ component.toList, c ≠ '/' ∧ c ≠ '\\' ∧ c ≠ '\x00'

/-- `PathBuf::push`: an absolute path replaces the one before it. -/
def push (path component : String) : String :=
  if component.toList.head? = some '/' then component
  else if path = "" || path.toList.getLast? = some '/' then path ++ component
  else path ++ "/" ++ component

/-- Repeated `Path::join`. -/
def joinAll (path : String) : List String → String
  | [] => path
  | component :: rest => joinAll (push path component) rest

/-- The parts that `Path::components` passes over: empty ones, and `.` except at
the very start. -/
def counted (part : String) : Bool := part ≠ "" && part ≠ "."

/-- What an absolute path and one relative to `.` start with. -/
def leading (path : String) : Path :=
  if path.toList.head? = some '/' then ["/"]
  else if (splitAll '/' path).head? = some "." then ["."] else []

/-- `Path::components`, the root directory as `/`. -/
def components (path : String) : Path := leading path ++ (splitAll '/' path).filter counted

section Splitting

/-- A text without the separator is one part. -/
theorem splitAll_single {sep : Char} {s : String} (h : sep ∉ s.toList) : splitAll sep s = [s] := by
  have hnone : ∀ c ∈ s.toList, (c == sep) = false := by
    intro c hc
    simp only [beq_eq_false_iff_ne]
    intro heq
    exact h (heq ▸ hc)
  unfold splitAll
  rw [List.splitOn_eq_splitOnP, List.splitOnP_eq_singleton hnone]
  simp

/-- A separator splits a text in two. -/
theorem splitAll_append (sep : Char) (s r : String) :
    splitAll sep (s ++ String.singleton sep ++ r) = splitAll sep s ++ splitAll sep r := by
  unfold splitAll
  have hlist : (s ++ String.singleton sep ++ r).toList = s.toList ++ sep :: r.toList := by
    simp
  rw [hlist, List.splitOn_eq_splitOnP, List.splitOnP_append_cons _ _ (by simp), List.map_append]
  rfl

theorem splitAll_ne_nil (sep : Char) (s : String) : splitAll sep s ≠ [] := by
  unfold splitAll
  simp

/-- No part contains the separator. -/
theorem not_mem_of_splitAll {sep : Char} {s part : String} (h : part ∈ splitAll sep s) :
    sep ∉ part.toList := by
  unfold splitAll at h
  obtain ⟨l, hl, rfl⟩ := List.mem_map.mp h
  clear h
  rw [String.toList_ofList]
  generalize s.toList = cs at hl
  induction cs generalizing l with
  | nil =>
    simp only [List.splitOn_nil, List.mem_singleton] at hl
    subst hl
    exact List.not_mem_nil
  | cons c cs ih =>
    rw [List.splitOn_cons_eq_if_modifyHead] at hl
    split at hl
    · rcases List.mem_cons.mp hl with rfl | hl
      · exact List.not_mem_nil
      · exact ih l hl
    · next hc =>
        cases hsplit : cs.splitOn sep with
        | nil => exact absurd hsplit (by simp)
        | cons first rest =>
          rw [hsplit] at hl ih
          rcases List.mem_cons.mp hl with rfl | hl
          · have hfirst := ih first List.mem_cons_self
            intro hmem
            rcases List.mem_cons.mp hmem with rfl | hmem
            · exact hc (by simp)
            · exact hfirst hmem
          · exact ih l (List.mem_cons_of_mem _ hl)

/-- A character is a separator or lies in some part. -/
theorem mem_splitAll (sep : Char) {s : String} {c : Char} (h : c ∈ s.toList) :
    c = sep ∨ ∃ part ∈ splitAll sep s, c ∈ part.toList := by
  have hlist : ∀ cs : List Char, c ∈ cs → c = sep ∨ ∃ l ∈ cs.splitOn sep, c ∈ l := by
    intro cs
    induction cs with
    | nil => exact nofun
    | cons d cs ih =>
      intro hmem
      rw [List.splitOn_cons_eq_if_modifyHead]
      split
      · next hd =>
          rcases List.mem_cons.mp hmem with rfl | hmem
          · exact .inl (by simpa using hd)
          · rcases ih hmem with hsep | ⟨l, hl, hc⟩
            · exact .inl hsep
            · exact .inr ⟨l, List.mem_cons_of_mem _ hl, hc⟩
      · cases hsplit : cs.splitOn sep with
        | nil => exact absurd hsplit (by simp)
        | cons first rest =>
          rw [hsplit] at ih
          rcases List.mem_cons.mp hmem with rfl | hmem
          · exact .inr ⟨c :: first, List.mem_cons_self, List.mem_cons_self⟩
          · rcases ih hmem with hsep | ⟨l, hl, hc⟩
            · exact .inl hsep
            · rcases List.mem_cons.mp hl with rfl | hl
              · exact .inr ⟨d :: l, List.mem_cons_self, List.mem_cons_of_mem _ hc⟩
              · exact .inr ⟨l, List.mem_cons_of_mem _ hl, hc⟩
  rcases hlist s.toList h with hsep | ⟨l, hl, hc⟩
  · exact .inl hsep
  · exact .inr ⟨String.ofList l, List.mem_map.mpr ⟨l, hl, rfl⟩, by simpa using hc⟩

end Splitting

section Joining

theorem Plain.counted {component : String} (h : Plain component) : counted component = true := by
  simp [PathText.counted, h.nonempty, h.not_current]

theorem Plain.not_absolute {component : String} (h : Plain component) :
    component.toList.head? ≠ some '/' := by
  intro hhead
  exact (h.no_separator '/' (List.mem_of_mem_head? hhead)).1 rfl

theorem Plain.slash_not_mem {component : String} (h : Plain component) : '/' ∉ component.toList :=
  fun hmem => (h.no_separator '/' hmem).1 rfl

/-- The start of a path does not depend on what follows a separator. -/
theorem leading_append (s r : String) :
    leading (s ++ "/" ++ r) = leading (s ++ "/" ++ "") := by
  have hparts : ∀ r, (splitAll '/' (s ++ "/" ++ r)).head? = (splitAll '/' s).head? := by
    intro r
    have hsplit := splitAll_append '/' s r
    rw [show String.singleton '/' = "/" from rfl] at hsplit
    rw [hsplit, List.head?_append_of_ne_nil _ (splitAll_ne_nil '/' s)]
  have hhead : ∀ r, (s ++ "/" ++ r).toList.head? = (s.toList ++ ['/']).head? := by
    intro r
    cases hs : s.toList <;> simp [hs]
  unfold leading
  rw [hparts, hparts, hhead, hhead]

/-- Adding a separator to a path that is not empty leaves its start alone. -/
theorem leading_separator {s : String} (h : s ≠ "") : leading (s ++ "/" ++ "") = leading s := by
  have hparts : (splitAll '/' (s ++ "/" ++ "")).head? = (splitAll '/' s).head? := by
    have hsplit := splitAll_append '/' s ""
    rw [show String.singleton '/' = "/" from rfl] at hsplit
    rw [hsplit, List.head?_append_of_ne_nil _ (splitAll_ne_nil '/' s)]
  have hhead : (s ++ "/" ++ "").toList.head? = s.toList.head? := by
    cases hs : s.toList with
    | nil => exact absurd (String.toList_inj.mp hs) h
    | cons c rest => simp [hs]
  unfold leading
  rw [hparts, hhead]

/-- A plain component after a separator. -/
theorem components_append (s : String) {component : String} (h : Plain component) :
    components (s ++ "/" ++ component) = components (s ++ "/" ++ "") ++ [component] := by
  have hparts : ∀ r, (splitAll '/' (s ++ "/" ++ r)).filter counted =
      (splitAll '/' s).filter counted ++ (splitAll '/' r).filter counted := by
    intro r
    have hsplit := splitAll_append '/' s r
    rw [show String.singleton '/' = "/" from rfl] at hsplit
    rw [hsplit, List.filter_append]
  have hempty : (splitAll '/' "").filter counted = [] := by decide
  have hcomponent : (splitAll '/' component).filter counted = [component] := by
    rw [splitAll_single h.slash_not_mem]
    simp [h.counted]
  unfold components
  rw [hparts, hparts, hempty, hcomponent, leading_append, List.append_nil, List.append_assoc]

/-- A trailing separator adds no component. -/
theorem components_separator {s : String} (h : s ≠ "") :
    components (s ++ "/" ++ "") = components s := by
  have hsplit := splitAll_append '/' s ""
  have hempty : (splitAll '/' "").filter counted = [] := by decide
  rw [show String.singleton '/' = "/" from rfl] at hsplit
  unfold components
  rw [leading_separator h, hsplit, List.filter_append, hempty, List.append_nil]

/-- Joining a plain component adds it as the last one. -/
theorem components_push (path : String) {component : String} (h : Plain component) :
    components (push path component) = components path ++ [component] := by
  unfold push
  rw [if_neg h.not_absolute]
  split
  · next hpath =>
      simp only [Bool.or_eq_true, decide_eq_true_eq] at hpath
      rcases hpath with rfl | hlast
      · have hsingle := splitAll_single h.slash_not_mem
        have hempty : components "" = [] := by decide
        have hstart : leading component = [] := by
          unfold leading
          rw [if_neg h.not_absolute, hsingle]
          simp [h.not_current]
        rw [String.empty_append, hempty]
        unfold components
        rw [hstart, hsingle]
        simp [h.counted]
      · obtain ⟨stem, hstem⟩ := List.getLast?_eq_some_iff.mp hlast
        have hpath : path = String.ofList stem ++ "/" ++ "" := by
          apply String.toList_inj.mp
          simp [hstem]
        have hjoined : path ++ component = String.ofList stem ++ "/" ++ component := by
          rw [hpath, String.append_assoc, String.empty_append]
        rw [hjoined, components_append _ h, ← hpath]
  · next hpath =>
      simp only [Bool.or_eq_true, decide_eq_true_eq, not_or] at hpath
      rw [components_append _ h, components_separator hpath.1]

/-- Joining plain components adds them in order. -/
theorem components_joinAll (path : String) {rest : List String} (h : ∀ part ∈ rest, Plain part) :
    components (joinAll path rest) = components path ++ rest := by
  induction rest generalizing path with
  | nil => simp [joinAll]
  | cons part rest ih =>
    have hpart := h part List.mem_cons_self
    have hrest := ih (push path part) fun p hp => h p (List.mem_cons_of_mem _ hp)
    rw [joinAll, hrest, components_push path hpart, List.append_assoc]
    rfl

end Joining

end OpenTfMirror.PathText
