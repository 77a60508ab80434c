import Mathlib.Data.List.Basic
import Mathlib.Data.List.Infix

/-!
# Paths of a file system

Paths as a program writes them, the parts that iteration yields, normal forms, and the place that a
path leads to. What exists is a parameter.

* `Spelling.parts` — the parts of a path, with an empty one behind a trailing separator.
* `Spelling.parts_parent_append` — when a path is the parent of what stands in its directory.
* `lexicallyNormal` — the normal form, by the spelling alone.
* `Tree.weaklyCanonical` — the leading elements that exist resolved, the others appended, normal.
* `Tree.location` — the place of a path, by the names from the root.
* `Tree.weaklyCanonical_of_anchored`, `Tree.weaklyCanonical_of_not_anchored` — the two kinds of such
  forms.
-/

namespace Paths

/-! ## Spellings -/

/-- What stands between two separators. -/
inductive Element where
  | dot
  | dotDot
  | name (text : String)
  deriving DecidableEq, Repr

/-- A path: from the root or not, its elements, and whether a separator stands behind them. -/
structure Spelling where
  absolute : Bool
  elements : List Element
  trailing : Bool
  deriving DecidableEq, Repr

/-- What iteration over a path yields. -/
inductive Part where
  | root
  | element (e : Element)
  | empty
  deriving DecidableEq, Repr

/-- The parts of a path in order. -/
def Spelling.parts (p : Spelling) : List Part :=
  (if p.absolute then [.root] else []) ++ p.elements.map .element ++
    if p.trailing = true ∧ p.elements ≠ [] then [.empty] else []

/-- A separator stands behind the last element. -/
def Spelling.EndsInSeparator (p : Spelling) : Prop := p.trailing = true ∧ p.elements ≠ []

instance (p : Spelling) : Decidable p.EndsInSeparator := inferInstanceAs (Decidable (_ ∧ _))

/-! ## Written paths -/

/-- What stands between two separators, as it is written. -/
def Element.ofChars (text : List Char) : Element :=
  if text = ['.'] then .dot
  else if text = ['.', '.'] then .dotDot
  else .name (String.ofList text)

/-- A path as it is written. -/
def Spelling.ofText (text : String) : Spelling where
  absolute := text.toList.head? = some '/'
  elements := ((text.toList.splitOn '/').filter (· ≠ [])).map Element.ofChars
  trailing := text.toList.getLast? = some '/'

/-- A name behind a path: `operator/`. -/
def Spelling.append (p : Spelling) (text : String) : Spelling :=
  ⟨p.absolute, p.elements ++ [.name text], false⟩

/-- `parent_path`: without the last element, or without the separator behind it. -/
def Spelling.parent (p : Spelling) : Spelling :=
  if p.elements = [] then p
  else if p.trailing then { p with trailing := false }
  else { p with elements := p.elements.dropLast }

theorem Spelling.parent_append (p : Spelling) (text : String) :
    (p.append text).parent = ⟨p.absolute, p.elements, false⟩ := by
  simp [parent, append]

/-- Paths are compared part by part, and the separator at the end is a part: the parent of what
stands in a directory is the directory as it was written, unless a separator ends it. -/
theorem Spelling.parts_parent_append (p : Spelling) (text : String) :
    (p.append text).parent.parts = p.parts ↔ ¬ p.EndsInSeparator := by
  rw [parent_append, parts, parts, EndsInSeparator]
  by_cases h : p.trailing = true ∧ p.elements ≠ []
  · simp [h]
  · simp [h]

theorem Spelling.parts_parent_append_append (p : Spelling) (directory text : String) :
    ((p.append directory).append text).parent.parts ≠ p.parts := by
  rw [parent_append, parts, parts, append]
  split_ifs <;> simp

/-! ## Normalising -/

/-- A normal form under construction: the leading `..`, the names behind them, and whether a
separator stands at the end. -/
structure Reduced where
  climb : ℕ
  names : List String
  slash : Bool
  deriving DecidableEq, Repr

/-- Normalisation takes the elements in order: `.` goes, `..` takes the name before it along, and
above the root there is nothing. -/
def Reduced.step (absolute : Bool) (r : Reduced) : Element → Reduced
  | .dot => { r with slash := true }
  | .dotDot =>
    if r.names ≠ [] then { r with names := r.names.dropLast, slash := true }
    else if absolute then { r with slash := true }
    else { r with climb := r.climb + 1, slash := false }
  | .name text => { r with names := r.names ++ [text], slash := false }

/-- The elements reduced. -/
def reduce (absolute : Bool) (elements : List Element) : Reduced :=
  elements.foldl (Reduced.step absolute) ⟨0, [], false⟩

def Reduced.elements (r : Reduced) : List Element :=
  List.replicate r.climb .dotDot ++ r.names.map .name

/-- The normal form of a path: no separator behind `..`, and `.` if nothing is left. -/
def lexicallyNormal (p : Spelling) : Spelling :=
  let r := reduce p.absolute p.elements
  if r.elements = [] ∧ p.absolute = false ∧ p.elements ≠ [] then ⟨false, [.dot], false⟩
  else ⟨p.absolute, r.elements, (p.trailing || r.slash) && !r.names.isEmpty⟩

/-- The elements of the normal form of a path that is not from the root. -/
def Spelling.relativeElements (p : Spelling) : List Element :=
  if (reduce false p.elements).elements = [] ∧ p.elements ≠ [] then [.dot]
  else (reduce false p.elements).elements

/-- Normalisation leaves a separator behind such an element. -/
def Element.opens : Element → Bool
  | .dot => true
  | .dotDot => true
  | .name _ => false

/-- The spelling ends in a separator, or in `.` or `..`. -/
def Spelling.endsOpen (p : Spelling) : Bool := p.trailing || p.elements.getLast?.any Element.opens

/-! ## Places -/

/-- The files of a system. -/
structure Tree where
  /-- The names of the working directory. -/
  workingDirectory : List String
  /-- The names of what a path leads to, if it exists. -/
  resolve : Spelling → Option (List String)
  /-- The root exists. -/
  resolve_root : ∀ trailing, resolve ⟨true, [], trailing⟩ = some []
  /-- The path without elements leads nowhere. -/
  resolve_nothing : ∀ trailing, resolve ⟨false, [], trailing⟩ = none

/-- One element further. -/
def place (names : List String) : Element → List String
  | .dot => names
  | .dotDot => names.dropLast
  | .name text => names ++ [text]

namespace Tree

variable (tree : Tree)

/-- The leading elements that exist, resolved, and the elements behind them. -/
def leading (absolute : Bool) :
    List Element → Option (List String) → List Element → Option (List String) × List Element
  | _, base, [] => (base, [])
  | seen, base, e :: rest =>
    match tree.resolve ⟨absolute, seen ++ [e], false⟩ with
    | some names => leading absolute (seen ++ [e]) (some names) rest
    | none => (base, e :: rest)

def existing (p : Spelling) : Option (List String) × List Element :=
  tree.leading p.absolute [] (tree.resolve ⟨p.absolute, [], false⟩) p.elements

/-- `std::filesystem::weakly_canonical`. -/
def weaklyCanonical (p : Spelling) : Spelling :=
  match tree.resolve p with
  | some names => ⟨true, names.map .name, false⟩
  | none =>
    match tree.existing p with
    | (some names, rest) => lexicallyNormal ⟨true, names.map .name ++ rest, p.trailing⟩
    | (none, rest) => lexicallyNormal ⟨false, rest, p.trailing⟩

/-- The place that a path leads to, whether it exists or not. -/
def location (p : Spelling) : List String :=
  match tree.resolve p with
  | some names => names
  | none => (tree.existing p).2.foldl place ((tree.existing p).1.getD tree.workingDirectory)

/-- Some leading part of the path exists. -/
def Anchored (p : Spelling) : Prop := (tree.resolve p).isSome ∨ (tree.existing p).1.isSome

instance (p : Spelling) : Decidable (tree.Anchored p) := inferInstanceAs (Decidable (_ ∨ _))

end Tree

/-! ## Normal forms -/

/-- Elements with a mark behind them. -/
def marked (elements : List Element) (mark : Bool) : List Part :=
  elements.map .element ++ if mark then [.empty] else []

/-- A mark is met by a mark alone. -/
theorem marked_prefix_iff (left right : List Element) (l r : Bool) :
    marked left l <+: marked right r ↔ left <+: right ∧ (l = true → right = left ∧ r = true) := by
  induction left generalizing right with
  | nil => cases right <;> cases l <;> cases r <;> simp [marked]
  | cons e left ih =>
    cases right with
    | nil => cases r <;> simp [marked]
    | cons e' right =>
      have hcons : ∀ (e : Element) elements mark,
          marked (e :: elements) mark = .element e :: marked elements mark := fun _ _ _ => rfl
      rw [hcons, hcons, List.cons_prefix_cons, List.cons_prefix_cons, ih, List.cons.injEq,
        Part.element.injEq]
      grind

/-- The form of a path whose trailing separator is kept only behind an element. -/
theorem parts_eq_marked {p : Spelling} (h : p.trailing = true → p.elements ≠ []) :
    p.parts = (if p.absolute then [.root] else []) ++ marked p.elements p.trailing := by
  rw [Spelling.parts, marked, List.append_assoc]
  cases htrailing : p.trailing with
  | false => simp
  | true => simp [h htrailing]

theorem Reduced.names_of_elements_nil {r : Reduced} (h : r.elements = []) : r.names = [] :=
  List.map_eq_nil_iff.mp (List.append_eq_nil_iff.mp h).2

theorem reduce_concat (absolute : Bool) (elements : List Element) (e : Element) :
    reduce absolute (elements ++ [e]) = (reduce absolute elements).step absolute e := by
  rw [reduce, List.foldl_append]
  rfl

/-- A separator at the end comes from the last element. -/
theorem reduce_slash {absolute : Bool} {elements : List Element}
    (h : (reduce absolute elements).names ≠ []) :
    (reduce absolute elements).slash = elements.getLast?.any Element.opens := by
  rcases List.eq_nil_or_concat elements with rfl | ⟨before, e, rfl⟩
  · exact absurd rfl h
  · rw [List.concat_eq_append, reduce_concat] at h ⊢
    rw [List.getLast?_append, List.getLast?_singleton]
    cases e with
    | dot => rfl
    | name text => rfl
    | dotDot =>
      simp only [Reduced.step] at h ⊢
      split
      · rfl
      · rename_i hnames
        rw [if_neg hnames] at h
        split at h
        · exact absurd h hnames
        · exact absurd h hnames

/-- When the normal form ends in a separator. -/
theorem reduce_keeps (absolute trailing : Bool) (elements : List Element) :
    ((trailing || (reduce absolute elements).slash) &&
        !(reduce absolute elements).names.isEmpty) = true ↔
      (trailing || elements.getLast?.any Element.opens) = true ∧
        (reduce absolute elements).names ≠ [] := by
  rw [Bool.and_eq_true, Bool.not_eq_true', List.isEmpty_eq_false_iff]
  constructor
  · rintro ⟨hslash, hnames⟩
    rw [reduce_slash hnames] at hslash
    exact ⟨hslash, hnames⟩
  · rintro ⟨hslash, hnames⟩
    rw [reduce_slash hnames]
    exact ⟨hslash, hnames⟩

/-- From the root, the names of the normal form are the place. -/
theorem reduce_absolute (elements : List Element) :
    (reduce true elements).climb = 0 ∧ (reduce true elements).names = elements.foldl place [] := by
  induction elements using List.reverseRecOn with
  | nil => exact ⟨rfl, rfl⟩
  | append_singleton before e ih =>
    obtain ⟨hclimb, hnames⟩ := ih
    rw [reduce_concat, List.foldl_append, List.foldl_cons, List.foldl_nil, ← hnames]
    cases e with
    | dot => exact ⟨hclimb, rfl⟩
    | name text => exact ⟨hclimb, rfl⟩
    | dotDot =>
      simp only [Reduced.step, place, if_true]
      split
      · exact ⟨hclimb, rfl⟩
      · rename_i hempty
        rw [not_not.mp hempty]
        exact ⟨hclimb, rfl⟩

/-- From a directory, the names of the normal form are the place once the leading `..` have been
climbed. -/
theorem foldl_place_relative (base : List String) (elements : List Element) :
    elements.foldl place base =
      List.dropLast^[(reduce false elements).climb] base ++ (reduce false elements).names := by
  induction elements using List.reverseRecOn with
  | nil => exact (List.append_nil base).symm
  | append_singleton before e ih =>
    rw [reduce_concat, List.foldl_append, List.foldl_cons, List.foldl_nil, ih]
    cases e with
    | dot => rfl
    | name text => exact List.append_assoc _ _ _
    | dotDot =>
      simp only [Reduced.step, place]
      split
      · rename_i hnames
        exact List.dropLast_append_of_ne_nil hnames
      · rename_i hempty
        simp only [not_not.mp hempty, List.append_nil, Bool.false_eq_true, if_false,
          Function.iterate_succ_apply']

theorem foldl_place_names (base names : List String) :
    (names.map Element.name).foldl place base = base ++ names := by
  induction names generalizing base with
  | nil => exact (List.append_nil base).symm
  | cons text names ih =>
    rw [List.map_cons, List.foldl_cons, ih]
    exact List.append_assoc _ _ _

/-! ## The weakly canonical form -/

namespace Tree

variable {tree : Tree} {p : Spelling} {absolute : Bool} {base : Option (List String)}
variable {seen elements : List Element}

theorem leading_ne_none (seen elements : List Element) (names : List String) :
    (tree.leading absolute seen (some names) elements).1 ≠ none := by
  induction elements generalizing seen names with
  | nil => exact Option.some_ne_none names
  | cons e rest ih =>
    simp only [leading]
    split
    · exact ih _ _
    · exact Option.some_ne_none names

/-- Where nothing exists, every element is left. -/
theorem leading_of_none (h : (tree.leading absolute seen base elements).1 = none) :
    (tree.leading absolute seen base elements).2 = elements := by
  cases elements with
  | nil => rfl
  | cons e rest =>
    simp only [leading] at h ⊢
    split at h
    · exact absurd h (leading_ne_none _ _ _)
    · rfl

theorem leading_suffix : (tree.leading absolute seen base elements).2 <:+ elements := by
  induction elements generalizing seen base with
  | nil => exact List.suffix_rfl
  | cons e rest ih =>
    simp only [leading]
    split
    · exact ih.trans (List.suffix_cons e rest)
    · exact List.suffix_rfl

/-- Where no element is left, the whole path has been resolved. -/
theorem leading_nil (hbase : base = tree.resolve ⟨absolute, seen, false⟩)
    (h : (tree.leading absolute seen base elements).2 = []) :
    (tree.leading absolute seen base elements).1 =
      tree.resolve ⟨absolute, seen ++ elements, false⟩ := by
  induction elements generalizing seen base with
  | nil => rw [List.append_nil, ← hbase]; rfl
  | cons e rest ih =>
    simp only [leading] at h ⊢
    split at h
    · rename_i names hnames
      rw [ih hnames.symm h, List.append_assoc]
      rfl
    · cases h

/-- A path from the root has a leading part that exists. -/
theorem anchored_of_absolute (h : p.absolute = true) : tree.Anchored p := by
  refine Or.inr (Option.isSome_iff_ne_none.mpr ?_)
  rw [existing, h, tree.resolve_root]
  exact leading_ne_none _ _ _

/-- What a path without an existing part is read from. -/
theorem existing_of_not_anchored (h : ¬ tree.Anchored p) :
    p.absolute = false ∧ tree.resolve p = none ∧ tree.existing p = (none, p.elements) := by
  have habsolute : p.absolute = false := by
    cases hp : p.absolute with
    | true => exact absurd (anchored_of_absolute hp) h
    | false => rfl
  obtain ⟨hresolve, hexisting⟩ := not_or.mp h
  rw [Option.not_isSome_iff_eq_none] at hresolve hexisting
  exact ⟨habsolute, hresolve, Prod.ext hexisting (leading_of_none hexisting)⟩

theorem existing_suffix : (tree.existing p).2 <:+ p.elements := leading_suffix

theorem existing_nil (h : (tree.existing p).2 = []) :
    (tree.existing p).1 = tree.resolve ⟨p.absolute, p.elements, false⟩ := leading_nil rfl h

/-- The last element of a path that does not exist is one of those left. -/
theorem endsOpen_of_existing {names : List String} {rest : List Element}
    (hresolve : tree.resolve p = none) (hexisting : tree.existing p = (some names, rest)) :
    p.endsOpen = (p.trailing || (names.map Element.name ++ rest).getLast?.any Element.opens) := by
  cases htrailing : p.trailing with
  | true => simp [Spelling.endsOpen, htrailing]
  | false =>
    have hrest : rest ≠ [] := by
      intro hnil
      have hwhole : (tree.existing p).1 = tree.resolve ⟨p.absolute, p.elements, false⟩ :=
        existing_nil (by rw [hexisting]; exact hnil)
      rw [← htrailing, hexisting, hresolve] at hwhole
      cases hwhole
    obtain ⟨before, hbefore⟩ : rest <:+ p.elements := by
      have hleft : (tree.existing p).2 <:+ p.elements := existing_suffix
      rwa [hexisting] at hleft
    rw [Spelling.endsOpen, htrailing, ← hbefore, List.getLast?_append_of_ne_nil _ hrest,
      List.getLast?_append_of_ne_nil _ hrest]

/-- The names that the form of a path spells out. -/
def spelledNames (tree : Tree) (p : Spelling) : List String :=
  if tree.Anchored p then tree.location p else (reduce false p.elements).names

/-- The form of the path ends in a separator: nothing is there yet, and its spelling ends in a
separator, or in `.` or `..`. -/
def KeepsSeparator (tree : Tree) (p : Spelling) : Prop :=
  tree.resolve p = none ∧ p.endsOpen = true ∧ tree.spelledNames p ≠ []

instance : Decidable (tree.KeepsSeparator p) := inferInstanceAs (Decidable (_ ∧ _ ∧ _))

/-- The form of a path some of which exists: its place, from the root. -/
theorem weaklyCanonical_of_anchored (h : tree.Anchored p) :
    tree.weaklyCanonical p =
      ⟨true, (tree.location p).map .name, decide (tree.KeepsSeparator p)⟩ := by
  have hspelled : tree.spelledNames p = tree.location p := if_pos h
  cases hresolve : tree.resolve p with
  | some names =>
    simp [weaklyCanonical, location, KeepsSeparator, hresolve]
  | none =>
    obtain ⟨names, rest, hexisting⟩ : ∃ names rest, tree.existing p = (some names, rest) := by
      have hsome := h.resolve_left (by simp [hresolve])
      obtain ⟨names, hnames⟩ := Option.isSome_iff_exists.mp hsome
      exact ⟨names, (tree.existing p).2, Prod.ext hnames rfl⟩
    have hplace : (reduce true (names.map .name ++ rest)).names = tree.location p := by
      rw [(reduce_absolute _).2, List.foldl_append, foldl_place_names, location, hresolve,
        hexisting]
      rfl
    have hmark : ((p.trailing || (reduce true (names.map .name ++ rest)).slash) &&
        !(reduce true (names.map .name ++ rest)).names.isEmpty) =
          decide (tree.KeepsSeparator p) := by
      rw [Bool.eq_iff_iff, decide_eq_true_iff, reduce_keeps, KeepsSeparator, hspelled, hplace,
        endsOpen_of_existing hresolve hexisting, hresolve]
      exact (and_iff_right rfl).symm
    have helements : (reduce true (names.map .name ++ rest)).elements =
        (tree.location p).map .name := by
      rw [Reduced.elements, (reduce_absolute _).1, hplace]
      rfl
    simp only [weaklyCanonical, hresolve, hexisting, lexicallyNormal, hmark, helements,
      Bool.true_eq_false, false_and, and_false, if_false]

/-- The form of a path nothing of which exists: by its spelling, from the working directory. -/
theorem weaklyCanonical_of_not_anchored (h : ¬ tree.Anchored p) :
    tree.weaklyCanonical p =
      ⟨false, p.relativeElements, decide (tree.KeepsSeparator p)⟩ := by
  obtain ⟨-, hresolve, hexisting⟩ := existing_of_not_anchored h
  have hspelled : tree.spelledNames p = (reduce false p.elements).names := if_neg h
  have hmark : ((p.trailing || (reduce false p.elements).slash) &&
      !(reduce false p.elements).names.isEmpty) = decide (tree.KeepsSeparator p) := by
    rw [Bool.eq_iff_iff, decide_eq_true_iff, reduce_keeps, KeepsSeparator, hspelled, hresolve]
    exact (and_iff_right rfl).symm
  simp only [weaklyCanonical, hresolve, hexisting, lexicallyNormal, hmark, true_and,
    Spelling.relativeElements]
  split
  · rename_i hnothing
    have hkeeps : ¬ tree.KeepsSeparator p := by
      rintro ⟨-, -, hnames⟩
      rw [hspelled] at hnames
      exact hnames (Reduced.names_of_elements_nil hnothing.1)
    simp only [hkeeps, decide_false]
  · rfl

/-- The place of a path nothing of which exists: from the working directory. -/
theorem location_of_not_anchored (h : ¬ tree.Anchored p) :
    tree.location p = List.dropLast^[(reduce false p.elements).climb] tree.workingDirectory ++
      (reduce false p.elements).names := by
  obtain ⟨-, hresolve, hexisting⟩ := existing_of_not_anchored h
  rw [location, hresolve, hexisting]
  exact foldl_place_relative _ _

end Tree

end Paths
