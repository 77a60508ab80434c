import MonteCarlo.Library.Paths
import MonteCarlo.Replay.Descriptor

/-!
# Replay evidence and the run directory

`path_is_within`, which keeps a replay descriptor out of the run directory, for every spelling of
the two paths and whatever exists.

* `pathIsWithin` — the component-wise comparison of the two weakly canonical forms.
* `AtOrBelow` — the candidate is located at or below the directory.
* `Guards` — the spellings for which the comparison notices that.
-/

namespace MonteCarlo

open Paths

/-! ## The code -/

/-- The loop of `path_is_within`. -/
def partsWithin : List Part → List Part → Bool
  | _, [] => true
  | [], _ :: _ => false
  | candidatePart :: candidateParts, directoryPart :: directoryParts =>
    if candidatePart ≠ directoryPart then false else partsWithin candidateParts directoryParts

/-- `path_is_within`. -/
def pathIsWithin (tree : Tree) (candidate directory : Spelling) : Bool :=
  partsWithin (tree.weaklyCanonical candidate).parts (tree.weaklyCanonical directory).parts

/-- What `FailureInjector` finds out about the replay path, `present` being whether it exists. -/
def inspectPaths (tree : Tree) (candidate directory : Spelling) (present : Except Errno Bool) :
    PathInspection where
  within := .ok (pathIsWithin tree candidate directory)
  present := present

theorem partsWithin_iff (candidate directory : List Part) :
    partsWithin candidate directory = true ↔ directory <+: candidate := by
  induction directory generalizing candidate with
  | nil => simp [partsWithin]
  | cons d directory ih =>
    cases candidate with
    | nil => simp [partsWithin]
    | cons c candidate =>
      rw [partsWithin, List.cons_prefix_cons, ← ih]
      split
      · rename_i hne
        simp [Ne.symm hne]
      · rename_i heq
        simp [not_not.mp heq]

/-! ## Which spellings are compared rightly -/

/-- The candidate is located at the directory or below it. -/
def AtOrBelow (tree : Tree) (candidate directory : Spelling) : Prop :=
  tree.location directory <+: tree.location candidate

instance (tree : Tree) (candidate directory : Spelling) :
    Decidable (AtOrBelow tree candidate directory) :=
  inferInstanceAs (Decidable (_ <+: _))

/-- Paths nothing of which exists are compared from the working directory. The leading `..` must be
as many, unless the directory is nothing else; and a directory that reduces to the working directory
itself is met by the same alone. -/
def ClimbsLike (directory candidate : Spelling) : Prop :=
  if (reduce false directory.elements).names ≠ [] then
    (reduce false directory.elements).climb = (reduce false candidate.elements).climb
  else if (reduce false directory.elements).climb = 0 then
    (reduce false candidate.elements).elements = [] ∧ candidate.elements ≠ []
  else (reduce false directory.elements).climb ≤ (reduce false candidate.elements).climb

/-- The forms of the two paths are counted from the same directory. -/
def SameAnchor (tree : Tree) (directory candidate : Spelling) : Prop :=
  (tree.Anchored directory ∧ tree.Anchored candidate) ∨
    (¬ tree.Anchored directory ∧ ¬ tree.Anchored candidate ∧ ClimbsLike directory candidate)

/-- The directory is the empty path; or the two forms are counted from the same directory, and that
of the directory ends in no separator, unless the candidate is the same place and its form ends in
one too. -/
def Guards (tree : Tree) (directory candidate : Spelling) : Prop :=
  (directory.absolute = false ∧ directory.elements = []) ∨
    (SameAnchor tree directory candidate ∧
      (tree.KeepsSeparator directory →
        tree.KeepsSeparator candidate ∧ tree.location candidate = tree.location directory))

/-- The leading `..` of two normal forms are compared before their names. -/
theorem reduced_prefix_iff (r s : Reduced) :
    r.elements <+: s.elements ↔
      (r.climb = s.climb ∧ r.names <+: s.names) ∨ (r.climb < s.climb ∧ r.names = []) := by
  obtain ⟨j, names, slash⟩ := r
  obtain ⟨k, names', slash'⟩ := s
  simp only [Reduced.elements]
  induction j generalizing k with
  | zero =>
    cases k with
    | zero =>
      have hname : Function.Injective Element.name := fun _ _ h => Element.name.inj h
      simp [List.prefix_map_iff_of_injective hname]
    | succ k => cases names <;> simp [List.replicate_succ]
  | succ j ih =>
    cases k with
    | zero => cases names' <;> simp [List.replicate_succ]
    | succ k =>
      rw [List.replicate_succ, List.replicate_succ, List.cons_append, List.cons_append,
        List.cons_prefix_cons, ih]
      simp

variable {tree : Tree} {candidate directory : Spelling}

theorem keepsSeparator_ne_nil (h : tree.Anchored directory) :
    decide (tree.KeepsSeparator directory) = true →
      (tree.location directory).map Element.name ≠ [] := by
  intro hkeeps hnil
  have hspelled : tree.spelledNames directory = tree.location directory := if_pos h
  exact (of_decide_eq_true hkeeps).2.2 (hspelled.trans (List.map_eq_nil_iff.mp hnil))

/-- Both paths have a part that exists. -/
theorem pathIsWithin_of_anchored (hdirectory : tree.Anchored directory)
    (hcandidate : tree.Anchored candidate) (hbelow : AtOrBelow tree candidate directory) :
    pathIsWithin tree candidate directory = true ↔
      (tree.KeepsSeparator directory →
        tree.KeepsSeparator candidate ∧ tree.location candidate = tree.location directory) := by
  have hname : Function.Injective Element.name := fun _ _ h => Element.name.inj h
  rw [pathIsWithin, partsWithin_iff, Tree.weaklyCanonical_of_anchored hdirectory,
    Tree.weaklyCanonical_of_anchored hcandidate, parts_eq_marked (keepsSeparator_ne_nil hdirectory),
    parts_eq_marked (keepsSeparator_ne_nil hcandidate), List.prefix_append_right_inj,
    marked_prefix_iff, and_iff_right (hbelow.map Element.name)]
  simp only [decide_eq_true_eq, (List.map_injective_iff.mpr hname).eq_iff]
  exact forall_congr' fun _ => and_comm

theorem dot_notMem_elements (r : Reduced) : Element.dot ∉ r.elements := by
  simp [Reduced.elements]

/-- `.` is met by `.` alone. -/
theorem dot_notPrefix_elements (r : Reduced) : ¬ [Element.dot] <+: r.elements := fun h =>
  dot_notMem_elements r (h.subset (List.mem_singleton_self _))

theorem elements_notPrefix_dot {r : Reduced} (hr : r.elements ≠ []) : ¬ r.elements <+: [.dot] := by
  intro h
  have hwhole := h.eq_of_length_le (List.length_pos_iff.mpr hr)
  exact dot_notMem_elements r (hwhole ▸ List.mem_singleton_self _)

/-- Neither path has a part that exists: what the two spellings must share. -/
theorem relativeElements_prefix_iff (hdirectory : directory.elements ≠ []) :
    directory.relativeElements <+: candidate.relativeElements ↔
      ClimbsLike directory candidate ∧
        (reduce false directory.elements).names <+: (reduce false candidate.elements).names := by
  simp only [ClimbsLike, Spelling.relativeElements]
  generalize reduce false directory.elements = r
  generalize reduce false candidate.elements = s
  by_cases hnames : r.names = []
  · rw [if_neg (not_not.mpr hnames), hnames, and_iff_left List.nil_prefix]
    by_cases hclimb : r.climb = 0
    · -- The directory is written `.`.
      have hr : r.elements = [] := by simp [Reduced.elements, hnames, hclimb]
      rw [if_pos ⟨hr, hdirectory⟩, if_pos hclimb]
      split
      · rename_i hs
        exact iff_of_true List.prefix_rfl hs
      · rename_i hs
        exact iff_of_false (dot_notPrefix_elements s) hs
    · have hr : r.elements ≠ [] := by simp [Reduced.elements, hclimb]
      rw [if_neg fun h => hr h.1, if_neg hclimb]
      split
      · rename_i hs
        have hs' : s.climb = 0 := by
          simpa using (List.append_eq_nil_iff.mp hs.1).1
        exact iff_of_false (elements_notPrefix_dot hr) (by omega)
      · rw [reduced_prefix_iff, hnames]
        simp only [List.nil_prefix, and_true]
        exact le_iff_eq_or_lt.symm
  · have hr : r.elements ≠ [] := fun h => hnames (Reduced.names_of_elements_nil h)
    rw [if_neg fun h => hr h.1, if_pos hnames]
    split
    · rename_i hs
      have hs' := Reduced.names_of_elements_nil hs.1
      refine iff_of_false (elements_notPrefix_dot hr) ?_
      rw [hs', List.prefix_nil]
      tauto
    · rw [reduced_prefix_iff]
      tauto

theorem keepsSeparator_names (hanchored : ¬ tree.Anchored directory)
    (h : tree.KeepsSeparator directory) : (reduce false directory.elements).names ≠ [] := by
  have hspelled : tree.spelledNames directory = (reduce false directory.elements).names :=
    if_neg hanchored
  exact hspelled ▸ h.2.2

theorem relativeElements_ne_nil (hanchored : ¬ tree.Anchored directory) :
    decide (tree.KeepsSeparator directory) = true → directory.relativeElements ≠ [] := by
  intro hkeeps
  have hnames := keepsSeparator_names hanchored (of_decide_eq_true hkeeps)
  rw [Spelling.relativeElements]
  split
  · exact List.cons_ne_nil _ _
  · exact fun hnil => hnames (Reduced.names_of_elements_nil hnil)

/-- From the same directory, the places are compared as the names are. -/
theorem names_prefix_of_climbsLike (hdirectory : ¬ tree.Anchored directory)
    (hcandidate : ¬ tree.Anchored candidate) (hbelow : AtOrBelow tree candidate directory)
    (hclimbs : ClimbsLike directory candidate) :
    (reduce false directory.elements).names <+: (reduce false candidate.elements).names := by
  by_cases hnames : (reduce false directory.elements).names = []
  · rw [hnames]
    exact List.nil_prefix
  · rw [ClimbsLike, if_pos hnames] at hclimbs
    rw [AtOrBelow, Tree.location_of_not_anchored hdirectory,
      Tree.location_of_not_anchored hcandidate, hclimbs] at hbelow
    exact (List.prefix_append_right_inj _).mp hbelow

/-- From the same directory, the same place has the same spelling. -/
theorem relativeElements_eq_iff (hdirectory : ¬ tree.Anchored directory)
    (hcandidate : ¬ tree.Anchored candidate)
    (hnames : (reduce false directory.elements).names ≠ [])
    (hclimbs : ClimbsLike directory candidate) :
    candidate.relativeElements = directory.relativeElements ↔
      tree.location candidate = tree.location directory := by
  rw [ClimbsLike, if_pos hnames] at hclimbs
  rw [Tree.location_of_not_anchored hdirectory, Tree.location_of_not_anchored hcandidate, ← hclimbs,
    List.append_cancel_left_eq, Spelling.relativeElements, Spelling.relativeElements]
  generalize reduce false directory.elements = r at *
  generalize reduce false candidate.elements = s at *
  have hr : r.elements ≠ [] := fun h => hnames (Reduced.names_of_elements_nil h)
  have hname : Function.Injective Element.name := fun _ _ h => Element.name.inj h
  have helements : s.elements = r.elements ↔ s.names = r.names := by
    rw [Reduced.elements, Reduced.elements, hclimbs, List.append_cancel_left_eq,
      (List.map_injective_iff.mpr hname).eq_iff]
  have hwritten : (if r.elements = [] ∧ directory.elements ≠ [] then [Element.dot]
      else r.elements) = r.elements := if_neg fun h => hr h.1
  rw [hwritten, ← helements]
  split
  · rename_i hs
    refine iff_of_false (fun hdot => ?_) (hs.1 ▸ hr.symm)
    exact dot_notMem_elements r (hdot ▸ List.mem_singleton_self _)
  · rfl

/-- Neither path has a part that exists. -/
theorem pathIsWithin_of_not_anchored (hdirectory : ¬ tree.Anchored directory)
    (hcandidate : ¬ tree.Anchored candidate) (helements : directory.elements ≠ [])
    (hbelow : AtOrBelow tree candidate directory) :
    pathIsWithin tree candidate directory = true ↔
      ClimbsLike directory candidate ∧ (tree.KeepsSeparator directory →
        tree.KeepsSeparator candidate ∧ tree.location candidate = tree.location directory) := by
  rw [pathIsWithin, partsWithin_iff, Tree.weaklyCanonical_of_not_anchored hdirectory,
    Tree.weaklyCanonical_of_not_anchored hcandidate,
    parts_eq_marked (relativeElements_ne_nil hdirectory),
    parts_eq_marked (relativeElements_ne_nil hcandidate), List.prefix_append_right_inj,
    marked_prefix_iff, relativeElements_prefix_iff helements,
    and_iff_left_of_imp (names_prefix_of_climbsLike hdirectory hcandidate hbelow)]
  simp only [decide_eq_true_eq]
  refine and_congr_right fun hclimbs => forall_congr' fun hkeeps => ?_
  rw [relativeElements_eq_iff hdirectory hcandidate (keepsSeparator_names hdirectory hkeeps)
    hclimbs]
  exact and_comm

theorem relativeElements_eq_nil : directory.relativeElements = [] ↔ directory.elements = [] := by
  constructor
  · intro hnil
    by_contra helements
    rw [Spelling.relativeElements] at hnil
    split at hnil
    · cases hnil
    · rename_i hne
      exact hne ⟨hnil, helements⟩
  · intro helements
    rw [Spelling.relativeElements, helements]
    rfl

theorem not_anchored_of_nothing (habsolute : directory.absolute = false)
    (helements : directory.elements = []) : ¬ tree.Anchored directory := by
  obtain ⟨absolute, elements, trailing⟩ := directory
  obtain rfl : absolute = false := habsolute
  obtain rfl : elements = [] := helements
  simp [Tree.Anchored, Tree.existing, Tree.leading, tree.resolve_nothing]

theorem root_notMem_marked (elements : List Element) (mark : Bool) :
    Part.root ∉ marked elements mark := by
  cases mark <;> simp [marked]

/-- The directory has a part that exists and the candidate has not. -/
theorem not_pathIsWithin_of_anchored (hdirectory : tree.Anchored directory)
    (hcandidate : ¬ tree.Anchored candidate) : pathIsWithin tree candidate directory = false := by
  rw [← Bool.not_eq_true, pathIsWithin, partsWithin_iff,
    Tree.weaklyCanonical_of_anchored hdirectory, Tree.weaklyCanonical_of_not_anchored hcandidate,
    parts_eq_marked (keepsSeparator_ne_nil hdirectory),
    parts_eq_marked (relativeElements_ne_nil hcandidate)]
  intro hparts
  exact root_notMem_marked _ _ (hparts.subset List.mem_cons_self)

theorem pathIsWithin_of_nothing (hdirectory : ¬ tree.Anchored directory)
    (helements : directory.elements = []) : pathIsWithin tree candidate directory = true := by
  rw [pathIsWithin, partsWithin_iff, Tree.weaklyCanonical_of_not_anchored hdirectory,
    relativeElements_eq_nil.mpr helements]
  simp [Spelling.parts]

/-- The candidate has a part that exists and the directory has not. -/
theorem pathIsWithin_of_candidate_anchored (hdirectory : ¬ tree.Anchored directory)
    (hcandidate : tree.Anchored candidate) :
    pathIsWithin tree candidate directory = true ↔ directory.elements = [] := by
  refine ⟨fun hwithin => ?_, pathIsWithin_of_nothing hdirectory⟩
  rw [pathIsWithin, partsWithin_iff, Tree.weaklyCanonical_of_not_anchored hdirectory,
    Tree.weaklyCanonical_of_anchored hcandidate,
    parts_eq_marked (relativeElements_ne_nil hdirectory),
    parts_eq_marked (keepsSeparator_ne_nil hcandidate)] at hwithin
  dsimp only at hwithin
  by_contra helements
  obtain ⟨e, rest, hcons⟩ := List.exists_cons_of_ne_nil (mt relativeElements_eq_nil.mp helements)
  rw [hcons] at hwithin
  have hroot := (List.cons_prefix_cons.mp hwithin).1
  cases hroot

/-- `FailureInjector` refuses a candidate that `path_is_within` notices. -/
theorem injector_refuses (hwithin : pathIsWithin tree candidate directory = true)
    (build : BuildIdentity) (spec : RunSpec) (engineConfig : EngineConfig)
    (storeConfig : RunStoreConfig) (injection : FailureInjectionConfig)
    (present : Except Errno Bool) :
    ∃ e, FailureInjector.new build spec engineConfig storeConfig (some injection)
      (inspectPaths tree candidate directory present) = .error e := by
  simp only [FailureInjector.new, inspectPaths, hwithin]
  cases throwIf (engineConfig.workerCount ≠ 1) _ with
  | error e => exact ⟨e, rfl⟩
  | ok _ =>
    cases injection.validate with
    | error e => exact ⟨e, rfl⟩
    | ok _ => exact ⟨_, rfl⟩

/-- A candidate located at the directory or below it is noticed exactly when the spellings allow it,
and then the injector refuses the configuration. -/
theorem replay_evidence_outside_iff (tree : Tree) (candidate directory : Spelling)
    (hbelow : AtOrBelow tree candidate directory) :
    (pathIsWithin tree candidate directory = true ↔ Guards tree directory candidate) ∧
    (Guards tree directory candidate →
      ∀ build spec engineConfig storeConfig injection present, ∃ e,
        FailureInjector.new build spec engineConfig storeConfig (some injection)
          (inspectPaths tree candidate directory present) = .error e) := by
  have hguards :
      pathIsWithin tree candidate directory = true ↔ Guards tree directory candidate := by
    rw [Guards, SameAnchor]
    by_cases hdirectory : tree.Anchored directory
    · have hsomething : ¬ (directory.absolute = false ∧ directory.elements = []) :=
        fun h => not_anchored_of_nothing h.1 h.2 hdirectory
      by_cases hcandidate : tree.Anchored candidate
      · rw [pathIsWithin_of_anchored hdirectory hcandidate hbelow]
        simp [hsomething, hdirectory, hcandidate]
      · rw [not_pathIsWithin_of_anchored hdirectory hcandidate]
        simp [hsomething, hdirectory, hcandidate]
    · have habsolute := (Tree.existing_of_not_anchored hdirectory).1
      by_cases hcandidate : tree.Anchored candidate
      · rw [pathIsWithin_of_candidate_anchored hdirectory hcandidate]
        simp [hdirectory, hcandidate, habsolute]
      · by_cases helements : directory.elements = []
        · rw [pathIsWithin_of_nothing hdirectory helements]
          simp [habsolute, helements]
        · rw [pathIsWithin_of_not_anchored hdirectory hcandidate helements hbelow]
          simp [hdirectory, hcandidate, helements]
  exact ⟨hguards, fun h => injector_refuses (hguards.mpr h)⟩

/-- A system with a directory for temporary files and no run in it. -/
def temporaryTree : Tree where
  workingDirectory := ["home"]
  resolve spelling :=
    if spelling.absolute && spelling.elements.isEmpty then some []
    else if spelling.absolute && spelling.elements = [.name "tmp"] then some ["tmp"] else none
  resolve_root _ := rfl
  resolve_nothing _ := rfl

/-- The run directory `/tmp/run` is not there yet, and the descriptor would be below it. -/
theorem replay_evidence_outside_new_run :
    pathIsWithin temporaryTree ⟨true, [.name "tmp", .name "run", .name "failure.replay"], false⟩
      ⟨true, [.name "tmp", .name "run"], false⟩ = true :=
  (replay_evidence_outside_iff temporaryTree _ _ (by decide)).1.mpr
    (.inr ⟨.inl ⟨by decide, by decide⟩, fun h => absurd h (by decide)⟩)

/-- Written with a separator at the end, the same run directory does not notice the descriptor. -/
theorem replay_evidence_inside_new_run :
    ¬ ∀ (tree : Tree) (candidate directory : Spelling), AtOrBelow tree candidate directory →
      pathIsWithin tree candidate directory = true := by
  intro h
  have hwithin := h temporaryTree ⟨true, [.name "tmp", .name "run", .name "failure.replay"], false⟩
    ⟨true, [.name "tmp", .name "run"], true⟩ (by decide)
  exact absurd hwithin (by decide)

end MonteCarlo
