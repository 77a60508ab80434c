import Mathlib

/-!
# Reduction by position

A list can be reduced by merging neighbours level after level, or by a recursive split at the largest
power of two below its length.  For a partial operation that need not be associative both give the
same value: the tree is fixed by the positions of the leaves.

* `treeReduce` — the recursive split.
* `pairUp` — one level; an odd last element is carried over.
* `treeReduce_pairUp` — one level does not change the value.
* `Tree`, `Tree.eval` — the tree itself; `positions` is the one over the first natural numbers.
* `treeReduce_eq_eval` — reducing a list is evaluating the tree of its positions.
-/

namespace Reduction

variable {A : Type} {merge : A → A → Option A}

/-! ## The split point -/

/-- The largest power of two below `n`, for `n` at least 2. -/
def splitPoint (n : ℕ) : ℕ := 2 ^ Nat.log 2 (n - 1)

theorem splitPoint_pos (n : ℕ) : 0 < splitPoint n := Nat.pow_pos (by norm_num)

theorem splitPoint_lt {n : ℕ} (h : 2 ≤ n) : splitPoint n < n := by
  have hle := Nat.pow_log_le_self 2 (show n - 1 ≠ 0 by omega)
  unfold splitPoint
  omega

theorem le_two_mul_splitPoint (n : ℕ) : n ≤ 2 * splitPoint n := by
  have hlt := Nat.lt_pow_succ_log_self (show 1 < 2 by norm_num) (n - 1)
  rw [pow_succ] at hlt
  unfold splitPoint
  omega

/-- No other power of two is below `n` and at least half of it. -/
theorem splitPoint_eq {n k : ℕ} (hlt : 2 ^ k < n) (hle : n ≤ 2 * 2 ^ k) : splitPoint n = 2 ^ k := by
  unfold splitPoint
  rw [Nat.log_eq_of_pow_le_of_lt_pow (b := 2) (m := k) (by omega) (by rw [pow_succ]; omega)]

/-! ## The two reductions -/

/-- Reduce the leaves up to the split point, then the others, and merge the two. -/
def treeReduce (merge : A → A → Option A) (leaves : List A) : Option A :=
  match leaves with
  | [] => none
  | [leaf] => some leaf
  | first :: second :: rest => do
    let left ← treeReduce merge ((first :: second :: rest).take (splitPoint (rest.length + 2)))
    let right ← treeReduce merge ((first :: second :: rest).drop (splitPoint (rest.length + 2)))
    merge left right
termination_by leaves.length
decreasing_by
  · have hlt := splitPoint_lt (show 2 ≤ rest.length + 2 by omega)
    simp only [List.length_take, List.length_cons]
    omega
  · have hpos := splitPoint_pos (rest.length + 2)
    simp only [List.length_drop, List.length_cons]
    omega

/-- One level: neighbours are merged. -/
def pairUp (merge : A → A → Option A) : List A → Option (List A)
  | first :: second :: rest => do
    let merged ← merge first second
    let next ← pairUp merge rest
    some (merged :: next)
  | level => some level

theorem treeReduce_singleton (leaf : A) : treeReduce merge [leaf] = some leaf := by
  rw [treeReduce]

/-- The defining equation, for any list of at least two leaves. -/
theorem treeReduce_split {leaves : List A} (h : 2 ≤ leaves.length) :
    treeReduce merge leaves = (do
      let left ← treeReduce merge (leaves.take (splitPoint leaves.length))
      let right ← treeReduce merge (leaves.drop (splitPoint leaves.length))
      merge left right) := by
  match leaves with
  | [] => simp at h
  | [_] => simp at h
  | first :: second :: rest => rw [treeReduce]; rfl

/-- A full left half and at most as much to its right. -/
theorem treeReduce_append {left right : List A} {k : ℕ} (hleft : left.length = 2 ^ k)
    (hright : right ≠ []) (hle : right.length ≤ 2 ^ k) :
    treeReduce merge (left ++ right) = (do
      let a ← treeReduce merge left
      let b ← treeReduce merge right
      merge a b) := by
  have hpos := List.length_pos_iff.mpr hright
  have htwo : 0 < 2 ^ k := Nat.pow_pos (by norm_num)
  have hsplit : splitPoint (left ++ right).length = left.length := by
    rw [List.length_append, hleft]
    exact splitPoint_eq (by omega) (by omega)
  rw [treeReduce_split (by rw [List.length_append]; omega), hsplit, List.take_left, List.drop_left]

theorem pairUp_append {left : List A} (heven : left.length % 2 = 0) (right : List A) :
    pairUp merge (left ++ right) = (do
      let a ← pairUp merge left
      let b ← pairUp merge right
      some (a ++ b)) := by
  induction left using pairUp.induct with
  | case1 first second rest ih =>
    simp only [List.length_cons] at heven
    simp only [List.cons_append, pairUp, ih (by omega), bind_assoc]
    rfl
  | case2 level hshort =>
    match level, hshort with
    | [], _ =>
      simp only [List.nil_append, pairUp]
      exact (bind_pure _).symm
    | [_], _ => simp at heven
    | a :: b :: rest, hshort => exact absurd rfl (hshort a b rest)

theorem length_pairUp {level next : List A} (h : pairUp merge level = some next) :
    next.length = (level.length + 1) / 2 := by
  induction level using pairUp.induct generalizing next with
  | case1 first second rest ih =>
    simp only [pairUp, Option.bind_eq_bind, Option.bind_eq_some_iff] at h
    obtain ⟨merged, -, tail, htail, hnext⟩ := h
    obtain rfl := Option.some.inj hnext
    simp only [List.length_cons, ih htail]
    omega
  | case2 level hshort =>
    match level, hshort with
    | [], _ =>
      cases h
      simp
    | [_], _ =>
      cases h
      simp
    | a :: b :: rest, hshort => exact absurd rfl (hshort a b rest)

/-- Pairing up does not change the value. -/
theorem treeReduce_pairUp (leaves : List A) :
    treeReduce merge leaves = pairUp merge leaves >>= treeReduce merge := by
  induction hn : leaves.length using Nat.strong_induction_on generalizing leaves with
  | h n ih =>
    match leaves, hn with
    | [], _ => rfl
    | [leaf], _ => rfl
    | [first, second], _ =>
      rw [treeReduce_split (by simp)]
      have hsplit : splitPoint [first, second].length = 1 := splitPoint_eq (k := 0) (by simp) (by simp)
      simp only [hsplit, List.take_succ_cons, List.take_zero, List.drop_succ_cons, List.drop_zero,
        treeReduce_singleton, pairUp]
      cases hmerge : merge first second with
      | none => simp [hmerge]
      | some merged => simp [hmerge, treeReduce_singleton]
    | first :: second :: third :: rest, hn =>
      set leaves := first :: second :: third :: rest with hleaves
      have hthree : 3 ≤ leaves.length := by simp [hleaves]
      have hlt := splitPoint_lt (show 2 ≤ leaves.length by omega)
      have hle := le_two_mul_splitPoint leaves.length
      -- the split point is at least 2, so that both halves consist of whole pairs
      obtain ⟨k, hk⟩ : ∃ k, splitPoint leaves.length = 2 * 2 ^ k := by
        cases hlog : Nat.log 2 (leaves.length - 1) with
        | zero =>
          rw [splitPoint, hlog] at hle
          omega
        | succ k => exact ⟨k, by rw [splitPoint, hlog, pow_succ, Nat.mul_comm]⟩
      have hpos : 0 < 2 ^ k := Nat.pow_pos (by norm_num)
      have hleft : (leaves.take (splitPoint leaves.length)).length = 2 * 2 ^ k := by
        rw [List.length_take]
        omega
      have hright : (leaves.drop (splitPoint leaves.length)).length = leaves.length - 2 * 2 ^ k := by
        rw [List.length_drop, hk]
      have hpairs : pairUp merge leaves = (do
          let a ← pairUp merge (leaves.take (splitPoint leaves.length))
          let b ← pairUp merge (leaves.drop (splitPoint leaves.length))
          some (a ++ b)) := by
        rw [← pairUp_append (by omega), List.take_append_drop]
      rw [treeReduce_split (by omega), ih _ (by omega) _ rfl, hpairs,
        ih _ (by rw [hright]; omega) (leaves.drop (splitPoint leaves.length)) rfl]
      cases hfirst : pairUp merge (leaves.take (splitPoint leaves.length)) with
      | none => rfl
      | some left =>
        have hlength := length_pairUp hfirst
        cases hsecond : pairUp merge (leaves.drop (splitPoint leaves.length)) with
        | none => simp
        | some right =>
          have hlength' := length_pairUp hsecond
          have hne : right ≠ [] := List.length_pos_iff.mp (by omega)
          exact (treeReduce_append (k := k) (by omega) hne (by omega)).symm

/-! ## The tree of the positions -/

/-- A binary tree with its leaves numbered. -/
inductive Tree where
  | leaf (position : ℕ)
  | node (left right : Tree)
  deriving DecidableEq, Repr

namespace Tree

/-- The numbers at the leaves, from left to right. -/
def leaves : Tree → List ℕ
  | .leaf position => [position]
  | .node left right => left.leaves ++ right.leaves

/-- The value of the tree, `value` giving the leaves. -/
def eval (merge : A → A → Option A) (value : ℕ → Option A) : Tree → Option A
  | .leaf position => value position
  | .node left right => do
    let a ← left.eval merge value
    let b ← right.eval merge value
    merge a b

end Tree

/-- The tree over `n` leaves numbered from `start`. -/
def positions (start n : ℕ) : Tree :=
  if 2 ≤ n then
    .node (positions start (splitPoint n)) (positions (start + splitPoint n) (n - splitPoint n))
  else .leaf start
termination_by n
decreasing_by
  · exact splitPoint_lt (by omega)
  · have hpos := splitPoint_pos n
    omega

/-- Every leaf occurs once, and they are in order. -/
theorem leaves_positions {start n : ℕ} (h : 0 < n) :
    (positions start n).leaves = List.range' start n := by
  induction start, n using positions.induct with
  | case1 start n htwo ihleft ihright =>
    have hpos := splitPoint_pos n
    have hlt := splitPoint_lt htwo
    rw [positions, if_pos htwo, Tree.leaves, ihleft hpos, ihright (by omega),
      List.range'_append_1, show splitPoint n + (n - splitPoint n) = n by omega]
  | case2 start n htwo =>
    have hone : n = 1 := by omega
    rw [positions, if_neg htwo, hone]
    rfl

theorem eval_positions {leaves : List A} {start n : ℕ} (hpos : 0 < n)
    (hle : start + n ≤ leaves.length) :
    (positions start n).eval merge (leaves[·]?) =
      treeReduce merge ((leaves.drop start).take n) := by
  induction start, n using positions.induct with
  | case1 start n htwo ihleft ihright =>
    have hlt := splitPoint_lt htwo
    have hlength : ((leaves.drop start).take n).length = n := by
      rw [List.length_take, List.length_drop]
      omega
    rw [positions, if_pos htwo, Tree.eval, ihleft (splitPoint_pos n) (by omega),
      ihright (by omega) (by omega),
      treeReduce_split (show 2 ≤ ((leaves.drop start).take n).length by omega), hlength,
      List.take_take, Nat.min_eq_left hlt.le, List.drop_take, List.drop_drop]
  | case2 start n htwo =>
    have hone : n = 1 := by omega
    rw [positions, if_neg htwo, Tree.eval, hone, List.take_one_drop_eq_of_lt_length (by omega),
      treeReduce_singleton, List.getElem?_eq_getElem (by omega)]
    rfl

/-- The shape depends on the number of leaves alone. -/
theorem treeReduce_eq_eval {leaves : List A} (h : leaves ≠ []) :
    treeReduce merge leaves = (positions 0 leaves.length).eval merge (leaves[·]?) := by
  rw [eval_positions (List.length_pos_iff.mpr h) (by omega), List.drop_zero, List.take_length]

end Reduction
