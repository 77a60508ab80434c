import MonteCarlo.Library.Reduction
import MonteCarlo.Engine.Blocks

/-!
# The fixed reduction tree

`reduce_block_results` pairs neighbours until one aggregate is left.  The value is that of one tree
over the positions of the leaves, for any merge and without associativity; so recovering the same
leaves gives the same bits, whatever order they were computed in.

* `reduceLevels_toOption` — the loop against the recursive split.
* `reduction_tree_fixed` — the loop ends, follows the tree, and uses every leaf once, in order.
-/

namespace MonteCarlo

open Reduction

variable {A : Type} {merge : A → A → Result A}

/-- The value, if there is one: of several failing merges, loop and recursion meet another one
first, so the exception itself is not part of the comparison. -/
def returned (merge : A → A → Result A) : A → A → Option A := fun a b => (merge a b).toOption

@[simp] theorem toOption_bind {B : Type} (x : Result A) (f : A → Result B) :
    (x >>= f).toOption = x.toOption >>= fun a => (f a).toOption := by
  cases x <;> rfl

theorem reduceLevel_toOption (level : List A) :
    (reduceLevel merge level).toOption = pairUp (returned merge) level := by
  induction level using reduceLevel.induct with
  | case1 a b rest ih =>
    simp only [reduceLevel, pairUp, toOption_bind, ih, returned]
    rfl
  | case2 level hshort =>
    rcases level with _ | ⟨a, _ | ⟨b, rest⟩⟩
    · rfl
    · rfl
    · exact absurd rfl (hshort a b rest)

/-- With as many rounds as there are leaves the loop is left because one element remains. -/
theorem reduceLevels_toOption {fuel : ℕ} {level : List A} (hne : level ≠ [])
    (hfuel : level.length ≤ fuel) :
    (reduceLevels merge fuel level).toOption =
      (treeReduce (returned merge) level).map fun a => [a] := by
  induction fuel generalizing level with
  | zero => exact absurd (List.length_eq_zero_iff.mp (by omega)) hne
  | succ fuel ih =>
    rw [reduceLevels]
    by_cases hmore : 1 < level.length
    · rw [if_pos hmore, toOption_bind, reduceLevel_toOption, treeReduce_pairUp]
      cases hpair : pairUp (returned merge) level with
      | none => rfl
      | some next =>
        have hlength := length_pairUp hpair
        exact ih (List.length_pos_iff.mp (by omega)) (by omega)
    · obtain ⟨leaf, rfl⟩ : ∃ leaf, level = [leaf] := by
        rcases level with _ | ⟨leaf, _ | ⟨next, rest⟩⟩
        · exact absurd rfl hne
        · exact ⟨leaf, rfl⟩
        · simp at hmore
      rw [if_neg hmore, treeReduce_singleton]
      rfl

theorem reduceBlockResults_toOption {F : Type} [FloatOps F] {leaves : List (AggregateStats F)}
    (hne : leaves ≠ []) :
    (reduceBlockResults leaves).toOption =
      treeReduce (returned AggregateStats.merge) leaves := by
  rw [reduceBlockResults, toOption_bind, reduceLevels_toOption hne le_rfl]
  cases treeReduce (returned AggregateStats.merge) leaves <;> rfl

/-- The loop of `reduce_block_results` over an arbitrary merge ends with one element, the value of
the recursive split at the largest power of two below the length, and throws only what a merge
throws.  So it is the value of a tree that the number of leaves alone determines and that has every
position once, in order.  With the merge of aggregates it is what `reduce_block_results` returns.
Where several merges throw, the loop and the split may meet different ones first: exceptions are
compared only as thrown or not. -/
theorem reduction_tree_fixed {A : Type} (merge : A → A → Result A) (leaves : List A)
    (hne : leaves ≠ []) :
    (∀ fuel, leaves.length ≤ fuel →
      (reduceLevels merge fuel leaves).toOption =
          (treeReduce (returned merge) leaves).map (fun a => [a]) ∧
        ∀ e, reduceLevels merge fuel leaves = .error e → ∃ a b, merge a b = .error e) ∧
      (∀ leaf, treeReduce (returned merge) [leaf] = some leaf) ∧
      (∀ l : List A, 2 ≤ l.length →
        ∃ k, 2 ^ k < l.length ∧ l.length ≤ 2 ^ (k + 1) ∧
          treeReduce (returned merge) l = do
            let left ← treeReduce (returned merge) (l.take (2 ^ k))
            let right ← treeReduce (returned merge) (l.drop (2 ^ k))
            (merge left right).toOption) ∧
      treeReduce (returned merge) leaves =
        (positions 0 leaves.length).eval (returned merge) (leaves[·]?) ∧
      (positions 0 leaves.length).leaves = List.range leaves.length ∧
      ∀ (F : Type) [FloatOps F] (blocks : List (AggregateStats F)), blocks ≠ [] →
        (reduceBlockResults blocks).toOption =
          treeReduce (returned AggregateStats.merge) blocks := by
  refine ⟨?_, treeReduce_singleton, ?_, treeReduce_eq_eval hne, ?_, ?_⟩
  · intro fuel hfuel
    refine ⟨reduceLevels_toOption hne hfuel, ?_⟩
    intro e he
    exact reduceLevels_error (E := fun e => ∃ a b, merge a b = .error e)
      (fun a b _ h => ⟨a, b, h⟩) fuel he
  · intro l htwo
    refine ⟨Nat.log 2 (l.length - 1), splitPoint_lt htwo, ?_, treeReduce_split htwo⟩
    rw [pow_succ, Nat.mul_comm]
    exact le_two_mul_splitPoint l.length
  · rw [leaves_positions (List.length_pos_iff.mpr hne), List.range_eq_range']
  · intro F _ blocks hblocks
    exact reduceBlockResults_toOption hblocks

/-- Three leaves and subtraction, which is neither associative nor commutative. -/
theorem reduction_tree_fixed_three :
    (reduceLevels (fun a b : ℤ => .ok (a - b)) 3 [10, 4, 1]).toOption = some [5] ∧
      (positions 0 3).leaves = [0, 1, 2] := by
  obtain ⟨-, -, -, -, hleaves, -⟩ :=
    reduction_tree_fixed (fun a b : ℤ => .ok (a - b)) [10, 4, 1] (by simp)
  exact ⟨by decide, hleaves⟩

end MonteCarlo
