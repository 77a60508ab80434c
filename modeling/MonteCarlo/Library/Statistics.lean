import Mathlib

/-!
# Mean and squared deviations of a list

The mean and the sum of squared deviations of two samples together, from those of each.  Adding one
observation at a time is the case where the second sample is a single value.

* `mean_append`, `deviations_append` — the pairwise formulas.
* `mean_concat`, `deviations_concat` — the running formulas.
-/

namespace Statistics

variable {K : Type} [Field K]

/-- The arithmetic mean. -/
def mean (xs : List K) : K := xs.sum / xs.length

/-- The sum of squared deviations from the mean. -/
def deviations (xs : List K) : K := (xs.map fun x => (x - mean xs) ^ 2).sum

@[simp] theorem mean_nil : mean ([] : List K) = 0 := by simp [mean]

@[simp] theorem deviations_nil : deviations ([] : List K) = 0 := rfl

@[simp] theorem mean_singleton (x : K) : mean [x] = x := by simp [mean]

@[simp] theorem deviations_singleton (x : K) : deviations [x] = 0 := by simp [deviations]

theorem sum_sq_sub (xs : List K) (c : K) :
    (xs.map fun x => (x - c) ^ 2).sum =
      (xs.map (· ^ 2)).sum - 2 * c * xs.sum + xs.length * c ^ 2 := by
  induction xs with
  | nil => simp
  | cons x xs ih =>
    simp only [List.map_cons, List.sum_cons, ih, List.length_cons, Nat.cast_add, Nat.cast_one]
    ring

section CharZero

variable [CharZero K]

theorem length_ne_zero {xs : List K} (h : xs ≠ []) : (xs.length : K) ≠ 0 :=
  Nat.cast_ne_zero.mpr (List.length_pos_iff.mpr h).ne'

theorem sum_eq {xs : List K} (h : xs ≠ []) : xs.sum = xs.length * mean xs :=
  (mul_div_cancel₀ _ (length_ne_zero h)).symm

/-- The sum of squares, from the deviations and the mean. -/
theorem sum_sq_eq {xs : List K} (h : xs ≠ []) :
    (xs.map (· ^ 2)).sum = deviations xs + xs.length * mean xs ^ 2 := by
  rw [deviations, sum_sq_sub, sum_eq h]
  ring

theorem length_add_ne_zero {xs : List K} (hx : xs ≠ []) (ys : List K) :
    (xs.length : K) + ys.length ≠ 0 := by
  have hpos := List.length_pos_iff.mpr hx
  exact_mod_cast (show xs.length + ys.length ≠ 0 by omega)

section Append

variable {xs ys : List K} (hx : xs ≠ []) (hy : ys ≠ [])
include hx hy

theorem mean_append :
    mean (xs ++ ys) =
      mean xs + (mean ys - mean xs) * (ys.length / (xs.length + ys.length)) := by
  have hne := length_add_ne_zero hx ys
  rw [mean, List.sum_append, List.length_append, Nat.cast_add, sum_eq hx, sum_eq hy]
  field_simp
  ring

theorem deviations_append :
    deviations (xs ++ ys) =
      deviations xs + deviations ys +
        (mean ys - mean xs) * (mean ys - mean xs) *
          (xs.length * ys.length / (xs.length + ys.length)) := by
  have hne := length_add_ne_zero hx ys
  have hsq := sum_sq_eq (show xs ++ ys ≠ [] by simp [hx])
  rw [List.map_append, List.sum_append, sum_sq_eq hx, sum_sq_eq hy, mean_append hx hy,
    List.length_append, Nat.cast_add] at hsq
  rw [← sub_eq_zero]
  rw [← sub_eq_iff_eq_add] at hsq
  rw [← hsq]
  field_simp
  ring

end Append

theorem mean_concat {xs : List K} (hx : xs ≠ []) (x : K) :
    mean (xs ++ [x]) = mean xs + (x - mean xs) / (xs.length + 1) := by
  rw [mean_append hx (by simp), mean_singleton, List.length_singleton, Nat.cast_one, mul_one_div]

theorem deviations_concat {xs : List K} (hx : xs ≠ []) (x : K) :
    deviations (xs ++ [x]) = deviations xs + (x - mean xs) * (x - mean (xs ++ [x])) := by
  have hne := length_add_ne_zero hx [x]
  rw [deviations_append hx (by simp), mean_concat hx, mean_singleton, deviations_singleton]
  rw [List.length_singleton, Nat.cast_one] at hne ⊢
  field_simp
  ring

end CharZero

section Order

variable [LinearOrder K] [IsStrictOrderedRing K] {xs : List K}

theorem deviations_nonneg : 0 ≤ deviations xs := by
  refine List.sum_nonneg ?_
  intro y hy
  obtain ⟨x, -, rfl⟩ := List.mem_map.mp hy
  exact sq_nonneg _

theorem le_mean {lo : K} (h : xs ≠ []) (hlo : ∀ x ∈ xs, lo ≤ x) : lo ≤ mean xs := by
  have hpos : (0 : K) < xs.length := Nat.cast_pos.mpr (List.length_pos_iff.mpr h)
  rw [mean, le_div_iff₀ hpos, mul_comm, ← nsmul_eq_mul]
  exact List.card_nsmul_le_sum xs lo hlo

theorem mean_le {hi : K} (h : xs ≠ []) (hhi : ∀ x ∈ xs, x ≤ hi) : mean xs ≤ hi := by
  have hpos : (0 : K) < xs.length := Nat.cast_pos.mpr (List.length_pos_iff.mpr h)
  rw [mean, div_le_iff₀ hpos, mul_comm, ← nsmul_eq_mul]
  exact List.sum_le_card_nsmul xs hi hhi

end Order

end Statistics
