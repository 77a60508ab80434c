import MonteCarlo.Models.Exact

/-!
# Antithetic pairs

The fused loop over an antithetic pair against the two loops over its scenarios.  Step by step, the
fused loop moves the one path by the shock of the even scenario and the other by that of the odd
one, which has the same normal with the other sign.

* `GbmKernel.path_pair`, `HestonKernel.path_pair` — the fused loop runs both paths.
* `antithetic_pair_is_half_sum` — its result.
-/

namespace MonteCarlo

open Effects Program Folds

section Pairs

variable {math : MathLibrary ℝ} {z : UInt64 → UInt32 → UInt32 → ℝ}

theorem even_and_not_one {s : UInt64} (heven : s % 2 = 0) : s &&& ~~~1 = s := by
  have hmod : s.toNat % 2 = 0 := by simpa using congrArg UInt64.toNat heven
  rw [← UInt64.toNat_inj, and_not_one_toNat]
  omega

theorem toNat_succ_of_even {s : UInt64} (heven : s % 2 = 0) : (s + 1).toNat = s.toNat + 1 := by
  have hmod : s.toNat % 2 = 0 := by simpa using congrArg UInt64.toNat heven
  have hlt := UInt64.toNat_lt s
  rw [UInt64.toNat_add, UInt64.toNat_one]
  exact Nat.mod_eq_of_lt (by omega)

theorem odd_and_not_one {s : UInt64} (heven : s % 2 = 0) : (s + 1) &&& ~~~1 = s := by
  have hmod : s.toNat % 2 = 0 := by simpa using congrArg UInt64.toNat heven
  rw [← UInt64.toNat_inj, and_not_one_toNat, toNat_succ_of_even heven]
  omega

theorem succ_mod_two_ne {s : UInt64} (heven : s % 2 = 0) : (s + 1) % 2 ≠ 0 := by
  have hmod : s.toNat % 2 = 0 := by simpa using congrArg UInt64.toNat heven
  intro hodd
  have hnat : (s + 1).toNat % 2 = 0 := by simpa using congrArg UInt64.toNat hodd
  rw [toNat_succ_of_even heven] at hnat
  omega

theorem lt_of_succ_lt {s total : UInt64} (heven : s % 2 = 0) (h : s + 1 < total) : s < total := by
  rw [UInt64.lt_iff_toNat_lt, toNat_succ_of_even heven] at h
  rw [UInt64.lt_iff_toNat_lt]
  omega

namespace GbmKernel

variable {kernel : GbmKernel ℝ} {s : UInt64}

variable (hanti : kernel.parameters.antithetic = true) (heven : s % 2 = 0)
include hanti heven

theorem shock_even (step : UInt32) : kernel.shock z s step = z s step 0 := by
  simp only [shock, Kernel.randomScenario, Kernel.parameters, hanti, if_true, heven,
    even_and_not_one heven, ne_eq, not_true_eq_false, decide_false, Bool.and_false,
    Bool.false_eq_true, if_false]

theorem shock_odd (step : UInt32) : kernel.shock z (s + 1) step = -z s step 0 := by
  simp only [shock, Kernel.randomScenario, Kernel.parameters, hanti, if_true,
    odd_and_not_one heven, succ_mod_two_ne heven, ne_eq, not_false_eq_true, decide_true,
    Bool.and_true]

/-- The fused loop runs the paths of both scenarios. -/
theorem path_pair (positive negative : GbmPath ℝ) :
    (List.range kernel.parameters.numTimeSteps.toNat).foldlM
        (fun paths step =>
          eval (exactNormals z) (kernel.advancePair math s (UInt32.ofNat step) paths))
        (⟨kernel.parameters.spot, 0⟩, ⟨kernel.parameters.spot, 0⟩) = .ok (positive, negative) ↔
      kernel.path math z s = .ok positive ∧ kernel.path math z (s + 1) = .ok negative := by
  refine foldlM_pair_eq_ok ?_ _ _ _ _ _
  intro a b step a' b'
  rw [eval_advancePair, eval_advance, eval_advance, shock_even hanti heven,
    shock_odd hanti heven]

/-- The mean of a pair is half the sum of its payoffs. -/
theorem eval_antitheticPairMean (hvalid : s + 1 < kernel.parameters.totalScenarios) {mean : ℝ} :
    eval (exactNormals z) (kernel.antitheticPairMean math s) = .ok mean ↔
      ∃ first second, eval (exactNormals z) (kernel.discountedPayoff math s) = .ok first ∧
        eval (exactNormals z) (kernel.discountedPayoff math (s + 1)) = .ok second ∧
        mean = 1 / 2 * (first + second) := by
  have hfirst : s < kernel.parameters.totalScenarios := lt_of_succ_lt heven hvalid
  have hrange : (decide (s % 2 ≠ 0) ||
      decide (kernel.parameters.totalScenarios ≤ s + 1)) = false := by
    simp [heven, UInt64.not_le.mpr hvalid]
  unfold antitheticPairMean
  rw [eval_throwIf_bind, hanti, Bool.not_true, and_iff_right rfl, eval_throwIf_bind, hrange,
    and_iff_right rfl, eval_bind, eval_foldlM, zero_real, Result.bind_eq_ok]
  simp only [eval_throwIf_bind, eval_ofExcept_bind, eval_pure_eq_ok, eval_discountedPayoff,
    discounted_eq_ok, isFinite_real, mul_real, add_real, half_real, Bool.not_true, true_and, hfirst,
    hvalid]
  constructor
  · rintro ⟨⟨positive, negative⟩, hpaths, p, hp, n, hn, rfl⟩
    obtain ⟨hpositive, hnegative⟩ := (path_pair hanti heven positive negative).mp hpaths
    exact ⟨_, _, ⟨positive, hpositive, p, hp, rfl⟩, ⟨negative, hnegative, n, hn, rfl⟩, rfl⟩
  · rintro ⟨_, _, ⟨positive, hpositive, p, hp, rfl⟩, ⟨negative, hnegative, n, hn, rfl⟩, rfl⟩
    exact ⟨(positive, negative), (path_pair hanti heven positive negative).mpr
      ⟨hpositive, hnegative⟩, p, hp, n, hn, rfl⟩

end GbmKernel

namespace HestonKernel

variable {kernel : HestonKernel ℝ} {s : UInt64}

/-- The fused loop runs both paths. -/
theorem path_pair (positive negative : HestonPath ℝ) :
    (List.range kernel.parameters.numTimeSteps.toNat).foldlM
        (fun paths step =>
          eval (exactNormals z) (kernel.advancePair math s (UInt32.ofNat step) paths))
        (⟨kernel.parameters.spot, kernel.heston.initialVariance, 0⟩,
          ⟨kernel.parameters.spot, kernel.heston.initialVariance, 0⟩) =
        .ok (positive, negative) ↔
      kernel.path math z s 1 = .ok positive ∧ kernel.path math z s (-1) = .ok negative := by
  refine foldlM_pair_eq_ok ?_ _ _ _ _ _
  intro a b step a' b'
  rw [eval_advancePair, eval_advance, eval_advance]

variable (hanti : kernel.parameters.antithetic = true) (heven : s % 2 = 0)
include hanti heven

theorem eval_discountedPayoff_even {x : ℝ} :
    eval (exactNormals z) (kernel.discountedPayoff math s) = .ok x ↔
      s < kernel.parameters.totalScenarios ∧
        eval (exactNormals z) (kernel.discountedPayoffWithSign math s 1) = .ok x := by
  rw [eval_discountedPayoff]
  simp only [sign, Kernel.randomScenario, Kernel.parameters, hanti, if_true, heven,
    even_and_not_one heven, ne_eq, not_true_eq_false, decide_false, Bool.and_false,
    Bool.false_eq_true, if_false]

theorem eval_discountedPayoff_odd {x : ℝ} :
    eval (exactNormals z) (kernel.discountedPayoff math (s + 1)) = .ok x ↔
      s + 1 < kernel.parameters.totalScenarios ∧
        eval (exactNormals z) (kernel.discountedPayoffWithSign math s (-1)) = .ok x := by
  rw [eval_discountedPayoff]
  simp only [sign, Kernel.randomScenario, Kernel.parameters, hanti, if_true,
    odd_and_not_one heven, succ_mod_two_ne heven, ne_eq, not_false_eq_true, decide_true,
    Bool.and_true]

/-- The mean of a pair is half the sum of its payoffs. -/
theorem eval_antitheticPairMean (hvalid : s + 1 < kernel.parameters.totalScenarios) {mean : ℝ} :
    eval (exactNormals z) (kernel.antitheticPairMean math s) = .ok mean ↔
      ∃ first second, eval (exactNormals z) (kernel.discountedPayoff math s) = .ok first ∧
        eval (exactNormals z) (kernel.discountedPayoff math (s + 1)) = .ok second ∧
        mean = 1 / 2 * (first + second) := by
  have hfirst : s < kernel.parameters.totalScenarios := lt_of_succ_lt heven hvalid
  have hrange : (decide (s % 2 ≠ 0) ||
      decide (kernel.parameters.totalScenarios ≤ s + 1)) = false := by
    simp [heven, UInt64.not_le.mpr hvalid]
  unfold antitheticPairMean
  rw [eval_throwIf_bind, hanti, Bool.not_true, and_iff_right rfl, eval_throwIf_bind, hrange,
    and_iff_right rfl]
  dsimp only
  rw [eval_bind, eval_foldlM, zero_real, Result.bind_eq_ok]
  simp only [eval_throwIf_bind, eval_ofExcept_bind, eval_pure_eq_ok,
    eval_discountedPayoff_even hanti heven, eval_discountedPayoff_odd hanti heven,
    eval_discountedPayoffWithSign, discounted_eq_ok, isFinite_real, mul_real, add_real, half_real,
    Bool.not_true, true_and, hfirst, hvalid]
  constructor
  · rintro ⟨⟨positive, negative⟩, hpaths, p, hp, n, hn, rfl⟩
    obtain ⟨hpositive, hnegative⟩ := (path_pair positive negative).mp hpaths
    exact ⟨_, _, ⟨positive, hpositive, p, hp, rfl⟩, ⟨negative, hnegative, n, hn, rfl⟩, rfl⟩
  · rintro ⟨_, _, ⟨positive, hpositive, p, hp, rfl⟩, ⟨negative, hnegative, n, hn, rfl⟩, rfl⟩
    exact ⟨(positive, negative), (path_pair positive negative).mpr ⟨hpositive, hnegative⟩, p, hp,
      n, hn, rfl⟩

end HestonKernel

end Pairs

/-- In exact arithmetic, with any `exp` and `sqrt` and any normal draws, the fused simulation of an
antithetic pair returns half the sum of the payoffs of its two scenarios, whenever these return;
for a positive `exp` they always do. -/
theorem antithetic_pair_is_half_sum (math : MathLibrary ℝ) (z : UInt64 → UInt32 → UInt32 → ℝ)
    (parameters : ModelParameters ℝ) (heston : Option (HestonParameters ℝ)) (kernel : Kernel ℝ)
    (hvalid : parameters.Valid) (hkernel : exactKernel math parameters heston = .ok kernel)
    (hanti : parameters.antithetic = true) (s : UInt64) (heven : s % 2 = 0)
    (hs : s < parameters.totalScenarios) :
    (∀ mean, eval (exactNormals z) (kernel.antitheticPairMean math s) = .ok mean ↔
      ∃ first second, eval (exactNormals z) (kernel.discountedPayoff math s) = .ok first ∧
        eval (exactNormals z) (kernel.discountedPayoff math (s + 1)) = .ok second ∧
        mean = 1 / 2 * (first + second)) ∧
    ((∀ x, 0 < math.exp x) →
      ∃ mean, eval (exactNormals z) (kernel.antitheticPairMean math s) = .ok mean) := by
  obtain rfl := parameters_of_exactKernel hkernel
  have hnext : s + 1 < kernel.parameters.totalScenarios := by
    have hmod : s.toNat % 2 = 0 := by simpa using congrArg UInt64.toNat heven
    have htotal := hvalid.pairs hanti
    rw [UInt64.lt_iff_toNat_lt] at hs
    rw [UInt64.lt_iff_toNat_lt, toNat_succ_of_even heven]
    omega
  cases kernel with
  | gbm kernel =>
    refine ⟨fun mean => GbmKernel.eval_antitheticPairMean hanti heven hnext, fun hexp => ?_⟩
    obtain ⟨first, hfirst⟩ := GbmKernel.discountedPayoff_returns (z := z) hexp hvalid hs
    obtain ⟨second, hsecond⟩ := GbmKernel.discountedPayoff_returns (z := z) hexp hvalid hnext
    exact ⟨_, (GbmKernel.eval_antitheticPairMean hanti heven hnext).mpr
      ⟨first, second, hfirst, hsecond, rfl⟩⟩
  | heston kernel =>
    refine ⟨fun mean => HestonKernel.eval_antitheticPairMean hanti heven hnext, fun hexp => ?_⟩
    obtain ⟨first, hfirst⟩ :=
      HestonKernel.discountedPayoffWithSign_returns (z := z) hexp hvalid s 1
    obtain ⟨second, hsecond⟩ :=
      HestonKernel.discountedPayoffWithSign_returns (z := z) hexp hvalid s (-1)
    exact ⟨_, (HestonKernel.eval_antitheticPairMean hanti heven hnext).mpr
      ⟨first, second, (HestonKernel.eval_discountedPayoff_even hanti heven).mpr ⟨hs, hfirst⟩,
        (HestonKernel.eval_discountedPayoff_odd hanti heven).mpr ⟨hnext, hsecond⟩, rfl⟩⟩

/-- A Heston pair with correlated shocks. -/
theorem antithetic_pair_is_half_sum_two_paths :
    ∃ kernel mean first second,
      exactKernel realMath twoPaths (some ⟨1, 1, 1, 1, 1 / 3⟩) = .ok (.heston kernel) ∧
      eval (exactNormals growingDraws) ((Kernel.heston kernel).antitheticPairMean realMath 0) =
        .ok mean ∧
      eval (exactNormals growingDraws) ((Kernel.heston kernel).discountedPayoff realMath 0) =
        .ok first ∧
      eval (exactNormals growingDraws) ((Kernel.heston kernel).discountedPayoff realMath 1) =
        .ok second ∧
      mean = 1 / 2 * (first + second) := by
  have hdt : 0 < twoPaths.maturity / twoPaths.numTimeSteps.toNat :=
    div_pos one_pos (Nat.cast_pos.mpr (by decide))
  have hmake : exactKernel realMath twoPaths (some ⟨1, 1, 1, 1, 1 / 3⟩) =
      .ok (.heston (.of realMath twoPaths ⟨1, 1, 1, 1, 1 / 3⟩)) := by
    rw [exactKernel, HestonKernel.make_eq_ok.mpr
      ⟨⟨hdt, Real.sqrt_pos.mpr hdt, Real.exp_pos _⟩, rfl⟩]
    rfl
  obtain ⟨hpair, hreturns⟩ := antithetic_pair_is_half_sum realMath growingDraws twoPaths _ _
    twoPaths_valid hmake rfl 0 (by decide) (by decide)
  obtain ⟨mean, hmean⟩ := hreturns Real.exp_pos
  obtain ⟨first, second, hfirst, hsecond, heq⟩ := (hpair mean).mp hmean
  exact ⟨_, mean, first, second, hmake, hmean, hfirst, hsecond, heq⟩

end MonteCarlo
