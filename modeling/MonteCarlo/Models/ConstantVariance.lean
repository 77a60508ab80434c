import MonteCarlo.Models.Exact

/-!
# Heston with constant variance

When the variance starts at its long-run level and has no volatility of its own, full truncation
leaves it there.  Its path is then the GBM path with that level as the square of the volatility.

* `HestonKernel.move_constantVariance` — one step.
* `constant_variance_heston_is_gbm` — the payoffs.
-/

namespace MonteCarlo

open Effects Program Folds

section ConstantVariance

variable {z : UInt64 → UInt32 → UInt32 → ℝ}

/-- The parameters under which the variance stays at the square of the volatility. -/
noncomputable def constantVariance (parameters : ModelParameters ℝ)
    (meanReversionRate correlation : ℝ) : HestonParameters ℝ :=
  ⟨parameters.volatility ^ 2, meanReversionRate, parameters.volatility ^ 2, 0, correlation⟩

/-- The GBM path with the constant variance beside it. -/
def GbmPath.withVariance (variance : ℝ) (path : GbmPath ℝ) : HestonPath ℝ :=
  ⟨path.price, variance, path.runningSum⟩

variable (exp log : ℝ → ℝ) {parameters : ModelParameters ℝ} {meanReversionRate correlation : ℝ}

/-- A step of the Heston path is a step of the GBM path, and the variance stays. -/
theorem HestonKernel.move_constantVariance (hvolatility : 0 < parameters.volatility)
    (assetShock varianceShock : ℝ) (path : GbmPath ℝ) :
    (HestonKernel.of ⟨exp, Real.sqrt, log⟩ parameters
        (constantVariance parameters meanReversionRate correlation)).move ⟨exp, Real.sqrt, log⟩
        assetShock varianceShock (path.withVariance (parameters.volatility ^ 2)) =
      ((GbmKernel.of ⟨exp, Real.sqrt, log⟩ parameters).move ⟨exp, Real.sqrt, log⟩ assetShock
        path).withVariance (parameters.volatility ^ 2) := by
  have hmax : max (parameters.volatility ^ 2) 0 = parameters.volatility ^ 2 :=
    max_eq_left (sq_nonneg _)
  have hsqrt : Real.sqrt (parameters.volatility ^ 2) = parameters.volatility :=
    Real.sqrt_sq hvolatility.le
  have hexponent : ∀ dt root : ℝ, parameters.rate * dt - 1 / 2 * parameters.volatility ^ 2 * dt
        + parameters.volatility * root * assetShock =
      (parameters.rate - 1 / 2 * parameters.volatility * parameters.volatility) * dt
        + parameters.volatility * root * assetShock := by
    intro dt root
    ring
  simp only [move, of, constantVariance, GbmPath.withVariance, GbmKernel.move, GbmKernel.of, hmax,
    hsqrt, hexponent, sub_self, mul_zero, zero_mul, add_zero]

/-- The paths of a scenario under the two models. -/
theorem HestonKernel.path_constantVariance (hvolatility : 0 < parameters.volatility)
    {scenarioId randomScenario : UInt64} {sign : ℝ}
    (hshock : ∀ step, (GbmKernel.of ⟨exp, Real.sqrt, log⟩ parameters).shock z scenarioId step =
      sign * z randomScenario step 0) (path : HestonPath ℝ) :
    (HestonKernel.of ⟨exp, Real.sqrt, log⟩ parameters
        (constantVariance parameters meanReversionRate correlation)).path ⟨exp, Real.sqrt, log⟩ z
        randomScenario sign = .ok path ↔
      ∃ plain, (GbmKernel.of ⟨exp, Real.sqrt, log⟩ parameters).path ⟨exp, Real.sqrt, log⟩ z
          scenarioId = .ok plain ∧ path = plain.withVariance (parameters.volatility ^ 2) := by
  refine foldlM_map_eq_ok (GbmPath.withVariance (parameters.volatility ^ 2)) ?_ _
    ⟨parameters.spot, 0⟩ path
  intro plain step next
  rw [eval_advance, move_constantVariance exp log hvolatility]
  simp only [GbmKernel.eval_advance, hshock]
  constructor
  · rintro ⟨hprice, rfl⟩
    exact ⟨_, ⟨hprice, rfl⟩, rfl⟩
  · rintro ⟨moved, ⟨hprice, rfl⟩, rfl⟩
    exact ⟨hprice, rfl⟩

/-- The sign of the one kernel is the negation of the other. -/
theorem shock_eq_sign (meanReversionRate correlation : ℝ) (s : UInt64) (step : UInt32) :
    (GbmKernel.of ⟨exp, Real.sqrt, log⟩ parameters).shock z s step =
      (HestonKernel.of ⟨exp, Real.sqrt, log⟩ parameters
        (constantVariance parameters meanReversionRate correlation)).sign s *
      z ((Kernel.heston (HestonKernel.of ⟨exp, Real.sqrt, log⟩ parameters
        (constantVariance parameters meanReversionRate correlation))).randomScenario s) step 0 := by
  have hsign : ∀ (odd : Bool) (x : ℝ), (if odd then -x else x) = (if odd then -1 else 1) * x := by
    intro odd x
    cases odd <;> simp
  exact hsign _ _

end ConstantVariance

/-- In exact arithmetic with the true square root, any `exp` and any normal draws, Heston with its
variance held at the square of the volatility returns the payoffs of GBM, whatever the rate of mean
reversion and the correlation. -/
theorem constant_variance_heston_is_gbm (exp log : ℝ → ℝ) (z : UInt64 → UInt32 → UInt32 → ℝ)
    (parameters : ModelParameters ℝ) (hvalid : parameters.Valid)
    (hvolatility : 0 < parameters.volatility) (meanReversionRate correlation : ℝ) (s : UInt64) :
    (∀ x, exactPayoff ⟨exp, Real.sqrt, log⟩ z parameters
        (some (constantVariance parameters meanReversionRate correlation)) s = .ok x ↔
      exactPayoff ⟨exp, Real.sqrt, log⟩ z parameters none s = .ok x) ∧
    ((∀ x, 0 < exp x) → s < parameters.totalScenarios →
      ∃ x, exactPayoff ⟨exp, Real.sqrt, log⟩ z parameters none s = .ok x) := by
  have hsteps : (0 : ℝ) < parameters.numTimeSteps.toNat := Nat.cast_pos.mpr hvalid.numTimeSteps.1
  have hdt : 0 < parameters.maturity / parameters.numTimeSteps.toNat :=
    div_pos hvalid.maturity hsteps
  have hsqrt : 0 < Real.sqrt (parameters.maturity / parameters.numTimeSteps.toNat) :=
    Real.sqrt_pos.mpr hdt
  refine ⟨fun x => ?_, fun hexp hs => ?_⟩
  · rw [exactPayoff_heston, exactPayoff_gbm, and_iff_right hdt, and_iff_right hsqrt]
    refine and_congr_right fun _ => ?_
    rw [HestonKernel.eval_discountedPayoff, GbmKernel.eval_discountedPayoff]
    refine and_congr_right fun _ => ?_
    rw [HestonKernel.eval_discountedPayoffWithSign]
    simp only [HestonKernel.path_constantVariance exp log hvolatility
      (shock_eq_sign exp log meanReversionRate correlation s)]
    constructor
    · rintro ⟨_, ⟨plain, hplain, rfl⟩, hx⟩
      exact ⟨plain, hplain, hx⟩
    · rintro ⟨plain, hplain, hx⟩
      exact ⟨_, ⟨plain, hplain, rfl⟩, hx⟩
  · obtain ⟨x, hx⟩ : ∃ x, eval (exactNormals z) ((GbmKernel.of ⟨exp, Real.sqrt, log⟩
        parameters).discountedPayoff ⟨exp, Real.sqrt, log⟩ s) = .ok x :=
      GbmKernel.discountedPayoff_returns hexp hvalid hs
    exact ⟨x, exactPayoff_gbm.mpr ⟨hexp _, hx⟩⟩

/-- The antithetic scenario of the pair. -/
theorem constant_variance_heston_is_gbm_two_paths :
    ∃ x, exactPayoff realMath growingDraws twoPaths (some (constantVariance twoPaths 1 (1 / 3))) 1 =
        .ok x ∧ exactPayoff realMath growingDraws twoPaths none 1 = .ok x := by
  obtain ⟨hsame, hreturns⟩ := constant_variance_heston_is_gbm Real.exp Real.log growingDraws twoPaths
    twoPaths_valid one_pos 1 (1 / 3) 1
  obtain ⟨x, hx⟩ := hreturns Real.exp_pos (by decide)
  exact ⟨x, (hsame x).mpr hx, hx⟩

end MonteCarlo
