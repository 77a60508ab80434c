import MonteCarlo.Library.Folds
import MonteCarlo.Models.Coordinates
import Mathlib.Analysis.Real.Sqrt
import Mathlib.Analysis.SpecialFunctions.Log.Basic

/-!
# The kernels in exact arithmetic

The kernels are written over `KernelOps`, so they can be read over the reals, with any exponential,
any square root and any normal draws.  There no number is infinite, and a step of a path fails only
when its price is not positive.

* `GbmKernel.move`, `HestonKernel.move` — one step as a function of the shocks.
* `GbmKernel.eval_discountedPayoff`, `HestonKernel.eval_discountedPayoff` — the payoff of a scenario
  by its path.
* `GbmKernel.make_eq_ok`, `HestonKernel.make_eq_ok` — the constructors.
* `exactPayoff` — the payoff of a scenario by the parameters.
-/

namespace MonteCarlo

open Effects Program Folds

/-! ## Real arithmetic -/

/-- Exact arithmetic: no rounding, and every number is finite. -/
noncomputable instance : KernelOps ℝ where
  ofUInt64 n := n.toNat
  toleranceUnit := 64 / 2 ^ 52
  add := (· + ·)
  sub := (· - ·)
  mul := (· * ·)
  div := (· / ·)
  abs x := |x|
  lt x y := decide (x < y)
  eq x y := decide (x = y)
  isFinite _ := true
  neg x := -x
  half := 1 / 2

theorem maxOf_real (x y : ℝ) : AggregateStats.maxOf x y = max x y := by
  simp only [AggregateStats.maxOf, FloatOps.lt, decide_eq_true_eq, max_def]
  split <;> split <;> linarith

theorem zero_real : (AggregateStats.zero : ℝ) = 0 := by
  show ((0 : UInt64).toNat : ℝ) = 0
  simp

theorem le_real (x y : ℝ) : le x y = decide (x ≤ y) := by
  simp only [le, FloatOps.lt, FloatOps.eq, le_iff_lt_or_eq, Bool.decide_or]

/-- Normal draws given by scenario, step and dimension. -/
def exactNormals (z : UInt64 → UInt32 → UInt32 → ℝ) : Coordinates → Result ℝ :=
  fun c => .ok (z c.scenarioId c.timeStep c.dimension)

section Evaluation

variable {z : UInt64 → UInt32 → UInt32 → ℝ} {α β : Type}

theorem eval_standardNormal_bind (scenarioId : UInt64) (step dimension : UInt32)
    (f : ℝ → Draws ℝ α) :
    eval (exactNormals z) (Draws.standardNormal scenarioId step dimension >>= f) =
      eval (exactNormals z) (f (z scenarioId step dimension)) := rfl

/-- A check passes or ends the simulation. -/
theorem eval_throwIf_bind {condition : Bool} {error : Exception} {f : Unit → Draws ℝ α} {a : α} :
    eval (exactNormals z) (Draws.throwIf condition error >>= f) = .ok a ↔
      condition = false ∧ eval (exactNormals z) (f ()) = .ok a := by
  cases condition with
  | false => exact (and_iff_right rfl).symm
  | true => exact ⟨nofun, nofun⟩

theorem eval_ofExcept_bind {x : Result β} {f : β → Draws ℝ α} {a : α} :
    eval (exactNormals z) (Program.ofExcept x >>= f) = .ok a ↔
      ∃ b, x = .ok b ∧ eval (exactNormals z) (f b) = .ok a := by
  rw [eval_bind, eval_ofExcept, Result.bind_eq_ok]

theorem eval_pure_eq_ok {a b : α} :
    eval (exactNormals z) (pure a : Draws ℝ α) = .ok b ↔ b = a := by
  rw [eval_pure, Except.ok.injEq, eq_comm]

end Evaluation

/-! ## One step -/

section Steps

variable (math : MathLibrary ℝ) (z : UInt64 → UInt32 → UInt32 → ℝ)

@[simp] theorem add_real (x y : ℝ) : FloatOps.add x y = x + y := rfl

@[simp] theorem sub_real (x y : ℝ) : FloatOps.sub x y = x - y := rfl

@[simp] theorem mul_real (x y : ℝ) : FloatOps.mul x y = x * y := rfl

@[simp] theorem div_real (x y : ℝ) : FloatOps.div x y = x / y := rfl

@[simp] theorem neg_real (x : ℝ) : KernelOps.neg x = -x := rfl

@[simp] theorem half_real : (KernelOps.half : ℝ) = 1 / 2 := rfl

@[simp] theorem isFinite_real (x : ℝ) : FloatOps.isFinite x = true := rfl

theorem one_real : (FloatOps.ofUInt64 1 : ℝ) = 1 := by
  show ((1 : UInt64).toNat : ℝ) = 1
  simp

/-- A step of a path under the given shock. -/
noncomputable def GbmKernel.move (kernel : GbmKernel ℝ) (shock : ℝ) (path : GbmPath ℝ) :
    GbmPath ℝ :=
  let price := path.price * math.exp (kernel.driftPerStep + kernel.diffusionPerStep * shock)
  ⟨price, path.runningSum + price⟩

/-- The shock of a scenario: the normal of its random scenario, negated for an antithetic one. -/
def GbmKernel.shock (kernel : GbmKernel ℝ) (scenarioId : UInt64) (step : UInt32) : ℝ :=
  let normal := z ((Kernel.gbm kernel).randomScenario scenarioId) step 0
  if kernel.parameters.antithetic && scenarioId % 2 ≠ 0 then -normal else normal

theorem GbmKernel.eval_advance (kernel : GbmKernel ℝ) (scenarioId : UInt64) (step : UInt32)
    (path next : GbmPath ℝ) :
    eval (exactNormals z) (kernel.advance math scenarioId step path) = .ok next ↔
      0 < next.price ∧ next = kernel.move math (kernel.shock z scenarioId step) path := by
  unfold GbmKernel.advance
  simp only [eval_standardNormal_bind, eval_throwIf_bind, eval_pure_eq_ok, le_real, zero_real,
    isFinite_real, add_real, mul_real, neg_real, Bool.not_true, Bool.false_or, decide_eq_false_iff_not,
    not_le, true_and]
  constructor
  · rintro ⟨hprice, rfl⟩
    exact ⟨hprice, rfl⟩
  · rintro ⟨hprice, rfl⟩
    exact ⟨hprice, rfl⟩

theorem GbmKernel.eval_advancePair (kernel : GbmKernel ℝ) (evenScenarioId : UInt64) (step : UInt32)
    (positive negative positive' negative' : GbmPath ℝ) :
    eval (exactNormals z) (kernel.advancePair math evenScenarioId step (positive, negative)) =
        .ok (positive', negative') ↔
      (0 < positive'.price ∧ positive' = kernel.move math (z evenScenarioId step 0) positive) ∧
        0 < negative'.price ∧ negative' = kernel.move math (-z evenScenarioId step 0) negative := by
  unfold GbmKernel.advancePair
  simp only [eval_standardNormal_bind, eval_throwIf_bind, eval_pure_eq_ok, le_real, zero_real,
    isFinite_real, add_real, mul_real, neg_real, Bool.not_true, Bool.false_or, Bool.or_eq_false_iff,
    decide_eq_false_iff_not, not_le, true_and, Prod.mk.injEq]
  constructor
  · rintro ⟨⟨hpositive, hnegative⟩, rfl, rfl⟩
    exact ⟨⟨hpositive, rfl⟩, hnegative, rfl⟩
  · rintro ⟨⟨hpositive, rfl⟩, hnegative, rfl⟩
    exact ⟨⟨hpositive, hnegative⟩, rfl, rfl⟩

/-- A step of a path under the given shocks. -/
noncomputable def HestonKernel.move (kernel : HestonKernel ℝ) (assetShock varianceShock : ℝ)
    (path : HestonPath ℝ) : HestonPath ℝ :=
  let positiveVariance := max path.variance 0
  let price := path.price * math.exp (kernel.rateDt - 1 / 2 * positiveVariance * kernel.dt
    + math.sqrt positiveVariance * kernel.sqrtDt * assetShock)
  ⟨price, path.variance
      + kernel.meanReversionDt * (kernel.heston.longRunVariance - positiveVariance)
      + kernel.volatilityOfVarianceSqrtDt * math.sqrt positiveVariance * varianceShock,
    path.runningSum + price⟩

/-- The correlated normal of the variance. -/
def HestonKernel.correlated (kernel : HestonKernel ℝ) (scenarioId : UInt64) (step : UInt32) : ℝ :=
  kernel.heston.correlation * z scenarioId step 0 + kernel.orthogonalWeight * z scenarioId step 1

theorem HestonKernel.eval_advance (kernel : HestonKernel ℝ) (scenarioId : UInt64) (sign : ℝ)
    (step : UInt32) (path next : HestonPath ℝ) :
    eval (exactNormals z) (kernel.advance math scenarioId sign step path) = .ok next ↔
      0 < next.price ∧ next = kernel.move math (sign * z scenarioId step 0)
        (sign * kernel.correlated z scenarioId step) path := by
  unfold HestonKernel.advance
  simp only [eval_standardNormal_bind, eval_throwIf_bind, eval_pure_eq_ok, le_real, zero_real,
    isFinite_real, add_real, sub_real, mul_real, half_real, maxOf_real, Bool.not_true,
    Bool.false_or, Bool.or_false, decide_eq_false_iff_not, not_le, true_and]
  constructor
  · rintro ⟨hprice, rfl⟩
    exact ⟨hprice, rfl⟩
  · rintro ⟨hprice, rfl⟩
    exact ⟨hprice, rfl⟩

theorem HestonKernel.eval_advancePair (kernel : HestonKernel ℝ) (evenScenarioId : UInt64)
    (step : UInt32) (positive negative positive' negative' : HestonPath ℝ) :
    eval (exactNormals z) (kernel.advancePair math evenScenarioId step (positive, negative)) =
        .ok (positive', negative') ↔
      (0 < positive'.price ∧ positive' = kernel.move math (1 * z evenScenarioId step 0)
          (1 * kernel.correlated z evenScenarioId step) positive) ∧
        0 < negative'.price ∧ negative' = kernel.move math (-1 * z evenScenarioId step 0)
          (-1 * kernel.correlated z evenScenarioId step) negative := by
  unfold HestonKernel.advancePair
  simp only [eval_standardNormal_bind, eval_throwIf_bind, eval_pure_eq_ok, le_real, zero_real,
    isFinite_real, add_real, sub_real, mul_real, half_real, maxOf_real, Bool.not_true,
    Bool.false_or, Bool.or_false, Bool.or_eq_false_iff, decide_eq_false_iff_not, not_le, true_and,
    Prod.mk.injEq, HestonKernel.move, one_mul, neg_one_mul, mul_neg, ← sub_eq_add_neg]
  constructor
  · rintro ⟨⟨hpositive, hnegative⟩, rfl, rfl⟩
    exact ⟨⟨hpositive, rfl⟩, hnegative, rfl⟩
  · rintro ⟨⟨hpositive, rfl⟩, hnegative, rfl⟩
    exact ⟨⟨hpositive, hnegative⟩, rfl, rfl⟩

end Steps

/-! ## Payoffs -/

section Payoffs

variable {math : MathLibrary ℝ} {z : UInt64 → UInt32 → UInt32 → ℝ}

/-- What is left to do with a path. -/
noncomputable def discounted (parameters : ModelParameters ℝ) (discountFactor price sum : ℝ) :
    Result ℝ := do
  let payoff ← payoffFromPath parameters price sum
  pure (discountFactor * payoff)

theorem discounted_eq_ok {parameters : ModelParameters ℝ} {discountFactor price sum x : ℝ} :
    discounted parameters discountFactor price sum = .ok x ↔
      ∃ payoff, payoffFromPath parameters price sum = .ok payoff ∧ x = discountFactor * payoff := by
  rw [discounted, Result.bind_eq_ok]
  simp only [pure, Except.pure, Except.ok.injEq, eq_comm]

namespace GbmKernel

variable (math z) in
/-- The path of a scenario. -/
noncomputable def path (kernel : GbmKernel ℝ) (scenarioId : UInt64) : Result (GbmPath ℝ) :=
  (List.range kernel.parameters.numTimeSteps.toNat).foldlM
    (fun path step =>
      eval (exactNormals z) (kernel.advance math scenarioId (UInt32.ofNat step) path))
    ⟨kernel.parameters.spot, 0⟩

variable {kernel : GbmKernel ℝ} {s : UInt64}

theorem eval_discountedPayoff {x : ℝ} :
    eval (exactNormals z) (kernel.discountedPayoff math s) = .ok x ↔
      s < kernel.parameters.totalScenarios ∧ ∃ path, kernel.path math z s = .ok path ∧
        discounted kernel.parameters kernel.discountFactor path.price path.runningSum = .ok x := by
  unfold discountedPayoff
  rw [eval_throwIf_bind, decide_eq_false_iff_not, UInt64.not_le, eval_bind, eval_foldlM, zero_real,
    Result.bind_eq_ok]
  simp only [eval_throwIf_bind, eval_ofExcept_bind, eval_pure_eq_ok, discounted_eq_ok,
    isFinite_real, mul_real, Bool.not_true, true_and]
  rfl

end GbmKernel

namespace HestonKernel

variable (math z) in
/-- The path of a random scenario under the given sign. -/
noncomputable def path (kernel : HestonKernel ℝ) (scenarioId : UInt64) (sign : ℝ) :
    Result (HestonPath ℝ) :=
  (List.range kernel.parameters.numTimeSteps.toNat).foldlM
    (fun path step =>
      eval (exactNormals z) (kernel.advance math scenarioId sign (UInt32.ofNat step) path))
    ⟨kernel.parameters.spot, kernel.heston.initialVariance, 0⟩

variable {kernel : HestonKernel ℝ} {s : UInt64}

theorem eval_discountedPayoffWithSign {sign x : ℝ} :
    eval (exactNormals z) (kernel.discountedPayoffWithSign math s sign) = .ok x ↔
      ∃ path, kernel.path math z s sign = .ok path ∧
        discounted kernel.parameters kernel.discountFactor path.price path.runningSum = .ok x := by
  unfold discountedPayoffWithSign
  rw [eval_bind, eval_foldlM, zero_real, Result.bind_eq_ok]
  simp only [eval_throwIf_bind, eval_ofExcept_bind, eval_pure_eq_ok, discounted_eq_ok,
    isFinite_real, mul_real, Bool.not_true, true_and]
  rfl

/-- The sign of the shocks of a scenario. -/
noncomputable def sign (kernel : HestonKernel ℝ) (scenarioId : UInt64) : ℝ :=
  if kernel.parameters.antithetic && scenarioId % 2 ≠ 0 then -1 else 1

theorem eval_discountedPayoff {x : ℝ} :
    eval (exactNormals z) (kernel.discountedPayoff math s) = .ok x ↔
      s < kernel.parameters.totalScenarios ∧
        eval (exactNormals z) (kernel.discountedPayoffWithSign math
          ((Kernel.heston kernel).randomScenario s) (kernel.sign s)) = .ok x := by
  unfold discountedPayoff
  rw [eval_throwIf_bind, decide_eq_false_iff_not, UInt64.not_le]
  simp only [neg_real, one_real]
  rfl

end HestonKernel

end Payoffs

/-! ## Specifications in exact arithmetic -/

/-- What `RunSpec::validate` asks of the parameters. -/
structure ModelParameters.Valid (parameters : ModelParameters ℝ) : Prop where
  totalScenarios : 1 ≤ parameters.totalScenarios.toNat ∧ parameters.totalScenarios.toNat ≤ 2 ^ 40
  numTimeSteps : 1 ≤ parameters.numTimeSteps.toNat ∧ parameters.numTimeSteps.toNat ≤ 2 ^ 24
  maturity : 0 < parameters.maturity
  spot : 0 < parameters.spot
  strike : 0 < parameters.strike
  pairs : parameters.antithetic = true → parameters.totalScenarios.toNat % 2 = 0
  payoffType : parameters.payoffType = .europeanCall ∨ parameters.payoffType = .asianCall

/-- The kernel of a run in exact arithmetic; a Heston run carries its parameters. -/
noncomputable def exactKernel (math : MathLibrary ℝ) (parameters : ModelParameters ℝ) :
    Option (HestonParameters ℝ) → Result (Kernel ℝ)
  | none => Kernel.gbm <$> GbmKernel.make math parameters
  | some heston => Kernel.heston <$> HestonKernel.make math parameters heston

section Constructors

variable {math : MathLibrary ℝ} {parameters : ModelParameters ℝ}

/-- The kernel that `GbmKernel::GbmKernel` makes. -/
noncomputable def GbmKernel.of (math : MathLibrary ℝ) (parameters : ModelParameters ℝ) :
    GbmKernel ℝ :=
  let dt := parameters.maturity / parameters.numTimeSteps.toNat
  ⟨parameters, (parameters.rate - 1 / 2 * parameters.volatility * parameters.volatility) * dt,
    parameters.volatility * math.sqrt dt, math.exp (-parameters.rate * parameters.maturity)⟩

/-- The kernel that `HestonKernel::HestonKernel` makes. -/
noncomputable def HestonKernel.of (math : MathLibrary ℝ) (parameters : ModelParameters ℝ)
    (heston : HestonParameters ℝ) : HestonKernel ℝ :=
  let dt := parameters.maturity / parameters.numTimeSteps.toNat
  ⟨parameters, heston, dt, math.sqrt dt, parameters.rate * dt, heston.meanReversionRate * dt,
    heston.volatilityOfVariance * math.sqrt dt,
    math.sqrt (max 0 (1 - heston.correlation * heston.correlation)),
    math.exp (-parameters.rate * parameters.maturity)⟩

theorem ofUInt64_real (n : UInt32) : (FloatOps.ofUInt64 n.toUInt64 : ℝ) = n.toNat := by
  show ((n.toUInt64.toNat : ℕ) : ℝ) = n.toNat
  rw [UInt32.toNat_toUInt64]

theorem GbmKernel.make_eq_ok {kernel : GbmKernel ℝ} :
    GbmKernel.make math parameters = .ok kernel ↔
      0 < math.exp (-parameters.rate * parameters.maturity) ∧ kernel = .of math parameters := by
  unfold GbmKernel.make
  simp only [Result.bind_eq_ok, throwIf_eq_ok, isFinite_real, le_real, zero_real, div_real,
    mul_real, sub_real, neg_real, half_real, ofUInt64_real, Bool.not_true, Bool.false_or,
    decide_eq_false_iff_not, not_le, exists_const]
  exact and_congr_right fun _ => ⟨fun h => (Except.ok.inj h).symm, fun h => by rw [h]; rfl⟩

theorem HestonKernel.make_eq_ok {heston : HestonParameters ℝ} {kernel : HestonKernel ℝ} :
    HestonKernel.make math parameters heston = .ok kernel ↔
      (0 < parameters.maturity / parameters.numTimeSteps.toNat ∧
        0 < math.sqrt (parameters.maturity / parameters.numTimeSteps.toNat) ∧
        0 < math.exp (-parameters.rate * parameters.maturity)) ∧
      kernel = .of math parameters heston := by
  unfold HestonKernel.make
  simp only [Result.bind_eq_ok, throwIf_eq_ok, isFinite_real, le_real, zero_real, div_real,
    mul_real, sub_real, neg_real, one_real, maxOf_real, ofUInt64_real, Bool.not_true, Bool.false_or,
    Bool.or_false, Bool.or_eq_false_iff, decide_eq_false_iff_not, not_le, exists_const, and_assoc]
  refine and_congr_right fun _ => and_congr_right fun _ => and_congr_right fun _ => ?_
  exact ⟨fun h => (Except.ok.inj h).symm, fun h => by rw [h]; rfl⟩

/-- A kernel keeps the parameters. -/
theorem parameters_of_exactKernel {heston : Option (HestonParameters ℝ)} {kernel : Kernel ℝ}
    (h : exactKernel math parameters heston = .ok kernel) : kernel.parameters = parameters := by
  cases heston with
  | none =>
    cases hmake : GbmKernel.make math parameters with
    | error e => rw [exactKernel, hmake] at h; cases h
    | ok made =>
      rw [exactKernel, hmake] at h
      cases h
      rw [(GbmKernel.make_eq_ok.mp hmake).2]
      rfl
  | some heston =>
    cases hmake : HestonKernel.make math parameters heston with
    | error e => rw [exactKernel, hmake] at h; cases h
    | ok made =>
      rw [exactKernel, hmake] at h
      cases h
      rw [(HestonKernel.make_eq_ok.mp hmake).2]
      rfl

end Constructors

/-! ## Simulations that return -/

section Returning

variable {math : MathLibrary ℝ} {z : UInt64 → UInt32 → UInt32 → ℝ}

theorem discounted_returns {parameters : ModelParameters ℝ}
    (htype : parameters.payoffType = .europeanCall ∨ parameters.payoffType = .asianCall)
    (discountFactor price sum : ℝ) :
    ∃ x, discounted parameters discountFactor price sum = .ok x := by
  unfold discounted payoffFromPath
  rcases htype with htype | htype
  · rw [if_pos htype]
    exact ⟨_, rfl⟩
  · rw [if_neg (by rw [htype]; decide), if_pos htype]
    exact ⟨_, rfl⟩

variable (hexp : ∀ x, 0 < math.exp x)
include hexp

/-- With positive exponentials a valid run returns a payoff for each of its scenarios. -/
theorem GbmKernel.discountedPayoff_returns {kernel : GbmKernel ℝ}
    (hvalid : kernel.parameters.Valid) {s : UInt64} (hs : s < kernel.parameters.totalScenarios) :
    ∃ x, eval (exactNormals z) (kernel.discountedPayoff math s) = .ok x := by
  obtain ⟨path, hpath, -⟩ : ∃ path, kernel.path math z s = .ok path ∧ 0 < path.price := by
    refine foldlM_returns (fun path step hprice => ?_) _ hvalid.spot
    have hnext : 0 < (kernel.move math (kernel.shock z s (UInt32.ofNat step)) path).price :=
      mul_pos hprice (hexp _)
    exact ⟨_, (kernel.eval_advance math z s _ path _).mpr ⟨hnext, rfl⟩, hnext⟩
  obtain ⟨x, hx⟩ := discounted_returns hvalid.payoffType kernel.discountFactor path.price
    path.runningSum
  exact ⟨x, eval_discountedPayoff.mpr ⟨hs, path, hpath, hx⟩⟩

theorem HestonKernel.discountedPayoffWithSign_returns {kernel : HestonKernel ℝ}
    (hvalid : kernel.parameters.Valid) (s : UInt64) (sign : ℝ) :
    ∃ x, eval (exactNormals z) (kernel.discountedPayoffWithSign math s sign) = .ok x := by
  obtain ⟨path, hpath, -⟩ : ∃ path, kernel.path math z s sign = .ok path ∧ 0 < path.price := by
    refine foldlM_returns (fun path step hprice => ?_) _ hvalid.spot
    have hnext : 0 < (kernel.move math (sign * z s (UInt32.ofNat step) 0)
        (sign * kernel.correlated z s (UInt32.ofNat step)) path).price := mul_pos hprice (hexp _)
    exact ⟨_, (kernel.eval_advance math z s sign _ path _).mpr ⟨hnext, rfl⟩, hnext⟩
  obtain ⟨x, hx⟩ := discounted_returns hvalid.payoffType kernel.discountFactor path.price
    path.runningSum
  exact ⟨x, eval_discountedPayoffWithSign.mpr ⟨path, hpath, hx⟩⟩

end Returning

/-- The payoff of a scenario, with the kernel made for it. -/
noncomputable def exactPayoff (math : MathLibrary ℝ) (z : UInt64 → UInt32 → UInt32 → ℝ)
    (parameters : ModelParameters ℝ) (heston : Option (HestonParameters ℝ)) (scenarioId : UInt64) :
    Result ℝ := do
  let kernel ← exactKernel math parameters heston
  eval (exactNormals z) (kernel.discountedPayoff math scenarioId)

theorem exactPayoff_gbm {math : MathLibrary ℝ} {z : UInt64 → UInt32 → UInt32 → ℝ}
    {parameters : ModelParameters ℝ} {s : UInt64} {x : ℝ} :
    exactPayoff math z parameters none s = .ok x ↔
      0 < math.exp (-parameters.rate * parameters.maturity) ∧
        eval (exactNormals z) ((GbmKernel.of math parameters).discountedPayoff math s) = .ok x := by
  rw [exactPayoff, Result.bind_eq_ok]
  constructor
  · rintro ⟨kernel, hkernel, hpayoff⟩
    cases hmake : GbmKernel.make math parameters with
    | error e => rw [exactKernel, hmake] at hkernel; cases hkernel
    | ok made =>
      rw [exactKernel, hmake] at hkernel
      cases hkernel
      obtain ⟨hpos, rfl⟩ := GbmKernel.make_eq_ok.mp hmake
      exact ⟨hpos, hpayoff⟩
  · rintro ⟨hpos, hpayoff⟩
    exact ⟨.gbm (.of math parameters), by rw [exactKernel, GbmKernel.make_eq_ok.mpr ⟨hpos, rfl⟩]; rfl,
      hpayoff⟩

theorem exactPayoff_heston {math : MathLibrary ℝ} {z : UInt64 → UInt32 → UInt32 → ℝ}
    {parameters : ModelParameters ℝ} {heston : HestonParameters ℝ} {s : UInt64} {x : ℝ} :
    exactPayoff math z parameters (some heston) s = .ok x ↔
      (0 < parameters.maturity / parameters.numTimeSteps.toNat ∧
        0 < math.sqrt (parameters.maturity / parameters.numTimeSteps.toNat) ∧
        0 < math.exp (-parameters.rate * parameters.maturity)) ∧
        eval (exactNormals z) ((HestonKernel.of math parameters heston).discountedPayoff math s) =
          .ok x := by
  rw [exactPayoff, Result.bind_eq_ok]
  constructor
  · rintro ⟨kernel, hkernel, hpayoff⟩
    cases hmake : HestonKernel.make math parameters heston with
    | error e => rw [exactKernel, hmake] at hkernel; cases hkernel
    | ok made =>
      rw [exactKernel, hmake] at hkernel
      cases hkernel
      obtain ⟨hpos, rfl⟩ := HestonKernel.make_eq_ok.mp hmake
      exact ⟨hpos, hpayoff⟩
  · rintro ⟨hpos, hpayoff⟩
    exact ⟨.heston (.of math parameters heston),
      by rw [exactKernel, HestonKernel.make_eq_ok.mpr ⟨hpos, rfl⟩]; rfl, hpayoff⟩

/-- The true exponential, square root and logarithm. -/
noncomputable def realMath : MathLibrary ℝ := ⟨Real.exp, Real.sqrt, Real.log⟩

/-- An antithetic pair of Asian paths of two steps. -/
noncomputable def twoPaths : ModelParameters ℝ := ⟨2, 2, 1, 3, 1, 1, 1, .asianCall, true⟩

theorem twoPaths_valid : twoPaths.Valid where
  totalScenarios := by decide
  numTimeSteps := by decide
  maturity := one_pos
  spot := three_pos
  strike := one_pos
  pairs _ := by decide
  payoffType := Or.inr rfl

/-- Draws that are all positive and differ between the steps and between the dimensions. -/
def growingDraws (_ : UInt64) (step dimension : UInt32) : ℝ :=
  (1 + step.toNat + 3 * dimension.toNat : ℕ)

end MonteCarlo
