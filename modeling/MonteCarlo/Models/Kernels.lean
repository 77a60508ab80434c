import MonteCarlo.Engine.Blocks
import MonteCarlo.Library.Program
import MonteCarlo.Rng.Philox

/-!
# The simulation kernels

`gbm.cpp` and `heston.cpp`: the constants a kernel derives from the specification, the path of one
scenario, and the fused loop over an antithetic pair.  The code is written over any `KernelOps`, as
the source is over `double`, and asks for its normal draws by their coordinates, so that one text
serves for the real generator and for arbitrary draws.

* `standardNormal` — the generator: coordinates, Philox, uniform, inverse normal.
* `GbmKernel`, `HestonKernel` — the two classes.
* `modelKernel` — the `ModelKernel` that the block engine uses.
-/

namespace MonteCarlo

open Effects

/-- What the kernels use beyond the operations of the aggregation code. -/
class KernelOps (F : Type) extends FloatOps F where
  /-- Unary minus. -/
  neg : F → F
  /-- `0.5`. -/
  half : F

instance : KernelOps Binary64 where
  neg := Binary64.neg
  half := ⟨0x3FE0000000000000⟩

/-- The functions of `<cmath>`. -/
structure MathLibrary (F : Type) where
  exp : F → F
  sqrt : F → F
  log : F → F

/-- The Heston parameters that `HestonKernel` reads. -/
structure HestonParameters (F : Type) where
  initialVariance : F
  meanReversionRate : F
  longRunVariance : F
  volatilityOfVariance : F
  correlation : F
  deriving DecidableEq, Repr

/-- What the kernels read of the specification. -/
structure ModelParameters (F : Type) where
  totalScenarios : UInt64
  numTimeSteps : UInt32
  maturity : F
  spot : F
  strike : F
  rate : F
  volatility : F
  payoffType : PayoffType
  antithetic : Bool
  deriving DecidableEq, Repr

def RunSpec.parameters (spec : RunSpec) : ModelParameters Binary64 where
  totalScenarios := spec.totalScenarios
  numTimeSteps := spec.numTimeSteps
  maturity := spec.maturity
  spot := spec.spot
  strike := spec.strike
  rate := spec.rate
  volatility := spec.volatility
  payoffType := spec.payoffType
  antithetic := spec.antithetic

def HestonParams.parameters (heston : HestonParams) : HestonParameters Binary64 where
  initialVariance := heston.initialVariance
  meanReversionRate := heston.meanReversionRate
  longRunVariance := heston.longRunVariance
  volatilityOfVariance := heston.volatilityOfVariance
  correlation := heston.correlation

/-- An exception of the kernels. -/
def kernelError (type : ExceptionType) (what : String) : Exception := ⟨type, .modelKernel, what⟩

/-- Code that asks for normal draws; a draw can throw. -/
abbrev Draws (F α : Type) : Type := Program Coordinates (fun _ => Result F) Exception α

section Draws

variable {F : Type}

/-- `if (condition) throw error;` -/
def Draws.throwIf (condition : Bool) (error : Exception) : Draws F Unit :=
  Program.ofExcept (MonteCarlo.throwIf condition error)

/-- `standard_normal` under the seed of the run, with the default `draw_index`. -/
def Draws.standardNormal (scenarioId : UInt64) (timeStep dimension : UInt32) : Draws F F := do
  let normal ← Program.perform ⟨scenarioId, timeStep, dimension, 0⟩
  Program.ofExcept normal

end Draws

section Kernels

variable {F : Type} [KernelOps F]

open FloatOps KernelOps AggregateStats

/-- The comparison `<=`. -/
def le (x y : F) : Bool := lt x y || FloatOps.eq x y

/-- `payoff_from_path`, the same in both kernels. -/
def payoffFromPath (parameters : ModelParameters F) (terminalPrice runningSum : F) : Result F :=
  if parameters.payoffType = .europeanCall then
    .ok (maxOf (sub terminalPrice parameters.strike) zero)
  else if parameters.payoffType = .asianCall then
    let average := div runningSum (ofUInt64 parameters.numTimeSteps.toUInt64)
    .ok (maxOf (sub average parameters.strike) zero)
  else .error (kernelError .logicError "unreachable payoff type")

/-- The price and the running sum of a path. -/
structure GbmPath (F : Type) where
  price : F
  runningSum : F

/-- `GbmKernel`. -/
structure GbmKernel (F : Type) where
  parameters : ModelParameters F
  driftPerStep : F
  diffusionPerStep : F
  discountFactor : F

namespace GbmKernel

variable (math : MathLibrary F)

/-- The constructor of `GbmKernel`, after the checks of the specification. -/
def make (parameters : ModelParameters F) : Result (GbmKernel F) := do
  let dt := div parameters.maturity (ofUInt64 parameters.numTimeSteps.toUInt64)
  let driftPerStep := mul (sub parameters.rate
    (mul (mul half parameters.volatility) parameters.volatility)) dt
  let diffusionPerStep := mul parameters.volatility (math.sqrt dt)
  let discountFactor := math.exp (mul (neg parameters.rate) parameters.maturity)
  throwIf (!isFinite dt || !isFinite driftPerStep || !isFinite diffusionPerStep
      || !isFinite discountFactor || le discountFactor zero)
    (kernelError .invalidArgument
      "GBM parameters produce non-finite or underflowed derived constants")
  pure ⟨parameters, driftPerStep, diffusionPerStep, discountFactor⟩

/-- The body of the loop of `discounted_payoff`. -/
def advance (kernel : GbmKernel F) (scenarioId : UInt64) (step : UInt32) (path : GbmPath F) :
    Draws F (GbmPath F) := do
  let antithetic := kernel.parameters.antithetic
  let randomScenario := if antithetic then scenarioId &&& ~~~1 else scenarioId
  let drawn ← Draws.standardNormal randomScenario step 0
  let normal := if antithetic && scenarioId % 2 ≠ 0 then neg drawn else drawn
  let exponent := add kernel.driftPerStep (mul kernel.diffusionPerStep normal)
  let nextPrice := mul path.price (math.exp exponent)
  Draws.throwIf (!isFinite exponent || !isFinite nextPrice || le nextPrice zero)
    (kernelError .domainError ("GBM path became numerically invalid at scenario "
      ++ toString scenarioId.toNat ++ ", step " ++ toString step.toNat))
  let runningSum := add path.runningSum nextPrice
  Draws.throwIf (!isFinite runningSum)
    (kernelError .domainError ("GBM running sum overflowed at scenario "
      ++ toString scenarioId.toNat ++ ", step " ++ toString step.toNat))
  pure ⟨nextPrice, runningSum⟩

/-- `GbmKernel::discounted_payoff`. -/
def discountedPayoff (kernel : GbmKernel F) (scenarioId : UInt64) : Draws F F := do
  Draws.throwIf (kernel.parameters.totalScenarios ≤ scenarioId)
    (kernelError .outOfRange "scenario_id is outside the run specification")
  let path ← (List.range kernel.parameters.numTimeSteps.toNat).foldlM
    (fun path step => advance math kernel scenarioId (UInt32.ofNat step) path)
    ⟨kernel.parameters.spot, zero⟩
  let payoff ← Program.ofExcept (payoffFromPath kernel.parameters path.price path.runningSum)
  let discounted := mul kernel.discountFactor payoff
  Draws.throwIf (!isFinite discounted)
    (kernelError .domainError "GBM simulation produced a non-finite payoff")
  pure discounted

/-- The body of the loop of `antithetic_pair_mean`. -/
def advancePair (kernel : GbmKernel F) (evenScenarioId : UInt64) (step : UInt32)
    (paths : GbmPath F × GbmPath F) : Draws F (GbmPath F × GbmPath F) := do
  let normal ← Draws.standardNormal evenScenarioId step 0
  let positiveExponent := add kernel.driftPerStep (mul kernel.diffusionPerStep normal)
  let negativeExponent := add kernel.driftPerStep (mul kernel.diffusionPerStep (neg normal))
  let nextPositive := mul paths.1.price (math.exp positiveExponent)
  let nextNegative := mul paths.2.price (math.exp negativeExponent)
  Draws.throwIf (!isFinite positiveExponent || !isFinite negativeExponent
      || !isFinite nextPositive || !isFinite nextNegative || le nextPositive zero
      || le nextNegative zero)
    (kernelError .domainError ("antithetic GBM path became numerically invalid at scenario "
      ++ toString evenScenarioId.toNat ++ ", step " ++ toString step.toNat))
  let positiveSum := add paths.1.runningSum nextPositive
  let negativeSum := add paths.2.runningSum nextNegative
  Draws.throwIf (!isFinite positiveSum || !isFinite negativeSum)
    (kernelError .domainError ("antithetic GBM running sum overflowed at scenario "
      ++ toString evenScenarioId.toNat ++ ", step " ++ toString step.toNat))
  pure (⟨nextPositive, positiveSum⟩, ⟨nextNegative, negativeSum⟩)

/-- `GbmKernel::antithetic_pair_mean`. -/
def antitheticPairMean (kernel : GbmKernel F) (evenScenarioId : UInt64) : Draws F F := do
  Draws.throwIf (!kernel.parameters.antithetic)
    (kernelError .logicError "antithetic pair requested for a plain run")
  Draws.throwIf (evenScenarioId % 2 ≠ 0
      || kernel.parameters.totalScenarios ≤ evenScenarioId + 1)
    (kernelError .outOfRange "antithetic pair must start at a valid even scenario")
  let paths ← (List.range kernel.parameters.numTimeSteps.toNat).foldlM
    (fun paths step => advancePair math kernel evenScenarioId (UInt32.ofNat step) paths)
    (⟨kernel.parameters.spot, zero⟩, ⟨kernel.parameters.spot, zero⟩)
  let positivePayoff ←
    Program.ofExcept (payoffFromPath kernel.parameters paths.1.price paths.1.runningSum)
  let negativePayoff ←
    Program.ofExcept (payoffFromPath kernel.parameters paths.2.price paths.2.runningSum)
  let positive := mul kernel.discountFactor positivePayoff
  let negative := mul kernel.discountFactor negativePayoff
  let pairMean := mul half (add positive negative)
  Draws.throwIf (!isFinite pairMean)
    (kernelError .domainError "GBM simulation produced a non-finite pair mean")
  pure pairMean

end GbmKernel

/-! ## Heston -/

/-- The price, the variance and the running sum of a path. -/
structure HestonPath (F : Type) where
  price : F
  variance : F
  runningSum : F

/-- `HestonKernel`. -/
structure HestonKernel (F : Type) where
  parameters : ModelParameters F
  heston : HestonParameters F
  dt : F
  sqrtDt : F
  rateDt : F
  meanReversionDt : F
  volatilityOfVarianceSqrtDt : F
  orthogonalWeight : F
  discountFactor : F

namespace HestonKernel

variable (math : MathLibrary F)

/-- The constructor of `HestonKernel`, after the checks of the specification. -/
def make (parameters : ModelParameters F) (heston : HestonParameters F) :
    Result (HestonKernel F) := do
  let dt := div parameters.maturity (ofUInt64 parameters.numTimeSteps.toUInt64)
  let sqrtDt := math.sqrt dt
  let rateDt := mul parameters.rate dt
  let meanReversionDt := mul heston.meanReversionRate dt
  let volatilityOfVarianceSqrtDt := mul heston.volatilityOfVariance sqrtDt
  let rho := heston.correlation
  let orthogonalWeight := math.sqrt (maxOf zero (sub (ofUInt64 1) (mul rho rho)))
  let discountFactor := math.exp (mul (neg parameters.rate) parameters.maturity)
  throwIf (!isFinite dt || le dt zero || !isFinite sqrtDt || le sqrtDt zero || !isFinite rateDt
      || !isFinite meanReversionDt || !isFinite volatilityOfVarianceSqrtDt
      || !isFinite (mul meanReversionDt heston.longRunVariance)
      || !isFinite (mul heston.initialVariance dt)
      || !isFinite (mul (math.sqrt heston.initialVariance) sqrtDt)
      || !isFinite (mul heston.longRunVariance dt) || !isFinite orthogonalWeight
      || !isFinite discountFactor || le discountFactor zero)
    (kernelError .invalidArgument "Heston parameters produce invalid derived constants")
  pure ⟨parameters, heston, dt, sqrtDt, rateDt, meanReversionDt, volatilityOfVarianceSqrtDt,
    orthogonalWeight, discountFactor⟩

/-- The body of the loop of `discounted_payoff_with_sign`. -/
def advance (kernel : HestonKernel F) (randomScenarioId : UInt64) (shockSign : F) (step : UInt32)
    (path : HestonPath F) : Draws F (HestonPath F) := do
  let zAsset ← Draws.standardNormal randomScenarioId step 0
  let zOrthogonal ← Draws.standardNormal randomScenarioId step 1
  let assetShock := mul shockSign zAsset
  let varianceShock := mul shockSign
    (add (mul kernel.heston.correlation zAsset) (mul kernel.orthogonalWeight zOrthogonal))
  let positiveVariance := maxOf path.variance zero
  let sqrtVariance := math.sqrt positiveVariance
  let exponent := add (sub kernel.rateDt (mul (mul half positiveVariance) kernel.dt))
    (mul (mul sqrtVariance kernel.sqrtDt) assetShock)
  let nextPrice := mul path.price (math.exp exponent)
  let nextVariance := add (add path.variance
      (mul kernel.meanReversionDt (sub kernel.heston.longRunVariance positiveVariance)))
    (mul (mul kernel.volatilityOfVarianceSqrtDt sqrtVariance) varianceShock)
  Draws.throwIf (!isFinite exponent || !isFinite nextPrice || le nextPrice zero
      || !isFinite nextVariance)
    (kernelError .domainError ("Heston path became numerically invalid at scenario "
      ++ toString randomScenarioId.toNat ++ ", step " ++ toString step.toNat))
  let runningSum := add path.runningSum nextPrice
  Draws.throwIf (!isFinite runningSum)
    (kernelError .domainError ("Heston running sum overflowed at scenario "
      ++ toString randomScenarioId.toNat ++ ", step " ++ toString step.toNat))
  pure ⟨nextPrice, nextVariance, runningSum⟩

/-- `HestonKernel::discounted_payoff_with_sign`. -/
def discountedPayoffWithSign (kernel : HestonKernel F) (randomScenarioId : UInt64)
    (shockSign : F) : Draws F F := do
  let path ← (List.range kernel.parameters.numTimeSteps.toNat).foldlM
    (fun path step => advance math kernel randomScenarioId shockSign (UInt32.ofNat step) path)
    ⟨kernel.parameters.spot, kernel.heston.initialVariance, zero⟩
  let payoff ← Program.ofExcept (payoffFromPath kernel.parameters path.price path.runningSum)
  let discounted := mul kernel.discountFactor payoff
  Draws.throwIf (!isFinite discounted)
    (kernelError .domainError "Heston simulation produced a non-finite payoff")
  pure discounted

/-- `HestonKernel::discounted_payoff`. -/
def discountedPayoff (kernel : HestonKernel F) (scenarioId : UInt64) : Draws F F := do
  Draws.throwIf (kernel.parameters.totalScenarios ≤ scenarioId)
    (kernelError .outOfRange "scenario_id is outside the run specification")
  let antithetic := kernel.parameters.antithetic
  let randomScenario := if antithetic then scenarioId &&& ~~~1 else scenarioId
  let sign := if antithetic && scenarioId % 2 ≠ 0 then neg (ofUInt64 1) else ofUInt64 1
  discountedPayoffWithSign math kernel randomScenario sign

/-- The body of the loop of `antithetic_pair_mean`. -/
def advancePair (kernel : HestonKernel F) (evenScenarioId : UInt64) (step : UInt32)
    (paths : HestonPath F × HestonPath F) : Draws F (HestonPath F × HestonPath F) := do
  let zAsset ← Draws.standardNormal evenScenarioId step 0
  let zOrthogonal ← Draws.standardNormal evenScenarioId step 1
  let correlated :=
    add (mul kernel.heston.correlation zAsset) (mul kernel.orthogonalWeight zOrthogonal)
  let positiveVPlus := maxOf paths.1.variance zero
  let negativeVPlus := maxOf paths.2.variance zero
  let positiveSqrtV := math.sqrt positiveVPlus
  let negativeSqrtV := math.sqrt negativeVPlus
  let positiveExponent := add (sub kernel.rateDt (mul (mul half positiveVPlus) kernel.dt))
    (mul (mul positiveSqrtV kernel.sqrtDt) zAsset)
  let negativeExponent := sub (sub kernel.rateDt (mul (mul half negativeVPlus) kernel.dt))
    (mul (mul negativeSqrtV kernel.sqrtDt) zAsset)
  let nextPositivePrice := mul paths.1.price (math.exp positiveExponent)
  let nextNegativePrice := mul paths.2.price (math.exp negativeExponent)
  let nextPositiveVariance := add (add paths.1.variance
      (mul kernel.meanReversionDt (sub kernel.heston.longRunVariance positiveVPlus)))
    (mul (mul kernel.volatilityOfVarianceSqrtDt positiveSqrtV) correlated)
  let nextNegativeVariance := sub (add paths.2.variance
      (mul kernel.meanReversionDt (sub kernel.heston.longRunVariance negativeVPlus)))
    (mul (mul kernel.volatilityOfVarianceSqrtDt negativeSqrtV) correlated)
  Draws.throwIf (!isFinite positiveExponent || !isFinite negativeExponent
      || !isFinite nextPositivePrice || !isFinite nextNegativePrice || le nextPositivePrice zero
      || le nextNegativePrice zero || !isFinite nextPositiveVariance
      || !isFinite nextNegativeVariance)
    (kernelError .domainError ("antithetic Heston path became numerically invalid at scenario "
      ++ toString evenScenarioId.toNat ++ ", step " ++ toString step.toNat))
  let positiveSum := add paths.1.runningSum nextPositivePrice
  let negativeSum := add paths.2.runningSum nextNegativePrice
  Draws.throwIf (!isFinite positiveSum || !isFinite negativeSum)
    (kernelError .domainError ("antithetic Heston running sum overflowed at scenario "
      ++ toString evenScenarioId.toNat ++ ", step " ++ toString step.toNat))
  pure (⟨nextPositivePrice, nextPositiveVariance, positiveSum⟩,
    ⟨nextNegativePrice, nextNegativeVariance, negativeSum⟩)

/-- `HestonKernel::antithetic_pair_mean`. -/
def antitheticPairMean (kernel : HestonKernel F) (evenScenarioId : UInt64) : Draws F F := do
  Draws.throwIf (!kernel.parameters.antithetic)
    (kernelError .logicError "antithetic pair requested for a plain run")
  Draws.throwIf (evenScenarioId % 2 ≠ 0
      || kernel.parameters.totalScenarios ≤ evenScenarioId + 1)
    (kernelError .outOfRange "antithetic pair must start at a valid even scenario")
  let start : HestonPath F := ⟨kernel.parameters.spot, kernel.heston.initialVariance, zero⟩
  let paths ← (List.range kernel.parameters.numTimeSteps.toNat).foldlM
    (fun paths step => advancePair math kernel evenScenarioId (UInt32.ofNat step) paths)
    (start, start)
  let positivePayoff ←
    Program.ofExcept (payoffFromPath kernel.parameters paths.1.price paths.1.runningSum)
  let negativePayoff ←
    Program.ofExcept (payoffFromPath kernel.parameters paths.2.price paths.2.runningSum)
  let positive := mul kernel.discountFactor positivePayoff
  let negative := mul kernel.discountFactor negativePayoff
  let pairMean := mul half (add positive negative)
  Draws.throwIf (!isFinite pairMean)
    (kernelError .domainError "Heston simulation produced a non-finite pair mean")
  pure pairMean

end HestonKernel

end Kernels

/-! ## The normal draws -/

/-- `uniform_from_words_v2`. -/
def uniformFromWordsV2 (highWord lowWord : UInt32) : Binary64 :=
  let raw := (highWord.toUInt64 <<< 32) ||| lowWord.toUInt64
  let retained := raw >>> 11
  if retained = 0 then ⟨0x3C90000000000000⟩
  else Binary64.mul (Binary64.ofUInt64 retained) ⟨0x3CA0000000000000⟩

/-- `uniform_open01`. -/
def uniformOpen01 (globalSeed : UInt64) (c : Coordinates) : Result Binary64 := do
  let raw ← randomU64 globalSeed c
  pure (uniformFromWordsV2 (raw >>> 32).toUInt32 raw.toUInt32)

/-- `(...((c1 * x + c2) * x + c3) ...)`. -/
def horner (x : Binary64) (first : Binary64) (rest : List Binary64) : Binary64 :=
  rest.foldl (fun value c => Binary64.add (Binary64.mul value x) c) first

/-- Numerator in a tail, `c1` to `c6`. -/
def tailNumerator (q : Binary64) : Binary64 :=
  horner q ⟨0xBF7FE30D924ACFE0⟩ [⟨0xBFD4A224C0E881B8⟩, ⟨0xC00334C0C1701758⟩,
    ⟨0xC00465DA2C703A1A⟩, ⟨0x40117FA7F4EA4DC7⟩, ⟨0x4007815C1E3FCFA2⟩]

/-- Denominator in a tail, `d1` to `d4` and `1.0`. -/
def tailDenominator (q : Binary64) : Binary64 :=
  horner q ⟨0x3F7FE2D857AC9FD4⟩ [⟨0x3FD4A34D2B590364⟩, ⟨0x40038FA27C8AE616⟩,
    ⟨0x400E09076895B119⟩, 1]

/-- Numerator in the middle, `a1` to `a6`. -/
def centralNumerator (r : Binary64) : Binary64 :=
  horner r ⟨0xC043D931BC1E0525⟩ [⟨0x406B9E467034039B⟩, ⟨0xC0713EDB2DC53B99⟩,
    ⟨0x40614B72B40B401B⟩, ⟨0xC03EAA3034C08BCD⟩, ⟨0x40040D9320575479⟩]

/-- Denominator in the middle, `b1` to `b5` and `1.0`. -/
def centralDenominator (r : Binary64) : Binary64 :=
  horner r ⟨0xC04B3CF0CE3004C4⟩ [⟨0x406432BF2CF04277⟩, ⟨0xC063765E0B02D8D2⟩,
    ⟨0x4050B348B1A7E9BE⟩, ⟨0xC02A8FB57E147826⟩, 1]

/-- `inverse_normal_cdf`. -/
def inverseNormalCdf (math : MathLibrary Binary64) (probability : Binary64) : Result Binary64 := do
  throwIf (!(Binary64.lt 0 probability && Binary64.lt probability 1))
    ⟨.domainError, .inverseNormalCdf, "inverse_normal_cdf requires probability in (0, 1)"⟩
  let lowTail : Binary64 := ⟨0x3F98D4FDF3B645A2⟩
  let highTail := Binary64.sub 1 lowTail
  let minusTwo : Binary64 := ⟨0xC000000000000000⟩
  if Binary64.lt probability lowTail then
    let q := math.sqrt (Binary64.mul minusTwo (math.log probability))
    pure (Binary64.div (tailNumerator q) (tailDenominator q))
  else if le probability highTail then
    let q := Binary64.sub probability ⟨0x3FE0000000000000⟩
    let r := Binary64.mul q q
    pure (Binary64.div (Binary64.mul (centralNumerator r) q) (centralDenominator r))
  else
    let q := math.sqrt (Binary64.mul minusTwo (math.log (Binary64.sub 1 probability)))
    pure (Binary64.div (Binary64.neg (tailNumerator q)) (tailDenominator q))

/-- `standard_normal`. -/
def standardNormal (math : MathLibrary Binary64) (globalSeed : UInt64) (c : Coordinates) :
    Result Binary64 := do
  let uniform ← uniformOpen01 globalSeed c
  inverseNormalCdf math uniform

/-! ## The kernel of a run -/

/-- `ModelKernel::Kernel`. -/
inductive Kernel (F : Type) where
  | gbm (kernel : GbmKernel F)
  | heston (kernel : HestonKernel F)

namespace Kernel

variable {F : Type} [KernelOps F] (math : MathLibrary F)

def parameters : Kernel F → ModelParameters F
  | .gbm kernel => kernel.parameters
  | .heston kernel => kernel.parameters

/-- `ModelKernel::discounted_payoff`. -/
def discountedPayoff : Kernel F → UInt64 → Draws F F
  | .gbm kernel => kernel.discountedPayoff math
  | .heston kernel => kernel.discountedPayoff math

/-- `ModelKernel::antithetic_pair_mean`. -/
def antitheticPairMean : Kernel F → UInt64 → Draws F F
  | .gbm kernel => kernel.antitheticPairMean math
  | .heston kernel => kernel.antitheticPairMean math

end Kernel

/-- The constructor `GbmKernel(spec)`. -/
def makeGbmKernel (math : MathLibrary Binary64) (spec : RunSpec) : Result (GbmKernel Binary64) := do
  spec.validate
  throwIf (spec.modelType ≠ .gbm)
    (kernelError .invalidArgument "GBM kernel requires a GBM run specification")
  GbmKernel.make math spec.parameters

/-- The constructor `HestonKernel(spec)`. -/
def makeHestonKernel (math : MathLibrary Binary64) (spec : RunSpec) :
    Result (HestonKernel Binary64) := do
  spec.validate
  throwIf (spec.modelType ≠ .heston)
    (kernelError .invalidArgument "Heston kernel requires a Heston run specification")
  match spec.heston with
  | none => .error (RunSpec.invalid "Heston runs require Heston parameters")
  | some heston => HestonKernel.make math spec.parameters heston.parameters

/-- `ModelKernel::make_kernel`. -/
def makeKernel (math : MathLibrary Binary64) (spec : RunSpec) : Result (Kernel Binary64) :=
  if spec.modelType = .gbm then Kernel.gbm <$> makeGbmKernel math spec
  else if spec.modelType = .heston then Kernel.heston <$> makeHestonKernel math spec
  else .error (kernelError .invalidArgument "unsupported model type")

/-- `ModelKernel`, under the generator and the seed of the run. -/
def modelKernel (math : MathLibrary Binary64) (spec : RunSpec) : Result (ModelKernel Binary64) := do
  let kernel ← makeKernel math spec
  let normals := standardNormal math spec.globalSeed
  pure
    { discountedPayoff := fun scenarioId =>
        (kernel.discountedPayoff math scenarioId).eval normals
      antitheticPairMean := fun evenScenarioId =>
        (kernel.antitheticPairMean math evenScenarioId).eval normals }

end MonteCarlo
