import MonteCarlo.Aggregate

/-!
# Run specifications

`RunSpec` and its `validate`, from `run_spec.hpp` and `run_spec.cpp`.  A
specification fixes the stochastic content of a run; every entry point
validates it first.
-/

namespace MonteCarlo

def kEngineVersion : UInt64 := 2
def kRngVersion : UInt64 := 2
def kRunSpecSchemaVersion : UInt32 := 1
def kStatsSchemaVersion : UInt32 := 1
def kHestonDiscretizationVersion : UInt32 := 1
def kMaxScenarios : UInt64 := UInt64.ofNat (2 ^ 40)
def kMaxTimeSteps : UInt32 := UInt32.ofNat (2 ^ 24)

/-- `ModelType`.  The enumeration has a fixed underlying type, and a value read
from disk is checked only later, so other codes are values of the type too. -/
structure ModelType where
  code : UInt8
  deriving DecidableEq, Repr

def ModelType.gbm : ModelType := ⟨1⟩
def ModelType.heston : ModelType := ⟨2⟩

/-- `PayoffType`, with the same remark. -/
structure PayoffType where
  code : UInt8
  deriving DecidableEq, Repr

def PayoffType.europeanCall : PayoffType := ⟨1⟩
def PayoffType.asianCall : PayoffType := ⟨2⟩

/-- `HestonParams`. -/
structure HestonParams where
  initialVariance : Binary64
  meanReversionRate : Binary64
  longRunVariance : Binary64
  volatilityOfVariance : Binary64
  correlation : Binary64
  discretizationVersion : UInt32
  deriving DecidableEq, Repr

/-- `RunSpec`. -/
structure RunSpec where
  globalSeed : UInt64
  totalScenarios : UInt64
  numTimeSteps : UInt32
  maturity : Binary64
  spot : Binary64
  strike : Binary64
  rate : Binary64
  volatility : Binary64
  heston : Option HestonParams
  payoffType : PayoffType
  antithetic : Bool
  modelType : ModelType
  engineVersion : UInt64
  rngVersion : UInt64
  statsSchemaVersion : UInt32
  deriving DecidableEq, Repr

namespace RunSpec

/-- The `volatility` of a default-constructed specification, `0.2`. -/
def defaultVolatility : Binary64 := ⟨0x3FC999999999999A⟩

/-- A default-constructed specification. -/
def defaults : RunSpec where
  globalSeed := 1
  totalScenarios := 100000
  numTimeSteps := 1
  maturity := 1
  spot := ⟨0x4059000000000000⟩
  strike := ⟨0x4059000000000000⟩
  rate := ⟨0x3FA999999999999A⟩
  volatility := defaultVolatility
  heston := none
  payoffType := .europeanCall
  antithetic := false
  modelType := .gbm
  engineVersion := kEngineVersion
  rngVersion := kRngVersion
  statsSchemaVersion := kStatsSchemaVersion

/-- An exception of `RunSpec::validate`. -/
def invalid (what : String) : Exception := ⟨.invalidArgument, .runSpecValidate, what⟩

/-- `!std::isfinite(x) || x <= 0.0`. -/
def notPositive (x : Binary64) : Bool := !x.isFinite || !Binary64.lt 0 x

/-- `!std::isfinite(x) || x < 0.0`. -/
def notNonnegative (x : Binary64) : Bool := !x.isFinite || Binary64.lt x 0

/-- The model-specific part of `RunSpec::validate`. -/
def validateModel (spec : RunSpec) : Result Unit :=
  if spec.modelType = .gbm then do
    throwIf spec.heston.isSome (invalid "GBM runs must not contain Heston parameters")
    throwIf (notPositive spec.volatility) (invalid "GBM volatility must be finite and positive")
  else if spec.modelType = .heston then
    match spec.heston with
    | none => .error (invalid "Heston runs require Heston parameters")
    | some heston => do
      throwIf (heston.discretizationVersion ≠ kHestonDiscretizationVersion)
        (invalid "unsupported Heston discretization version")
      throwIf (notNonnegative heston.initialVariance)
        (invalid "Heston initial variance must be finite and nonnegative")
      throwIf (notNonnegative heston.meanReversionRate)
        (invalid "Heston mean reversion must be finite and nonnegative")
      throwIf (notNonnegative heston.longRunVariance)
        (invalid "Heston long-run variance must be finite and nonnegative")
      throwIf (notNonnegative heston.volatilityOfVariance)
        (invalid "Heston volatility of variance must be finite and nonnegative")
      throwIf (!heston.correlation.isFinite
          || Binary64.lt heston.correlation ⟨0xBFF0000000000000⟩
          || Binary64.lt 1 heston.correlation)
        (invalid "Heston correlation must be finite and in [-1, 1]")
  else .error (invalid "unsupported model type")

/-- `RunSpec::validate`. -/
def validate (spec : RunSpec) : Result Unit := do
  throwIf (spec.engineVersion ≠ kEngineVersion) (invalid "unsupported engine version")
  throwIf (spec.rngVersion ≠ kRngVersion) (invalid "unsupported RNG version")
  throwIf (spec.statsSchemaVersion ≠ kStatsSchemaVersion)
    (invalid "unsupported statistics schema version")
  throwIf (spec.totalScenarios = 0 || kMaxScenarios < spec.totalScenarios)
    (invalid "total_scenarios must be in [1, 2^40]")
  throwIf (spec.numTimeSteps = 0 || kMaxTimeSteps < spec.numTimeSteps)
    (invalid "num_time_steps must be in [1, 2^24]")
  throwIf (notPositive spec.maturity) (invalid "maturity must be finite and positive")
  throwIf (notPositive spec.spot) (invalid "spot must be finite and positive")
  throwIf (notPositive spec.strike) (invalid "strike must be finite and positive")
  throwIf (!spec.rate.isFinite) (invalid "rate must be finite")
  throwIf (spec.antithetic && spec.totalScenarios % 2 ≠ 0)
    (invalid "antithetic runs require an even scenario count")
  throwIf (spec.payoffType ≠ .europeanCall && spec.payoffType ≠ .asianCall)
    (invalid "unsupported payoff type")
  spec.validateModel

/-- What the block engine uses of a valid specification. -/
structure Accepted (spec : RunSpec) : Prop where
  total_pos : 0 < spec.totalScenarios.toNat
  total_le : spec.totalScenarios.toNat ≤ 2 ^ 40
  even : spec.antithetic = true → spec.totalScenarios.toNat % 2 = 0
  rng : spec.rngVersion = kRngVersion
  stats : spec.statsSchemaVersion = kStatsSchemaVersion

theorem accepted_of_validate {spec : RunSpec} (h : spec.validate = .ok ()) : Accepted spec := by
  unfold validate at h
  simp only [Result.bind_eq_ok, throwIf_eq_ok, exists_const, decide_eq_false_iff_not, ne_eq,
    not_not, Bool.or_eq_false_iff, Bool.and_eq_false_iff] at h
  obtain ⟨-, hrng, hstats, ⟨hzero, hmax⟩, -, -, -, -, -, heven, -⟩ := h
  have hmax' : spec.totalScenarios ≤ kMaxScenarios := by simpa using hmax
  refine ⟨?_, ?_, ?_, hrng, hstats⟩
  · rcases Nat.eq_zero_or_pos spec.totalScenarios.toNat with h0 | h0
    · exact absurd (UInt64.toNat_inj.mp (by simpa using h0)) hzero
    · exact h0
  · have hle := UInt64.le_iff_toNat_le.mp hmax'
    rwa [show kMaxScenarios.toNat = 2 ^ 40 from by decide] at hle
  · intro hanti
    rcases heven with h | h
    · rw [hanti] at h; cases h
    · have := congrArg UInt64.toNat h
      simpa using this

end RunSpec
end MonteCarlo
