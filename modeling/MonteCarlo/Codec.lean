import MonteCarlo.Engine.Blocks
import MonteCarlo.Library.Wire

/-!
# Canonical payloads and content identities

`codec.cpp`: the fixed-order little-endian payloads of a specification, an
aggregate and an execution layout, and the SHA-256 identities derived from
them.  `BuildIdentity` is `identity.hpp`; its description is compiled in, so it
is an arbitrary byte string here.
-/

namespace MonteCarlo

open Wire

def appendU8 (value : UInt8) : Bytes := [value]

def appendU32 (value : UInt32) : Bytes := encodeLE 4 value.toNat

def appendU64 (value : UInt64) : Bytes := encodeLE 8 value.toNat

def appendDouble (value : Binary64) : Bytes := appendU64 value.bits

def appendDigest (digest : Sha256Digest) : Bytes := digest.toList

@[simp] theorem length_appendU8 (v : UInt8) : (appendU8 v).length = 1 := rfl

@[simp] theorem length_appendU32 (v : UInt32) : (appendU32 v).length = 4 := length_encodeLE _ _

@[simp] theorem length_appendU64 (v : UInt64) : (appendU64 v).length = 8 := length_encodeLE _ _

@[simp] theorem length_appendDouble (v : Binary64) : (appendDouble v).length = 8 :=
  length_appendU64 _

@[simp] theorem length_appendDigest (d : Sha256Digest) : (appendDigest d).length = 32 := by
  simp [appendDigest]

/-- `BuildIdentity`: the description of the build; its hash is derived. -/
structure BuildIdentity where
  description : Bytes
  deriving DecidableEq, Repr

def BuildIdentity.hash (build : BuildIdentity) : Sha256Digest := sha256 build.description

/-- The model-specific tail of a specification payload. -/
def modelTail (spec : RunSpec) : Bytes :=
  if spec.modelType = .gbm then appendDouble spec.volatility
  else
    match spec.heston with
    | none => []
    | some heston =>
      appendU32 heston.discretizationVersion ++ appendDouble heston.initialVariance
        ++ appendDouble heston.meanReversionRate ++ appendDouble heston.longRunVariance
        ++ appendDouble heston.volatilityOfVariance ++ appendDouble heston.correlation

/-- The bytes `encode_run_spec_payload` appends for a valid specification. -/
def runSpecBytes (spec : RunSpec) : Bytes :=
  appendU32 kRunSpecSchemaVersion ++ appendU64 spec.engineVersion ++ appendU64 spec.rngVersion
    ++ appendU32 spec.statsSchemaVersion ++ appendU8 spec.modelType.code
    ++ appendU8 spec.payoffType.code ++ appendU8 (if spec.antithetic then 1 else 0)
    ++ appendU8 0 ++ appendU64 spec.globalSeed ++ appendU64 spec.totalScenarios
    ++ appendU32 spec.numTimeSteps ++ appendDouble spec.maturity ++ appendDouble spec.spot
    ++ appendDouble spec.strike ++ appendDouble spec.rate ++ modelTail spec

/-- `encode_run_spec_payload`. -/
def encodeRunSpecPayload (spec : RunSpec) : Result Bytes := do
  spec.validate
  pure (runSpecBytes spec)

/-- The bytes `encode_aggregate_payload` appends for an accepted aggregate. -/
def aggregateBytes (aggregate : AggregateStats Binary64) (statsSchemaVersion : UInt32) : Bytes :=
  appendU32 1 ++ appendU32 statsSchemaVersion ++ appendU64 aggregate.n
    ++ appendDouble aggregate.mean ++ appendDouble aggregate.m2
    ++ appendDouble aggregate.min ++ appendDouble aggregate.max

@[simp] theorem length_aggregateBytes (a : AggregateStats Binary64) (v : UInt32) :
    (aggregateBytes a v).length = 48 := by
  simp [aggregateBytes]

/-- `encode_aggregate_payload`. -/
def encodeAggregatePayload (aggregate : AggregateStats Binary64) (statsSchemaVersion : UInt32) :
    Result Bytes := do
  throwIf (statsSchemaVersion ≠ kStatsSchemaVersion)
    ⟨.invalidArgument, .encodeAggregatePayload, "unsupported aggregate statistics schema"⟩
  match aggregate.invariantError with
  | some error => .error ⟨.invalidArgument, .encodeAggregatePayload, error⟩
  | none => pure (aggregateBytes aggregate statsSchemaVersion)

theorem encodeAggregatePayload_eq_ok {a : AggregateStats Binary64} {v : UInt32} {bytes : Bytes} :
    encodeAggregatePayload a v = .ok bytes ↔
      v = kStatsSchemaVersion ∧ a.invariantError = none ∧ bytes = aggregateBytes a v := by
  unfold encodeAggregatePayload
  by_cases hv : v = kStatsSchemaVersion
  · cases he : a.invariantError with
    | none =>
      simp only [hv, ne_eq, not_true, decide_false, throwIf_false, true_and]
      exact ⟨fun h => by cases h; rfl, fun h => by rw [h]; rfl⟩
    | some error =>
      simp only [hv, ne_eq, not_true, decide_false, throwIf_false, true_and, reduceCtorEq,
        false_and, iff_false]
      intro h; cases h
  · simp only [hv, ne_eq, not_false_iff, decide_true, throwIf_true, false_and, iff_false]
    intro h; cases h

/-- `run_spec_hash`. -/
def runSpecHash (spec : RunSpec) : Result Sha256Digest := sha256 <$> encodeRunSpecPayload spec

/-- `aggregate_payload_hash`. -/
def aggregatePayloadHash (aggregate : AggregateStats Binary64) (statsSchemaVersion : UInt32) :
    Result Sha256Digest :=
  sha256 <$> encodeAggregatePayload aggregate statsSchemaVersion

theorem aggregatePayloadHash_eq_ok {a : AggregateStats Binary64} {v : UInt32}
    {digest : Sha256Digest} :
    aggregatePayloadHash a v = .ok digest ↔
      v = kStatsSchemaVersion ∧ a.invariantError = none ∧ digest = sha256 (aggregateBytes a v) := by
  unfold aggregatePayloadHash
  cases hp : encodeAggregatePayload a v with
  | ok bytes =>
    obtain ⟨hv, he, rfl⟩ := encodeAggregatePayload_eq_ok.mp hp
    refine ⟨fun h => ⟨hv, he, ?_⟩, fun h => ?_⟩
    · cases h; rfl
    · rw [h.2.2]; rfl
  | error e =>
    refine ⟨fun h => (by cases h), fun h => ?_⟩
    rw [encodeAggregatePayload_eq_ok.mpr ⟨h.1, h.2.1, rfl⟩] at hp
    cases hp

/-- `encode_execution_layout_payload`. -/
def encodeExecutionLayoutPayload (spec : RunSpec) (config : EngineConfig) : Result Bytes := do
  spec.validate
  config.validate spec
  let count := blockCount spec config.blockSize
  throwIf (config.maxMaterializedBlocks < count)
    ⟨.lengthError, .encodeExecutionLayoutPayload,
      "execution layout exceeds max_materialized_blocks"⟩
  let specHash ← runSpecHash spec
  pure (appendDigest specHash ++ appendU32 kBlockPartitionVersion
    ++ appendU32 kReductionTreeVersion ++ appendU64 config.blockSize ++ appendU64 count)

/-- `execution_layout_hash`. -/
def executionLayoutHash (spec : RunSpec) (config : EngineConfig) : Result Sha256Digest :=
  sha256 <$> encodeExecutionLayoutPayload spec config

/-- The layout identity depends on the configuration only through the block
size, as long as the limits admit the run. -/
theorem executionLayoutHash_congr {spec : RunSpec} {c d : EngineConfig} {x y : Sha256Digest}
    (hsize : c.blockSize = d.blockSize) (hc : executionLayoutHash spec c = .ok x)
    (hd : executionLayoutHash spec d = .ok y) : x = y := by
  have key : ∀ {e : EngineConfig} {z : Sha256Digest}, executionLayoutHash spec e = .ok z →
      ∃ h, runSpecHash spec = .ok h ∧ z = sha256 (appendDigest h
        ++ appendU32 kBlockPartitionVersion ++ appendU32 kReductionTreeVersion
        ++ appendU64 e.blockSize ++ appendU64 (blockCount spec e.blockSize)) := by
    intro e z he
    rcases hp : encodeExecutionLayoutPayload spec e with err | bytes
    · rw [executionLayoutHash, hp] at he; cases he
    · rw [executionLayoutHash, hp] at he
      cases he
      simp only [encodeExecutionLayoutPayload, Result.bind_eq_ok] at hp
      obtain ⟨⟨⟩, -, ⟨⟩, -, ⟨⟩, -, h, hh, hb⟩ := hp
      cases hb
      exact ⟨h, hh, rfl⟩
  obtain ⟨h, hh, rfl⟩ := key hc
  obtain ⟨h', hh', rfl⟩ := key hd
  rw [hh] at hh'
  cases hh'
  rw [hsize]

end MonteCarlo
