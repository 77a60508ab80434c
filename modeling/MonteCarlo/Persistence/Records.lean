import MonteCarlo.Coordinator
import MonteCarlo.Persistence.Envelope

/-!
# Durable records

The three artifacts of a run directory and their codecs, from `persistence.hpp`
and `persistence_codec.cpp`:

* `RunMetadata` — `run_spec.bin`, the identity of the run;
* `DurableBlockRecord` — one result file of a block;
* `RunManifest` — a full snapshot: a lease for every block and an entry for
  every committed one.

Each decoder checks its record in the order of the source, field by field.
-/

namespace MonteCarlo

open Wire

/-- `DurableRunStatus`. -/
inductive DurableRunStatus where
  | running
  | complete
  | failed
  deriving DecidableEq, Repr

def DurableRunStatus.code : DurableRunStatus → UInt8
  | running => 1
  | complete => 2
  | failed => 3

/-- `RunMetadata`. -/
structure RunMetadata where
  runId : Sha256Digest
  spec : RunSpec
  blockSize : UInt64
  blockCount : UInt64
  runSpecHash : Sha256Digest
  executionLayoutHash : Sha256Digest
  buildFingerprint : Sha256Digest
  buildDescription : Bytes
  deriving DecidableEq, Repr

/-- `DurableBlockRecord`. -/
structure DurableBlockRecord where
  runId : Sha256Digest
  result : BlockResult
  deriving DecidableEq, Repr

/-- `ManifestEntry`. -/
structure ManifestEntry where
  blockId : UInt64
  resultIncarnation : UInt64
  leaseEpoch : UInt64
  payloadChecksum : Sha256Digest
  deriving DecidableEq, Repr

/-- `FailureRecord`. -/
structure FailureRecord where
  status : ValidationStatus
  blockId : UInt64
  runIncarnation : UInt64
  leaseEpoch : UInt64
  observedChecksum : Sha256Digest
  committedChecksum : Sha256Digest
  reason : Bytes
  deriving DecidableEq, Repr

/-- `RunManifest`. -/
structure RunManifest where
  runId : Sha256Digest
  runSpecHash : Sha256Digest
  executionLayoutHash : Sha256Digest
  buildFingerprint : Sha256Digest
  sequence : UInt64
  status : DurableRunStatus
  runIncarnation : UInt64
  rngVersion : UInt64
  statsSchemaVersion : UInt32
  blockCount : UInt64
  leaseEpochs : List UInt64
  committedBlocks : List ManifestEntry
  committedAggregate : AggregateStats Binary64
  failure : Option FailureRecord
  deriving DecidableEq, Repr

def kMetadataMagic : Bytes := ascii "MCR2META"
def kBlockMagic : Bytes := ascii "MCR2BLK_"
def kManifestMagic : Bytes := ascii "MCR2MAN_"
def kMaxMetadataBytes : UInt64 := 1024 * 1024
def kMaxBlockRecordBytes : UInt64 := 4096
def kMaxBuildDescriptionBytes : UInt32 := 64 * 1024
def kMaxFailureReasonBytes : UInt32 := 4096

@[simp] theorem length_kMetadataMagic : kMetadataMagic.length = 8 := by decide
@[simp] theorem length_kBlockMagic : kBlockMagic.length = 8 := by decide
@[simp] theorem length_kManifestMagic : kManifestMagic.length = 8 := by decide

/-! ## Enumerations on disk -/

/-- `status_code`. -/
def statusCode : ValidationStatus → UInt32
  | .accepted => 0
  | .duplicate => 1
  | .invalidRun => 2
  | .executionLayoutMismatch => 3
  | .buildMismatch => 4
  | .staleIncarnation => 5
  | .rngVersionMismatch => 6
  | .statsSchemaMismatch => 7
  | .invalidAggregate => 8
  | .corruptPayload => 9
  | .invalidBlock => 10
  | .staleLease => 11
  | .determinismError => 12

/-- `validation_status`. -/
def validationStatus (code : UInt32) : Result ValidationStatus :=
  if code = 0 then .ok .accepted
  else if code = 1 then .ok .duplicate
  else if code = 2 then .ok .invalidRun
  else if code = 3 then .ok .executionLayoutMismatch
  else if code = 4 then .ok .buildMismatch
  else if code = 5 then .ok .staleIncarnation
  else if code = 6 then .ok .rngVersionMismatch
  else if code = 7 then .ok .statsSchemaMismatch
  else if code = 8 then .ok .invalidAggregate
  else if code = 9 then .ok .corruptPayload
  else if code = 10 then .ok .invalidBlock
  else if code = 11 then .ok .staleLease
  else if code = 12 then .ok .determinismError
  else .error ⟨.runtimeError, .validationStatus, "persisted failure has an unknown status code"⟩

theorem validationStatus_statusCode (status : ValidationStatus) :
    validationStatus (statusCode status) = .ok status := by
  cases status <;> decide

/-- `durable_status`. -/
def durableStatus (code : UInt8) : Result DurableRunStatus :=
  if code = 1 then .ok .running
  else if code = 2 then .ok .complete
  else if code = 3 then .ok .failed
  else .error ⟨.runtimeError, .durableStatus, "persisted manifest has an unknown run status"⟩

theorem durableStatus_code (status : DurableRunStatus) : durableStatus status.code = .ok status := by
  cases status <;> decide

/-! ## Aggregates -/

/-- The reads of `decode_aggregate_payload`. -/
def readAggregate (expectedSchema : UInt32) : Reader (AggregateStats Binary64) := do
  let mismatch : Exception :=
    ⟨.runtimeError, .decodeAggregatePayload, "persisted aggregate schema mismatch"⟩
  let layout ← Reader.u32
  Wire.Reader.require (layout = 1) mismatch
  let schema ← Reader.u32
  Wire.Reader.require (schema = expectedSchema) mismatch
  let n ← Reader.u64
  let mean ← Reader.binary64
  let m2 ← Reader.binary64
  let min ← Reader.binary64
  let max ← Reader.binary64
  Reader.finish
  pure ⟨n, mean, m2, min, max⟩

/-- `decode_aggregate_payload`. -/
def decodeAggregatePayload (bytes : Bytes) (expectedSchema : UInt32) :
    Result (AggregateStats Binary64) := do
  let aggregate ← Reader.decode (readAggregate expectedSchema) bytes
  match aggregate.invariantError with
  | some error =>
    .error ⟨.runtimeError, .decodeAggregatePayload, "invalid persisted aggregate: " ++ error⟩
  | none => pure aggregate

/-! ## Specifications and metadata -/

/-- `durable_run_id`. -/
def durableRunId (specHash layoutHash : Sha256Digest) : Sha256Digest :=
  sha256 (ascii "mc-durable-run-v1" ++ appendDigest specHash ++ appendDigest layoutHash)

/-- The model-specific reads of `decode_run_spec_payload`: the volatility of a GBM
run, or the parameters of a Heston run, whose volatility keeps its default. -/
def readModelTail (modelType : ModelType) : Reader (Binary64 × Option HestonParams) :=
  if modelType = .gbm then do
    let volatility ← Reader.binary64
    pure (volatility, none)
  else if modelType = .heston then do
    let discretizationVersion ← Reader.u32
    let initialVariance ← Reader.binary64
    let meanReversionRate ← Reader.binary64
    let longRunVariance ← Reader.binary64
    let volatilityOfVariance ← Reader.binary64
    let correlation ← Reader.binary64
    pure (RunSpec.defaultVolatility, some
      { initialVariance, meanReversionRate, longRunVariance, volatilityOfVariance, correlation,
        discretizationVersion })
  else Wire.Reader.ofExcept (.error
    ⟨.runtimeError, .decodeRunSpecPayload, "persisted RunSpec model is unsupported"⟩)

/-- The reads of `decode_run_spec_payload`. -/
def readRunSpec : Reader RunSpec := do
  let schema ← Reader.u32
  Wire.Reader.require (schema = kRunSpecSchemaVersion)
    ⟨.runtimeError, .decodeRunSpecPayload, "unsupported persisted RunSpec schema"⟩
  let engineVersion ← Reader.u64
  let rngVersion ← Reader.u64
  let statsSchemaVersion ← Reader.u32
  let modelCode ← Reader.u8
  let payoffCode ← Reader.u8
  let antithetic ← Reader.u8
  let flags : Exception :=
    ⟨.runtimeError, .decodeRunSpecPayload, "persisted RunSpec flags are invalid"⟩
  Wire.Reader.require (antithetic ≤ 1) flags
  let reserved ← Reader.u8
  Wire.Reader.require (reserved = 0) flags
  let globalSeed ← Reader.u64
  let totalScenarios ← Reader.u64
  let numTimeSteps ← Reader.u32
  let maturity ← Reader.binary64
  let spot ← Reader.binary64
  let strike ← Reader.binary64
  let rate ← Reader.binary64
  let (volatility, heston) ← readModelTail ⟨modelCode⟩
  Reader.finish
  pure { globalSeed, totalScenarios, numTimeSteps, maturity, spot, strike, rate, volatility, heston,
         payoffType := ⟨payoffCode⟩, antithetic := antithetic = 1, modelType := ⟨modelCode⟩,
         engineVersion, rngVersion, statsSchemaVersion }

/-- `decode_run_spec_payload`. -/
def decodeRunSpecPayload (bytes : Bytes) : Result RunSpec := do
  let spec ← Reader.decode readRunSpec bytes
  spec.validate
  pure spec

/-- An exception of `encode_run_metadata`. -/
def encodeMetadataError (what : String) : Exception := ⟨.invalidArgument, .encodeRunMetadata, what⟩

/-- `encode_run_metadata`. -/
def encodeRunMetadata (metadata : RunMetadata) : Result Bytes := do
  metadata.spec.validate
  throwIf (metadata.blockSize = 0 || metadata.blockCount = 0)
    (encodeMetadataError "run metadata has an empty execution layout")
  let specHash ← runSpecHash metadata.spec
  throwIf (metadata.runSpecHash ≠ specHash
      || metadata.runId ≠ durableRunId metadata.runSpecHash metadata.executionLayoutHash)
    (encodeMetadataError "run metadata identity is inconsistent")
  throwIf (metadata.buildDescription.isEmpty
      || sha256 metadata.buildDescription ≠ metadata.buildFingerprint)
    (encodeMetadataError "run metadata build identity is inconsistent")
  let specBytes ← encodeRunSpecPayload metadata.spec
  let description ← appendString metadata.buildDescription kMaxBuildDescriptionBytes
  pure (makeEnvelope kMetadataMagic
    (appendDigest metadata.runId ++ appendU32 (UInt32.ofNat specBytes.length) ++ specBytes
      ++ appendU64 metadata.blockSize ++ appendU64 metadata.blockCount
      ++ appendDigest metadata.runSpecHash ++ appendDigest metadata.executionLayoutHash
      ++ appendDigest metadata.buildFingerprint ++ description))

/-- The reads of `decode_run_metadata`. -/
def readRunMetadata : Reader RunMetadata := do
  let runId ← Reader.digest
  let specSize ← Reader.u32
  let specBytes ← Reader.byteVector specSize.toNat
  let spec ← Wire.Reader.ofExcept (decodeRunSpecPayload specBytes)
  let blockSize ← Reader.u64
  let blockCount ← Reader.u64
  let runSpecHash ← Reader.digest
  let executionLayoutHash ← Reader.digest
  let buildFingerprint ← Reader.digest
  let buildDescription ← Reader.string kMaxBuildDescriptionBytes
  Reader.finish
  pure { runId, spec, blockSize, blockCount, runSpecHash, executionLayoutHash, buildFingerprint,
         buildDescription }

/-- An exception of `decode_run_metadata`. -/
def decodeMetadataError (what : String) : Exception := ⟨.runtimeError, .decodeRunMetadata, what⟩

/-- The default-constructed `EngineConfig` with the persisted layout. -/
def layoutConfig (blockSize blockCount : UInt64) : EngineConfig :=
  { workerCount := 1
    blockSize := blockSize
    assignmentQueueCapacity := 0
    completionQueueCapacity := 0
    maxMaterializedBlocks := blockCount }

/-- `decode_run_metadata`. -/
def decodeRunMetadata (bytes : Bytes) : Result RunMetadata := do
  let payload ← openEnvelope bytes kMetadataMagic kMaxMetadataBytes
  let metadata ← Reader.decode readRunMetadata payload
  let inconsistent := decodeMetadataError "persisted run metadata identity is inconsistent"
  throwIf (metadata.blockSize = 0 || metadata.blockCount = 0) inconsistent
  let specHash ← runSpecHash metadata.spec
  throwIf (metadata.runSpecHash ≠ specHash
      || metadata.runId ≠ durableRunId metadata.runSpecHash metadata.executionLayoutHash)
    inconsistent
  throwIf (metadata.blockCount ≠ blockCount metadata.spec metadata.blockSize)
    (decodeMetadataError "persisted run metadata block count is invalid")
  let layoutHash ← executionLayoutHash metadata.spec
    (layoutConfig metadata.blockSize metadata.blockCount)
  throwIf (metadata.executionLayoutHash ≠ layoutHash)
    (decodeMetadataError "persisted execution-layout identity is invalid")
  throwIf (metadata.buildDescription.isEmpty
      || metadata.buildFingerprint ≠ sha256 metadata.buildDescription)
    (decodeMetadataError "persisted build identity is invalid")
  pure metadata

/-! ## Block records -/

/-- The bytes of a block record after its checks. -/
def blockRecordBytes (record : DurableBlockRecord) : Bytes :=
  let result := record.result
  let aggregate := aggregateBytes result.aggregate result.statsSchemaVersion
  appendDigest record.runId ++ appendDigest result.runSpecHash
    ++ appendDigest result.executionLayoutHash ++ appendDigest result.buildFingerprint
    ++ appendU64 result.block.blockId ++ appendU64 result.block.startScenario
    ++ appendU64 result.block.endScenario ++ appendU64 result.block.runIncarnation
    ++ appendU64 result.block.leaseEpoch ++ appendU64 result.rngVersion
    ++ appendU32 result.statsSchemaVersion ++ appendU64 result.workerId
    ++ appendU32 (UInt32.ofNat aggregate.length) ++ aggregate
    ++ appendDigest result.payloadChecksum

/-- `encode_block_record`. -/
def encodeBlockRecord (record : DurableBlockRecord) : Result Bytes := do
  let inconsistent : Exception :=
    ⟨.invalidArgument, .encodeBlockRecord, "block record has inconsistent payload identity"⟩
  throwIf (record.result.block.leaseEpoch = 0) inconsistent
  let checksum ← aggregatePayloadHash record.result.aggregate record.result.statsSchemaVersion
  throwIf (record.result.payloadChecksum ≠ checksum) inconsistent
  pure (makeEnvelope kBlockMagic (blockRecordBytes record))

/-- The reads of `decode_block_record`. -/
def readBlockRecord : Reader DurableBlockRecord := do
  let runId ← Reader.digest
  let runSpecHash ← Reader.digest
  let executionLayoutHash ← Reader.digest
  let buildFingerprint ← Reader.digest
  let blockId ← Reader.u64
  let startScenario ← Reader.u64
  let endScenario ← Reader.u64
  let runIncarnation ← Reader.u64
  let leaseEpoch ← Reader.u64
  let rngVersion ← Reader.u64
  let statsSchemaVersion ← Reader.u32
  let workerId ← Reader.u64
  let aggregateSize ← Reader.u32
  let aggregateBytes ← Reader.byteVector aggregateSize.toNat
  let aggregate ← Wire.Reader.ofExcept (decodeAggregatePayload aggregateBytes statsSchemaVersion)
  let payloadChecksum ← Reader.digest
  Reader.finish
  pure ⟨runId,
    { block := ⟨blockId, startScenario, endScenario, runIncarnation, leaseEpoch⟩
      aggregate, runSpecHash, executionLayoutHash, buildFingerprint, payloadChecksum, rngVersion,
      statsSchemaVersion, workerId }⟩

/-- `decode_block_record`. -/
def decodeBlockRecord (bytes : Bytes) : Result DurableBlockRecord := do
  let payload ← openEnvelope bytes kBlockMagic kMaxBlockRecordBytes
  let record ← Reader.decode readBlockRecord payload
  let invalid : Exception :=
    ⟨.runtimeError, .decodeBlockRecord, "persisted block payload identity is invalid"⟩
  throwIf (record.result.block.leaseEpoch = 0) invalid
  let checksum ← aggregatePayloadHash record.result.aggregate record.result.statsSchemaVersion
  throwIf (record.result.payloadChecksum ≠ checksum) invalid
  pure record

/-! ## Manifests -/

/-- The rule that the entries of a manifest break, in the encoder and in the
decoder alike; `previous` is the block of the entry before. -/
def entryNotCanonical (blockCount incarnation : UInt64) (leases : List UInt64)
    (previous : Option UInt64) (entry : ManifestEntry) : Bool :=
  let lease := leases.getD entry.blockId.toNat 0
  blockCount ≤ entry.blockId || entry.resultIncarnation = 0 || entry.leaseEpoch = 0
    || incarnation < entry.resultIncarnation || lease < entry.leaseEpoch
    || (entry.resultIncarnation = incarnation && entry.leaseEpoch ≠ lease)
    || previous.any (fun id => entry.blockId ≤ id)

/-- An exception of `encode_manifest`. -/
def encodeManifestError (what : String) : Exception := ⟨.invalidArgument, .encodeManifest, what⟩

/-- The entry loop of `encode_manifest`. -/
def checkEntries (blockCount incarnation : UInt64) (leases : List UInt64) :
    Option UInt64 → List ManifestEntry → Result Unit
  | _, [] => .ok ()
  | previous, entry :: rest => do
    throwIf (entryNotCanonical blockCount incarnation leases previous entry)
      (encodeManifestError "manifest entries are not canonical")
    checkEntries blockCount incarnation leases (some entry.blockId) rest

def entryBytes (entry : ManifestEntry) : Bytes :=
  appendU64 entry.blockId ++ appendU64 entry.resultIncarnation ++ appendU64 entry.leaseEpoch
    ++ appendDigest entry.payloadChecksum

/-- The failure part of a manifest. -/
def failureBytes : Option FailureRecord → Result Bytes
  | none => .ok (appendU8 0)
  | some failure => do
    let reason ← appendString failure.reason kMaxFailureReasonBytes
    pure (appendU8 1 ++ appendU32 (statusCode failure.status) ++ appendU64 failure.blockId
      ++ appendU64 failure.runIncarnation ++ appendU64 failure.leaseEpoch
      ++ appendDigest failure.observedChecksum ++ appendDigest failure.committedChecksum ++ reason)

/-- The fixed part of a manifest, up to the lease table. -/
def manifestHeader (manifest : RunManifest) : Bytes :=
  appendDigest manifest.runId ++ appendDigest manifest.runSpecHash
    ++ appendDigest manifest.executionLayoutHash ++ appendDigest manifest.buildFingerprint
    ++ appendU64 manifest.sequence ++ appendU8 manifest.status.code
    ++ List.replicate 7 0 ++ appendU64 manifest.runIncarnation ++ appendU64 manifest.rngVersion
    ++ appendU32 manifest.statsSchemaVersion ++ appendU32 0 ++ appendU64 manifest.blockCount
    ++ appendU64 (UInt64.ofNat manifest.leaseEpochs.length)

/-- `encode_manifest`. -/
def encodeManifest (manifest : RunManifest) : Result Bytes := do
  throwIf (manifest.runIncarnation = 0 || manifest.blockCount = 0
      || manifest.leaseEpochs.length ≠ manifest.blockCount.toNat)
    (encodeManifestError "manifest block/lease universe is invalid")
  throwIf (manifest.leaseEpochs.any (· = 0))
    (encodeManifestError "manifest contains a zero lease epoch")
  throwIf (manifest.status = .failed && manifest.failure.isNone)
    (encodeManifestError "failed manifest is missing failure details")
  throwIf (manifest.status ≠ .failed && manifest.failure.isSome)
    (encodeManifestError "non-failed manifest contains failure details")
  throwIf (manifest.status = .complete
      && manifest.committedBlocks.length ≠ manifest.blockCount.toNat)
    (encodeManifestError "complete manifest is missing committed blocks")
  checkEntries manifest.blockCount manifest.runIncarnation manifest.leaseEpochs none
    manifest.committedBlocks
  match manifest.committedAggregate.invariantError with
  | some error => .error (encodeManifestError ("manifest aggregate is invalid: " ++ error))
  | none => do
    let aggregate ← encodeAggregatePayload manifest.committedAggregate manifest.statsSchemaVersion
    let failure ← failureBytes manifest.failure
    pure (makeEnvelope kManifestMagic
      (manifestHeader manifest ++ manifest.leaseEpochs.flatMap appendU64
        ++ appendU64 (UInt64.ofNat manifest.committedBlocks.length)
        ++ manifest.committedBlocks.flatMap entryBytes
        ++ appendU32 (UInt32.ofNat aggregate.length) ++ aggregate ++ failure))

/-- An exception of `decode_manifest`. -/
def decodeManifestError (what : String) : Exception := ⟨.runtimeError, .decodeManifest, what⟩

/-- The loop over the reserved status bytes. -/
def readReserved : ℕ → Reader Unit
  | 0 => pure ()
  | count + 1 => do
    let byte ← Reader.u8
    Wire.Reader.require (byte = 0) (decodeManifestError "manifest reserved status bytes are nonzero")
    readReserved count

/-- The lease loop of `decode_manifest`. -/
def readLeases : ℕ → Reader (List UInt64)
  | 0 => pure []
  | count + 1 => do
    let epoch ← Reader.u64
    Wire.Reader.require (epoch ≠ 0) (decodeManifestError "manifest contains a zero lease epoch")
    let rest ← readLeases count
    pure (epoch :: rest)

/-- The entry loop of `decode_manifest`. -/
def readEntries (blockCount incarnation : UInt64) (leases : List UInt64) :
    ℕ → Option UInt64 → Reader (List ManifestEntry)
  | 0, _ => pure []
  | count + 1, previous => do
    let blockId ← Reader.u64
    let resultIncarnation ← Reader.u64
    let leaseEpoch ← Reader.u64
    let payloadChecksum ← Reader.digest
    let entry : ManifestEntry := ⟨blockId, resultIncarnation, leaseEpoch, payloadChecksum⟩
    Wire.Reader.require (!entryNotCanonical blockCount incarnation leases previous entry)
      (decodeManifestError "manifest entries are not canonical")
    let rest ← readEntries blockCount incarnation leases count (some blockId)
    pure (entry :: rest)

/-- The failure part of `decode_manifest`. -/
def readFailure : Reader (Option FailureRecord) := do
  let hasFailure ← Reader.u8
  Wire.Reader.require (hasFailure ≤ 1) (decodeManifestError "manifest failure flag is invalid")
  if hasFailure = 1 then do
    let code ← Reader.u32
    let status ← Wire.Reader.ofExcept (validationStatus code)
    let blockId ← Reader.u64
    let runIncarnation ← Reader.u64
    let leaseEpoch ← Reader.u64
    let observedChecksum ← Reader.digest
    let committedChecksum ← Reader.digest
    let reason ← Reader.string kMaxFailureReasonBytes
    pure (some { status, blockId, runIncarnation, leaseEpoch, observedChecksum, committedChecksum,
                 reason })
  else pure none

/-- The part of a manifest after its lease table: entries, aggregate, failure. -/
def readManifestBody (blockCount incarnation : UInt64) (leases : List UInt64) (schema : UInt32) :
    Reader (List ManifestEntry × AggregateStats Binary64 × Option FailureRecord) := do
  let committedCount ← Reader.u64
  let remaining ← Wire.Reader.remaining
  Wire.Reader.require (committedCount ≤ blockCount && committedCount.toNat ≤ remaining / 56)
    (decodeManifestError "manifest committed table size is invalid")
  let entries ← readEntries blockCount incarnation leases committedCount.toNat none
  let aggregateSize ← Reader.u32
  let aggregateBytes ← Reader.byteVector aggregateSize.toNat
  let aggregate ← Wire.Reader.ofExcept (decodeAggregatePayload aggregateBytes schema)
  let failure ← readFailure
  pure (entries, aggregate, failure)

/-- The reads of `decode_manifest`. -/
def readManifest : Reader RunManifest := do
  let runId ← Reader.digest
  let runSpecHash ← Reader.digest
  let executionLayoutHash ← Reader.digest
  let buildFingerprint ← Reader.digest
  let sequence ← Reader.u64
  let statusByte ← Reader.u8
  let status ← Wire.Reader.ofExcept (durableStatus statusByte)
  readReserved 7
  let runIncarnation ← Reader.u64
  let rngVersion ← Reader.u64
  let statsSchemaVersion ← Reader.u32
  let reserved ← Reader.u32
  Wire.Reader.require (reserved = 0)
    (decodeManifestError "manifest reserved schema field is nonzero")
  let blockCount ← Reader.u64
  let leaseCount ← Reader.u64
  let remaining ← Wire.Reader.remaining
  Wire.Reader.require
    (blockCount ≠ 0 && leaseCount = blockCount && leaseCount.toNat ≤ remaining / 8)
    (decodeManifestError "manifest lease table size is invalid")
  let leaseEpochs ← readLeases leaseCount.toNat
  let (committedBlocks, committedAggregate, failure) ←
    readManifestBody blockCount runIncarnation leaseEpochs statsSchemaVersion
  Reader.finish
  pure { runId, runSpecHash, executionLayoutHash, buildFingerprint, sequence, status, runIncarnation,
         rngVersion, statsSchemaVersion, blockCount, leaseEpochs, committedBlocks,
         committedAggregate, failure }

/-- `decode_manifest`. -/
def decodeManifest (bytes : Bytes) (maxManifestBytes : UInt64) : Result RunManifest := do
  throwIf (maxManifestBytes < 256)
    ⟨.invalidArgument, .decodeManifest, "max_manifest_bytes is outside host limits"⟩
  let payload ← openEnvelope bytes kManifestMagic maxManifestBytes
  let manifest ← Reader.decode readManifest payload
  throwIf (manifest.runIncarnation = 0
      || decide (manifest.status = .failed) != manifest.failure.isSome
      || (manifest.status = .complete
        && manifest.committedBlocks.length ≠ manifest.blockCount.toNat))
    (decodeManifestError "manifest run state is inconsistent")
  pure manifest

end MonteCarlo
