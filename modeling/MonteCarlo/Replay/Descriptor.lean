import MonteCarlo.Library.Numeral
import MonteCarlo.Persistence.Envelope
import MonteCarlo.Store.Files

/-!
# Replay descriptors

`failure_injection.cpp`: the injector that watches the failure points of a run and stops the process
at the selected one, and the text file it leaves behind, one `name=value` line for each field and
a checksum of all of them at the end.

* `encodeDescriptor`, `readReplayDescriptor` — writing and reading the file.
* `FailureInjector.hit` — one failure point.
-/

namespace MonteCarlo

open Numeral Wire

/-- A `std::string` of ASCII characters. -/
abbrev Text : Type := List Char

/-- `byte_span`. -/
def byteSpan (text : Text) : Bytes := text.map fun c => UInt8.ofNat c.toNat

/-! ## Failure points -/

/-- The value of the enumerator. -/
def FailurePoint.code : FailurePoint → UInt8
  | .resultBeforeFileFsync => 1
  | .resultAfterFileFsync => 2
  | .resultBeforeRename => 3
  | .resultAfterRename => 4
  | .manifestBeforeFileFsync => 5
  | .manifestAfterFileFsync => 6
  | .manifestBeforeRename => 7
  | .manifestAfterRename => 8
  | .manifestAfterInstallBeforeMemory => 9

/-- `failure_point_name`. -/
def failurePointName : FailurePoint → Text
  | .resultBeforeFileFsync => "result.before_file_fsync".toList
  | .resultAfterFileFsync => "result.after_file_fsync".toList
  | .resultBeforeRename => "result.before_rename".toList
  | .resultAfterRename => "result.after_rename".toList
  | .manifestBeforeFileFsync => "manifest.before_file_fsync".toList
  | .manifestAfterFileFsync => "manifest.after_file_fsync".toList
  | .manifestBeforeRename => "manifest.before_rename".toList
  | .manifestAfterRename => "manifest.after_rename".toList
  | .manifestAfterInstallBeforeMemory => "manifest.after_install_before_memory".toList

/-- `kFailurePoints`. -/
def kFailurePoints : List FailurePoint :=
  [.resultBeforeFileFsync, .resultAfterFileFsync, .resultBeforeRename, .resultAfterRename,
    .manifestBeforeFileFsync, .manifestAfterFileFsync, .manifestBeforeRename,
    .manifestAfterRename, .manifestAfterInstallBeforeMemory]

/-- `parse_failure_point`. -/
def parseFailurePoint (name : Text) : Result FailurePoint :=
  match kFailurePoints.find? fun point => name = failurePointName point with
  | some point => .ok point
  | none => .error ⟨.invalidArgument, .parseFailurePoint,
      "unknown R3 failure point: " ++ String.ofList name⟩

/-- `FailureInjectionConfig`. -/
structure FailureInjectionConfig where
  selectedPoint : FailurePoint
  selectedOccurrence : UInt64
  failureSeed : UInt64
  deterministicSchedulerSeed : UInt64
  replayDescriptorPath : String
  deriving DecidableEq, Repr

/-- `FailureInjectionConfig::validate`. -/
def FailureInjectionConfig.validate (config : FailureInjectionConfig) : Result Unit := do
  let invalid := fun what => (⟨.invalidArgument, .failureInjectionConfigValidate, what⟩ : Exception)
  let _ ← parseFailurePoint (failurePointName config.selectedPoint)
  throwIf (config.selectedOccurrence = 0) (invalid "failure occurrence must be positive")
  throwIf (config.replayDescriptorPath = "") (invalid "failure injection requires a replay path")
  throwIf (config.deterministicSchedulerSeed ≠ 0)
    (invalid ("replay schema v2 requires deterministic_scheduler_seed=0 until "
      ++ "multi-worker scheduling replay is implemented"))

/-! ## The descriptor -/

def kReplayDescriptorVersion : UInt32 := 2
def kReplayMagic : Text := "mc-r3-replay-v2".toList
def kReplayV1Prefix : Text := "format=mc-r3-replay-v1\n".toList
def kMaxReplayDescriptorBytes : ℕ := 64 * 1024
def kMaxReplayDescriptorLineBytes : ℕ := 4 * 1024
def kMaxReplayDescriptorFields : ℕ := 64

/-- `ReplayDescriptor`. -/
structure ReplayDescriptor where
  version : UInt32
  spec : RunSpec
  engineConfig : EngineConfig
  checkpointIntervalBlocks : UInt64
  injection : FailureInjectionConfig
  runSpecHash : Sha256Digest
  buildFingerprint : Sha256Digest
  maxStorageBytes : UInt64
  maxStorageFiles : UInt64
  minFreeSpaceBytes : UInt64
  maxManifestBytes : UInt64
  observedTraceHash : Sha256Digest
  observedTraceEvents : UInt64
  runIncarnation : UInt64
  blockId : UInt64
  checkpointSequence : UInt64
  deriving DecidableEq, Repr

/-- A name and a value. -/
abbrev Field : Type := Text × Text

/-- A line of the file. -/
def Field.line (field : Field) : Text := field.1 ++ '=' :: field.2 ++ ['\n']

/-- `to_hex`. -/
def toHex (digest : Sha256Digest) : Text :=
  digest.toList.flatMap fun byte => [digit (byte.toNat / 16), digit (byte.toNat % 16)]

/-- `bits_hex`. -/
def bitsHex (value : Binary64) : Text := pad 16 (print 16 value.bits.toNat)

/-- An integer as an output stream prints it. -/
def decimal (value : ℕ) : Text := print 10 value

/-- The fields of the specification up to the model. -/
def specFields (spec : RunSpec) : List Field :=
  [("engine_version".toList, decimal spec.engineVersion.toNat),
    ("rng_version".toList, decimal spec.rngVersion.toNat),
    ("stats_schema_version".toList, decimal spec.statsSchemaVersion.toNat),
    ("model_type".toList, decimal spec.modelType.code.toNat),
    ("payoff_type".toList, decimal spec.payoffType.code.toNat),
    ("antithetic".toList, decimal (if spec.antithetic then 1 else 0)),
    ("global_seed".toList, decimal spec.globalSeed.toNat),
    ("total_scenarios".toList, decimal spec.totalScenarios.toNat),
    ("num_time_steps".toList, decimal spec.numTimeSteps.toNat),
    ("maturity_bits".toList, bitsHex spec.maturity),
    ("spot_bits".toList, bitsHex spec.spot),
    ("strike_bits".toList, bitsHex spec.strike),
    ("rate_bits".toList, bitsHex spec.rate)]

/-- The fields of the model. -/
def modelFields (spec : RunSpec) : List Field :=
  if spec.modelType = .gbm then [("volatility_bits".toList, bitsHex spec.volatility)]
  else
    match spec.heston with
    | none => []
    | some heston =>
      [("heston_discretization_version".toList, decimal heston.discretizationVersion.toNat),
        ("heston_initial_variance_bits".toList, bitsHex heston.initialVariance),
        ("heston_mean_reversion_rate_bits".toList, bitsHex heston.meanReversionRate),
        ("heston_long_run_variance_bits".toList, bitsHex heston.longRunVariance),
        ("heston_volatility_of_variance_bits".toList, bitsHex heston.volatilityOfVariance),
        ("heston_correlation_bits".toList, bitsHex heston.correlation)]

/-- The fields of the engine configuration. -/
def engineFields (config : EngineConfig) : List Field :=
  [("worker_count".toList, decimal config.workerCount),
    ("block_size".toList, decimal config.blockSize.toNat),
    ("assignment_queue_capacity".toList, decimal config.assignmentQueueCapacity),
    ("completion_queue_capacity".toList, decimal config.completionQueueCapacity),
    ("max_materialized_blocks".toList, decimal config.maxMaterializedBlocks.toNat)]

/-- The fields of the store configuration and of the failure selection. -/
def policyFields (descriptor : ReplayDescriptor) : List Field :=
  [("checkpoint_interval_blocks".toList, decimal descriptor.checkpointIntervalBlocks.toNat),
    ("max_storage_bytes".toList, decimal descriptor.maxStorageBytes.toNat),
    ("max_storage_files".toList, decimal descriptor.maxStorageFiles.toNat),
    ("min_free_space_bytes".toList, decimal descriptor.minFreeSpaceBytes.toNat),
    ("max_manifest_bytes".toList, decimal descriptor.maxManifestBytes.toNat),
    ("failure_seed".toList, decimal descriptor.injection.failureSeed.toNat),
    ("deterministic_scheduler_seed".toList,
      decimal descriptor.injection.deterministicSchedulerSeed.toNat),
    ("selected_failure_point".toList, failurePointName descriptor.injection.selectedPoint),
    ("selected_occurrence".toList, decimal descriptor.injection.selectedOccurrence.toNat)]

/-- The fields of the failure. -/
def traceFields (descriptor : ReplayDescriptor) : List Field :=
  [("observed_trace_hash".toList, toHex descriptor.observedTraceHash),
    ("observed_trace_events".toList, decimal descriptor.observedTraceEvents.toNat),
    ("run_incarnation".toList, decimal descriptor.runIncarnation.toNat),
    ("block_id".toList, decimal descriptor.blockId.toNat),
    ("checkpoint_sequence".toList, decimal descriptor.checkpointSequence.toNat)]

/-- The lines of `encode_descriptor_body`. -/
def descriptorFields (descriptor : ReplayDescriptor) : List Field :=
  [("format".toList, kReplayMagic), ("version".toList, decimal descriptor.version.toNat),
    ("run_spec_hash".toList, toHex descriptor.runSpecHash),
    ("build_fingerprint".toList, toHex descriptor.buildFingerprint)]
    ++ specFields descriptor.spec ++ modelFields descriptor.spec
    ++ engineFields descriptor.engineConfig ++ policyFields descriptor ++ traceFields descriptor

/-- `encode_descriptor_body`. -/
def encodeDescriptorBody (descriptor : ReplayDescriptor) : Text :=
  (descriptorFields descriptor).flatMap Field.line

/-- The last line. -/
def checksumField (body : Text) : Field :=
  ("descriptor_sha256".toList, toHex (sha256 (byteSpan body)))

/-- `encode_descriptor`. -/
def encodeDescriptor (descriptor : ReplayDescriptor) : Text :=
  let body := encodeDescriptorBody descriptor
  body ++ (checksumField body).line

/-! ## Parsers -/

/-- `parse_error`. -/
def parseError (field detail : String) : Exception :=
  ⟨.invalidArgument, .parse, field ++ ": " ++ detail⟩

/-- `parse_u64`. -/
def parseU64 (text : Text) (field : String) : Result UInt64 :=
  if text = [] ∨ text.head? = some '-' ∨ text.head? = some '+' then
    .error (parseError field "expected an unsigned base-10 integer")
  else
    match fromChars 10 (2 ^ 64) text with
    | .error .resultOutOfRange => .error (parseError field "integer is out of range")
    | .ok (value, []) => .ok (UInt64.ofNat value)
    | _ => .error (parseError field "expected an unsigned base-10 integer with no trailing text")

/-- `parse_size`; `std::size_t` has 64 bits. -/
def parseSize (text : Text) (field : String) : Result ℕ := do
  let value ← parseU64 text field
  pure value.toNat

/-- An exception of the descriptor reader. -/
def replayError (what : String) : Exception := ⟨.runtimeError, .readReplayDescriptor, what⟩

/-- `parse_u32`. -/
def parseU32 (text : Text) (field : String) : Result UInt32 := do
  let value ← parseU64 text field
  throwIf (0xFFFFFFFF < value) (replayError (field ++ " exceeds uint32"))
  pure (UInt32.ofNat value.toNat)

/-- `parse_u8`. -/
def parseU8 (text : Text) (field : String) : Result UInt8 := do
  let value ← parseU64 text field
  throwIf (0xFF < value) (replayError (field ++ " exceeds uint8"))
  pure (UInt8.ofNat value.toNat)

/-- `parse_hex_u64`. -/
def parseHexU64 (text : Text) (field : String) : Result UInt64 :=
  if text.length ≠ 16 then
    .error (replayError (field ++ " must contain 16 hexadecimal digits"))
  else
    match fromChars 16 (2 ^ 64) text with
    | .ok (value, []) => .ok (UInt64.ofNat value)
    | _ => .error (replayError (field ++ " is not canonical hexadecimal"))

/-- The loop of `parse_digest`, two digits at a time. -/
def parseBytes (field : String) : Text → Result Bytes
  | high :: low :: rest =>
    match fromChars 16 (2 ^ 32) [high, low] with
    | .ok (value, []) => do
      let bytes ← parseBytes field rest
      pure (UInt8.ofNat value :: bytes)
    | _ => .error (replayError (field ++ " is not canonical hexadecimal"))
  | _ => .ok []

/-- `parse_digest`. -/
def parseDigest (text : Text) (field : String) : Result Sha256Digest := do
  throwIf (text.length ≠ 64) (replayError (field ++ " must contain 64 hexadecimal digits"))
  let bytes ← parseBytes field text
  pure (Reader.digestOf bytes)

/-! ## Reading the file -/

/-- `read_descriptor_bytes`, given the contents of the file. -/
def readDescriptorBytes (contents : Text) : Result Text := do
  throwIf (kMaxReplayDescriptorBytes < contents.length)
    ⟨.lengthError, .readReplayDescriptor, "replay descriptor exceeds 64 KiB limit"⟩
  throwIf (contents.getLast? ≠ some '\n')
    (replayError "replay descriptor must be nonempty and newline-terminated")
  pure contents

/-- The loop of `read_fields`, with the fields found so far; `fuel` bounds the number of lines. -/
def readFieldsFrom : ℕ → Text → List Field → Result (List Field)
  | _, [], fields => .ok fields
  | 0, _ :: _, fields => .ok fields
  | fuel + 1, bytes, fields =>
    let line := bytes.takeWhile (· ≠ '\n')
    match bytes.dropWhile (· ≠ '\n') with
    | [] => .error (replayError "replay descriptor must be newline-terminated")
    | _ :: rest => do
      throwIf (kMaxReplayDescriptorLineBytes < line.length)
        ⟨.lengthError, .readReplayDescriptor, "replay descriptor line exceeds 4 KiB limit"⟩
      match line.dropWhile (· ≠ '=') with
      | [] => .error (replayError "malformed replay descriptor line")
      | _ :: value => do
        let name := line.takeWhile (· ≠ '=')
        throwIf (name = []) (replayError "malformed replay descriptor line")
        throwIf (fields.length = kMaxReplayDescriptorFields)
          ⟨.lengthError, .readReplayDescriptor,
            "replay descriptor exceeds the 64-field schema limit"⟩
        readFieldsFrom fuel rest (fields ++ [(name, value)])

/-- `read_fields`. -/
def readFields (bytes : Text) : Result (List Field) := readFieldsFrom bytes.length bytes []

/-- The prefix of the last line. -/
def checksumPrefix : Text := "descriptor_sha256=".toList

/-- The last line of a text that ends with a newline, without its newline. -/
def finalLine (bytes : Text) : Text := (bytes.dropLast.reverse.takeWhile (· ≠ '\n')).reverse

/-- `verify_descriptor_checksum`. -/
def verifyDescriptorChecksum (bytes : Text) : Result Sha256Digest := do
  let final := finalLine bytes
  throwIf (!checksumPrefix.isPrefixOf final)
    (replayError "replay descriptor is missing its final SHA-256 checksum")
  let recorded ← parseDigest (final.drop checksumPrefix.length) "descriptor_sha256"
  throwIf (sha256 (byteSpan (bytes.take (bytes.length - 1 - final.length))) ≠ recorded)
    (replayError "replay descriptor SHA-256 mismatch")
  pure recorded

/-- `FieldReader`. -/
abbrev FieldReader (α : Type) : Type := TokenReader Field Exception α

namespace FieldReader

/-- `FieldReader::take`. -/
def take (expectedName : String) : FieldReader Text := fun fields =>
  let mismatch := replayError ("replay descriptor field order/name mismatch: " ++ expectedName)
  match fields with
  | [] => .error mismatch
  | (name, value) :: rest => if name = expectedName.toList then .ok (value, rest) else .error mismatch

/-- `FieldReader::finish`. -/
def finish : FieldReader Unit := fun fields =>
  if fields = [] then .ok ((), []) else .error (replayError "replay descriptor has trailing fields")

/-- A computation that takes no field. -/
def ofExcept {α : Type} (x : Result α) : FieldReader α := fun fields => x.map fun a => (a, fields)

/-- Take a field and parse its value. -/
def parse {α : Type} (parser : Text → String → Result α) (name : String) : FieldReader α := do
  let text ← take name
  ofExcept (parser text name)

/-- `std::bit_cast<double>` of a parsed field. -/
def bits (name : String) : FieldReader Binary64 := do
  let value ← parse parseHexU64 name
  pure ⟨value⟩

/-- The model of a specification. -/
def model (spec : RunSpec) : FieldReader RunSpec :=
  if spec.modelType = .gbm then do
    let volatility ← bits "volatility_bits"
    pure { spec with volatility := volatility }
  else if spec.modelType = .heston then do
    let discretizationVersion ← parse parseU32 "heston_discretization_version"
    let initialVariance ← bits "heston_initial_variance_bits"
    let meanReversionRate ← bits "heston_mean_reversion_rate_bits"
    let longRunVariance ← bits "heston_long_run_variance_bits"
    let volatilityOfVariance ← bits "heston_volatility_of_variance_bits"
    let correlation ← bits "heston_correlation_bits"
    pure { spec with heston := some ⟨initialVariance, meanReversionRate, longRunVariance,
      volatilityOfVariance, correlation, discretizationVersion⟩ }
  else throw (replayError "replay descriptor contains an unsupported model type")

/-- The specification. -/
def spec : FieldReader RunSpec := do
  let engineVersion ← parse parseU64 "engine_version"
  let rngVersion ← parse parseU64 "rng_version"
  let statsSchemaVersion ← parse parseU32 "stats_schema_version"
  let modelType ← parse parseU8 "model_type"
  let payoffType ← parse parseU8 "payoff_type"
  let antithetic ← parse parseU64 "antithetic"
  ofExcept (throwIf (1 < antithetic) (replayError "antithetic flag is invalid"))
  let globalSeed ← parse parseU64 "global_seed"
  let totalScenarios ← parse parseU64 "total_scenarios"
  let numTimeSteps ← parse parseU32 "num_time_steps"
  let maturity ← bits "maturity_bits"
  let spot ← bits "spot_bits"
  let strike ← bits "strike_bits"
  let rate ← bits "rate_bits"
  model { RunSpec.defaults with
    engineVersion := engineVersion
    rngVersion := rngVersion
    statsSchemaVersion := statsSchemaVersion
    modelType := ⟨modelType⟩
    payoffType := ⟨payoffType⟩
    antithetic := antithetic = 1
    globalSeed := globalSeed
    totalScenarios := totalScenarios
    numTimeSteps := numTimeSteps
    maturity := maturity
    spot := spot
    strike := strike
    rate := rate }

/-- The engine configuration. -/
def engineConfig : FieldReader EngineConfig := do
  let workerCount ← parse parseSize "worker_count"
  let blockSize ← parse parseU64 "block_size"
  let assignmentQueueCapacity ← parse parseSize "assignment_queue_capacity"
  let completionQueueCapacity ← parse parseSize "completion_queue_capacity"
  let maxMaterializedBlocks ← parse parseU64 "max_materialized_blocks"
  pure ⟨workerCount, blockSize, assignmentQueueCapacity, completionQueueCapacity,
    maxMaterializedBlocks⟩

/-- The descriptor; its replay path stays empty. -/
def descriptor : FieldReader ReplayDescriptor := do
  let format ← take "format"
  ofExcept (throwIf (format ≠ kReplayMagic) (replayError "unsupported replay descriptor format"))
  let version ← parse parseU32 "version"
  ofExcept (throwIf (version ≠ kReplayDescriptorVersion)
    (replayError "unsupported replay descriptor version"))
  let runSpecHash ← parse parseDigest "run_spec_hash"
  let buildFingerprint ← parse parseDigest "build_fingerprint"
  let spec ← spec
  let engineConfig ← engineConfig
  let checkpointIntervalBlocks ← parse parseU64 "checkpoint_interval_blocks"
  let maxStorageBytes ← parse parseU64 "max_storage_bytes"
  let maxStorageFiles ← parse parseU64 "max_storage_files"
  let minFreeSpaceBytes ← parse parseU64 "min_free_space_bytes"
  let maxManifestBytes ← parse parseU64 "max_manifest_bytes"
  let failureSeed ← parse parseU64 "failure_seed"
  let deterministicSchedulerSeed ← parse parseU64 "deterministic_scheduler_seed"
  let selectedPoint ← parse (fun text _ => parseFailurePoint text) "selected_failure_point"
  let selectedOccurrence ← parse parseU64 "selected_occurrence"
  let observedTraceHash ← parse parseDigest "observed_trace_hash"
  let observedTraceEvents ← parse parseU64 "observed_trace_events"
  let runIncarnation ← parse parseU64 "run_incarnation"
  let blockId ← parse parseU64 "block_id"
  let checkpointSequence ← parse parseU64 "checkpoint_sequence"
  pure
    { version := version
      spec := spec
      engineConfig := engineConfig
      checkpointIntervalBlocks := checkpointIntervalBlocks
      injection := ⟨selectedPoint, selectedOccurrence, failureSeed, deterministicSchedulerSeed, ""⟩
      runSpecHash := runSpecHash
      buildFingerprint := buildFingerprint
      maxStorageBytes := maxStorageBytes
      maxStorageFiles := maxStorageFiles
      minFreeSpaceBytes := minFreeSpaceBytes
      maxManifestBytes := maxManifestBytes
      observedTraceHash := observedTraceHash
      observedTraceEvents := observedTraceEvents
      runIncarnation := runIncarnation
      blockId := blockId
      checkpointSequence := checkpointSequence }

/-- The whole file: the descriptor and its checksum. -/
def all : FieldReader (ReplayDescriptor × Sha256Digest) := do
  let descriptor ← descriptor
  let checksum ← parse parseDigest "descriptor_sha256"
  finish
  pure (descriptor, checksum)

end FieldReader

/-- The checks of `read_replay_descriptor` on what the fields say. -/
def checkDescriptor (descriptor : ReplayDescriptor) (bytes : Text) : Result Unit := do
  descriptor.spec.validate
  descriptor.engineConfig.validate descriptor.spec
  throwIf (descriptor.engineConfig.workerCount ≠ 1)
    (replayError "R3 replay v2 requires the recorded single-worker scheduler")
  throwIf (descriptor.checkpointIntervalBlocks = 0 || descriptor.maxStorageBytes = 0
      || descriptor.maxStorageFiles = 0 || descriptor.maxManifestBytes < 256
      || descriptor.maxStorageBytes < descriptor.maxManifestBytes)
    (replayError "replay descriptor contains invalid durable-store policy")
  let specHash ← runSpecHash descriptor.spec
  throwIf (specHash ≠ descriptor.runSpecHash)
    (replayError "replay descriptor RunSpec hash mismatch")
  throwIf (encodeDescriptor descriptor ≠ bytes)
    (replayError "replay descriptor is not canonical schema v2")

/-- `read_replay_descriptor`, given the path and the contents of the file. -/
def readReplayDescriptor (path : String) (contents : Text) : Result ReplayDescriptor := do
  let bytes ← readDescriptorBytes contents
  throwIf (kReplayV1Prefix.isPrefixOf bytes)
    (replayError ("replay descriptor schema v1 is unsupported; regenerate it with "
      ++ "the schema-v2 failure harness"))
  let verified ← verifyDescriptorChecksum bytes
  let fields ← readFields bytes
  let ((descriptor, checksum), _) ← FieldReader.all.run fields
  throwIf (checksum ≠ verified) (replayError "replay descriptor checksum field mismatch")
  checkDescriptor descriptor bytes
  let descriptor := { descriptor with
    injection := { descriptor.injection with replayDescriptorPath := path } }
  descriptor.injection.validate
  pure descriptor

/-! ## The injector -/

/-- `FailureInjector`. -/
structure FailureInjector where
  descriptor : ReplayDescriptor
  traceHasher : Sha256Hasher
  enabled : Bool
  selectedHits : UInt64
  deriving DecidableEq, Repr

/-- A default-constructed `ReplayDescriptor`. -/
def ReplayDescriptor.defaults : ReplayDescriptor where
  version := kReplayDescriptorVersion
  spec := .defaults
  engineConfig := .defaults
  checkpointIntervalBlocks := 0
  injection := ⟨.resultBeforeFileFsync, 1, 0, 0, ""⟩
  runSpecHash := Vector.replicate 32 0
  buildFingerprint := Vector.replicate 32 0
  maxStorageBytes := 0
  maxStorageFiles := 0
  minFreeSpaceBytes := 0
  maxManifestBytes := 0
  observedTraceHash := Vector.replicate 32 0
  observedTraceEvents := 0
  runIncarnation := kNoFailureContext
  blockId := kNoFailureContext
  checkpointSequence := kNoFailureContext

/-- What the file system says about the replay path: whether it is inside the run directory
(`path_is_within`), and whether it exists. -/
structure PathInspection where
  within : Except Errno Bool
  present : Except Errno Bool

/-- The constructor of `FailureInjector`. -/
def FailureInjector.new (build : BuildIdentity) (spec : RunSpec) (engineConfig : EngineConfig)
    (storeConfig : RunStoreConfig) (injection : Option FailureInjectionConfig)
    (paths : PathInspection) : Result FailureInjector :=
  match injection with
  | none => .ok ⟨.defaults, .new, false, 0⟩
  | some injection => do
    let invalid := fun what => (⟨.invalidArgument, .failureInjector, what⟩ : Exception)
    throwIf (engineConfig.workerCount ≠ 1)
      (invalid "deterministic failure replay currently requires one worker")
    injection.validate
    let within ← paths.within.mapError (filesystemError .failureInjector)
    throwIf within (invalid "replay descriptor must be outside the injected run directory")
    let present ← paths.present.mapError fun e => ⟨.runtimeError, .failureInjector,
      "cannot inspect replay descriptor path: " ++ e.message⟩
    throwIf present (invalid ("replay descriptor already exists and is immutable: "
      ++ injection.replayDescriptorPath))
    let specHash ← runSpecHash spec
    pure
      { descriptor := { ReplayDescriptor.defaults with
          spec := spec
          engineConfig := engineConfig
          checkpointIntervalBlocks := storeConfig.checkpointIntervalBlocks
          maxStorageBytes := storeConfig.maxStorageBytes
          maxStorageFiles := storeConfig.maxStorageFiles
          minFreeSpaceBytes := storeConfig.minFreeSpaceBytes
          maxManifestBytes := storeConfig.maxManifestBytes
          injection := injection
          runSpecHash := specHash
          buildFingerprint := build.hash }
        traceHasher := .new
        enabled := true
        selectedHits := 0 }

/-- `encode_trace_event`. -/
def encodeTraceEvent (point : FailurePoint) (context : FailureContext) : Bytes :=
  appendU8 point.code ++ appendU64 context.runIncarnation ++ appendU64 context.blockId
    ++ appendU64 context.checkpointSequence

/-- What `hit` does: return, or write a descriptor and end the process. -/
inductive HitOutcome where
  | continues (injector : FailureInjector)
  | crashes (descriptor : ReplayDescriptor)
  deriving DecidableEq, Repr

/-- `FailureInjector::hit`. -/
def FailureInjector.hit (injector : FailureInjector) (point : FailurePoint)
    (context : FailureContext) : HitOutcome :=
  if !injector.enabled then .continues injector
  else
    let hasher := injector.traceHasher.update (encodeTraceEvent point context)
    let descriptor := { injector.descriptor with
      observedTraceEvents := injector.descriptor.observedTraceEvents + 1 }
    let injector := { injector with traceHasher := hasher, descriptor := descriptor }
    if point ≠ descriptor.injection.selectedPoint then .continues injector
    else
      let hits := injector.selectedHits + 1
      if hits ≠ descriptor.injection.selectedOccurrence then
        .continues { injector with selectedHits := hits }
      else .crashes { descriptor with
        observedTraceHash := hasher.finalize
        runIncarnation := context.runIncarnation
        blockId := context.blockId
        checkpointSequence := context.checkpointSequence }

/-- The failure points of a run, one after the other, until the process ends. -/
def FailureInjector.hitAll (injector : FailureInjector) :
    List (FailurePoint × FailureContext) → HitOutcome
  | [] => .continues injector
  | (point, context) :: rest =>
    match injector.hit point context with
    | .continues injector => injector.hitAll rest
    | .crashes descriptor => .crashes descriptor

end MonteCarlo
