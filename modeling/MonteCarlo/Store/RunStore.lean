import MonteCarlo.Store.Manifests

/-!
# The durable run store

`DurableRunStore` of `run_store.cpp`: `openStore` finds or creates the state of a
run and installs a recovery manifest, `recordResult` makes one block result
durable, `checkpoint` installs a manifest that commits the recorded results.

The mutators return the store they leave behind; a mutator that throws leaves
the store as it was.
-/

namespace MonteCarlo

open Effects

/-- `DurableRecoveryState`. -/
structure DurableRecoveryState where
  manifestSequence : UInt64
  runIncarnation : UInt64
  status : DurableRunStatus
  resumed : Bool
  blocks : List ScenarioBlock
  committedResults : List (Option BlockResult)
  deriving DecidableEq, Repr

/-- `DurableRunStore`. -/
structure DurableRunStore where
  spec : RunSpec
  engineConfig : EngineConfig
  config : RunStoreConfig
  metadata : RunMetadata
  recovery : DurableRecoveryState
  durableResults : List (Option BlockResult)
  usage : StorageUsage
  deriving DecidableEq, Repr

/-- An exception of `DurableRunStore::open`. -/
def openError (what : String) : Exception := ⟨.runtimeError, .openStore, what⟩

/-! ## Opening -/

/-- `ScopedRunLock`. -/
def acquireLock (config : RunStoreConfig) : Prog Unit := do
  let text := lockPath.text config.runDirectory
  let _ ← callOr .openLock (systemError .scopedRunLock "cannot open run-store lock" text)
  let _ ← callOr .flock fun e =>
    if e = .wouldBlock then
      ⟨.runtimeError, .scopedRunLock, "run directory is already owned by another coordinator"⟩
    else systemError .scopedRunLock "cannot lock run store" text e
  pure ()

/-- `DurableRunStore::open` up to the first look at the metadata: directories,
lock, leftovers of earlier processes, storage in use. -/
def prepareDirectory (config : RunStoreConfig) : Prog StorageUsage := do
  let _ ← callOr (.createDirectories .root) fun e =>
    openError ("cannot create durable run directory: " ++ e.message)
  let isDirectory : Bool ← callOr .isDirectory (filesystemError .openStore)
  Program.ofExcept (throwIf (!isDirectory)
    (openError "cannot create durable run directory: Success"))
  let failed := fun (e : Errno) => openError ("cannot create run-store directory: " ++ e.message)
  let _ ← callOr (.createDirectories .manifests) failed
  let _ ← callOr (.createDirectories .blockResults) failed
  let _ ← callOr (.createDirectories .tmp) failed
  acquireLock config
  requireSameFilesystem config .tmp .manifests
  requireSameFilesystem config .tmp .blockResults
  removeStaleTemporaryFiles config
  let usage ← storageUsage
  Program.ofExcept (throwIf
    (config.maxStorageBytes < usage.bytes || config.maxStorageFiles < usage.files)
    (openError "existing run store exceeds configured limits"))
  pure usage

/-- `1U + (blocks - 1U) / config.checkpoint_interval_blocks`. -/
def checkpointCount (config : RunStoreConfig) (blocks : UInt64) : UInt64 :=
  1 + (blocks - 1) / config.checkpointIntervalBlocks

/-- What a run that has computed nothing yet still has to write. -/
def freshPlan (config : RunStoreConfig) (blockCount fixedBytes fixedFiles : UInt64) :
    CompletionPlan :=
  ⟨blockCount, blockCount, checkpointCount config blockCount + 2, fixedBytes, fixedFiles⟩

/-- The metadata of the run directory: read and compared, or installed. -/
def obtainMetadata (config : RunStoreConfig) (expected : RunMetadata) (usage : StorageUsage) :
    Prog (RunMetadata × Bool × StorageUsage) := do
  let existed : Bool ← callOr (.exists_ metadataPath) (filesystemError .openStore)
  if existed then do
    let bytes ← readFile config metadataPath (1024 * 1024)
    let metadata ← Program.ofExcept (decodeRunMetadata bytes)
    Program.ofExcept (requireCompatible metadata expected)
    pure (metadata, true, usage)
  else do
    let payload ← hasExistingRunPayload config
    Program.ofExcept (throwIf payload (openError
      ("run_spec.bin is missing from a nonempty run directory; refusing "
        ++ "to install caller-supplied metadata over existing durable state")))
    let bytes ← Program.ofExcept (encodeRunMetadata expected)
    preflightRunCompletion config usage
      (freshPlan config expected.blockCount (UInt64.ofNat bytes.length) 1)
    let usage ← atomicWrite config metadataPath bytes usage .metadata
    pure (expected, false, usage)

/-- The hooks' context of a manifest. -/
def manifestContext (manifest : RunManifest) : WriteContext :=
  .manifest ⟨manifest.runIncarnation, kNoFailureContext, manifest.sequence⟩

/-- Encode and install a manifest. -/
def installManifest (config : RunStoreConfig) (manifest : RunManifest) (usage : StorageUsage) :
    Prog StorageUsage := do
  let bytes ← Program.ofExcept (encodeManifest manifest)
  atomicWrite config (manifestPathFor manifest.sequence) bytes usage (manifestContext manifest)

/-- The branch of `open` for a directory without manifests. -/
def startRun (config : RunStoreConfig) (metadata : RunMetadata) (metadataExisted : Bool)
    (blocks : List ScenarioBlock) (usage : StorageUsage) : Prog DurableRecoveryState := do
  if metadataExisted then
    preflightRunCompletion config usage (freshPlan config metadata.blockCount 0 0)
  let leased := blocks.map fun block => block.leased 1 1
  let results : List (Option BlockResult) := List.replicate blocks.length none
  let initial ← Program.ofExcept
    (makeManifestFromResults metadata 0 1 .running leased results none)
  let _ ← installManifest config initial usage
  pure ⟨0, 1, .running, metadataExisted, leased, results⟩

/-- The loop that renews every lease for a new incarnation. -/
def renewLeases (incarnation : UInt64) : List ScenarioBlock → Result (List ScenarioBlock)
  | [] => .ok []
  | block :: rest => do
    throwIf (block.leaseEpoch = maxWord)
      ⟨.overflowError, .openStore, "durable lease epoch overflow"⟩
    let renewed ← renewLeases incarnation rest
    pure (block.leased incarnation (block.leaseEpoch + 1) :: renewed)

/-- The number of blocks without a committed result. -/
def missingCount (results : List (Option BlockResult)) : UInt64 :=
  UInt64.ofNat (results.countP (·.isNone))

/-- What a recovered run still has to write. -/
def recoveryPlan (config : RunStoreConfig) (blockCount missing : UInt64) : CompletionPlan :=
  let checkpoints := if missing = 0 then 0 else checkpointCount config missing
  ⟨blockCount, missing, checkpoints + 2, 0, 0⟩

/-- The recovery state and manifest of a new incarnation after `snapshot`. -/
def recoveryManifest (metadata : RunMetadata) (snapshot : LoadedManifest)
    (highestSequence : UInt64) (blocks : List ScenarioBlock) :
    Result (List ScenarioBlock × RunManifest) := do
  let incarnation := maxOfWords (snapshot.manifest.runIncarnation + 1) (highestSequence + 1)
  let renewed ← renewLeases incarnation blocks
  let manifest ← makeManifestFromResults metadata (highestSequence + 1) incarnation .running renewed
    snapshot.results none
  pure (renewed, manifest)

/-- The branch of `open` for a running snapshot. -/
def resumeRun (config : RunStoreConfig) (metadata : RunMetadata) (snapshot : LoadedManifest)
    (highestSequence : UInt64) (recovered : DurableRecoveryState) (usage : StorageUsage) :
    Prog DurableRecoveryState := do
  Program.ofExcept (throwIf
    (snapshot.manifest.runIncarnation = maxWord || highestSequence = maxWord)
    ⟨.overflowError, .openStore, "durable recovery identity overflow"⟩)
  preflightRunCompletion config usage
    (recoveryPlan config metadata.blockCount (missingCount snapshot.results))
  let (renewed, manifest) ← Program.ofExcept
    (recoveryManifest metadata snapshot highestSequence recovered.blocks)
  let _ ← installManifest config manifest usage
  pure { recovered with
    manifestSequence := manifest.sequence
    runIncarnation := manifest.runIncarnation
    blocks := renewed }

/-- The blocks of a run under the leases of a manifest. -/
def leasedBlocks (blocks : List ScenarioBlock) (manifest : RunManifest) : List ScenarioBlock :=
  blocks.zipWith (fun block epoch => block.leased manifest.runIncarnation epoch)
    manifest.leaseEpochs

/-- The branch of `open` for a loaded snapshot. -/
def recoverRun (config : RunStoreConfig) (metadata : RunMetadata) (metadataExisted : Bool)
    (snapshot : LoadedManifest) (highestSequence : UInt64) (blocks : List ScenarioBlock)
    (usage : StorageUsage) : Prog DurableRecoveryState := do
  let recovered : DurableRecoveryState :=
    { manifestSequence := snapshot.manifest.sequence
      runIncarnation := snapshot.manifest.runIncarnation
      status := snapshot.manifest.status
      resumed := metadataExisted
      blocks := leasedBlocks blocks snapshot.manifest
      committedResults := snapshot.results }
  if snapshot.manifest.status = .running then
    resumeRun config metadata snapshot highestSequence recovered usage
  else pure recovered

/-- The two branches of `open`. -/
def obtainRecovery (config : RunStoreConfig) (metadata : RunMetadata) (metadataExisted : Bool)
    (load : LoadResult) (blocks : List ScenarioBlock) (usage : StorageUsage) :
    Prog DurableRecoveryState :=
  match load.loaded with
  | none => startRun config metadata metadataExisted blocks usage
  | some snapshot =>
    recoverRun config metadata metadataExisted snapshot load.highestSequenceSeen blocks usage

/-- `DurableRunStore::open` from the loaded manifest on. -/
def finishOpen (spec : RunSpec) (engineConfig : EngineConfig) (config : RunStoreConfig)
    (metadata : RunMetadata) (metadataExisted : Bool) (load : LoadResult) (usage : StorageUsage) :
    Prog DurableRunStore := do
  Program.ofExcept (throwIf (load.loaded.isNone && load.sawManifestFile)
    ⟨.runtimeError, .openNoValidManifest,
      "no valid compatible manifest remains; last error: " ++ load.lastError⟩)
  let blocks ← Program.ofExcept (makeBlocks spec engineConfig)
  let recovery ← obtainRecovery config metadata metadataExisted load blocks usage
  removeOrphanBlockResults config recovery.committedResults
  let usage ← storageUsage
  pure
    { spec := spec
      engineConfig := engineConfig
      config := config
      metadata := metadata
      recovery := recovery
      durableResults := recovery.committedResults
      usage := usage }

/-- `DurableRunStore::open`. -/
def openStore (build : BuildIdentity) (spec : RunSpec) (engineConfig : EngineConfig)
    (storeConfig : RunStoreConfig) : Prog DurableRunStore := do
  Program.ofExcept storeConfig.validate
  let expected ← Program.ofExcept (expectedMetadata build spec engineConfig)
  let config := resolveCheckpointCadence storeConfig expected.blockCount
  let usage ← prepareDirectory config
  let (metadata, metadataExisted, usage) ← obtainMetadata config expected usage
  let load ← loadLatestValidManifest engineConfig config metadata
  finishOpen spec engineConfig config metadata metadataExisted load usage

/-! ## Recording a result -/

/-- An exception of `DurableRunStore::record_result`. -/
def recordInvalid (what : String) : Exception := ⟨.invalidArgument, .recordResult, what⟩

/-- The checks of `record_result` up to the look at earlier results. -/
def checkRecord (store : DurableRunStore) (result : BlockResult) : Result Unit := do
  throwIf (store.recovery.status ≠ .running)
    ⟨.runtimeError, .recordResult, "cannot record a result for a non-running store"⟩
  match store.recovery.blocks[result.block.blockId.toNat]? with
  | none => .error (recordInvalid "durable block ID is outside the run")
  | some expected => do
    let invalid := recordInvalid "durable block result metadata is invalid"
    throwIf (result.runSpecHash ≠ store.metadata.runSpecHash
        || result.executionLayoutHash ≠ store.metadata.executionLayoutHash
        || result.buildFingerprint ≠ store.metadata.buildFingerprint
        || result.rngVersion ≠ store.spec.rngVersion
        || result.statsSchemaVersion ≠ store.spec.statsSchemaVersion
        || result.block.startScenario ≠ expected.startScenario
        || result.block.endScenario ≠ expected.endScenario
        || result.block.runIncarnation ≠ expected.runIncarnation
        || result.block.leaseEpoch ≠ expected.leaseEpoch) invalid
    let checksum ← aggregatePayloadHash result.aggregate result.statsSchemaVersion
    throwIf (result.payloadChecksum ≠ checksum) invalid
    match result.aggregate.invariantError
        (some (expectedObservations store.spec.antithetic expected)) with
    | some error => .error (recordInvalid ("durable block aggregate is invalid: " ++ error))
    | none => pure ()

/-- Whether an earlier durable result is the same attempt with the same payload. -/
def sameAttempt (earlier result : BlockResult) : Bool :=
  earlier.payloadChecksum = result.payloadChecksum
    && earlier.block.runIncarnation = result.block.runIncarnation
    && earlier.block.leaseEpoch = result.block.leaseEpoch

/-- `DurableRunStore::record_result`. -/
def recordResult (store : DurableRunStore) (result : BlockResult) : Prog DurableRunStore := do
  Program.ofExcept (checkRecord store result)
  let index := result.block.blockId.toNat
  match (store.durableResults[index]?).join with
  | some earlier =>
    if sameAttempt earlier result then pure store
    else throw ⟨.runtimeError, .recordResult,
      "conflicting durable result exists for the same block"⟩
  | none => do
    let bytes ← Program.ofExcept (encodeBlockRecord ⟨store.metadata.runId, result⟩)
    let usage ← atomicWrite store.config (blockPathFor result.block) bytes store.usage
      (.blockResult ⟨result.block.runIncarnation, result.block.blockId, kNoFailureContext⟩)
    pure { store with durableResults := store.durableResults.set index (some result), usage := usage }

/-! ## Checkpoints -/

/-- The entry loop of `checkpoint` from block `index` on. -/
def checkpointEntries (store : DurableRunStore) (coordinator : CoordinatorState)
    (leaves : List (AggregateStats Binary64)) : ℕ → List Bool → Result (List ManifestEntry)
  | _, [] => .ok []
  | index, false :: rest => checkpointEntries store coordinator leaves (index + 1) rest
  | index, true :: rest => do
    let unmatched : Exception := ⟨.runtimeError, .checkpoint,
      "checkpoint names a block without matching durable evidence"⟩
    match (store.durableResults[index]?).join with
    | none => .error unmatched
    | some result => do
      throwIf ((coordinator.committedPayloads[index]?).join ≠ some result.payloadChecksum
          || !AggregateStats.aggregatesEqual (leaves.getD index .empty) result.aggregate) unmatched
      let entries ← checkpointEntries store coordinator leaves (index + 1) rest
      pure (result.entry :: entries)

/-- The committed results after a checkpoint: blocks that were received and had
none before now have their durable result. -/
def commitReceived (committed durable : List (Option BlockResult)) (received : List Bool) :
    List (Option BlockResult) :=
  List.zipWith (fun result (newer : Option BlockResult × Bool) =>
    if newer.2 && result.isNone then newer.1 else result) committed (durable.zip received)

/-- An exception of `DurableRunStore::checkpoint`. -/
def checkpointInvalid (what : String) : Exception := ⟨.invalidArgument, .checkpoint, what⟩

/-- `checkpoint` up to the encoding: the checks and the manifest. -/
def checkpointManifest (store : DurableRunStore) (coordinator : CoordinatorState)
    (leaves : List (AggregateStats Binary64)) (received : List Bool) (status : DurableRunStatus)
    (failure : Option FailureRecord) : Result RunManifest := do
  throwIf (store.recovery.status ≠ .running)
    ⟨.runtimeError, .checkpoint, "cannot checkpoint a non-running store"⟩
  throwIf (coordinator.runSpecHash ≠ store.metadata.runSpecHash
      || coordinator.executionLayoutHash ≠ store.metadata.executionLayoutHash
      || coordinator.buildFingerprint ≠ store.metadata.buildFingerprint
      || coordinator.runIncarnation ≠ store.recovery.runIncarnation
      || coordinator.blocks.length ≠ store.metadata.blockCount.toNat
      || leaves.length ≠ store.metadata.blockCount.toNat
      || received.length ≠ store.metadata.blockCount.toNat)
    (checkpointInvalid "checkpoint coordinator universe is incompatible")
  throwIf (status = .complete && received.any (!·))
    (checkpointInvalid "cannot complete a run with missing blocks")
  throwIf (decide (status = .failed) != failure.isSome)
    (checkpointInvalid "checkpoint failure state/details mismatch")
  let entries ← checkpointEntries store coordinator leaves 0 received
  throwIf (store.recovery.manifestSequence = maxWord)
    ⟨.overflowError, .checkpoint, "manifest sequence overflow"⟩
  let aggregate ← reduceBlockResults leaves
  pure
    { runId := store.metadata.runId
      runSpecHash := store.metadata.runSpecHash
      executionLayoutHash := store.metadata.executionLayoutHash
      buildFingerprint := store.metadata.buildFingerprint
      sequence := store.recovery.manifestSequence + 1
      status := status
      runIncarnation := store.recovery.runIncarnation
      rngVersion := store.metadata.spec.rngVersion
      statsSchemaVersion := store.metadata.spec.statsSchemaVersion
      blockCount := store.metadata.blockCount
      leaseEpochs := coordinator.blocks.map (·.leaseEpoch)
      committedBlocks := entries
      committedAggregate := aggregate
      failure := failure }

/-- `DurableRunStore::checkpoint`. -/
def checkpoint (store : DurableRunStore) (coordinator : CoordinatorState)
    (leaves : List (AggregateStats Binary64)) (received : List Bool)
    (status : DurableRunStatus := .running) (failure : Option FailureRecord := none) :
    Prog DurableRunStore := do
  let manifest ← Program.ofExcept
    (checkpointManifest store coordinator leaves received status failure)
  let bytes ← Program.ofExcept (encodeManifest manifest)
  Program.ofExcept (throwIf (store.config.maxManifestBytes.toNat < bytes.length)
    ⟨.runtimeError, .checkpoint, "manifest exceeds max_manifest_bytes"⟩)
  let usage ← atomicWrite store.config (manifestPathFor manifest.sequence) bytes store.usage
    (manifestContext manifest)
  callIgnored (.hit .manifestAfterInstallBeforeMemory
    ⟨manifest.runIncarnation, kNoFailureContext, manifest.sequence⟩)
  pure { store with
    recovery := { store.recovery with
      manifestSequence := manifest.sequence
      status := status
      committedResults :=
        commitReceived store.recovery.committedResults store.durableResults received }
    usage := usage }

end MonteCarlo
