import MonteCarlo.Metrics
import MonteCarlo.Store.Selection

/-!
# The store with metrics

`atomic_write`, `open`, `record_result` and `checkpoint` as they are with their `metrics` argument:
`Metered.atomicWrite` and so on.  The functions of `run_store.cpp` without that argument are embedded
as they are.

* `erases_atomicWrite`, `erases_openStore`, `erases_recordResult`, `erases_checkpoint` — without the
  accesses to the metrics, these are the functions of the store.
* `prepared_of_openStore` — after `open` there is room for every worker.
-/

namespace MonteCarlo

open Effects Effects.Program MeteredProg

/-! ## Writing -/

namespace Metered

/-- The part of `atomic_write` during which the descriptor is open. -/
def writeTemporary (config : RunStoreConfig) (temporary : Path) (bytes : Bytes)
    (context : WriteContext) : MeteredProg Unit := do
  let text := temporary.text config.runDirectory
  timedIo .addWriteNs (writeAll text temporary bytes.length bytes)
  embed (hitWriteFailure context .resultBeforeFileFsync .manifestBeforeFileFsync)
  let _ ← timedIo .addFileFsyncNs (callOr (.fsync temporary)
    (systemError .atomicWrite "cannot fsync durable temporary file" text))
  embed (hitWriteFailure context .resultAfterFileFsync .manifestAfterFileFsync)

/-- The part of `atomic_write` from closing the descriptor on. -/
def installTemporary (config : RunStoreConfig) (temporary finalPath : Path)
    (context : WriteContext) : MeteredProg Unit := do
  let _ ← embed (callOr (.close temporary) (systemError .atomicWrite
    "cannot close durable temporary file" (temporary.text config.runDirectory)))
  embed (hitWriteFailure context .resultBeforeRename .manifestBeforeRename)
  let _ ← timedIo .addRenameNs (callOr (.rename temporary finalPath) (systemError .atomicWrite
    "cannot atomically install durable file" (finalPath.text config.runDirectory)))
  embed (hitWriteFailure context .resultAfterRename .manifestAfterRename)
  timedIo .addDirectoryFsyncNs (syncDirectory config finalPath.dir)
  if finalPath.dir ≠ temporary.dir then
    timedIo .addDirectoryFsyncNs (syncDirectory config temporary.dir)
  else pure ()

/-- The part of `atomic_write` after the final path was found free. -/
def writeNewFile (config : RunStoreConfig) (finalPath : Path) (bytes : Bytes)
    (usage : StorageUsage) (context : WriteContext) : MeteredProg StorageUsage := do
  embed (preflightWrite config usage bytes.length)
  let pid : ℕ ← embed (callOr .getpid (filesystemError .atomicWrite))
  let nonce : ℕ ← embed (callOr .fetchNonce (filesystemError .atomicWrite))
  let temporary : Path := ⟨.tmp, temporaryName finalPath.name pid nonce⟩
  let _ ← embed (callOr (.create temporary) (systemError .atomicWrite
    "cannot create durable temporary file" (temporary.text config.runDirectory)))
  MonadExcept.tryCatch (writeTemporary config temporary bytes context) fun e => do
    embed (callIgnored (.close temporary))
    embed (callIgnored (.remove temporary))
    throw e
  MonadExcept.tryCatch (installTemporary config temporary finalPath context) fun e => do
    embed (callIgnored (.remove temporary))
    throw e
  update (.installed context bytes.length)
  pure ⟨usage.bytes + UInt64.ofNat bytes.length, usage.files + 1⟩

/-- `atomic_write`. -/
def atomicWrite (config : RunStoreConfig) (finalPath : Path) (bytes : Bytes)
    (usage : StorageUsage) (context : WriteContext) : MeteredProg StorageUsage := do
  let present : Bool ← embed (callOr (.exists_ finalPath) (filesystemError .atomicWrite))
  if present then do
    let existing ← embed (readFile config finalPath (UInt64.ofNat bytes.length + 1))
    if existing = bytes then pure usage
    else throw ⟨.runtimeError, .atomicWriteImmutable,
      "immutable durable file already exists with different bytes: "
        ++ finalPath.text config.runDirectory⟩
  else writeNewFile config finalPath bytes usage context

/-! ## Opening -/

/-- The metadata of the run directory: read and compared, or installed. -/
def obtainMetadata (config : RunStoreConfig) (expected : RunMetadata) (usage : StorageUsage) :
    MeteredProg (RunMetadata × Bool × StorageUsage) := do
  let existed : Bool ← embed (callOr (.exists_ metadataPath) (filesystemError .openStore))
  if existed then do
    let bytes ← embed (readFile config metadataPath (1024 * 1024))
    let metadata ← Program.ofExcept (decodeRunMetadata bytes)
    Program.ofExcept (requireCompatible metadata expected)
    pure (metadata, true, usage)
  else do
    let payload ← embed (hasExistingRunPayload config)
    Program.ofExcept (throwIf payload (openError
      ("run_spec.bin is missing from a nonempty run directory; refusing "
        ++ "to install caller-supplied metadata over existing durable state")))
    let bytes ← Program.ofExcept (encodeRunMetadata expected)
    embed (preflightRunCompletion config usage
      (freshPlan config expected.blockCount (UInt64.ofNat bytes.length) 1))
    let usage ← atomicWrite config metadataPath bytes usage .metadata
    pure (expected, false, usage)

/-- Encode and install a manifest. -/
def installManifest (config : RunStoreConfig) (manifest : RunManifest) (usage : StorageUsage) :
    MeteredProg StorageUsage := do
  let bytes ← Program.ofExcept (encodeManifest manifest)
  atomicWrite config (manifestPathFor manifest.sequence) bytes usage (manifestContext manifest)

/-- The branch of `open` for a directory without manifests. -/
def startRun (config : RunStoreConfig) (metadata : RunMetadata) (metadataExisted : Bool)
    (blocks : List ScenarioBlock) (usage : StorageUsage) : MeteredProg DurableRecoveryState := do
  if metadataExisted then
    embed (preflightRunCompletion config usage (freshPlan config metadata.blockCount 0 0))
  let leased := blocks.map fun block => block.leased 1 1
  let results : List (Option BlockResult) := List.replicate blocks.length none
  let initial ← Program.ofExcept
    (makeManifestFromResults metadata 0 1 .running leased results none)
  let _ ← installManifest config initial usage
  pure ⟨0, 1, .running, metadataExisted, leased, results⟩

/-- The branch of `open` for a running snapshot. -/
def resumeRun (config : RunStoreConfig) (metadata : RunMetadata) (snapshot : LoadedManifest)
    (highestSequence : UInt64) (recovered : DurableRecoveryState) (usage : StorageUsage) :
    MeteredProg DurableRecoveryState := do
  Program.ofExcept (throwIf
    (snapshot.manifest.runIncarnation = maxWord || highestSequence = maxWord)
    ⟨.overflowError, .openStore, "durable recovery identity overflow"⟩)
  embed (preflightRunCompletion config usage
    (recoveryPlan config metadata.blockCount (missingCount snapshot.results)))
  let (renewed, manifest) ← Program.ofExcept
    (recoveryManifest metadata snapshot highestSequence recovered.blocks)
  let _ ← installManifest config manifest usage
  pure { recovered with
    manifestSequence := manifest.sequence
    runIncarnation := manifest.runIncarnation
    blocks := renewed }

/-- The branch of `open` for a loaded snapshot. -/
def recoverRun (config : RunStoreConfig) (metadata : RunMetadata) (metadataExisted : Bool)
    (snapshot : LoadedManifest) (highestSequence : UInt64) (blocks : List ScenarioBlock)
    (usage : StorageUsage) : MeteredProg DurableRecoveryState := do
  let recovered : DurableRecoveryState :=
    { manifestSequence := snapshot.manifest.sequence
      runIncarnation := snapshot.manifest.runIncarnation
      status := snapshot.manifest.status
      resumed := metadataExisted
      blocks := leasedBlocks blocks snapshot.manifest
      committedResults := snapshot.results }
  if snapshot.manifest.status = .running then
    resumeRun config metadata snapshot highestSequence recovered usage
  else pure recovered

/-- The two branches of `open`. -/
def obtainRecovery (config : RunStoreConfig) (metadata : RunMetadata) (metadataExisted : Bool)
    (load : LoadResult) (blocks : List ScenarioBlock) (usage : StorageUsage) :
    MeteredProg DurableRecoveryState :=
  match load.loaded with
  | none => startRun config metadata metadataExisted blocks usage
  | some snapshot =>
    recoverRun config metadata metadataExisted snapshot load.highestSequenceSeen blocks usage

/-- `DurableRunStore::open` from the loaded manifest on. -/
def finishOpen (spec : RunSpec) (engineConfig : EngineConfig) (config : RunStoreConfig)
    (metadata : RunMetadata) (metadataExisted : Bool) (load : LoadResult) (usage : StorageUsage) :
    MeteredProg DurableRunStore := do
  Program.ofExcept (throwIf (load.loaded.isNone && load.sawManifestFile)
    ⟨.runtimeError, .openNoValidManifest,
      "no valid compatible manifest remains; last error: " ++ load.lastError⟩)
  let blocks ← Program.ofExcept (makeBlocks spec engineConfig)
  let recovery ← obtainRecovery config metadata metadataExisted load blocks usage
  embed (removeOrphanBlockResults config recovery.committedResults)
  let usage ← embed storageUsage
  pure
    { spec := spec
      engineConfig := engineConfig
      config := config
      metadata := metadata
      recovery := recovery
      durableResults := recovery.committedResults
      usage := usage }

/-- `open` from the second reset of the metrics on. -/
def openPrepared (spec : RunSpec) (engineConfig : EngineConfig) (config : RunStoreConfig)
    (expected : RunMetadata) : MeteredProg DurableRunStore := do
  let usage ← embed (prepareDirectory config)
  let (metadata, metadataExisted, usage) ← obtainMetadata config expected usage
  let load ← embed (loadLatestValidManifest engineConfig config metadata)
  finishOpen spec engineConfig config metadata metadataExisted load usage

/-- `open` while its timer runs. -/
def openTimed (build : BuildIdentity) (spec : RunSpec) (engineConfig : EngineConfig)
    (storeConfig : RunStoreConfig) : MeteredProg DurableRunStore := do
  Program.ofExcept storeConfig.validate
  let expected ← Program.ofExcept (expectedMetadata build spec engineConfig)
  let config := resolveCheckpointCadence storeConfig expected.blockCount
  let blockCount := expected.blockCount.toNat
  reset blockCount (min engineConfig.workerCount blockCount)
    (checkpointCount config expected.blockCount).toNat
  openPrepared spec engineConfig config expected

/-- `DurableRunStore::open`. -/
def openStore (build : BuildIdentity) (spec : RunSpec) (engineConfig : EngineConfig)
    (storeConfig : RunStoreConfig) : MeteredProg DurableRunStore := do
  let started ← now
  reset 0 0 0
  -- the destructor of `open_timer`
  ensure (openTimed build spec engineConfig storeConfig)
    (stopTimer started .withDurableOpenNs)

/-! ## Results and checkpoints -/

/-- `DurableRunStore::record_result`. -/
def recordResult (store : DurableRunStore) (result : BlockResult) : MeteredProg DurableRunStore := do
  let started ← now
  Program.ofExcept (checkRecord store result)
  let index := result.block.blockId.toNat
  match (store.durableResults[index]?).join with
  | some earlier =>
    if sameAttempt earlier result then pure store
    else throw ⟨.runtimeError, .recordResult,
      "conflicting durable result exists for the same block"⟩
  | none => do
    let bytes ← Program.ofExcept (encodeBlockRecord ⟨store.metadata.runId, result⟩)
    let usage ← atomicWrite store.config (blockPathFor result.block) bytes store.usage
      (.blockResult ⟨result.block.runIncarnation, result.block.blockId, kNoFailureContext⟩)
    stopTimer started (.persisted index)
    pure { store with durableResults := store.durableResults.set index (some result), usage := usage }

/-- `DurableRunStore::checkpoint`. -/
def checkpoint (store : DurableRunStore) (coordinator : CoordinatorState)
    (leaves : List (AggregateStats Binary64)) (received : List Bool)
    (status : DurableRunStatus := .running) (failure : Option FailureRecord := none) :
    MeteredProg DurableRunStore := do
  let started ← now
  let manifest ← Program.ofExcept
    (checkpointManifest store coordinator leaves received status failure)
  let bytes ← Program.ofExcept (encodeManifest manifest)
  Program.ofExcept (throwIf (store.config.maxManifestBytes.toNat < bytes.length)
    ⟨.runtimeError, .checkpoint, "manifest exceeds max_manifest_bytes"⟩)
  let usage ← atomicWrite store.config (manifestPathFor manifest.sequence) bytes store.usage
    (manifestContext manifest)
  embed (callIgnored (.hit .manifestAfterInstallBeforeMemory
    ⟨manifest.runIncarnation, kNoFailureContext, manifest.sequence⟩))
  stopTimer started .checkpointed
  pure { store with
    recovery := { store.recovery with
      manifestSequence := manifest.sequence
      status := status
      committedResults :=
        commitReceived store.recovery.committedResults store.durableResults received }
    usage := usage }

end Metered

/-! ## Without the accesses -/

section Erasing

variable {config : RunStoreConfig} {context : WriteContext} {usage : StorageUsage}

theorem erases_writeTemporary {temporary : Path} {bytes : Bytes} :
    Erases MetricsOp.KeepsWorkers (Metered.writeTemporary config temporary bytes context)
      (writeTemporary config temporary bytes context) :=
  erases_timedIo.bind fun _ => (erases_embed _).bind fun _ => erases_timedIo.bind fun _ =>
    erases_embed _

theorem erases_installTemporary {temporary finalPath : Path} :
    Erases MetricsOp.KeepsWorkers (Metered.installTemporary config temporary finalPath context)
      (installTemporary config temporary finalPath context) := by
  refine (erases_embed _).bind fun _ => (erases_embed _).bind fun _ => ?_
  refine erases_timedIo.bind fun _ => (erases_embed _).bind fun _ => ?_
  refine erases_timedIo.bind fun _ => ?_
  split
  · exact erases_timedIo
  · exact erases_pure ()

theorem erases_writeNewFile {finalPath : Path} {bytes : Bytes} :
    Erases MetricsOp.KeepsWorkers (Metered.writeNewFile config finalPath bytes usage context)
      (writeNewFile config finalPath bytes usage context) := by
  refine (erases_embed _).bind fun _ => (erases_embed _).bind fun pid => ?_
  refine (erases_embed _).bind fun nonce => (erases_embed _).bind fun _ => ?_
  refine (erases_writeTemporary.tryCatch fun e => ?_).bind fun _ => ?_
  · exact (erases_embed _).bind fun _ => (erases_embed _).bind fun _ => erases_throw e
  · refine (erases_installTemporary.tryCatch fun e => ?_).bind fun _ => ?_
    · exact (erases_embed _).bind fun _ => erases_throw e
    · exact (erases_update fun _ => rfl).skip (erases_pure _)

theorem erases_atomicWrite {finalPath : Path} {bytes : Bytes} :
    Erases MetricsOp.KeepsWorkers (Metered.atomicWrite config finalPath bytes usage context)
      (atomicWrite config finalPath bytes usage context) := by
  refine (erases_embed _).bind fun present => ?_
  cases present with
  | false => exact erases_writeNewFile
  | true =>
    refine (erases_embed _).bind fun existing => ?_
    split
    · exact erases_pure usage
    · exact erases_throw _

theorem erases_obtainMetadata {expected : RunMetadata} :
    Erases MetricsOp.KeepsWorkers (Metered.obtainMetadata config expected usage)
      (obtainMetadata config expected usage) := by
  refine (erases_embed _).bind fun existed => ?_
  cases existed with
  | true =>
    refine (erases_embed _).bind fun bytes => (erases_ofExcept _).bind fun metadata => ?_
    exact (erases_ofExcept _).bind fun _ => erases_pure _
  | false =>
    refine (erases_embed _).bind fun payload => (erases_ofExcept _).bind fun _ => ?_
    refine (erases_ofExcept _).bind fun bytes => (erases_embed _).bind fun _ => ?_
    exact erases_atomicWrite.bind fun _ => erases_pure _

theorem erases_installManifest {manifest : RunManifest} :
    Erases MetricsOp.KeepsWorkers (Metered.installManifest config manifest usage)
      (installManifest config manifest usage) :=
  (erases_ofExcept _).bind fun _ => erases_atomicWrite

variable {metadata : RunMetadata} {metadataExisted : Bool} {blocks : List ScenarioBlock}

theorem erases_startRun :
    Erases MetricsOp.KeepsWorkers (Metered.startRun config metadata metadataExisted blocks usage)
      (startRun config metadata metadataExisted blocks usage) := by
  unfold Metered.startRun startRun
  cases metadataExisted with
  | true =>
    refine (erases_embed _).bind fun _ => (erases_ofExcept _).bind fun initial => ?_
    exact erases_installManifest.bind fun _ => erases_pure _
  | false =>
    refine (erases_pure ()).bind fun _ => (erases_ofExcept _).bind fun initial => ?_
    exact erases_installManifest.bind fun _ => erases_pure _

theorem erases_resumeRun {snapshot : LoadedManifest} {highestSequence : UInt64}
    {recovered : DurableRecoveryState} :
    Erases MetricsOp.KeepsWorkers
      (Metered.resumeRun config metadata snapshot highestSequence recovered usage)
      (resumeRun config metadata snapshot highestSequence recovered usage) := by
  refine (erases_ofExcept _).bind fun _ => (erases_embed _).bind fun _ => ?_
  refine (erases_ofExcept _).bind fun renewed => ?_
  exact erases_installManifest.bind fun _ => erases_pure _

theorem erases_obtainRecovery {load : LoadResult} :
    Erases MetricsOp.KeepsWorkers
      (Metered.obtainRecovery config metadata metadataExisted load blocks usage)
      (obtainRecovery config metadata metadataExisted load blocks usage) := by
  unfold Metered.obtainRecovery obtainRecovery
  cases load.loaded with
  | none => exact erases_startRun
  | some snapshot =>
    dsimp only
    unfold Metered.recoverRun recoverRun
    dsimp only
    split
    · exact erases_resumeRun
    · exact erases_pure _

theorem erases_finishOpen {spec : RunSpec} {engineConfig : EngineConfig} {load : LoadResult} :
    Erases MetricsOp.KeepsWorkers
      (Metered.finishOpen spec engineConfig config metadata metadataExisted load usage)
      (finishOpen spec engineConfig config metadata metadataExisted load usage) := by
  refine (erases_ofExcept _).bind fun _ => (erases_ofExcept _).bind fun blocks => ?_
  refine erases_obtainRecovery.bind fun recovery => (erases_embed _).bind fun _ => ?_
  exact (erases_embed _).bind fun _ => erases_pure _

theorem erases_openPrepared {spec : RunSpec} {engineConfig : EngineConfig}
    {expected : RunMetadata} :
    Erases MetricsOp.KeepsWorkers (Metered.openPrepared spec engineConfig config expected) (do
      let usage ← prepareDirectory config
      let (metadata, metadataExisted, usage) ← obtainMetadata config expected usage
      let load ← loadLatestValidManifest engineConfig config metadata
      finishOpen spec engineConfig config metadata metadataExisted load usage) := by
  refine (erases_embed _).bind fun usage => erases_obtainMetadata.bind fun found => ?_
  exact (erases_embed _).bind fun load => erases_finishOpen

/-- `open` resets the metrics, so that there is only this about it: without metrics it is `open`. -/
theorem erases_openStore (build : BuildIdentity) (spec : RunSpec) (engineConfig : EngineConfig)
    (storeConfig : RunStoreConfig) :
    Erases (fun _ => True) (Metered.openStore build spec engineConfig storeConfig)
      (openStore build spec engineConfig storeConfig) := by
  refine .note_bind trivial fun started => .note_bind trivial fun _ => ?_
  refine Erases.ensure ?_ (erases_stopTimer trivial fun _ => trivial)
  refine (erases_ofExcept _).bind fun _ => (erases_ofExcept _).bind fun expected => ?_
  exact .note_bind trivial fun _ => erases_openPrepared.mono fun _ _ => trivial

theorem erases_recordResult {store : DurableRunStore} {result : BlockResult} :
    Erases MetricsOp.KeepsWorkers (Metered.recordResult store result)
      (recordResult store result) := by
  unfold Metered.recordResult recordResult
  refine .note_bind trivial fun started => (erases_ofExcept _).bind fun _ => ?_
  dsimp only
  cases (store.durableResults[result.block.blockId.toNat]?).join with
  | some earlier =>
    dsimp only
    split
    · exact erases_pure store
    · exact erases_throw _
  | none =>
    refine (erases_ofExcept _).bind fun bytes => erases_atomicWrite.bind fun usage => ?_
    exact (erases_stopTimer trivial fun _ _ => rfl).skip (erases_pure _)

theorem RuntimeMetrics.checkpointed_workers (ns : UInt64) (metrics : RuntimeMetrics) :
    (metrics.checkpointed ns).workers = metrics.workers := by
  unfold checkpointed
  split <;> rfl

theorem erases_checkpoint {store : DurableRunStore} {coordinator : CoordinatorState}
    {leaves : List (AggregateStats Binary64)} {received : List Bool} {status : DurableRunStatus}
    {failure : Option FailureRecord} :
    Erases MetricsOp.KeepsWorkers
      (Metered.checkpoint store coordinator leaves received status failure)
      (checkpoint store coordinator leaves received status failure) := by
  refine .note_bind trivial fun started => (erases_ofExcept _).bind fun manifest => ?_
  refine (erases_ofExcept _).bind fun bytes => (erases_ofExcept _).bind fun _ => ?_
  refine erases_atomicWrite.bind fun usage => (erases_embed _).bind fun _ => ?_
  refine (erases_stopTimer trivial fun ns metrics => ?_).skip (erases_pure _)
  rw [metrics.checkpointed_workers]

end Erasing

/-! ## Room for the workers -/

/-- A store that `open` returns has metrics with room for every worker there can be. -/
theorem prepared_of_openStore {σ : Type} {h : Handler Op Reply σ} {meters : Meters}
    {build : BuildIdentity} {spec : RunSpec} {engineConfig : EngineConfig}
    {storeConfig : RunStoreConfig} {store : DurableRunStore} {s s' : σ × Meter}
    (hrun : run (beside h meters.handle)
      (Metered.openStore build spec engineConfig storeConfig) s = (.ok store, s')) :
    s'.2.Prepared
      (min engineConfig.workerCount (blockCount spec engineConfig.blockSize).toNat) := by
  obtain ⟨started, s₁, -, hrun⟩ := run_bind_eq_ok hrun
  obtain ⟨_, s₂, -, hrun⟩ := run_bind_eq_ok hrun
  obtain ⟨s₃, hbody, hstop⟩ := run_ensure_eq_ok hrun
  obtain ⟨_, s₄, -, hbody⟩ := run_bind_eq_ok hbody
  obtain ⟨expected, hexpected, hbody⟩ := run_ofExcept_bind_eq_ok hbody
  obtain ⟨_, s₅, hreset, hbody⟩ := run_bind_eq_ok hbody
  have hcount : expected.blockCount = blockCount spec engineConfig.blockSize := by
    obtain ⟨-, -, -, -, -, heq⟩ := expectedMetadata_eq_ok hexpected
    rw [heq]
  have hprepared : s₅.2.Prepared (min engineConfig.workerCount expected.blockCount.toNat) := by
    have hstate := (Prod.mk.inj hreset).2
    rw [← hstate]
    exact meters.reset_prepared _ _ _ _
  have hopened := erases_openPrepared.preserves
    (fun op meter hop hmeter => meters.handle_prepared op hop hmeter) hbody hprepared
  have htimer : Erases MetricsOp.KeepsWorkers (stopTimer started .withDurableOpenNs)
      (pure () : Prog Unit) := erases_stopTimer trivial fun _ _ => rfl
  rw [← hcount]
  exact htimer.preserves (fun op meter hop hmeter => meters.handle_prepared op hop hmeter) hstop
    hopened

end MonteCarlo
