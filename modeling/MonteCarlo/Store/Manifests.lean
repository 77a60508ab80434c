import MonteCarlo.Persistence.Records
import MonteCarlo.Store.Files

/-!
# Manifests on disk

How the store builds manifests, and how it selects the one to recover from:
`expectedMetadata`, `requireCompatible`, `validateManifestSnapshot`,
`loadLatestValidManifest` and `makeManifestFromResults` of `run_store.cpp`.

A manifest file is a candidate by its name; candidates are tried from the
highest sequence number down.  An exception of type `InvalidDurableArtifact`
moves on to the next candidate, every other exception ends the scan.
-/

namespace MonteCarlo

open Effects

/-- `expected_metadata`. -/
def expectedMetadata (build : BuildIdentity) (spec : RunSpec) (config : EngineConfig) :
    Result RunMetadata := do
  spec.validate
  config.validate spec
  let count := blockCount spec config.blockSize
  throwIf (config.maxMaterializedBlocks < count)
    ⟨.lengthError, .expectedMetadata, "durable run exceeds max_materialized_blocks"⟩
  let specHash ← runSpecHash spec
  let layoutHash ← executionLayoutHash spec config
  pure
    { runId := durableRunId specHash layoutHash
      spec := spec
      blockSize := config.blockSize
      blockCount := count
      runSpecHash := specHash
      executionLayoutHash := layoutHash
      buildFingerprint := build.hash
      buildDescription := build.description }

/-- `require_compatible`. -/
def requireCompatible (persisted expected : RunMetadata) : Result Unit := do
  let thrown := fun what => (⟨.runtimeError, .requireCompatible, what⟩ : Exception)
  throwIf (persisted.runSpecHash ≠ expected.runSpecHash)
    (thrown "run directory contains an incompatible run specification")
  throwIf (persisted.executionLayoutHash ≠ expected.executionLayoutHash
      || persisted.blockSize ≠ expected.blockSize || persisted.blockCount ≠ expected.blockCount)
    (thrown "run directory contains an incompatible execution layout")
  throwIf (persisted.buildFingerprint ≠ expected.buildFingerprint
      || persisted.buildDescription ≠ expected.buildDescription)
    (thrown "run directory was created by an incompatible build/runtime identity")
  throwIf (persisted.runId ≠ expected.runId)
    (thrown "run directory contains an incompatible run ID")

/-- The aggregates at the leaves of the reduction tree: a block without a result
has the empty one. -/
def leavesOf (results : List (Option BlockResult)) : List (AggregateStats Binary64) :=
  results.map fun result => result.elim .empty (·.aggregate)

/-! ## Validating a snapshot -/

/-- `LoadedManifest`. -/
structure LoadedManifest where
  manifest : RunManifest
  results : List (Option BlockResult)
  deriving DecidableEq, Repr

/-- An exception of `validate_manifest_snapshot`. -/
def snapshotInvalid (what : String) : Exception := invalidArtifact .validateManifestSnapshot what

/-- The identity checks of `validate_manifest_snapshot`. -/
def checkIdentity (manifest : RunManifest) (metadata : RunMetadata) : Result Unit :=
  throwIf (manifest.runId ≠ metadata.runId || manifest.runSpecHash ≠ metadata.runSpecHash
      || manifest.executionLayoutHash ≠ metadata.executionLayoutHash
      || manifest.buildFingerprint ≠ metadata.buildFingerprint
      || manifest.rngVersion ≠ metadata.spec.rngVersion
      || manifest.statsSchemaVersion ≠ metadata.spec.statsSchemaVersion
      || manifest.blockCount ≠ metadata.blockCount)
    (snapshotInvalid "manifest is incompatible with run metadata")

/-- The checks of `validate_manifest_snapshot` on one entry and the record that
was read for it; `block` is the canonical block of the entry. -/
def checkEntryRecord (manifest : RunManifest) (metadata : RunMetadata) (block : ScenarioBlock)
    (entry : ManifestEntry) (record : DurableBlockRecord) : Result Unit := do
  let result := record.result
  throwIf (record.runId ≠ metadata.runId || result.runSpecHash ≠ metadata.runSpecHash
      || result.executionLayoutHash ≠ metadata.executionLayoutHash
      || result.buildFingerprint ≠ metadata.buildFingerprint
      || result.rngVersion ≠ metadata.spec.rngVersion
      || result.statsSchemaVersion ≠ metadata.spec.statsSchemaVersion
      || result.block.blockId ≠ entry.blockId
      || result.block.startScenario ≠ block.startScenario
      || result.block.endScenario ≠ block.endScenario
      || result.block.runIncarnation ≠ entry.resultIncarnation
      || result.block.leaseEpoch ≠ entry.leaseEpoch
      || manifest.runIncarnation < result.block.runIncarnation
      || result.payloadChecksum ≠ entry.payloadChecksum)
    (snapshotInvalid "manifest references a block with incompatible internal metadata")
  throwIf (result.block.runIncarnation = manifest.runIncarnation
      && result.block.leaseEpoch ≠ manifest.leaseEpochs.getD entry.blockId.toNat 0)
    (snapshotInvalid "manifest lease high-water mark moved behind a committed result")
  match result.aggregate.invariantError
      (some (expectedObservations metadata.spec.antithetic block)) with
  | some error => .error (snapshotInvalid ("manifest references an invalid aggregate: " ++ error))
  | none => pure ()

/-- The file that an entry names, given the canonical block of the entry. -/
def entryPath (block : ScenarioBlock) (entry : ManifestEntry) : Path :=
  blockPathFor (block.leased entry.resultIncarnation entry.leaseEpoch)

/-- The `try` block of `validate_manifest_snapshot`: whatever goes wrong with the
file of an entry becomes `InvalidDurableArtifact`. -/
def readEntryRecord (config : RunStoreConfig) (path : Path) : Prog DurableBlockRecord :=
  tryCatch
    (do
      let bytes ← readFile config path 4096
      Program.ofExcept (decodeBlockRecord bytes))
    fun e =>
      if e.type = .invalidDurableArtifact then throw e
      else throw (snapshotInvalid ("manifest references an invalid block result: " ++ e.what))

/-- A default-constructed block. -/
def ScenarioBlock.default : ScenarioBlock := ⟨0, 0, 0, 0, 1⟩

/-- The entry loop of `validate_manifest_snapshot`. -/
def loadEntries (config : RunStoreConfig) (manifest : RunManifest) (metadata : RunMetadata)
    (canonical : List ScenarioBlock) :
    List ManifestEntry → List (Option BlockResult) → Prog (List (Option BlockResult))
  | [], results => pure results
  | entry :: rest, results => do
    let index := entry.blockId.toNat
    let block := canonical.getD index .default
    let record ← readEntryRecord config (entryPath block entry)
    Program.ofExcept (checkEntryRecord manifest metadata block entry record)
    loadEntries config manifest metadata canonical rest (results.set index (some record.result))

/-- The checks of `validate_manifest_snapshot` after the entry loop.  The reduction
is not inside a `try` block: what it throws keeps its type. -/
def checkReduction (manifest : RunManifest) (results : List (Option BlockResult)) :
    Result Unit := do
  let reduced ← reduceBlockResults (leavesOf results)
  throwIf (!AggregateStats.aggregatesEqual reduced manifest.committedAggregate)
    (snapshotInvalid "manifest aggregate does not match its fixed-tree block reduction")
  throwIf (manifest.status = .complete && results.any (·.isNone))
    (snapshotInvalid "complete manifest is missing a block result")

/-- `validate_manifest_snapshot`. -/
def validateManifestSnapshot (engineConfig : EngineConfig) (config : RunStoreConfig)
    (manifest : RunManifest) (metadata : RunMetadata) : Prog LoadedManifest := do
  Program.ofExcept (checkIdentity manifest metadata)
  let canonical ← Program.ofExcept (makeBlocks metadata.spec engineConfig)
  let results ← loadEntries config manifest metadata canonical manifest.committedBlocks
    (List.replicate canonical.length none)
  Program.ofExcept (checkReduction manifest results)
  pure ⟨manifest, results⟩

/-! ## Selecting a manifest -/

/-- What the scan of the manifest directory has collected. -/
structure Candidates where
  sawManifestFile : Bool
  highestSequenceSeen : UInt64
  files : List (UInt64 × Path)
  deriving DecidableEq, Repr

/-- The loop body of the scan. -/
def addCandidate (candidates : Candidates) (path : Path) : Prog (ForInStep Candidates) := do
  let regular ← isRegularFile path (filesystemError .loadLatestValidManifest)
  if !regular then pure (.yield candidates)
  else
    match parseManifestSequence path.name with
    | none => pure (.yield candidates)
    | some sequence => pure (.yield
        { sawManifestFile := true
          highestSequenceSeen := maxOfWords candidates.highestSequenceSeen sequence
          files := candidates.files ++ [(sequence, path)] })

/-- The scan of `load_latest_valid_manifest`. -/
def scanManifests : Prog Candidates :=
  scan .manifests
    (fun e => ⟨.runtimeError, .loadLatestValidManifest,
      "cannot scan manifest directory: " ++ e.message⟩)
    addCandidate ⟨false, 0, []⟩

/-- `std::sort` by descending sequence number. -/
def sortCandidates (files : List (UInt64 × Path)) : List (UInt64 × Path) :=
  files.insertionSort fun left right => right.1 ≤ left.1

/-- `decode_manifest` inside the scan: every failure becomes `InvalidDurableArtifact`. -/
def decodeCandidate (config : RunStoreConfig) (sequence : UInt64) (bytes : Bytes) :
    Result RunManifest := do
  let manifest ← (decodeManifest bytes config.maxManifestBytes).mapError fun e =>
    invalidArtifact .loadLatestValidManifest ("manifest envelope is invalid: " ++ e.what)
  throwIf (manifest.sequence ≠ sequence)
    (invalidArtifact .loadLatestValidManifest "manifest filename/internal sequence mismatch")
  pure manifest

/-- The `try` block of `load_latest_valid_manifest`. -/
def loadCandidate (engineConfig : EngineConfig) (config : RunStoreConfig) (metadata : RunMetadata)
    (candidate : UInt64 × Path) : Prog LoadedManifest := do
  let bytes ← readFile config candidate.2 config.maxManifestBytes .operatorPolicy
  let manifest ← Program.ofExcept (decodeCandidate config candidate.1 bytes)
  validateManifestSnapshot engineConfig config manifest metadata

/-- The outcome of one candidate: loaded, or skipped with a message. -/
inductive CandidateOutcome where
  | loaded (snapshot : LoadedManifest)
  | skipped (message : String)
  deriving DecidableEq, Repr

/-- One candidate with the handler of `InvalidDurableArtifact`. -/
def tryCandidate (engineConfig : EngineConfig) (config : RunStoreConfig) (metadata : RunMetadata)
    (candidate : UInt64 × Path) : Prog CandidateOutcome :=
  tryCatch
    (do
      let snapshot ← loadCandidate engineConfig config metadata candidate
      pure (.loaded snapshot))
    fun e =>
      if e.type = .invalidDurableArtifact then
        pure (.skipped (String.ofList candidate.2.name ++ ": " ++ e.what))
      else throw e

/-- The candidate loop: the first candidate that loads is returned. -/
def tryCandidates (engineConfig : EngineConfig) (config : RunStoreConfig) (metadata : RunMetadata) :
    List (UInt64 × Path) → String → Prog (Option LoadedManifest × String)
  | [], lastError => pure (none, lastError)
  | candidate :: rest, lastError => do
    match ← tryCandidate engineConfig config metadata candidate with
    | .loaded snapshot => pure (some snapshot, lastError)
    | .skipped message => tryCandidates engineConfig config metadata rest message

/-- The result of `load_latest_valid_manifest` with its output parameters. -/
structure LoadResult where
  loaded : Option LoadedManifest
  sawManifestFile : Bool
  highestSequenceSeen : UInt64
  lastError : String
  deriving DecidableEq, Repr

/-- `load_latest_valid_manifest`. -/
def loadLatestValidManifest (engineConfig : EngineConfig) (config : RunStoreConfig)
    (metadata : RunMetadata) : Prog LoadResult := do
  let candidates ← scanManifests
  let (loaded, lastError) ← tryCandidates engineConfig config metadata
    (sortCandidates candidates.files) ""
  pure ⟨loaded, candidates.sawManifestFile, candidates.highestSequenceSeen, lastError⟩

/-! ## Building a manifest -/

/-- The manifest entry of a result. -/
def BlockResult.entry (result : BlockResult) : ManifestEntry :=
  ⟨result.block.blockId, result.block.runIncarnation, result.block.leaseEpoch,
    result.payloadChecksum⟩

/-- `make_manifest_from_results`. -/
def makeManifestFromResults (metadata : RunMetadata) (sequence incarnation : UInt64)
    (status : DurableRunStatus) (blocks : List ScenarioBlock)
    (results : List (Option BlockResult)) (failure : Option FailureRecord) :
    Result RunManifest := do
  let aggregate ← reduceBlockResults (leavesOf results)
  pure
    { runId := metadata.runId
      runSpecHash := metadata.runSpecHash
      executionLayoutHash := metadata.executionLayoutHash
      buildFingerprint := metadata.buildFingerprint
      sequence := sequence
      status := status
      runIncarnation := incarnation
      rngVersion := metadata.spec.rngVersion
      statsSchemaVersion := metadata.spec.statsSchemaVersion
      blockCount := metadata.blockCount
      leaseEpochs := blocks.map (·.leaseEpoch)
      committedBlocks := results.filterMap fun result => result.map (·.entry)
      committedAggregate := aggregate
      failure := failure }

end MonteCarlo
