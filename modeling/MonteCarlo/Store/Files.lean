import MonteCarlo.Store.FileSystem

/-!
# File operations of the store

The helpers of `run_store.cpp` below `DurableRunStore`: reading a file, the
directory scans, the storage preflights, and `atomicWrite`, which installs an
immutable file through a temporary one:

    create tmp, write, fsync, close, rename, fsync directory, fsync tmp directory

Directory loops follow the standard's rule that an iterator whose construction
or increment reports an error becomes the end iterator.
-/

namespace MonteCarlo

open Effects

/-- `RunStoreConfig`, without failure injection. -/
structure RunStoreConfig where
  runDirectory : String
  checkpointIntervalBlocks : UInt64
  maxStorageBytes : UInt64
  maxStorageFiles : UInt64
  minFreeSpaceBytes : UInt64
  maxManifestBytes : UInt64
  deriving DecidableEq, Repr

def kMinimumAutomaticCheckpointBlocks : UInt64 := 1024
def kMaximumAutomaticPeriodicManifests : UInt64 := 1024

/-- A `RunStoreConfig` with its default values. -/
def RunStoreConfig.defaults (runDirectory : String) : RunStoreConfig where
  runDirectory := runDirectory
  checkpointIntervalBlocks := 0
  maxStorageBytes := 64 * 1024 * 1024 * 1024
  maxStorageFiles := 2000100
  minFreeSpaceBytes := 64 * 1024 * 1024
  maxManifestBytes := 128 * 1024 * 1024

/-- `RunStoreConfig::validate`. -/
def RunStoreConfig.validate (config : RunStoreConfig) : Result Unit := do
  let invalid := fun what => (⟨.invalidArgument, .runStoreConfigValidate, what⟩ : Exception)
  throwIf (config.runDirectory = "") (invalid "run_directory must not be empty")
  throwIf (config.maxStorageBytes = 0 || config.maxStorageFiles = 0)
    (invalid "durable storage limits must be positive")
  throwIf (config.maxManifestBytes < 256 || config.maxStorageBytes < config.maxManifestBytes)
    (invalid "max_manifest_bytes must be at least 256 and no larger than storage")

/-! ## Errors -/

/-- `system_error`. -/
def systemError (thrower : Thrower) (operation path : String) (e : Errno) : Exception :=
  ⟨.runtimeError, thrower, operation ++ " " ++ path ++ ": " ++ e.message⟩

/-- Perform an operation. -/
def call (op : Op) : Prog (Reply op) := Program.perform op

/-- Perform an operation and throw when it reports an error. -/
def callOr (op : Op) (error : Errno → Exception) : Prog (Answer op) := do
  match ← call op with
  | .ok answer => pure answer
  | .error e => throw (error e)

/-- An operation whose failure the source ignores. -/
def callIgnored (op : Op) : Prog Unit := do
  let _ ← call op
  pure ()

/-- The exception of a throwing `std::filesystem` call. -/
def filesystemError (thrower : Thrower) (e : Errno) : Exception :=
  ⟨.filesystemError, thrower, "filesystem error: " ++ e.message⟩

/-! ## Reading -/

/-- `SizeLimitKind`. -/
inductive SizeLimitKind where
  | schema
  | operatorPolicy
  deriving DecidableEq, Repr

/-- `InvalidDurableArtifact`. -/
def invalidArtifact (thrower : Thrower) (what : String) : Exception :=
  ⟨.invalidDurableArtifact, thrower, what⟩

/-- What `read_file` throws for a size above the limit. -/
def sizeLimitError (kind : SizeLimitKind) (text : String) : Exception :=
  match kind with
  | .operatorPolicy => ⟨.lengthError, .readFile,
      "durable file exceeds the operator-supplied size limit: " ++ text⟩
  | .schema => invalidArtifact .readFile
      ("durable file exceeds its storage-schema size limit: " ++ text)

/-- What `read_file` throws when `file_size` reports an error. -/
def statError (text : String) (e : Errno) : Exception :=
  if e = .noEntry then invalidArtifact .readFile ("durable file is missing: " ++ text)
  else ⟨.runtimeError, .readFile, "cannot stat durable file " ++ text ++ ": " ++ e.message⟩

/-- `read_file`. -/
def readFile (config : RunStoreConfig) (path : Path) (maximumSize : UInt64)
    (kind : SizeLimitKind := .schema) : Prog Bytes := do
  let text := path.text config.runDirectory
  let short := invalidArtifact .readFile ("short or changing durable file read: " ++ text)
  let size : ℕ ← callOr (.fileSize path) (statError text)
  if maximumSize.toNat < size then throw (sizeLimitError kind text)
  else do
    let _ ← callOr (.openRead path) fun _ =>
      ⟨.runtimeError, .readFile, "cannot open durable file for reading: " ++ text⟩
    let bytes : Bytes ← callOr (.read path) fun _ => short
    if bytes.length ≠ size then throw short else pure bytes

/-! ## Directory scans -/

/-- A range of directory entries from the current one on.  `error` is the
`std::error_code` of the last construction or increment. -/
def scanFrom {α : Type} (site : ScanSite) (scanError : Errno → Exception)
    (body : α → Path → Prog (ForInStep α)) : Option Errno → List Path → α → Prog α
  | _, [], acc => pure acc
  | some e, _ :: _, _ => throw (scanError e)
  | none, path :: rest, acc => do
    match ← body acc path with
    | .done acc => pure acc
    | .yield acc =>
      match ← call (.nextEntry site) with
      | .ok _ => scanFrom site scanError body none rest acc
      -- the iterator is now the end iterator: the loop condition fails, and the
      -- error is never looked at
      | .error _ => pure acc

/-- `for (iterator(directory, error), end; iterator != end; iterator.increment(error))`. -/
def scan {α : Type} (site : ScanSite) (scanError : Errno → Exception)
    (body : α → Path → Prog (ForInStep α)) (acc : α) : Prog α := do
  let reply : Except Errno (List Path) ← call (.openScan site)
  match reply with
  | .ok entries => scanFrom site scanError body none entries acc
  | .error e => scanFrom site scanError body (some e) [] acc

/-- `is_regular_file(error)`, followed by the check of `error` on `false`. -/
def isRegularFile (path : Path) (error : Errno → Exception) : Prog Bool :=
  callOr (.isRegularFile path) error

/-- `path().parent_path() == root && path().filename() == kLockFilename`.  Paths
are equal when their parts are. -/
def isLockEntry (config : RunStoreConfig) (path : Path) : Bool :=
  decide ((path.spelling config.runDirectory).parent.parts =
      (Paths.Spelling.ofText config.runDirectory).parts)
    && decide (path.name = kLockFilename)

/-- The lock is recognised, and nothing else is, where the run directory is
written without a separator at its end.  Behind one, nothing is. -/
theorem isLockEntry_iff (config : RunStoreConfig) (path : Path) :
    isLockEntry config path = true ↔
      path = lockPath ∧ ¬ (Paths.Spelling.ofText config.runDirectory).EndsInSeparator := by
  obtain ⟨dir, name⟩ := path
  rw [isLockEntry, Bool.and_eq_true, decide_eq_true_iff, decide_eq_true_iff, Path.spelling]
  cases dir with
  | root =>
    rw [Dir.spelling, Paths.Spelling.parts_parent_append, lockPath, Path.mk.injEq, and_comm]
    simp
  | _ => simp [Dir.spelling, Paths.Spelling.parts_parent_append_append, lockPath]

/-- `has_existing_run_payload`. -/
def hasExistingRunPayload (config : RunStoreConfig) : Prog Bool :=
  let thrown := fun (what : String) (e : Errno) =>
    (⟨.runtimeError, .hasExistingRunPayload, what ++ e.message⟩ : Exception)
  scan .payload (thrown "cannot inspect prospective run directory: ")
    (fun found path => do
      let regular ← isRegularFile path (thrown "cannot inspect prospective run-store entry: ")
      if !regular || isLockEntry config path then pure (.yield found) else pure (.done true))
    false

/-- `sync_directory`. -/
def syncDirectory (config : RunStoreConfig) (dir : Dir) : Prog Unit := do
  let text := dir.text config.runDirectory
  let _ ← callOr (.openDirectory dir)
    (systemError .syncDirectory "cannot open directory for fsync" text)
  match ← call (.fsyncDirectory dir) with
  | .error e => do
    callIgnored (.closeDirectory dir)
    throw (systemError .syncDirectory "cannot fsync directory" text e)
  | .ok _ => do
    let _ ← callOr (.closeDirectory dir)
      (systemError .syncDirectory "cannot close directory" text)
    pure ()

/-- `require_same_filesystem`. -/
def requireSameFilesystem (config : RunStoreConfig) (first second : Dir) : Prog Unit := do
  let thrown := fun (dir : Dir) =>
    systemError .requireSameFilesystem "cannot stat directory" (dir.text config.runDirectory)
  let firstDevice : ℕ ← callOr (.stat first) (thrown first)
  let secondDevice : ℕ ← callOr (.stat second) (thrown second)
  if firstDevice ≠ secondDevice then
    throw ⟨.runtimeError, .requireSameFilesystem,
      "durable tmp and destination directories are on different filesystems"⟩
  else pure ()

/-- The bytes and files of a run directory. -/
structure StorageUsage where
  bytes : UInt64
  files : UInt64
  deriving DecidableEq, Repr

/-- The largest 64-bit word. -/
def maxWord : UInt64 := UInt64.ofNat (2 ^ 64 - 1)

/-- The loop body of `storage_usage`. -/
def addUsage (usage : StorageUsage) (path : Path) : Prog (ForInStep StorageUsage) := do
  let unsafeSize : Exception :=
    ⟨.runtimeError, .storageUsage, "run-store size cannot be represented safely"⟩
  let regular ← isRegularFile path fun e =>
    ⟨.runtimeError, .storageUsage, "cannot inspect run-store entry: " ++ e.message⟩
  if !regular then pure (.yield usage)
  else do
    let size : ℕ ← callOr (.entryFileSize path) fun _ => unsafeSize
    if maxWord.toNat < size || maxWord.toNat - size < usage.bytes.toNat then throw unsafeSize
    else if usage.files = maxWord then
      throw ⟨.runtimeError, .storageUsage, "run-store file count overflow"⟩
    else pure (.yield ⟨usage.bytes + UInt64.ofNat size, usage.files + 1⟩)

/-- `storage_usage`: the only scan that looks at the error of its construction. -/
def storageUsage : Prog StorageUsage := do
  let scanError := fun (e : Errno) =>
    (⟨.runtimeError, .storageUsage, "cannot scan run directory: " ++ e.message⟩ : Exception)
  let entries : List Path ← callOr (.openScan .usage) scanError
  scanFrom .usage scanError addUsage none entries ⟨0, 0⟩

/-- `!std::filesystem::remove(path, error) || error`. -/
def removeOrThrow (path : Path) (thrower : Thrower) (what : String) : Prog Unit := do
  let reply : Except Errno Bool ← call (.remove path)
  match reply with
  | .ok true => pure ()
  | .ok false => throw ⟨.runtimeError, thrower, what ++ "Success"⟩
  | .error e => throw ⟨.runtimeError, thrower, what ++ e.message⟩

/-- `remove_stale_temporary_files`. -/
def removeStaleTemporaryFiles (config : RunStoreConfig) : Prog Unit := do
  let thrown := fun (what : String) (e : Errno) =>
    (⟨.runtimeError, .removeStaleTemporaryFiles, what ++ e.message⟩ : Exception)
  let removed ← scan .temporary (thrown "cannot scan durable tmp directory: ")
    (fun removed path => do
      if !isStaleTemporary path.name then pure (.yield removed)
      else do
        let regular ← isRegularFile path (thrown "cannot inspect stale durable temp file: ")
        if !regular then pure (.yield removed)
        else do
          removeOrThrow path .removeStaleTemporaryFiles "cannot remove stale durable temp file: "
          pure (.yield true))
    false
  if removed then syncDirectory config .tmp else pure ()

/-- Whether a committed result is stored under a parsed file name. -/
def isReferenced (committedResults : List (Option BlockResult)) (named : ScenarioBlock) : Bool :=
  match (committedResults[named.blockId.toNat]?).join with
  | none => false
  | some result => result.block.runIncarnation = named.runIncarnation
      && result.block.leaseEpoch = named.leaseEpoch

/-- `remove_orphan_block_results`. -/
def removeOrphanBlockResults (config : RunStoreConfig)
    (committedResults : List (Option BlockResult)) : Prog Unit := do
  let thrown := fun (what : String) (e : Errno) =>
    (⟨.runtimeError, .removeOrphanBlockResults, what ++ e.message⟩ : Exception)
  let removed ← scan .blockResults (thrown "cannot scan block-result directory: ")
    (fun removed path => do
      let regular ← isRegularFile path (thrown "cannot inspect block-result file: ")
      if !regular then pure (.yield removed)
      else
        match parseBlockResultFilename path.name with
        | none => pure (.yield removed)
        | some named =>
          if isReferenced committedResults named then pure (.yield removed)
          else do
            removeOrThrow path .removeOrphanBlockResults "cannot remove orphan block result: "
            pure (.yield true))
    false
  if removed then syncDirectory config .blockResults else pure ()

/-! ## Preflights -/

/-- `checked_add`. -/
def checkedAdd (left right : UInt64) (label : String) : Result UInt64 :=
  if maxWord - right < left then
    .error ⟨.lengthError, .checkedArithmetic, label ++ " estimate overflow"⟩
  else .ok (left + right)

/-- `checked_multiply`. -/
def checkedMultiply (left right : UInt64) (label : String) : Result UInt64 :=
  if left ≠ 0 ∧ maxWord / left < right then
    .error ⟨.lengthError, .checkedArithmetic, label ++ " estimate overflow"⟩
  else .ok (left * right)

theorem checkedAdd_toNat {left right sum : UInt64} {label : String}
    (h : checkedAdd left right label = .ok sum) : sum.toNat = left.toNat + right.toNat := by
  unfold checkedAdd at h
  split at h
  · cases h
  · rename_i hfits
    obtain rfl := Except.ok.inj h
    have hle := UInt64.le_iff_toNat_le.mp (UInt64.not_lt.mp hfits)
    have hword : maxWord.toNat = 2 ^ 64 - 1 := by decide
    have hlt := right.toNat_lt
    rw [UInt64.toNat_sub_of_le _ _ (UInt64.le_iff_toNat_le.mpr (by omega))] at hle
    rw [UInt64.toNat_add, Nat.mod_eq_of_lt (by omega)]

theorem checkedMultiply_toNat {left right product : UInt64} {label : String}
    (h : checkedMultiply left right label = .ok product) :
    product.toNat = left.toNat * right.toNat := by
  unfold checkedMultiply at h
  split at h
  · cases h
  · rename_i hfits
    cases h
    rw [UInt64.toNat_mul, Nat.mod_eq_of_lt]
    by_cases hzero : left = 0
    · subst hzero
      rw [UInt64.toNat_zero, Nat.zero_mul]
      exact Nat.two_pow_pos 64
    · have hle : right ≤ maxWord / left := by
        by_contra hlt
        exact hfits ⟨hzero, UInt64.not_le.mp hlt⟩
      rw [UInt64.le_iff_toNat_le, UInt64.toNat_div] at hle
      have hmul := (Nat.le_div_iff_mul_le (Nat.pos_of_ne_zero fun h =>
        hzero (UInt64.toNat_inj.mp h))).mp hle
      rw [Nat.mul_comm]
      exact Nat.lt_of_le_of_lt hmul (UInt64.toNat_lt _)

/-- The larger of two 64-bit words. -/
def maxOfWords (x y : UInt64) : UInt64 := if x < y then y else x

/-- `resolve_checkpoint_cadence`. -/
def resolveCheckpointCadence (requested : RunStoreConfig) (blockCount : UInt64) : RunStoreConfig :=
  if requested.checkpointIntervalBlocks ≠ 0 then requested
  else
    let cadence := 1 + (blockCount - 1) / kMaximumAutomaticPeriodicManifests
    { requested with
      checkpointIntervalBlocks := maxOfWords kMinimumAutomaticCheckpointBlocks cadence }

/-- What a run still has to write: the arguments of `preflight_run_completion`. -/
structure CompletionPlan where
  blockCount : UInt64
  missingBlocks : UInt64
  additionalManifests : UInt64
  additionalFixedBytes : UInt64
  additionalFixedFiles : UInt64
  deriving DecidableEq, Repr

/-- `maximum_manifest`. -/
def maximumManifest (blockCount : UInt64) : Result UInt64 := do
  let entries ← checkedMultiply blockCount 64 "manifest size"
  checkedAdd 512 entries "manifest size"

/-- The estimate of `preflight_run_completion`, with the checks that need no call. -/
def completionBytes (config : RunStoreConfig) (usage : StorageUsage) (plan : CompletionPlan) :
    Result UInt64 := do
  let thrown := fun what => (⟨.lengthError, .preflightRunCompletion, what⟩ : Exception)
  let manifest ← maximumManifest plan.blockCount
  throwIf (config.maxManifestBytes < manifest)
    (thrown "the complete full-snapshot manifest would exceed max_manifest_bytes")
  let results ← checkedMultiply plan.missingBlocks 512 "block-result storage"
  let manifests ← checkedMultiply plan.additionalManifests manifest "manifest storage"
  let bytes ← checkedAdd results manifests "durable completion storage"
  let bytes ← checkedAdd bytes plan.additionalFixedBytes "durable completion storage"
  let files ← checkedAdd plan.missingBlocks plan.additionalManifests "durable completion file count"
  let files ← checkedAdd files plan.additionalFixedFiles "durable completion file count"
  throwIf (config.maxStorageBytes < usage.bytes || config.maxStorageBytes - usage.bytes < bytes)
    (thrown "estimated durable completion size exceeds max_storage_bytes")
  throwIf (config.maxStorageFiles < usage.files || config.maxStorageFiles - usage.files < files)
    (thrown "estimated durable completion file count exceeds max_storage_files")
  pure bytes

/-- `preflight_run_completion`. -/
def preflightRunCompletion (config : RunStoreConfig) (usage : StorageUsage)
    (plan : CompletionPlan) : Prog Unit := do
  let bytes ← Program.ofExcept (completionBytes config usage plan)
  let available : UInt64 ← callOr .space (filesystemError .preflightRunCompletion)
  let required ← Program.ofExcept
    (checkedAdd bytes config.minFreeSpaceBytes "durable completion free-space")
  Program.ofExcept (throwIf (available < required)
    ⟨.lengthError, .preflightRunCompletion,
      "estimated durable completion size exceeds available free space policy"⟩)

/-- `preflight_write`. -/
def preflightWrite (config : RunStoreConfig) (usage : StorageUsage) (nextBytes : ℕ) :
    Prog Unit := do
  let thrown := fun what => (⟨.runtimeError, .preflightWrite, what⟩ : Exception)
  Program.ofExcept (throwIf (maxWord.toNat < nextBytes)
    (thrown "durable write size exceeds host limits"))
  let next := UInt64.ofNat nextBytes
  Program.ofExcept (throwIf
    (config.maxStorageBytes < next || config.maxStorageBytes - next < usage.bytes)
    (thrown "durable write would exceed max_storage_bytes"))
  Program.ofExcept (throwIf (config.maxStorageFiles ≤ usage.files)
    (thrown "durable write would exceed max_storage_files"))
  let available : UInt64 ← callOr .space (filesystemError .preflightWrite)
  let required := next + config.minFreeSpaceBytes
  Program.ofExcept (throwIf (required < config.minFreeSpaceBytes || available < required)
    (thrown "durable write would violate min_free_space_bytes"))

/-! ## Writing -/

/-- `DurableWriteContext`: what is written, and the context of its failure hooks. -/
inductive WriteContext where
  | metadata
  | blockResult (context : FailureContext)
  | manifest (context : FailureContext)
  deriving DecidableEq, Repr

/-- `hit_write_failure`.  Without failure injection a hook returns at once; it
still is a point at which the process can die. -/
def hitWriteFailure (context : WriteContext) (resultPoint manifestPoint : FailurePoint) :
    Prog Unit :=
  match context with
  | .metadata => pure ()
  | .blockResult failure => callIgnored (.hit resultPoint failure)
  | .manifest failure => callIgnored (.hit manifestPoint failure)

/-- `write_all`; every iteration writes at least one byte. -/
def writeAll (text : String) (path : Path) : ℕ → Bytes → Prog Unit
  | _, [] => pure ()
  | 0, _ :: _ => pure ()
  | fuel + 1, byte :: rest => do
    let written : ℕ ← callOr (.write path (byte :: rest))
      (systemError .writeAll "cannot write durable temporary file" text)
    if written = 0 then
      throw ⟨.runtimeError, .writeAll, "zero-length durable write: " ++ text⟩
    else writeAll text path fuel ((byte :: rest).drop written)

/-- The part of `atomic_write` during which the descriptor is open. -/
def writeTemporary (config : RunStoreConfig) (temporary : Path) (bytes : Bytes)
    (context : WriteContext) : Prog Unit := do
  let text := temporary.text config.runDirectory
  writeAll text temporary bytes.length bytes
  hitWriteFailure context .resultBeforeFileFsync .manifestBeforeFileFsync
  let _ ← callOr (.fsync temporary)
    (systemError .atomicWrite "cannot fsync durable temporary file" text)
  hitWriteFailure context .resultAfterFileFsync .manifestAfterFileFsync

/-- The part of `atomic_write` from closing the descriptor on. -/
def installTemporary (config : RunStoreConfig) (temporary finalPath : Path)
    (context : WriteContext) : Prog Unit := do
  let _ ← callOr (.close temporary) (systemError .atomicWrite
    "cannot close durable temporary file" (temporary.text config.runDirectory))
  hitWriteFailure context .resultBeforeRename .manifestBeforeRename
  let _ ← callOr (.rename temporary finalPath) (systemError .atomicWrite
    "cannot atomically install durable file" (finalPath.text config.runDirectory))
  hitWriteFailure context .resultAfterRename .manifestAfterRename
  syncDirectory config finalPath.dir
  if finalPath.dir ≠ temporary.dir then syncDirectory config temporary.dir else pure ()

/-- The part of `atomic_write` after the final path was found free. -/
def writeNewFile (config : RunStoreConfig) (finalPath : Path) (bytes : Bytes)
    (usage : StorageUsage) (context : WriteContext) : Prog StorageUsage := do
  preflightWrite config usage bytes.length
  let pid : ℕ ← callOr .getpid (filesystemError .atomicWrite)
  let nonce : ℕ ← callOr .fetchNonce (filesystemError .atomicWrite)
  let temporary : Path := ⟨.tmp, temporaryName finalPath.name pid nonce⟩
  let _ ← callOr (.create temporary) (systemError .atomicWrite
    "cannot create durable temporary file" (temporary.text config.runDirectory))
  tryCatch (writeTemporary config temporary bytes context) fun e => do
    callIgnored (.close temporary)
    callIgnored (.remove temporary)
    throw e
  tryCatch (installTemporary config temporary finalPath context) fun e => do
    callIgnored (.remove temporary)
    throw e
  pure ⟨usage.bytes + UInt64.ofNat bytes.length, usage.files + 1⟩

/-- `atomic_write`; returns the updated storage counters. -/
def atomicWrite (config : RunStoreConfig) (finalPath : Path) (bytes : Bytes)
    (usage : StorageUsage) (context : WriteContext) : Prog StorageUsage := do
  let present : Bool ← callOr (.exists_ finalPath) (filesystemError .atomicWrite)
  if present then do
    let existing ← readFile config finalPath (UInt64.ofNat bytes.length + 1)
    if existing = bytes then pure usage
    else throw ⟨.runtimeError, .atomicWriteImmutable,
      "immutable durable file already exists with different bytes: "
        ++ finalPath.text config.runDirectory⟩
  else writeNewFile config finalPath bytes usage context

end MonteCarlo
