import MonteCarlo.Hash
import MonteCarlo.Library.Program
import MonteCarlo.Store.FileNames

/-!
# The file system under the store

Every system call and `std::filesystem` call that `run_store.cpp` makes is one
operation of the signature `Op`; its reply is an answer or an error number.
An `Environment` fixes what the operating system is free to choose: which calls
fail and how, the order of directory listings, how much of a buffer one `write`
accepts, and the free space.  All of it may depend on the time of the call, so
quantifying over environments quantifies over every pattern of errors.

`Environment.handle` interprets the operations over a `World`.  A call that
reports an error changes nothing but the time.

The three subdirectories are not regular files; every scan of the source skips
them, so listings leave them out.
-/

namespace MonteCarlo

open Effects

/-- What a directory entry is: a regular file with its contents, or anything
else (a directory, a socket). -/
inductive Node where
  | regular (bytes : Bytes)
  | special
  deriving DecidableEq, Repr

/-- The files of a run directory. -/
abbrev Disk : Type := AList (fun _ : Path => Node)

/-- The error numbers the source tells apart, and others. -/
inductive Errno where
  | noEntry
  | entryExists
  | accessDenied
  | tooManyFiles
  | deviceError
  | wouldBlock
  | notRegular
  deriving DecidableEq, Repr

/-- `std::strerror`, `std::error_code::message`. -/
def Errno.message : Errno → String
  | noEntry => "No such file or directory"
  | entryExists => "File exists"
  | accessDenied => "Permission denied"
  | tooManyFiles => "Too many open files"
  | deviceError => "Input/output error"
  | wouldBlock => "Resource temporarily unavailable"
  | notRegular => "Is a directory"

/-- `FailurePoint`. -/
inductive FailurePoint where
  | resultBeforeFileFsync
  | resultAfterFileFsync
  | resultBeforeRename
  | resultAfterRename
  | manifestBeforeFileFsync
  | manifestAfterFileFsync
  | manifestBeforeRename
  | manifestAfterRename
  | manifestAfterInstallBeforeMemory
  deriving DecidableEq, Repr

/-- `kNoFailureContext`. -/
def kNoFailureContext : UInt64 := UInt64.ofNat (2 ^ 64 - 1)

/-- `FailureContext`. -/
structure FailureContext where
  runIncarnation : UInt64
  blockId : UInt64
  checkpointSequence : UInt64
  deriving DecidableEq, Repr

/-- The directory scans of the store. -/
inductive ScanSite where
  /-- `remove_stale_temporary_files`. -/
  | temporary
  /-- `storage_usage`, recursive from the run directory. -/
  | usage
  /-- `has_existing_run_payload`, recursive from the run directory. -/
  | payload
  /-- `load_latest_valid_manifest`. -/
  | manifests
  /-- `remove_orphan_block_results`. -/
  | blockResults
  deriving DecidableEq, Repr

/-- Whether a scan lists a path. -/
def ScanSite.lists : ScanSite → Path → Bool
  | temporary, path => path.dir = .tmp
  | usage, _ => true
  | payload, _ => true
  | manifests, path => path.dir = .manifests
  | blockResults, path => path.dir = .blockResults

/-- The operations.  A file descriptor is named by the path it was opened on. -/
inductive Op where
  | createDirectories (dir : Dir)
  | isDirectory
  | openLock
  | flock
  | stat (dir : Dir)
  | openScan (site : ScanSite)
  | nextEntry (site : ScanSite)
  | isRegularFile (path : Path)
  | entryFileSize (path : Path)
  | remove (path : Path)
  | exists_ (path : Path)
  | fileSize (path : Path)
  | openRead (path : Path)
  | read (path : Path)
  | space
  | getpid
  | fetchNonce
  | create (path : Path)
  /-- `::write`, repeated as long as it is interrupted. -/
  | write (path : Path) (bytes : Bytes)
  | fsync (path : Path)
  | close (path : Path)
  | rename (source destination : Path)
  | openDirectory (dir : Dir)
  | fsyncDirectory (dir : Dir)
  | closeDirectory (dir : Dir)
  /-- `FailureInjector::hit`. -/
  | hit (point : FailurePoint) (context : FailureContext)
  deriving DecidableEq

/-- The answer of an operation that succeeds. -/
abbrev Answer : Op → Type
  | .isDirectory => Bool
  | .stat _ => ℕ
  | .openScan _ => List Path
  | .isRegularFile _ => Bool
  | .entryFileSize _ => ℕ
  | .remove _ => Bool
  | .exists_ _ => Bool
  | .fileSize _ => ℕ
  | .read _ => Bytes
  | .space => UInt64
  | .getpid => ℕ
  | .fetchNonce => ℕ
  | .write _ _ => ℕ
  | _ => Unit

/-- A reply is an answer or an error number. -/
abbrev Reply (op : Op) : Type := Except Errno (Answer op)

/-- Code of the store. -/
abbrev Prog (α : Type) : Type := Program Op Reply Exception α

/-- The choices of the operating system. -/
structure Environment where
  /-- The error that a call at this time reports, if any. -/
  ioError : ℕ → Op → Option Errno
  /-- The order in which a directory is listed. -/
  order : ℕ → (paths : List Path) → { listing : List Path // listing.Perm paths }
  /-- The number of bytes a `write` accepts at most. -/
  writeCount : ℕ → ℕ
  /-- `std::filesystem::space(..).available`. -/
  available : ℕ → UInt64
  /-- `st_dev`. -/
  device : Dir → ℕ
  processId : ℕ

/-- The state of the machine: the files, the number of calls made so far, and the
static nonce of `atomic_write`. -/
structure World where
  disk : Disk
  clock : ℕ
  nonce : ℕ

/-- The contents of a regular file. -/
def Disk.file (disk : Disk) (path : Path) : Option Bytes :=
  match disk.lookup path with
  | some (.regular bytes) => some bytes
  | _ => none

/-- The entries a scan finds. -/
def Disk.entries (disk : Disk) (site : ScanSite) : List Path := disk.keys.filter site.lists

/-- The size of an entry, or why there is none. -/
def Disk.size (disk : Disk) (path : Path) : Except Errno ℕ :=
  match disk.lookup path with
  | none => .error .noEntry
  | some .special => .error .notRegular
  | some (.regular bytes) => .ok bytes.length

/-- What an operation answers when the environment lets it succeed. -/
def Environment.answer (env : Environment) (world : World) : (op : Op) → Reply op
  | .isDirectory => .ok true
  | .stat dir => .ok (env.device dir)
  | .openScan site => .ok (env.order world.clock (world.disk.entries site)).val
  | .isRegularFile path => .ok (world.disk.file path).isSome
  | .entryFileSize path => world.disk.size path
  | .remove path => .ok (world.disk.lookup path).isSome
  | .exists_ path => .ok (world.disk.lookup path).isSome
  | .fileSize path => world.disk.size path
  | .openRead path => if (world.disk.lookup path).isSome then .ok () else .error .noEntry
  | .read path =>
    match world.disk.lookup path with
    | none => .error .noEntry
    | some .special => .error .notRegular
    | some (.regular bytes) => .ok bytes
  | .space => .ok (env.available world.clock)
  | .getpid => .ok env.processId
  | .fetchNonce => .ok world.nonce
  | .create path => if (world.disk.lookup path).isSome then .error .entryExists else .ok ()
  | .write _ bytes => .ok (min bytes.length (env.writeCount world.clock) : ℕ)
  | .rename source _ => if (world.disk.lookup source).isSome then .ok () else .error .noEntry
  | .createDirectories _ => .ok ()
  | .openLock => .ok ()
  | .flock => .ok ()
  | .nextEntry _ => .ok ()
  | .fsync _ => .ok ()
  | .close _ => .ok ()
  | .openDirectory _ => .ok ()
  | .fsyncDirectory _ => .ok ()
  | .closeDirectory _ => .ok ()
  | .hit _ _ => .ok ()

/-- What an operation that succeeds leaves on disk. -/
def Environment.effect (env : Environment) (world : World) : Op → Disk
  | .openLock =>
    if (world.disk.lookup lockPath).isSome then world.disk
    else world.disk.insert lockPath (.regular [])
  | .remove path => world.disk.erase path
  | .create path =>
    if (world.disk.lookup path).isSome then world.disk else world.disk.insert path (.regular [])
  | .write path bytes =>
    match world.disk.lookup path with
    | some (.regular written) =>
      world.disk.insert path (.regular (written ++ bytes.take (env.writeCount world.clock)))
    | _ => world.disk
  | .rename source destination =>
    match world.disk.lookup source with
    | some node => (world.disk.erase source).insert destination node
    | none => world.disk
  | _ => world.disk

/-- The nonce after an operation. -/
def Op.nonceAfter (nonce : ℕ) : Op → ℕ
  | .fetchNonce => nonce + 1
  | _ => nonce

/-- The interpretation of the operations. -/
def Environment.handle (env : Environment) : Handler Op Reply World := fun op world =>
  match env.ioError world.clock op with
  | some e => (.error e, { world with clock := world.clock + 1 })
  | none => (env.answer world op,
      { disk := env.effect world op
        clock := world.clock + 1
        nonce := op.nonceAfter world.nonce })

/-! ## What operations change -/

/-- The paths an operation can change. -/
def Op.touches : Op → Path → Prop
  | .openLock, path => path = lockPath
  | .remove p, path => path = p
  | .create p, path => path = p
  | .write p _, path => path = p
  | .rename source destination, path => path = source ∨ path = destination
  | _, _ => False

/-- Every other path keeps its contents. -/
theorem Environment.lookup_effect (env : Environment) (world : World) {op : Op} {path : Path}
    (h : ¬ op.touches path) : (env.effect world op).lookup path = world.disk.lookup path := by
  cases op with
  | openLock =>
    simp only [effect]
    split
    · rfl
    · exact AList.lookup_insert_ne h
  | remove p => exact AList.lookup_erase_ne h
  | create p =>
    simp only [effect]
    split
    · rfl
    · exact AList.lookup_insert_ne h
  | write p bytes =>
    simp only [effect]
    split
    · exact AList.lookup_insert_ne h
    · rfl
  | rename source destination =>
    simp only [Op.touches, not_or] at h
    simp only [effect]
    split
    · rw [AList.lookup_insert_ne h.2, AList.lookup_erase_ne h.1]
    · rfl
  | _ => rfl

theorem Environment.lookup_handle (env : Environment) (world : World) {op : Op} {path : Path}
    (h : ¬ op.touches path) :
    (env.handle op world).2.disk.lookup path = world.disk.lookup path := by
  unfold handle
  split
  · rfl
  · exact env.lookup_effect world h

@[simp] theorem Environment.clock_handle (env : Environment) (world : World) (op : Op) :
    (env.handle op world).2.clock = world.clock + 1 := by
  unfold handle
  split <;> rfl

end MonteCarlo
