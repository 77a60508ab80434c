import MonteCarlo.Library.Lockstep
import MonteCarlo.Store.RunStore
import MonteCarlo.Store.Tracing

/-!
# The store on two machines

Two machines on which no call fails can still differ: in process identifiers and nonces, in the
order of directory listings, in how much a `write` accepts, in the free space, in the times at which
calls are made.  From equal files the store does the same on both, and passes the same failure
points, as long as no preflight can tell their free space apart.

* `Environment.Comparable` — what the two machines share.
* `Alike` — equal files and equal traces.
* `Agrees` — a program that does the same on both and leaves them alike.
* `agrees_openStore`, `agrees_recordResult`, `agrees_checkpoint` — the operations of the store.
-/

namespace MonteCarlo

open Effects Effects.Program

/-- The most that a preflight can ask for. -/
def RunStoreConfig.spaceLimit (config : RunStoreConfig) : ℕ :=
  config.maxStorageBytes.toNat + config.minFreeSpaceBytes.toNat

/-- Two machines on which no call fails.  Up to `limit` they have, or both lack, what is asked
for. -/
structure Environment.Comparable (env env' : Environment) (limit : ℕ) : Prop where
  first : env.Faultless
  second : env'.Faultless
  device : env.device = env'.device
  space : ∀ (time time' : ℕ) (required : UInt64), required.toNat ≤ limit →
    (env.available time < required ↔ env'.available time' < required)

/-- No entry of this kind in the temporary directory has the name of a temporary file. -/
def Disk.Clear (disk : Disk) (kind : Node → Prop) : Prop :=
  ∀ path node, disk.lookup path = some node → kind node → path.dir = .tmp →
    isStaleTemporary path.name = false

/-- Entries that `remove_stale_temporary_files` leaves alone whatever their name. -/
def Node.Special (node : Node) : Prop := node = .special

/-- Any entry. -/
def Node.Any (_ : Node) : Prop := True

/-- Equal files, equal traces, and temporary files that are in nobody's way or in the way of both
machines. -/
structure Alike (env env' : Environment) (kind : Node → Prop) (s t : World × Trace) : Prop where
  disk : s.1.disk = t.1.disk
  trace : s.2 = t.2
  names : (env.processId = env'.processId ∧ s.1.nonce = t.1.nonce) ∨ s.1.disk.Clear kind

/-- Equal traces. -/
def SameTrace (s t : World × Trace) : Prop := s.2 = t.2

/-- A program that does the same on both machines. -/
def Agrees {α : Type} (env env' : Environment) (kind kind' : Node → Prop) (p : Prog α) : Prop :=
  ∀ s t, Alike env env' kind s t →
    Matches (Alike env env' kind') SameTrace Eq (run env.traced p s) (run env'.traced p t)

section Rules

variable {env env' : Environment} {kind kind' kind'' : Node → Prop} {α β : Type} {limit : ℕ}

theorem agrees_pure (a : α) : Agrees env env' kind kind (pure a) :=
  fun _ _ h => matches_pure rfl h

theorem agrees_throw (e : Exception) : Agrees env env' kind kind' (throw e : Prog α) :=
  fun _ _ h => matches_throw h.trace

theorem agrees_ofExcept (x : Result α) : Agrees env env' kind kind (Program.ofExcept x) :=
  fun _ _ h => matches_ofExcept x h h.trace

theorem Agrees.bind {p : Prog α} {f : α → Prog β} (hp : Agrees env env' kind kind' p)
    (hf : ∀ a, Agrees env env' kind' kind'' (f a)) : Agrees env env' kind kind'' (p >>= f) := by
  intro s t h
  refine (hp s t h).bind fun a b s t hab hst => ?_
  obtain rfl : a = b := hab
  exact hf a s t hst

/-- Sequencing with what the first program returns. -/
theorem Agrees.bind_returns {p : Prog α} {f : α → Prog β} {P : α → Prop}
    (hp : Agrees env env' kind kind' p) (hr : Returns P p)
    (hf : ∀ a, P a → Agrees env env' kind' kind'' (f a)) :
    Agrees env env' kind kind'' (p >>= f) := by
  intro s t h
  rw [run_bind, run_bind]
  have hmatches := hp s t h
  rcases hrun : run env.traced p s with ⟨e | a, s'⟩
  · rw [hrun] at hmatches
    generalize run env'.traced p t = other at hmatches
    cases hmatches with
    | throws hstate => exact .throws hstate
  · rw [hrun] at hmatches
    generalize run env'.traced p t = other at hmatches
    cases hmatches with
    | returns hvalue hstate =>
      subst hvalue
      exact hf a (hr.run hrun) _ _ hstate

/-! ## What temporary files can be in the way of -/

theorem Disk.Clear.insert {disk : Disk} {path : Path} {node : Node} (h : disk.Clear kind)
    (hpath : path.dir ≠ .tmp) : Disk.Clear (disk.insert path node) kind := by
  intro other found hlookup hkind htmp
  have hne : other ≠ path := fun he => hpath (he ▸ htmp)
  rw [AList.lookup_insert_ne hne] at hlookup
  exact h other found hlookup hkind htmp

theorem Disk.Clear.eraseAll {disk : Disk} (h : disk.Clear kind) (paths : List Path) :
    Disk.Clear (disk.eraseAll paths) kind := by
  intro other found hlookup
  rw [Disk.lookup_eraseAll] at hlookup
  split at hlookup
  · cases hlookup
  · exact h other found hlookup

/-- What remains after stale temporary files have been removed is nothing the program can have
made. -/
theorem Disk.Clear.purge {disk : Disk} (h : disk.Clear Node.Special) :
    Disk.Clear (disk.purge .temporary staleTemporary) Node.Any := by
  intro path node hlookup _ htmp
  unfold Disk.purge at hlookup
  rw [Disk.lookup_eraseAll] at hlookup
  split at hlookup
  · cases hlookup
  · rename_i hkept
    cases node with
    | special => exact h path .special hlookup rfl htmp
    | regular bytes =>
      by_contra hstale
      apply hkept
      have hfile : disk.file path = some bytes := by
        unfold Disk.file
        rw [hlookup]
      rw [List.mem_filter, Disk.mem_entries]
      refine ⟨⟨?_, decide_eq_true htmp⟩, ?_⟩
      · rw [hlookup]
        rfl
      · unfold Disk.dooms staleTemporary
        rw [hfile, Bool.not_eq_false _ |>.mp hstale]
        rfl

/-- The name that `atomic_write` makes up is that of a temporary file. -/
theorem isStaleTemporary_temporaryName {name : FileName} (hname : binSuffix <:+ name)
    (pid nonce : ℕ) : isStaleTemporary (temporaryName name pid nonce) = true := by
  obtain ⟨stem, rfl⟩ := hname
  unfold isStaleTemporary
  rw [Bool.or_eq_true]
  left
  refine decide_eq_true ⟨stem, (toString pid).toList ++ ".".toList ++ (toString nonce).toList, ?_⟩
  unfold temporaryName
  rw [show ".bin.tmp.".toList = binSuffix ++ ".tmp.".toList from by decide]
  simp only [List.append_assoc]

/-! ## Programs without scans and writes -/

/-- The operations that get the same replies from equal files. -/
def Op.Plain : Op → Prop
  | .openScan _ | .remove _ | .space | .getpid | .fetchNonce | .create _ | .write _ _
  | .rename _ _ => False
  | _ => True

theorem Op.Reads.plain {op : Op} (h : op.Reads) : op.Plain := by
  cases op with
  | isRegularFile _ | entryFileSize _ | exists_ _ | fileSize _ | openRead _ | read _ => trivial
  | _ => exact h.elim

theorem Environment.Comparable.step (henv : env.Comparable env' limit) {op : Op} (hop : op.Plain)
    {s t : World × Trace} (h : Alike env env' kind s t) :
    (env.traced op s).1 = (env'.traced op t).1 ∧
      Alike env env' kind (env.traced op s).2 (env'.traced op t).2 := by
  obtain ⟨world, past⟩ := s
  obtain ⟨world', past'⟩ := t
  obtain ⟨hdisk, rfl, hnames⟩ := h
  change world.disk = world'.disk at hdisk
  change (_ ∧ world.nonce = world'.nonce) ∨ world.disk.Clear kind at hnames
  rw [henv.first.traced, henv.second.traced]
  cases op with
  | openScan _ | remove _ | space | getpid | fetchNonce | create _ | write _ _ | rename _ _ =>
    exact hop.elim
  | openLock =>
    refine ⟨rfl, ⟨?_, rfl, hnames.imp id fun hclear => ?_⟩⟩
    · simp only [Environment.after, Environment.effect, hdisk]
    · change Disk.Clear (if (world.disk.lookup lockPath).isSome then world.disk
        else world.disk.insert lockPath (.regular [])) kind
      split
      · exact hclear
      · exact hclear.insert (by decide)
  | stat dir =>
    refine ⟨?_, ⟨hdisk, rfl, hnames⟩⟩
    simp only [Environment.answer, henv.device]
  | isRegularFile path | entryFileSize path | exists_ path | fileSize path | openRead path
  | read path =>
    refine ⟨?_, ⟨hdisk, rfl, hnames⟩⟩
    simp only [Environment.answer, hdisk]
  | _ => exact ⟨rfl, ⟨hdisk, rfl, hnames⟩⟩

theorem agrees_plain (henv : env.Comparable env' limit) {p : Prog α} (hp : Only Op.Plain p) :
    Agrees env env' kind kind p := by
  intro s t h
  obtain ⟨houtcome, hstate⟩ := hp.lockstep (fun _ _ _ hop h => henv.step hop h) h
  exact matches_of_eq houtcome hstate hstate.trace

theorem agrees_callOr (henv : env.Comparable env' limit) {op : Op} (hop : op.Plain)
    (error : Errno → Exception) : Agrees env env' kind kind (callOr op error) :=
  agrees_plain henv (only_callOr hop error)

/-! ## Programs that are functions of the files -/

/-- A program that settles on both machines. -/
theorem agrees_of_settles (henv : env.Comparable env' limit) {p : Prog α} {value : Disk → α}
    {after : Disk → Disk} (hafter : ∀ disk : Disk, disk.Clear kind → (after disk).Clear kind')
    (hp : ∀ {env : Environment} {disk : Disk} {nonce : ℕ} {trace : Trace} {state : World × Trace},
      env.Faultless → Stands disk nonce trace state →
        Settles env p state (value disk) (after disk) nonce trace) :
    Agrees env env' kind kind' p := by
  intro s t h
  obtain ⟨final, hrun, hd, hn, ht⟩ := hp henv.first ⟨rfl, rfl, rfl⟩
  obtain ⟨final', hrun', hd', hn', ht'⟩ := hp henv.second
    (show Stands s.1.disk t.1.nonce s.2 t from ⟨h.disk.symm, rfl, h.trace.symm⟩)
  rw [hrun, hrun']
  refine .returns rfl ⟨hd.trans hd'.symm, ht.trans ht'.symm, ?_⟩
  rw [hd, hn, hn']
  exact h.names.imp id (hafter _)

theorem agrees_removeStaleTemporaryFiles (henv : env.Comparable env' limit) (config : RunStoreConfig) :
    Agrees env env' Node.Special Node.Any (removeStaleTemporaryFiles config) :=
  agrees_of_settles henv (fun _ h => h.purge) fun hf hstands =>
    settles_removeStaleTemporaryFiles hf config hstands

theorem agrees_removeOrphanBlockResults (henv : env.Comparable env' limit) (config : RunStoreConfig)
    (committedResults : List (Option BlockResult)) :
    Agrees env env' kind kind (removeOrphanBlockResults config committedResults) :=
  agrees_of_settles henv (fun _ h => h.eraseAll _) fun hf hstands =>
    settles_removeOrphanBlockResults hf config committedResults hstands

theorem agrees_hasExistingRunPayload (henv : env.Comparable env' limit) (config : RunStoreConfig) :
    Agrees env env' kind kind (hasExistingRunPayload config) :=
  agrees_of_settles henv (fun _ h => h) fun hf hstands =>
    settles_hasExistingRunPayload hf config hstands

/-- A program that throws on both machines. -/
theorem matches_errors {p : Prog α} {s t : World × Trace} {e e' : Exception}
    {final final' : World × Trace} (hp : run env.traced p s = (.error e, final))
    (hq : run env'.traced p t = (.error e', final')) (htrace : final.2 = final'.2) :
    Matches (Alike env env' kind) SameTrace Eq (run env.traced p s) (run env'.traced p t) := by
  rw [hp, hq]
  exact .throws htrace

theorem toNat_le_maxWord (x : UInt64) : x.toNat ≤ maxWord.toNat := by
  have hlt := x.toNat_lt
  have hword : maxWord.toNat = 2 ^ 64 - 1 := by decide
  omega

/-- `storage_usage` throws when the sums cannot be represented. -/
theorem run_storageUsage_error {disk : Disk} {nonce : ℕ} {trace : Trace} {state : World × Trace}
    (hf : env.Faultless) (hlarge : ¬ (disk.bytes ≤ maxWord.toNat ∧ disk.files ≤ maxWord.toNat))
    (hstands : Stands disk nonce trace state) :
    ∃ e final, run env.traced storageUsage state = (.error e, final) ∧ final.2 = trace := by
  obtain ⟨world, past⟩ := state
  obtain ⟨rfl, rfl, rfl⟩ := hstands
  rw [run_silent (only_storageUsage trivial trivial (fun _ => trivial) fun _ => trivial)]
  rcases hrun : run env.handle storageUsage world with ⟨e | usage, after⟩
  · exact ⟨e, _, rfl, rfl⟩
  · obtain ⟨hbytes, hfiles, -⟩ := storageUsage_eq_ok (fun _ => hf.ioError _ _) hrun
    refine absurd ⟨?_, ?_⟩ hlarge
    · change world.disk.bytes ≤ _
      rw [← hbytes]
      exact toNat_le_maxWord _
    · change world.disk.files ≤ _
      rw [← hfiles]
      exact toNat_le_maxWord _

theorem agrees_storageUsage (henv : env.Comparable env' limit) :
    Agrees env env' kind kind storageUsage := by
  intro s t h
  have hs : Stands s.1.disk s.1.nonce s.2 s := ⟨rfl, rfl, rfl⟩
  have ht : Stands s.1.disk t.1.nonce s.2 t := ⟨h.disk.symm, rfl, h.trace.symm⟩
  by_cases hfits : s.1.disk.bytes ≤ maxWord.toNat ∧ s.1.disk.files ≤ maxWord.toNat
  · obtain ⟨final, hrun, hd, hn, htrace⟩ :=
      settles_storageUsage henv.first hfits.1 hfits.2 hs
    obtain ⟨final', hrun', hd', hn', htrace'⟩ :=
      settles_storageUsage henv.second hfits.1 hfits.2 ht
    rw [hrun, hrun']
    refine .returns rfl ⟨hd.trans hd'.symm, htrace.trans htrace'.symm, ?_⟩
    rw [hd, hn, hn']
    exact h.names
  · obtain ⟨e, final, hrun, htrace⟩ := run_storageUsage_error henv.first hfits hs
    obtain ⟨e', final', hrun', htrace'⟩ := run_storageUsage_error henv.second hfits ht
    exact matches_errors hrun hrun' (htrace.trans htrace'.symm)

theorem agrees_loadLatestValidManifest (henv : env.Comparable env' limit) (engineConfig : EngineConfig)
    (config : RunStoreConfig) (metadata : RunMetadata) :
    Agrees env env' kind kind (loadLatestValidManifest engineConfig config metadata) := by
  intro s t h
  obtain ⟨houtcome, hd, hn, ht⟩ := run_load henv.first engineConfig config metadata
    (show Stands s.1.disk s.1.nonce s.2 s from ⟨rfl, rfl, rfl⟩)
  obtain ⟨houtcome', hd', hn', ht'⟩ := run_load henv.second engineConfig config metadata
    (show Stands s.1.disk t.1.nonce s.2 t from ⟨h.disk.symm, rfl, h.trace.symm⟩)
  refine matches_of_eq (houtcome.trans houtcome'.symm)
    ⟨hd.trans hd'.symm, ht.trans ht'.symm, ?_⟩ (ht.trans ht'.symm)
  rw [hd, hn, hn']
  exact h.names

/-! ## Writing -/

/-- A path at which `atomic_write` installs files. -/
structure Path.Installable (path : Path) : Prop where
  dir : path.dir ≠ .tmp
  name : binSuffix <:+ path.name

theorem installable_metadataPath : metadataPath.Installable :=
  ⟨by decide, by decide⟩

theorem installable_manifestPathFor (sequence : UInt64) :
    (manifestPathFor sequence).Installable := by
  refine ⟨by simp [manifestPathFor], ?_⟩
  exact ⟨manifestStem ++ paddedNumber sequence, List.append_assoc _ _ _⟩

theorem installable_blockPathFor (block : ScenarioBlock) : (blockPathFor block).Installable := by
  refine ⟨by simp [blockPathFor], ?_⟩
  refine ⟨blockStem ++ (paddedNumber block.blockId ++ (incarnationSeparator
    ++ (paddedNumber block.runIncarnation ++ (epochSeparator ++ paddedNumber block.leaseEpoch)))), ?_⟩
  simp only [blockPathFor, blockName, List.append_assoc]

section Writing

variable {config : RunStoreConfig} {finalPath : Path} {bytes : Bytes} {usage : StorageUsage}
  {context : WriteContext}

/-- A question about the free space that has the same answer on both machines. -/
theorem agrees_space (henv : env.Comparable env' limit) (error : Errno → Exception)
    (check : UInt64 → Result Unit)
    (hcheck : ∀ time time', check (env.available time) = check (env'.available time')) :
    Agrees env env' kind kind (do
      let available : UInt64 ← callOr .space error
      Program.ofExcept (check available)) := by
  intro s t h
  have hrun : run env.traced (do
      let available : UInt64 ← callOr .space error
      Program.ofExcept (check available)) s = _ :=
    run_bind_ok (run_callOr henv.first rfl) _
  have hrun' : run env'.traced (do
      let available : UInt64 ← callOr .space error
      Program.ofExcept (check available)) t = _ :=
    run_bind_ok (run_callOr henv.second rfl) _
  rw [hrun, hrun', run_ofExcept, run_ofExcept, hcheck s.1.clock t.1.clock]
  cases check (env'.available t.1.clock) with
  | error e => exact .throws h.trace
  | ok _ => exact .returns rfl ⟨h.disk, h.trace, h.names⟩

theorem agrees_preflightWrite (henv : env.Comparable env' limit)
    (hlimit : config.spaceLimit ≤ limit) (nextBytes : ℕ) :
    Agrees env env' kind kind (preflightWrite config usage nextBytes) := by
  refine (agrees_ofExcept _).bind fun _ => ?_
  refine Agrees.bind_returns (agrees_ofExcept _) (returns_ofExcept fun _ h => h) fun _ hbytes => ?_
  refine (agrees_ofExcept _).bind fun _ => ?_
  simp only [throwIf_eq_ok, Bool.or_eq_false_iff, decide_eq_false_iff_not, UInt64.not_lt] at hbytes
  refine agrees_space henv _ _ fun time time' => ?_
  by_cases hwrap : UInt64.ofNat nextBytes + config.minFreeSpaceBytes < config.minFreeSpaceBytes
  · rw [decide_eq_true hwrap, Bool.true_or, Bool.true_or]
  · have hle := UInt64.le_iff_toNat_le.mp hbytes.1
    have hsum : (UInt64.ofNat nextBytes + config.minFreeSpaceBytes).toNat ≤ limit := by
      rw [UInt64.toNat_add]
      have hmod := Nat.mod_le ((UInt64.ofNat nextBytes).toNat + config.minFreeSpaceBytes.toNat)
        (2 ^ 64)
      unfold RunStoreConfig.spaceLimit at hlimit
      omega
    rw [decide_eq_decide.mpr (henv.space time time' _ hsum)]

theorem completionBytes_le {plan : CompletionPlan} {bytes : UInt64}
    (h : completionBytes config usage plan = .ok bytes) :
    bytes.toNat ≤ config.maxStorageBytes.toNat := by
  simp only [completionBytes, Result.bind_eq_ok, throwIf_eq_ok, exists_const,
    Bool.or_eq_false_iff, decide_eq_false_iff_not, UInt64.not_lt] at h
  obtain ⟨-, -, -, -, -, -, -, -, -, found, -, -, -, -, -, ⟨hle, hbytes⟩, -, hfound⟩ := h
  obtain rfl := Except.ok.inj hfound
  have hsub := UInt64.le_iff_toNat_le.mp hbytes
  rw [UInt64.toNat_sub_of_le _ _ hle] at hsub
  omega

theorem agrees_preflightRunCompletion (henv : env.Comparable env' limit)
    (hlimit : config.spaceLimit ≤ limit) (plan : CompletionPlan) :
    Agrees env env' kind kind (preflightRunCompletion config usage plan) := by
  refine Agrees.bind_returns (agrees_ofExcept _) (returns_ofExcept fun _ h => h) fun bytes hbytes => ?_
  have hle := completionBytes_le hbytes
  cases hrequired : checkedAdd bytes config.minFreeSpaceBytes "durable completion free-space" with
  | error e => exact agrees_space henv _ (fun _ => .error e) fun _ _ => rfl
  | ok required =>
    have hsum := checkedAdd_toNat hrequired
    unfold RunStoreConfig.spaceLimit at hlimit
    refine agrees_space henv _ _ fun time time' => ?_
    rw [decide_eq_decide.mpr (henv.space time time' required (by omega))]

/-- The temporary files of both machines are in the way, or neither is. -/
theorem Alike.temporary {s t : World × Trace} (h : Alike env env' Node.Any s t)
    (hpath : finalPath.Installable) :
    (s.1.disk.lookup (env.temporary finalPath s.1.nonce)).isSome =
      (s.1.disk.lookup (env'.temporary finalPath t.1.nonce)).isSome := by
  rcases h.names with ⟨hpid, hnonce⟩ | hclear
  · unfold Environment.temporary
    rw [hpid, hnonce]
  · have hfree : ∀ (env : Environment) (nonce : ℕ),
        s.1.disk.lookup (env.temporary finalPath nonce) = none := by
      intro env nonce
      by_contra hpresent
      obtain ⟨node, hnode⟩ := Option.ne_none_iff_exists'.mp hpresent
      have hstale := hclear _ node hnode trivial rfl
      rw [Environment.temporary, isStaleTemporary_temporaryName hpath.name] at hstale
      cases hstale
    rw [hfree env, hfree env']

theorem agrees_writeFresh (henv : env.Comparable env' limit) (hpath : finalPath.Installable) :
    Agrees env env' Node.Any Node.Any (writeFresh config finalPath bytes usage context) := by
  intro s t h
  have hs : Stands s.1.disk s.1.nonce s.2 s := ⟨rfl, rfl, rfl⟩
  have ht : Stands s.1.disk t.1.nonce s.2 t := ⟨h.disk.symm, rfl, h.trace.symm⟩
  have hsame := h.temporary hpath
  cases hpresent : (s.1.disk.lookup (env.temporary finalPath s.1.nonce)).isSome with
  | true =>
    obtain ⟨e, final, hrun, -, -, htrace⟩ := run_writeFresh_error henv.first hs hpresent
    obtain ⟨e', final', hrun', -, -, htrace'⟩ :=
      run_writeFresh_error henv.second ht (hsame ▸ hpresent)
    exact matches_errors hrun hrun' (htrace.trans htrace'.symm)
  | false =>
    obtain ⟨final, hrun, hd, hn, htrace⟩ :=
      settles_writeFresh henv.first hs (Option.isNone_iff_eq_none.mp (by simpa using hpresent))
    obtain ⟨final', hrun', hd', hn', htrace'⟩ := settles_writeFresh henv.second ht
      (Option.isNone_iff_eq_none.mp (by simpa [hsame] using hpresent))
    rw [hrun, hrun']
    refine .returns rfl ⟨hd.trans hd'.symm, htrace.trans htrace'.symm, ?_⟩
    rw [hd, hn, hn']
    exact h.names.imp (And.imp_right (congrArg (· + 1))) fun hclear => hclear.insert hpath.dir

theorem agrees_atomicWrite (henv : env.Comparable env' limit) (hlimit : config.spaceLimit ≤ limit)
    (hpath : finalPath.Installable) :
    Agrees env env' Node.Any Node.Any (atomicWrite config finalPath bytes usage context) := by
  refine Agrees.bind (agrees_callOr henv (by trivial) _) fun present => ?_
  split
  · refine (agrees_plain henv ((only_readFile _ _ _ _).mono fun _ => Op.Reads.plain)).bind
      fun existing => ?_
    split
    · exact agrees_pure _
    · exact agrees_throw _
  · rw [writeNewFile_eq]
    exact (agrees_preflightWrite henv hlimit _).bind fun _ => agrees_writeFresh henv hpath

end Writing

/-! ## The operations of the store -/

theorem agrees_prepareDirectory (henv : env.Comparable env' limit) (config : RunStoreConfig) :
    Agrees env env' Node.Special Node.Any (prepareDirectory config) := by
  refine Agrees.bind (agrees_callOr henv (by trivial) _) fun _ => ?_
  refine Agrees.bind (agrees_callOr henv (by trivial) _) fun isDirectory => ?_
  refine (agrees_ofExcept _).bind fun _ => ?_
  refine Agrees.bind (agrees_callOr henv (by trivial) _) fun _ => ?_
  refine Agrees.bind (agrees_callOr henv (by trivial) _) fun _ => ?_
  refine Agrees.bind (agrees_callOr henv (by trivial) _) fun _ => ?_
  have hlock : Only Op.Plain (acquireLock config) :=
    only_bind (only_callOr trivial _) fun _ => only_bind (only_callOr trivial _) fun _ =>
      only_pure _
  have hsame : ∀ first second, Only Op.Plain (requireSameFilesystem config first second) := by
    intro first second
    refine only_bind (only_callOr trivial _) fun _ => only_bind (only_callOr trivial _) fun _ => ?_
    split
    · exact only_throw _
    · exact only_pure _
  refine (agrees_plain henv hlock).bind fun _ => ?_
  refine (agrees_plain henv (hsame _ _)).bind fun _ => ?_
  refine (agrees_plain henv (hsame _ _)).bind fun _ => ?_
  refine (agrees_removeStaleTemporaryFiles henv config).bind fun _ => ?_
  refine (agrees_storageUsage henv).bind fun usage => ?_
  exact (agrees_ofExcept _).bind fun _ => agrees_pure _

theorem agrees_obtainMetadata (henv : env.Comparable env' limit) {config : RunStoreConfig}
    (hlimit : config.spaceLimit ≤ limit) (expected : RunMetadata) (usage : StorageUsage) :
    Agrees env env' Node.Any Node.Any (obtainMetadata config expected usage) := by
  refine Agrees.bind (agrees_callOr henv (by trivial) _) fun existed => ?_
  split
  · refine (agrees_plain henv ((only_readFile _ _ _ _).mono fun _ => Op.Reads.plain)).bind
      fun bytes => ?_
    refine (agrees_ofExcept _).bind fun metadata => ?_
    exact (agrees_ofExcept _).bind fun _ => agrees_pure _
  · refine (agrees_hasExistingRunPayload henv config).bind fun payload => ?_
    refine (agrees_ofExcept _).bind fun _ => ?_
    refine (agrees_ofExcept _).bind fun bytes => ?_
    refine (agrees_preflightRunCompletion henv hlimit _).bind fun _ => ?_
    exact (agrees_atomicWrite henv hlimit installable_metadataPath).bind fun _ => agrees_pure _

theorem agrees_installManifest (henv : env.Comparable env' limit) {config : RunStoreConfig}
    (hlimit : config.spaceLimit ≤ limit) (manifest : RunManifest) (usage : StorageUsage) :
    Agrees env env' Node.Any Node.Any (installManifest config manifest usage) :=
  (agrees_ofExcept _).bind fun _ => agrees_atomicWrite henv hlimit (installable_manifestPathFor _)

theorem agrees_obtainRecovery (henv : env.Comparable env' limit) {config : RunStoreConfig}
    (hlimit : config.spaceLimit ≤ limit) (metadata : RunMetadata) (metadataExisted : Bool) (load : LoadResult)
    (blocks : List ScenarioBlock) (usage : StorageUsage) :
    Agrees env env' Node.Any Node.Any
      (obtainRecovery config metadata metadataExisted load blocks usage) := by
  unfold obtainRecovery
  split
  · have hinstall : ∀ recovery : DurableRecoveryState, Agrees env env' Node.Any Node.Any (do
        let initial ← Program.ofExcept (makeManifestFromResults metadata 0 1 .running
          (blocks.map fun block => block.leased 1 1) (List.replicate blocks.length none) none)
        let _ ← installManifest config initial usage
        pure recovery) := fun recovery =>
      (agrees_ofExcept _).bind fun initial =>
        (agrees_installManifest henv hlimit initial usage).bind fun _ => agrees_pure _
    unfold startRun
    dsimp only
    split
    · exact (agrees_preflightRunCompletion henv hlimit _).bind fun _ => hinstall _
    · exact hinstall _
  · unfold recoverRun
    dsimp only
    split
    · refine (agrees_ofExcept _).bind fun _ => ?_
      refine (agrees_preflightRunCompletion henv hlimit _).bind fun _ => ?_
      refine (agrees_ofExcept _).bind fun renewed => ?_
      exact (agrees_installManifest henv hlimit _ usage).bind fun _ => agrees_pure _
    · exact agrees_pure _

theorem spaceLimit_resolveCheckpointCadence (config : RunStoreConfig) (count : UInt64) :
    (resolveCheckpointCadence config count).spaceLimit = config.spaceLimit := by
  unfold resolveCheckpointCadence
  split
  · rfl
  · rfl

/-- `open`. -/
theorem agrees_openStore (henv : env.Comparable env' limit) (build : BuildIdentity) (spec : RunSpec)
    (engineConfig : EngineConfig) {storeConfig : RunStoreConfig}
    (hspace : storeConfig.spaceLimit ≤ limit) :
    Agrees env env' Node.Special Node.Any (openStore build spec engineConfig storeConfig) := by
  refine (agrees_ofExcept _).bind fun _ => ?_
  refine (agrees_ofExcept _).bind fun expected => ?_
  have hlimit : (resolveCheckpointCadence storeConfig expected.blockCount).spaceLimit ≤ limit := by
    rw [spaceLimit_resolveCheckpointCadence]
    exact hspace
  refine (agrees_prepareDirectory henv _).bind fun usage => ?_
  refine (agrees_obtainMetadata henv hlimit _ _).bind fun found => ?_
  refine (agrees_loadLatestValidManifest henv _ _ _).bind fun load => ?_
  refine (agrees_ofExcept _).bind fun _ => ?_
  refine (agrees_ofExcept _).bind fun blocks => ?_
  refine (agrees_obtainRecovery henv hlimit _ _ _ _ _).bind fun recovery => ?_
  refine (agrees_removeOrphanBlockResults henv _ _).bind fun _ => ?_
  exact (agrees_storageUsage henv).bind fun _ => agrees_pure _

/-- `record_result`. -/
theorem agrees_recordResult (henv : env.Comparable env' limit) {store : DurableRunStore}
    (hlimit : store.config.spaceLimit ≤ limit) (result : BlockResult) :
    Agrees env env' Node.Any Node.Any (recordResult store result) := by
  unfold recordResult
  refine (agrees_ofExcept _).bind fun _ => ?_
  dsimp only
  split
  · split
    · exact agrees_pure _
    · exact agrees_throw _
  · refine (agrees_ofExcept _).bind fun bytes => ?_
    exact (agrees_atomicWrite henv hlimit (installable_blockPathFor _)).bind fun _ => agrees_pure _

/-- `checkpoint`. -/
theorem agrees_checkpoint (henv : env.Comparable env' limit) {store : DurableRunStore}
    (hlimit : store.config.spaceLimit ≤ limit) (coordinator : CoordinatorState) (leaves : List (AggregateStats Binary64)) (received : List Bool)
    (status : DurableRunStatus) (failure : Option FailureRecord) :
    Agrees env env' Node.Any Node.Any
      (checkpoint store coordinator leaves received status failure) := by
  refine (agrees_ofExcept _).bind fun manifest => ?_
  refine (agrees_ofExcept _).bind fun bytes => ?_
  refine (agrees_ofExcept _).bind fun _ => ?_
  refine (agrees_atomicWrite henv hlimit (installable_manifestPathFor _)).bind fun usage => ?_
  exact (agrees_plain henv (only_bind (only_perform (by trivial)) fun _ => only_pure _)).bind
    fun _ => agrees_pure _

end Rules

end MonteCarlo
