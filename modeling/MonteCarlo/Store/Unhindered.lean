import MonteCarlo.Store.Acceptance
import MonteCarlo.Store.Accounting

/-!
# Operations that nothing hinders

Where no call fails, the directories are on one file system and there is room, what the store
writes is written.

* `Environment.Supports` — such a machine.
* `settles_atomicWrite` — a file under a free name is installed.
* `settles_openStore` — an empty directory is opened, if its path has no separator at its end.
-/

namespace MonteCarlo

open Effects Effects.Program

/-- No call fails, the directories are on one file system, and there is always so much free
space. -/
structure Environment.Supports (env : Environment) (required : ℕ) : Prop extends
    env.Faultless where
  device : ∀ dir, env.device dir = env.device .tmp
  space : ∀ time, required ≤ (env.available time).toNat

theorem Environment.Supports.mono {env : Environment} {required less : ℕ}
    (h : env.Supports required) (hle : less ≤ required) : env.Supports less :=
  ⟨h.toFaultless, h.device, fun time => hle.trans (h.space time)⟩

theorem Environment.idle_supports (required : UInt64) :
    Environment.idle.Supports required.toNat :=
  ⟨Environment.idle_faultless, fun _ => rfl, fun _ => by
    have hlt := required.toNat_lt
    show required.toNat ≤ maxWord.toNat
    have hword : maxWord.toNat = 2 ^ 64 - 1 := by decide
    omega⟩

/-- Nothing is in the temporary directory. -/
def Disk.Tidy (disk : Disk) : Prop := ∀ path, path.dir = .tmp → disk.lookup path = none

theorem Disk.Tidy.insert {disk : Disk} (h : disk.Tidy) {path : Path} (hpath : path.dir ≠ .tmp)
    (node : Node) : Disk.Tidy (disk.insert path node) := by
  intro other hother
  have hne : other ≠ path := by
    rintro rfl
    exact hpath hother
  rw [AList.lookup_insert_ne hne]
  exact h other hother

section Writing

variable {env : Environment} {config : RunStoreConfig} {usage : StorageUsage} {disk : Disk}
  {nonce required : ℕ} {trace : Trace} {state : World × Trace}

theorem settles_ofExcept {α : Type} {value : Result α} {a : α} (h : value = .ok a)
    (hstands : Stands disk nonce trace state) :
    Settles env (Program.ofExcept value) state a disk nonce trace := by
  rw [h]
  exact settles_pure a hstands

theorem settles_throwIf {condition : Bool} {e : Exception} (h : condition = false)
    (hstands : Stands disk nonce trace state) :
    Settles env (Program.ofExcept (throwIf condition e)) state () disk nonce trace :=
  settles_ofExcept (throwIf_eq_ok.mpr h) hstands

/-- The free space is enough. -/
theorem settles_space (henv : env.Supports required) (error : Errno → Exception)
    (hstands : Stands disk nonce trace state) :
    ∃ available : UInt64, required ≤ available.toNat ∧
      Settles env (callOr .space error) state available disk nonce trace := by
  obtain ⟨world, past⟩ := state
  obtain ⟨rfl, rfl, rfl⟩ := hstands
  exact ⟨env.available world.clock, henv.space world.clock, _, run_callOr henv.toFaultless rfl,
    rfl, rfl, rfl⟩

/-- The limits have room for a file. -/
structure RunStoreConfig.Takes (config : RunStoreConfig) (usage : StorageUsage) (size : ℕ) :
    Prop where
  bytes : usage.bytes.toNat + size ≤ config.maxStorageBytes.toNat
  files : usage.files.toNat < config.maxStorageFiles.toNat

theorem settles_preflightWrite {size : ℕ} (htakes : config.Takes usage size)
    (henv : env.Supports (size + config.minFreeSpaceBytes.toNat))
    (hstands : Stands disk nonce trace state) :
    Settles env (preflightWrite config usage size) state () disk nonce trace := by
  have hword : maxWord.toNat = 2 ^ 64 - 1 := by decide
  have hmax := config.maxStorageBytes.toNat_lt
  obtain ⟨hbytes, hfiles⟩ := htakes
  have hsize : (UInt64.ofNat size).toNat = size :=
    UInt64.toNat_ofNat_of_lt' (show size < 2 ^ 64 by omega)
  have hle : UInt64.ofNat size ≤ config.maxStorageBytes := by
    rw [UInt64.le_iff_toNat_le]
    omega
  refine (settles_throwIf (decide_eq_false (by omega)) hstands).bind fun next hn => ?_
  refine (settles_throwIf ?_ hn).bind fun next hn => ?_
  · rw [Bool.or_eq_false_iff, decide_eq_false_iff_not, decide_eq_false_iff_not, UInt64.not_lt,
      UInt64.not_lt]
    refine ⟨hle, ?_⟩
    rw [UInt64.le_iff_toNat_le, UInt64.toNat_sub_of_le _ _ hle]
    omega
  refine (settles_throwIf (decide_eq_false ?_) hn).bind fun next hn => ?_
  · rw [UInt64.not_le, UInt64.lt_iff_toNat_lt]
    exact hfiles
  obtain ⟨available, hspace, hcall⟩ := settles_space henv (filesystemError .preflightWrite) hn
  refine hcall.bind fun next hn => settles_throwIf ?_ hn
  have hlt := available.toNat_lt
  have hsum : (UInt64.ofNat size + config.minFreeSpaceBytes).toNat =
      size + config.minFreeSpaceBytes.toNat := by
    rw [UInt64.toNat_add, hsize]
    omega
  rw [Bool.or_eq_false_iff, decide_eq_false_iff_not, decide_eq_false_iff_not, UInt64.not_lt,
    UInt64.not_lt, UInt64.le_iff_toNat_le, UInt64.le_iff_toNat_le, hsum]
  omega

theorem checkedAdd_of_lt {left right : UInt64} (label : String)
    (h : left.toNat + right.toNat < 2 ^ 64) : checkedAdd left right label = .ok (left + right) := by
  have hword : maxWord.toNat = 2 ^ 64 - 1 := by decide
  rw [checkedAdd, if_neg]
  rw [UInt64.not_lt, UInt64.le_iff_toNat_le, UInt64.toNat_sub_of_le _ _ (by
    rw [UInt64.le_iff_toNat_le]
    omega)]
  omega

theorem exists_checkedAdd {left right : UInt64} (label : String)
    (h : left.toNat + right.toNat < 2 ^ 64) :
    ∃ sum, checkedAdd left right label = .ok sum ∧ sum.toNat = left.toNat + right.toNat :=
  ⟨_, checkedAdd_of_lt label h, checkedAdd_toNat (checkedAdd_of_lt label h)⟩

theorem exists_checkedMultiply {left right : UInt64} (label : String)
    (h : left.toNat * right.toNat < 2 ^ 64) :
    ∃ product, checkedMultiply left right label = .ok product ∧
      product.toNat = left.toNat * right.toNat := by
  have hword : maxWord.toNat = 2 ^ 64 - 1 := by decide
  have hproduct : checkedMultiply left right label = .ok (left * right) := by
    rw [checkedMultiply, if_neg]
    rintro ⟨hne, hlt⟩
    have hpos : 0 < left.toNat := Nat.pos_of_ne_zero fun hzero => hne (UInt64.toNat_inj.mp hzero)
    rw [UInt64.lt_iff_toNat_lt, UInt64.toNat_div, hword, Nat.div_lt_iff_lt_mul hpos,
      Nat.mul_comm] at hlt
    omega
  exact ⟨_, hproduct, checkedMultiply_toNat hproduct⟩

/-- What is used and what is added are within a limit. -/
theorem within_limit {limit used added : UInt64} (h : used.toNat + added.toNat ≤ limit.toNat) :
    ¬ limit < used ∧ ¬ limit - used < added := by
  have hused : used ≤ limit := UInt64.le_iff_toNat_le.mpr (by omega)
  refine ⟨UInt64.not_lt.mpr hused, ?_⟩
  rw [UInt64.not_lt, UInt64.le_iff_toNat_le, UInt64.toNat_sub_of_le _ _ hused]
  omega

/-- A plan that fits has an estimate. -/
theorem CompletionPlan.FitsInto.exists_completionBytes {plan : CompletionPlan}
    (h : plan.FitsInto config usage) :
    ∃ bytes, completionBytes config usage plan = .ok bytes := by
  obtain ⟨hmanifest, hbytes, hfiles⟩ := h
  have hmaxManifest := config.maxManifestBytes.toNat_lt
  have hmaxBytes := config.maxStorageBytes.toNat_lt
  have hmaxFiles := config.maxStorageFiles.toNat_lt
  have h512 : (512 : UInt64).toNat = 512 := rfl
  have h64 : (64 : UInt64).toNat = 64 := rfl
  unfold RunStoreConfig.Fits at hmanifest
  obtain ⟨entries, hentries, hentriesNat⟩ :=
    @exists_checkedMultiply plan.blockCount 64 "manifest size" (by rw [h64]; omega)
  rw [h64] at hentriesNat
  obtain ⟨manifest, hsum, hsumNat⟩ :=
    @exists_checkedAdd 512 entries "manifest size" (by rw [h512]; omega)
  have hsize : manifest.toNat = 512 + 64 * plan.blockCount.toNat := by omega
  rw [← hsize] at hbytes
  obtain ⟨results, hresults, hresultsNat⟩ :=
    @exists_checkedMultiply plan.missingBlocks 512 "block-result storage" (by rw [h512]; omega)
  rw [h512] at hresultsNat
  obtain ⟨manifests, hmanifests, hmanifestsNat⟩ :=
    @exists_checkedMultiply plan.additionalManifests manifest "manifest storage" (by omega)
  rw [← hmanifestsNat] at hbytes
  obtain ⟨both, hboth, hbothNat⟩ :=
    @exists_checkedAdd results manifests "durable completion storage" (by omega)
  obtain ⟨all, hall, hallNat⟩ :=
    @exists_checkedAdd both plan.additionalFixedBytes "durable completion storage" (by omega)
  obtain ⟨count, hcount, hcountNat⟩ := @exists_checkedAdd plan.missingBlocks
    plan.additionalManifests "durable completion file count" (by omega)
  obtain ⟨counts, hcounts, hcountsNat⟩ := @exists_checkedAdd count plan.additionalFixedFiles
    "durable completion file count" (by omega)
  have hlimit : ¬ config.maxManifestBytes < manifest := by
    rw [UInt64.not_lt, UInt64.le_iff_toNat_le]
    omega
  obtain ⟨hused, hroom⟩ := @within_limit config.maxStorageBytes usage.bytes all (by omega)
  obtain ⟨hcounted, hnames⟩ := @within_limit config.maxStorageFiles usage.files counts (by omega)
  refine ⟨all, ?_⟩
  rw [completionBytes, maximumManifest, hentries, Result.ok_bind, hsum, Result.ok_bind,
    decide_eq_false hlimit, throwIf_false, Result.ok_bind, hresults, Result.ok_bind, hmanifests,
    Result.ok_bind, hboth, Result.ok_bind, hall, Result.ok_bind, hcount, Result.ok_bind, hcounts,
    Result.ok_bind, decide_eq_false hused, decide_eq_false hroom, decide_eq_false hcounted,
    decide_eq_false hnames]
  rfl

theorem settles_preflightRunCompletion {plan : CompletionPlan} {bytes : UInt64}
    (hbytes : completionBytes config usage plan = .ok bytes)
    (henv : env.Supports (bytes.toNat + config.minFreeSpaceBytes.toNat))
    (hstands : Stands disk nonce trace state) :
    Settles env (preflightRunCompletion config usage plan) state () disk nonce trace := by
  refine (settles_ofExcept hbytes hstands).bind fun next hn => ?_
  obtain ⟨available, hspace, hcall⟩ :=
    settles_space henv (filesystemError .preflightRunCompletion) hn
  refine hcall.bind fun next hn => ?_
  have hlt := available.toNat_lt
  refine (settles_ofExcept (checkedAdd_of_lt _ (by omega)) hn).bind fun next hn => ?_
  refine settles_throwIf (decide_eq_false ?_) hn
  rw [UInt64.not_lt, UInt64.le_iff_toNat_le, UInt64.toNat_add]
  omega

/-- A file under a free name is installed. -/
theorem settles_atomicWrite {finalPath : Path} {bytes : Bytes} {context : WriteContext}
    (htakes : config.Takes usage bytes.length)
    (henv : env.Supports (bytes.length + config.minFreeSpaceBytes.toNat))
    (hfree : disk.lookup finalPath = none) (htidy : disk.Tidy)
    (hstands : Stands disk nonce trace state) :
    Settles env (atomicWrite config finalPath bytes usage context) state
      ⟨usage.bytes + UInt64.ofNat bytes.length, usage.files + 1⟩
      (disk.insert finalPath (.regular bytes)) (nonce + 1) (trace ++ context.allHits) := by
  have hexists : Settles env (callOr (.exists_ finalPath) (filesystemError .atomicWrite)) state
      false disk nonce trace := by
    refine settles_callOr henv.toFaultless hstands (fun world hd _ => ?_) (fun _ hd => hd) rfl
    show Except.ok (world.disk.lookup finalPath).isSome = _
    rw [hd, hfree]
    rfl
  refine hexists.bind fun next hn => ?_
  rw [if_neg Bool.false_ne_true, writeNewFile_eq]
  refine (settles_preflightWrite htakes henv hn).bind fun next hn => ?_
  exact settles_writeFresh henv.toFaultless hn (htidy _ rfl)

end Writing

/-! ## An empty directory -/

section Opening

variable {env : Environment} {config : RunStoreConfig} {usage : StorageUsage} {disk : Disk}
  {nonce required : ℕ} {trace : Trace} {state : World × Trace} {args : OpenArguments}
  {expected : RunMetadata} {canonical : List ScenarioBlock} {bytes : Bytes}

/-- A scan removes nothing where it finds nothing to remove. -/
theorem Disk.purge_eq_self {site : ScanSite} {doomed : Path → Bool}
    (h : ∀ path ∈ disk.entries site, disk.dooms doomed path = false) :
    disk.purge site doomed = disk := by
  have hnone : (disk.entries site).filter (disk.dooms doomed) = [] :=
    List.filter_eq_nil_iff.mpr fun path hpath => by rw [h path hpath]; exact Bool.false_ne_true
  rw [Disk.purge, hnone]
  rfl

/-- The directory of a run in which only the lock exists. -/
def lockedDisk : Disk := AList.insert lockPath (.regular []) ∅

theorem lookup_lockedDisk {path : Path} (h : path ≠ lockPath) : lockedDisk.lookup path = none := by
  rw [lockedDisk, AList.lookup_insert_ne h]
  rfl

theorem tidy_lockedDisk : lockedDisk.Tidy := by
  intro path hpath
  refine lookup_lockedDisk ?_
  rintro rfl
  cases hpath

theorem usage_lockedDisk : lockedDisk.bytes = 0 ∧ lockedDisk.files = 1 := by decide

theorem settles_stat (henv : env.Supports required) (dir : Dir) (error : Errno → Exception)
    (hstands : Stands disk nonce trace state) :
    Settles env (callOr (.stat dir) error) state (env.device .tmp) disk nonce trace :=
  settles_callOr henv.toFaultless hstands (fun _ _ _ => by rw [← henv.device dir]; rfl)
    (fun _ hd => hd) rfl

theorem settles_requireSameFilesystem (henv : env.Supports required) (config : RunStoreConfig)
    (first second : Dir) (hstands : Stands disk nonce trace state) :
    Settles env (requireSameFilesystem config first second) state () disk nonce trace := by
  refine (settles_stat henv first _ hstands).bind fun next hn => ?_
  refine (settles_stat henv second _ hn).bind fun next hn => ?_
  rw [if_neg (not_not.mpr rfl)]
  exact settles_pure () hn

theorem settles_acquireLock (hf : env.Faultless) (config : RunStoreConfig)
    (hstands : Stands ∅ nonce trace state) :
    Settles env (acquireLock config) state () lockedDisk nonce trace := by
  have hlock : Settles env (callOr .openLock (systemError .scopedRunLock
      "cannot open run-store lock" (lockPath.text config.runDirectory))) state () lockedDisk nonce
      trace := by
    refine settles_callOr hf hstands (fun _ _ _ => rfl) (fun world hd => ?_) rfl
    show (if (world.disk.lookup lockPath).isSome then _ else _) = _
    rw [hd]
    rfl
  refine hlock.bind fun next hn => ?_
  obtain ⟨_, hflock⟩ := settles_formal_callOr hf (show Op.flock.Formal from trivial) _ hn
  exact hflock.bind fun next hn => settles_pure () hn

/-- The beginning of `open` leaves the lock behind. -/
theorem settles_prepareDirectory (henv : env.Supports required) (hvalid : config.validate = .ok ())
    (hstands : Stands ∅ nonce trace state) :
    Settles env (prepareDirectory config) state ⟨0, 1⟩ lockedDisk nonce trace := by
  have hf := henv.toFaultless
  have hcreate : ∀ dir (error : Errno → Exception) next, Stands ∅ nonce trace next →
      Settles env (callOr (.createDirectories dir) error) next () ∅ nonce trace :=
    fun dir error next hn => settles_callOr hf hn (fun _ _ _ => rfl) (fun _ hd => hd) rfl
  refine (hcreate .root _ _ hstands).bind fun next hn => ?_
  have hdirectory : Settles env (callOr .isDirectory (filesystemError .openStore)) next true ∅ nonce
      trace := settles_callOr hf hn (fun _ _ _ => rfl) (fun _ hd => hd) rfl
  refine hdirectory.bind fun next hn => (settles_throwIf rfl hn).bind fun next hn => ?_
  refine (hcreate .manifests _ _ hn).bind fun next hn => ?_
  refine (hcreate .blockResults _ _ hn).bind fun next hn => ?_
  refine (hcreate .tmp _ _ hn).bind fun next hn => ?_
  refine (settles_acquireLock hf config hn).bind fun next hn => ?_
  refine (settles_requireSameFilesystem henv config _ _ hn).bind fun next hn => ?_
  refine (settles_requireSameFilesystem henv config _ _ hn).bind fun next hn => ?_
  have hstale := settles_removeStaleTemporaryFiles hf config hn
  rw [Disk.purge_eq_self (by decide)] at hstale
  refine hstale.bind fun next hn => ?_
  have hword : maxWord.toNat = 2 ^ 64 - 1 := by decide
  have husage := settles_storageUsage hf (by rw [usage_lockedDisk.1]; omega)
    (by rw [usage_lockedDisk.2]; omega) hn
  rw [usage_lockedDisk.1, usage_lockedDisk.2] at husage
  refine husage.bind fun next hn => (settles_throwIf ?_ hn).bind fun next hn => settles_pure _ hn
  simp only [RunStoreConfig.validate, Result.bind_eq_ok, throwIf_eq_ok, exists_const,
    Bool.or_eq_false_iff, decide_eq_false_iff_not] at hvalid
  obtain ⟨-, ⟨-, hfiles⟩, -⟩ := hvalid
  have hpos : config.maxStorageFiles.toNat ≠ 0 := fun h => hfiles (UInt64.toNat_inj.mp h)
  rw [Bool.or_eq_false_iff, decide_eq_false_iff_not, decide_eq_false_iff_not, UInt64.not_lt,
    UInt64.not_lt, UInt64.le_iff_toNat_le, UInt64.le_iff_toNat_le]
  exact ⟨Nat.zero_le _, Nat.one_le_iff_ne_zero.mpr hpos⟩

/-- Only the lock is there, and it is recognised where the path has no separator at its end. -/
theorem payload_lockedDisk (config : RunStoreConfig) :
    (lockedDisk.entries .payload).any (lockedDisk.payload config) = true ↔
      (Paths.Spelling.ofText config.runDirectory).EndsInSeparator := by
  have hentries : lockedDisk.entries .payload = [lockPath] := by decide
  have hfile : (lockedDisk.file lockPath).isSome = true := by decide
  rw [hentries, List.any_cons, List.any_nil, Bool.or_false, Disk.payload, hfile, Bool.true_and,
    Bool.not_eq_true', ← Bool.not_eq_true, isLockEntry_iff]
  simp

/-- The room that `preflight_run_completion` has found is enough for a file. -/
theorem CompletionPlan.FitsInto.takes {plan : CompletionPlan} (h : plan.FitsInto config usage)
    {size : ℕ} {counted : StorageUsage}
    (hbytes : counted.bytes.toNat + size ≤ usage.bytes.toNat + (512 * plan.missingBlocks.toNat +
      plan.additionalManifests.toNat * (512 + 64 * plan.blockCount.toNat) +
      plan.additionalFixedBytes.toNat))
    (hfiles : counted.files.toNat < usage.files.toNat + (plan.missingBlocks.toNat +
      plan.additionalManifests.toNat + plan.additionalFixedFiles.toNat)) :
    config.Takes counted size :=
  ⟨hbytes.trans h.bytes, hfiles.trans_le h.files⟩

/-- The arguments pass every check that `open` makes of them in an empty directory: `bytes` is the
metadata, and `total` what the run needs at most. -/
structure OpenArguments.Admitted (args : OpenArguments) (expected : RunMetadata)
    (canonical : List ScenarioBlock) (bytes : Bytes) (total : UInt64) : Prop where
  run : RunOf expected canonical args
  valid : args.storeConfig.validate = .ok ()
  encode : encodeRunMetadata expected = .ok bytes
  room : completionBytes args.config ⟨0, 1⟩
    (freshPlan args.config expected.blockCount (UInt64.ofNat bytes.length) 1) = .ok total

/-- The free space that a run needs at most. -/
def OpenArguments.needs (args : OpenArguments) (total : UInt64) : ℕ :=
  total.toNat + args.config.minFreeSpaceBytes.toNat

theorem settles_exists_metadata (hf : env.Faultless) (hstands : Stands lockedDisk nonce trace state) :
    Settles env (callOr (.exists_ metadataPath) (filesystemError .openStore)) state false lockedDisk
      nonce trace := by
  refine settles_callOr hf hstands (fun world hd _ => ?_) (fun _ hd => hd) rfl
  show Except.ok (world.disk.lookup metadataPath).isSome = _
  rw [hd, lookup_lockedDisk (by decide)]
  rfl

/-- The metadata of the run is installed. -/
theorem settles_obtainMetadata {total : UInt64}
    (h : args.Admitted expected canonical bytes total) (henv : env.Supports (args.needs total))
    (hseparator : ¬ (Paths.Spelling.ofText args.config.runDirectory).EndsInSeparator)
    (hsize : bytes.length ≤ total.toNat) (htakes : args.config.Takes ⟨0, 1⟩ bytes.length)
    (hstands : Stands lockedDisk nonce trace state) :
    Settles env (obtainMetadata args.config expected ⟨0, 1⟩) state
      (expected, false, ⟨UInt64.ofNat bytes.length, 2⟩)
      (lockedDisk.insert metadataPath (.regular bytes)) (nonce + 1) trace := by
  have hf := henv.toFaultless
  have hfree : lockedDisk.lookup metadataPath = none := lookup_lockedDisk (by decide)
  refine (settles_exists_metadata hf hstands).bind fun next hn => ?_
  rw [if_neg Bool.false_ne_true]
  refine (settles_hasExistingRunPayload hf args.config hn).bind fun next hn => ?_
  refine (settles_throwIf ?_ hn).bind fun next hn => ?_
  · rw [← Bool.not_eq_true, payload_lockedDisk]
    exact hseparator
  refine (settles_ofExcept h.encode hn).bind fun next hn => ?_
  refine (settles_preflightRunCompletion h.room henv hn).bind fun next hn => ?_
  have hwrite : Settles env (atomicWrite args.config metadataPath bytes ⟨0, 1⟩ .metadata) next _ _ _
      _ := settles_atomicWrite htakes (henv.mono (Nat.add_le_add_right hsize _)) hfree
    tidy_lockedDisk hn
  refine hwrite.bind fun next hn => ?_
  rw [show WriteContext.allHits .metadata = [] from rfl, List.append_nil] at hn
  rw [UInt64.zero_add]
  exact settles_pure _ hn

/-- Behind a separator at the end of its directory the lock is taken for the file of a run. -/
theorem run_obtainMetadata_separator (hf : env.Faultless) (usage : StorageUsage)
    (hseparator : (Paths.Spelling.ofText config.runDirectory).EndsInSeparator)
    (hstands : Stands lockedDisk nonce trace state) :
    ∃ e final, run env.traced (obtainMetadata config expected usage) state = (.error e, final) ∧
      Stands lockedDisk nonce trace final := by
  obtain ⟨asked, hasked, hn⟩ := settles_exists_metadata hf hstands
  obtain ⟨scanned, hscanned, hn⟩ := settles_hasExistingRunPayload hf config hn
  rw [(payload_lockedDisk config).mpr hseparator] at hscanned
  refine ⟨openError ("run_spec.bin is missing from a nonempty run directory; refusing "
    ++ "to install caller-supplied metadata over existing durable state"), scanned, ?_, hn⟩
  rw [obtainMetadata, run_bind_ok hasked, if_neg Bool.false_ne_true, run_bind_ok hscanned]
  exact run_bind_error (by rw [run_ofExcept, throwIf_true]) _

/-- There is no manifest to load. -/
theorem settles_load (hf : env.Faultless) (engineConfig : EngineConfig) (config : RunStoreConfig)
    (metadata : RunMetadata) (hnone : disk.candidates = [])
    (hstands : Stands disk nonce trace state) :
    Settles env (loadLatestValidManifest engineConfig config metadata) state
      ⟨none, false, disk.highestSequence, ""⟩ disk nonce trace := by
  obtain ⟨hload, hn⟩ := run_load hf engineConfig config metadata hstands
  rw [hnone] at hload
  exact ⟨_, Prod.ext hload rfl, hn⟩

/-- The first manifest of a run is installed. -/
theorem settles_startRun (hrun : RunOf expected canonical args)
    (htakes : ∀ size, size ≤ 512 + 64 * expected.blockCount.toNat → config.Takes usage size)
    (henv : env.Supports (512 + 64 * expected.blockCount.toNat + config.minFreeSpaceBytes.toNat))
    (hfree : disk.lookup (manifestPathFor 0) = none) (htidy : disk.Tidy) :
    ∃ (manifest : Bytes) (next : Trace),
      manifest.length ≤ 512 + 64 * expected.blockCount.toNat ∧
      ∀ state, Stands disk nonce trace state →
        Settles env (startRun config expected false canonical usage) state
          ⟨0, 1, .running, false, canonical.map fun block => block.leased 1 1,
            List.replicate canonical.length none⟩
          (disk.insert (manifestPathFor 0) (.regular manifest)) (nonce + 1) next := by
  obtain ⟨initial, hinitial⟩ : ∃ initial, makeManifestFromResults expected 0 1 .running
      (canonical.map fun block => block.leased 1 1) (List.replicate canonical.length none) none =
        .ok initial := by
    have hleaves : leavesOf (List.replicate canonical.length none) =
        List.replicate canonical.length .empty := List.map_replicate
    rw [makeManifestFromResults, hleaves, reduceBlockResults_empty]
    exact ⟨_, rfl⟩
  have hfor := makeManifestFromResults_eq_ok hinitial
  have hencodable : EncodableManifest initial := by
    refine hrun.encodable_running rfl hinitial ?_
    have hleases : ((canonical.map fun block => block.leased 1 1).map (·.leaseEpoch)) =
        List.replicate canonical.length 1 := by
      rw [List.map_map]
      exact List.map_const' ..
    rw [hleases]
    exact soundResults_none expected canonical
  obtain ⟨manifest, hmanifest⟩ := hencodable.encodes
  have hfailure : initial.failure = none := by
    obtain ⟨aggregate, -, hpure⟩ := Result.bind_eq_ok.mp hinitial
    cases hpure
    rfl
  have hcount : initial.blockCount = expected.blockCount := by
    obtain ⟨aggregate, -, hpure⟩ := Result.bind_eq_ok.mp hinitial
    cases hpure
    rfl
  have hsize := length_manifest_le hmanifest (by rw [hfailure]; exact fun _ h => by cases h)
  rw [hcount] at hsize
  refine ⟨manifest, trace ++ (manifestContext initial).allHits, hsize, fun state hstands => ?_⟩
  have hstart : startRun config expected false canonical usage = (do
      let initial ← Program.ofExcept (makeManifestFromResults expected 0 1 .running
        (canonical.map fun block => block.leased 1 1) (List.replicate canonical.length none) none)
      let _ ← installManifest config initial usage
      pure ⟨0, 1, .running, false, canonical.map fun block => block.leased 1 1,
        List.replicate canonical.length none⟩) := rfl
  rw [hstart]
  refine (settles_ofExcept hinitial hstands).bind fun next hn => ?_
  have hinstall : Settles env (installManifest config initial usage) next
      ⟨usage.bytes + UInt64.ofNat manifest.length, usage.files + 1⟩
      (disk.insert (manifestPathFor 0) (.regular manifest)) (nonce + 1)
      (trace ++ (manifestContext initial).allHits) := by
    refine (settles_ofExcept hmanifest hn).bind fun next hn => ?_
    rw [hfor.sequence]
    exact settles_atomicWrite (htakes _ hsize) (henv.mono (Nat.add_le_add_right hsize _)) hfree
      htidy hn
  exact hinstall.bind fun next hn => settles_pure _ hn

/-- The directory that `open` leaves behind. -/
def openedDisk (metadata manifest : Bytes) : Disk :=
  (lockedDisk.insert metadataPath (.regular metadata)).insert (manifestPathFor 0)
    (.regular manifest)

theorem tidy_openedDisk (metadata manifest : Bytes) : (openedDisk metadata manifest).Tidy :=
  (tidy_lockedDisk.insert (by decide) _).insert (by exact fun h => by cases h) _

theorem lookup_openedDisk (metadata manifest : Bytes) {path : Path} (hlock : path ≠ lockPath)
    (hmetadata : path ≠ metadataPath) (hmanifest : path ≠ manifestPathFor 0) :
    (openedDisk metadata manifest).lookup path = none := by
  rw [openedDisk, AList.lookup_insert_ne hmanifest, AList.lookup_insert_ne hmetadata,
    lookup_lockedDisk hlock]

theorem usage_openedDisk (metadata manifest : Bytes) :
    (openedDisk metadata manifest).bytes = metadata.length + manifest.length ∧
      (openedDisk metadata manifest).files = 3 := by
  have hmetadata : lockedDisk.lookup metadataPath = none := lookup_lockedDisk (by decide)
  have hmanifest : AList.lookup (manifestPathFor 0)
      (lockedDisk.insert metadataPath (.regular metadata)) = none := by
    rw [AList.lookup_insert_ne (by intro h; cases h), lookup_lockedDisk (by intro h; cases h)]
  obtain ⟨hbytes, hfiles⟩ := usage_lockedDisk
  rw [openedDisk, Disk.bytes_insert hmanifest, Disk.bytes_insert hmetadata, hbytes,
    Disk.files_insert hmanifest, Disk.files_insert hmetadata, hfiles]
  exact ⟨by rw [Nat.zero_add], rfl⟩

/-- The manifests of a run that is planned. -/
theorem toNat_freshPlan_manifests {config : RunStoreConfig} {blocks : UInt64} (hpos : blocks ≠ 0)
    (hfits : config.Fits blocks) :
    (checkpointCount config blocks + 2).toNat =
      3 + (blocks.toNat - 1) / config.checkpointIntervalBlocks.toNat := by
  have hmax := config.maxManifestBytes.toNat_lt
  have hblocks : 1 ≤ blocks.toNat := Nat.one_le_iff_ne_zero.mpr fun h =>
    hpos (UInt64.toNat_inj.mp h)
  unfold RunStoreConfig.Fits at hfits
  have hquotient : ((blocks - 1) / config.checkpointIntervalBlocks).toNat =
      (blocks.toNat - 1) / config.checkpointIntervalBlocks.toNat := by
    have hle : (1 : UInt64) ≤ blocks := UInt64.le_iff_toNat_le.mpr hblocks
    rw [UInt64.toNat_div, UInt64.toNat_sub_of_le _ _ hle]
    rfl
  have hle : (blocks.toNat - 1) / config.checkpointIntervalBlocks.toNat ≤ blocks.toNat :=
    (Nat.div_le_self _ _).trans (Nat.sub_le _ _)
  rw [checkpointCount, UInt64.toNat_add, UInt64.toNat_add, hquotient]
  have hone : (1 : UInt64).toNat = 1 := rfl
  have htwo : (2 : UInt64).toNat = 2 := rfl
  omega

/-- The number of manifests that `preflight_run_completion` expects of a run. -/
def RunStoreConfig.manifestRoom (config : RunStoreConfig) (blocks : ℕ) : ℕ :=
  3 + (blocks - 1) / config.checkpointIntervalBlocks.toNat

/-- The number of blocks of a run is not zero. -/
theorem OpenArguments.Admitted.blockCount_ne {total : UInt64}
    (h : args.Admitted expected canonical bytes total) : expected.blockCount ≠ 0 :=
  (encodeRunMetadata_eq_ok h.encode).2.2.1

theorem OpenArguments.Admitted.length_metadata {total : UInt64}
    (h : args.Admitted expected canonical bytes total) :
    (UInt64.ofNat bytes.length).toNat = bytes.length :=
  UInt64.toNat_ofNat_of_lt' (show bytes.length < 2 ^ 64 by
    have := length_encodeRunMetadata h.encode
    omega)

/-- What the limits have room for: a result for each block, the manifests, and the metadata. -/
theorem OpenArguments.Admitted.limits {total : UInt64}
    (h : args.Admitted expected canonical bytes total) :
    let blocks := expected.blockCount.toNat
    let manifests := args.config.manifestRoom blocks
    total.toNat = 512 * blocks + manifests * (512 + 64 * blocks) + bytes.length ∧
      total.toNat ≤ args.config.maxStorageBytes.toNat ∧
      2 + blocks + manifests ≤ args.config.maxStorageFiles.toNat := by
  have hlength := h.length_metadata
  obtain ⟨⟨hfits, hbytes, hfiles⟩, htotal⟩ := completionBytes_eq_ok h.room
  have hmanifests := toNat_freshPlan_manifests h.blockCount_ne hfits
  rw [← CompletionPlan.bytes, ← htotal] at hbytes
  have hplan : total.toNat = 512 * expected.blockCount.toNat +
      (checkpointCount args.config expected.blockCount + 2).toNat *
        (512 + 64 * expected.blockCount.toNat) + (UInt64.ofNat bytes.length).toNat := htotal
  have hcount : 1 + (expected.blockCount.toNat +
      (checkpointCount args.config expected.blockCount + 2).toNat + 1) ≤
        args.config.maxStorageFiles.toNat := hfiles
  rw [hmanifests] at hplan hcount
  rw [hlength] at hplan
  have hzero : (0 : UInt64).toNat = 0 := rfl
  exact ⟨hplan, by omega, by unfold RunStoreConfig.manifestRoom; omega⟩

/-- There is room for one more file. -/
theorem OpenArguments.Admitted.takes {total : UInt64}
    (h : args.Admitted expected canonical bytes total) {counted : StorageUsage}
    {results manifests size : ℕ}
    (hbytes : counted.bytes.toNat + size ≤ bytes.length + 512 * results +
      manifests * (512 + 64 * expected.blockCount.toNat))
    (hfiles : counted.files.toNat < 2 + results + manifests)
    (hresults : results ≤ expected.blockCount.toNat)
    (hmanifests : manifests ≤ args.config.manifestRoom expected.blockCount.toNat) :
    args.config.Takes counted size ∧ size ≤ total.toNat := by
  obtain ⟨htotal, hstorage, hcount⟩ := h.limits
  have hmul : manifests * (512 + 64 * expected.blockCount.toNat) ≤
      args.config.manifestRoom expected.blockCount.toNat *
        (512 + 64 * expected.blockCount.toNat) := Nat.mul_le_mul_right _ hmanifests
  exact ⟨⟨by omega, by omega⟩, by omega⟩

theorem OpenArguments.Admitted.takes_metadata {total : UInt64}
    (h : args.Admitted expected canonical bytes total) :
    args.config.Takes ⟨0, 1⟩ bytes.length ∧ bytes.length ≤ total.toNat :=
  @OpenArguments.Admitted.takes _ _ _ _ _ h ⟨0, 1⟩ 0 0 bytes.length (by simp) (by decide)
    (Nat.zero_le _) (Nat.zero_le _)

/-- There is room for the manifest that `open` writes after the metadata. -/
theorem OpenArguments.Admitted.takes_manifest {total : UInt64}
    (h : args.Admitted expected canonical bytes total) {size : ℕ}
    (hsize : size ≤ 512 + 64 * expected.blockCount.toNat) :
    args.config.Takes ⟨UInt64.ofNat bytes.length, 2⟩ size ∧ size ≤ total.toNat := by
  have hlength := h.length_metadata
  have hroom : 3 ≤ args.config.manifestRoom expected.blockCount.toNat := Nat.le_add_right _ _
  exact @OpenArguments.Admitted.takes _ _ _ _ _ h ⟨UInt64.ofNat bytes.length, 2⟩ 0 1 size
    (by rw [hlength]; omega) (show 2 < 2 + 0 + 1 by omega) (Nat.zero_le _) (by omega)

theorem RunStoreConfig.validate_resolveCheckpointCadence (config : RunStoreConfig)
    (blocks : UInt64) : (resolveCheckpointCadence config blocks).validate = config.validate := by
  unfold resolveCheckpointCadence
  split <;> rfl

theorem OpenArguments.validate_config (hvalid : args.storeConfig.validate = .ok ())
    (hexpected : expectedMetadata args.build args.spec args.engineConfig = .ok expected) :
    args.config.validate = .ok () := by
  rw [← OpenArguments.config_eq hexpected, RunStoreConfig.validate_resolveCheckpointCadence,
    hvalid]

/-- Before the first manifest there is none. -/
theorem lookup_manifest_metadata (bytes : Bytes) (sequence : UInt64) :
    AList.lookup (manifestPathFor sequence)
      (lockedDisk.insert metadataPath (.regular bytes)) = none := by
  rw [AList.lookup_insert_ne (by intro h; cases h), lookup_lockedDisk (by intro h; cases h)]

theorem candidates_metadata (bytes : Bytes) :
    Disk.candidates (lockedDisk.insert metadataPath (.regular bytes)) = [] := by
  refine List.eq_nil_iff_forall_not_mem.mpr fun candidate hcandidate => ?_
  obtain ⟨-, hsome⟩ := Disk.mem_candidates.mp hcandidate
  rw [Disk.file, lookup_manifest_metadata] at hsome
  cases hsome

/-- After the first manifest there are no results. -/
theorem not_mem_blockResults_openedDisk (bytes manifest : Bytes) (path : Path) :
    path ∉ (openedDisk bytes manifest).entries .blockResults := by
  intro hpath
  obtain ⟨hsome, hlists⟩ := Disk.mem_entries.mp hpath
  have hdir : path.dir = .blockResults := by simpa [ScanSite.lists] using hlists
  have hne : ∀ other : Path, other.dir ≠ .blockResults → path ≠ other := by
    rintro other hother rfl
    exact hother hdir
  rw [lookup_openedDisk bytes manifest (hne _ (by decide)) (hne _ (by decide))
    (hne _ (by intro h; cases h))] at hsome
  cases hsome

/-- `open` of an empty directory whose path has a separator at its end. -/
theorem run_openStore_separator (hvalid : args.storeConfig.validate = .ok ())
    (hexpected : expectedMetadata args.build args.spec args.engineConfig = .ok expected)
    (henv : env.Supports required)
    (hseparator : (Paths.Spelling.ofText args.config.runDirectory).EndsInSeparator)
    (hstands : Stands ∅ nonce trace state) :
    ∃ e final, run env.traced args.openStore state = (.error e, final) ∧
      Stands lockedDisk nonce trace final := by
  have hconfig := OpenArguments.config_eq hexpected
  obtain ⟨prepared, hprepare, hn⟩ :=
    settles_prepareDirectory henv (OpenArguments.validate_config hvalid hexpected) hstands
  obtain ⟨e, final, hobtain, hn⟩ := @run_obtainMetadata_separator _ _ _ _ _ expected
    henv.toFaultless ⟨0, 1⟩ hseparator hn
  refine ⟨e, final, ?_, hn⟩
  rw [OpenArguments.openStore, openStore, run_bind_ok (by rw [run_ofExcept, hvalid]),
    run_bind_ok (by rw [run_ofExcept, hexpected])]
  dsimp only
  rw [hconfig, run_bind_ok hprepare]
  exact run_bind_error hobtain _

/-- `open` in an empty directory. -/
theorem settles_openStore {total : UInt64} (h : args.Admitted expected canonical bytes total)
    (henv : env.Supports (args.needs total))
    (hseparator : ¬ (Paths.Spelling.ofText args.config.runDirectory).EndsInSeparator)
    (hstands : Stands ∅ nonce trace state) :
    ∃ (store : DurableRunStore) (manifest : Bytes) (next : Trace),
      Settles env args.openStore state store (openedDisk bytes manifest) (nonce + 2) next ∧
      store.recovery = ⟨0, 1, .running, false, canonical.map fun block => block.leased 1 1,
        List.replicate canonical.length none⟩ ∧
      store.durableResults = List.replicate canonical.length none ∧
      store.usage.bytes.toNat = bytes.length + manifest.length ∧ store.usage.files.toNat = 3 ∧
      manifest.length ≤ 512 + 64 * expected.blockCount.toNat := by
  have hf := henv.toFaultless
  have hconfig := OpenArguments.config_eq h.run.expected
  have hvalid := OpenArguments.validate_config h.valid h.run.expected
  obtain ⟨hmetadata, hwritten⟩ := h.takes_metadata
  obtain ⟨manifest, next, hsize, hstart⟩ := @settles_startRun env args.config
    ⟨UInt64.ofNat bytes.length, 2⟩ _ (nonce + 1) trace args expected canonical h.run
    (fun size hsize => (h.takes_manifest hsize).1)
    (henv.mono (Nat.add_le_add_right (h.takes_manifest le_rfl).2 _))
    (lookup_manifest_metadata bytes 0) (tidy_lockedDisk.insert (by decide) _)
  have hmax := args.config.maxStorageBytes.toNat_lt
  have hword : maxWord.toNat = 2 ^ 64 - 1 := by decide
  obtain ⟨hbytes, hfiles⟩ := usage_openedDisk bytes manifest
  have hfits : bytes.length + manifest.length < 2 ^ 64 := by
    have := (h.takes_manifest hsize).1.bytes
    rw [h.length_metadata] at this
    omega
  let recovery : DurableRecoveryState := ⟨0, 1, .running, false,
    canonical.map fun block => block.leased 1 1, List.replicate canonical.length none⟩
  refine ⟨⟨args.spec, args.engineConfig, args.config, expected, recovery,
    recovery.committedResults, ⟨UInt64.ofNat (bytes.length + manifest.length), UInt64.ofNat 3⟩⟩,
    manifest, next, ?_, rfl, rfl, UInt64.toNat_ofNat_of_lt' hfits, rfl, hsize⟩
  refine (settles_ofExcept h.valid hstands).bind fun next hn => ?_
  refine (settles_ofExcept h.run.expected hn).bind fun next hn => ?_
  dsimp only
  rw [hconfig]
  refine (settles_prepareDirectory henv hvalid hn).bind fun next hn => ?_
  refine (settles_obtainMetadata h henv hseparator hwritten hmetadata hn).bind fun next hn => ?_
  refine (settles_load hf args.engineConfig args.config expected (candidates_metadata bytes)
    hn).bind fun next hn => ?_
  refine (settles_throwIf rfl hn).bind fun next hn => ?_
  refine (settles_ofExcept h.run.canonical hn).bind fun next hn => ?_
  refine (hstart next hn).bind fun next hn => ?_
  rw [← openedDisk] at hn
  have hclean := settles_removeOrphanBlockResults hf args.config recovery.committedResults hn
  rw [Disk.purge_eq_self fun path hpath =>
    (not_mem_blockResults_openedDisk bytes manifest path hpath).elim] at hclean
  refine hclean.bind fun next hn => ?_
  have husage := settles_storageUsage hf (by rw [hbytes]; omega) (by rw [hfiles]; omega) hn
  rw [hbytes, hfiles] at husage
  exact husage.bind fun next hn => settles_pure _ hn

end Opening

/-! ## Results and checkpoints -/

section Mutators

variable {env : Environment} {disk : Disk} {nonce : ℕ} {trace : Trace} {state : World × Trace}
  {store : DurableRunStore} {bytes : Bytes}

/-- The counters after a file has been written. -/
def StorageUsage.plus (usage : StorageUsage) (size : ℕ) : StorageUsage :=
  ⟨usage.bytes + UInt64.ofNat size, usage.files + 1⟩

theorem StorageUsage.toNat_plus {usage : StorageUsage} {config : RunStoreConfig} {size : ℕ}
    (h : config.Takes usage size) :
    (usage.plus size).bytes.toNat = usage.bytes.toNat + size ∧
      (usage.plus size).files.toNat = usage.files.toNat + 1 := by
  have hbytes := config.maxStorageBytes.toNat_lt
  have hfiles := config.maxStorageFiles.toNat_lt
  obtain ⟨hsize, hcount⟩ := h
  rw [plus, UInt64.toNat_add, UInt64.toNat_add, UInt64.toNat_ofNat', UInt64.toNat_one]
  omega

/-- `record_result`, for a new result. -/
theorem settles_recordResult {result : BlockResult} (hcheck : checkRecord store result = .ok ())
    (hnew : (store.durableResults[result.block.blockId.toNat]?).join = none)
    (hencode : encodeBlockRecord ⟨store.metadata.runId, result⟩ = .ok bytes)
    (htakes : store.config.Takes store.usage bytes.length)
    (henv : env.Supports (bytes.length + store.config.minFreeSpaceBytes.toNat))
    (hfree : disk.lookup (blockPathFor result.block) = none) (htidy : disk.Tidy)
    (hstands : Stands disk nonce trace state) :
    ∃ next, Settles env (recordResult store result) state
      (store.recorded result (store.usage.plus bytes.length))
      (disk.insert (blockPathFor result.block) (.regular bytes)) (nonce + 1) next := by
  refine ⟨trace ++ (WriteContext.blockResult ⟨result.block.runIncarnation, result.block.blockId,
    kNoFailureContext⟩).allHits, ?_⟩
  refine (settles_ofExcept hcheck hstands).bind fun next hn => ?_
  simp only [hnew]
  refine (settles_ofExcept hencode hn).bind fun next hn => ?_
  refine (settles_atomicWrite htakes henv hfree htidy hn).bind fun next hn => ?_
  exact settles_pure _ hn

/-- `checkpoint`, when the manifest can be made and encoded. -/
theorem settles_checkpoint {coordinator : CoordinatorState}
    {leaves : List (AggregateStats Binary64)} {received : List Bool} {status : DurableRunStatus}
    {failure : Option FailureRecord} {manifest : RunManifest}
    (hmanifest : checkpointManifest store coordinator leaves received status failure = .ok manifest)
    (hencode : encodeManifest manifest = .ok bytes)
    (hlimit : bytes.length ≤ store.config.maxManifestBytes.toNat)
    (htakes : store.config.Takes store.usage bytes.length)
    (henv : env.Supports (bytes.length + store.config.minFreeSpaceBytes.toNat))
    (hfree : disk.lookup (manifestPathFor manifest.sequence) = none) (htidy : disk.Tidy)
    (hstands : Stands disk nonce trace state) :
    ∃ next, Settles env (checkpoint store coordinator leaves received status failure) state
      (store.checkpointed manifest.sequence status received (store.usage.plus bytes.length))
      (disk.insert (manifestPathFor manifest.sequence) (.regular bytes)) (nonce + 1) next := by
  refine ⟨trace ++ (manifestContext manifest).allHits ++ [(.manifestAfterInstallBeforeMemory,
    ⟨manifest.runIncarnation, kNoFailureContext, manifest.sequence⟩)], ?_⟩
  refine (settles_ofExcept hmanifest hstands).bind fun next hn => ?_
  refine (settles_ofExcept hencode hn).bind fun next hn => ?_
  refine (settles_throwIf (decide_eq_false (by omega)) hn).bind fun next hn => ?_
  refine (settles_atomicWrite htakes henv hfree htidy hn).bind fun next hn => ?_
  refine (settles_hit henv.toFaultless hn _ _).bind fun next hn => ?_
  exact settles_pure _ hn

end Mutators

end MonteCarlo
