import MonteCarlo.Store.Stages
import MonteCarlo.Store.Tracing

/-!
# The failure points of the store

Which failure points `open`, `record_result` and `checkpoint` pass when they return, in any
environment: four for each file that is installed, and one more after the manifest of a checkpoint.

* `Passes` — whatever the calls reply, a program that returns has passed these failure points.
* `passes_writeNewFile` — the four of a file.
* `trace_recordResult`, `trace_checkpoint`, `trace_openStore` — those of the store's operations.
-/

namespace MonteCarlo

open Effects Effects.Program

/-! ## Failure points of a program -/

/-- Whatever the calls reply, when the program returns the trace has grown from `before` to one that
meets `P`. -/
def Passes {α : Type} (P : α → Trace → Prop) : Prog α → Trace → Prop
  | .done a, trace => P a trace
  | .fail _, _ => True
  | .call op next, trace => ∀ reply, Passes P (next reply) (op.record trace)

section Rules

variable {α β : Type} {P : α → Trace → Prop} {Q : β → Trace → Prop} {trace : Trace}

theorem passes_pure {a : α} (h : P a trace) : Passes P (pure a) trace := h

theorem passes_throw (e : Exception) : Passes P (throw e) trace := trivial

theorem Passes.bind {p : Prog α} {f : α → Prog β} (hp : Passes P p trace)
    (hf : ∀ a after, P a after → Passes Q (f a) after) : Passes Q (p >>= f) trace := by
  change Passes Q (p.bind f) trace
  induction p generalizing trace with
  | done a => exact hf a trace hp
  | fail e => trivial
  | call op next ih => exact fun reply => ih reply (hp reply)

theorem Passes.tryCatch {p : Prog α} {f : Exception → Prog α} (hp : Passes P p trace)
    (hf : ∀ e after, Passes P (f e) after) : Passes P (MonadExcept.tryCatch p f) trace := by
  change Passes P (p.tryCatch f) trace
  induction p generalizing trace with
  | done a => exact hp
  | fail e => exact hf e trace
  | call op next ih => exact fun reply => ih reply (hp reply)

theorem Passes.mono {p : Prog α} {P' : α → Trace → Prop} (hp : Passes P p trace)
    (h : ∀ a after, P a after → P' a after) : Passes P' p trace := by
  induction p generalizing trace with
  | done a => exact h a trace hp
  | fail e => trivial
  | call op next ih => exact fun reply => ih reply (hp reply)

/-- Code without failure points. -/
theorem passes_silent {p : Prog α} (hp : Only Op.Silent p) :
    Passes (fun _ after => after = trace) p trace := by
  induction p with
  | done a => rfl
  | fail e => trivial
  | call op next ih =>
    intro reply
    rw [hp.1.record]
    exact ih reply (hp.2 reply)

/-- Code without failure points, and what follows. -/
theorem passes_silent_bind {p : Prog α} {f : α → Prog β} (hp : Only Op.Silent p)
    (hf : ∀ a, Passes Q (f a) trace) : Passes Q (p >>= f) trace :=
  (passes_silent hp).bind fun a _ hafter => hafter ▸ hf a

theorem Passes.run {p : Prog α} (hp : Passes P p trace) {env : Environment}
    {world after : World} {trace' : Trace} {a : α}
    (hrun : run env.traced p (world, trace) = (.ok a, (after, trace'))) : P a trace' := by
  induction p generalizing world trace with
  | done b =>
    cases hrun
    exact hp
  | fail e => cases hrun
  | call op next ih => exact ih _ (hp _) hrun

end Rules

/-! ## Code without failure points -/

section Silence

variable (config : RunStoreConfig)

/-- An operation that is not a failure point. -/
theorem silent_callOr (op : Op) (error : Errno → Exception) (hop : op.Silent) :
    Only Op.Silent (callOr op error) := only_callOr hop error

theorem silent_callIgnored (op : Op) (hop : op.Silent) : Only Op.Silent (callIgnored op) :=
  only_bind (only_perform hop) fun _ => only_pure _

theorem silent_preflightWrite (usage : StorageUsage) (nextBytes : ℕ) :
    Only Op.Silent (preflightWrite config usage nextBytes) := by
  refine only_bind (only_ofExcept _) fun _ => ?_
  refine only_bind (only_ofExcept _) fun _ => ?_
  refine only_bind (only_ofExcept _) fun _ => ?_
  exact only_bind (silent_callOr .space _ trivial) fun _ => only_ofExcept _

theorem silent_preflightRunCompletion (usage : StorageUsage) (plan : CompletionPlan) :
    Only Op.Silent (preflightRunCompletion config usage plan) := by
  refine only_bind (only_ofExcept _) fun _ => ?_
  refine only_bind (silent_callOr .space _ trivial) fun _ => ?_
  exact only_bind (only_ofExcept _) fun _ => only_ofExcept _

theorem silent_writeAll (text : String) (path : Path) (fuel : ℕ) (bytes : Bytes) :
    Only Op.Silent (writeAll text path fuel bytes) := by
  induction fuel generalizing bytes with
  | zero => cases bytes <;> exact only_pure _
  | succ fuel ih =>
    cases bytes with
    | nil => exact only_pure _
    | cons byte rest =>
      refine only_bind (silent_callOr (.write path (byte :: rest)) _ trivial) fun written => ?_
      split
      · exact only_throw _
      · exact ih _

theorem silent_syncDirectory (dir : Dir) : Only Op.Silent (syncDirectory config dir) := by
  refine only_bind (silent_callOr (.openDirectory dir) _ trivial) fun _ => ?_
  refine only_bind (only_perform (show (Op.fsyncDirectory dir).Silent from trivial)) fun reply => ?_
  cases reply with
  | error e => exact only_bind (silent_callIgnored (.closeDirectory dir) trivial) fun _ =>
      only_throw _
  | ok _ => exact only_bind (silent_callOr (.closeDirectory dir) _ trivial) fun _ =>
      only_pure _

theorem silent_readFile (path : Path) (maximumSize : UInt64) (kind : SizeLimitKind) :
    Only Op.Silent (readFile config path maximumSize kind) :=
  (only_readFile config path maximumSize kind).mono fun _ => Op.Reads.silent

theorem silent_removeOrThrow (path : Path) (thrower : Thrower) (what : String) :
    Only Op.Silent (removeOrThrow path thrower what) := by
  refine only_bind (only_perform (show (Op.remove path).Silent from trivial)) fun reply => ?_
  rcases reply with e | (_ | _)
  · exact only_throw _
  · exact only_throw _
  · exact only_pure _

theorem silent_removeStaleTemporaryFiles :
    Only Op.Silent (removeStaleTemporaryFiles config) := by
  refine only_bind (only_scan trivial trivial (fun removed path => ?_) _) fun removed => ?_
  · split
    · exact only_pure _
    · refine only_bind (silent_callOr (.isRegularFile path) _ trivial) fun regular => ?_
      split
      · exact only_pure _
      · exact only_bind (silent_removeOrThrow _ _ _) fun _ => only_pure _
  · split
    · exact silent_syncDirectory config _
    · exact only_pure _

theorem silent_removeOrphanBlockResults (committed : List (Option BlockResult)) :
    Only Op.Silent (removeOrphanBlockResults config committed) := by
  refine only_bind (only_scan trivial trivial (fun removed path => ?_) _) fun removed => ?_
  · refine only_bind (silent_callOr (.isRegularFile path) _ trivial) fun regular => ?_
    split
    · exact only_pure _
    · split
      · exact only_pure _
      · split
        · exact only_pure _
        · exact only_bind (silent_removeOrThrow _ _ _) fun _ => only_pure _
  · split
    · exact silent_syncDirectory config _
    · exact only_pure _

theorem silent_storageUsage : Only Op.Silent storageUsage :=
  only_storageUsage trivial trivial (fun _ => trivial) fun _ => trivial

theorem silent_requireSameFilesystem (first second : Dir) :
    Only Op.Silent (requireSameFilesystem config first second) := by
  refine only_bind (silent_callOr (.stat first) _ trivial) fun _ => ?_
  refine only_bind (silent_callOr (.stat second) _ trivial) fun _ => ?_
  split
  · exact only_throw _
  · exact only_pure _

theorem silent_prepareDirectory : Only Op.Silent (prepareDirectory config) := by
  refine only_bind (silent_callOr (.createDirectories .root) _ trivial) fun _ => ?_
  refine only_bind (silent_callOr .isDirectory _ trivial) fun _ => ?_
  refine only_bind (only_ofExcept _) fun _ => ?_
  refine only_bind (silent_callOr (.createDirectories .manifests) _ trivial) fun _ => ?_
  refine only_bind (silent_callOr (.createDirectories .blockResults) _ trivial) fun _ => ?_
  refine only_bind (silent_callOr (.createDirectories .tmp) _ trivial) fun _ => ?_
  refine only_bind ?_ fun _ => ?_
  · refine only_bind (silent_callOr .openLock _ trivial) fun _ => ?_
    exact only_bind (silent_callOr .flock _ trivial) fun _ => only_pure _
  · refine only_bind (silent_requireSameFilesystem config _ _) fun _ => ?_
    refine only_bind (silent_requireSameFilesystem config _ _) fun _ => ?_
    refine only_bind (silent_removeStaleTemporaryFiles config) fun _ => ?_
    refine only_bind silent_storageUsage fun _ => ?_
    exact only_bind (only_ofExcept _) fun _ => only_pure _

end Silence

/-! ## Files -/

section Files

variable {config : RunStoreConfig} {path : Path} {bytes : Bytes} {usage usage' : StorageUsage}
  {context : WriteContext} {trace trace' : Trace} {env : Environment} {world after : World}

theorem passes_hitWriteFailure (resultPoint manifestPoint : FailurePoint) :
    Passes (fun _ after => after = trace ++ context.hits resultPoint manifestPoint)
      (hitWriteFailure context resultPoint manifestPoint) trace := by
  cases context with
  | metadata => exact (List.append_nil trace).symm
  | blockResult failure => exact fun _ => rfl
  | manifest failure => exact fun _ => rfl

theorem passes_writeTemporary (temporary : Path) :
    Passes (fun _ after => after = trace
        ++ context.hits .resultBeforeFileFsync .manifestBeforeFileFsync
        ++ context.hits .resultAfterFileFsync .manifestAfterFileFsync)
      (writeTemporary config temporary bytes context) trace := by
  refine passes_silent_bind (silent_writeAll _ _ _ _) fun _ => ?_
  refine (passes_hitWriteFailure _ _).bind fun _ before hbefore => ?_
  refine passes_silent_bind (silent_callOr (.fsync temporary) _ trivial) fun _ => ?_
  rw [← hbefore]
  exact passes_hitWriteFailure _ _

theorem passes_installTemporary (temporary finalPath : Path) :
    Passes (fun _ after => after = trace ++ context.hits .resultBeforeRename .manifestBeforeRename
        ++ context.hits .resultAfterRename .manifestAfterRename)
      (installTemporary config temporary finalPath context) trace := by
  refine passes_silent_bind (silent_callOr (.close temporary) _ trivial) fun _ => ?_
  refine (passes_hitWriteFailure _ _).bind fun _ before hbefore => ?_
  refine passes_silent_bind (silent_callOr (.rename temporary finalPath) _ trivial) fun _ => ?_
  rw [← hbefore]
  refine (passes_hitWriteFailure _ _).bind fun _ renamed hrenamed => ?_
  rw [← hrenamed]
  refine passes_silent_bind (silent_syncDirectory config _) fun _ => ?_
  split
  · exact passes_silent (silent_syncDirectory config _)
  · exact passes_pure rfl

/-- A file that is installed passes the four failure points of its context. -/
theorem passes_writeNewFile :
    Passes (fun _ after => after = trace ++ context.allHits)
      (writeNewFile config path bytes usage context) trace := by
  refine passes_silent_bind (silent_preflightWrite config _ _) fun _ => ?_
  refine passes_silent_bind (silent_callOr .getpid _ trivial) fun pid => ?_
  refine passes_silent_bind (silent_callOr .fetchNonce _ trivial) fun nonce => ?_
  refine passes_silent_bind (silent_callOr (.create _) _ trivial) fun _ => ?_
  refine ((passes_writeTemporary _).tryCatch fun e _ => ?_).bind fun _ before hbefore => ?_
  · refine passes_silent_bind (silent_callIgnored (.close _) trivial) fun _ => ?_
    exact passes_silent_bind (silent_callIgnored (.remove _) trivial) fun _ => passes_throw e
  · refine ((passes_installTemporary _ _).tryCatch fun e _ => ?_).bind fun _ after hafter => ?_
    · exact passes_silent_bind (silent_callIgnored (.remove _) trivial) fun _ => passes_throw e
    · refine passes_pure ?_
      rw [hafter, hbefore, WriteContext.allHits]
      simp only [List.append_assoc]

/-- The answer of an operation that succeeds. -/
theorem answer_of_callOr {op : Op} {error : Errno → Exception} {answer : Answer op}
    {state : World × Trace}
    (hrun : run env.traced (callOr op error) (world, trace) = (.ok answer, state)) :
    env.answer world op = .ok answer ∧ state.1.disk = env.effect world op := by
  rw [callOr, run_bind, call, run_perform] at hrun
  simp only [Environment.traced, Environment.handle] at hrun
  cases hio : env.ioError world.clock op with
  | some e =>
    rw [hio] at hrun
    cases hrun
  | none =>
    rw [hio] at hrun
    dsimp only at hrun
    cases hanswer : env.answer world op with
    | error e =>
      rw [hanswer] at hrun
      cases hrun
    | ok found =>
      rw [hanswer] at hrun
      cases hrun
      exact ⟨rfl, rfl⟩

/-- `atomic_write` of a file that is not there. -/
theorem trace_atomicWrite (hfree : world.disk.lookup path = none)
    (hrun : run env.traced (atomicWrite config path bytes usage context) (world, trace) =
      (.ok usage', (after, trace'))) : trace' = trace ++ context.allHits := by
  obtain ⟨present, ⟨asked, before⟩, hexists, hrest⟩ := run_bind_eq_ok hrun
  obtain rfl : before = trace := (passes_silent (silent_callOr (.exists_ path) _ trivial)).run hexists
  obtain rfl : false = present := by
    have hanswer := (answer_of_callOr hexists).1
    simp only [Environment.answer, hfree] at hanswer
    exact Except.ok.inj hanswer
  exact passes_writeNewFile.run hrest

end Files

/-! ## The operations of the store -/

section Store

variable {trace trace' : Trace} {env : Environment} {world after : World}
  {store store' : DurableRunStore}

/-- A run with a record of the failure points is one without. -/
theorem run_of_traced {α : Type} {p : Prog α} {outcome : Except Exception α}
    (hrun : run env.traced p (world, trace) = (outcome, (after, trace'))) :
    run env.handle p world = (outcome, after) := by
  rw [env.traced_instruments.run p (world, trace), hrun]

theorem Preserves.traced {α : Type} {I : World → Prop} {p : Prog α}
    {outcome : Except Exception α} (hp : Preserves env I p) (hworld : I world)
    (hrun : run env.traced p (world, trace) = (outcome, (after, trace'))) : I after := by
  have hfinal := (hp world hworld).final
  rwa [run_of_traced hrun] at hfinal

theorem post_traced {α : Type} {J : World → Prop} {Q : Except Exception α → World → Prop}
    {p : Prog α} {outcome : Except Exception α} (hp : Wp env.handle J Q p world)
    (hrun : run env.traced p (world, trace) = (outcome, (after, trace'))) : Q outcome after := by
  have hpost := hp.post
  rwa [run_of_traced hrun] at hpost

theorem leaves_traced {α : Type} {J : World → Prop} {P : α → Disk → Prop} {p : Prog α} {a : α}
    (hp : Wp env.handle J (Leaves P) p world)
    (hrun : run env.traced p (world, trace) = (.ok a, (after, trace'))) :
    ∃ next, P a next ∧ next.Same after.disk :=
  post_traced hp hrun a rfl

/-- `record_result` of a block that has no durable result yet. -/
theorem trace_recordResult {result : BlockResult}
    (hnew : (store.durableResults[result.block.blockId.toNat]?).join = none)
    (hfree : world.disk.lookup (blockPathFor result.block) = none)
    (hrun : run env.traced (recordResult store result) (world, trace) =
      (.ok store', (after, trace'))) :
    ∃ context, trace' = trace ++ (WriteContext.blockResult context).allHits := by
  obtain ⟨_, -, hrest⟩ := run_ofExcept_bind_eq_ok hrun
  dsimp only at hrest
  rw [hnew] at hrest
  obtain ⟨bytes, -, hrest⟩ := run_ofExcept_bind_eq_ok hrest
  obtain ⟨usage, ⟨written, before⟩, hwrite, hpure⟩ := run_bind_eq_ok hrest
  cases hpure
  exact ⟨_, trace_atomicWrite hfree hwrite⟩

/-- The failure points of a checkpoint. -/
def checkpointHits (context : FailureContext) : Trace :=
  (WriteContext.manifest context).allHits ++ [(.manifestAfterInstallBeforeMemory, context)]

theorem checkpointManifest_sequence {coordinator : CoordinatorState}
    {leaves : List (AggregateStats Binary64)} {received : List Bool} {status : DurableRunStatus}
    {failure : Option FailureRecord} {manifest : RunManifest}
    (h : checkpointManifest store coordinator leaves received status failure = .ok manifest) :
    store.recovery.manifestSequence ≠ maxWord ∧
      manifest.sequence = store.recovery.manifestSequence + 1 := by
  simp only [checkpointManifest, Result.bind_eq_ok] at h
  obtain ⟨_, -, _, -, _, -, _, -, entries, -, _, hsequence, aggregate, -, hpure⟩ := h
  rw [throwIf_eq_ok, decide_eq_false_iff_not] at hsequence
  cases hpure
  exact ⟨hsequence, rfl⟩

/-- `checkpoint`, when the next manifest is not there. -/
theorem trace_checkpoint {coordinator : CoordinatorState} {leaves : List (AggregateStats Binary64)}
    {received : List Bool} {status : DurableRunStatus} {failure : Option FailureRecord}
    (hfree : world.disk.lookup (manifestPathFor (store.recovery.manifestSequence + 1)) = none)
    (hrun : run env.traced (checkpoint store coordinator leaves received status failure)
      (world, trace) = (.ok store', (after, trace'))) :
    ∃ context, trace' = trace ++ checkpointHits context := by
  obtain ⟨manifest, hmanifest, hrest⟩ := run_ofExcept_bind_eq_ok hrun
  obtain ⟨bytes, -, hrest⟩ := run_ofExcept_bind_eq_ok hrest
  obtain ⟨_, -, hrest⟩ := run_ofExcept_bind_eq_ok hrest
  have hsequence := (checkpointManifest_sequence hmanifest).2
  obtain ⟨usage, ⟨written, before⟩, hwrite, hrest⟩ := run_bind_eq_ok hrest
  obtain ⟨_, ⟨hooked, passed⟩, hhit, hpure⟩ := run_bind_eq_ok hrest
  rw [← hsequence] at hfree
  have hbefore := trace_atomicWrite hfree hwrite
  have hpassed : passed = before ++ [(.manifestAfterInstallBeforeMemory,
      ⟨manifest.runIncarnation, kNoFailureContext, manifest.sequence⟩)] := by
    have hpasses : Passes (fun _ after => after = before ++ [(.manifestAfterInstallBeforeMemory,
        ⟨manifest.runIncarnation, kNoFailureContext, manifest.sequence⟩)])
        (callIgnored (.hit .manifestAfterInstallBeforeMemory
          ⟨manifest.runIncarnation, kNoFailureContext, manifest.sequence⟩)) before := fun _ => rfl
    exact hpasses.run hhit
  cases hpure
  refine ⟨⟨manifest.runIncarnation, kNoFailureContext, manifest.sequence⟩, ?_⟩
  rw [hpassed, hbefore, checkpointHits, List.append_assoc]
  rfl

theorem silent_hasExistingRunPayload (config : RunStoreConfig) :
    Only Op.Silent (hasExistingRunPayload config) := by
  refine only_scan trivial trivial (fun found path => ?_) _
  refine only_bind (silent_callOr (.isRegularFile path) _ trivial) fun regular => ?_
  split
  · exact only_pure _
  · exact only_pure _

/-- The metadata is installed without failure points. -/
theorem passes_atomicWrite_metadata (config : RunStoreConfig) (path : Path) (bytes : Bytes)
    (usage : StorageUsage) :
    Passes (fun _ after => after = trace) (atomicWrite config path bytes usage .metadata) trace := by
  refine passes_silent_bind (silent_callOr (.exists_ path) _ trivial) fun present => ?_
  split
  · refine passes_silent_bind (silent_readFile config _ _ _) fun existing => ?_
    split
    · exact passes_pure rfl
    · exact passes_throw _
  · exact passes_writeNewFile.mono fun _ after hafter => hafter.trans (List.append_nil trace)

theorem passes_obtainMetadata (config : RunStoreConfig) (expected : RunMetadata)
    (usage : StorageUsage) :
    Passes (fun _ after => after = trace) (obtainMetadata config expected usage) trace := by
  refine passes_silent_bind (silent_callOr (.exists_ metadataPath) _ trivial) fun existed => ?_
  split
  · refine passes_silent_bind (silent_readFile config _ _ _) fun bytes => ?_
    refine passes_silent_bind (only_ofExcept _) fun metadata => ?_
    exact passes_silent_bind (only_ofExcept _) fun _ => passes_pure rfl
  · refine passes_silent_bind (silent_hasExistingRunPayload config) fun payload => ?_
    refine passes_silent_bind (only_ofExcept _) fun _ => ?_
    refine passes_silent_bind (only_ofExcept _) fun bytes => ?_
    refine passes_silent_bind (silent_preflightRunCompletion config _ _) fun _ => ?_
    exact (passes_atomicWrite_metadata config _ _ _).bind fun _ _ hafter => passes_pure hafter

theorem silent_load (engineConfig : EngineConfig) (config : RunStoreConfig)
    (metadata : RunMetadata) :
    Only Op.Silent (loadLatestValidManifest engineConfig config metadata) :=
  only_loadLatestValidManifest trivial trivial (fun _ => Op.Reads.silent) _ _ _

/-- The first manifest of a run, in a directory without manifests. -/
theorem trace_startRun {config : RunStoreConfig} {metadata : RunMetadata} {existed : Bool}
    {blocks : List ScenarioBlock} {usage : StorageUsage} {recovery : DurableRecoveryState}
    (hfree : ∀ sequence, world.disk.lookup (manifestPathFor sequence) = none)
    (hrun : run env.traced (startRun config metadata existed blocks usage) (world, trace) =
      (.ok recovery, (after, trace'))) :
    ∃ context, trace' = trace ++ (WriteContext.manifest context).allHits := by
  have hinstall : ∀ {planned : World},
      (∀ sequence, planned.disk.lookup (manifestPathFor sequence) = none) →
      run env.traced (do
        let initial ← Program.ofExcept (makeManifestFromResults metadata 0 1 .running
          (blocks.map fun block => block.leased 1 1) (List.replicate blocks.length none) none)
        let _ ← installManifest config initial usage
        pure ⟨0, 1, .running, existed, blocks.map fun block => block.leased 1 1,
          List.replicate blocks.length none⟩) (planned, trace) = (.ok recovery, (after, trace')) →
      ∃ context, trace' = trace ++ (WriteContext.manifest context).allHits := by
    intro planned hplanned hstart
    obtain ⟨initial, -, hmade⟩ := run_ofExcept_bind_eq_ok hstart
    obtain ⟨_, ⟨installed, passed⟩, hinstalled, hpure⟩ := run_bind_eq_ok hmade
    obtain ⟨bytes, -, hwrite⟩ := run_ofExcept_bind_eq_ok hinstalled
    cases hpure
    exact ⟨_, trace_atomicWrite (hplanned _) hwrite⟩
  unfold startRun at hrun
  dsimp only at hrun
  split at hrun
  · obtain ⟨_, ⟨planned, before⟩, hplan, hstart⟩ := run_bind_eq_ok hrun
    have hsilent := (passes_silent (silent_preflightRunCompletion _ _ _)).run hplan
    have hkept : planned.disk = world.disk :=
      (preserves_keeps (only_preflightRunCompletion _ _ _) world.disk).traced rfl hplan
    subst hsilent
    exact hinstall (fun sequence => by rw [hkept]; exact hfree sequence) hstart
  · exact hinstall hfree hrun

/-- Only the metadata is written. -/
theorem Registers.lookup_ne {expected metadata : RunMetadata} {disk next : Disk} {existed : Bool}
    (h : Registers env expected disk metadata existed next) {path : Path}
    (hpath : path ≠ metadataPath) : next.lookup path = disk.lookup path := by
  cases h with
  | found hfile hdecode hcompatible => rfl
  | installed hfree hbare hencode => exact AList.lookup_insert_ne hpath

/-- `open` in a directory without manifests. -/
theorem trace_openStore {args : OpenArguments}
    (hfree : ∀ sequence, world.disk.lookup (manifestPathFor sequence) = none)
    (hrun : run env.traced args.openStore (world, trace) = (.ok store, (after, trace'))) :
    ∃ context, trace' = trace ++ (WriteContext.manifest context).allHits := by
  obtain ⟨_, -, hvalid⟩ := run_ofExcept_bind_eq_ok hrun
  obtain ⟨expected, hexpected, hopen⟩ := run_ofExcept_bind_eq_ok hvalid
  dsimp only at hopen
  obtain ⟨usage, ⟨prepared, before⟩, hprepare, hregister⟩ := run_bind_eq_ok hopen
  obtain rfl : before = trace := (passes_silent (silent_prepareDirectory _)).run hprepare
  obtain ⟨⟨metadata, existed, counted⟩, ⟨registered, before⟩, hobtain, hselect⟩ :=
    run_bind_eq_ok hregister
  obtain rfl := (passes_obtainMetadata _ _ _).run hobtain
  obtain ⟨load, ⟨loaded, before⟩, hload, hfinish⟩ := run_bind_eq_ok hselect
  obtain rfl := (passes_silent (silent_load _ _ _)).run hload
  obtain ⟨_, -, hseen⟩ := run_ofExcept_bind_eq_ok hfinish
  obtain ⟨blocks, -, hblocks⟩ := run_ofExcept_bind_eq_ok hseen
  obtain ⟨recovery, ⟨recovered, middle⟩, hrecover, hrest⟩ := run_bind_eq_ok hblocks
  obtain ⟨_, ⟨cleaned, before⟩, hclean, hcount⟩ := run_bind_eq_ok hrest
  obtain rfl := (passes_silent (silent_removeOrphanBlockResults _ _)).run hclean
  obtain ⟨final, ⟨counted, before⟩, husage, hpure⟩ := run_bind_eq_ok hcount
  obtain rfl := (passes_silent silent_storageUsage).run husage
  cases hpure
  have hprepared : world.disk.Same prepared.disk :=
    (preserves_prepareDirectory _).traced (.refl _) hprepare
  obtain ⟨disk, hregisters, hregistered⟩ := leaves_traced (wp_obtainMetadata hprepared) hobtain
  have hkeeps : loaded.disk = registered.disk :=
    (preserves_keeps (only_loadLatestValidManifest trivial trivial
      (fun op hop => by cases op <;> trivial) _ _ _) registered.disk).traced rfl hload
  have hfree' : ∀ sequence, loaded.disk.lookup (manifestPathFor sequence) = none := by
    intro sequence
    rw [hkeeps, hregistered _ (lasting_manifestPathFor sequence),
      hregisters.lookup_ne (by intro h; cases h)]
    exact hfree sequence
  have hloaded : load.loaded = none := by
    have hmetadata : MetadataOf args.build args.spec args.engineConfig metadata := by
      cases hregisters with
      | found hfile hdecode hcompatible => exact .found hexpected hdecode hcompatible
      | installed hnone hbare hencode => exact .installed hexpected
    obtain ⟨canonical, hcanonical, hcount⟩ := hmetadata.makeBlocks
    by_contra hsome
    obtain ⟨snapshot, hsnapshot⟩ := Option.ne_none_iff_exists'.mp hsome
    have hloads := post_traced (wp_loadLatestValidManifest hcanonical hcount) hload load rfl
    obtain ⟨bytes, hfile, -⟩ := (hloads.qualifies snapshot hsnapshot).2.file
    rw [← hkeeps, Disk.file, hfree'] at hfile
    cases hfile
  unfold obtainRecovery at hrecover
  rw [hloaded] at hrecover
  exact trace_startRun hfree' hrecover

end Store

end MonteCarlo
