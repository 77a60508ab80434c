import MonteCarlo.Store.Durability
import MonteCarlo.Store.Opening

/-!
# Storage accounting

The store counts the bytes and files of its directory: once when it is opened, then at the end
of every `atomic_write`.  The rename comes earlier, so a write that fails to synchronise a
directory leaves a file that is never counted.

* `recordResult_outcome`, `checkpoint_outcome` — a mutator touches nothing, or is one
  `atomic_write`.
* `StoreCall`, `runCalls` — any sequence of mutator calls, each of which may throw.
* `storage_accounting_exact_iff` — the counters are exact after every call if and only if no
  attempt to synchronise a directory has failed.
-/

namespace MonteCarlo

open Effects Effects.Program

/-! ## Counting files -/

/-- The counters are the truth. -/
structure StorageUsage.Counts (usage : StorageUsage) (disk : Disk) : Prop where
  bytes : usage.bytes.toNat = disk.bytes
  files : usage.files.toNat = disk.files

section Insert

variable {disk : Disk} {path : Path} {bytes : Bytes}

theorem Disk.file_insert_ne {other : Path} {node : Node} (h : other ≠ path) :
    Disk.file (disk.insert path node) other = disk.file other := by
  unfold Disk.file
  rw [AList.lookup_insert_ne h]

theorem Disk.notMem_keys (hfree : disk.lookup path = none) : path ∉ disk.keys := by
  rw [← AList.mem_keys, ← AList.lookup_isSome, hfree]
  exact nofun

theorem Disk.keys_insert {node : Node} (hfree : disk.lookup path = none) :
    (disk.insert path node).keys = path :: disk.keys := by
  rw [AList.keys_insert, List.erase_of_not_mem (Disk.notMem_keys hfree)]

theorem Disk.bytes_insert (hfree : disk.lookup path = none) :
    Disk.bytes (disk.insert path (.regular bytes)) = disk.bytes + bytes.length := by
  have hrest : Disk.bytesOf (disk.insert path (.regular bytes)) disk.keys =
      disk.bytesOf disk.keys := by
    refine congrArg List.sum (List.map_congr_left fun other hother => ?_)
    rw [Disk.file_insert_ne (ne_of_mem_of_not_mem hother (Disk.notMem_keys hfree))]
  rw [Disk.bytes, Disk.keys_insert hfree, Disk.bytesOf_cons, hrest, Disk.file_insert, Disk.bytes]
  exact Nat.add_comm _ _

theorem Disk.files_insert (hfree : disk.lookup path = none) :
    Disk.files (disk.insert path (.regular bytes)) = disk.files + 1 := by
  have hrest : Disk.filesOf (disk.insert path (.regular bytes)) disk.keys =
      disk.filesOf disk.keys := by
    refine List.countP_congr fun other hother => ?_
    rw [Disk.file_insert_ne (ne_of_mem_of_not_mem hother (Disk.notMem_keys hfree))]
  rw [Disk.files, Disk.keys_insert hfree, Disk.filesOf_cons, hrest, Disk.file_insert, Disk.files]
  rfl

end Insert

/-- The counters that a write leaves behind. -/
def usageAfter (usage : StorageUsage) : Except Exception StorageUsage → StorageUsage
  | .ok after => after
  | .error _ => usage

/-- Temporary files can be removed. -/
def Environment.RemovesTemporaries (env : Environment) : Prop :=
  ∀ time path, path.dir = .tmp → env.ioError time (.remove path) = none

section Write

variable {env : Environment} {config : RunStoreConfig} {finalPath : Path} {bytes : Bytes}
  {usage : StorageUsage} {before after : Tracked} {outcome : Except Exception StorageUsage}

/-- One write keeps the counters exact if and only if no directory fails to be synchronised. -/
theorem WriteOutcome.counts (hremove : env.RemovesTemporaries)
    (h : WriteOutcome env config finalPath bytes usage before outcome after)
    (hcounts : usage.Counts before.world.disk) :
    (usageAfter usage outcome).Counts after.world.disk ↔ after.failures = before.failures := by
  cases h with
  | present hfile hsame =>
    refine iff_of_true ?_ hsame.failures
    rw [hsame.disk]
    exact hcounts
  | installed hfree hfits hdisk _ _ hfailures =>
    refine iff_of_true ⟨?_, ?_⟩ hfailures
    · rw [hdisk, Disk.bytes_insert hfree, ← hcounts.bytes]
      exact hfits.add.1
    · rw [hdisk, Disk.files_insert hfree, ← hcounts.files]
      exact hfits.add.2
  | unchanged hdisk hfailures =>
    refine iff_of_true ?_ hfailures
    rw [hdisk]
    exact hcounts
  | leftover htemporary _ _ hstuck _ =>
    obtain ⟨pid, nonce, rfl⟩ := htemporary
    exact absurd (hremove _ _ rfl) hstuck
  | unsynced hfree _ hdisk hfailures =>
    refine iff_of_false (fun hafter => ?_) (by omega)
    -- the file is there, and it has not been counted
    have hmore := hafter.files
    rw [hdisk, Disk.files_insert hfree, ← hcounts.files] at hmore
    exact absurd hmore (Nat.ne_of_lt (Nat.lt_succ_self _))

theorem WriteOutcome.of_same {last : Tracked}
    (h : WriteOutcome env config finalPath bytes usage before outcome after)
    (hsame : after.Same last) : WriteOutcome env config finalPath bytes usage before outcome last := by
  have hdisk := hsame.disk
  have hflushed := hsame.flushed
  have hfailures := hsame.failures
  cases h with
  | present hfile hfirst => exact .present hfile (hfirst.trans hsame)
  | installed hfree hfits hd hc he hf =>
    exact .installed hfree hfits (hdisk.trans hd) (by rw [hflushed, hc]) (by rw [hflushed, he])
      (hfailures.trans hf)
  | unchanged hd hf => exact .unchanged (hdisk.trans hd) (hfailures.trans hf)
  | leftover ht hfree hh hs hf =>
    exact .leftover ht hfree (by rwa [hdisk]) hs (hfailures.trans hf)
  | unsynced hfree hfits hd hf =>
    exact .unsynced hfree hfits (hdisk.trans hd) (by rw [hfailures]; exact hf)

end Write

/-! ## The mutators -/

/-- The store after a result was recorded. -/
def DurableRunStore.recorded (store : DurableRunStore) (result : BlockResult)
    (usage : StorageUsage) : DurableRunStore :=
  { store with
    durableResults := store.durableResults.set result.block.blockId.toNat (some result)
    usage := usage }

/-- How `record_result` ends: it touches nothing, or it is one write. -/
inductive RecordOutcome (env : Environment) (store : DurableRunStore) (result : BlockResult)
    (before : Tracked) : Except Exception DurableRunStore → Tracked → Prop
  | refused {e : Exception} {after : Tracked} (hsame : before.Same after) :
      RecordOutcome env store result before (.error e) after
  | repeated {earlier : BlockResult} {after : Tracked} (hcheck : checkRecord store result = .ok ())
      (hearlier : (store.durableResults[result.block.blockId.toNat]?).join = some earlier)
      (hattempt : sameAttempt earlier result = true) (hsame : before.Same after) :
      RecordOutcome env store result before (.ok store) after
  | written {bytes : Bytes} {outcome : Except Exception StorageUsage} {after : Tracked}
      (hcheck : checkRecord store result = .ok ())
      (hfirst : (store.durableResults[result.block.blockId.toNat]?).join = none)
      (hencode : encodeBlockRecord ⟨store.metadata.runId, result⟩ = .ok bytes)
      (hwrite : WriteOutcome env store.config (blockPathFor result.block) bytes store.usage before
        outcome after) :
      RecordOutcome env store result before (outcome.map (store.recorded result)) after

/-- The store after a checkpoint. -/
def DurableRunStore.checkpointed (store : DurableRunStore) (sequence : UInt64)
    (status : DurableRunStatus) (received : List Bool) (usage : StorageUsage) : DurableRunStore :=
  { store with
    recovery := { store.recovery with
      manifestSequence := sequence
      status := status
      committedResults :=
        commitReceived store.recovery.committedResults store.durableResults received }
    usage := usage }

/-- How `checkpoint` ends. -/
inductive CheckpointOutcome (env : Environment) (store : DurableRunStore)
    (coordinator : CoordinatorState) (leaves : List (AggregateStats Binary64))
    (received : List Bool) (status : DurableRunStatus) (failure : Option FailureRecord)
    (before : Tracked) : Except Exception DurableRunStore → Tracked → Prop
  | refused {e : Exception} {after : Tracked} (hsame : before.Same after) :
      CheckpointOutcome env store coordinator leaves received status failure before (.error e) after
  | written {manifest : RunManifest} {bytes : Bytes} {outcome : Except Exception StorageUsage}
      {after : Tracked}
      (hmanifest : checkpointManifest store coordinator leaves received status failure =
        .ok manifest)
      (hencode : encodeManifest manifest = .ok bytes)
      (hlimit : bytes.length ≤ store.config.maxManifestBytes.toNat)
      (hwrite : WriteOutcome env store.config (manifestPathFor manifest.sequence) bytes store.usage
        before outcome after) :
      CheckpointOutcome env store coordinator leaves received status failure before
        (outcome.map (store.checkpointed manifest.sequence status received)) after

section Mutators

variable {env : Environment} {store : DurableRunStore} {before after : Tracked}
  {outcome : Except Exception DurableRunStore}

theorem recordResult_outcome {result : BlockResult}
    (h : run env.tracked (recordResult store result) before = (outcome, after)) :
    RecordOutcome env store result before outcome after := by
  rw [recordResult, run_bind, run_ofExcept] at h
  cases hcheck : checkRecord store result with
  | error e =>
    rw [hcheck] at h
    obtain ⟨rfl, rfl⟩ := Prod.mk.inj h
    exact .refused (.refl before)
  | ok _ =>
    simp only [hcheck] at h
    cases hearlier : (store.durableResults[result.block.blockId.toNat]?).join with
    | some earlier =>
      simp only [hearlier] at h
      split at h
      · obtain ⟨rfl, rfl⟩ := Prod.mk.inj h
        exact .repeated hcheck hearlier (by assumption) (.refl before)
      · obtain ⟨rfl, rfl⟩ := Prod.mk.inj h
        exact .refused (.refl before)
    | none =>
      simp only [hearlier] at h
      rw [run_bind, run_ofExcept] at h
      cases hencode : encodeBlockRecord ⟨store.metadata.runId, result⟩ with
      | error e =>
        rw [hencode] at h
        obtain ⟨rfl, rfl⟩ := Prod.mk.inj h
        exact .refused (.refl before)
      | ok bytes =>
        simp only [hencode] at h
        rw [run_bind] at h
        rcases hrun : run env.tracked (atomicWrite store.config (blockPathFor result.block) bytes
          store.usage (.blockResult ⟨result.block.runIncarnation, result.block.blockId,
            kNoFailureContext⟩)) before with ⟨written, last⟩
        rw [hrun] at h
        have hwrite := atomicWrite_outcome hrun
        cases written with
        | error e =>
          obtain ⟨rfl, rfl⟩ := Prod.mk.inj h
          exact .written hcheck hearlier hencode hwrite
        | ok usage =>
          obtain ⟨rfl, rfl⟩ := Prod.mk.inj h
          exact .written hcheck hearlier hencode hwrite

theorem checkpoint_outcome {coordinator : CoordinatorState}
    {leaves : List (AggregateStats Binary64)} {received : List Bool} {status : DurableRunStatus}
    {failure : Option FailureRecord}
    (h : run env.tracked (checkpoint store coordinator leaves received status failure) before =
      (outcome, after)) :
    CheckpointOutcome env store coordinator leaves received status failure before outcome after := by
  rw [checkpoint, run_bind, run_ofExcept] at h
  cases hmanifest : checkpointManifest store coordinator leaves received status failure with
  | error e =>
    rw [hmanifest] at h
    obtain ⟨rfl, rfl⟩ := Prod.mk.inj h
    exact .refused (.refl before)
  | ok manifest =>
    simp only [hmanifest] at h
    rw [run_bind, run_ofExcept] at h
    cases hencode : encodeManifest manifest with
    | error e =>
      rw [hencode] at h
      obtain ⟨rfl, rfl⟩ := Prod.mk.inj h
      exact .refused (.refl before)
    | ok bytes =>
      simp only [hencode] at h
      rw [run_bind, run_ofExcept] at h
      by_cases hlimit : store.config.maxManifestBytes.toNat < bytes.length
      · rw [decide_eq_true hlimit, throwIf_true] at h
        obtain ⟨rfl, rfl⟩ := Prod.mk.inj h
        exact .refused (.refl before)
      · simp only [decide_eq_false hlimit, throwIf_false] at h
        rw [run_bind] at h
        rcases hrun : run env.tracked (atomicWrite store.config (manifestPathFor manifest.sequence)
          bytes store.usage (manifestContext manifest)) before with ⟨written, last⟩
        rw [hrun] at h
        have hwrite := atomicWrite_outcome hrun
        cases written with
        | error e =>
          obtain ⟨rfl, rfl⟩ := Prod.mk.inj h
          exact .written hmanifest hencode (not_lt.mp hlimit) hwrite
        | ok usage =>
          -- the hook after the installation
          obtain ⟨rfl, rfl⟩ := Prod.mk.inj h
          exact .written hmanifest hencode (not_lt.mp hlimit)
            (hwrite.of_same (env.tracked_idle last (show (Op.hit _ _).Idle from trivial)))

end Mutators

/-! ## Sequences of calls -/

/-- A call of `record_result` or `checkpoint`. -/
inductive StoreCall where
  | recordResult (result : BlockResult)
  | checkpoint (coordinator : CoordinatorState) (leaves : List (AggregateStats Binary64))
      (received : List Bool) (status : DurableRunStatus) (failure : Option FailureRecord)

/-- The code of a call. -/
def StoreCall.program (store : DurableRunStore) : StoreCall → Prog DurableRunStore
  | .recordResult result => MonteCarlo.recordResult store result
  | .checkpoint coordinator leaves received status failure =>
    MonteCarlo.checkpoint store coordinator leaves received status failure

/-- The store and the machine after a call; a call that throws leaves the store as it was. -/
def StoreCall.step (env : Environment) (state : DurableRunStore × Tracked) (call : StoreCall) :
    DurableRunStore × Tracked :=
  match run env.tracked (call.program state.1) state.2 with
  | (.ok store, after) => (store, after)
  | (.error _, after) => (state.1, after)

/-- The same after a sequence of calls. -/
def runCalls (env : Environment) (state : DurableRunStore × Tracked) (calls : List StoreCall) :
    DurableRunStore × Tracked :=
  calls.foldl (StoreCall.step env) state

/-- The counters of the store are exact. -/
def Accounted (state : DurableRunStore × Tracked) : Prop :=
  state.1.usage.Counts state.2.world.disk

section Calls

variable {env : Environment} {state : DurableRunStore × Tracked}

/-- One call. -/
theorem StoreCall.step_accounted (hremove : env.RemovesTemporaries) (call : StoreCall)
    (h : Accounted state) :
    Accounted (call.step env state) ↔ (call.step env state).2.failures = state.2.failures := by
  obtain ⟨store, before⟩ := state
  -- a call that touches nothing
  have hsame : ∀ {after : Tracked}, before.Same after →
      (Accounted (store, after) ↔ after.failures = before.failures) := by
    intro after hsame
    refine iff_of_true ?_ hsame.failures
    unfold Accounted
    rw [hsame.disk]
    exact h
  rcases hrun : run env.tracked (call.program store) before with ⟨outcome, after⟩
  have hstep : call.step env (store, before) =
      match outcome with
      | .ok next => (next, after)
      | .error _ => (store, after) := by
    simp only [step, hrun]
    cases outcome <;> rfl
  rw [hstep]
  cases call with
  | recordResult result =>
    cases recordResult_outcome hrun with
    | refused hs => exact hsame hs
    | repeated _ _ _ hs => exact hsame hs
    | @written bytes written _ _ _ _ hwrite =>
      have hcounts := hwrite.counts hremove h
      cases written <;> exact hcounts
  | checkpoint coordinator leaves received status failure =>
    cases checkpoint_outcome hrun with
    | refused hs => exact hsame hs
    | @written manifest bytes written _ _ _ _ hwrite =>
      have hcounts := hwrite.counts hremove h
      cases written <;> exact hcounts

theorem StoreCall.failures_le_step (env : Environment) (call : StoreCall)
    (state : DurableRunStore × Tracked) :
    state.2.failures ≤ (call.step env state).2.failures := by
  have hle := failures_le_run env (call.program state.1) state.2
  unfold step
  split <;> simp_all only

theorem failures_le_runCalls (env : Environment) (state : DurableRunStore × Tracked)
    (calls : List StoreCall) : state.2.failures ≤ (runCalls env state calls).2.failures := by
  induction calls generalizing state with
  | nil => exact le_rfl
  | cons call rest ih => exact (call.failures_le_step env state).trans (ih _)

/-- A sequence of calls. -/
theorem runCalls_accounted (hremove : env.RemovesTemporaries) (calls : List StoreCall)
    (h : Accounted state) :
    (∀ made, made <+: calls → Accounted (runCalls env state made)) ↔
      (runCalls env state calls).2.failures = state.2.failures := by
  induction calls generalizing state with
  | nil => exact iff_of_true (fun made hmade => List.prefix_nil.mp hmade ▸ h) rfl
  | cons call rest ih =>
    have hstep := call.step_accounted hremove h
    constructor
    · intro hall
      have hnext : Accounted (call.step env state) :=
        hall [call] (List.prefix_append [call] rest)
      have hrest := (ih hnext).mp fun made hmade =>
        hall (call :: made) ((List.prefix_cons_inj call).mpr hmade)
      exact hrest.trans (hstep.mp hnext)
    · intro hfailures made hmade
      have hfirst := call.failures_le_step env state
      have hlater := failures_le_runCalls env (call.step env state) rest
      have hsame : (call.step env state).2.failures = state.2.failures :=
        le_antisymm (hlater.trans hfailures.le) hfirst
      have hnext := hstep.mpr hsame
      cases made with
      | nil => exact h
      | cons other made =>
        obtain ⟨rfl, hrest⟩ := List.cons_prefix_cons.mp hmade
        exact (ih hnext).mpr (hfailures.trans hsame.symm) made hrest

/-- An opened store has counted its directory. -/
theorem openStore_accounted {build : BuildIdentity} {spec : RunSpec} {engineConfig : EngineConfig}
    {storeConfig : RunStoreConfig} {start opened : Tracked} {store : DurableRunStore}
    (hnext : ∀ time, env.ioError time (.nextEntry .usage) = none)
    (h : run env.tracked (openStore build spec engineConfig storeConfig) start =
      (.ok store, opened)) : Accounted (store, opened) := by
  obtain ⟨_, _, -, h⟩ := run_bind_eq_ok h
  obtain ⟨expected, _, -, h⟩ := run_bind_eq_ok h
  obtain ⟨usage, _, -, h⟩ := run_bind_eq_ok h
  obtain ⟨⟨metadata, existed, usage'⟩, _, -, h⟩ := run_bind_eq_ok h
  obtain ⟨load, _, -, h⟩ := run_bind_eq_ok h
  rw [finishOpen] at h
  obtain ⟨_, _, -, h⟩ := run_bind_eq_ok h
  obtain ⟨blocks, _, -, h⟩ := run_bind_eq_ok h
  obtain ⟨recovery, _, -, h⟩ := run_bind_eq_ok h
  obtain ⟨_, cleaned, -, h⟩ := run_bind_eq_ok h
  obtain ⟨counted, last, husage, h⟩ := run_bind_eq_ok h
  obtain ⟨hstore, rfl⟩ := Prod.mk.inj h
  obtain rfl := Except.ok.inj hstore
  have hplain := env.tracked_instruments.run storageUsage cleaned
  rw [husage] at hplain
  obtain ⟨hbytes, hfiles, hsame⟩ := storageUsage_eq_ok hnext hplain
  have hdisk : last.world.disk = cleaned.world.disk := hsame.1
  refine ⟨?_, ?_⟩
  · rw [hdisk]
    exact hbytes
  · rw [hdisk]
    exact hfiles

end Calls

/-- After every call of a sequence the counters are the bytes and files of the directory, if and
only if none of the calls has failed to open, synchronise or close a directory. -/
theorem storage_accounting_exact_iff {build : BuildIdentity} {spec : RunSpec}
    {engineConfig : EngineConfig} {storeConfig : RunStoreConfig} {opening env : Environment}
    {start opened : Tracked} {store : DurableRunStore}
    (hnext : ∀ time, opening.ioError time (.nextEntry .usage) = none)
    (hopen : run opening.tracked (openStore build spec engineConfig storeConfig) start =
      (.ok store, opened))
    (hremove : env.RemovesTemporaries) (calls : List StoreCall) :
    (∀ made, made <+: calls → Accounted (runCalls env (store, opened) made)) ↔
      (runCalls env (store, opened) calls).2.failures = opened.failures :=
  runCalls_accounted hremove calls (openStore_accounted hnext hopen)

/-- The coordinator of a store without results. -/
def DurableRunStore.freshCoordinator (store : DurableRunStore) : CoordinatorState where
  runSpecHash := store.metadata.runSpecHash
  executionLayoutHash := store.metadata.executionLayoutHash
  buildFingerprint := store.metadata.buildFingerprint
  runIncarnation := store.recovery.runIncarnation
  rngVersion := store.spec.rngVersion
  statsSchemaVersion := store.spec.statsSchemaVersion
  antithetic := store.spec.antithetic
  blocks := store.recovery.blocks
  committedPayloads := store.recovery.blocks.map fun _ => none

/-- A checkpoint of a store without results. -/
def DurableRunStore.freshCheckpoint (store : DurableRunStore) : StoreCall :=
  .checkpoint store.freshCoordinator (store.recovery.blocks.map fun _ => .empty)
    (store.recovery.blocks.map fun _ => false) .running none

/-- An empty directory opens, and where no directory can be synchronised a checkpoint of it leaves a
file that is not counted. -/
theorem opened_twoScenarios :
    ∃ store opened, run Environment.idle.tracked
        (openStore ⟨[66]⟩ twoScenarios singleBlocks (.defaults "run")) .empty =
          (.ok store, opened) ∧
      (runCalls .brokenSync (store, opened) [store.freshCheckpoint]).1.usage.files.toNat ≠
        (runCalls .brokenSync (store, opened) [store.freshCheckpoint]).2.world.disk.files := by
  have hmiscounted : returnedPassing (fun store opened =>
      let final := runCalls .brokenSync (store, opened) [store.freshCheckpoint]
      decide (final.1.usage.files.toNat ≠ final.2.world.disk.files))
      (run Environment.idle.tracked
        (openStore ⟨[66]⟩ twoScenarios singleBlocks (.defaults "run")) .empty) = true := by
    decide +kernel
  obtain ⟨store, opened, hrun, htest⟩ := exists_of_returnedPassing hmiscounted
  exact ⟨store, opened, hrun, of_decide_eq_true htest⟩

/-- Without errors a checkpoint is counted. -/
theorem storage_accounting_exact_iff_checkpoint :
    ∃ store opened, run Environment.idle.tracked
        (openStore ⟨[66]⟩ twoScenarios singleBlocks (.defaults "run")) .empty =
          (.ok store, opened) ∧
      ((∀ made, made <+: [store.freshCheckpoint] →
          Accounted (runCalls .idle (store, opened) made)) ↔
        (runCalls .idle (store, opened) [store.freshCheckpoint]).2.failures = opened.failures) := by
  obtain ⟨store, opened, hrun, -⟩ := opened_twoScenarios
  exact ⟨store, opened, hrun, storage_accounting_exact_iff (fun _ => rfl) hrun (fun _ _ _ => rfl) _⟩

/-- A checkpoint that cannot synchronise the directory leaves a file that is not counted. -/
theorem checkpoint_not_accounted :
    ∃ store opened, run Environment.idle.tracked
        (openStore ⟨[66]⟩ twoScenarios singleBlocks (.defaults "run")) .empty =
          (.ok store, opened) ∧
      ¬ Accounted (runCalls .brokenSync (store, opened) [store.freshCheckpoint]) := by
  obtain ⟨store, opened, hrun, hmiscounted⟩ := opened_twoScenarios
  exact ⟨store, opened, hrun, fun h => hmiscounted h.files⟩

end MonteCarlo
