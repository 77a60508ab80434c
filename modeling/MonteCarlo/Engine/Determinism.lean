import MonteCarlo.Engine.SingleRun
import MonteCarlo.Store.Agreement

/-!
# What a run with one worker does not depend on

The program of an invocation with one worker is the same for all capacities of the queues, and on
two comparable machines it does the same.

* `singleProgram_withQueues` — the capacities of the queues.
* `agrees_singleProgram` — the machine.
-/

namespace MonteCarlo

open Effects Effects.Program

/-! ## The capacities of the queues -/

/-- Other capacities of the queues. -/
def EngineConfig.withQueues (config : EngineConfig) (assignment completion : ℕ) : EngineConfig :=
  { config with
    assignmentQueueCapacity := assignment
    completionQueueCapacity := completion }

/-- The same store, opened with another configuration of the engine. -/
def DurableRunStore.withEngine (store : DurableRunStore) (engineConfig : EngineConfig) :
    DurableRunStore :=
  { store with engineConfig := engineConfig }

/-- The same variables, with a store of another configuration of the engine. -/
def DurableMemory.withEngine (memory : DurableMemory) (engineConfig : EngineConfig) :
    DurableMemory :=
  { memory with store := memory.store.withEngine engineConfig }

section Queues

variable {assignment completion : ℕ} {engineConfig : EngineConfig}

theorem makeBlocks_withQueues (spec : RunSpec) (config : EngineConfig) :
    makeBlocks spec (config.withQueues assignment completion) = makeBlocks spec config := rfl

theorem tryCandidates_withQueues (config : EngineConfig) (storeConfig : RunStoreConfig)
    (metadata : RunMetadata) (files : List (UInt64 × Path)) (lastError : String) :
    tryCandidates (config.withQueues assignment completion) storeConfig metadata files lastError =
      tryCandidates config storeConfig metadata files lastError := by
  induction files generalizing lastError with
  | nil => rfl
  | cons candidate rest ih =>
    have hcandidate : tryCandidate (config.withQueues assignment completion) storeConfig metadata
        candidate = tryCandidate config storeConfig metadata candidate := by
      unfold tryCandidate loadCandidate validateManifestSnapshot
      simp only [makeBlocks_withQueues]
    rw [tryCandidates, tryCandidates, hcandidate]
    congr 1
    funext outcome
    cases outcome with
    | loaded snapshot => rfl
    | skipped message => exact ih message

theorem openStore_withQueues (build : BuildIdentity) (spec : RunSpec) (config : EngineConfig)
    (storeConfig : RunStoreConfig) :
    openStore build spec (config.withQueues assignment completion) storeConfig = (do
      let store ← openStore build spec config storeConfig
      pure (store.withEngine (config.withQueues assignment completion))) := by
  have hexpected : expectedMetadata build spec (config.withQueues assignment completion) =
      expectedMetadata build spec config := rfl
  simp only [openStore, finishOpen, loadLatestValidManifest, tryCandidates_withQueues,
    makeBlocks_withQueues, hexpected, bind_assoc, pure_bind]
  rfl

theorem beginRun_withQueues (build : BuildIdentity) (spec : RunSpec) (config : EngineConfig)
    (store : DurableRunStore) :
    beginRun build spec (config.withQueues assignment completion) (store.withEngine engineConfig) =
      (do
        let memory ← beginRun build spec config store
        pure (memory.withEngine engineConfig)) := by
  have hcoordinator : makeCoordinatorState build spec (config.withQueues assignment completion)
      store.recovery.blocks = makeCoordinatorState build spec config store.recovery.blocks := rfl
  simp only [beginRun, foldl_recoverResult, DurableRunStore.withEngine, hcoordinator, bind_assoc,
    pure_bind]
  rfl

theorem checkpointEntries_withEngine (store : DurableRunStore) (coordinator : CoordinatorState)
    (leaves : List (AggregateStats Binary64)) (index : ℕ) (received : List Bool) :
    checkpointEntries (store.withEngine engineConfig) coordinator leaves index received =
      checkpointEntries store coordinator leaves index received := by
  induction received generalizing index with
  | nil => rfl
  | cons bit rest ih =>
    cases bit with
    | false => exact ih (index + 1)
    | true =>
      simp only [checkpointEntries, ih]
      rfl

theorem recordResult_withEngine (store : DurableRunStore) (result : BlockResult) :
    recordResult (store.withEngine engineConfig) result = (do
      let next ← recordResult store result
      pure (next.withEngine engineConfig)) := by
  have hcheck : checkRecord (store.withEngine engineConfig) result = checkRecord store result := rfl
  simp only [recordResult, hcheck, bind_assoc]
  congr 1
  funext _
  have hresults : (store.withEngine engineConfig).durableResults = store.durableResults := rfl
  rw [hresults]
  cases (store.durableResults[result.block.blockId.toNat]?).join with
  | some earlier =>
    dsimp only
    split
    · rfl
    · rfl
  | none =>
    simp only [bind_assoc, pure_bind]
    rfl

theorem checkpoint_withEngine (store : DurableRunStore) (coordinator : CoordinatorState)
    (leaves : List (AggregateStats Binary64)) (received : List Bool) (status : DurableRunStatus)
    (failure : Option FailureRecord) :
    checkpoint (store.withEngine engineConfig) coordinator leaves received status failure = (do
      let next ← checkpoint store coordinator leaves received status failure
      pure (next.withEngine engineConfig)) := by
  have hmanifest : checkpointManifest (store.withEngine engineConfig) coordinator leaves received
      status failure = checkpointManifest store coordinator leaves received status failure := by
    simp only [checkpointManifest, checkpointEntries_withEngine]
    rfl
  simp only [checkpoint, hmanifest, bind_assoc, pure_bind]
  rfl

theorem consumeDurable_withEngine (completed : BlockResult) (memory : DurableMemory) :
    consumeDurable completed (memory.withEngine engineConfig) = (do
      let next ← consumeDurable completed memory
      pure (next.withEngine engineConfig)) := by
  have hstore : (memory.withEngine engineConfig).store = memory.store.withEngine engineConfig := rfl
  have hcoordinator : (memory.withEngine engineConfig).coordinator = memory.coordinator := rfl
  have hleaves : (memory.withEngine engineConfig).leaves = memory.leaves := rfl
  have hreceived : (memory.withEngine engineConfig).received = memory.received := rfl
  simp only [consumeDurable, hstore, hcoordinator, hleaves, hreceived, bind_assoc]
  congr 1
  funext validation
  split
  · rfl
  · split
    · simp only [checkpoint_withEngine, bind_assoc, pure_bind]
      rfl
    · simp only [recordResult_withEngine, bind_assoc, pure_bind]
      congr 1
      funext store
      congr 1
      funext committed
      congr 1
      funext _
      have hcommit : (memory.withEngine engineConfig).commit (store.withEngine engineConfig)
          committed.2 completed = (memory.commit store committed.2 completed).withEngine
            engineConfig := rfl
      have hdue : ∀ memory : DurableMemory, (memory.withEngine engineConfig).checkpointDue =
          memory.checkpointDue := fun _ => rfl
      rw [hcommit, hdue]
      split
      · change checkpoint ((memory.commit store committed.2 completed).store.withEngine
          engineConfig) _ _ _ _ _ >>= _ = _
        rw [checkpoint_withEngine]
        simp only [bind_assoc, pure_bind]
        rfl
      · rfl

namespace Invocation

theorem consumeAll_withEngine (results : List BlockResult) (memory : DurableMemory) :
    consumeAll results (memory.withEngine engineConfig) = (do
      let next ← consumeAll results memory
      pure (next.withEngine engineConfig)) := by
  induction results generalizing memory with
  | nil => rfl
  | cons completed rest ih =>
    rw [consumeAll_cons, consumeAll_cons, consumeDurable_withEngine]
    simp only [bind_assoc, pure_bind, ih]

theorem finishDurable_withEngine (spec : RunSpec) (memory : DurableMemory) (workers : ℕ) :
    finishDurable spec (memory.withEngine engineConfig) workers =
      finishDurable spec memory workers := by
  have hstore : (memory.withEngine engineConfig).store = memory.store.withEngine engineConfig := rfl
  simp only [finishDurable, hstore, checkpoint_withEngine, bind_assoc, pure_bind]
  rfl

/-- The same invocation with other capacities of the queues. -/
def withQueues (inv : Invocation) (assignment completion : ℕ) : Invocation :=
  { inv with engineConfig := inv.engineConfig.withQueues assignment completion }

theorem delivery_withQueues (inv : Invocation) (memory : DurableMemory) :
    ((inv.withQueues assignment completion).job (memory.withEngine engineConfig)).delivery =
      (inv.job memory).delivery := by
  unfold Job.delivery
  have hattempt : ∀ blocks, ((inv.withQueues assignment completion).job
      (memory.withEngine engineConfig)).attempt blocks = (inv.job memory).attempt blocks := by
    intro blocks
    induction blocks with
    | nil => rfl
    | cons block rest ih =>
      simp only [Job.attempt, ih]
      rfl
  simp only [hattempt]
  rfl

/-- The program of an invocation with one worker is the same for all capacities. -/
theorem singleProgram_withQueues (inv : Invocation) :
    (inv.withQueues assignment completion).singleProgram = inv.singleProgram := by
  have hopen : (inv.withQueues assignment completion).openStore = (do
      let store ← inv.openStore
      pure (store.withEngine (inv.engineConfig.withQueues assignment completion))) :=
    openStore_withQueues _ _ _ _
  simp only [singleProgram, hopen, bind_assoc, pure_bind]
  congr 1
  funext store
  have hbegin : beginRun (inv.withQueues assignment completion).build
      (inv.withQueues assignment completion).spec
      (inv.withQueues assignment completion).engineConfig
      (store.withEngine (inv.engineConfig.withQueues assignment completion)) = (do
        let memory ← beginRun inv.build inv.spec inv.engineConfig store
        pure (memory.withEngine (inv.engineConfig.withQueues assignment completion))) :=
    beginRun_withQueues _ _ _ _
  rw [hbegin]
  cases beginRun inv.build inv.spec inv.engineConfig store with
  | error e => rfl
  | ok memory =>
    change (if store.recovery.status = .complete then _ else _) =
      if store.recovery.status = .complete then _ else _
    split
    · rfl
    · simp only [delivery_withQueues, consumeAll_withEngine, bind_assoc, pure_bind,
        finishDurable_withEngine]
      rfl

end Invocation

end Queues

/-! ## The machine -/

section Machines

variable {env env' : Environment} {limit : ℕ}

theorem returns_recordResult_config (store : DurableRunStore) (result : BlockResult) :
    Returns (fun next : DurableRunStore => next.config = store.config)
      (recordResult store result) := by
  refine returns_skip _ fun _ => ?_
  dsimp only
  split
  · split
    · exact returns_pure rfl
    · exact returns_throw _
  · exact returns_skip _ fun bytes => returns_skip _ fun usage => returns_pure rfl

theorem returns_checkpoint_config (store : DurableRunStore) (coordinator : CoordinatorState)
    (leaves : List (AggregateStats Binary64)) (received : List Bool) (status : DurableRunStatus)
    (failure : Option FailureRecord) :
    Returns (fun next : DurableRunStore => next.config = store.config)
      (checkpoint store coordinator leaves received status failure) :=
  returns_skip _ fun _ => returns_skip _ fun _ => returns_skip _ fun _ =>
    returns_skip _ fun _ => returns_skip _ fun _ => returns_pure rfl

theorem returns_consumeDurable_config (completed : BlockResult) (memory : DurableMemory) :
    Returns (fun next : DurableMemory => next.store.config = memory.store.config)
      (consumeDurable completed memory) := by
  refine returns_skip _ fun validation => ?_
  split
  · exact returns_pure rfl
  · split
    · exact returns_skip _ fun store => returns_throw _
    · refine returns_bind (returns_recordResult_config _ _) fun store hstore => ?_
      refine returns_skip _ fun committed => returns_skip _ fun _ => ?_
      dsimp only
      split
      · refine returns_bind (returns_checkpoint_config _ _ _ _ _ _) fun next hnext => ?_
        exact returns_pure (hnext.trans hstore)
      · exact returns_pure hstore

theorem agrees_consumeDurable (henv : env.Comparable env' limit) {memory : DurableMemory}
    (hlimit : memory.store.config.spaceLimit ≤ limit) (completed : BlockResult) :
    Agrees env env' Node.Any Node.Any (consumeDurable completed memory) := by
  refine (agrees_ofExcept _).bind fun validation => ?_
  split
  · exact agrees_pure _
  · split
    · exact (agrees_checkpoint henv hlimit _ _ _ _ _).bind fun _ => agrees_throw _
    · refine (agrees_recordResult henv hlimit completed).bind_returns
        (returns_recordResult_config _ _) fun store hstore => ?_
      refine (agrees_ofExcept _).bind fun committed => (agrees_ofExcept _).bind fun _ => ?_
      have hconfig : (memory.commit store committed.2 completed).store.config.spaceLimit ≤ limit := by
        change store.config.spaceLimit ≤ limit
        rw [hstore]
        exact hlimit
      dsimp only
      split
      · exact (agrees_checkpoint henv hconfig _ _ _ _ _).bind fun _ => agrees_pure _
      · exact agrees_pure _

namespace Invocation

theorem agrees_consumeAll (henv : env.Comparable env' limit) (results : List BlockResult)
    {memory : DurableMemory} (hlimit : memory.store.config.spaceLimit ≤ limit) :
    Agrees env env' Node.Any Node.Any (consumeAll results memory) := by
  induction results generalizing memory with
  | nil => exact agrees_pure _
  | cons completed rest ih =>
    rw [consumeAll_cons]
    refine (agrees_consumeDurable henv hlimit completed).bind_returns
      (returns_consumeDurable_config _ _) fun next hnext => ih ?_
    rw [hnext]
    exact hlimit

theorem returns_consumeAll_config (results : List BlockResult) (memory : DurableMemory) :
    Returns (fun next : DurableMemory => next.store.config = memory.store.config)
      (consumeAll results memory) := by
  induction results generalizing memory with
  | nil => exact returns_pure rfl
  | cons completed rest ih =>
    rw [consumeAll_cons]
    exact returns_bind (returns_consumeDurable_config _ _) fun next hnext =>
      (ih next).mono fun final hfinal => hfinal.trans hnext

theorem agrees_finishDurable (henv : env.Comparable env' limit) (spec : RunSpec)
    {memory : DurableMemory} (hlimit : memory.store.config.spaceLimit ≤ limit) (workers : ℕ) :
    Agrees env env' Node.Any Node.Any (finishDurable spec memory workers) :=
  (agrees_ofExcept _).bind fun _ =>
    (agrees_checkpoint henv hlimit _ _ _ _ _).bind fun _ => agrees_ofExcept _

/-- On two comparable machines an invocation with one worker does the same. -/
theorem agrees_singleProgram {inv : Invocation}
    (henv : env.Comparable env' inv.storeConfig.spaceLimit) :
    Agrees env env' Node.Special Node.Any inv.singleProgram := by
  refine (agrees_openStore henv _ _ _ le_rfl).bind_returns (returns_openStore _ _ _ _)
    fun store hopened => ?_
  refine Agrees.bind_returns (agrees_ofExcept _) (returns_ofExcept fun _ h => h)
    fun memory hbegin => ?_
  have hlimit : memory.store.config.spaceLimit ≤ inv.storeConfig.spaceLimit := by
    rw [(beginRun_coordinator hbegin).1, hopened.config_eq, spaceLimit_resolveCheckpointCadence]
  split
  · exact (agrees_ofExcept _).bind fun _ => agrees_pure _
  · refine (agrees_consumeAll henv _ hlimit).bind_returns (returns_consumeAll_config _ _)
      fun next hnext => ?_
    split
    · exact agrees_pure _
    · rw [← hnext] at hlimit
      exact (agrees_finishDurable henv _ hlimit _).bind fun _ => agrees_pure _

end Invocation

end Machines

end MonteCarlo
