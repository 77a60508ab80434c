import MonteCarlo.Engine.Commits
import MonteCarlo.Store.RunStore

/-!
# `run_parallel_durable`

The durable run of `engine.cpp`: it opens the store, computes what is missing with
`execute_missing_blocks`, makes every result durable before it is counted, checkpoints
periodically and completes the run.

All calls of the file system are made by the coordinating thread: by `open`, by
`consume_result` and by the last checkpoint.  `RunParallelDurable` and `DurableVisits` describe an
invocation under an arbitrary handler of these calls: how it can end, and the states between any
two of its calls, over all interleavings of its threads.

* `durableProgram` — the same invocation without threads, given the results in the order of
  their delivery.
* `DurableVisits.sequential`, `RunParallelDurable.sequential` — every interleaving is one of these.
-/

namespace MonteCarlo

open Effects Effects.Program

/-- `DurableRunResult`. -/
structure DurableRunResult where
  run : RunResult
  runId : Sha256Digest
  manifestSequence : UInt64
  runIncarnation : UInt64
  recoveredBlocks : UInt64
  computedBlocks : UInt64
  recoveredScenarios : UInt64
  computedScenarios : UInt64
  resumed : Bool
  deriving DecidableEq, Repr

/-- The variables of `run_parallel_durable` that its `consume_result` captures. -/
structure DurableMemory where
  store : DurableRunStore
  coordinator : CoordinatorState
  leaves : List (AggregateStats Binary64)
  received : List Bool
  recoveredBlocks : UInt64
  recoveredScenarios : UInt64
  computedBlocks : UInt64
  computedScenarios : UInt64
  pendingSinceCheckpoint : UInt64
  deriving DecidableEq, Repr

/-- An exception of `run_parallel_durable`. -/
def durableError (what : String) : Exception := ⟨.runtimeError, .runParallelDurable, what⟩

/-- The loop body over the committed results. -/
def recoverResult (memory : DurableMemory) (entry : Option BlockResult × ℕ) : DurableMemory :=
  match entry.1 with
  | none => memory
  | some result =>
    { memory with
      coordinator := { memory.coordinator with
        committedPayloads :=
          memory.coordinator.committedPayloads.set entry.2 (some result.payloadChecksum) }
      leaves := memory.leaves.set entry.2 result.aggregate
      received := memory.received.set entry.2 true
      recoveredBlocks := memory.recoveredBlocks + 1
      recoveredScenarios :=
        memory.recoveredScenarios + (result.block.endScenario - result.block.startScenario) }

/-- `run_parallel_durable` between `open` and `execute_missing_blocks`. -/
def beginRun (build : BuildIdentity) (spec : RunSpec) (engineConfig : EngineConfig)
    (store : DurableRunStore) : Result DurableMemory := do
  let recovery := store.recovery
  throwIf (recovery.status = .failed)
    (durableError "durable run is in a failed state and requires operator intervention")
  let coordinator ← makeCoordinatorState build spec engineConfig recovery.blocks
  pure (recovery.committedResults.zipIdx.foldl recoverResult
    { store := store
      coordinator := coordinator
      leaves := List.replicate recovery.blocks.length .empty
      received := List.replicate recovery.blocks.length false
      recoveredBlocks := 0
      recoveredScenarios := 0
      computedBlocks := 0
      computedScenarios := 0
      pendingSinceCheckpoint := 0 })

/-- The failure record of a result that the coordinator rejects. -/
def rejectionRecord (completed : BlockResult) (validation : Validation)
    (coordinator : CoordinatorState) : FailureRecord where
  status := validation.status
  blockId := completed.block.blockId
  runIncarnation := completed.block.runIncarnation
  leaseEpoch := completed.block.leaseEpoch
  observedChecksum := completed.payloadChecksum
  committedChecksum :=
    let index := min completed.block.blockId.toNat (coordinator.committedPayloads.length - 1)
    ((coordinator.committedPayloads[index]?).join).getD (Vector.replicate 32 0)
  reason := ascii validation.reason

/-- The variables after a result has been committed. -/
def DurableMemory.commit (memory : DurableMemory) (store : DurableRunStore)
    (coordinator : CoordinatorState) (completed : BlockResult) : DurableMemory :=
  let leaf := completed.block.blockId.toNat
  { memory with
    store := store
    coordinator := coordinator
    leaves := memory.leaves.set leaf completed.aggregate
    received := memory.received.set leaf true
    computedBlocks := memory.computedBlocks + 1
    computedScenarios :=
      memory.computedScenarios + (completed.block.endScenario - completed.block.startScenario)
    pendingSinceCheckpoint := memory.pendingSinceCheckpoint + 1 }

/-- Whether a periodic checkpoint is due. -/
def DurableMemory.checkpointDue (memory : DurableMemory) : Bool :=
  decide (memory.store.config.checkpointIntervalBlocks ≤ memory.pendingSinceCheckpoint)
    && decide (memory.recoveredBlocks + memory.computedBlocks <
      UInt64.ofNat memory.store.recovery.blocks.length)

/-- The `consume_result` of `run_parallel_durable`. -/
def consumeDurable (completed : BlockResult) (memory : DurableMemory) : Prog DurableMemory := do
  let validation ← Program.ofExcept (validateResult completed memory.coordinator)
  if isBenignRejection validation.status then pure memory
  else if validation.status ≠ .accepted then do
    let _ ← checkpoint memory.store memory.coordinator memory.leaves memory.received .failed
      (some (rejectionRecord completed validation memory.coordinator))
    throw (durableError ("coordinator rejected durable block result as "
      ++ validation.status.text ++ ": " ++ validation.reason))
  else do
    let store ← recordResult memory.store completed
    let (committed, coordinator) ← Program.ofExcept (commitResult completed memory.coordinator)
    Program.ofExcept (throwIf (committed.status ≠ .accepted)
      ⟨.logicError, .runParallelDurable, "validated durable result changed classification"⟩)
    let memory := memory.commit store coordinator completed
    if memory.checkpointDue then do
      let store ← checkpoint memory.store memory.coordinator memory.leaves memory.received
      pure { memory with store := store, pendingSinceCheckpoint := 0 }
    else pure memory

/-- The end of `run_parallel_durable`. -/
def durableResult (spec : RunSpec) (memory : DurableMemory) (workersUsed : ℕ) :
    Result DurableRunResult := do
  let aggregate ← reduceBlockResults memory.leaves
  pure
    { run := ⟨aggregate, spec.totalScenarios,
        UInt64.ofNat memory.store.recovery.blocks.length, workersUsed⟩
      runId := memory.store.metadata.runId
      manifestSequence := memory.store.recovery.manifestSequence
      runIncarnation := memory.store.recovery.runIncarnation
      recoveredBlocks := memory.recoveredBlocks
      computedBlocks := memory.computedBlocks
      recoveredScenarios := memory.recoveredScenarios
      computedScenarios := memory.computedScenarios
      resumed := memory.store.recovery.resumed }

/-- `run_parallel_durable` from the return of `execute_missing_blocks` on. -/
def finishDurable (spec : RunSpec) (memory : DurableMemory) (workersUsed : ℕ) :
    Prog DurableRunResult := do
  Program.ofExcept (throwIf (memory.received.any (!·))
    (durableError "durable run ended before every block completed"))
  let store ← checkpoint memory.store memory.coordinator memory.leaves memory.received .complete
  Program.ofExcept (durableResult spec { memory with store := store } workersUsed)

/-! ## The start of a run -/

section Beginning

variable {build : BuildIdentity} {spec : RunSpec} {config : EngineConfig}

/-- The elements of `entries` written into a list, each at its position. -/
def setAll {A : Type} (f : BlockResult → A) (xs : List A)
    (entries : List (Option BlockResult × ℕ)) : List A :=
  entries.foldl (fun xs entry => match entry.1 with
    | none => xs
    | some result => xs.set entry.2 (f result)) xs

theorem getElem?_setAll {A : Type} (f : BlockResult → A) :
    ∀ (results : List (Option BlockResult)) (offset : ℕ) (xs : List A),
      xs.length = offset + results.length → ∀ i : ℕ, (setAll f xs (results.zipIdx offset))[i]? =
        if offset ≤ i then
          match (results[i - offset]?).join with
          | some result => some (f result)
          | none => xs[i]?
        else xs[i]? := by
  intro results
  induction results with
  | nil =>
    intro offset xs _ i
    simp [setAll]
  | cons result rest ih =>
    intro offset xs hlength i
    rw [List.length_cons] at hlength
    rw [List.zipIdx_cons]
    cases result with
    | none =>
      change (setAll f xs (rest.zipIdx (offset + 1)))[i]? = _
      rw [ih (offset + 1) xs (by omega) i]
      rcases lt_trichotomy i offset with hlt | rfl | hgt
      · rw [if_neg (by omega), if_neg (by omega)]
      · simp
      · rw [if_pos (by omega), if_pos (by omega), show i - offset = i - (offset + 1) + 1 by omega,
          List.getElem?_cons_succ]
    | some result =>
      change (setAll f (xs.set offset (f result)) (rest.zipIdx (offset + 1)))[i]? = _
      rw [ih (offset + 1) _ (by rw [List.length_set]; omega) i]
      rcases lt_trichotomy i offset with hlt | rfl | hgt
      · rw [if_neg (by omega), if_neg (by omega), List.getElem?_set_ne (by omega)]
      · rw [if_neg (by omega), if_pos (by omega), List.getElem?_set_self (by omega)]
        simp
      · rw [if_pos (by omega), if_pos (by omega), show i - offset = i - (offset + 1) + 1 by omega,
          List.getElem?_cons_succ, List.getElem?_set_ne (by omega)]

/-- Written into a constant list of the same length, they replace it. -/
theorem setAll_replicate {A : Type} (f : BlockResult → A) (d : A)
    (results : List (Option BlockResult)) :
    setAll f (List.replicate results.length d) results.zipIdx =
      results.map fun result => result.elim d f := by
  apply List.ext_getElem?
  intro i
  rw [getElem?_setAll f results 0 _ (by simp) i, if_pos (Nat.zero_le i), Nat.sub_zero,
    List.getElem?_map]
  by_cases hi : i < results.length
  · rw [List.getElem?_eq_getElem hi, List.getElem?_replicate, if_pos hi]
    cases results[i] <;> rfl
  · rw [List.getElem?_eq_none (by omega), List.getElem?_replicate, if_neg hi]
    rfl

/-- The number of scenarios in a list of results. -/
def scenariosOf (results : List (Option BlockResult)) : ℕ :=
  (results.map fun result => result.elim 0
    fun r => (r.block.endScenario - r.block.startScenario).toNat).sum

/-- The recovery loop, component by component. -/
theorem foldl_recoverResult (entries : List (Option BlockResult × ℕ)) (memory : DurableMemory) :
    entries.foldl recoverResult memory =
      { memory with
        coordinator := { memory.coordinator with
          committedPayloads := setAll (fun result => some result.payloadChecksum)
            memory.coordinator.committedPayloads entries }
        leaves := setAll (·.aggregate) memory.leaves entries
        received := setAll (fun _ => true) memory.received entries
        recoveredBlocks := memory.recoveredBlocks +
          UInt64.ofNat (entries.countP fun entry => entry.1.isSome)
        recoveredScenarios := memory.recoveredScenarios +
          UInt64.ofNat (scenariosOf (entries.map (·.1))) } := by
  induction entries generalizing memory with
  | nil => simp [setAll, scenariosOf]
  | cons entry rest ih =>
    rw [List.foldl_cons, ih]
    obtain ⟨result, index⟩ := entry
    cases result with
    | none => simp [recoverResult, setAll, scenariosOf]
    | some result =>
      have hcount : memory.recoveredBlocks + 1 +
          UInt64.ofNat (rest.countP fun entry => entry.1.isSome) =
          memory.recoveredBlocks + UInt64.ofNat (((some result, index) :: rest).countP
            fun entry => entry.1.isSome) := by
        rw [List.countP_cons_of_pos (by rfl), Nat.add_comm, UInt64.ofNat_add, ← UInt64.add_assoc]
        rfl
      have hscenarios : memory.recoveredScenarios +
          (result.block.endScenario - result.block.startScenario) +
            UInt64.ofNat (scenariosOf (rest.map (·.1))) =
          memory.recoveredScenarios + UInt64.ofNat (scenariosOf
            (((some result, index) :: rest).map (·.1))) := by
        rw [scenariosOf, scenariosOf, List.map_cons, List.map_cons, List.sum_cons,
          UInt64.ofNat_add, ← UInt64.add_assoc]
        simp
      simp only [recoverResult, DurableMemory.mk.injEq, true_and, and_true]
      exact ⟨rfl, rfl, rfl, hcount, hscenarios⟩

/-- The recovery loop leaves the store and the identity of the coordinator alone. -/
theorem beginRun_coordinator {store : DurableRunStore} {memory : DurableMemory}
    (h : beginRun build spec config store = .ok memory) :
    memory.store = store ∧ ∃ coordinator,
      makeCoordinatorState build spec config store.recovery.blocks = .ok coordinator ∧
      memory.coordinator =
        { coordinator with committedPayloads := memory.coordinator.committedPayloads } := by
  obtain ⟨⟨⟩, -, h⟩ := Result.bind_eq_ok.mp h
  obtain ⟨coordinator, hcoordinator, h⟩ := Result.bind_eq_ok.mp h
  cases h
  rw [foldl_recoverResult]
  exact ⟨rfl, coordinator, hcoordinator, rfl⟩

/-- The variables at the call of `execute_missing_blocks`. -/
theorem beginRun_eq_ok {store : DurableRunStore} {memory : DurableMemory}
    (h : beginRun build spec config store = .ok memory)
    (hlength : store.recovery.committedResults.length = store.recovery.blocks.length) :
    store.recovery.status ≠ .failed ∧ ∃ coordinator,
      makeCoordinatorState build spec config store.recovery.blocks = .ok coordinator ∧
      memory =
        { store := store
          coordinator := { coordinator with
            committedPayloads := store.recovery.committedResults.map (·.map (·.payloadChecksum)) }
          leaves := leavesOf store.recovery.committedResults
          received := store.recovery.committedResults.map (·.isSome)
          recoveredBlocks := UInt64.ofNat (store.recovery.committedResults.countP (·.isSome))
          recoveredScenarios := UInt64.ofNat (scenariosOf store.recovery.committedResults)
          computedBlocks := 0
          computedScenarios := 0
          pendingSinceCheckpoint := 0 } := by
  obtain ⟨⟨⟩, hstatus, h⟩ := Result.bind_eq_ok.mp h
  obtain ⟨coordinator, hcoordinator, h⟩ := Result.bind_eq_ok.mp h
  cases h
  rw [throwIf_eq_ok, decide_eq_false_iff_not] at hstatus
  refine ⟨hstatus, coordinator, hcoordinator, ?_⟩
  obtain ⟨-, -, -, -, hpayloads, -⟩ := makeCoordinatorState_eq_ok hcoordinator
  have hfst : store.recovery.committedResults.zipIdx.map (·.1) = store.recovery.committedResults :=
    List.zipIdx_map_fst _ _
  have hcount : (store.recovery.committedResults.zipIdx.countP fun entry => entry.1.isSome) =
      store.recovery.committedResults.countP (·.isSome) := by
    conv_rhs => rw [← hfst, List.countP_map]
    rfl
  rw [foldl_recoverResult, hfst, hcount, hpayloads, ← hlength]
  simp only [setAll_replicate, DurableMemory.mk.injEq, CoordinatorState.mk.injEq, true_and,
    UInt64.zero_add, and_true]
  refine ⟨List.map_congr_left fun result _ => ?_, rfl, List.map_congr_left fun result _ => ?_⟩
  · cases result <;> rfl
  · cases result <;> rfl

end Beginning

/-! ## Invocations -/

section Invocations

variable {σ : Type}

/-- `consume_result` as a function on the state of the machine and the captured variables.
After an exception nothing looks at the variables again. -/
def durableConsume (h : Handler Op Reply σ) (completed : BlockResult) (sink : σ × DurableMemory) :
    Result Unit × (σ × DurableMemory) :=
  match run h (consumeDurable completed sink.2) sink.1 with
  | (.ok memory, s) => (.ok (), (s, memory))
  | (.error e, s) => (.error e, (s, sink.2))

/-- The arguments of an invocation. -/
structure Invocation where
  kernels : RunSpec → Result (ModelKernel Binary64)
  build : BuildIdentity
  spec : RunSpec
  engineConfig : EngineConfig
  storeConfig : RunStoreConfig

namespace Invocation

variable (inv : Invocation) (h : Handler Op Reply σ)

/-- `open` with the arguments of the invocation. -/
def openStore : Prog DurableRunStore :=
  MonteCarlo.openStore inv.build inv.spec inv.engineConfig inv.storeConfig

/-- The job of `execute_missing_blocks`. -/
def job (memory : DurableMemory) : Job :=
  executionJob inv.kernels inv.spec inv.engineConfig
    (missingBlocks memory.store.recovery.blocks memory.received) memory.coordinator.runSpecHash
    memory.coordinator.executionLayoutHash memory.coordinator.buildFingerprint

/-- `s'` and `memory` are the state and the variables when `execute_missing_blocks` is called. -/
structure Begins (s s' : σ) (memory : DurableMemory) : Prop where
  opened : ∃ store, run h inv.openStore s = (.ok store, s') ∧
    beginRun inv.build inv.spec inv.engineConfig store = .ok memory ∧
    store.recovery.status ≠ .complete

/-- How an invocation can end: its outcome and the state it leaves. -/
inductive RunParallelDurable (s : σ) : Result DurableRunResult → σ → Prop where
  | openThrows {e s'} (hopen : run h inv.openStore s = (.error e, s')) :
      RunParallelDurable s (.error e) s'
  | beginThrows {store e s'} (hopen : run h inv.openStore s = (.ok store, s'))
      (hbegin : beginRun inv.build inv.spec inv.engineConfig store = .error e) :
      RunParallelDurable s (.error e) s'
  /-- `recovery.status == DurableRunStatus::Complete` -/
  | complete {store memory s'} (hopen : run h inv.openStore s = (.ok store, s'))
      (hbegin : beginRun inv.build inv.spec inv.engineConfig store = .ok memory)
      (hstatus : store.recovery.status = .complete) :
      RunParallelDurable s (durableResult inv.spec memory 0) s'
  | executionThrows {memory ending e s'} (hbegins : inv.Begins h s s' memory)
      (hexecutes : ExecutesMissing inv.kernels inv.spec inv.engineConfig
        memory.store.recovery.blocks memory.received memory.coordinator.runSpecHash
        memory.coordinator.executionLayoutHash memory.coordinator.buildFingerprint
        (durableConsume h) (s', memory) ending)
      (houtcome : ending.outcome = .error e) :
      RunParallelDurable s (.error e) ending.sink.1
  | finishes {memory ending workers s'} (hbegins : inv.Begins h s s' memory)
      (hexecutes : ExecutesMissing inv.kernels inv.spec inv.engineConfig
        memory.store.recovery.blocks memory.received memory.coordinator.runSpecHash
        memory.coordinator.executionLayoutHash memory.coordinator.buildFingerprint
        (durableConsume h) (s', memory) ending)
      (houtcome : ending.outcome = .ok workers) :
      RunParallelDurable s (run h (finishDurable inv.spec ending.sink.2 workers) ending.sink.1).1
        (run h (finishDurable inv.spec ending.sink.2 workers) ending.sink.1).2

/-- The states between any two calls of an invocation, the first and the last included. -/
inductive DurableVisits (s : σ) : σ → Prop where
  | opening {s'} (hvisits : Visits h inv.openStore s s') : DurableVisits s s'
  | executing {memory s'} {state : Execution (inv.job memory) (σ × DurableMemory)}
      (hbegins : inv.Begins h s s' memory) (hmissing : (inv.job memory).missing ≠ [])
      (hreach : Execution.Reaches (durableConsume h) (s', memory) state) :
      DurableVisits s state.sink.1
  | consuming {memory s' completed now} {state : Execution (inv.job memory) (σ × DurableMemory)}
      (hbegins : inv.Begins h s s' memory) (hmissing : (inv.job memory).missing ≠ [])
      (hreach : Execution.Reaches (durableConsume h) (s', memory) state)
      (hconsuming : state.coordinator = .consuming completed)
      (hvisits : Visits h (consumeDurable completed state.sink.2) state.sink.1 now) :
      DurableVisits s now
  | finishing {memory ending workers s' now} (hbegins : inv.Begins h s s' memory)
      (hexecutes : ExecutesMissing inv.kernels inv.spec inv.engineConfig
        memory.store.recovery.blocks memory.received memory.coordinator.runSpecHash
        memory.coordinator.executionLayoutHash memory.coordinator.buildFingerprint
        (durableConsume h) (s', memory) ending)
      (houtcome : ending.outcome = .ok workers)
      (hvisits : Visits h (finishDurable inv.spec ending.sink.2 workers) ending.sink.1 now) :
      DurableVisits s now

/-! ## Without threads -/

/-- `consume_result` for one result after the other. -/
def consumeAll (results : List BlockResult) (memory : DurableMemory) : Prog DurableMemory :=
  results.foldlM (fun memory completed => consumeDurable completed memory) memory

/-- The invocation without threads: the results are given, in the order of their delivery. -/
def durableProgram (results : List BlockResult) (workers : ℕ) : Prog DurableRunResult := do
  let store ← inv.openStore
  let memory ← Program.ofExcept (beginRun inv.build inv.spec inv.engineConfig store)
  if store.recovery.status = .complete then
    Program.ofExcept (durableResult inv.spec memory 0)
  else do
    let memory ← consumeAll results memory
    finishDurable inv.spec memory workers

/-- Results that workers can deliver: each of a missing block, none twice. -/
structure Deliverable (memory : DurableMemory) (results : List BlockResult) : Prop where
  nodup : (results.map (·.block)).Nodup
  missing : ∀ result ∈ results,
    result.block ∈ missingBlocks memory.store.recovery.blocks memory.received
  made : ∀ result ∈ results, result.MadeOf inv.kernels inv.spec memory.coordinator.runSpecHash
    memory.coordinator.executionLayoutHash memory.coordinator.buildFingerprint result.block

variable {inv h} {s s' : σ} {memory : DurableMemory} {results : List BlockResult}

theorem deliverable_nil : inv.Deliverable memory [] := ⟨List.nodup_nil, by simp, by simp⟩

theorem consumeAll_append (completed : BlockResult) :
    consumeAll (results ++ [completed]) memory =
      consumeAll results memory >>= consumeDurable completed := by
  rw [consumeAll, List.foldlM_append]
  simp only [List.foldlM_cons, List.foldlM_nil, bind_pure]
  rfl

/-- One more result can be delivered. -/
theorem Deliverable.append (hd : inv.Deliverable memory results) {completed : BlockResult}
    (hs : inv.spec.Accepted) (hmissing : completed.block ∈ (inv.job memory).missing)
    (hnew : completed.block ∉ results.map (·.block))
    (hwork : ∃ i : Fin (inv.job memory).workers,
      (inv.job memory).work i completed.block = .ok completed) :
    inv.Deliverable memory (results ++ [completed]) := by
  obtain ⟨i, hwork⟩ := hwork
  refine ⟨?_, ?_, ?_⟩
  · rw [List.map_append, List.nodup_append]
    refine ⟨hd.nodup, by simp, ?_⟩
    rintro block hblock other hother rfl
    rw [List.map_singleton, List.mem_singleton] at hother
    exact hnew (hother ▸ hblock)
  · intro result hresult
    rcases List.mem_append.mp hresult with hresult | hresult
    · exact hd.missing result hresult
    · rw [List.mem_singleton.mp hresult]
      exact hmissing
  · intro result hresult
    rcases List.mem_append.mp hresult with hresult | hresult
    · exact hd.made result hresult
    · rw [List.mem_singleton.mp hresult]
      exact madeOf_of_work hs hwork

/-- What is missing when the execution begins has no block twice. -/
theorem Begins.nodup (hb : inv.Begins h s s' memory) :
    inv.spec.Accepted ∧ (inv.job memory).missing.Nodup := by
  obtain ⟨store, -, hbegin, -⟩ := hb.opened
  obtain ⟨hstore, coordinator, hcoordinator, -⟩ := beginRun_coordinator hbegin
  obtain ⟨hspec, -, hserves, hblocks, -⟩ := makeCoordinatorState_eq_ok hcoordinator
  refine ⟨RunSpec.accepted_of_validate hspec, ?_⟩
  refine (missingBlocks_sublist _ _).nodup ?_
  rw [hstore, ← hblocks]
  exact hserves.positioned.nodup

/-- Whatever the interleaving, the file system has seen `consume_result` for one result after the
other. -/
theorem execution_sequential (hb : inv.Begins h s s' memory)
    {state : Execution (inv.job memory) (σ × DurableMemory)}
    (hreach : Execution.Reaches (durableConsume h) (s', memory) state) :
    (inv.Deliverable memory state.consumed ∧
        run h (consumeAll state.consumed memory) s' = (.ok state.sink.2, state.sink.1)) ∨
      (state.thrown = true ∧ Execution.done state.coordinator = true ∧ ∃ results e,
        inv.Deliverable memory results ∧
        run h (consumeAll results memory) s' = (.error e, state.sink.1)) := by
  obtain ⟨hs, hnodup⟩ := hb.nodup
  refine Execution.sink_invariant
    (P := fun consumed sink => inv.Deliverable memory consumed ∧
      run h (consumeAll consumed memory) s' = (.ok sink.2, sink.1))
    (R := fun sink => ∃ results e, inv.Deliverable memory results ∧
      run h (consumeAll results memory) s' = (.error e, sink.1))
    executionJob_labelled hnodup ⟨deliverable_nil, rfl⟩ ?_ hreach
  rintro consumed completed ⟨now, captured⟩ ⟨hd, hrun⟩ hmissing hnew hwork
  have hd' := hd.append hs hmissing hnew hwork
  have hstep : run h (consumeAll (consumed ++ [completed]) memory) s' =
      run h (consumeDurable completed captured) now := by
    rw [consumeAll_append]
    exact run_bind_ok hrun _
  unfold durableConsume
  rcases hcall : run h (consumeDurable completed captured) now with ⟨e | next, after⟩
  · simp only
    refine ⟨nofun, fun error _ => ⟨_, e, hd', ?_⟩⟩
    rw [hstep, hcall]
  · simp only
    refine ⟨fun _ => ⟨hd', ?_⟩, nofun⟩
    rw [hstep, hcall]

/-- The same at the end of `execute_missing_blocks`. -/
theorem executes_sequential (hb : inv.Begins h s s' memory) {ending : Ending (σ × DurableMemory)}
    (hexecutes : ExecutesMissing inv.kernels inv.spec inv.engineConfig
      memory.store.recovery.blocks memory.received memory.coordinator.runSpecHash
      memory.coordinator.executionLayoutHash memory.coordinator.buildFingerprint
      (durableConsume h) (s', memory) ending) :
    (inv.Deliverable memory ending.consumed ∧
        run h (consumeAll ending.consumed memory) s' = (.ok ending.sink.2, ending.sink.1)) ∨
      (ending.thrown = true ∧ ∃ results e, inv.Deliverable memory results ∧
        run h (consumeAll results memory) s' = (.error e, ending.sink.1)) := by
  cases hexecutes with
  | mismatch hlength => exact Or.inl ⟨deliverable_nil, rfl⟩
  | execute hlength hexecutes =>
    cases hexecutes with
    | nothing hmissing => exact Or.inl ⟨deliverable_nil, rfl⟩
    | run hmissing hreach hreturned =>
      exact (execution_sequential hb hreach).imp id fun h => ⟨h.1, h.2.2⟩

/-- When `execute_missing_blocks` returns, every call of `consume_result` has returned. -/
theorem executes_sequential_ok (hb : inv.Begins h s s' memory)
    {ending : Ending (σ × DurableMemory)} {workers : ℕ}
    (hexecutes : ExecutesMissing inv.kernels inv.spec inv.engineConfig
      memory.store.recovery.blocks memory.received memory.coordinator.runSpecHash
      memory.coordinator.executionLayoutHash memory.coordinator.buildFingerprint
      (durableConsume h) (s', memory) ending)
    (houtcome : ending.outcome = .ok workers) :
    inv.Deliverable memory ending.consumed ∧
      run h (consumeAll ending.consumed memory) s' = (.ok ending.sink.2, ending.sink.1) := by
  rcases executes_sequential hb hexecutes with hdelivered | ⟨hthrown, -⟩
  · exact hdelivered
  · obtain ⟨store, -, hbegin, -⟩ := hb.opened
    obtain ⟨-, coordinator, hcoordinator, -⟩ := beginRun_coordinator hbegin
    obtain ⟨-, hconfig, -⟩ := makeCoordinatorState_eq_ok hcoordinator
    obtain ⟨error, herror⟩ := (hexecutes.exactlyOnce (EngineConfig.workerCount_pos hconfig)).2
      hthrown
    rw [houtcome] at herror
    cases herror

/-- The part of the program after `open`. -/
theorem Begins.bind_right (hb : inv.Begins h s s' memory) (workers : ℕ) {now : σ}
    (hv : Visits h (consumeAll results memory >>= fun memory =>
      finishDurable inv.spec memory workers) s' now) :
    Visits h (inv.durableProgram results workers) s now := by
  obtain ⟨store, hopen, hbegin, hstatus⟩ := hb.opened
  refine Visits.bind_right hopen (Visits.bind_right (by rw [run_ofExcept, hbegin]) ?_)
  rw [if_neg hstatus]
  exact hv

theorem Begins.unique (hb : inv.Begins h s s' memory) {store : DurableRunStore} {t : σ}
    {other : DurableMemory} (hopen : run h inv.openStore s = (.ok store, t))
    (hbegin : beginRun inv.build inv.spec inv.engineConfig store = .ok other) : other = memory := by
  obtain ⟨store', hopen', hbegin', -⟩ := hb.opened
  rw [hopen] at hopen'
  cases hopen'
  rw [hbegin] at hbegin'
  exact Except.ok.inj hbegin'

/-- Every state that an interleaving passes through, the invocation without threads passes
through as well, for some order of delivery. -/
theorem DurableVisits.sequential {now : σ} (hv : inv.DurableVisits h s now) :
    ∃ results workers, Visits h (inv.durableProgram results workers) s now ∧
      ∀ store t memory, run h inv.openStore s = (.ok store, t) →
        beginRun inv.build inv.spec inv.engineConfig store = .ok memory →
        inv.Deliverable memory results := by
  cases hv with
  | opening hvisits => exact ⟨[], 0, hvisits.bind_left _, fun _ _ _ _ _ => deliverable_nil⟩
  | @executing memory s' state hb hmissing hreach =>
    rcases execution_sequential hb hreach with ⟨hd, hrun⟩ | ⟨-, -, results, e, hd, hrun⟩
    · refine ⟨state.consumed, 0, hb.bind_right 0 (Visits.bind_left ?_ _), ?_⟩
      · have := visits_final h (consumeAll state.consumed memory) s'
        rwa [hrun] at this
      · intro store t other hopen hbegin
        rw [hb.unique hopen hbegin]
        exact hd
    · refine ⟨results, 0, hb.bind_right 0 (Visits.bind_left ?_ _), ?_⟩
      · have := visits_final h (consumeAll results memory) s'
        rwa [hrun] at this
      · intro store t other hopen hbegin
        rw [hb.unique hopen hbegin]
        exact hd
  | @consuming memory s' completed _ state hb hmissing hreach hconsuming hvisits =>
    obtain ⟨hs, hnodup⟩ := hb.nodup
    rcases execution_sequential hb hreach with ⟨hd, hrun⟩ | ⟨-, hdone, -⟩
    · obtain ⟨hmem, hnew, hwork⟩ :=
        (Execution.lawful_of_reaches executionJob_labelled hreach).inHand hnodup hconsuming
      refine ⟨state.consumed ++ [completed], 0, hb.bind_right 0 (Visits.bind_left ?_ _), ?_⟩
      · rw [consumeAll_append]
        exact Visits.bind_right hrun hvisits
      · intro store t other hopen hbegin
        rw [hb.unique hopen hbegin]
        exact hd.append hs hmem hnew hwork
    · rw [hconsuming] at hdone
      cases hdone
  | @finishing memory ending workers s' _ hb hexecutes houtcome hvisits =>
    obtain ⟨hd, hrun⟩ := executes_sequential_ok hb hexecutes houtcome
    refine ⟨ending.consumed, workers, hb.bind_right workers (Visits.bind_right hrun hvisits), ?_⟩
    intro store t other hopen hbegin
    rw [hb.unique hopen hbegin]
    exact hd

end Invocation

end Invocations

end MonteCarlo
