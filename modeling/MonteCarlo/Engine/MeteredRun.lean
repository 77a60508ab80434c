import MonteCarlo.Engine.Metered

/-!
# `run_parallel_durable` with metrics

`run_parallel_durable` with its `metrics` argument: what it does to the file system and what it
returns are the same with metrics and without.

* `Metered.ExecutesMissing` — `execute_missing_blocks`, with the check of the room for the workers.
* `Invocation.MeteredVisits`, `Invocation.MeteredEnds` — the states between two calls, and the ends
  in which no thread throws on its own.
* `prepared_of_beginRun` — the check never fails.
* `meteredVisits_iff`, `meteredEnds_iff` — with the metrics forgotten, these are the states and the
  ends of the invocation without metrics.
-/

namespace MonteCarlo

open Effects Effects.Program MeteredProg

namespace Metered

/-! ## The parts of a run -/

/-- The `consume_result` of `run_parallel_durable`. -/
def consumeDurable (completed : BlockResult) (memory : DurableMemory) :
    MeteredProg DurableMemory := do
  let validation ← Program.ofExcept (validateResult completed memory.coordinator)
  if isBenignRejection validation.status then pure memory
  else if validation.status ≠ .accepted then do
    let _ ← checkpoint memory.store memory.coordinator memory.leaves memory.received .failed
      (some (rejectionRecord completed validation memory.coordinator))
    throw (durableError ("coordinator rejected durable block result as "
      ++ validation.status.text ++ ": " ++ validation.reason))
  else do
    let store ← recordResult memory.store completed
    let (committed, coordinator) ← Program.ofExcept (commitResult completed memory.coordinator)
    Program.ofExcept (throwIf (committed.status ≠ .accepted)
      ⟨.logicError, .runParallelDurable, "validated durable result changed classification"⟩)
    let memory := memory.commit store coordinator completed
    if memory.checkpointDue then do
      let store ← checkpoint memory.store memory.coordinator memory.leaves memory.received
      pure { memory with store := store, pendingSinceCheckpoint := 0 }
    else pure memory

/-- The end of `run_parallel_durable`. -/
def durableResult (spec : RunSpec) (memory : DurableMemory) (workersUsed : ℕ) :
    MeteredProg DurableRunResult := do
  let started ← now
  let result ← Program.ofExcept (MonteCarlo.durableResult spec memory workersUsed)
  stopTimer started .withFixedTreeReduceNs
  pure result

/-- `run_parallel_durable` from the return of `execute_missing_blocks` on. -/
def finishDurable (spec : RunSpec) (memory : DurableMemory) (workersUsed : ℕ) :
    MeteredProg DurableRunResult := do
  Program.ofExcept (throwIf (memory.received.any (!·))
    (durableError "durable run ended before every block completed"))
  let store ← checkpoint memory.store memory.coordinator memory.leaves memory.received .complete
  durableResult spec { memory with store := store } workersUsed

/-- `run_parallel_durable` from `open` to `execute_missing_blocks`. -/
def beginRun (inv : Invocation) : MeteredProg DurableMemory := do
  let store ← openStore inv.build inv.spec inv.engineConfig inv.storeConfig
  let memory ← Program.ofExcept (MonteCarlo.beginRun inv.build inv.spec inv.engineConfig store)
  update (.withBacklog memory.recoveredBlocks.toNat)
  pure memory

/-- The start of `total_timer`. -/
def startTotal : MeteredProg TimePoint := do
  let started ← now
  reset 0 0 0
  pure started

variable {σ : Type}

/-- `consume_result` as a function on the state of the machine, the captured variables and the
metrics. -/
def durableConsume (h : Handler Op Reply σ) (meters : Meters) (completed : BlockResult)
    (sink : (σ × DurableMemory) × Meter) : Result Unit × ((σ × DurableMemory) × Meter) :=
  match run (beside h meters.handle) (consumeDurable completed sink.1.2) (sink.1.1, sink.2) with
  | (.ok memory, s) => (.ok (), ((s.1, memory), s.2))
  | (.error e, s) => (.error e, ((s.1, sink.1.2), s.2))

/-! ## `execute_missing_blocks` -/

/-- There is no room for the measurements of the workers. -/
def capacityError : Exception :=
  ⟨.logicError, .executeMissingBlocks, "runtime metrics worker capacity was not preallocated"⟩

/-- `execute_missing_blocks`. -/
inductive ExecutesMissing {κ : Type} (kernels : RunSpec → Result (ModelKernel Binary64))
    (spec : RunSpec) (config : EngineConfig) (blocks : List ScenarioBlock) (received : List Bool)
    (specHash layoutHash buildFingerprint : Sha256Digest)
    (consume : BlockResult → κ × Meter → Result Unit × (κ × Meter)) (sink : κ × Meter) :
    Ending (κ × Meter) → Prop where
  | mismatch (h : received.length ≠ blocks.length) :
      ExecutesMissing kernels spec config blocks received specHash layoutHash buildFingerprint
        consume sink
        ⟨.error ⟨.invalidArgument, .executeMissingBlocks,
          "received bitmap does not match block universe"⟩, [], true, sink⟩
  /-- `missing_count == 0U` -/
  | nothing (h : received.length = blocks.length) (hmissing : missingBlocks blocks received = []) :
      ExecutesMissing kernels spec config blocks received specHash layoutHash buildFingerprint
        consume sink ⟨.ok 0, [], false, sink⟩
  | unprepared {metrics} (h : received.length = blocks.length)
      (hmissing : missingBlocks blocks received ≠ []) (hmetrics : sink.2.metrics = some metrics)
      (hcapacity : metrics.workers.capacity <
        min config.workerCount (missingBlocks blocks received).length) :
      ExecutesMissing kernels spec config blocks received specHash layoutHash buildFingerprint
        consume sink ⟨.error capacityError, [], true, sink⟩
  | run {outcome} {state : MeteredExecution (executionJob kernels spec config
        (missingBlocks blocks received) specHash layoutHash buildFingerprint) κ}
      (h : received.length = blocks.length) (hmissing : missingBlocks blocks received ≠ [])
      (hprepared : sink.2.Prepared (min config.workerCount (missingBlocks blocks received).length))
      (hreach : MeteredExecution.Reaches consume blocks.length sink state)
      (hreturned : state.execution.coordinator = .returned outcome) :
      ExecutesMissing kernels spec config blocks received specHash layoutHash buildFingerprint
        consume sink
        ⟨outcome, state.execution.consumed, state.execution.thrown, state.execution.sink⟩

end Metered

/-- An end, without what lies beside the caller's state. -/
def Ending.forget {κ μ : Type} (ending : Ending (κ × μ)) : Ending κ where
  outcome := ending.outcome
  consumed := ending.consumed
  thrown := ending.thrown
  sink := ending.sink.1

/-! ## Invocations -/

/-- The machine and the metrics, as the threads leave them. -/
def MeteredExecution.machine {job : Job} {σ : Type} (state : MeteredExecution job (σ × DurableMemory)) :
    σ × Meter :=
  (state.execution.sink.1.1, state.execution.sink.2)

namespace Invocation

variable {σ : Type} (inv : Invocation) (h : Handler Op Reply σ) (meters : Meters)

/-- `s'` and `memory` are the state and the variables when `execute_missing_blocks` is called. -/
structure MeteredBegins (s s' : σ × Meter) (memory : DurableMemory) : Prop where
  opened : run (beside h meters.handle) (Metered.beginRun inv) s = (.ok memory, s')
  running : memory.store.recovery.status ≠ .complete

/-- The states between any two calls, while `total_timer` runs. -/
inductive VisitsTimed (s : σ × Meter) : σ × Meter → Prop where
  | opening {s'} (hvisits : Visits (beside h meters.handle) (Metered.beginRun inv) s s') :
      VisitsTimed s s'
  | executing {memory s'} {state : MeteredExecution (inv.job memory) (σ × DurableMemory)}
      (hbegins : inv.MeteredBegins h meters s s' memory) (hmissing : (inv.job memory).missing ≠ [])
      (hprepared : s'.2.Prepared (inv.job memory).workers)
      (hreach : MeteredExecution.Reaches (Metered.durableConsume h meters)
        memory.store.recovery.blocks.length ((s'.1, memory), s'.2) state) :
      VisitsTimed s state.machine
  | consuming {memory s' completed now}
      {state : MeteredExecution (inv.job memory) (σ × DurableMemory)}
      (hbegins : inv.MeteredBegins h meters s s' memory) (hmissing : (inv.job memory).missing ≠ [])
      (hprepared : s'.2.Prepared (inv.job memory).workers)
      (hreach : MeteredExecution.Reaches (Metered.durableConsume h meters)
        memory.store.recovery.blocks.length ((s'.1, memory), s'.2) state)
      (hconsuming : state.execution.coordinator = .consuming completed)
      (hvisits : Visits (beside h meters.handle)
        (Metered.consumeDurable completed state.execution.sink.1.2) state.machine now) :
      VisitsTimed s now
  | finishing {memory ending workers s' now} (hbegins : inv.MeteredBegins h meters s s' memory)
      (hexecutes : Metered.ExecutesMissing inv.kernels inv.spec inv.engineConfig
        memory.store.recovery.blocks memory.received memory.coordinator.runSpecHash
        memory.coordinator.executionLayoutHash memory.coordinator.buildFingerprint
        (Metered.durableConsume h meters) ((s'.1, memory), s'.2) ending)
      (houtcome : ending.outcome = .ok workers)
      (hvisits : Visits (beside h meters.handle)
        (Metered.finishDurable inv.spec ending.sink.1.2 workers) (ending.sink.1.1, ending.sink.2)
          now) :
      VisitsTimed s now

/-- The ends in which no thread throws on its own, before the destructor of `total_timer`. -/
inductive EndsTimed (s : σ × Meter) : Result DurableRunResult → σ × Meter → Prop where
  | beginThrows {e s'}
      (hbegin : run (beside h meters.handle) (Metered.beginRun inv) s = (.error e, s')) :
      EndsTimed s (.error e) s'
  /-- `recovery.status == DurableRunStatus::Complete` -/
  | complete {memory s'}
      (hbegin : run (beside h meters.handle) (Metered.beginRun inv) s = (.ok memory, s'))
      (hstatus : memory.store.recovery.status = .complete) :
      EndsTimed s (run (beside h meters.handle) (Metered.durableResult inv.spec memory 0) s').1
        (run (beside h meters.handle) (Metered.durableResult inv.spec memory 0) s').2
  /-- Nothing is missing. -/
  | nothing {memory s'} (hbegins : inv.MeteredBegins h meters s s' memory)
      (hmissing : (inv.job memory).missing = []) :
      EndsTimed s (run (beside h meters.handle) (Metered.finishDurable inv.spec memory 0) s').1
        (run (beside h meters.handle) (Metered.finishDurable inv.spec memory 0) s').2
  | unprepared {memory s' metrics} (hbegins : inv.MeteredBegins h meters s s' memory)
      (hmissing : (inv.job memory).missing ≠ []) (hmetrics : s'.2.metrics = some metrics)
      (hcapacity : metrics.workers.capacity < (inv.job memory).workers) :
      EndsTimed s (.error Metered.capacityError) s'
  | executionThrows {memory s' e} {state : MeteredExecution (inv.job memory) (σ × DurableMemory)}
      (hbegins : inv.MeteredBegins h meters s s' memory) (hmissing : (inv.job memory).missing ≠ [])
      (hprepared : s'.2.Prepared (inv.job memory).workers)
      (hreach : MeteredExecution.Undisturbed (Metered.durableConsume h meters)
        memory.store.recovery.blocks.length ((s'.1, memory), s'.2) state)
      (hreturned : state.execution.coordinator = .returned (.error e)) :
      EndsTimed s (.error e) state.machine
  | finishes {memory s' workers} {state : MeteredExecution (inv.job memory) (σ × DurableMemory)}
      (hbegins : inv.MeteredBegins h meters s s' memory) (hmissing : (inv.job memory).missing ≠ [])
      (hprepared : s'.2.Prepared (inv.job memory).workers)
      (hreach : MeteredExecution.Undisturbed (Metered.durableConsume h meters)
        memory.store.recovery.blocks.length ((s'.1, memory), s'.2) state)
      (hreturned : state.execution.coordinator = .returned (.ok workers)) :
      EndsTimed s
        (run (beside h meters.handle)
          (Metered.finishDurable inv.spec state.execution.sink.1.2 workers) state.machine).1
        (run (beside h meters.handle)
          (Metered.finishDurable inv.spec state.execution.sink.1.2 workers) state.machine).2

/-- The states between any two calls of an invocation, with the metrics. -/
inductive MeteredVisits (s : σ × Meter) : σ × Meter → Prop where
  | timed {started s₀ now}
      (hstart : run (beside h meters.handle) Metered.startTotal s = (.ok started, s₀))
      (hvisits : inv.VisitsTimed h meters s₀ now) : MeteredVisits s now

/-- The ends of an invocation in which no thread throws on its own, with the metrics. -/
inductive MeteredEnds (s : σ × Meter) (outcome : Result DurableRunResult) : σ × Meter → Prop where
  | timed {started s₀ final}
      (hstart : run (beside h meters.handle) Metered.startTotal s = (.ok started, s₀))
      (hends : inv.EndsTimed h meters s₀ outcome final) :
      -- the destructor of `total_timer`
      MeteredEnds s outcome
        (run (beside h meters.handle) (stopTimer started .withTotalElapsedNs) final).2

end Invocation

/-! ## The parts without the metrics -/

theorem erases_consumeDurable (completed : BlockResult) (memory : DurableMemory) :
    Erases MetricsOp.KeepsWorkers (Metered.consumeDurable completed memory)
      (consumeDurable completed memory) := by
  refine (erases_ofExcept _).bind fun validation => ?_
  split
  · exact erases_pure memory
  · split
    · exact erases_checkpoint.bind fun _ => erases_throw _
    · refine erases_recordResult.bind fun store => (erases_ofExcept _).bind fun committed => ?_
      refine (erases_ofExcept _).bind fun _ => ?_
      dsimp only
      split
      · exact erases_checkpoint.bind fun _ => erases_pure _
      · exact erases_pure _

theorem erases_durableResult (spec : RunSpec) (memory : DurableMemory) (workers : ℕ) :
    Erases MetricsOp.KeepsWorkers (Metered.durableResult spec memory workers)
      (Program.ofExcept (durableResult spec memory workers)) := by
  conv_rhs => rw [← bind_pure (Program.ofExcept _)]
  refine .note_bind trivial fun started => (erases_ofExcept _).bind fun result => ?_
  exact (erases_stopTimer trivial fun _ _ => rfl).skip (erases_pure result)

theorem erases_finishDurable (spec : RunSpec) (memory : DurableMemory) (workers : ℕ) :
    Erases MetricsOp.KeepsWorkers (Metered.finishDurable spec memory workers)
      (finishDurable spec memory workers) :=
  (erases_ofExcept _).bind fun _ => erases_checkpoint.bind fun _ => erases_durableResult _ _ _

/-- `run_parallel_durable` from `open` to `execute_missing_blocks`. -/
def Invocation.beginProgram (inv : Invocation) : Prog DurableMemory := do
  let store ← inv.openStore
  Program.ofExcept (beginRun inv.build inv.spec inv.engineConfig store)

theorem erases_beginRun (inv : Invocation) :
    Erases (fun _ => True) (Metered.beginRun inv) inv.beginProgram := by
  refine (erases_openStore _ _ _ _).bind fun store => ?_
  conv_rhs => rw [← bind_pure (Program.ofExcept _)]
  refine (erases_ofExcept _).bind fun memory => ?_
  exact (erases_update trivial).skip (erases_pure memory)

section Parts

variable {σ : Type} {h : Handler Op Reply σ} {meters : Meters} {inv : Invocation}

/-- `consume_result` does the same with metrics and without. -/
theorem keepsBeside_durableConsume :
    Execution.KeepsBeside (Metered.durableConsume h meters) (durableConsume h) := by
  rintro completed ⟨⟨s, memory⟩, meter⟩
  have hrun := (erases_consumeDurable completed memory).run (h := h) (k := meters.handle)
    (s, meter)
  rw [Metered.durableConsume, durableConsume, hrun]
  rcases run (beside h meters.handle) (Metered.consumeDurable completed memory) (s, meter) with
    ⟨e | next, after⟩
  · exact ⟨rfl, rfl⟩
  · exact ⟨rfl, rfl⟩

/-- Its timer leaves the machine alone. -/
theorem run_startTotal (h : Handler Op Reply σ) (meters : Meters) (s : σ × Meter) :
    ∃ started s₀, run (beside h meters.handle) Metered.startTotal s = (.ok started, s₀) ∧
      s₀.1 = s.1 :=
  ⟨_, _, rfl, rfl⟩

theorem run_stopTimer (started : TimePoint) (f : UInt64 → RuntimeMetrics → RuntimeMetrics)
    (s : σ × Meter) : (run (beside h meters.handle) (stopTimer started f) s).2.1 = s.1 := rfl

end Parts

namespace Invocation

variable {σ : Type} {h : Handler Op Reply σ} {meters : Meters} {inv : Invocation}
  {s s' : σ × Meter} {memory : DurableMemory}

/-! ## The beginning -/

theorem MeteredBegins.plain (hb : inv.MeteredBegins h meters s s' memory) :
    inv.Begins h s.1 s'.1 memory := by
  have hrun := (erases_beginRun inv).run (h := h) (k := meters.handle) s
  rw [hb.opened] at hrun
  obtain ⟨store, t, hopen, hbegin⟩ := run_bind_eq_ok hrun
  rw [run_ofExcept, Prod.mk.injEq] at hbegin
  obtain ⟨hbegin, rfl⟩ := hbegin
  obtain ⟨hstore, -⟩ := beginRun_coordinator hbegin
  exact ⟨store, hopen, hbegin, hstore ▸ hb.running⟩

theorem Begins.run_beginProgram {s s' : σ} (hb : inv.Begins h s s' memory) :
    run h inv.beginProgram s = (.ok memory, s') := by
  obtain ⟨store, hopen, hbegin, -⟩ := hb.opened
  rw [beginProgram, run_bind_ok hopen, run_ofExcept, hbegin]

theorem Begins.exists_metered {s s' : σ} (hb : inv.Begins h s s' memory) (meters : Meters)
    (meter : Meter) :
    ∃ meter', inv.MeteredBegins h meters (s, meter) (s', meter') memory := by
  obtain ⟨meter', hrun⟩ := (erases_beginRun inv).exists_run (k := meters.handle)
    hb.run_beginProgram meter
  obtain ⟨store, -, hbegin, hstatus⟩ := hb.opened
  obtain ⟨hstore, -⟩ := beginRun_coordinator hbegin
  exact ⟨meter', hrun, hstore.symm ▸ hstatus⟩

/-- The blocks of an opened store are those of the run. -/
theorem length_blocks_of_openStore {store : DurableRunStore} {s s' : σ}
    (hopen : run h inv.openStore s = (.ok store, s')) :
    store.recovery.blocks.length = (blockCount inv.spec inv.engineConfig.blockSize).toNat := by
  have hopened := (returns_openStore _ _ _ _).run hopen
  obtain ⟨canonical, blocks, -, hblocks, -, hrecovered⟩ := hopened.recovered
  obtain ⟨leases, hleases, hleased, -⟩ := hrecovered.leased
  obtain ⟨-, -, -, -, hmade⟩ := makeBlocks_eq_ok hblocks
  rw [hleased, length_leaseAll hleases, hmade, List.length_map, List.length_range]

/-- The check of the room for the workers never fails. -/
theorem MeteredBegins.prepared (hb : inv.MeteredBegins h meters s s' memory) :
    s'.2.Prepared (inv.job memory).workers := by
  obtain ⟨store, t, hopen, hrest⟩ := run_bind_eq_ok hb.opened
  obtain ⟨found, hbegin, hrest⟩ := run_ofExcept_bind_eq_ok hrest
  obtain ⟨_, t', hupdate, hpure⟩ := run_bind_eq_ok hrest
  cases hpure
  have hbacklog : Erases MetricsOp.KeepsWorkers
      (update (.withBacklog memory.recoveredBlocks.toNat)) (pure () : Prog Unit) :=
    erases_update fun _ => rfl
  have hkept := hbacklog.preserves (fun op meter hop hmeter => meters.handle_prepared op hop hmeter)
    hupdate (prepared_of_openStore hopen)
  refine hkept.mono (min_le_min_left _ ?_)
  have hplain := (erases_openStore inv.build inv.spec inv.engineConfig inv.storeConfig).run (h := h)
    (k := meters.handle) s
  rw [hopen] at hplain
  obtain ⟨hstore, -⟩ := beginRun_coordinator hbegin
  rw [← length_blocks_of_openStore hplain, ← hstore]
  exact (missingBlocks_sublist _ _).length_le

/-! ## Every interleaving -/

variable {outcome : Result DurableRunResult}

/-- Where there is room for the workers, `execute_missing_blocks` is as without metrics. -/
theorem executesMissing_plain {ending : Ending ((σ × DurableMemory) × Meter)}
    (hprepared : s'.2.Prepared (inv.job memory).workers)
    (h' : Metered.ExecutesMissing inv.kernels inv.spec inv.engineConfig
      memory.store.recovery.blocks memory.received memory.coordinator.runSpecHash
      memory.coordinator.executionLayoutHash memory.coordinator.buildFingerprint
      (Metered.durableConsume h meters) ((s'.1, memory), s'.2) ending) :
    ExecutesMissing inv.kernels inv.spec inv.engineConfig memory.store.recovery.blocks
      memory.received memory.coordinator.runSpecHash memory.coordinator.executionLayoutHash
      memory.coordinator.buildFingerprint (durableConsume h) (s'.1, memory) ending.forget := by
  cases h' with
  | mismatch hlength => exact .mismatch hlength
  | nothing hlength hmissing => exact .execute hlength (.nothing hmissing)
  | unprepared hlength hmissing hmetrics hcapacity =>
    exact absurd (hprepared _ hmetrics) (Nat.not_le.mpr hcapacity)
  | run hlength hmissing hprepared hreach hreturned =>
    exact .execute hlength (.run hmissing (hreach.plain keepsBeside_durableConsume) hreturned)

/-- With the metrics forgotten, the states between two calls are those without metrics. -/
theorem VisitsTimed.plain {now : σ × Meter} (hv : inv.VisitsTimed h meters s now) :
    inv.DurableVisits h s.1 now.1 := by
  cases hv with
  | opening hvisits =>
    rcases visits_bind ((erases_beginRun inv).visits hvisits) with hopen | ⟨store, -, hbegin⟩
    · exact .opening hopen
    · have hfinal : now.1 = (run h inv.openStore s.1).2 := by
        cases hresult : beginRun inv.build inv.spec inv.engineConfig store with
        | ok memory =>
          rw [hresult] at hbegin
          exact hbegin
        | error e =>
          rw [hresult] at hbegin
          exact hbegin
      rw [hfinal]
      exact .opening (visits_final h _ _)
  | executing hb hmissing _ hreach =>
    exact .executing hb.plain hmissing (hreach.plain keepsBeside_durableConsume)
  | consuming hb hmissing _ hreach hconsuming hvisits =>
    exact .consuming hb.plain hmissing (hreach.plain keepsBeside_durableConsume) hconsuming
      ((erases_consumeDurable _ _).visits hvisits)
  | finishing hb hexecutes houtcome hvisits =>
    exact .finishing hb.plain (executesMissing_plain hb.prepared hexecutes) houtcome
      ((erases_finishDurable _ _ _).visits hvisits)

/-- With the metrics forgotten, the ends are those without metrics. -/
theorem EndsTimed.plain {final : σ × Meter} (he : inv.EndsTimed h meters s outcome final) :
    inv.EndsUndisturbed h s.1 outcome final.1 := by
  cases he with
  | @beginThrows e _ hbegin =>
    have hrun := (erases_beginRun inv).run (h := h) (k := meters.handle) s
    rw [hbegin] at hrun
    have hearly : ∀ t memory, ¬ inv.Begins h s.1 t memory := by
      intro t memory hb
      rw [hb.run_beginProgram] at hrun
      cases hrun
    rw [beginProgram, run_bind] at hrun
    rcases hopen : run h inv.openStore s.1 with ⟨e' | store, t⟩
    · rw [hopen] at hrun
      cases hrun
      exact .early (.openThrows hopen) hearly
    · rw [hopen] at hrun
      dsimp only at hrun
      rw [run_ofExcept, Prod.mk.injEq] at hrun
      obtain ⟨hthrows, rfl⟩ := hrun
      exact .early (.beginThrows hopen hthrows) hearly
  | @complete memory t hbegin hstatus =>
    have hrun := (erases_beginRun inv).run (h := h) (k := meters.handle) s
    rw [hbegin] at hrun
    obtain ⟨store, t', hopen, hmemory⟩ := run_bind_eq_ok hrun
    rw [run_ofExcept, Prod.mk.injEq] at hmemory
    obtain ⟨hmemory, rfl⟩ := hmemory
    obtain ⟨hstore, -⟩ := beginRun_coordinator hmemory
    have hresult := (erases_durableResult inv.spec memory 0).run (h := h) (k := meters.handle) t
    rw [run_ofExcept, Prod.mk.injEq] at hresult
    rw [← hresult.1, ← hresult.2]
    refine .early (.complete hopen hmemory (hstore ▸ hstatus)) fun u other hb => ?_
    obtain ⟨found, hfound, -, hrunning⟩ := hb.opened
    rw [hopen] at hfound
    cases hfound
    exact hrunning (hstore ▸ hstatus)
  | @nothing memory t hb hmissing =>
    have hfinish := (erases_finishDurable inv.spec memory 0).run (h := h) (k := meters.handle) t
    have hends := EndsUndisturbed.nothing hb.plain hmissing
    rw [hfinish] at hends
    exact hends
  | unprepared hb hmissing hmetrics hcapacity =>
    exact absurd (hb.prepared _ hmetrics) (Nat.not_le.mpr hcapacity)
  | executionThrows hb hmissing _ hreach hreturned =>
    exact .executionThrows hb.plain hmissing (hreach.plain keepsBeside_durableConsume) hreturned
  | @finishes memory t workers state hb hmissing _ hreach hreturned =>
    have hfinish := (erases_finishDurable inv.spec state.execution.sink.1.2 workers).run (h := h)
      (k := meters.handle) state.machine
    have hends := EndsUndisturbed.finishes hb.plain hmissing
      (hreach.plain keepsBeside_durableConsume) hreturned
    change inv.EndsUndisturbed h s.1 (run h (finishDurable inv.spec state.execution.sink.1.2 workers)
      state.machine.1).1 (run h (finishDurable inv.spec state.execution.sink.1.2 workers)
      state.machine.1).2 at hends
    rw [hfinish] at hends
    exact hends

/-! ## Nothing is lost -/

/-- Any readings of the clock will do. -/
def zeroReadings : Readings := ⟨0, 0, 0⟩

theorem exists_executesMissing {s s' : σ} {meter meter' : Meter} {ending : Ending (σ × DurableMemory)}
    (hb : inv.MeteredBegins h meters (s, meter) (s', meter') memory)
    (hexecutes : ExecutesMissing inv.kernels inv.spec inv.engineConfig
      memory.store.recovery.blocks memory.received memory.coordinator.runSpecHash
      memory.coordinator.executionLayoutHash memory.coordinator.buildFingerprint
      (durableConsume h) (s', memory) ending) :
    ∃ found, Metered.ExecutesMissing inv.kernels inv.spec inv.engineConfig
      memory.store.recovery.blocks memory.received memory.coordinator.runSpecHash
      memory.coordinator.executionLayoutHash memory.coordinator.buildFingerprint
      (Metered.durableConsume h meters) ((s', memory), meter') found ∧ found.forget = ending := by
  cases hexecutes with
  | mismatch hlength => exact ⟨_, .mismatch hlength, rfl⟩
  | execute hlength hexecutes =>
    cases hexecutes with
    | nothing hmissing => exact ⟨_, .nothing hlength hmissing, rfl⟩
    | run hmissing hreach hreturned =>
      obtain ⟨state, hreach, rfl⟩ := MeteredExecution.exists_reaches
        keepsBeside_durableConsume zeroReadings memory.store.recovery.blocks.length
        ((s', memory), meter') hreach
      exact ⟨_, .run hlength hmissing hb.prepared hreach hreturned, rfl⟩

theorem exists_visitsTimed {s now : σ} (hv : inv.DurableVisits h s now) (meter : Meter) :
    ∃ meter', inv.VisitsTimed h meters (s, meter) (now, meter') := by
  cases hv with
  | opening hvisits =>
    obtain ⟨meter', hvisits⟩ := (erases_beginRun inv).exists_visits (k := meters.handle)
      (s := (s, meter)) (hvisits.bind_left _)
    exact ⟨meter', .opening hvisits⟩
  | executing hb hmissing hreach =>
    obtain ⟨meter', hb⟩ := hb.exists_metered meters meter
    obtain ⟨state, hreach, rfl⟩ := MeteredExecution.exists_reaches
      keepsBeside_durableConsume zeroReadings _ ((_, _), meter') hreach
    exact ⟨_, .executing hb hmissing hb.prepared hreach⟩
  | consuming hb hmissing hreach hconsuming hvisits =>
    obtain ⟨meter', hb⟩ := hb.exists_metered meters meter
    obtain ⟨state, hreach, rfl⟩ := MeteredExecution.exists_reaches
      keepsBeside_durableConsume zeroReadings _ ((_, _), meter') hreach
    obtain ⟨meter'', hvisits⟩ := (erases_consumeDurable _ _).exists_visits (k := meters.handle)
      (s := state.machine) hvisits
    exact ⟨meter'', .consuming hb hmissing hb.prepared hreach hconsuming hvisits⟩
  | finishing hb hexecutes houtcome hvisits =>
    obtain ⟨meter', hb⟩ := hb.exists_metered meters meter
    obtain ⟨ending, hmetered, rfl⟩ := exists_executesMissing hb hexecutes
    obtain ⟨meter'', hvisits⟩ := (erases_finishDurable _ _ _).exists_visits (k := meters.handle)
      (s := (ending.sink.1.1, ending.sink.2)) hvisits
    exact ⟨meter'', .finishing hb hmetered houtcome hvisits⟩

theorem exists_endsTimed {s final : σ} (he : inv.EndsUndisturbed h s outcome final)
    (meter : Meter) : ∃ meter', inv.EndsTimed h meters (s, meter) outcome (final, meter') := by
  cases he with
  | early hruns hearly =>
    cases hruns with
    | openThrows hopen =>
      have hbegin : run h inv.beginProgram s = (.error _, final) := run_bind_error hopen _
      obtain ⟨meter', hmetered⟩ := (erases_beginRun inv).exists_run (k := meters.handle) hbegin meter
      exact ⟨meter', .beginThrows hmetered⟩
    | @beginThrows store e _ hopen hthrows =>
      have hbegin : run h inv.beginProgram s = (.error e, final) := by
        rw [beginProgram, run_bind_ok hopen, run_ofExcept, hthrows]
      obtain ⟨meter', hmetered⟩ := (erases_beginRun inv).exists_run (k := meters.handle) hbegin meter
      exact ⟨meter', .beginThrows hmetered⟩
    | @complete store memory _ hopen hmemory hstatus =>
      have hbegin : run h inv.beginProgram s = (.ok memory, final) := by
        rw [beginProgram, run_bind_ok hopen, run_ofExcept, hmemory]
      obtain ⟨meter', hmetered⟩ := (erases_beginRun inv).exists_run (k := meters.handle) hbegin meter
      obtain ⟨hstore, -⟩ := beginRun_coordinator hmemory
      obtain ⟨meter'', hresult⟩ := (erases_durableResult inv.spec memory 0).exists_run (h := h)
        (k := meters.handle) (run_ofExcept h (durableResult inv.spec memory 0) final) meter'
      have hends := EndsTimed.complete hmetered (hstore.symm ▸ hstatus)
      rw [hresult] at hends
      exact ⟨meter'', hends⟩
    | executionThrows hb hexecutes houtcome => exact absurd hb (hearly _ _)
    | finishes hb hexecutes houtcome => exact absurd hb (hearly _ _)
  | @nothing memory s' hb hmissing =>
    obtain ⟨meter', hb⟩ := hb.exists_metered meters meter
    obtain ⟨meter'', hfinish⟩ := (erases_finishDurable inv.spec memory 0).exists_run (h := h)
      (k := meters.handle) rfl meter'
    have hends := EndsTimed.nothing hb hmissing
    rw [hfinish] at hends
    exact ⟨meter'', hends⟩
  | executionThrows hb hmissing hreach hreturned =>
    obtain ⟨meter', hb⟩ := hb.exists_metered meters meter
    obtain ⟨state, hreach, rfl⟩ := MeteredExecution.exists_undisturbed
      keepsBeside_durableConsume zeroReadings _ ((_, _), meter') hreach
    exact ⟨_, .executionThrows hb hmissing hb.prepared hreach hreturned⟩
  | @finishes memory s' workers state hb hmissing hreach hreturned =>
    obtain ⟨meter', hb⟩ := hb.exists_metered meters meter
    obtain ⟨state, hreach, rfl⟩ := MeteredExecution.exists_undisturbed
      keepsBeside_durableConsume zeroReadings _ ((_, _), meter') hreach
    obtain ⟨meter'', hfinish⟩ := (erases_finishDurable inv.spec state.execution.sink.1.2
      workers).exists_run (h := h) (k := meters.handle) rfl state.machine.2
    have hends := EndsTimed.finishes hb hmissing hb.prepared hreach hreturned
    rw [show state.machine = (state.execution.sink.1.1, state.machine.2) from rfl, hfinish] at hends
    exact ⟨meter'', hends⟩

/-! ## The whole invocation -/

theorem MeteredVisits.plain {now : σ × Meter} (hv : inv.MeteredVisits h meters s now) :
    inv.DurableVisits h s.1 now.1 := by
  cases hv with
  | timed hstart hvisits =>
    have hstate := congrArg (fun result => result.2.1) hstart
    rw [show s.1 = _ from hstate]
    exact hvisits.plain

theorem MeteredEnds.plain {final : σ × Meter} (he : inv.MeteredEnds h meters s outcome final) :
    inv.EndsUndisturbed h s.1 outcome final.1 := by
  cases he with
  | timed hstart hends =>
    have hstate := congrArg (fun result => result.2.1) hstart
    rw [show s.1 = _ from hstate, run_stopTimer]
    exact hends.plain

/-- **Metrics do not interfere.**  An invocation passes through the same states of the machine with
metrics and without, whatever the clock reads. -/
theorem meteredVisits_iff {s now : σ} {meter : Meter} :
    (∃ meter', inv.MeteredVisits h meters (s, meter) (now, meter')) ↔ inv.DurableVisits h s now := by
  constructor
  · rintro ⟨meter', hv⟩
    exact hv.plain
  · intro hv
    obtain ⟨started, ⟨s₀, meter₀⟩, hstart, rfl⟩ := run_startTotal h meters (s, meter)
    obtain ⟨meter', hvisits⟩ := exists_visitsTimed hv meter₀
    exact ⟨meter', .timed hstart hvisits⟩

/-- It ends in the same ways. -/
theorem meteredEnds_iff {s final : σ} {meter : Meter} :
    (∃ meter', inv.MeteredEnds h meters (s, meter) outcome (final, meter')) ↔
      inv.EndsUndisturbed h s outcome final := by
  constructor
  · rintro ⟨meter', he⟩
    exact he.plain
  · intro he
    obtain ⟨started, ⟨s₀, meter₀⟩, hstart, rfl⟩ := run_startTotal h meters (s, meter)
    obtain ⟨meter', hends⟩ := exists_endsTimed he meter₀
    exact ⟨_, .timed hstart hends⟩

end Invocation

end MonteCarlo
