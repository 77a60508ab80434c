import MonteCarlo.Engine.SingleRun
import MonteCarlo.Store.Metered

/-!
# `execute_missing_blocks` with metrics

The threads of `execute_missing_blocks` with its `metrics` argument.  They take the steps of
`Execution.Step`, where `consume_result` acts on a caller's state with the metrics beside it; after
each step the thread that has moved adds to its own measurements and writes into the metrics
(`Execution.moved`).  Before the threads start, the room for the workers is checked.

* `MeteredExecution` — the threads, what they have measured, and the metrics.
* `Execution.forget` — the threads alone.
* `step_forget`, `exists_step_of_forget` — the threads with metrics take the steps of the threads
  without, if `consume_result` does the same with them and without them.
* `MeteredExecution.Reaches.plain`, `MeteredExecution.exists_reaches` — so do whole interleavings.
-/

namespace MonteCarlo

open Effects Effects.Program

/-! ## Measurements -/

/-- The variables in which the threads keep what they measure. -/
structure Measurements (workers : ℕ) where
  /-- The `worker_metrics` of each worker. -/
  worker : Fin workers → WorkerMetrics
  schedulerAssignmentWaitNs : UInt64
  coordinatorCompletionWaitNs : UInt64
  coordinatorConsumeNs : UInt64
  /-- A worker thread could not be started. -/
  workerMissing : Bool

/-- What a thread reads from the clock during a step. -/
structure Readings where
  /-- How long an operation on a queue was blocked, `0` if it was not. -/
  blockedNs : UInt64
  /-- The time since the thread last looked at the clock. -/
  elapsedNs : UInt64
  /-- The clock. -/
  now : TimePoint

/-- The measurements and the metrics. -/
structure ThreadRecords (workers : ℕ) where
  measured : Measurements workers
  metrics : RuntimeMetrics

namespace ThreadRecords

variable {workers : ℕ} (records : ThreadRecords workers) (readings : Readings)

/-- A change of the `worker_metrics` of one worker. -/
def inWorker (i : Fin workers) (f : WorkerMetrics → WorkerMetrics) : ThreadRecords workers :=
  { records with
    measured := { records.measured with
      worker := Function.update records.measured.worker i (f (records.measured.worker i)) } }

/-- A change of the metrics. -/
def inMetrics (f : RuntimeMetrics → RuntimeMetrics) : ThreadRecords workers :=
  { records with metrics := f records.metrics }

/-- The end of `assignments.pop`. -/
def assigned (i : Fin workers) : ThreadRecords workers :=
  records.inWorker i fun own =>
    { own with assignmentWaitNs := addMetric own.assignmentWaitNs readings.blockedNs }

/-- A worker has computed a block and is about to publish the result. -/
def computed (i : Fin workers) (block : ScenarioBlock) : ThreadRecords workers :=
  (records.inWorker i fun own =>
    { own with
      computeNs := addMetric own.computeNs readings.elapsedNs
      blocksCompleted := own.blocksCompleted + 1
      scenariosCompleted :=
        own.scenariosCompleted + (block.endScenario - block.startScenario) }).inMetrics
    fun metrics =>
      { metrics with
        blockComputeNs := metrics.blockComputeNs.set block.blockId.toNat readings.elapsedNs
        blockCommitNs :=
          metrics.blockCommitNs.set block.blockId.toNat (clockMarkerNs readings.now) }

/-- The end of `completions.push`. -/
def submitted (i : Fin workers) : ThreadRecords workers :=
  records.inWorker i fun own =>
    { own with completionQueueWaitNs := addMetric own.completionQueueWaitNs readings.blockedNs }

/-- `metrics->workers[worker_index] = worker_metrics` -/
def left (i : Fin workers) : ThreadRecords workers :=
  records.inMetrics fun metrics =>
    { metrics with workers := { metrics.workers with
      items := metrics.workers.items.set i (records.measured.worker i) } }

/-- What worker `i` records of a move; `depth` is the length of the completion queue after it. -/
def workerMoved (depth : ℕ) (i : Fin workers) (before after : WorkerState) : ThreadRecords workers :=
  match before, after with
  | .popping, .computing _ => records.assigned readings i
  | .popping, .leaving => records.assigned readings i
  | .computing block, .pushing _ => records.computed readings i block
  | .pushing _, .popping =>
    (records.submitted readings i).inMetrics fun metrics =>
      { metrics with maxCompletionQueueDepth := max metrics.maxCompletionQueueDepth depth }
  | .pushing _, .leaving => records.submitted readings i
  | .leaving, .closing => records.left i
  | .leaving, .finished => records.left i
  | _, _ => records

/-- The end of the scheduler's `assignments.push`. -/
def scheduled : ThreadRecords workers :=
  { records with
    measured := { records.measured with
      schedulerAssignmentWaitNs :=
        addMetric records.measured.schedulerAssignmentWaitNs readings.blockedNs } }

/-- What the scheduler records of a move; `depth` is the length of the assignment queue after it. -/
def schedulerMoved (depth : ℕ) (before after : SchedulerState) : ThreadRecords workers :=
  match before, after with
  | .pushing (_ :: rest), .pushing pending =>
    if pending.length = rest.length then
      (records.scheduled readings).inMetrics fun metrics =>
        { metrics with maxAssignmentQueueDepth := max metrics.maxAssignmentQueueDepth depth }
    else records
  | .pushing (_ :: _), .closing => records.scheduled readings
  | _, _ => records

/-- The end of the coordinating thread's `completions.pop`. -/
def awaited : ThreadRecords workers :=
  { records with
    measured := { records.measured with
      coordinatorCompletionWaitNs :=
        addMetric records.measured.coordinatorCompletionWaitNs readings.blockedNs } }

/-- The end of `consume_result`. -/
def consumed : ThreadRecords workers :=
  { records with
    measured := { records.measured with
      coordinatorConsumeNs :=
        addMetric records.measured.coordinatorConsumeNs readings.elapsedNs } }

/-- The sample of a committed block. -/
def committed (completed : BlockResult) : ThreadRecords workers :=
  records.inMetrics fun metrics =>
    let index := completed.block.blockId.toNat
    .withBacklog (metrics.maxReductionBacklogBlocks + 1)
      { metrics with
        blockCommitNs := metrics.blockCommitNs.set index
          (elapsedSinceMarkerNs (metrics.blockCommitNs.getD index 0) readings.now) }

/-- What the coordinating thread writes when all threads have been joined. -/
def joined (outcome : Result ℕ) : ThreadRecords workers :=
  records.inMetrics fun metrics =>
    let metrics :=
      { metrics with
        schedulerAssignmentWaitNs := records.measured.schedulerAssignmentWaitNs
        coordinatorCompletionWaitNs := records.measured.coordinatorCompletionWaitNs
        coordinatorConsumeNs := records.measured.coordinatorConsumeNs }
    match outcome with
    | .ok _ => metrics
    | .error _ => metrics.clearCommitSamples

/-- What the coordinating thread records of a move. -/
def coordinatorMoved (before after : CoordinatorThread) : ThreadRecords workers :=
  match before, after with
  | .popping, .consuming _ => records.awaited readings
  | .popping, .joining => records.awaited readings
  | .consuming completed, .popping => (records.committed readings completed).consumed readings
  | .consuming _, .raising _ => records.consumed readings
  | .joining, .returned outcome => records.joined outcome
  | .spawning count, .unwinding _ _ =>
    { records with
      measured := { records.measured with workerMissing := decide (count < workers) } }
  -- only the handler around the start of the workers clears the samples
  | .unwinding _ _, .returned _ =>
    if records.measured.workerMissing then records.inMetrics .clearCommitSamples else records
  | _, _ => records

end ThreadRecords

/-- What the threads record of a step. -/
def Execution.moved {job : Job} {κ : Type} (before after : Execution job κ) (readings : Readings)
    (records : ThreadRecords job.workers) : ThreadRecords job.workers :=
  let records := (List.finRange job.workers).foldl (fun records i =>
    records.workerMoved readings after.completions.items.length i (before.worker i)
      (after.worker i)) records
  let records := records.schedulerMoved readings after.assignments.items.length before.scheduler
    after.scheduler
  records.coordinatorMoved readings before.coordinator after.coordinator

/-! ## Threads with metrics -/

/-- The threads over a caller's state with the metrics beside it, and what they have measured. -/
structure MeteredExecution (job : Job) (κ : Type) where
  execution : Execution job (κ × Meter)
  measured : Measurements job.workers

/-- The threads without what lies beside the caller's state. -/
def Execution.forget {job : Job} {κ μ : Type} (state : Execution job (κ × μ)) : Execution job κ where
  assignments := state.assignments
  completions := state.completions
  firstError := state.firstError
  workersRemaining := state.workersRemaining
  worker := state.worker
  scheduler := state.scheduler
  coordinator := state.coordinator
  sink := state.sink.1
  consumed := state.consumed
  thrown := state.thrown

namespace MeteredExecution

variable {job : Job} {κ : Type}

/-- The threads alone. -/
def plain (state : MeteredExecution job κ) : Execution job κ := state.execution.forget

/-- The metrics when the first thread is started: `blocks` is the number of all blocks. -/
def startMetrics (job : Job) (blocks : ℕ) (metrics : RuntimeMetrics) : RuntimeMetrics :=
  .withBacklog (blocks - job.missing.length)
    { metrics with workers := metrics.workers.assign job.workers {} }

/-- The state after the queues have been built. -/
def initial (job : Job) (blocks : ℕ) (sink : κ × Meter) : MeteredExecution job κ where
  execution := .initial job
    (sink.1, { sink.2 with metrics := sink.2.metrics.map (startMetrics job blocks) })
  measured := ⟨fun _ => {}, 0, 0, 0, false⟩

/-- The state after a step and what the threads have recorded of it. -/
def record (measured : Measurements job.workers) (readings : Readings)
    (before after : Execution job (κ × Meter)) : MeteredExecution job κ :=
  match after.sink.2.metrics with
  | none => ⟨after, measured⟩
  | some metrics =>
    let records := before.moved after readings ⟨measured, metrics⟩
    { execution := { after with
        sink := (after.sink.1, { after.sink.2 with metrics := some records.metrics }) }
      measured := records.measured }

/-- One step of one thread. -/
inductive Step (consume : BlockResult → κ × Meter → Result Unit × (κ × Meter))
    (before : MeteredExecution job κ) : MeteredExecution job κ → Prop where
  | step {after : Execution job (κ × Meter)} (readings : Readings)
      (hstep : Execution.Step consume before.execution after) :
      Step consume before (record before.measured readings before.execution after)

/-- Some interleaving leads from the start to `state`. -/
def Reaches (consume : BlockResult → κ × Meter → Result Unit × (κ × Meter)) (blocks : ℕ)
    (sink : κ × Meter) (state : MeteredExecution job κ) : Prop :=
  Relation.ReflTransGen (Step consume) (initial job blocks sink) state

/-- One in which the threads throw only what `ModelKernel`, a computation or `consume_result`
throws. -/
def Undisturbed (consume : BlockResult → κ × Meter → Result Unit × (κ × Meter)) (blocks : ℕ)
    (sink : κ × Meter) (state : MeteredExecution job κ) : Prop :=
  Relation.ReflTransGen (fun before after => Step consume before after ∧
    ¬ Execution.Spontaneous before.plain after.plain) (initial job blocks sink) state

end MeteredExecution

/-! ## Without the metrics -/

namespace Execution

variable {job : Job} {κ μ : Type} {consume : BlockResult → κ → Result Unit × κ}
  {consume' : BlockResult → κ × μ → Result Unit × (κ × μ)}

/-- `consume'` does what `consume` does, and keeps records beside it. -/
def KeepsBeside (consume' : BlockResult → κ × μ → Result Unit × (κ × μ))
    (consume : BlockResult → κ → Result Unit × κ) : Prop :=
  ∀ completed sink, (consume' completed sink).1 = (consume completed sink.1).1 ∧
    (consume' completed sink).2.1 = (consume completed sink.1).2

@[simp] theorem forget_initial (sink : κ × μ) : (initial job sink).forget = initial job sink.1 := rfl

theorem recordError_forget (state : Execution job (κ × μ)) (raise : RaiseState) :
    state.forget.recordError raise =
      ((state.recordError raise).1.forget, (state.recordError raise).2) := by
  cases raise <;> rfl

/-- A step of the threads is a step without the records. -/
theorem step_forget (hkeeps : KeepsBeside consume' consume) {before after : Execution job (κ × μ)}
    (h : Step consume' before after) : Step consume before.forget after.forget := by
  cases h with
  | spawnWorker i h hworker => exact .spawnWorker i h hworker
  | spawnScheduler h hscheduler => exact .spawnScheduler h hscheduler
  | spawnFails error h => exact .spawnFails error h
  | unwindAssignments h => exact .unwindAssignments h
  | unwindCompletions h => exact .unwindCompletions h
  | unwindJoin h hworkers => exact .unwindJoin h hworkers
  | workerStarts h hstart => exact .workerStarts h hstart
  | workerPops h hpop => exact .workerPops h hpop
  | workerDrained h hpop => exact .workerDrained h hpop
  | workerComputes h hwork => exact .workerComputes h hwork
  | workerPushes h hpush => exact .workerPushes h hpush
  | workerRefused h hpush => exact .workerRefused h hpush
  | workerThrows error h => exact .workerThrows error h
  | @workerRaises i raise h =>
    have hstep : Step consume before.forget _ := .workerRaises h
    rw [recordError_forget] at hstep
    exact hstep
  | workerLeaves h => exact .workerLeaves h
  | workerCloses h => exact .workerCloses h
  | schedulerPushes h hpush => exact .schedulerPushes h hpush
  | schedulerRefused h hpush => exact .schedulerRefused h hpush
  | schedulerDone h => exact .schedulerDone h
  | schedulerCloses h => exact .schedulerCloses h
  | schedulerThrows error h => exact .schedulerThrows error h
  | @schedulerRaises raise h =>
    have hstep : Step consume before.forget _ := .schedulerRaises h
    rw [recordError_forget] at hstep
    exact hstep
  | coordinatorPops h hpop => exact .coordinatorPops h hpop
  | coordinatorDrained h hpop => exact .coordinatorDrained h hpop
  | @coordinatorConsumes result h hconsume =>
    obtain ⟨hsame, hsink⟩ := hkeeps result before.sink
    have hstep : Step consume before.forget _ :=
      .coordinatorConsumes h (hsame.symm.trans hconsume)
    rw [show before.forget.sink = before.sink.1 from rfl, ← hsink] at hstep
    exact hstep
  | @coordinatorThrows result error h hconsume =>
    obtain ⟨hsame, hsink⟩ := hkeeps result before.sink
    have hstep : Step consume before.forget _ :=
      .coordinatorThrows h (hsame.symm.trans hconsume)
    rw [show before.forget.sink = before.sink.1 from rfl, ← hsink] at hstep
    exact hstep
  | @coordinatorRaises raise h =>
    have hstep : Step consume before.forget _ := .coordinatorRaises h
    rw [recordError_forget] at hstep
    exact hstep
  | coordinatorJoins h hscheduler hworkers => exact .coordinatorJoins h hscheduler hworkers

/-- A step without the records is a step of the threads that keep them. -/
theorem exists_step_of_forget (hkeeps : KeepsBeside consume' consume)
    {before : Execution job (κ × μ)} {after : Execution job κ}
    (h : Step consume before.forget after) :
    ∃ next, Step consume' before next ∧ next.forget = after := by
  cases h with
  | spawnWorker i h hworker => exact ⟨_, .spawnWorker i h hworker, rfl⟩
  | spawnScheduler h hscheduler => exact ⟨_, .spawnScheduler h hscheduler, rfl⟩
  | spawnFails error h => exact ⟨_, .spawnFails error h, rfl⟩
  | unwindAssignments h => exact ⟨_, .unwindAssignments h, rfl⟩
  | unwindCompletions h => exact ⟨_, .unwindCompletions h, rfl⟩
  | unwindJoin h hworkers => exact ⟨_, .unwindJoin h hworkers, rfl⟩
  | workerStarts h hstart => exact ⟨_, .workerStarts h hstart, rfl⟩
  | workerPops h hpop => exact ⟨_, .workerPops h hpop, rfl⟩
  | workerDrained h hpop => exact ⟨_, .workerDrained h hpop, rfl⟩
  | workerComputes h hwork => exact ⟨_, .workerComputes h hwork, rfl⟩
  | workerPushes h hpush => exact ⟨_, .workerPushes h hpush, rfl⟩
  | workerRefused h hpush => exact ⟨_, .workerRefused h hpush, rfl⟩
  | workerThrows error h => exact ⟨_, .workerThrows error h, rfl⟩
  | workerRaises h =>
    refine ⟨_, .workerRaises h, ?_⟩
    rw [recordError_forget]
    rfl
  | workerLeaves h => exact ⟨_, .workerLeaves h, rfl⟩
  | workerCloses h => exact ⟨_, .workerCloses h, rfl⟩
  | schedulerPushes h hpush => exact ⟨_, .schedulerPushes h hpush, rfl⟩
  | schedulerRefused h hpush => exact ⟨_, .schedulerRefused h hpush, rfl⟩
  | schedulerDone h => exact ⟨_, .schedulerDone h, rfl⟩
  | schedulerCloses h => exact ⟨_, .schedulerCloses h, rfl⟩
  | schedulerThrows error h => exact ⟨_, .schedulerThrows error h, rfl⟩
  | schedulerRaises h =>
    refine ⟨_, .schedulerRaises h, ?_⟩
    rw [recordError_forget]
    rfl
  | coordinatorPops h hpop => exact ⟨_, .coordinatorPops h hpop, rfl⟩
  | coordinatorDrained h hpop => exact ⟨_, .coordinatorDrained h hpop, rfl⟩
  | @coordinatorConsumes result h hconsume =>
    obtain ⟨hsame, hsink⟩ := hkeeps result before.sink
    refine ⟨_, .coordinatorConsumes h (hsame.trans hconsume), ?_⟩
    rw [show before.forget.sink = before.sink.1 from rfl, ← hsink]
    rfl
  | @coordinatorThrows result error h hconsume =>
    obtain ⟨hsame, hsink⟩ := hkeeps result before.sink
    refine ⟨_, .coordinatorThrows h (hsame.trans hconsume), ?_⟩
    rw [show before.forget.sink = before.sink.1 from rfl, ← hsink]
    rfl
  | coordinatorRaises h =>
    refine ⟨_, .coordinatorRaises h, ?_⟩
    rw [recordError_forget]
    rfl
  | coordinatorJoins h hscheduler hworkers => exact ⟨_, .coordinatorJoins h hscheduler hworkers, rfl⟩

end Execution

namespace MeteredExecution

variable {job : Job} {κ : Type} {consume : BlockResult → κ → Result Unit × κ}
  {consume' : BlockResult → κ × Meter → Result Unit × (κ × Meter)} {blocks : ℕ} {sink : κ × Meter}

@[simp] theorem plain_initial : (initial job blocks sink).plain = .initial job sink.1 := rfl

/-- What is recorded changes no thread. -/
@[simp] theorem plain_record (measured : Measurements job.workers) (readings : Readings)
    (before after : Execution job (κ × Meter)) :
    (record measured readings before after).plain = after.forget := by
  unfold record
  split <;> rfl

/-- One step, without the metrics. -/
theorem Step.plain (hkeeps : Execution.KeepsBeside consume' consume)
    {before after : MeteredExecution job κ} (h : Step consume' before after) :
    Execution.Step consume before.plain after.plain := by
  cases h with
  | step readings hstep =>
    rw [plain_record]
    exact Execution.step_forget hkeeps hstep

/-- One step, with metrics and whatever the clock reads. -/
theorem exists_step (hkeeps : Execution.KeepsBeside consume' consume) (readings : Readings)
    {before : MeteredExecution job κ} {after : Execution job κ}
    (h : Execution.Step consume before.plain after) :
    ∃ next, Step consume' before next ∧ next.plain = after := by
  obtain ⟨next, hstep, rfl⟩ := Execution.exists_step_of_forget hkeeps h
  exact ⟨_, .step readings hstep, plain_record _ _ _ _⟩

/-- An interleaving, without the metrics. -/
theorem Reaches.plain (hkeeps : Execution.KeepsBeside consume' consume)
    {state : MeteredExecution job κ} (h : Reaches consume' blocks sink state) :
    Execution.Reaches consume sink.1 state.plain := by
  induction h with
  | refl => exact .refl
  | tail _ hstep ih => exact ih.tail (hstep.plain hkeeps)

theorem Undisturbed.plain (hkeeps : Execution.KeepsBeside consume' consume)
    {state : MeteredExecution job κ} (h : Undisturbed consume' blocks sink state) :
    Execution.Undisturbed consume sink.1 state.plain := by
  induction h with
  | refl => exact .refl
  | tail _ hstep ih => exact ih.tail ⟨hstep.1.plain hkeeps, hstep.2⟩

/-- An interleaving, with metrics. -/
theorem exists_reaches (hkeeps : Execution.KeepsBeside consume' consume) (readings : Readings)
    (blocks : ℕ) (sink : κ × Meter) {state : Execution job κ} (h : Execution.Reaches consume sink.1 state) :
    ∃ metered, Reaches consume' blocks sink metered ∧ metered.plain = state := by
  induction h with
  | refl => exact ⟨initial job blocks sink, .refl, rfl⟩
  | tail _ hstep ih =>
    obtain ⟨before, hreach, rfl⟩ := ih
    obtain ⟨after, hafter, rfl⟩ := exists_step hkeeps readings hstep
    exact ⟨after, hreach.tail hafter, rfl⟩

theorem exists_undisturbed (hkeeps : Execution.KeepsBeside consume' consume) (readings : Readings)
    (blocks : ℕ) (sink : κ × Meter) {state : Execution job κ} (h : Execution.Undisturbed consume sink.1 state) :
    ∃ metered, Undisturbed consume' blocks sink metered ∧ metered.plain = state := by
  induction h with
  | refl => exact ⟨initial job blocks sink, .refl, rfl⟩
  | tail _ hstep ih =>
    obtain ⟨before, hreach, rfl⟩ := ih
    obtain ⟨after, hafter, rfl⟩ := exists_step hkeeps readings hstep.1
    exact ⟨after, hreach.tail ⟨hafter, hstep.2⟩, rfl⟩

end MeteredExecution

end MonteCarlo
