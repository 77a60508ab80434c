import MonteCarlo.Codec

/-!
# Executing the missing blocks

`execute_missing_blocks` of `engine.cpp` as a transition system: one scheduler,
`N` workers and the coordinating thread, over the two bounded queues of
`bounded_queue.hpp`.  A queue operation is one step, taken under its mutex; a
thread whose operation would block has no step.

A step picks any thread that can move, so a path of `Step`s is an interleaving.
Workers and the scheduler may also throw at any of their steps, and starting a
thread may fail; `thrown` remembers that something was thrown.

What `consume_result` does is a parameter: it acts on a state `κ` of the caller.
-/

namespace MonteCarlo

/-! ## Bounded queues -/

/-- `BoundedQueue`. -/
structure BoundedQueue (α : Type) where
  capacity : ℕ
  items : List α
  closed : Bool

namespace BoundedQueue

variable {α : Type}

/-- `BoundedQueue::push`: `none` while the caller waits, otherwise whether the item
was accepted. -/
def push (queue : BoundedQueue α) (item : α) : Option (Bool × BoundedQueue α) :=
  if queue.closed then some (false, queue)
  else if queue.items.length < queue.capacity then
    some (true, { queue with items := queue.items ++ [item] })
  else none

/-- `BoundedQueue::pop`: `none` while the caller waits. -/
def pop (queue : BoundedQueue α) : Option (Option α × BoundedQueue α) :=
  match queue.items with
  | item :: rest => some (some item, { queue with items := rest })
  | [] => if queue.closed then some (none, queue) else none

/-- `BoundedQueue::close`. -/
def close (queue : BoundedQueue α) : BoundedQueue α := { queue with closed := true }

def new (capacity : ℕ) : BoundedQueue α := ⟨capacity, [], false⟩

variable {queue queue' : BoundedQueue α} {item : α}

theorem push_accepted (h : queue.push item = some (true, queue')) :
    queue.closed = false ∧ queue' = { queue with items := queue.items ++ [item] } := by
  unfold push at h
  split at h
  · simp at h
  · split at h
    · rename_i hclosed _
      simp only [Option.some.injEq, Prod.mk.injEq, true_and] at h
      exact ⟨by simpa using hclosed, h.symm⟩
    · simp at h

theorem push_refused (h : queue.push item = some (false, queue')) :
    queue.closed = true ∧ queue' = queue := by
  unfold push at h
  split at h
  · rename_i hclosed
    simp only [Option.some.injEq, Prod.mk.injEq, true_and] at h
    exact ⟨hclosed, h.symm⟩
  · split at h <;> simp at h

theorem pop_item (h : queue.pop = some (some item, queue')) :
    queue.items = item :: queue'.items ∧ queue'.closed = queue.closed ∧
      queue'.capacity = queue.capacity := by
  unfold pop at h
  split at h
  · rename_i hitems
    simp only [Option.some.injEq, Prod.mk.injEq] at h
    obtain ⟨rfl, rfl⟩ := h
    exact ⟨hitems, rfl, rfl⟩
  · split at h <;> simp at h

theorem pop_drained (h : queue.pop = some (none, queue')) :
    queue.items = [] ∧ queue.closed = true ∧ queue' = queue := by
  unfold pop at h
  split at h
  · simp at h
  · rename_i hitems
    split at h
    · rename_i hclosed
      simp only [Option.some.injEq, Prod.mk.injEq, true_and] at h
      exact ⟨hitems, hclosed, h.symm⟩
    · simp at h

@[simp] theorem close_items : queue.close.items = queue.items := rfl

@[simp] theorem close_closed : queue.close.closed = true := rfl

end BoundedQueue

/-! ## Threads -/

/-- The steps of `record_error`. -/
inductive RaiseState where
  | storeError (error : Exception)
  | closeAssignments
  | closeCompletions

/-- Where a worker thread is. -/
inductive WorkerState where
  | unspawned
  | starting
  | popping
  | computing (block : ScenarioBlock)
  | pushing (result : BlockResult)
  | raising (state : RaiseState)
  /-- About to decrement `workers_remaining`. -/
  | leaving
  /-- The last worker, about to close the completion queue. -/
  | closing
  | finished

/-- Where the scheduler thread is. -/
inductive SchedulerState where
  | unspawned
  | pushing (pending : List ScenarioBlock)
  | closing
  | raising (state : RaiseState)
  | finished

/-- Where the coordinating thread is. -/
inductive CoordinatorThread where
  /-- Starting worker number `count`, or the scheduler when all workers run. -/
  | spawning (count : ℕ)
  /-- A thread could not be started; `closed` queues have been closed so far. -/
  | unwinding (error : Exception) (closed : ℕ)
  | popping
  | consuming (result : BlockResult)
  | raising (state : RaiseState)
  | joining
  | returned (outcome : Result ℕ)

/-- The points of a worker inside its `try` block. -/
def WorkerState.running : WorkerState → Bool
  | .starting | .popping | .computing _ | .pushing _ => true
  | _ => false

/-- The points of the scheduler inside its `try` block. -/
def SchedulerState.running : SchedulerState → Bool
  | .pushing _ | .closing => true
  | _ => false

/-- The arguments of one execution. -/
structure Job where
  /-- `actual_worker_count`. -/
  workers : ℕ
  assignmentCapacity : ℕ
  completionCapacity : ℕ
  /-- The blocks at `pending_indices`. -/
  missing : List ScenarioBlock
  /-- The construction of a worker's `ModelKernel`. -/
  start : Result Unit
  /-- What a worker makes of a block. -/
  work : ℕ → ScenarioBlock → Result BlockResult

/-- The state shared by the threads, the position of each thread, and the state of
the caller.  `consumed` and `thrown` record the past. -/
structure Execution (job : Job) (κ : Type) where
  assignments : BoundedQueue ScenarioBlock
  completions : BoundedQueue BlockResult
  firstError : Option Exception
  workersRemaining : ℕ
  worker : Fin job.workers → WorkerState
  scheduler : SchedulerState
  coordinator : CoordinatorThread
  sink : κ
  consumed : List BlockResult
  thrown : Bool

namespace Execution

variable {job : Job} {κ : Type}

/-- The state after the queues have been built. -/
def initial (job : Job) (sink : κ) : Execution job κ :=
  { assignments := .new job.assignmentCapacity
    completions := .new job.completionCapacity
    firstError := none
    workersRemaining := job.workers
    worker := fun _ => .unspawned
    scheduler := .unspawned
    coordinator := .spawning 0
    sink := sink
    consumed := []
    thrown := false }

/-- Move one worker. -/
def setWorker (state : Execution job κ) (i : Fin job.workers) (next : WorkerState) :
    Execution job κ :=
  { state with worker := Function.update state.worker i next }

/-- One step of `record_error`, and what is left of it. -/
def recordError (state : Execution job κ) : RaiseState → Execution job κ × Option RaiseState
  | .storeError error =>
    ({ state with firstError := state.firstError <|> some error }, some .closeAssignments)
  | .closeAssignments =>
    ({ state with assignments := state.assignments.close }, some .closeCompletions)
  | .closeCompletions => ({ state with completions := state.completions.close }, none)

/-- One step of one thread. -/
inductive Step (consume : BlockResult → κ → Result Unit × κ) :
    Execution job κ → Execution job κ → Prop where
  /-- `workers.emplace_back` -/
  | spawnWorker {state} (i : Fin job.workers) (h : state.coordinator = .spawning i)
      (hworker : state.worker i = .unspawned) :
      Step consume state { state.setWorker i .starting with coordinator := .spawning (i + 1) }
  /-- `scheduler = std::thread(..)` -/
  | spawnScheduler {state} (h : state.coordinator = .spawning job.workers)
      (hscheduler : state.scheduler = .unspawned) :
      Step consume state
        { state with scheduler := .pushing job.missing, coordinator := .popping }
  | spawnFails {state count} (error : Exception) (h : state.coordinator = .spawning count) :
      Step consume state { state with coordinator := .unwinding error 0, thrown := true }
  | unwindAssignments {state error} (h : state.coordinator = .unwinding error 0) :
      Step consume state
        { state with assignments := state.assignments.close, coordinator := .unwinding error 1 }
  | unwindCompletions {state error} (h : state.coordinator = .unwinding error 1) :
      Step consume state
        { state with completions := state.completions.close, coordinator := .unwinding error 2 }
  | unwindJoin {state error} (h : state.coordinator = .unwinding error 2)
      (hworkers : ∀ i, state.worker i = .unspawned ∨ state.worker i = .finished) :
      Step consume state { state with coordinator := .returned (.error error) }
  | workerStarts {state i} (h : state.worker i = .starting) (hstart : job.start = .ok ()) :
      Step consume state (state.setWorker i .popping)
  | workerPops {state i block queue} (h : state.worker i = .popping)
      (hpop : state.assignments.pop = some (some block, queue)) :
      Step consume state { state.setWorker i (.computing block) with assignments := queue }
  | workerDrained {state i queue} (h : state.worker i = .popping)
      (hpop : state.assignments.pop = some (none, queue)) :
      Step consume state (state.setWorker i .leaving)
  | workerComputes {state block result} {i : Fin job.workers} (h : state.worker i = .computing block)
      (hwork : job.work i block = .ok result) :
      Step consume state (state.setWorker i (.pushing result))
  | workerPushes {state i result queue} (h : state.worker i = .pushing result)
      (hpush : state.completions.push result = some (true, queue)) :
      Step consume state { state.setWorker i .popping with completions := queue }
  | workerRefused {state i result queue} (h : state.worker i = .pushing result)
      (hpush : state.completions.push result = some (false, queue)) :
      Step consume state (state.setWorker i .leaving)
  | workerThrows {state i} (error : Exception) (h : (state.worker i).running = true) :
      Step consume state
        { state.setWorker i (.raising (.storeError error)) with thrown := true }
  | workerRaises {state i raise} (h : state.worker i = .raising raise) :
      Step consume state ((state.recordError raise).1.setWorker i
        (match (state.recordError raise).2 with
          | some next => .raising next
          | none => .leaving))
  /-- `workers_remaining.fetch_sub(1U)` -/
  | workerLeaves {state i} (h : state.worker i = .leaving) :
      Step consume state
        { state.setWorker i (if state.workersRemaining = 1 then .closing else .finished) with
          workersRemaining := state.workersRemaining - 1 }
  | workerCloses {state i} (h : state.worker i = .closing) :
      Step consume state
        { state.setWorker i .finished with completions := state.completions.close }
  | schedulerPushes {state block rest queue} (h : state.scheduler = .pushing (block :: rest))
      (hpush : state.assignments.push block = some (true, queue)) :
      Step consume state { state with assignments := queue, scheduler := .pushing rest }
  | schedulerRefused {state block rest queue} (h : state.scheduler = .pushing (block :: rest))
      (hpush : state.assignments.push block = some (false, queue)) :
      Step consume state { state with scheduler := .closing }
  | schedulerDone {state} (h : state.scheduler = .pushing []) :
      Step consume state { state with scheduler := .closing }
  | schedulerCloses {state} (h : state.scheduler = .closing) :
      Step consume state
        { state with assignments := state.assignments.close, scheduler := .finished }
  | schedulerThrows {state} (error : Exception) (h : state.scheduler.running = true) :
      Step consume state
        { state with scheduler := .raising (.storeError error), thrown := true }
  | schedulerRaises {state raise} (h : state.scheduler = .raising raise) :
      Step consume state { (state.recordError raise).1 with
        scheduler := match (state.recordError raise).2 with
          | some next => .raising next
          | none => .finished }
  | coordinatorPops {state result queue} (h : state.coordinator = .popping)
      (hpop : state.completions.pop = some (some result, queue)) :
      Step consume state
        { state with completions := queue, coordinator := .consuming result }
  | coordinatorDrained {state queue} (h : state.coordinator = .popping)
      (hpop : state.completions.pop = some (none, queue)) :
      Step consume state { state with coordinator := .joining }
  | coordinatorConsumes {state result} (h : state.coordinator = .consuming result)
      (hconsume : (consume result state.sink).1 = .ok ()) :
      Step consume state
        { state with
          sink := (consume result state.sink).2
          consumed := state.consumed ++ [result]
          coordinator := .popping }
  | coordinatorThrows {state result error} (h : state.coordinator = .consuming result)
      (hconsume : (consume result state.sink).1 = .error error) :
      Step consume state
        { state with
          sink := (consume result state.sink).2
          coordinator := .raising (.storeError error)
          thrown := true }
  | coordinatorRaises {state raise} (h : state.coordinator = .raising raise) :
      Step consume state { (state.recordError raise).1 with
        coordinator := match (state.recordError raise).2 with
          | some next => .raising next
          | none => .joining }
  | coordinatorJoins {state} (h : state.coordinator = .joining)
      (hscheduler : state.scheduler = .finished)
      (hworkers : ∀ i, state.worker i = .finished) :
      Step consume state
        { state with
          coordinator := .returned
            (match state.firstError with
              | some error => .error error
              | none => .ok job.workers) }

/-- `Reaches consume sink state` : some interleaving leads from the start to `state`. -/
def Reaches (consume : BlockResult → κ → Result Unit × κ) (sink : κ) (state : Execution job κ) :
    Prop :=
  Relation.ReflTransGen (Step consume) (initial job sink) state

end Execution

/-! ## The function -/

/-- What a worker makes of a block: the loop body of the worker threads. -/
def workerResult (kernel : ModelKernel Binary64) (spec : RunSpec)
    (specHash layoutHash buildFingerprint : Sha256Digest) (workerIndex : ℕ)
    (block : ScenarioBlock) : Result BlockResult := do
  let aggregate ← computeBlockWithKernel kernel spec block
  let checksum ← aggregatePayloadHash aggregate spec.statsSchemaVersion
  pure
    { block := block
      aggregate := aggregate
      runSpecHash := specHash
      executionLayoutHash := layoutHash
      buildFingerprint := buildFingerprint
      payloadChecksum := checksum
      rngVersion := spec.rngVersion
      statsSchemaVersion := spec.statsSchemaVersion
      workerId := UInt64.ofNat workerIndex }

/-- The blocks whose bit is not set. -/
def missingBlocks (blocks : List ScenarioBlock) (received : List Bool) : List ScenarioBlock :=
  ((blocks.zip received).filter fun entry => !entry.2).map (·.1)

/-- The capacity of a queue: a configured `0` means twice the number of workers. -/
def queueCapacity (configured workers : ℕ) : ℕ :=
  if configured = 0 then max 1 (workers * 2) else configured

/-- The job of `execute_missing_blocks`. -/
def executionJob (kernels : RunSpec → Result (ModelKernel Binary64)) (spec : RunSpec)
    (config : EngineConfig) (missing : List ScenarioBlock)
    (specHash layoutHash buildFingerprint : Sha256Digest) : Job :=
  let workers := min config.workerCount missing.length
  { workers := workers
    assignmentCapacity := queueCapacity config.assignmentQueueCapacity workers
    completionCapacity := queueCapacity config.completionQueueCapacity workers
    missing := missing
    start := do
      let _ ← kernels spec
      pure ()
    work := fun index block => do
      let kernel ← kernels spec
      workerResult kernel spec specHash layoutHash buildFingerprint index block }

/-- How a call of `execute_missing_blocks` ends. -/
structure Ending (κ : Type) where
  /-- The number of workers that is returned, or what is thrown. -/
  outcome : Result ℕ
  /-- The results that `consume_result` was called with and accepted, in order. -/
  consumed : List BlockResult
  /-- Whether any thread threw. -/
  thrown : Bool
  /-- The caller's state. -/
  sink : κ

/-- `execute_missing_blocks` after the check of its arguments: `Executes .. ending` when
some interleaving ends so. -/
inductive Executes {κ : Type} (job : Job) (consume : BlockResult → κ → Result Unit × κ)
    (sink : κ) : Ending κ → Prop where
  /-- `missing_count == 0U` -/
  | nothing (h : job.missing = []) : Executes job consume sink ⟨.ok 0, [], false, sink⟩
  | run {outcome} {state : Execution job κ} (h : job.missing ≠ [])
      (hreach : Execution.Reaches consume sink state)
      (hreturned : state.coordinator = .returned outcome) :
      Executes job consume sink ⟨outcome, state.consumed, state.thrown, state.sink⟩

/-- `execute_missing_blocks`. -/
inductive ExecutesMissing {κ : Type} (kernels : RunSpec → Result (ModelKernel Binary64))
    (spec : RunSpec) (config : EngineConfig) (blocks : List ScenarioBlock) (received : List Bool)
    (specHash layoutHash buildFingerprint : Sha256Digest)
    (consume : BlockResult → κ → Result Unit × κ) (sink : κ) : Ending κ → Prop where
  | mismatch (h : received.length ≠ blocks.length) :
      ExecutesMissing kernels spec config blocks received specHash layoutHash buildFingerprint
        consume sink
        ⟨.error ⟨.invalidArgument, .executeMissingBlocks,
          "received bitmap does not match block universe"⟩, [], true, sink⟩
  | execute {ending} (h : received.length = blocks.length)
      (hexecutes : Executes (executionJob kernels spec config (missingBlocks blocks received)
        specHash layoutHash buildFingerprint) consume sink ending) :
      ExecutesMissing kernels spec config blocks received specHash layoutHash buildFingerprint
        consume sink ending

end MonteCarlo
