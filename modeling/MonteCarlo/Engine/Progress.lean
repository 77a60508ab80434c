import MonteCarlo.Engine.Delivery

/-!
# Every interleaving ends

`execute_missing_blocks` returns or throws on every schedule, with or without exceptions:

* `step_weight` — a weight that every step lowers, so there is no infinite interleaving;
* `Closing` — who closes the queues, and in which order;
* `progress` — as long as the function has not returned, some thread can move without
  throwing out of turn.
-/

namespace MonteCarlo
namespace Execution

variable {job : Job} {κ : Type} {consume : BlockResult → κ → Result Unit × κ}
variable {state state' : Execution job κ}

/-! ## Termination -/

/-- The steps of `record_error` that are left. -/
def raiseWeight : RaiseState → ℕ
  | .storeError _ => 3
  | .closeAssignments => 2
  | .closeCompletions => 1

/-- The steps a worker can still take with what it holds. -/
def workerWeight : WorkerState → ℕ
  | .unspawned => 12
  | .starting => 11
  | .popping => 10
  | .computing _ => 14
  | .pushing _ => 13
  | .raising state => 3 + raiseWeight state
  | .leaving => 3
  | .closing => 1
  | .finished => 0

/-- The steps ahead of the scheduler and of the blocks it has not submitted. -/
def schedulerWeight (missing : List ScenarioBlock) : SchedulerState → ℕ
  | .unspawned => 6 * missing.length + 7
  | .pushing pending => 6 * pending.length + 6
  | .closing => 5
  | .raising state => raiseWeight state
  | .finished => 0

/-- The steps ahead of the coordinating thread. -/
def coordinatorWeight : CoordinatorThread → ℕ
  | .spawning _ => 12
  | .unwinding _ closed => 11 - closed
  | .popping => 10
  | .consuming _ => 11
  | .raising state => 5 + raiseWeight state
  | .joining => 5
  | .returned _ => 0

/-- A bound on the steps that are left. -/
def weight (state : Execution job κ) : ℕ :=
  schedulerWeight job.missing state.scheduler + 5 * state.assignments.items.length
    + ∑ i, workerWeight (state.worker i) + 2 * state.completions.items.length
    + coordinatorWeight state.coordinator

theorem workerWeight_setWorker (state : Execution job κ) (i : Fin job.workers)
    (next : WorkerState) :
    ∑ j, workerWeight (Function.update state.worker i next j) + workerWeight (state.worker i) =
      ∑ j, workerWeight (state.worker j) + workerWeight next :=
  sum_setWorker workerWeight state.worker i next

/-- Every step lowers the weight. -/
theorem step_weight (h : Step consume state state') : state'.weight < state.weight := by
  cases h with
  | spawnWorker i h hworker =>
    have hsum := workerWeight_setWorker state i .starting
    rw [hworker] at hsum
    simp only [weight, setWorker, h, coordinatorWeight, workerWeight] at hsum ⊢
    omega
  | spawnScheduler h hscheduler =>
    simp only [weight, h, hscheduler, schedulerWeight, coordinatorWeight]
    omega
  | spawnFails error h => simp only [weight, h, coordinatorWeight]; omega
  | unwindAssignments h =>
    simp only [weight, h, coordinatorWeight, BoundedQueue.close_items]
    omega
  | unwindCompletions h =>
    simp only [weight, h, coordinatorWeight, BoundedQueue.close_items]
    omega
  | unwindJoin h hworkers => simp only [weight, h, coordinatorWeight]; omega
  | @workerStarts i h hstart =>
    have hsum := workerWeight_setWorker state i .popping
    rw [h] at hsum
    simp only [weight, setWorker, workerWeight] at hsum ⊢
    omega
  | @workerPops i block queue h hpop =>
    have hsum := workerWeight_setWorker state i (.computing block)
    obtain ⟨hitems, -, -⟩ := BoundedQueue.pop_item hpop
    rw [h] at hsum
    simp only [weight, setWorker, workerWeight, hitems, List.length_cons] at hsum ⊢
    omega
  | @workerDrained i queue h hpop =>
    have hsum := workerWeight_setWorker state i .leaving
    rw [h] at hsum
    simp only [weight, setWorker, workerWeight] at hsum ⊢
    omega
  | @workerComputes block result i h hwork =>
    have hsum := workerWeight_setWorker state i (.pushing result)
    rw [h] at hsum
    simp only [weight, setWorker, workerWeight] at hsum ⊢
    omega
  | @workerPushes i result queue h hpush =>
    have hsum := workerWeight_setWorker state i .popping
    obtain ⟨-, rfl⟩ := BoundedQueue.push_accepted hpush
    rw [h] at hsum
    simp only [weight, setWorker, workerWeight, List.length_append, List.length_singleton]
      at hsum ⊢
    omega
  | @workerRefused i result queue h hpush =>
    have hsum := workerWeight_setWorker state i .leaving
    rw [h] at hsum
    simp only [weight, setWorker, workerWeight] at hsum ⊢
    omega
  | @workerThrows i error h =>
    have hsum := workerWeight_setWorker state i (.raising (.storeError error))
    have hrunning : 10 ≤ workerWeight (state.worker i) := by
      revert h
      cases state.worker i <;> simp [WorkerState.running, workerWeight]
    simp only [weight, setWorker, workerWeight, raiseWeight] at hsum hrunning ⊢
    omega
  | @workerRaises i raise h =>
    cases raise with
    | storeError error =>
      have hsum := workerWeight_setWorker state i (.raising .closeAssignments)
      rw [h] at hsum
      simp only [weight, recordError, setWorker, workerWeight, raiseWeight] at hsum ⊢
      omega
    | closeAssignments =>
      have hsum := workerWeight_setWorker state i (.raising .closeCompletions)
      rw [h] at hsum
      simp only [weight, recordError, setWorker, workerWeight, raiseWeight,
        BoundedQueue.close_items] at hsum ⊢
      omega
    | closeCompletions =>
      have hsum := workerWeight_setWorker state i .leaving
      rw [h] at hsum
      simp only [weight, recordError, setWorker, workerWeight, raiseWeight,
        BoundedQueue.close_items] at hsum ⊢
      omega
  | @workerLeaves i h =>
    have hsum := workerWeight_setWorker state i
      (if state.workersRemaining = 1 then .closing else .finished)
    rw [h] at hsum
    have hnext : workerWeight (if state.workersRemaining = 1 then .closing else .finished) ≤ 1 := by
      split <;> simp [workerWeight]
    simp only [weight, setWorker] at hsum ⊢
    simp only [show workerWeight .leaving = 3 from rfl] at hsum
    omega
  | @workerCloses i h =>
    have hsum := workerWeight_setWorker state i .finished
    rw [h] at hsum
    simp only [weight, setWorker, workerWeight, BoundedQueue.close_items] at hsum ⊢
    omega
  | @schedulerPushes block rest queue h hpush =>
    obtain ⟨-, rfl⟩ := BoundedQueue.push_accepted hpush
    simp only [weight, h, schedulerWeight, List.length_append, List.length_cons, List.length_nil]
    omega
  | schedulerRefused h hpush =>
    simp only [weight, h, schedulerWeight, List.length_cons]
    omega
  | schedulerDone h => simp only [weight, h, schedulerWeight, List.length_nil]; omega
  | schedulerCloses h =>
    simp only [weight, h, schedulerWeight, BoundedQueue.close_items]
    omega
  | schedulerThrows error h =>
    have hrunning : 5 ≤ schedulerWeight job.missing state.scheduler := by
      revert h
      cases state.scheduler <;> simp [SchedulerState.running, schedulerWeight]
    have hraising : schedulerWeight job.missing (.raising (.storeError error)) = 3 := rfl
    simp only [weight, hraising]
    omega
  | @schedulerRaises raise h =>
    cases raise <;>
      simp only [weight, recordError, h, schedulerWeight, raiseWeight, BoundedQueue.close_items]
        <;> omega
  | coordinatorPops h hpop =>
    obtain ⟨hitems, -, -⟩ := BoundedQueue.pop_item hpop
    simp only [weight, h, coordinatorWeight, hitems, List.length_cons]
    omega
  | coordinatorDrained h hpop => simp only [weight, h, coordinatorWeight]; omega
  | coordinatorConsumes h hconsume => simp only [weight, h, coordinatorWeight]; omega
  | coordinatorThrows h hconsume => simp only [weight, h, coordinatorWeight, raiseWeight]; omega
  | @coordinatorRaises raise h =>
    cases raise <;>
      simp only [weight, recordError, h, coordinatorWeight, raiseWeight, BoundedQueue.close_items]
        <;> omega
  | coordinatorJoins h hscheduler hworkers => simp only [weight, h, coordinatorWeight]; omega

/-- There is no infinite interleaving. -/
theorem step_wellFounded (job : Job) {κ : Type} (consume : BlockResult → κ → Result Unit × κ) :
    WellFounded fun after before : Execution job κ => Step consume before after :=
  Subrelation.wf (fun h => step_weight h) (InvImage.wf weight Nat.lt_wfRel.wf)

/-! ## Progress -/

/-- The points of a worker after which no assignment is needed any more. -/
def resigned : WorkerState → Bool
  | .raising .closeCompletions | .leaving | .closing | .finished => true
  | _ => false

/-- The points of the coordinating thread while all threads exist. -/
def collecting : CoordinatorThread → Bool
  | .popping | .consuming _ | .raising _ | .joining => true
  | _ => false

/-- In which order the threads are started. -/
structure Spawning (state : Execution job κ) : Prop where
  count_le : ∀ count, state.coordinator = .spawning count → count ≤ job.workers
  rest : ∀ count, state.coordinator = .spawning count →
    ∀ i : Fin job.workers, state.worker i = .unspawned ↔ count ≤ i
  scheduler : ∀ count, state.coordinator = .spawning count → state.scheduler = .unspawned
  spawned : collecting state.coordinator = true →
    state.scheduler ≠ .unspawned ∧ ∀ i, state.worker i ≠ .unspawned

/-- Who closes the queues, and in which order. -/
structure Closing (state : Execution job κ) : Prop where
  assignment_capacity : state.assignments.capacity = job.assignmentCapacity
  completion_capacity : state.completions.capacity = job.completionCapacity
  /-- The assignment queue is closed first. -/
  order : state.completions.closed = true → state.assignments.closed = true
  resigned_closed : ∀ i, resigned (state.worker i) = true → state.assignments.closed = true
  scheduler_raising : state.scheduler = .raising .closeCompletions → state.assignments.closed = true
  scheduler_finished : state.scheduler = .finished → state.assignments.closed = true
  coordinator_raising : state.coordinator = .raising .closeCompletions →
    state.assignments.closed = true
  joining_closed : state.coordinator = .joining → state.completions.closed = true
  unwinding_le : ∀ error closed, state.coordinator = .unwinding error closed → closed ≤ 2
  unwinding_one : ∀ error closed, state.coordinator = .unwinding error closed → 1 ≤ closed →
    state.assignments.closed = true
  unwinding_two : ∀ error closed, state.coordinator = .unwinding error closed → 2 ≤ closed →
    state.completions.closed = true

/-- How `workers_remaining` counts. -/
structure Counting (state : Execution job κ) : Prop where
  remaining : state.workersRemaining = ∑ i, counted (state.worker i)
  last : state.workersRemaining = 0 → state.completions.closed = true ∨
    ∃ i, state.worker i = .closing

theorem spawning_initial (sink : κ) : Spawning (initial job sink) := by
  refine ⟨?_, ?_, fun _ _ => rfl, ?_⟩
  · intro count h
    cases h
    exact Nat.zero_le _
  · intro count h i
    cases h
    exact ⟨fun _ => Nat.zero_le _, fun _ => rfl⟩
  · intro h
    cases h

theorem Spawning.step (hs : Spawning state) (h : Step consume state state') : Spawning state' := by
  obtain ⟨hcount, hrest, hscheduler, hspawned⟩ := hs
  refine ⟨?_, ?_, ?_, ?_⟩
  · clear hrest hscheduler hspawned
    cases h with
    | _ => grind
  · clear hcount hscheduler hspawned
    cases h with
    | _ => grind [WorkerState.running]
  · clear hcount hrest hspawned
    cases h with
    | _ => grind [SchedulerState.running]
  · clear hcount hscheduler
    cases h with
    | spawnScheduler h hscheduler =>
      intro _
      refine ⟨(by intro h; cases h), fun i hi => ?_⟩
      have := (hrest _ h i).mp hi
      omega
    | _ => clear hrest; grind [collecting, SchedulerState.running]

attribute [local grind →] BoundedQueue.push_accepted BoundedQueue.push_refused
  BoundedQueue.pop_item BoundedQueue.pop_drained

theorem closing_initial (sink : κ) : Closing (initial job sink) := by
  constructor <;> simp [initial, BoundedQueue.new, resigned]

attribute [local grind =] BoundedQueue.close

theorem recordError_assignments_closed (raise : RaiseState)
    (h : state.assignments.closed = true) :
    (state.recordError raise).1.assignments.closed = true := by
  cases raise <;> simp [recordError, h]

/-- The assignment queue stays closed. -/
theorem step_assignments_closed (h : Step consume state state')
    (hclosed : state.assignments.closed = true) : state'.assignments.closed = true := by
  cases h with
  | workerRaises h => exact recordError_assignments_closed _ hclosed
  | schedulerRaises h => exact recordError_assignments_closed _ hclosed
  | coordinatorRaises h => exact recordError_assignments_closed _ hclosed
  | _ => grind

/-- The completion queue stays closed. -/
theorem step_completions_closed (h : Step consume state state')
    (hclosed : state.completions.closed = true) : state'.completions.closed = true := by
  cases h with
  | @workerRaises i raise h => cases raise <;> simp [recordError, setWorker, hclosed]
  | @schedulerRaises raise h => cases raise <;> simp [recordError, hclosed]
  | @coordinatorRaises raise h => cases raise <;> simp [recordError, hclosed]
  | _ => grind

/-- Whoever closes the completion queue comes after the assignment queue was closed. -/
theorem Closing.step_order (hc : Closing state) (h : Step consume state state')
    (hclosed : state'.completions.closed = true) : state'.assignments.closed = true := by
  by_cases hnow : state.completions.closed = true
  · exact step_assignments_closed h (hc.order hnow)
  · apply step_assignments_closed h
    cases h with
    | unwindCompletions h => exact hc.unwinding_one _ 1 h le_rfl
    | @workerRaises i raise h =>
      cases raise with
      | closeCompletions => exact hc.resigned_closed i (by rw [h]; rfl)
      | _ => exact absurd hclosed hnow
    | @workerCloses i h => exact hc.resigned_closed i (by rw [h]; rfl)
    | @schedulerRaises raise h =>
      cases raise with
      | closeCompletions => exact hc.scheduler_raising h
      | _ => exact absurd hclosed hnow
    | @coordinatorRaises raise h =>
      cases raise with
      | closeCompletions => exact hc.coordinator_raising h
      | _ => exact absurd hclosed hnow
    | _ => grind

/-- A worker resigns after it found the assignment queue closed or closed it. -/
theorem Closing.step_resigned (hc : Closing state) (h : Step consume state state')
    {i : Fin job.workers} (hi : resigned (state'.worker i) = true) :
    state'.assignments.closed = true := by
  by_cases hnow : resigned (state.worker i) = true
  · exact step_assignments_closed h (hc.resigned_closed i hnow)
  · cases h with
    | @workerDrained j queue h hpop => exact (BoundedQueue.pop_drained hpop).2.1
    | @workerRefused j result queue h hpush => exact hc.order (BoundedQueue.push_refused hpush).1
    | @workerRaises j raise h => cases raise <;> grind [recordError, resigned]
    | @schedulerRaises raise h => rw [recordError_worker] at hi; exact absurd hi hnow
    | @coordinatorRaises raise h => rw [recordError_worker] at hi; exact absurd hi hnow
    | _ => grind [resigned]

/-- No step changes a capacity. -/
theorem step_capacity (h : Step consume state state') :
    state'.assignments.capacity = state.assignments.capacity ∧
      state'.completions.capacity = state.completions.capacity := by
  cases h with
  | @workerRaises i raise h => cases raise <;> exact ⟨rfl, rfl⟩
  | @schedulerRaises raise h => cases raise <;> exact ⟨rfl, rfl⟩
  | @coordinatorRaises raise h => cases raise <;> exact ⟨rfl, rfl⟩
  | _ => grind

theorem Closing.step_scheduler (hc : Closing state) (h : Step consume state state') :
    (state'.scheduler = .raising .closeCompletions → state'.assignments.closed = true) ∧
      (state'.scheduler = .finished → state'.assignments.closed = true) := by
  have hassignments := step_assignments_closed h
  obtain ⟨-, -, -, -, hraising, hfinished, -, -, -, -, -⟩ := hc
  cases h with
  | @workerRaises i raise h => cases raise <;> grind [recordError]
  | @schedulerRaises raise h => cases raise <;> grind [recordError]
  | @coordinatorRaises raise h => cases raise <;> grind [recordError]
  | _ => grind

theorem Closing.step_coordinator (hc : Closing state) (h : Step consume state state') :
    (state'.coordinator = .raising .closeCompletions → state'.assignments.closed = true) ∧
      (state'.coordinator = .joining → state'.completions.closed = true) := by
  have hassignments := step_assignments_closed h
  have hcompletions := step_completions_closed h
  obtain ⟨-, -, -, -, -, -, hraising, hjoining, -, -, -⟩ := hc
  cases h with
  | @workerRaises i raise h => cases raise <;> grind [recordError]
  | @schedulerRaises raise h => cases raise <;> grind [recordError]
  | @coordinatorRaises raise h => cases raise <;> grind [recordError]
  | _ => grind

theorem Closing.step_unwinding (hc : Closing state) (h : Step consume state state')
    {error : Exception} {closed : ℕ} (hu : state'.coordinator = .unwinding error closed) :
    closed ≤ 2 ∧ (1 ≤ closed → state'.assignments.closed = true) ∧
      (2 ≤ closed → state'.completions.closed = true) := by
  have hassignments := step_assignments_closed h
  have hcompletions := step_completions_closed h
  obtain ⟨-, -, -, -, -, -, -, -, hle, hone, htwo⟩ := hc
  cases h with
  | @workerRaises i raise h => cases raise <;> grind [recordError]
  | @schedulerRaises raise h => cases raise <;> grind [recordError]
  | @coordinatorRaises raise h => cases raise <;> grind [recordError]
  | _ => grind

theorem Closing.step (hc : Closing state) (h : Step consume state state') : Closing state' where
  assignment_capacity := (step_capacity h).1.trans hc.assignment_capacity
  completion_capacity := (step_capacity h).2.trans hc.completion_capacity
  order := hc.step_order h
  resigned_closed := fun _ => hc.step_resigned h
  scheduler_raising := (hc.step_scheduler h).1
  scheduler_finished := (hc.step_scheduler h).2
  coordinator_raising := (hc.step_coordinator h).1
  joining_closed := (hc.step_coordinator h).2
  unwinding_le := fun _ _ hu => (hc.step_unwinding h hu).1
  unwinding_one := fun _ _ hu => (hc.step_unwinding h hu).2.1
  unwinding_two := fun _ _ hu => (hc.step_unwinding h hu).2.2

theorem counting_initial (hpos : 0 < job.workers) (sink : κ) : Counting (initial job sink) := by
  refine ⟨by simp [initial, counted], ?_⟩
  intro h
  exact absurd h hpos.ne'

/-- A worker that has not left counts. -/
theorem Counting.pos (hc : Counting state) {i : Fin job.workers}
    (hi : counted (state.worker i) = 1) : 0 < state.workersRemaining := by
  rw [hc.remaining]
  have := Finset.single_le_sum (f := fun j => counted (state.worker j))
    (fun j _ => Nat.zero_le _) (Finset.mem_univ i)
  simp only [hi] at this
  omega

/-- A worker moves on before it leaves. -/
theorem Counting.move (hc : Counting state) {i : Fin job.workers} {next : WorkerState}
    (hnow : counted (state.worker i) = 1) (hnext : counted next = 1) :
    state.workersRemaining = ∑ j, counted ((state.setWorker i next).worker j) ∧
      state.workersRemaining ≠ 0 := by
  have hsum := counted_setWorker state i next
  have hremaining := hc.remaining
  have hpos := hc.pos hnow
  omega

theorem Counting.step (hc : Counting state) (h : Step consume state state') : Counting state' := by
  have hcompletions := step_completions_closed h
  have hstay : ∀ {next : Execution job κ}, next.worker = state.worker →
      next.workersRemaining = state.workersRemaining →
      (state.completions.closed = true → next.completions.closed = true) → Counting next := by
    intro next hworker hremaining hclosed
    refine ⟨by rw [hremaining, hworker, hc.remaining], fun hzero => ?_⟩
    rw [hremaining] at hzero
    rw [hworker]
    exact (hc.last hzero).imp hclosed id
  have hmove : ∀ {next : Execution job κ} {i : Fin job.workers} {moved : WorkerState},
      counted (state.worker i) = 1 → counted moved = 1 →
      next.worker = (state.setWorker i moved).worker →
      next.workersRemaining = state.workersRemaining → Counting next := by
    intro next i moved hnow hnext hworker hremaining
    obtain ⟨hsum, hne⟩ := hc.move hnow hnext
    exact ⟨by rw [hremaining, hworker, hsum], fun hzero => absurd (hremaining ▸ hzero) hne⟩
  cases h with
  | spawnWorker i h hworker => exact hmove (i := i) (by rw [hworker]; rfl) rfl rfl rfl
  | workerStarts h hstart => exact hmove (by rw [h]; rfl) rfl rfl rfl
  | workerPops h hpop => exact hmove (by rw [h]; rfl) rfl rfl rfl
  | workerDrained h hpop => exact hmove (by rw [h]; rfl) rfl rfl rfl
  | workerComputes h hwork => exact hmove (by rw [h]; rfl) rfl rfl rfl
  | workerPushes h hpush => exact hmove (by rw [h]; rfl) rfl rfl rfl
  | workerRefused h hpush => exact hmove (by rw [h]; rfl) rfl rfl rfl
  | @workerThrows i error h =>
    refine hmove (i := i) ?_ rfl rfl rfl
    revert h
    cases state.worker i <;> simp [WorkerState.running, counted]
  | @workerRaises i raise h =>
    cases raise <;> exact hmove (i := i) (by rw [h]; rfl) rfl rfl rfl
  | @workerLeaves i h =>
    have hnow : counted (state.worker i) = 1 := by rw [h]; rfl
    have hpos := hc.pos hnow
    have hremaining := hc.remaining
    by_cases hone : state.workersRemaining = 1
    · have hsum := counted_setWorker state i .closing
      rw [if_pos hone]
      refine ⟨?_, fun _ => Or.inr ⟨i, by grind⟩⟩
      change state.workersRemaining - 1 = ∑ j, counted ((state.setWorker i .closing).worker j)
      rw [hnow, show counted .closing = 0 from rfl] at hsum
      omega
    · have hsum := counted_setWorker state i .finished
      rw [if_neg hone]
      refine ⟨?_, fun hzero => ?_⟩
      · change state.workersRemaining - 1 = ∑ j, counted ((state.setWorker i .finished).worker j)
        rw [hnow, show counted .finished = 0 from rfl] at hsum
        omega
      · change state.workersRemaining - 1 = 0 at hzero
        omega
  | @workerCloses i h =>
    have hsum := counted_setWorker state i .finished
    rw [h, show counted .closing = 0 from rfl, show counted .finished = 0 from rfl] at hsum
    refine ⟨?_, fun _ => Or.inl rfl⟩
    change state.workersRemaining = ∑ j, counted ((state.setWorker i .finished).worker j)
    rw [hc.remaining]
    omega
  | @schedulerRaises raise h => cases raise <;> exact hstay rfl rfl hcompletions
  | @coordinatorRaises raise h => cases raise <;> exact hstay rfl rfl hcompletions
  | _ => exact hstay rfl rfl hcompletions

/-- A computation that some thread is at throws: the construction of a kernel, a block, or
`consume_result`. -/
def Failing (consume : BlockResult → κ → Result Unit × κ) (state : Execution job κ) : Prop :=
  (∃ error, job.start = .error error) ∨
    (∃ (i : Fin job.workers) (block : ScenarioBlock) (error : Exception),
      state.worker i = .computing block ∧ job.work i block = .error error) ∨
    ∃ result error, state.coordinator = .consuming result ∧
      (consume result state.sink).1 = .error error

/-- Some thread can move, and it throws only if its computation does. -/
def Moves (consume : BlockResult → κ → Result Unit × κ) (state : Execution job κ) : Prop :=
  ∃ state', Step consume state state' ∧ (state'.thrown = state.thrown ∨ Failing consume state)

theorem pop_of_ready {α : Type} {queue : BoundedQueue α}
    (h : queue.closed = true ∨ queue.items ≠ []) : ∃ item rest, queue.pop = some (item, rest) := by
  unfold BoundedQueue.pop
  split
  · exact ⟨_, _, rfl⟩
  · rename_i hitems
    rcases h with h | h
    · exact ⟨_, _, by rw [if_pos h]⟩
    · exact absurd hitems h

theorem push_of_ready {α : Type} {queue : BoundedQueue α} (item : α)
    (h : queue.closed = true ∨ queue.items.length < queue.capacity) :
    ∃ accepted rest, queue.push item = some (accepted, rest) := by
  unfold BoundedQueue.push
  by_cases hclosed : queue.closed = true
  · exact ⟨_, _, by rw [if_pos hclosed]⟩
  · rw [if_neg hclosed, if_pos (h.resolve_left hclosed)]
    exact ⟨_, _, rfl⟩

/-- The threads of an execution. -/
inductive Thread (workers : ℕ) where
  | scheduler
  | worker (i : Fin workers)
  | coordinator

/-- A thread can go on: it runs, and neither a queue nor another thread keeps it waiting. -/
def Ready (state : Execution job κ) : Thread job.workers → Prop
  | .worker i =>
    match state.worker i with
    | .unspawned | .finished => False
    | .popping => state.assignments.closed = true ∨ state.assignments.items ≠ []
    | .pushing _ => state.completions.closed = true ∨
        state.completions.items.length < state.completions.capacity
    | _ => True
  | .scheduler =>
    match state.scheduler with
    | .unspawned | .finished => False
    | .pushing (_ :: _) => state.assignments.closed = true ∨
        state.assignments.items.length < state.assignments.capacity
    | _ => True
  | .coordinator =>
    match state.coordinator with
    | .popping => state.completions.closed = true ∨ state.completions.items ≠ []
    | .unwinding _ 2 => ∀ i, state.worker i = .unspawned ∨ state.worker i = .finished
    | .joining => state.scheduler = .finished ∧ ∀ i, state.worker i = .finished
    | .returned _ => False
    | _ => True

/-- Every thread but one stays where it is, unless it is only now started. -/
structure Alone (thread : Thread job.workers) (state state' : Execution job κ) : Prop where
  scheduler : thread ≠ .scheduler →
    state.scheduler = .unspawned ∨ state'.scheduler = state.scheduler
  worker : ∀ i, thread ≠ .worker i →
    state.worker i = .unspawned ∨ state'.worker i = state.worker i
  coordinator : thread ≠ .coordinator → state'.coordinator = state.coordinator

/-- A thread can move, and it throws only if its computation does. -/
def MovesBy (consume : BlockResult → κ → Result Unit × κ) (state : Execution job κ)
    (thread : Thread job.workers) : Prop :=
  ∃ state', Step consume state state' ∧
    (state'.thrown = state.thrown ∨ Failing consume state) ∧ Alone thread state state'

/-- A worker was moved, and nothing else. -/
theorem alone_worker {i : Fin job.workers} {next : WorkerState}
    (hscheduler : state'.scheduler = state.scheduler)
    (hcoordinator : state'.coordinator = state.coordinator)
    (hworker : state'.worker = Function.update state.worker i next) :
    Alone (.worker i) state state' := by
  refine ⟨fun _ => Or.inr hscheduler, fun j hj => Or.inr ?_, fun _ => hcoordinator⟩
  rw [hworker, Function.update_of_ne]
  rintro rfl
  exact hj rfl

theorem alone_scheduler (hcoordinator : state'.coordinator = state.coordinator)
    (hworker : state'.worker = state.worker) : Alone .scheduler state state' :=
  ⟨fun h => absurd rfl h, fun i _ => Or.inr (by rw [hworker]), fun _ => hcoordinator⟩

theorem alone_coordinator (hscheduler : state'.scheduler = state.scheduler)
    (hworker : state'.worker = state.worker) : Alone .coordinator state state' :=
  ⟨fun _ => Or.inr hscheduler, fun i _ => Or.inr (by rw [hworker]), fun h => absurd rfl h⟩

/-- A worker moves unless it waits on a queue. -/
theorem movesBy_worker {i : Fin job.workers} (h : Ready state (.worker i)) :
    MovesBy consume state (.worker i) := by
  simp only [Ready] at h
  cases hi : state.worker i with
  | unspawned => rw [hi] at h; cases h
  | starting =>
    cases hstart : job.start with
    | ok u => exact ⟨_, .workerStarts hi hstart, Or.inl rfl, alone_worker rfl rfl rfl⟩
    | error e =>
      exact ⟨_, .workerThrows e (by rw [hi]; rfl), Or.inr (Or.inl ⟨e, hstart⟩),
        alone_worker rfl rfl rfl⟩
  | popping =>
    rw [hi] at h
    obtain ⟨item, queue, hready⟩ := pop_of_ready h
    cases item with
    | some block => exact ⟨_, .workerPops hi hready, Or.inl rfl, alone_worker rfl rfl rfl⟩
    | none => exact ⟨_, .workerDrained hi hready, Or.inl rfl, alone_worker rfl rfl rfl⟩
  | computing block =>
    cases hwork : job.work i block with
    | ok result => exact ⟨_, .workerComputes hi hwork, Or.inl rfl, alone_worker rfl rfl rfl⟩
    | error e =>
      exact ⟨_, .workerThrows e (by rw [hi]; rfl),
        Or.inr (Or.inr (Or.inl ⟨i, block, e, hi, hwork⟩)), alone_worker rfl rfl rfl⟩
  | pushing result =>
    rw [hi] at h
    obtain ⟨accepted, queue, hready⟩ := push_of_ready result h
    cases accepted with
    | true => exact ⟨_, .workerPushes hi hready, Or.inl rfl, alone_worker rfl rfl rfl⟩
    | false => exact ⟨_, .workerRefused hi hready, Or.inl rfl, alone_worker rfl rfl rfl⟩
  | raising raise =>
    refine ⟨_, .workerRaises hi, Or.inl (by rw [setWorker_thrown, recordError_thrown]), ?_⟩
    refine alone_worker (recordError_scheduler raise) (recordError_coordinator raise)
      (congrArg (Function.update · i _) (funext (recordError_worker raise)))
  | leaving => exact ⟨_, .workerLeaves hi, Or.inl rfl, alone_worker rfl rfl rfl⟩
  | closing => exact ⟨_, .workerCloses hi, Or.inl rfl, alone_worker rfl rfl rfl⟩
  | finished => rw [hi] at h; cases h

/-- The scheduler moves unless it waits on a full queue. -/
theorem movesBy_scheduler (h : Ready state .scheduler) : MovesBy consume state .scheduler := by
  simp only [Ready] at h
  cases hs : state.scheduler with
  | unspawned => rw [hs] at h; cases h
  | pushing pending =>
    cases pending with
    | nil => exact ⟨_, .schedulerDone hs, Or.inl rfl, alone_scheduler rfl rfl⟩
    | cons block rest =>
      rw [hs] at h
      obtain ⟨accepted, queue, hready⟩ := push_of_ready block h
      cases accepted with
      | true => exact ⟨_, .schedulerPushes hs hready, Or.inl rfl, alone_scheduler rfl rfl⟩
      | false => exact ⟨_, .schedulerRefused hs hready, Or.inl rfl, alone_scheduler rfl rfl⟩
  | closing => exact ⟨_, .schedulerCloses hs, Or.inl rfl, alone_scheduler rfl rfl⟩
  | raising raise =>
    refine ⟨_, .schedulerRaises hs, Or.inl (recordError_thrown raise), ?_⟩
    exact alone_scheduler (recordError_coordinator raise) (funext (recordError_worker raise))
  | finished => rw [hs] at h; cases h

/-- The coordinating thread moves unless it waits on a queue or for other threads. -/
theorem movesBy_coordinator (hs : Spawning state) (hc : Closing state)
    (h : Ready state .coordinator) : MovesBy consume state .coordinator := by
  simp only [Ready] at h
  cases hcoord : state.coordinator with
  | spawning count =>
    rcases Nat.lt_or_ge count job.workers with hlt | hge
    · have hunspawned := (hs.rest count hcoord ⟨count, hlt⟩).mpr le_rfl
      refine ⟨_, .spawnWorker ⟨count, hlt⟩ hcoord hunspawned, Or.inl rfl, fun _ => Or.inr rfl,
        fun i _ => ?_, fun h => absurd rfl h⟩
      by_cases hi : i = ⟨count, hlt⟩
      · rw [hi]
        exact Or.inl hunspawned
      · exact Or.inr (Function.update_of_ne hi _ _)
    · obtain rfl : count = job.workers := le_antisymm (hs.count_le count hcoord) hge
      have hunspawned := hs.scheduler _ hcoord
      exact ⟨_, .spawnScheduler hcoord hunspawned, Or.inl rfl, fun _ => Or.inl hunspawned,
        fun _ _ => Or.inr rfl, fun h => absurd rfl h⟩
  | unwinding error closed =>
    rw [hcoord] at h
    obtain rfl | rfl | rfl : closed = 0 ∨ closed = 1 ∨ closed = 2 := by
      have := hc.unwinding_le error closed hcoord
      omega
    · exact ⟨_, .unwindAssignments hcoord, Or.inl rfl, alone_coordinator rfl rfl⟩
    · exact ⟨_, .unwindCompletions hcoord, Or.inl rfl, alone_coordinator rfl rfl⟩
    · exact ⟨_, .unwindJoin hcoord h, Or.inl rfl, alone_coordinator rfl rfl⟩
  | popping =>
    rw [hcoord] at h
    obtain ⟨item, queue, hpop⟩ := pop_of_ready h
    cases item with
    | some result =>
      exact ⟨_, .coordinatorPops hcoord hpop, Or.inl rfl, alone_coordinator rfl rfl⟩
    | none => exact ⟨_, .coordinatorDrained hcoord hpop, Or.inl rfl, alone_coordinator rfl rfl⟩
  | consuming result =>
    cases hconsume : (consume result state.sink).1 with
    | ok u =>
      exact ⟨_, .coordinatorConsumes hcoord hconsume, Or.inl rfl, alone_coordinator rfl rfl⟩
    | error e =>
      exact ⟨_, .coordinatorThrows hcoord hconsume,
        Or.inr (Or.inr (Or.inr ⟨result, e, hcoord, hconsume⟩)), alone_coordinator rfl rfl⟩
  | raising raise =>
    refine ⟨_, .coordinatorRaises hcoord, Or.inl (recordError_thrown raise), ?_⟩
    exact alone_coordinator (recordError_scheduler raise) (funext (recordError_worker raise))
  | joining =>
    rw [hcoord] at h
    exact ⟨_, .coordinatorJoins hcoord h.1 h.2, Or.inl rfl, alone_coordinator rfl rfl⟩
  | returned outcome => rw [hcoord] at h; cases h

theorem movesBy_of_ready (hs : Spawning state) (hc : Closing state) {thread : Thread job.workers}
    (h : Ready state thread) : MovesBy consume state thread := by
  cases thread with
  | scheduler => exact movesBy_scheduler h
  | worker i => exact movesBy_worker h
  | coordinator => exact movesBy_coordinator hs hc h

/-- A worker is ready unless it waits on a queue. -/
theorem ready_worker {i : Fin job.workers} (hspawned : state.worker i ≠ .unspawned)
    (hunfinished : state.worker i ≠ .finished)
    (hpop : state.worker i = .popping →
      state.assignments.closed = true ∨ state.assignments.items ≠ [])
    (hpush : state.completions.closed = true ∨
      state.completions.items.length < state.completions.capacity) :
    Ready state (.worker i) := by
  simp only [Ready]
  cases hi : state.worker i with
  | unspawned => exact hspawned hi
  | finished => exact hunfinished hi
  | popping => exact hpop hi
  | pushing result => exact hpush
  | _ => trivial

/-- The scheduler is ready unless it waits on a full queue. -/
theorem ready_scheduler (hspawned : state.scheduler ≠ .unspawned)
    (hunfinished : state.scheduler ≠ .finished)
    (hpush : state.assignments.closed = true ∨
      state.assignments.items.length < state.assignments.capacity) : Ready state .scheduler := by
  simp only [Ready]
  cases hs : state.scheduler with
  | unspawned => exact hspawned hs
  | finished => exact hunfinished hs
  | pushing pending =>
    cases pending with
    | nil => trivial
    | cons block rest => exact hpush
  | _ => trivial

/-- While the completion queue is open and empty, a worker or the scheduler is ready. -/
theorem ready_of_waiting (hc : Closing state) (hcount : Counting state)
    (hassignment : 0 < job.assignmentCapacity) (hcompletion : 0 < job.completionCapacity)
    (hspawned : state.scheduler ≠ .unspawned ∧ ∀ i, state.worker i ≠ .unspawned)
    (hopen : state.completions.closed ≠ true) (hempty : state.completions.items = []) :
    ∃ thread, Ready state thread := by
  have hroom : state.completions.closed = true ∨
      state.completions.items.length < state.completions.capacity := by
    rw [hempty, hc.completion_capacity]
    exact Or.inr hcompletion
  -- someone has not finished: otherwise the last worker would have closed the queue
  obtain ⟨i, hi⟩ : ∃ i, state.worker i ≠ .finished := by
    by_contra hall
    push Not at hall
    have hzero : state.workersRemaining = 0 := by
      rw [hcount.remaining]
      exact Finset.sum_eq_zero fun i _ => by rw [hall i]; rfl
    rcases hcount.last hzero with h | ⟨i, h⟩
    · exact hopen h
    · rw [hall i] at h; cases h
  by_cases hready : state.assignments.closed = true ∨ state.assignments.items ≠ []
  · exact ⟨.worker i, ready_worker (hspawned.2 i) hi (fun _ => hready) hroom⟩
  · -- the assignment queue is open and empty, so the scheduler is not finished
    push Not at hready
    refine ⟨.scheduler,
      ready_scheduler hspawned.1 (fun h => hready.1 (hc.scheduler_finished h)) ?_⟩
    rw [hready.2, hc.assignment_capacity]
    exact Or.inr hassignment

/-- The three accounts of the threads and the queues, in every reachable state. -/
theorem accounts_of_reaches (hpos : 0 < job.workers) {sink : κ} (h : Reaches consume sink state) :
    Spawning state ∧ Closing state ∧ Counting state := by
  induction h with
  | refl => exact ⟨spawning_initial sink, closing_initial sink, counting_initial hpos sink⟩
  | tail _ hstep ih => exact ⟨ih.1.step hstep, ih.2.1.step hstep, ih.2.2.step hstep⟩

/-- As long as the function has not returned, some thread is ready. -/
theorem exists_ready (hs : Spawning state) (hc : Closing state) (hcount : Counting state)
    (hassignment : 0 < job.assignmentCapacity) (hcompletion : 0 < job.completionCapacity) :
    (∃ outcome, state.coordinator = .returned outcome) ∨ ∃ thread, Ready state thread := by
  cases hcoord : state.coordinator with
  | unwinding error closed =>
    refine Or.inr ?_
    obtain rfl | rfl | rfl : closed = 0 ∨ closed = 1 ∨ closed = 2 := by
      have := hc.unwinding_le error closed hcoord
      omega
    · exact ⟨.coordinator, by simp only [Ready, hcoord]⟩
    · exact ⟨.coordinator, by simp only [Ready, hcoord]⟩
    · by_cases hall : ∀ i, state.worker i = .unspawned ∨ state.worker i = .finished
      · exact ⟨.coordinator, by simpa only [Ready, hcoord] using hall⟩
      · push Not at hall
        obtain ⟨i, hi, hi'⟩ := hall
        exact ⟨.worker i, ready_worker hi hi'
          (fun _ => Or.inl (hc.unwinding_one error 2 hcoord (by omega)))
          (Or.inl (hc.unwinding_two error 2 hcoord le_rfl))⟩
  | popping =>
    refine Or.inr ?_
    by_cases hready : state.completions.closed = true ∨ state.completions.items ≠ []
    · exact ⟨.coordinator, by simpa only [Ready, hcoord] using hready⟩
    · push Not at hready
      exact ready_of_waiting hc hcount hassignment hcompletion (hs.spawned (by rw [hcoord]; rfl))
        hready.1 hready.2
  | joining =>
    refine Or.inr ?_
    obtain ⟨hscheduler, hworkers⟩ := hs.spawned (by rw [hcoord]; rfl)
    have hclosed := hc.joining_closed hcoord
    by_cases hall : ∀ i, state.worker i = .finished
    · by_cases hsched : state.scheduler = .finished
      · exact ⟨.coordinator, by simpa only [Ready, hcoord] using ⟨hsched, hall⟩⟩
      · exact ⟨.scheduler, ready_scheduler hscheduler hsched (Or.inl (hc.order hclosed))⟩
    · push Not at hall
      obtain ⟨i, hi⟩ := hall
      exact ⟨.worker i, ready_worker (hworkers i) hi (fun _ => Or.inl (hc.order hclosed))
        (Or.inl hclosed)⟩
  | returned outcome => exact Or.inl ⟨outcome, rfl⟩
  | _ => exact Or.inr ⟨.coordinator, by simp only [Ready, hcoord]⟩

/-- As long as the function has not returned, some thread can move. -/
theorem progress (hpos : 0 < job.workers) (hassignment : 0 < job.assignmentCapacity)
    (hcompletion : 0 < job.completionCapacity) {sink : κ} (h : Reaches consume sink state) :
    (∃ outcome, state.coordinator = .returned outcome) ∨ Moves consume state := by
  obtain ⟨hs, hc, hcount⟩ := accounts_of_reaches hpos h
  refine (exists_ready hs hc hcount hassignment hcompletion).imp id ?_
  rintro ⟨thread, hready⟩
  obtain ⟨state', hstep, hthrown, -⟩ := movesBy_of_ready hs hc hready
  exact ⟨state', hstep, hthrown⟩

/-- If no computation throws, some interleaving returns without an exception. -/
theorem exists_returned (job : Job) (consume : BlockResult → κ → Result Unit × κ) (sink : κ)
    (hpos : 0 < job.workers) (hassignment : 0 < job.assignmentCapacity)
    (hcompletion : 0 < job.completionCapacity)
    (hsound : ∀ state : Execution job κ, Reaches consume sink state → state.thrown = false →
      ¬ Failing consume state) :
    ∃ (state : Execution job κ) (outcome : Result ℕ), Reaches consume sink state ∧
      state.coordinator = .returned outcome ∧ state.thrown = false := by
  have hfrom : ∀ state : Execution job κ, Reaches consume sink state → state.thrown = false →
      ∃ (final : Execution job κ) (outcome : Result ℕ), Reaches consume sink final ∧
        final.coordinator = .returned outcome ∧ final.thrown = false := by
    intro state
    induction state using (step_wellFounded job consume).induction with
    | _ state ih =>
      intro hreach hquiet
      rcases progress hpos hassignment hcompletion hreach with ⟨outcome, hreturned⟩ | hmoves
      · exact ⟨state, outcome, hreach, hreturned, hquiet⟩
      · obtain ⟨next, hstep, hthrown⟩ := hmoves
        have hsame := hthrown.resolve_right (hsound state hreach hquiet)
        exact ih next hstep (hreach.tail hstep) (hsame.trans hquiet)
  exact hfrom _ .refl rfl

end Execution
end MonteCarlo
