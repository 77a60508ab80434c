import MonteCarlo.Engine.Schedule

/-!
# Exactly-once delivery

Invariants of `execute_missing_blocks` over every interleaving.

Every missing block is at one place at a time: still with the scheduler, in the
assignment queue, with a worker, in the completion queue, with the coordinating
thread, or consumed.  `stock` adds these places up.  A step only moves blocks
between them, except that a closed queue refuses a block and that a thread which
throws drops the block it holds (`step_stock`).

As long as nothing is thrown no queue refuses anything, because the assignment
queue is closed only by the scheduler after its last block and the completion
queue only by the last worker to leave (`Quiet`).

* `Lawful.consumed_of_returned` — a run without exceptions consumes every missing block
  exactly once and returns the number of workers.
* `Accounted.error` — a run in which anything is thrown ends by throwing.
* `sink_invariant` — the rule by which a caller's invariant is carried through
  any interleaving.
-/

namespace MonteCarlo

/-- The results of a job carry the block they were computed for. -/
def Job.Labelled (job : Job) : Prop :=
  ∀ index block result, job.work index block = .ok result → result.block = block

namespace Execution

variable {job : Job} {κ : Type} {consume : BlockResult → κ → Result Unit × κ}
variable {state state' : Execution job κ}

/-! ## The fields of a moved state -/

section Fields

variable (i : Fin job.workers) (next : WorkerState) (raise : RaiseState)

@[grind =] theorem setWorker_worker (j : Fin job.workers) :
    (state.setWorker i next).worker j = if j = i then next else state.worker j :=
  Function.update_apply _ _ _ _

@[grind =] theorem setWorker_completions :
    (state.setWorker i next).completions = state.completions := rfl

@[grind =] theorem setWorker_assignments :
    (state.setWorker i next).assignments = state.assignments := rfl

@[grind =] theorem setWorker_scheduler : (state.setWorker i next).scheduler = state.scheduler := rfl

@[grind =] theorem setWorker_coordinator :
    (state.setWorker i next).coordinator = state.coordinator := rfl

@[grind =] theorem setWorker_consumed : (state.setWorker i next).consumed = state.consumed := rfl

@[grind =] theorem setWorker_firstError :
    (state.setWorker i next).firstError = state.firstError := rfl

@[grind =] theorem setWorker_thrown : (state.setWorker i next).thrown = state.thrown := rfl

@[grind =] theorem recordError_worker (j : Fin job.workers) :
    (state.recordError raise).1.worker j = state.worker j := by
  cases raise <;> rfl

@[grind =] theorem recordError_scheduler :
    (state.recordError raise).1.scheduler = state.scheduler := by
  cases raise <;> rfl

@[grind =] theorem recordError_coordinator :
    (state.recordError raise).1.coordinator = state.coordinator := by
  cases raise <;> rfl

@[grind =] theorem recordError_consumed :
    (state.recordError raise).1.consumed = state.consumed := by
  cases raise <;> rfl

@[grind =] theorem recordError_thrown : (state.recordError raise).1.thrown = state.thrown := by
  cases raise <;> rfl

@[grind =] theorem recordError_completions_items :
    (state.recordError raise).1.completions.items = state.completions.items := by
  cases raise <;> rfl

/-- An error, once stored or stored by this step, stays. -/
@[grind .] theorem recordError_firstError (h : state.firstError.isSome ∨
    ∃ error, raise = .storeError error) : (state.recordError raise).1.firstError.isSome := by
  cases raise <;> simp_all [recordError]

end Fields

/-! ## Where the blocks are -/

/-- The block a worker holds. -/
def held : WorkerState → Multiset ScenarioBlock
  | .computing block => {block}
  | .pushing result => {result.block}
  | _ => 0

theorem held_popping : held .popping = 0 := rfl

theorem held_computing (block : ScenarioBlock) : held (.computing block) = {block} := rfl

theorem held_pushing (result : BlockResult) : held (.pushing result) = {result.block} := rfl

/-- The blocks the scheduler has not submitted yet. -/
def unsubmitted (missing : List ScenarioBlock) : SchedulerState → Multiset ScenarioBlock
  | .unspawned => missing
  | .pushing pending => pending
  | _ => 0

/-- The block the coordinating thread holds. -/
def inHand : CoordinatorThread → Multiset ScenarioBlock
  | .consuming result => {result.block}
  | _ => 0

/-- All blocks in the system, delivered ones included. -/
def stock (state : Execution job κ) : Multiset ScenarioBlock :=
  unsubmitted job.missing state.scheduler + (state.assignments.items : Multiset ScenarioBlock)
    + ∑ i, held (state.worker i)
    + (state.completions.items.map (·.block) : List ScenarioBlock)
    + inHand state.coordinator + (state.consumed.map (·.block) : List ScenarioBlock)

/-- Moving one worker changes only its own share of a sum over the workers. -/
theorem sum_setWorker {M : Type} [AddCommMonoid M] (f : WorkerState → M)
    (worker : Fin job.workers → WorkerState) (i : Fin job.workers) (next : WorkerState) :
    ∑ j, f (Function.update worker i next j) + f (worker i) = ∑ j, f (worker j) + f next := by
  rw [← Finset.add_sum_erase _ _ (Finset.mem_univ i),
    ← Finset.add_sum_erase _ (fun j => f (worker j)) (Finset.mem_univ i)]
  have hrest : ∑ j ∈ Finset.univ.erase i, f (Function.update worker i next j)
      = ∑ j ∈ Finset.univ.erase i, f (worker j) := by
    refine Finset.sum_congr rfl fun j hj => ?_
    rw [Function.update_of_ne (Finset.ne_of_mem_erase hj)]
  rw [hrest, Function.update_self]
  abel

theorem held_setWorker (state : Execution job κ) (i : Fin job.workers) (next : WorkerState) :
    ∑ j, held ((state.setWorker i next).worker j) + held (state.worker i) =
      ∑ j, held (state.worker j) + held next :=
  sum_setWorker held state.worker i next

/-- The share of a worker that moves on, when nothing else changes. -/
theorem stock_setWorker (state : Execution job κ) (i : Fin job.workers) (next : WorkerState) :
    (state.setWorker i next).stock + held (state.worker i) = state.stock + held next := by
  have hsum := held_setWorker state i next
  have hleft : (state.setWorker i next).stock + held (state.worker i)
      = unsubmitted job.missing state.scheduler
        + (state.assignments.items : Multiset ScenarioBlock)
        + (∑ j, held ((state.setWorker i next).worker j) + held (state.worker i))
        + (state.completions.items.map (·.block) : List ScenarioBlock)
        + inHand state.coordinator + (state.consumed.map (·.block) : List ScenarioBlock) := by
    simp only [stock, setWorker]
    abel
  rw [hleft, hsum]
  simp only [stock]
  abel

/-- `record_error` moves no block. -/
theorem stock_recordError (state : Execution job κ) (raise : RaiseState) :
    (state.recordError raise).1.stock = state.stock := by
  cases raise <;> rfl

/-- A worker without a block moves on without taking one. -/
theorem stock_setWorker_of_empty {i : Fin job.workers} {next : WorkerState}
    (hnow : held (state.worker i) = 0) (hnext : held next = 0) :
    (state.setWorker i next).stock = state.stock := by
  have h := stock_setWorker state i next
  rwa [hnow, hnext, add_zero, add_zero] at h

/-- What a step can lose: the block of a thread that throws, or one that a closed
queue refuses. -/
def Drops (state state' : Execution job κ) : Prop :=
  state'.thrown = true ∨
    (state.completions.closed = true ∧ ∃ i result, state.worker i = .pushing result) ∨
    (state.assignments.closed = true ∧ ∃ block rest, state.scheduler = .pushing (block :: rest))

/-- A step moves blocks between their places; it never makes one up, and it loses one
only as `Drops` says. -/
theorem step_stock (hjob : job.Labelled) (h : Step consume state state') :
    state'.stock ≤ state.stock ∧ (Drops state state' ∨ state'.stock = state.stock) := by
  have keep : state'.stock = state.stock →
      state'.stock ≤ state.stock ∧ (Drops state state' ∨ state'.stock = state.stock) :=
    fun heq => ⟨heq.le, Or.inr heq⟩
  cases h with
  | spawnWorker i h hworker =>
    refine keep ?_
    have hmoved : (state.setWorker i .starting).stock = state.stock :=
      stock_setWorker_of_empty (by rw [hworker]; rfl) rfl
    rw [← hmoved]
    simp only [stock, setWorker, h, inHand]
  | spawnScheduler h hscheduler =>
    exact keep (by simp only [stock, h, hscheduler, inHand, unsubmitted])
  | spawnFails error h => exact keep (by simp only [stock, h, inHand])
  | unwindAssignments h => exact keep (by simp only [stock, h, inHand, BoundedQueue.close_items])
  | unwindCompletions h => exact keep (by simp only [stock, h, inHand, BoundedQueue.close_items])
  | unwindJoin h hworkers => exact keep (by simp only [stock, h, inHand])
  | workerStarts h hstart => exact keep (stock_setWorker_of_empty (by rw [h]; rfl) rfl)
  | @workerPops i block queue h hpop =>
    refine keep ?_
    obtain ⟨hitems, -, -⟩ := BoundedQueue.pop_item hpop
    have hsum := held_setWorker state i (.computing block)
    rw [h, held_popping, add_zero, held_computing] at hsum
    simp only [setWorker] at hsum
    simp only [stock, setWorker, hsum, hitems, ← Multiset.cons_coe, ← Multiset.singleton_add]
    abel
  | workerDrained h hpop => exact keep (stock_setWorker_of_empty (by rw [h]; rfl) rfl)
  | @workerComputes block result i h hwork =>
    refine keep ?_
    have hmove := stock_setWorker state i (.pushing result)
    rw [h, held_computing, held_pushing, hjob _ _ _ hwork] at hmove
    exact add_right_cancel hmove
  | @workerPushes i result queue h hpush =>
    refine keep ?_
    obtain ⟨-, rfl⟩ := BoundedQueue.push_accepted hpush
    have hsum := held_setWorker state i .popping
    rw [h, held_popping, add_zero, held_pushing] at hsum
    simp only [setWorker] at hsum
    simp only [stock, setWorker, ← hsum, List.map_append, ← Multiset.coe_add, List.map_cons,
      List.map_nil, Multiset.coe_singleton]
    abel
  | @workerRefused i result queue h hpush =>
    obtain ⟨hclosed, -⟩ := BoundedQueue.push_refused hpush
    refine ⟨?_, Or.inl (Or.inr (Or.inl ⟨hclosed, i, result, h⟩))⟩
    have hmove := stock_setWorker state i .leaving
    rw [show held .leaving = 0 from rfl, add_zero] at hmove
    exact hmove ▸ Multiset.le_add_right _ _
  | @workerThrows i error h =>
    refine ⟨?_, Or.inl (Or.inl rfl)⟩
    have hmove := stock_setWorker state i (.raising (.storeError error))
    rw [show held (.raising (.storeError error)) = 0 from rfl, add_zero] at hmove
    exact hmove ▸ Multiset.le_add_right _ _
  | @workerRaises i raise h =>
    refine keep ?_
    rw [← stock_recordError state raise]
    refine stock_setWorker_of_empty ?_ ?_
    · rw [recordError_worker, h]; rfl
    · cases raise <;> rfl
  | @workerLeaves i h =>
    refine keep (stock_setWorker_of_empty (by rw [h]; rfl) ?_)
    split <;> rfl
  | workerCloses h => exact keep (stock_setWorker_of_empty (by rw [h]; rfl) rfl)
  | @schedulerPushes block rest queue h hpush =>
    refine keep ?_
    obtain ⟨-, rfl⟩ := BoundedQueue.push_accepted hpush
    simp only [stock, h, unsubmitted, ← Multiset.coe_add, ← Multiset.cons_coe,
      ← Multiset.singleton_add, Multiset.coe_nil]
    abel
  | @schedulerRefused block rest queue h hpush =>
    obtain ⟨hclosed, -⟩ := BoundedQueue.push_refused hpush
    refine ⟨?_, Or.inl (Or.inr (Or.inr ⟨hclosed, block, rest, h⟩))⟩
    simp only [stock, h, unsubmitted]
    gcongr
    exact Multiset.zero_le _
  | schedulerDone h => exact keep (by simp only [stock, h, unsubmitted]; rfl)
  | schedulerCloses h => exact keep (by simp only [stock, h, unsubmitted, BoundedQueue.close_items])
  | schedulerThrows error h =>
    refine ⟨?_, Or.inl (Or.inl rfl)⟩
    simp only [stock, unsubmitted]
    gcongr
    exact Multiset.zero_le _
  | @schedulerRaises raise h =>
    refine keep ?_
    cases raise <;> simp only [recordError, stock, h, unsubmitted, BoundedQueue.close_items]
  | @coordinatorPops result queue h hpop =>
    refine keep ?_
    obtain ⟨hitems, -, -⟩ := BoundedQueue.pop_item hpop
    simp only [stock, h, inHand, hitems, List.map_cons, ← Multiset.cons_coe,
      ← Multiset.singleton_add]
    abel
  | coordinatorDrained h hpop => exact keep (by simp only [stock, h, inHand])
  | coordinatorConsumes h hconsume =>
    refine keep ?_
    simp only [stock, h, inHand, List.map_append, List.map_cons, List.map_nil, ← Multiset.coe_add,
      Multiset.coe_singleton]
    abel
  | coordinatorThrows h hconsume =>
    refine ⟨?_, Or.inl (Or.inl rfl)⟩
    simp only [stock, h, inHand]
    gcongr
    exact Multiset.zero_le _
  | @coordinatorRaises raise h =>
    refine keep ?_
    cases raise <;> simp only [recordError, stock, h, inHand, BoundedQueue.close_items]
  | coordinatorJoins h hscheduler hworkers => exact keep (by simp only [stock, h, inHand])

/-! ## Runs without exceptions -/

/-- Whether a worker still counts in `workers_remaining`. -/
def counted : WorkerState → ℕ
  | .closing | .finished => 0
  | _ => 1

/-- The points after a worker has found the assignment queue drained. -/
def departed : WorkerState → Bool
  | .leaving | .closing | .finished => true
  | _ => false

/-- The points of the coordinating thread in a run without exceptions. -/
def regular (workers : ℕ) : CoordinatorThread → Prop
  | .unwinding _ _ | .raising _ => False
  | .returned outcome => outcome = .ok workers
  | _ => True

/-- The points after the coordinating thread has found the completion queue drained. -/
def collected : CoordinatorThread → Bool
  | .joining | .returned _ => true
  | _ => false

/-- How the threads stand to each other as long as nothing has been thrown. -/
structure Orderly (state : Execution job κ) : Prop where
  no_error : state.firstError = none
  workers : ∀ i raise, state.worker i ≠ .raising raise
  scheduler : ∀ raise, state.scheduler ≠ .raising raise
  coordinator : regular job.workers state.coordinator
  /-- Only the scheduler closes the assignment queue, after its last block. -/
  assignments_closed : state.assignments.closed = true → state.scheduler = .finished
  departed_drained : ∀ i, departed (state.worker i) = true →
    state.assignments.closed = true ∧ state.assignments.items = []
  remaining : state.workersRemaining = ∑ i, counted (state.worker i)
  last : ∀ i, state.worker i = .closing → ∀ j, j ≠ i → state.worker j = .finished
  /-- Only the last worker closes the completion queue. -/
  completions_closed : state.completions.closed = true → ∀ i, state.worker i = .finished
  collected_drained : collected state.coordinator = true →
    state.completions.closed = true ∧ state.completions.items = []

theorem orderly_initial (sink : κ) : Orderly (initial job sink) where
  no_error := rfl
  workers := by intro i raise h; cases h
  scheduler := by intro raise h; cases h
  coordinator := trivial
  assignments_closed := by intro h; cases h
  departed_drained := by intro i h; cases h
  remaining := by simp [initial, counted]
  last := by intro i h; cases h
  completions_closed := by intro h; cases h
  collected_drained := by intro h; cases h

theorem stock_initial (sink : κ) : (initial job sink).stock = job.missing := by
  simp [stock, initial, unsubmitted, held, inHand, BoundedQueue.new]

theorem counted_setWorker (state : Execution job κ) (i : Fin job.workers) (next : WorkerState) :
    ∑ j, counted ((state.setWorker i next).worker j) + counted (state.worker i) =
      ∑ j, counted (state.worker j) + counted next :=
  sum_setWorker counted state.worker i next

section Moves

variable {i : Fin job.workers} {next : WorkerState}

/-- A worker that has not left keeps the completion queue open. -/
theorem Orderly.completions_open (ho : Orderly state) (hi : state.worker i ≠ .finished) :
    state.completions.closed = false := by
  by_contra hclosed
  exact hi (ho.completions_closed (by simpa using hclosed) i)

/-- While a worker has not left, none is closing the completion queue. -/
theorem Orderly.not_closing (ho : Orderly state) (hi : counted (state.worker i) = 1)
    (j : Fin job.workers) : state.worker j ≠ .closing := by
  intro hj
  by_cases hij : i = j
  · rw [hij, hj] at hi; cases hi
  · rw [ho.last j hj i hij] at hi; cases hi

/-- A worker moves on before it leaves. -/
theorem Orderly.setWorker (ho : Orderly state) (hnow : counted (state.worker i) = 1)
    (hnext : counted next = 1) (hraise : ∀ raise, next ≠ .raising raise)
    (hdeparted : departed next = true →
      state.assignments.closed = true ∧ state.assignments.items = []) :
    Orderly (state.setWorker i next) where
  no_error := ho.no_error
  workers := by
    intro j raise
    rcases eq_or_ne j i with rfl | hj
    · simpa [Execution.setWorker] using hraise raise
    · simpa [Execution.setWorker, hj] using ho.workers j raise
  scheduler := ho.scheduler
  coordinator := ho.coordinator
  assignments_closed := ho.assignments_closed
  departed_drained := by
    intro j hj
    rcases eq_or_ne j i with rfl | hne
    · exact hdeparted (by simpa [Execution.setWorker] using hj)
    · exact ho.departed_drained j (by simpa [Execution.setWorker, hne] using hj)
  remaining := by
    have hsum := counted_setWorker state i next
    have := ho.remaining
    change state.workersRemaining = _
    omega
  last := by
    intro j hj
    rcases eq_or_ne j i with rfl | hne
    · have : next = .closing := by simpa [Execution.setWorker] using hj
      rw [this] at hnext
      cases hnext
    · exact absurd (by simpa [Execution.setWorker, hne] using hj) (ho.not_closing hnow j)
  completions_closed := by
    intro hclosed
    have hopen := ho.completions_open (i := i) (by intro h; rw [h] at hnow; cases hnow)
    rw [show state.completions.closed = true from hclosed] at hopen
    cases hopen
  collected_drained := ho.collected_drained

/-- A worker leaves; the last one goes on to close the completion queue. -/
theorem Orderly.leave (ho : Orderly state) (h : state.worker i = .leaving) :
    Orderly { state.setWorker i (if state.workersRemaining = 1 then .closing else .finished) with
      workersRemaining := state.workersRemaining - 1 } := by
  have hcounted : counted (state.worker i) = 1 := by rw [h]; rfl
  set next : WorkerState := if state.workersRemaining = 1 then .closing else .finished with hnext
  have hzero : counted next = 0 := by rw [hnext]; split <;> rfl
  have hsum := counted_setWorker state i next
  have hremaining := ho.remaining
  refine { ho with
    workers := ?_, departed_drained := ?_, remaining := ?_, last := ?_, completions_closed := ?_ }
  · intro j raise
    rcases eq_or_ne j i with rfl | hj
    · intro hr
      have : next = .raising raise := by simpa [Execution.setWorker] using hr
      rw [this] at hzero
      cases hzero
    · simpa [Execution.setWorker, hj] using ho.workers j raise
  · intro j hj
    rcases eq_or_ne j i with rfl | hne
    · exact ho.departed_drained j (by rw [h]; rfl)
    · exact ho.departed_drained j (by simpa [Execution.setWorker, hne] using hj)
  · change state.workersRemaining - 1 = ∑ j, counted ((state.setWorker i next).worker j)
    omega
  · intro j hj k hk
    rcases eq_or_ne j i with rfl | hne
    · -- all others have left, and none of them is closing
      have hone : state.workersRemaining = 1 := by
        by_contra hne
        have : next = .closing := by simpa [Execution.setWorker] using hj
        rw [hnext, if_neg hne] at this
        cases this
      have hothers : ∑ l, counted ((state.setWorker j next).worker l) = 0 := by omega
      have hk0 := (Finset.sum_eq_zero_iff.mp hothers) k (Finset.mem_univ k)
      have hkw : (state.setWorker j next).worker k = state.worker k := by
        simp [Execution.setWorker, hk]
      rw [hkw] at hk0
      change (state.setWorker j next).worker k = _
      rw [hkw]
      cases hw : state.worker k with
      | finished => rfl
      | closing => exact absurd hw (ho.not_closing hcounted k)
      | _ => rw [hw] at hk0; cases hk0
    · exact absurd (by simpa [Execution.setWorker, hne] using hj) (ho.not_closing hcounted j)
  · intro hclosed
    have hopen := ho.completions_open (i := i) (by rw [h]; intro hf; cases hf)
    rw [show state.completions.closed = true from hclosed] at hopen
    cases hopen

/-- The last worker closes the completion queue. -/
theorem Orderly.close (ho : Orderly state) (h : state.worker i = .closing) :
    Orderly { state.setWorker i .finished with completions := state.completions.close } := by
  have hall : ∀ j, (state.setWorker i .finished).worker j = .finished := by
    intro j
    rcases eq_or_ne j i with rfl | hj
    · simp [Execution.setWorker]
    · simpa [Execution.setWorker, hj] using ho.last i h j hj
  have hsum := counted_setWorker state i .finished
  have hremaining := ho.remaining
  rw [h, show counted .closing = 0 from rfl, show counted .finished = 0 from rfl] at hsum
  refine { ho with
    workers := ?_, departed_drained := ?_, remaining := ?_, last := ?_, completions_closed := ?_,
    collected_drained := ?_ }
  · intro j raise hr
    have := (hall j).symm.trans hr
    cases this
  · intro j _
    exact ho.departed_drained i (by rw [h]; rfl)
  · change state.workersRemaining = ∑ j, counted ((state.setWorker i .finished).worker j)
    omega
  · intro j hj
    have := (hall j).symm.trans hj
    cases this
  · exact fun _ => hall
  · intro hc
    exact ⟨rfl, (ho.collected_drained hc).2⟩

end Moves

/-- One step of a run in which nothing is thrown. -/
theorem Orderly.step (ho : Orderly state) (h : Step consume state state')
    (ht : state'.thrown = false) : Orderly state' := by
  have hcoord := ho.coordinator
  cases h with
  | spawnWorker i h hworker =>
    have hmoved : Orderly (state.setWorker i .starting) := ho.setWorker (by rw [hworker]; rfl) rfl
      (by intro raise h; cases h) (by intro h; cases h)
    exact { hmoved with
      coordinator := trivial
      collected_drained := by intro h; cases h }
  | spawnScheduler h hscheduler =>
    exact { ho with
      scheduler := by intro raise h; cases h
      coordinator := trivial
      assignments_closed := by
        intro hclosed
        have := ho.assignments_closed hclosed
        rw [hscheduler] at this
        cases this
      collected_drained := by intro h; cases h }
  | spawnFails error h => cases ht
  | unwindAssignments h => rw [h] at hcoord; exact hcoord.elim
  | unwindCompletions h => rw [h] at hcoord; exact hcoord.elim
  | unwindJoin h hworkers => rw [h] at hcoord; exact hcoord.elim
  | workerStarts h hstart =>
    exact ho.setWorker (by rw [h]; rfl) rfl (by intro raise h; cases h) (by intro h; cases h)
  | @workerPops i block queue h hpop =>
    obtain ⟨hitems, hclosed, -⟩ := BoundedQueue.pop_item hpop
    have hqueue : Orderly { state with assignments := queue } :=
      { ho with
        assignments_closed := fun hc => ho.assignments_closed (hclosed ▸ hc)
        departed_drained := by
          intro j hj
          have := (ho.departed_drained j hj).2
          rw [hitems] at this
          cases this }
    exact hqueue.setWorker (i := i) (by change counted (state.worker i) = 1; rw [h]; rfl) rfl
      (by intro raise h; cases h) (by intro h; cases h)
  | workerDrained h hpop =>
    obtain ⟨hitems, hclosed, -⟩ := BoundedQueue.pop_drained hpop
    exact ho.setWorker (by rw [h]; rfl) rfl (by intro raise h; cases h)
      (fun _ => ⟨hclosed, hitems⟩)
  | workerComputes h hwork =>
    exact ho.setWorker (by rw [h]; rfl) rfl (by intro raise h; cases h) (by intro h; cases h)
  | @workerPushes i result queue h hpush =>
    obtain ⟨hclosed, rfl⟩ := BoundedQueue.push_accepted hpush
    have hqueue : Orderly { state with
        completions := { state.completions with items := state.completions.items ++ [result] } } :=
      { ho with
        collected_drained := by
          intro hc
          have := (ho.collected_drained hc).1
          rw [hclosed] at this
          cases this }
    exact hqueue.setWorker (i := i) (by change counted (state.worker i) = 1; rw [h]; rfl) rfl
      (by intro raise h; cases h) (by intro h; cases h)
  | @workerRefused i result queue h hpush =>
    obtain ⟨hclosed, -⟩ := BoundedQueue.push_refused hpush
    have := ho.completions_closed hclosed i
    rw [h] at this
    cases this
  | workerThrows error h => cases ht
  | workerRaises h => exact absurd h (ho.workers _ _)
  | workerLeaves h => exact ho.leave h
  | workerCloses h => exact ho.close h
  | @schedulerPushes block rest queue h hpush =>
    obtain ⟨hclosed, rfl⟩ := BoundedQueue.push_accepted hpush
    refine { ho with scheduler := ?_, assignments_closed := ?_, departed_drained := ?_ }
    · intro raise h; cases h
    · intro hc
      rw [show state.assignments.closed = true from hc] at hclosed
      cases hclosed
    · intro j hj
      have := (ho.departed_drained j hj).1
      rw [hclosed] at this
      cases this
  | @schedulerRefused block rest queue h hpush =>
    obtain ⟨hclosed, -⟩ := BoundedQueue.push_refused hpush
    have := ho.assignments_closed hclosed
    rw [h] at this
    cases this
  | schedulerDone h =>
    exact { ho with
      scheduler := by intro raise h; cases h
      assignments_closed := by
        intro hclosed
        have := ho.assignments_closed hclosed
        rw [h] at this
        cases this }
  | schedulerCloses h =>
    exact { ho with
      scheduler := by intro raise h; cases h
      assignments_closed := fun _ => rfl
      departed_drained := fun i hi => ⟨rfl, (ho.departed_drained i hi).2⟩ }
  | schedulerThrows error h => cases ht
  | schedulerRaises h => exact absurd h (ho.scheduler _)
  | @coordinatorPops result queue h hpop =>
    obtain ⟨hitems, hclosed, -⟩ := BoundedQueue.pop_item hpop
    exact { ho with
      coordinator := trivial
      completions_closed := fun hc => ho.completions_closed (hclosed ▸ hc)
      collected_drained := by intro h; cases h }
  | coordinatorDrained h hpop =>
    obtain ⟨hitems, hclosed, -⟩ := BoundedQueue.pop_drained hpop
    exact { ho with
      coordinator := trivial
      collected_drained := fun _ => ⟨hclosed, hitems⟩ }
  | coordinatorConsumes h hconsume =>
    exact { ho with
      coordinator := trivial
      collected_drained := by intro h; cases h }
  | coordinatorThrows h hconsume => cases ht
  | coordinatorRaises h => rw [h] at hcoord; exact hcoord.elim
  | coordinatorJoins h hscheduler hworkers =>
    exact { ho with
      coordinator := by simp only [ho.no_error]; rfl
      collected_drained := fun _ => ho.collected_drained (by rw [h]; rfl) }

/-- An orderly step that throws nothing loses no block. -/
theorem Orderly.step_stock (hjob : job.Labelled) (ho : Orderly state)
    (h : Step consume state state') (ht : state'.thrown = false) :
    state'.stock = state.stock := by
  refine (Execution.step_stock hjob h).2.resolve_left ?_
  rintro (hthrown | ⟨hclosed, i, result, hi⟩ | ⟨hclosed, block, rest, hs⟩)
  · rw [ht] at hthrown; cases hthrown
  · have := ho.completions_closed hclosed i
    rw [hi] at this
    cases this
  · have := ho.assignments_closed hclosed
    rw [hs] at this
    cases this

/-! ## Results come from workers -/

/-- A result is somewhere in the system. -/
def Present (state : Execution job κ) (result : BlockResult) : Prop :=
  (∃ i, state.worker i = .pushing result) ∨ result ∈ state.completions.items ∨
    state.coordinator = .consuming result ∨ result ∈ state.consumed

/-- Every result that appears was made by a worker from the block it carries. -/
theorem step_present (hjob : job.Labelled) (h : Step consume state state') {result : BlockResult}
    (hp : Present state' result) :
    Present state result ∨ ∃ i : Fin job.workers, job.work i result.block = .ok result := by
  unfold Present at hp
  cases h with
  | workerComputes h hwork =>
    have := hjob _ _ _ hwork
    grind [Present]
  | workerPushes h hpush =>
    obtain ⟨-, rfl⟩ := BoundedQueue.push_accepted hpush
    grind [Present]
  | coordinatorPops h hpop =>
    have := (BoundedQueue.pop_item hpop).1
    grind [Present]
  | @workerRaises i raise h => cases raise <;> grind [Present, recordError, BoundedQueue.close_items]
  | @schedulerRaises raise h => cases raise <;> grind [Present, recordError, BoundedQueue.close_items]
  | @coordinatorRaises raise h =>
    cases raise <;> grind [Present, recordError, BoundedQueue.close_items]
  | _ => grind [Present, BoundedQueue.close_items]

/-! ## Runs with exceptions -/

/-- An exception is on its way to `first_error`. -/
def Raising (state : Execution job κ) : Prop :=
  (∃ i error, state.worker i = .raising (.storeError error)) ∨
    (∃ error, state.scheduler = .raising (.storeError error)) ∨
    ∃ error, state.coordinator = .raising (.storeError error)

/-- An exception on its way to `first_error` arrives there. -/
theorem step_raising (h : Step consume state state') (hr : Raising state) :
    Raising state' ∨ state'.firstError.isSome := by
  rcases hr with ⟨j, e, hj⟩ | ⟨e, hs⟩ | ⟨e, hc⟩
  · cases h with
    | @workerRaises i raise h =>
      rcases eq_or_ne j i with rfl | hne
      · exact Or.inr (by grind)
      · exact Or.inl (Or.inl ⟨j, e, by grind⟩)
    | _ => exact Or.inl (Or.inl ⟨j, e, by grind [WorkerState.running]⟩)
  · cases h with
    | schedulerRaises h => exact Or.inr (recordError_firstError _ (by grind))
    | _ => exact Or.inl (Or.inr (Or.inl ⟨e, by grind [SchedulerState.running]⟩))
  · cases h with
    | coordinatorRaises h => exact Or.inr (recordError_firstError _ (by grind))
    | _ => exact Or.inl (Or.inr (Or.inr ⟨e, by grind⟩))

/-- Once stored, an error stays. -/
theorem step_firstError (h : Step consume state state') (he : state.firstError.isSome) :
    state'.firstError.isSome := by
  cases h with
  | workerRaises h => exact recordError_firstError _ (Or.inl he)
  | schedulerRaises h => exact recordError_firstError _ (Or.inl he)
  | coordinatorRaises h => exact recordError_firstError _ (Or.inl he)
  | _ => exact he

/-- In which order threads are started and joined. -/
structure Staged (state : Execution job κ) : Prop where
  starting : ∀ count, state.coordinator = .spawning count → state.scheduler = .unspawned
  unwinding : ∀ error closed, state.coordinator = .unwinding error closed →
    state.scheduler = .unspawned
  joined : ∀ outcome, state.coordinator = .returned outcome →
    (∀ i, state.worker i = .unspawned ∨ state.worker i = .finished) ∧
      (state.scheduler = .unspawned ∨ state.scheduler = .finished)
  outcome : ∀ count, state.coordinator = .returned (.ok count) → state.firstError = none

theorem staged_initial (sink : κ) : Staged (initial job sink) where
  starting := fun _ _ => rfl
  unwinding := fun _ _ _ => rfl
  joined := by intro outcome h; cases h
  outcome := by intro count h; cases h

theorem Staged.step (hs : Staged state) (h : Step consume state state') : Staged state' := by
  obtain ⟨hstarting, hunwinding, hjoined, houtcome⟩ := hs
  refine ⟨?_, ?_, ?_, ?_⟩
  · clear hunwinding hjoined houtcome
    cases h with
    | _ => grind [SchedulerState.running]
  · clear hjoined houtcome
    cases h with
    | _ => grind [SchedulerState.running]
  · clear hstarting houtcome
    cases h with
    | _ => grind [WorkerState.running, SchedulerState.running]
  · clear hstarting hunwinding
    cases h with
    | @workerRaises i raise h => grind
    | @schedulerRaises raise h => grind
    | @coordinatorRaises raise h => cases raise <;> grind [recordError]
    | _ => grind

/-- A step throws, and the exception is accounted for, or it throws nothing. -/
theorem step_thrown (h : Step consume state state') :
    state'.thrown = state.thrown ∨ Raising state' ∨
      ∃ error closed, state'.coordinator = .unwinding error closed := by
  cases h with
  | spawnFails error h => exact Or.inr (Or.inr ⟨error, 0, rfl⟩)
  | @workerThrows i error h => exact Or.inr (Or.inl (Or.inl ⟨i, error, by grind⟩))
  | schedulerThrows error h => exact Or.inr (Or.inl (Or.inr (Or.inl ⟨error, rfl⟩)))
  | coordinatorThrows h hconsume => exact Or.inr (Or.inl (Or.inr (Or.inr ⟨_, rfl⟩)))
  | workerRaises h => exact Or.inl (by grind)
  | schedulerRaises h => exact Or.inl (by grind)
  | coordinatorRaises h => exact Or.inl (by grind)
  | _ => exact Or.inl rfl

/-- Unwinding ends in an exception. -/
theorem step_unwinding (h : Step consume state state') {error : Exception} {closed : ℕ}
    (hc : state.coordinator = .unwinding error closed) :
    (∃ closed', state'.coordinator = .unwinding error closed') ∨
      state'.coordinator = .returned (.error error) := by
  cases h with
  | _ => grind

/-- The function has returned once and for all. -/
theorem step_returned (h : Step consume state state') {outcome : Result ℕ}
    (hc : state.coordinator = .returned outcome) : state'.coordinator = .returned outcome := by
  cases h with
  | _ => grind


/-- What becomes of an exception: it is on its way to `first_error` or stored there, or
the function unwinds or has thrown. -/
def Accounted (state : Execution job κ) : Prop :=
  state.thrown = true → state.firstError.isSome ∨ Raising state ∨
    (∃ error closed, state.coordinator = .unwinding error closed) ∨
    ∃ error, state.coordinator = .returned (.error error)

theorem Accounted.step (ha : Accounted state) (h : Step consume state state') :
    Accounted state' := by
  intro ht
  rcases step_thrown h with hsame | hr | hu
  · rw [hsame] at ht
    rcases ha ht with he | hr | ⟨e, n, hc⟩ | ⟨e, hc⟩
    · exact Or.inl (step_firstError h he)
    · rcases step_raising h hr with hr | he
      · exact Or.inr (Or.inl hr)
      · exact Or.inl he
    · rcases step_unwinding h hc with ⟨m, hm⟩ | hret
      · exact Or.inr (Or.inr (Or.inl ⟨e, m, hm⟩))
      · exact Or.inr (Or.inr (Or.inr ⟨e, hret⟩))
    · exact Or.inr (Or.inr (Or.inr ⟨e, step_returned h hc⟩))
  · exact Or.inr (Or.inl hr)
  · exact Or.inr (Or.inr (Or.inl hu))

/-- If anything was thrown, the function throws. -/
theorem Accounted.error (ha : Accounted state) (hs : Staged state) (ht : state.thrown = true)
    {outcome : Result ℕ} (hreturned : state.coordinator = .returned outcome) :
    ∃ error, outcome = .error error := by
  obtain ⟨hworkers, hscheduler⟩ := hs.joined outcome hreturned
  cases outcome with
  | error e => exact ⟨e, rfl⟩
  | ok count =>
    exfalso
    have hnone := hs.outcome count hreturned
    rcases ha ht with he | (⟨i, e, hi⟩ | ⟨e, hi⟩ | ⟨e, hi⟩) | ⟨e, n, hc⟩ | ⟨e, hc⟩
    · rw [hnone] at he; cases he
    · rcases hworkers i with h | h <;> rw [h] at hi <;> cases hi
    · rcases hscheduler with h | h <;> rw [h] at hi <;> cases hi
    · rw [hreturned] at hi; cases hi
    · rw [hreturned] at hc; cases hc
    · rw [hreturned] at hc; cases hc

/-! ## Whole runs -/

/-- Nothing is unthrown. -/
theorem step_thrown_mono (h : Step consume state state') (ht : state'.thrown = false) :
    state.thrown = false := by
  cases h with
  | workerRaises h => rwa [setWorker_thrown, recordError_thrown] at ht
  | @schedulerRaises raise h => cases raise <;> exact ht
  | @coordinatorRaises raise h => cases raise <;> exact ht
  | spawnFails error h => cases ht
  | workerThrows error h => cases ht
  | schedulerThrows error h => cases ht
  | coordinatorThrows h hconsume => cases ht
  | _ => exact ht

/-- What holds in every state an interleaving can reach. -/
structure Lawful (state : Execution job κ) : Prop where
  stock_le : state.stock ≤ job.missing
  quiet : state.thrown = false → Orderly state ∧ state.stock = job.missing
  genuine : ∀ result, Present state result →
    ∃ i : Fin job.workers, job.work i result.block = .ok result
  staged : Staged state
  accounted : Accounted state

theorem Lawful.step (hjob : job.Labelled) (hl : Lawful state) (h : Step consume state state') :
    Lawful state' where
  stock_le := (step_stock hjob h).1.trans hl.stock_le
  quiet := by
    intro ht
    obtain ⟨ho, hstock⟩ := hl.quiet (step_thrown_mono h ht)
    exact ⟨ho.step h ht, (ho.step_stock hjob h ht).trans hstock⟩
  genuine := fun result hp => (step_present hjob h hp).elim (hl.genuine result) id
  staged := hl.staged.step h
  accounted := hl.accounted.step h

/-- Every reachable state is lawful. -/
theorem lawful_of_reaches (hjob : job.Labelled) {sink : κ} (h : Reaches consume sink state) :
    Lawful state := by
  induction h with
  | refl =>
    refine ⟨(stock_initial sink).le, fun _ => ⟨orderly_initial sink, stock_initial sink⟩, ?_,
      staged_initial sink, fun ht => by cases ht⟩
    rintro result (⟨i, hi⟩ | hi | hi | hi) <;> cases hi
  | tail _ hstep ih => exact ih.step hjob hstep

/-- A run without exceptions ends with every missing block consumed once. -/
theorem Lawful.consumed_of_returned (hl : Lawful state) (hpos : 0 < job.workers)
    (ht : state.thrown = false) {outcome : Result ℕ}
    (hreturned : state.coordinator = .returned outcome) :
    (state.consumed.map (·.block)).Perm job.missing ∧ outcome = .ok job.workers := by
  obtain ⟨ho, hstock⟩ := hl.quiet ht
  have hcoord := ho.coordinator
  rw [hreturned] at hcoord
  refine ⟨?_, hcoord⟩
  obtain ⟨hclosed, hitems⟩ := ho.collected_drained (by rw [hreturned]; rfl)
  have hworkers := ho.completions_closed hclosed
  obtain ⟨haclosed, haitems⟩ := ho.departed_drained ⟨0, hpos⟩ (by rw [hworkers]; rfl)
  have hscheduler := ho.assignments_closed haclosed
  have hheld : ∑ i, held (state.worker i) = 0 :=
    Finset.sum_eq_zero fun i _ => by rw [hworkers i]; rfl
  rw [stock, hscheduler, haitems, hheld, hitems, hreturned] at hstock
  simpa [unsubmitted, inHand] using hstock

/-- The result in hand is a worker's; its block was missing and is not consumed yet. -/
theorem Lawful.inHand (hl : Lawful state) (hnodup : job.missing.Nodup) {result : BlockResult}
    (h : state.coordinator = .consuming result) :
    result.block ∈ job.missing ∧ result.block ∉ state.consumed.map (·.block) ∧
      ∃ i : Fin job.workers, job.work i result.block = .ok result := by
  have hle : ({result.block} : Multiset ScenarioBlock)
      + (state.consumed.map (·.block) : List ScenarioBlock) ≤ job.missing := by
    refine le_trans ?_ hl.stock_le
    rw [stock, h, Execution.inHand]
    gcongr
    exact Multiset.le_add_left _ _
  have hnodup' : (({result.block} : Multiset ScenarioBlock)
      + (state.consumed.map (·.block) : List ScenarioBlock)).Nodup :=
    Multiset.nodup_of_le hle (Multiset.coe_nodup.mpr hnodup)
  refine ⟨?_, ?_, hl.genuine result (Or.inr (Or.inr (Or.inl h)))⟩
  · exact Multiset.mem_coe.mp (Multiset.mem_of_le hle (by simp))
  · have hdisjoint := (Multiset.nodup_add.mp hnodup').2.2
    intro hmem
    exact (Multiset.disjoint_left.mp hdisjoint) (Multiset.mem_singleton_self _)
      (Multiset.mem_coe.mpr hmem)

/-- A worker holds a block that was missing. -/
theorem Lawful.held_mem (hl : Lawful state) {i : Fin job.workers} {block : ScenarioBlock}
    (h : block ∈ held (state.worker i)) : block ∈ job.missing := by
  have hstock : block ∈ state.stock := by
    have hsum : block ∈ ∑ j, held (state.worker j) :=
      Multiset.mem_sum.mpr ⟨i, Finset.mem_univ i, h⟩
    simp only [stock, Multiset.mem_add]
    tauto
  exact Multiset.mem_coe.mp (Multiset.mem_of_le hl.stock_le hstock)

/-- The points of the coordinating thread after its last call of `consume_result`. -/
def done : CoordinatorThread → Bool
  | .raising _ | .joining | .returned _ => true
  | _ => false

/-- Apart from `consume_result`, no step touches the caller's state. -/
theorem step_sink (h : Step consume state state') :
    (state'.consumed = state.consumed ∧ state'.sink = state.sink ∧
        (done state.coordinator = true → done state'.coordinator = true)) ∨
      ∃ result, state.coordinator = .consuming result ∧
        state'.sink = (consume result state.sink).2 ∧
        (((consume result state.sink).1 = .ok () ∧ state'.consumed = state.consumed ++ [result]) ∨
          (∃ error, (consume result state.sink).1 = .error error) ∧
            state'.thrown = true ∧ done state'.coordinator = true) := by
  cases h with
  | @coordinatorConsumes result h hconsume =>
    exact Or.inr ⟨result, h, rfl, Or.inl ⟨hconsume, rfl⟩⟩
  | @coordinatorThrows result error h hconsume =>
    exact Or.inr ⟨result, h, rfl, Or.inr ⟨⟨error, hconsume⟩, rfl, rfl⟩⟩
  | @workerRaises i raise h => cases raise <;> exact Or.inl ⟨rfl, rfl, id⟩
  | @schedulerRaises raise h => cases raise <;> exact Or.inl ⟨rfl, rfl, id⟩
  | @coordinatorRaises raise h => cases raise <;> exact Or.inl ⟨rfl, rfl, fun _ => rfl⟩
  | _ => refine Or.inl ⟨rfl, rfl, ?_⟩; grind [done]

/-- A caller's invariant is carried through any interleaving: it is enough that each
call of `consume_result` preserves it, given that the result is a worker's and that its
block was missing and has not been consumed.  `P` speaks about the results consumed so
far, `R` about the state that a throwing call leaves. -/
theorem sink_invariant (hjob : job.Labelled) (hnodup : job.missing.Nodup) {sink : κ}
    {P : List BlockResult → κ → Prop} {R : κ → Prop} (hinit : P [] sink)
    (hstep : ∀ consumed result now, P consumed now → result.block ∈ job.missing →
      result.block ∉ consumed.map (·.block) →
      (∃ i : Fin job.workers, job.work i result.block = .ok result) →
      ((consume result now).1 = .ok () → P (consumed ++ [result]) (consume result now).2) ∧
        ∀ error, (consume result now).1 = .error error → R (consume result now).2)
    (h : Reaches consume sink state) :
    P state.consumed state.sink ∨
      (state.thrown = true ∧ done state.coordinator = true ∧ R state.sink) := by
  induction h with
  | refl => exact Or.inl hinit
  | @tail before after hreach hlast ih =>
    have hl := lawful_of_reaches hjob hreach
    have hmono : before.thrown = true → after.thrown = true := by
      intro ht
      by_contra hf
      rw [step_thrown_mono hlast (by simpa using hf)] at ht
      cases ht
    rcases step_sink hlast with ⟨hconsumed, hsink, hdone⟩ | ⟨result, hc, hsink, hcase⟩
    · rw [hconsumed, hsink]
      exact ih.imp id fun ⟨ht, hd, hr⟩ => ⟨hmono ht, hdone hd, hr⟩
    · rcases ih with hP | ⟨-, hd, -⟩
      · obtain ⟨hmem, hnew, hwork⟩ := hl.inHand hnodup hc
        obtain ⟨hok, herror⟩ := hstep _ result _ hP hmem hnew hwork
        rw [hsink]
        rcases hcase with ⟨hconsume, hconsumed⟩ | ⟨⟨error, hconsume⟩, ht, hd⟩
        · rw [hconsumed]
          exact Or.inl (hok hconsume)
        · exact Or.inr ⟨ht, hd, herror error hconsume⟩
      · rw [hc] at hd; cases hd

end Execution
end MonteCarlo
