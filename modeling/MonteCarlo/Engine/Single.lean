import MonteCarlo.Engine.Delivery

/-!
# One worker

With a single worker the queues keep the order of the missing blocks: whatever the interleaving,
`consume_result` is called with the results of a prefix of them.

* `Job.delivery` — the results that one worker can deliver, in order: up to the first block that
  fails.
* `InOrder` — the invariant: what has been consumed, what waits and what is still to be computed
  stand in the order of the missing blocks.
* `fed_of_reaches` — every interleaving consumes a prefix of `Job.delivery`.
* `Spontaneous`, `Undisturbed` — interleavings in which threads throw only what `ModelKernel`, a
  computation or `consume_result` throws.
* `Undisturbed.returned` — all of these leave the caller in the same state.
-/

namespace MonteCarlo

/-- The results of a list of blocks, up to the first that fails. -/
def Job.attempt (job : Job) : List ScenarioBlock → List BlockResult
  | [] => []
  | block :: rest =>
    match job.work 0 block with
    | .ok result => result :: job.attempt rest
    | .error _ => []

/-- The results that the first worker can deliver. -/
def Job.delivery (job : Job) : List BlockResult :=
  match job.start with
  | .ok _ => job.attempt job.missing
  | .error _ => []

/-- `consume` applied to one result after the other, until it throws. -/
def feed {κ : Type} (consume : BlockResult → κ → Result Unit × κ) :
    List BlockResult → κ → Result Unit × κ
  | [], sink => (.ok (), sink)
  | result :: rest, sink =>
    match consume result sink with
    | (.ok _, sink) => feed consume rest sink
    | (.error e, sink) => (.error e, sink)

section Attempt

variable {job : Job}

/-- What has been delivered of a list of blocks leaves the rest of it. -/
theorem Job.attempt_append {blocks rest : List ScenarioBlock} {results : List BlockResult}
    (hlength : results.length = blocks.length)
    (h : results <+: job.attempt (blocks ++ rest)) :
    job.attempt (blocks ++ rest) = results ++ job.attempt rest := by
  induction blocks generalizing results with
  | nil => rw [List.length_eq_zero_iff.mp hlength, List.nil_append, List.nil_append]
  | cons block blocks ih =>
    cases results with
    | nil => cases hlength
    | cons result results =>
      rw [List.cons_append, attempt] at h ⊢
      cases hwork : job.work 0 block with
      | error e =>
        rw [hwork] at h
        cases List.prefix_nil.mp h
      | ok first =>
        rw [hwork] at h
        obtain ⟨rfl, hrest⟩ := List.cons_prefix_cons.mp h
        simp only [List.cons_append, ih (Nat.succ.inj hlength) hrest]

/-- The results carry a prefix of the blocks. -/
theorem Job.map_block_attempt (hjob : job.Labelled) (blocks : List ScenarioBlock) :
    (job.attempt blocks).map (·.block) <+: blocks := by
  induction blocks with
  | nil => exact List.prefix_rfl
  | cons block rest ih =>
    rw [attempt]
    cases hwork : job.work 0 block with
    | error e => exact List.nil_prefix
    | ok result =>
      rw [List.map_cons, hjob 0 block result hwork]
      exact List.cons_prefix_cons.mpr ⟨rfl, ih⟩

theorem Job.map_block_delivery (hjob : job.Labelled) :
    job.delivery.map (·.block) <+: job.missing := by
  unfold delivery
  split
  · exact Job.map_block_attempt hjob _
  · exact List.nil_prefix

theorem Job.delivery_of_start (h : job.start = .ok ()) : job.delivery = job.attempt job.missing := by
  rw [delivery, h]

end Attempt

section Feed

variable {κ : Type} {consume : BlockResult → κ → Result Unit × κ} {sink : κ}

theorem feed_append {first second : List BlockResult} {now : κ}
    (h : feed consume first sink = (.ok (), now)) :
    feed consume (first ++ second) sink = feed consume second now := by
  induction first generalizing sink with
  | nil => cases h; rfl
  | cons result rest ih =>
    rw [feed] at h
    rw [List.cons_append, feed]
    rcases hconsume : consume result sink with ⟨_ | _, after⟩
    · rw [hconsume] at h
      cases h
    · rw [hconsume] at h
      exact ih h

/-- One more result. -/
theorem feed_concat {results : List BlockResult} {result : BlockResult} {now : κ}
    (h : feed consume results sink = (.ok (), now)) :
    feed consume (results ++ [result]) sink = consume result now := by
  rw [feed_append h, feed]
  rcases consume result now with ⟨_ | _, after⟩ <;> rfl

/-- Nothing is consumed after an exception. -/
theorem feed_of_error {results : List BlockResult} {result : BlockResult} {now : κ} {e : Exception}
    (h : feed consume results sink = (.ok (), now)) (hconsume : (consume result now).1 = .error e)
    {all : List BlockResult} (hall : results ++ [result] <+: all) :
    feed consume all sink = (.error e, (consume result now).2) := by
  obtain ⟨rest, rfl⟩ := hall
  rw [List.append_assoc, feed_append h, List.singleton_append, feed]
  generalize consume result now = outcome at hconsume
  obtain ⟨reply, after⟩ := outcome
  obtain rfl := hconsume
  rfl

end Feed

namespace Execution

variable {job : Job} {κ : Type} {consume : BlockResult → κ → Result Unit × κ}
variable {state state' : Execution job κ} {sink : κ} {i : Fin job.workers}

/-! ## The order of the blocks -/

/-- The result the coordinating thread holds. -/
def hand : CoordinatorThread → List BlockResult
  | .consuming result => [result]
  | _ => []

/-- The block a worker holds. -/
def carried : WorkerState → List ScenarioBlock
  | .computing block => [block]
  | .pushing result => [result.block]
  | _ => []

/-- The blocks the scheduler has not submitted yet, in order. -/
def pending (missing : List ScenarioBlock) : SchedulerState → List ScenarioBlock
  | .unspawned => missing
  | .pushing blocks => blocks
  | _ => []

/-- The results that have left the worker, in order. -/
def delivered (state : Execution job κ) : List BlockResult :=
  state.consumed ++ hand state.coordinator ++ state.completions.items

/-- All blocks on their way, in order. -/
def line (i : Fin job.workers) (state : Execution job κ) : List ScenarioBlock :=
  state.delivered.map (·.block) ++ carried (state.worker i) ++ state.assignments.items
    ++ pending job.missing state.scheduler

/-- The points of a worker that can still deliver. -/
def fed : WorkerState → Bool
  | .unspawned | .starting | .popping | .computing _ | .pushing _ => true
  | _ => false

/-- The points of a worker whose `ModelKernel` has been constructed. -/
def begun : WorkerState → Bool
  | .popping | .computing _ | .pushing _ => true
  | _ => false

/-- The order of the blocks, as long as the coordinating thread consumes. -/
structure InOrder (i : Fin job.workers) (state : Execution job κ) : Prop where
  taken : state.consumed ++ hand state.coordinator <+: job.delivery
  sent : done state.coordinator = false → state.delivered <+: job.delivery
  ordered : done state.coordinator = false → fed (state.worker i) = true →
    state.line i <+: job.missing
  started : begun (state.worker i) = true → job.start = .ok ()
  fresh : done state.coordinator = false → fed (state.worker i) = true →
    begun (state.worker i) = false → state.delivered = []

theorem inOrder_initial (sink : κ) : InOrder i (initial job sink) where
  taken := List.nil_prefix
  sent := fun _ => List.nil_prefix
  ordered := fun _ _ => List.prefix_rfl
  started := fun h => by cases h
  fresh := fun _ _ _ => rfl

/-- Only a worker that pushes adds to what has been delivered. -/
theorem step_delivered (h : Step consume state state') (hdone : done state'.coordinator = false) :
    state'.delivered = state.delivered ∨ ∃ j result, state.worker j = .pushing result ∧
      state'.delivered = state.delivered ++ [result] ∧ state'.coordinator = state.coordinator ∧
      state'.worker j = .popping ∧ state'.consumed = state.consumed ∧
      state'.assignments = state.assignments ∧ state'.scheduler = state.scheduler := by
  cases h with
  | @workerPushes j result queue h hpush =>
    obtain ⟨-, rfl⟩ := BoundedQueue.push_accepted hpush
    refine Or.inr ⟨j, result, h, ?_, rfl, by simp [setWorker], rfl, rfl, rfl⟩
    simp [Execution.delivered, setWorker]
  | @coordinatorPops result queue h hpop =>
    refine Or.inl ?_
    simp [Execution.delivered, h, hand, (BoundedQueue.pop_item hpop).1]
  | coordinatorConsumes h hconsume => exact Or.inl (by simp [Execution.delivered, h, hand])
  | @workerRaises j raise h => cases raise <;> exact Or.inl rfl
  | @schedulerRaises raise h => cases raise <;> exact Or.inl rfl
  | _ => exact Or.inl (by grind [Execution.delivered, hand, done, BoundedQueue.close_items])

/-- Otherwise a step moves blocks along the line, or drops the last ones. -/
theorem step_line (hone : ∀ j, j = i) (hjob : job.Labelled) (h : Step consume state state')
    (hdone : done state'.coordinator = false) (hfed : fed (state'.worker i) = true) :
    fed (state.worker i) = true ∧ state'.line i <+: state.line i := by
  cases h with
  | spawnWorker j h hworker =>
    obtain rfl := hone j
    refine ⟨by rw [hworker]; rfl, ?_⟩
    simp [Execution.line, Execution.delivered, setWorker, hand, h, hworker, carried]
  | spawnScheduler h hscheduler =>
    refine ⟨hfed, ?_⟩
    simp [Execution.line, Execution.delivered, hand, h, hscheduler, pending]
  | @workerStarts j h hstart =>
    obtain rfl := hone j
    refine ⟨by rw [h]; rfl, ?_⟩
    simp [Execution.line, Execution.delivered, setWorker, h, carried]
  | @workerPops j block queue h hpop =>
    obtain rfl := hone j
    refine ⟨by rw [h]; rfl, ?_⟩
    simp [Execution.line, Execution.delivered, setWorker, h, carried, (BoundedQueue.pop_item hpop).1]
  | @workerComputes block result j h hwork =>
    obtain rfl := hone j
    refine ⟨by rw [h]; rfl, ?_⟩
    simp [Execution.line, Execution.delivered, setWorker, h, carried, hjob _ _ _ hwork]
  | @workerPushes j result queue h hpush =>
    obtain rfl := hone j
    obtain ⟨-, rfl⟩ := BoundedQueue.push_accepted hpush
    refine ⟨by rw [h]; rfl, ?_⟩
    simp [Execution.line, Execution.delivered, setWorker, h, carried]
  | @schedulerPushes block rest queue h hpush =>
    obtain ⟨-, rfl⟩ := BoundedQueue.push_accepted hpush
    refine ⟨hfed, ?_⟩
    simp [Execution.line, Execution.delivered, h, pending]
  | @coordinatorPops result queue h hpop =>
    refine ⟨hfed, ?_⟩
    simp [Execution.line, Execution.delivered, h, hand, (BoundedQueue.pop_item hpop).1]
  | coordinatorConsumes h hconsume =>
    refine ⟨hfed, ?_⟩
    simp [Execution.line, Execution.delivered, h, hand]
  | @workerRaises j raise h =>
    obtain rfl := hone j
    cases raise <;> simp [setWorker, recordError, fed] at hfed
  | @schedulerRaises raise h =>
    refine ⟨by cases raise <;> exact hfed, ?_⟩
    cases raise <;> simp [Execution.line, Execution.delivered, recordError, h, pending]
  | @workerDrained j queue h hpop =>
    obtain rfl := hone j
    simp [setWorker, fed] at hfed
  | @workerRefused j result queue h hpush =>
    obtain rfl := hone j
    simp [setWorker, fed] at hfed
  | @workerThrows j error h =>
    obtain rfl := hone j
    simp [setWorker, fed] at hfed
  | @workerCloses j h =>
    obtain rfl := hone j
    simp [setWorker, fed] at hfed
  | @workerLeaves j h =>
    obtain rfl := hone j
    revert hfed
    simp only [setWorker, Function.update_self]
    split
    · intro h
      cases h
    · intro h
      cases h
  | schedulerRefused h hpush =>
    refine ⟨hfed, ?_⟩
    simp [Execution.line, Execution.delivered, pending]
  | schedulerDone h =>
    refine ⟨hfed, ?_⟩
    simp [Execution.line, Execution.delivered, pending]
  | schedulerThrows error h =>
    refine ⟨hfed, ?_⟩
    simp [Execution.line, Execution.delivered, pending]
  | schedulerCloses h =>
    refine ⟨hfed, ?_⟩
    simp [Execution.line, Execution.delivered, pending, BoundedQueue.close]
  | spawnFails error h =>
    refine ⟨hfed, ?_⟩
    simp [Execution.line, Execution.delivered, h, hand]
  | unwindAssignments h =>
    refine ⟨hfed, ?_⟩
    simp [Execution.line, Execution.delivered, h, hand, BoundedQueue.close]
  | unwindCompletions h =>
    refine ⟨hfed, ?_⟩
    simp [Execution.line, Execution.delivered, h, hand, BoundedQueue.close]
  | unwindJoin h hworkers => cases hdone
  | coordinatorDrained h hpop => cases hdone
  | coordinatorThrows h hconsume => cases hdone
  | @coordinatorRaises raise h => cases raise <;> cases hdone
  | coordinatorJoins h hscheduler hworkers => cases hdone

/-- The result in hand is the next one. -/
theorem step_taken (h : Step consume state state') :
    state'.consumed ++ hand state'.coordinator <+: state.consumed ++ hand state.coordinator ∨
      (done state.coordinator = false ∧
        state'.consumed ++ hand state'.coordinator <+: state.delivered) := by
  cases h with
  | @coordinatorPops result queue h hpop =>
    refine Or.inr ⟨by rw [h]; rfl, ?_⟩
    simp [Execution.delivered, h, hand, (BoundedQueue.pop_item hpop).1]
  | coordinatorConsumes h hconsume => exact Or.inl (by simp [h, hand])
  | coordinatorThrows h hconsume => exact Or.inl (by simp [hand])
  | @workerRaises j raise h => cases raise <;> exact Or.inl List.prefix_rfl
  | @schedulerRaises raise h => cases raise <;> exact Or.inl List.prefix_rfl
  | @coordinatorRaises raise h => cases raise <;> exact Or.inl (by simp [recordError, hand])
  | _ => exact Or.inl (by simp [hand, setWorker])

/-- The kernel of a worker that has begun exists. -/
theorem step_started (h : Step consume state state')
    (hstarted : begun (state.worker i) = true → job.start = .ok ())
    (hbegun : begun (state'.worker i) = true) : job.start = .ok () := by
  cases h with
  | workerStarts h hstart => exact hstart
  | _ => exact hstarted (by grind [begun])

/-- A worker that has not begun had not begun before. -/
theorem step_fresh (h : Step consume state state') (hfed : fed (state'.worker i) = true)
    (hbegun : begun (state'.worker i) = false) :
    fed (state.worker i) = true ∧ begun (state.worker i) = false := by
  cases h with
  | _ => grind [fed, begun, WorkerState.running]

theorem step_done (h : Step consume state state') (hdone : done state'.coordinator = false) :
    done state.coordinator = false := by
  by_contra hbefore
  rw [Bool.not_eq_false] at hbefore
  rcases step_sink h with ⟨-, -, hmono⟩ | ⟨result, hc, -⟩
  · rw [hmono hbefore] at hdone
    cases hdone
  · rw [hc] at hbefore
    cases hbefore

/-- The one worker is the first. -/
theorem eq_of_one (hone : job.workers = 1) (j : Fin job.workers) : j = i :=
  Fin.ext (by omega)

/-- What comes next on the line is what is delivered next. -/
theorem InOrder.next (ho : InOrder i state) (hdone : done state.coordinator = false)
    (hbegun : begun (state.worker i) = true) {blocks : List ScenarioBlock}
    (hline : state.delivered.map (·.block) ++ blocks <+: job.missing) :
    ∃ rest, job.missing = state.delivered.map (·.block) ++ (blocks ++ rest) ∧
      job.delivery = state.delivered ++ job.attempt (blocks ++ rest) := by
  obtain ⟨rest, hrest⟩ := hline
  rw [List.append_assoc] at hrest
  have hsent := ho.sent hdone
  rw [Job.delivery_of_start (ho.started hbegun), ← hrest] at hsent
  refine ⟨rest, hrest.symm, ?_⟩
  rw [Job.delivery_of_start (ho.started hbegun), ← hrest]
  exact Job.attempt_append (by rw [List.length_map]) hsent

theorem InOrder.step (hone : job.workers = 1) (hjob : job.Labelled) (hl : Lawful state)
    (ho : InOrder i state) (h : Step consume state state') : InOrder i state' where
  taken := by
    rcases step_taken h with htaken | ⟨hdone, htaken⟩
    · exact htaken.trans ho.taken
    · exact htaken.trans (ho.sent hdone)
  sent := by
    intro hdone
    have hbefore := step_done h hdone
    rcases step_delivered h hdone with hsame | ⟨j, result, hj, hmore, -⟩
    · rw [hsame]
      exact ho.sent hbefore
    · obtain rfl : j = i := eq_of_one hone j
      have hbegun : begun (state.worker j) = true := by rw [hj]; rfl
      have hline := ho.ordered hbefore (by rw [hj]; rfl)
      rw [Execution.line, hj, carried, List.append_assoc] at hline
      obtain ⟨rest, -, hdelivery⟩ := ho.next hbefore hbegun
        ((List.prefix_append _ _).trans hline)
      obtain ⟨k, hwork⟩ := hl.genuine result (Or.inl ⟨j, hj⟩)
      rw [show (k : ℕ) = 0 by omega] at hwork
      rw [hmore, hdelivery, List.singleton_append, Job.attempt, hwork]
      exact (List.prefix_append_right_inj _).mpr (List.cons_prefix_cons.mpr ⟨rfl, List.nil_prefix⟩)
  ordered := by
    intro hdone hfed
    obtain ⟨hbefore, hline⟩ := step_line (eq_of_one hone) hjob h hdone hfed
    exact hline.trans (ho.ordered (step_done h hdone) hbefore)
  started := step_started h ho.started
  fresh := by
    intro hdone hfed hbegun
    obtain ⟨hfed', hbegun'⟩ := step_fresh h hfed hbegun
    have hbefore := ho.fresh (step_done h hdone) hfed' hbegun'
    rcases step_delivered h hdone with hsame | ⟨j, result, hj, -⟩
    · rw [hsame, hbefore]
    · obtain rfl : j = i := eq_of_one hone j
      rw [hj] at hbegun'
      cases hbegun'

theorem inOrder_of_reaches (hone : job.workers = 1) (hjob : job.Labelled)
    (h : Reaches consume sink state) : InOrder i state := by
  induction h with
  | refl => exact inOrder_initial sink
  | tail hreach hstep ih => exact ih.step hone hjob (lawful_of_reaches hjob hreach) hstep

/-! ## What the caller has seen -/

/-- The caller has consumed a prefix of the delivery, or it has thrown at one of its results. -/
def Fed (consume : BlockResult → κ → Result Unit × κ) (sink : κ) (state : Execution job κ) : Prop :=
  feed consume state.consumed sink = (.ok (), state.sink) ∨
    (done state.coordinator = true ∧ state.thrown = true ∧
      ∃ e, feed consume job.delivery sink = (.error e, state.sink))

theorem fed_of_reaches (hone : job.workers = 1) (hjob : job.Labelled)
    (h : Reaches consume sink state) : Fed consume sink state := by
  induction h with
  | refl => exact Or.inl rfl
  | @tail before after hreach hstep ih =>
    rcases step_sink hstep with ⟨hconsumed, hsink, hdone⟩ | ⟨result, hc, hsink, hcase⟩
    · unfold Fed
      rw [hconsumed, hsink]
      refine ih.imp id fun ⟨hd, ht, hfeed⟩ => ⟨hdone hd, ?_, hfeed⟩
      by_contra hf
      rw [step_thrown_mono hstep (by simpa using hf)] at ht
      cases ht
    · have hfeed := ih.resolve_right fun hd => by rw [hc] at hd; cases hd.1
      rcases hcase with ⟨hok, hconsumed⟩ | ⟨⟨e, herror⟩, ht, hd⟩
      · refine Or.inl ?_
        rw [hconsumed, hsink, feed_concat hfeed, ← hok]
      · have hpos : 0 < job.workers := by omega
        have htaken := (inOrder_of_reaches (i := ⟨0, hpos⟩) hone hjob hreach).taken
        rw [hc, hand] at htaken
        exact Or.inr ⟨hd, ht, e, by rw [hsink]; exact feed_of_error hfeed herror htaken⟩

/-! ## Interleavings without spontaneous exceptions -/

/-- A step in which a thread cannot be started, or throws what neither its `ModelKernel` nor its
computation throws. -/
inductive Spontaneous : Execution job κ → Execution job κ → Prop where
  | spawn {before : Execution job κ} {count : ℕ} (error : Exception)
      (h : before.coordinator = .spawning count) :
      Spontaneous before { before with coordinator := .unwinding error 0, thrown := true }
  | scheduler {before : Execution job κ} (error : Exception)
      (h : before.scheduler.running = true) :
      Spontaneous before { before with scheduler := .raising (.storeError error), thrown := true }
  | worker {before : Execution job κ} {j : Fin job.workers} (error : Exception)
      (h : (before.worker j).running = true)
      (hstart : before.worker j = .starting → job.start ≠ .error error)
      (hwork : ∀ block, before.worker j = .computing block → job.work j block ≠ .error error) :
      Spontaneous before
        { before.setWorker j (.raising (.storeError error)) with thrown := true }

/-- The interleavings without such steps. -/
def Undisturbed (consume : BlockResult → κ → Result Unit × κ) (sink : κ)
    (state : Execution job κ) : Prop :=
  Relation.ReflTransGen (fun before after => Step consume before after ∧ ¬ Spontaneous before after)
    (initial job sink) state

theorem Undisturbed.reaches (h : Undisturbed consume sink state) : Reaches consume sink state := by
  induction h with
  | refl => exact .refl
  | tail _ hstep ih => exact ih.tail hstep.1

theorem Undisturbed.not_unwinding (h : Undisturbed consume sink state) (error : Exception)
    (closed : ℕ) : state.coordinator ≠ .unwinding error closed := by
  induction h generalizing error closed with
  | refl => exact nofun
  | tail _ hstep ih =>
    obtain ⟨hstep, hregular⟩ := hstep
    cases hstep with
    | spawnFails e h => exact absurd (.spawn e h) hregular
    | unwindAssignments h => exact absurd h (ih _ _)
    | unwindCompletions h => exact absurd h (ih _ _)
    | @coordinatorRaises raise h => cases raise <;> exact nofun
    | @workerRaises j raise h => cases raise <;> exact ih error closed
    | @schedulerRaises raise h => cases raise <;> exact ih error closed
    | _ => first | exact ih error closed | exact nofun

/-- Why something has been thrown: the caller has thrown at one of the results, or the worker has
thrown at a block, after everything before it had been delivered. -/
inductive Blamed (consume : BlockResult → κ → Result Unit × κ) (sink : κ) (i : Fin job.workers)
    (state : Execution job κ) : Prop where
  | caller (hdone : done state.coordinator = true) (e : Exception)
      (hfeed : feed consume job.delivery sink = (.error e, state.sink))
  | worker (hstopped : Execution.fed (state.worker i) = false)
      (hshort : job.delivery.length < job.missing.length)
      (hsent : done state.coordinator = false → state.delivered = job.delivery)
      (hconsumed : done state.coordinator = true → state.consumed = job.delivery)

/-- A worker that has stopped stays so. -/
theorem step_fed (h : Step consume state state') (hfed : Execution.fed (state'.worker i) = true) :
    Execution.fed (state.worker i) = true := by
  cases h with
  | _ => grind [Execution.fed, WorkerState.running]

/-- How the coordinating thread comes to its end. -/
theorem step_finishing (h : Step consume state state') (hdone : done state.coordinator = false)
    (hdone' : done state'.coordinator = true) :
    (∃ error closed, state.coordinator = .unwinding error closed) ∨
      (state.coordinator = .popping ∧ state.completions.items = [] ∧
        state'.consumed = state.consumed) ∨
      ∃ result error, state.coordinator = .consuming result ∧
        (consume result state.sink).1 = .error error ∧
        state'.sink = (consume result state.sink).2 := by
  cases h with
  | unwindJoin h hworkers => exact Or.inl ⟨_, _, h⟩
  | coordinatorDrained h hpop => exact Or.inr (Or.inl ⟨h, (BoundedQueue.pop_drained hpop).1, rfl⟩)
  | coordinatorThrows h hconsume => exact Or.inr (Or.inr ⟨_, _, h, hconsume, rfl⟩)
  | coordinatorRaises h => rw [h] at hdone; cases hdone
  | coordinatorJoins h => rw [h] at hdone; cases hdone
  | @workerRaises j raise h =>
    cases raise <;> rw [show done state.coordinator = true from hdone'] at hdone <;> cases hdone
  | @schedulerRaises raise h =>
    cases raise <;> rw [show done state.coordinator = true from hdone'] at hdone <;> cases hdone
  | _ => grind [done]

/-- What is thrown for the first time. -/
theorem step_blame (h : Step consume state state') (hregular : ¬ Spontaneous state state')
    (ht : state.thrown = false) (ht' : state'.thrown = true) :
    (∃ j error, (state.worker j = .starting ∧ job.start = .error error ∨
        ∃ block, state.worker j = .computing block ∧ job.work j block = .error error) ∧
      state' = { state.setWorker j (.raising (.storeError error)) with thrown := true }) ∨
    ∃ result error, state.coordinator = .consuming result ∧
      (consume result state.sink).1 = .error error ∧
      state'.sink = (consume result state.sink).2 ∧ done state'.coordinator = true := by
  cases h with
  | spawnFails e h => exact absurd (.spawn e h) hregular
  | schedulerThrows e h => exact absurd (.scheduler e h) hregular
  | @workerThrows j e h =>
    refine Or.inl ⟨j, e, ?_, rfl⟩
    by_contra hnone
    rw [not_or, not_and, not_exists] at hnone
    exact hregular (.worker e h hnone.1 fun block hblock hwork => hnone.2 block ⟨hblock, hwork⟩)
  | coordinatorThrows h hconsume => exact Or.inr ⟨_, _, h, hconsume, rfl, rfl⟩
  | workerRaises h =>
    rw [setWorker_thrown, recordError_thrown, ht] at ht'
    cases ht'
  | @schedulerRaises raise h => cases raise <;> cases ht.symm.trans ht'
  | @coordinatorRaises raise h => cases raise <;> cases ht.symm.trans ht'
  | _ => cases ht.symm.trans ht'

/-- While a worker runs and nothing has been thrown, the coordinating thread consumes. -/
theorem Orderly.not_done (ho : Orderly state) (hrunning : state.worker i ≠ .finished) :
    done state.coordinator = false := by
  by_contra hdone
  rw [Bool.not_eq_false] at hdone
  have hregular := ho.coordinator
  have hcollected : collected state.coordinator = true := by
    cases hc : state.coordinator with
    | raising raise => rw [hc] at hregular; exact hregular.elim
    | joining => rfl
    | returned outcome => rfl
    | _ => rw [hc] at hdone; cases hdone
  exact hrunning (ho.completions_closed (ho.collected_drained hcollected).1 i)

/-- The worker throws after everything before has been delivered. -/
theorem InOrder.blamed (hone : job.workers = 1) (hmissing : job.missing ≠ [])
    (ho : InOrder i state) (hdone : done state.coordinator = false) {error : Exception}
    (hcause : state.worker i = .starting ∧ job.start = .error error ∨
      ∃ block, state.worker i = .computing block ∧ job.work i block = .error error) :
    state.delivered = job.delivery ∧ job.delivery.length < job.missing.length := by
  rcases hcause with ⟨hi, hstart⟩ | ⟨block, hi, hwork⟩
  · have hdelivery : job.delivery = [] := by rw [Job.delivery, hstart]
    rw [hdelivery, ho.fresh hdone (by rw [hi]; rfl) (by rw [hi]; rfl)]
    exact ⟨rfl, List.length_pos_iff.mpr hmissing⟩
  · have hbegun : begun (state.worker i) = true := by rw [hi]; rfl
    have hline := ho.ordered hdone (by rw [hi]; rfl)
    rw [Execution.line, hi, carried, List.append_assoc] at hline
    obtain ⟨rest, hall, hdelivery⟩ := ho.next hdone hbegun
      ((List.prefix_append _ _).trans hline)
    rw [show (i : ℕ) = 0 by omega] at hwork
    rw [List.singleton_append, Job.attempt, hwork, List.append_nil] at hdelivery
    refine ⟨hdelivery.symm, ?_⟩
    rw [hall, hdelivery, List.length_append, List.length_map, List.length_append,
      List.length_singleton]
    omega

theorem Blamed.step (hone : job.workers = 1) (ho : InOrder i state) (hfed : Fed consume sink state)
    (hb : Blamed consume sink i state) (hunwinding : ∀ error closed,
      state.coordinator ≠ .unwinding error closed) (h : Step consume state state') :
    Blamed consume sink i state' := by
  cases hb with
  | caller hdone e hfeed =>
    rcases step_sink h with ⟨-, hsink, hmono⟩ | ⟨result, hc, -⟩
    · exact .caller (hmono hdone) e (by rw [hsink]; exact hfeed)
    · rw [hc] at hdone
      cases hdone
  | worker hstopped hshort hsent hconsumed =>
    have hstopped' : Execution.fed (state'.worker i) = false := by
      by_contra hrunning
      rw [Bool.not_eq_false] at hrunning
      rw [step_fed h hrunning] at hstopped
      cases hstopped
    cases hdone : done state.coordinator with
    | true =>
      rcases step_sink h with ⟨hsame, -, hmono⟩ | ⟨result, hc, -⟩
      · refine .worker hstopped' hshort (fun hd => ?_) fun _ => hsame.trans (hconsumed hdone)
        rw [hmono hdone] at hd
        cases hd
      · rw [hc] at hdone
        cases hdone
    | false =>
      cases hdone' : done state'.coordinator with
      | false =>
        refine .worker hstopped' hshort (fun _ => ?_) fun hd => by rw [hdone'] at hd; cases hd
        rcases step_delivered h hdone' with hsame | ⟨j, result, hj, -⟩
        · rw [hsame, hsent hdone]
        · rw [eq_of_one hone j] at hj
          rw [hj] at hstopped
          cases hstopped
      | true =>
        rcases step_finishing h hdone hdone' with ⟨e, n, hc⟩ | ⟨hc, hitems, hsame⟩ |
          ⟨result, e, hc, hconsume, hsink⟩
        · exact absurd hc (hunwinding e n)
        · refine .worker hstopped' hshort (fun hd => by rw [hdone'] at hd; cases hd) fun _ => ?_
          have hall := hsent hdone
          rw [Execution.delivered, hc, hitems, show hand .popping = [] from rfl, List.append_nil,
            List.append_nil] at hall
          rw [hsame, hall]
        · have htaken := ho.taken
          rw [hc, hand] at htaken
          have hfeed := hfed.resolve_right fun hd => by rw [hdone] at hd; cases hd.1
          exact .caller hdone' e (by rw [hsink]; exact feed_of_error hfeed hconsume htaken)

/-- In an interleaving without spontaneous exceptions it is known who has thrown. -/
theorem Undisturbed.blamed (hone : job.workers = 1) (hjob : job.Labelled)
    (hmissing : job.missing ≠ []) (h : Undisturbed consume sink state)
    (ht : state.thrown = true) : Blamed consume sink i state := by
  induction h with
  | refl => cases ht
  | @tail before after hreach hstep ih =>
    have hbefore := Undisturbed.reaches hreach
    have ho : InOrder i before := inOrder_of_reaches hone hjob hbefore
    have hfed := fed_of_reaches hone hjob hbefore
    cases hthrown : before.thrown with
    | true => exact (ih hthrown).step hone ho hfed (Undisturbed.not_unwinding hreach) hstep.1
    | false =>
      rcases step_blame hstep.1 hstep.2 hthrown ht with ⟨j, error, hcause, hafter⟩ |
        ⟨result, error, hc, hconsume, hsink, hdone⟩
      · obtain rfl : j = i := eq_of_one hone j
        obtain ⟨horderly, -⟩ := (lawful_of_reaches hjob hbefore).quiet hthrown
        have hdone : done before.coordinator = false := horderly.not_done (i := j) (by
          rintro hj
          rcases hcause with ⟨hi, -⟩ | ⟨block, hi, -⟩ <;> rw [hj] at hi <;> cases hi)
        obtain ⟨hall, hshort⟩ := ho.blamed hone hmissing hdone hcause
        rw [hafter]
        refine .worker (by simp [setWorker, Execution.fed]) hshort (fun _ => hall) fun hd => ?_
        rw [show done before.coordinator = true from hd] at hdone
        cases hdone
      · have htaken := ho.taken
        rw [hc, hand] at htaken
        have hfeed := hfed.resolve_right fun hd => by rw [hc] at hd; cases hd.1
        exact .caller hdone error (by rw [hsink]; exact feed_of_error hfeed hconsume htaken)

/-- An interleaving in which nothing is thrown has delivered everything. -/
theorem delivered_of_returned (hone : job.workers = 1) (hjob : job.Labelled)
    (h : Reaches consume sink state) {outcome : Result ℕ}
    (hreturned : state.coordinator = .returned outcome) (hthrown : state.thrown = false) :
    outcome = .ok 1 ∧ feed consume job.delivery sink = (.ok (), state.sink) ∧
      job.delivery.length = job.missing.length := by
  have hl := lawful_of_reaches hjob h
  have hpos : 0 < job.workers := by omega
  obtain ⟨hperm, houtcome⟩ := hl.consumed_of_returned hpos hthrown hreturned
  have htaken := (inOrder_of_reaches (i := ⟨0, hpos⟩) hone hjob h).taken
  rw [hreturned, show hand (.returned outcome) = [] from rfl, List.append_nil] at htaken
  have hlength := hperm.length_eq
  rw [List.length_map] at hlength
  have hle := (Job.map_block_delivery hjob).length_le
  rw [List.length_map] at hle
  have hall : state.consumed = job.delivery :=
    htaken.eq_of_length (Nat.le_antisymm htaken.length_le (hlength ▸ hle))
  have hfeed := (fed_of_reaches hone hjob h).resolve_right fun hd => by
    rw [hthrown] at hd; cases hd.2.1
  rw [hall] at hfeed hlength
  exact ⟨by rw [houtcome, hone], hfeed, hlength⟩

/-- All interleavings without spontaneous exceptions end in the same way. -/
theorem Undisturbed.returned (hone : job.workers = 1) (hjob : job.Labelled)
    (hmissing : job.missing ≠ []) (h : Undisturbed consume sink state) {outcome : Result ℕ}
    (hreturned : state.coordinator = .returned outcome) :
    state.sink = (feed consume job.delivery sink).2 ∧
      (outcome = .ok 1 ∧ (feed consume job.delivery sink).1 = .ok () ∧
          job.delivery.length = job.missing.length ∨
        (∃ e, outcome = .error e) ∧ ((∃ e, (feed consume job.delivery sink).1 = .error e) ∨
          job.delivery.length < job.missing.length)) := by
  have hl := lawful_of_reaches hjob h.reaches
  have hpos : 0 < job.workers := by omega
  have hdone : done state.coordinator = true := by rw [hreturned]; rfl
  cases hthrown : state.thrown with
  | false =>
    obtain ⟨houtcome, hfeed, hlength⟩ := delivered_of_returned hone hjob h.reaches hreturned hthrown
    rw [hfeed]
    exact ⟨rfl, Or.inl ⟨houtcome, rfl, hlength⟩⟩
  | true =>
    have herror := hl.accounted.error hl.staged hthrown hreturned
    cases h.blamed (i := ⟨0, hpos⟩) hone hjob hmissing hthrown with
    | caller _ e hfeed =>
      rw [hfeed]
      exact ⟨rfl, Or.inr ⟨herror, Or.inl ⟨e, rfl⟩⟩⟩
    | worker _ hshort _ hconsumed =>
      refine ⟨?_, Or.inr ⟨herror, Or.inr hshort⟩⟩
      rcases fed_of_reaches hone hjob h.reaches with hfeed | ⟨-, -, e, hfeed⟩
      · rw [hconsumed hdone] at hfeed
        rw [hfeed]
      · rw [hfeed]

end Execution

end MonteCarlo
