import MonteCarlo.Engine.Durable
import MonteCarlo.Engine.Single
import MonteCarlo.Store.Hooks
import MonteCarlo.Store.Opening

/-!
# Durable runs with one worker

An invocation of `run_parallel_durable` with a single worker makes the same calls in every
interleaving: those of `singleProgram`, which has no threads.

* `DurableVisits.single` — every state between two calls is one that `singleProgram` passes
  through.
* `EndsUndisturbed` — the ends of an invocation in which no thread throws on its own.
* `EndsUndisturbed.single` — they all leave what `singleProgram` leaves.
* `runs_of_single` — what `singleProgram` returns, some interleaving returns.
-/

namespace MonteCarlo

open Effects Effects.Program

/-- The worker computes every block when it delivers a result for each. -/
theorem Job.work_of_delivery {job : Job}
    (hlength : job.missing.length ≤ job.delivery.length) (hmissing : job.missing ≠ []) :
    job.start = .ok () ∧ ∀ block ∈ job.missing, ∃ result, job.work 0 block = .ok result := by
  have hattempt : ∀ blocks : List ScenarioBlock, blocks.length ≤ (job.attempt blocks).length →
      ∀ block ∈ blocks, ∃ result, job.work 0 block = .ok result := by
    intro blocks
    induction blocks with
    | nil => simp
    | cons first rest ih =>
      intro hle block hblock
      unfold Job.attempt at hle
      cases hwork : job.work 0 first with
      | error e => rw [hwork] at hle; exact absurd hle (by simp)
      | ok result =>
        rw [hwork] at hle
        rcases List.mem_cons.mp hblock with rfl | hblock
        · exact ⟨result, hwork⟩
        · exact ih (by simpa using hle) block hblock
  cases hstart : job.start with
  | error e =>
    rw [Job.delivery, hstart] at hlength
    exact absurd hlength (by simpa using hmissing)
  | ok u =>
    rw [Job.delivery_of_start hstart] at hlength
    exact ⟨rfl, hattempt _ hlength⟩

namespace Invocation

variable {σ : Type} {h : Handler Op Reply σ} {inv : Invocation} {s s' : σ}
  {memory : DurableMemory} {results : List BlockResult}

/-- What an invocation with one worker does, without threads; nothing is returned when the worker
throws. -/
def singleProgram (inv : Invocation) : Prog (Option DurableRunResult) := do
  let store ← inv.openStore
  let memory ← Program.ofExcept (beginRun inv.build inv.spec inv.engineConfig store)
  if store.recovery.status = .complete then do
    let result ← Program.ofExcept (durableResult inv.spec memory 0)
    pure (some result)
  else do
    let job := inv.job memory
    let memory ← consumeAll job.delivery memory
    if job.delivery.length < job.missing.length then pure none
    else do
      let result ← finishDurable inv.spec memory job.workers
      pure (some result)

/-! ## One result after the other -/

theorem consumeAll_cons (completed : BlockResult) :
    consumeAll (completed :: results) memory =
      consumeDurable completed memory >>= consumeAll results := by
  rw [consumeAll, List.foldlM_cons]
  rfl

theorem consumeAll_split (first second : List BlockResult) (memory : DurableMemory) :
    consumeAll (first ++ second) memory = consumeAll first memory >>= consumeAll second := by
  rw [consumeAll, List.foldlM_append]
  rfl

/-- What the coordinating thread feeds to `consume_result`, as a program. -/
theorem run_consumeAll (results : List BlockResult) (s : σ) (memory : DurableMemory) :
    run h (consumeAll results memory) s =
      match feed (durableConsume h) results (s, memory) with
      | (.ok _, sink) => (.ok sink.2, sink.1)
      | (.error e, sink) => (.error e, sink.1) := by
  induction results generalizing s memory with
  | nil => rfl
  | cons completed rest ih =>
    rw [consumeAll_cons, feed, durableConsume, run_bind]
    rcases run h (consumeDurable completed memory) s with ⟨e | next, after⟩
    · rfl
    · exact ih after next

theorem run_consumeAll_ok {sink : σ × DurableMemory}
    (hfeed : feed (durableConsume h) results (s, memory) = (.ok (), sink)) :
    run h (consumeAll results memory) s = (.ok sink.2, sink.1) := by
  rw [run_consumeAll, hfeed]

/-! ## The beginning -/

/-- Every block has its bit. -/
theorem feed_of_consumeAll {next : DurableMemory}
    (hrun : run h (consumeAll results memory) s = (.ok next, s')) :
    feed (durableConsume h) results (s, memory) = (.ok (), (s', next)) := by
  rw [run_consumeAll] at hrun
  rcases hfeed : feed (durableConsume h) results (s, memory) with ⟨e | _, sink⟩
  · rw [hfeed] at hrun
    cases hrun
  · rw [hfeed] at hrun
    cases hrun
    rfl

theorem Begins.length_received (hb : inv.Begins h s s' memory) :
    memory.received.length = memory.store.recovery.blocks.length := by
  obtain ⟨store, hopen, hbegin, -⟩ := hb.opened
  have hopened := (returns_openStore _ _ _ _).run hopen
  obtain ⟨canonical, blocks, -, -, hlength, hrecovered⟩ := hopened.recovered
  obtain ⟨leases, hleases, hblocks, hsound⟩ := hrecovered.leased
  have hresults : store.recovery.committedResults.length = store.recovery.blocks.length := by
    rw [hblocks, length_leaseAll hleases, hsound.length_eq, hlength]
  obtain ⟨-, coordinator, -, rfl⟩ := beginRun_eq_ok hbegin hresults
  rw [List.length_map, hresults]

theorem workers_job (hone : inv.engineConfig.workerCount = 1)
    (hmissing : (inv.job memory).missing ≠ []) : (inv.job memory).workers = 1 := by
  have hpos := List.length_pos_iff.mpr hmissing
  change min inv.engineConfig.workerCount (inv.job memory).missing.length = 1
  omega

theorem labelled_job : (inv.job memory).Labelled := executionJob_labelled

/-- The part of `singleProgram` after `open`. -/
def singleExecution (inv : Invocation) (memory : DurableMemory) : Prog (Option DurableRunResult) := do
  let job := inv.job memory
  let next ← consumeAll job.delivery memory
  if job.delivery.length < job.missing.length then pure none
  else do
    let result ← finishDurable inv.spec next job.workers
    pure (some result)

theorem Begins.run_single (hb : inv.Begins h s s' memory) :
    run h inv.singleProgram s = run h (inv.singleExecution memory) s' := by
  obtain ⟨store, hopen, hbegin, hstatus⟩ := hb.opened
  rw [singleProgram, run_bind_ok hopen, run_bind_ok (by rw [run_ofExcept, hbegin]), if_neg hstatus]
  rfl

theorem Begins.visits_single (hb : inv.Begins h s s' memory) {now : σ}
    (hv : Visits h (inv.singleExecution memory) s' now) : Visits h inv.singleProgram s now := by
  obtain ⟨store, hopen, hbegin, hstatus⟩ := hb.opened
  refine Visits.bind_right hopen (Visits.bind_right (by rw [run_ofExcept, hbegin]) ?_)
  rw [if_neg hstatus]
  exact hv

/-- Wrapping what is returned changes no state. -/
theorem run_bind_pure_state {α β : Type} (p : Prog α) (f : α → β) (s : σ) :
    (run h (do let a ← p; pure (f a)) s).2 = (run h p s).2 := by
  rw [run_bind]
  rcases run h p s with ⟨e | a, t⟩ <;> rfl

/-! ## Every interleaving -/

/-- The state after a prefix of the delivery. -/
theorem visits_delivered (hpart : results <+: (inv.job memory).delivery)
    (hv : Visits h (consumeAll results memory) s s') :
    Visits h (inv.singleExecution memory) s s' := by
  obtain ⟨rest, hrest⟩ := hpart
  refine Visits.bind_left ?_ _
  rw [← hrest, consumeAll_split]
  exact hv.bind_left _

/-- Nothing to deliver. -/
theorem delivery_nothing (hmissing : (inv.job memory).missing = []) :
    (inv.job memory).delivery = [] := by
  unfold Job.delivery
  rw [hmissing]
  split <;> rfl

theorem workers_nothing (hmissing : (inv.job memory).missing = []) :
    (inv.job memory).workers = 0 := by
  change min inv.engineConfig.workerCount (inv.job memory).missing.length = 0
  rw [hmissing, List.length_nil, Nat.min_zero]

theorem singleExecution_nothing (hmissing : (inv.job memory).missing = []) :
    inv.singleExecution memory = (do
      let result ← finishDurable inv.spec memory 0
      pure (some result)) := by
  simp only [singleExecution, delivery_nothing hmissing, workers_nothing hmissing, hmissing]
  rfl

/-- Everything has been delivered. -/
theorem run_singleExecution_all {sink : σ × DurableMemory}
    (hfeed : feed (durableConsume h) (inv.job memory).delivery (s, memory) = (.ok (), sink))
    (hlength : (inv.job memory).delivery.length = (inv.job memory).missing.length) :
    run h (inv.singleExecution memory) s = run h (do
      let result ← finishDurable inv.spec sink.2 (inv.job memory).workers
      pure (some result)) sink.1 := by
  rw [singleExecution, run_bind_ok (run_consumeAll_ok hfeed), if_neg (by omega)]

/-- Who returns has not thrown. -/
theorem not_thrown_of_ok {job : Job} (hjob : job.Labelled) {sink : σ × DurableMemory}
    {state : Execution job (σ × DurableMemory)}
    (hreach : Execution.Reaches (durableConsume h) sink state) {count : ℕ}
    (hreturned : state.coordinator = .returned (.ok count)) : state.thrown = false := by
  by_contra hthrown
  have hl := Execution.lawful_of_reaches hjob hreach
  obtain ⟨e, he⟩ := hl.accounted.error hl.staged (by simpa using hthrown) hreturned
  cases he

/-- Every state that an interleaving passes through, the program without threads passes through
as well. -/
theorem DurableVisits.single (hone : inv.engineConfig.workerCount = 1) {now : σ}
    (hv : inv.DurableVisits h s now) : Visits h inv.singleProgram s now := by
  cases hv with
  | opening hvisits => exact hvisits.bind_left _
  | @executing memory s' state hb hmissing hreach =>
    have hworkers := workers_job hone hmissing
    refine hb.visits_single ?_
    rcases Execution.fed_of_reaches hworkers labelled_job hreach with hfeed | ⟨-, -, e, hfeed⟩
    · have horder := Execution.inOrder_of_reaches (i := ⟨0, by omega⟩) hworkers labelled_job hreach
      refine visits_delivered ((List.prefix_append _ _).trans horder.taken) ?_
      have hfinal := visits_final h (consumeAll state.consumed memory) s'
      rwa [run_consumeAll_ok hfeed] at hfinal
    · refine visits_delivered List.prefix_rfl ?_
      have hfinal := visits_final h (consumeAll (inv.job memory).delivery memory) s'
      rwa [run_consumeAll, hfeed] at hfinal
  | @consuming memory s' completed _ state hb hmissing hreach hconsuming hvisits =>
    have hworkers := workers_job hone hmissing
    have horder := Execution.inOrder_of_reaches (i := ⟨0, by omega⟩) hworkers labelled_job hreach
    have hfeed := (Execution.fed_of_reaches hworkers labelled_job hreach).resolve_right fun hd => by
      rw [hconsuming] at hd; cases hd.1
    have htaken := horder.taken
    rw [hconsuming, Execution.hand] at htaken
    refine hb.visits_single (visits_delivered htaken ?_)
    rw [consumeAll_append]
    exact Visits.bind_right (run_consumeAll_ok hfeed) hvisits
  | @finishing memory ending workers s' _ hb hexecutes houtcome hvisits =>
    refine hb.visits_single ?_
    cases hexecutes with
    | mismatch hlength => cases houtcome
    | execute hlength hexecutes =>
      cases hexecutes with
      | nothing hmissing =>
        obtain rfl : 0 = workers := Except.ok.inj houtcome
        rw [singleExecution_nothing hmissing]
        exact hvisits.bind_left _
      | @run outcome state hmissing hreach hreturned =>
        obtain rfl : outcome = .ok workers := houtcome
        have hworkers := workers_job hone hmissing
        have hthrown := not_thrown_of_ok labelled_job hreach hreturned
        obtain ⟨hcount, hfeed, hlength⟩ :=
          Execution.delivered_of_returned hworkers labelled_job hreach hreturned hthrown
        obtain rfl : workers = 1 := Except.ok.inj hcount
        refine Visits.bind_right (run_consumeAll_ok hfeed) ?_
        rw [if_neg (by omega), hworkers]
        exact hvisits.bind_left _

/-! ## Ends -/

variable (inv h) in
/-- The ends of an invocation in which no thread throws on its own. -/
inductive EndsUndisturbed (s : σ) : Result DurableRunResult → σ → Prop where
  /-- `execute_missing_blocks` is not called. -/
  | early {outcome : Result DurableRunResult} {s' : σ}
      (hruns : inv.RunParallelDurable h s outcome s')
      (hearly : ∀ t memory, ¬ inv.Begins h s t memory) : EndsUndisturbed s outcome s'
  /-- Nothing is missing. -/
  | nothing {memory : DurableMemory} {s' : σ} (hbegins : inv.Begins h s s' memory)
      (hmissing : (inv.job memory).missing = []) :
      EndsUndisturbed s (run h (finishDurable inv.spec memory 0) s').1
        (run h (finishDurable inv.spec memory 0) s').2
  | executionThrows {memory : DurableMemory} {s' : σ} {e : Exception}
      {state : Execution (inv.job memory) (σ × DurableMemory)}
      (hbegins : inv.Begins h s s' memory) (hmissing : (inv.job memory).missing ≠ [])
      (hreach : Execution.Undisturbed (durableConsume h) (s', memory) state)
      (hreturned : state.coordinator = .returned (.error e)) :
      EndsUndisturbed s (.error e) state.sink.1
  | finishes {memory : DurableMemory} {s' : σ} {workers : ℕ}
      {state : Execution (inv.job memory) (σ × DurableMemory)}
      (hbegins : inv.Begins h s s' memory) (hmissing : (inv.job memory).missing ≠ [])
      (hreach : Execution.Undisturbed (durableConsume h) (s', memory) state)
      (hreturned : state.coordinator = .returned (.ok workers)) :
      EndsUndisturbed s (run h (finishDurable inv.spec state.sink.2 workers) state.sink.1).1
        (run h (finishDurable inv.spec state.sink.2 workers) state.sink.1).2

/-- They are ends of an invocation. -/
theorem EndsUndisturbed.runs {outcome : Result DurableRunResult}
    (he : inv.EndsUndisturbed h s outcome s') : inv.RunParallelDurable h s outcome s' := by
  cases he with
  | early hruns hearly => exact hruns
  | @nothing memory s' hb hmissing =>
    have hexecutes : Executes (inv.job memory) (durableConsume h) (s', memory)
        ⟨.ok 0, [], false, (s', memory)⟩ := .nothing hmissing
    exact .finishes hb (.execute hb.length_received hexecutes) rfl
  | @executionThrows memory s' e state hb hmissing hreach hreturned =>
    exact .executionThrows hb
      (.execute hb.length_received (.run hmissing hreach.reaches hreturned)) rfl
  | @finishes memory s' workers state hb hmissing hreach hreturned =>
    have hexecutes : Executes (inv.job memory) (durableConsume h) (s', memory)
        ⟨.ok workers, state.consumed, state.thrown, state.sink⟩ :=
      .run hmissing hreach.reaches hreturned
    exact .finishes hb (.execute hb.length_received hexecutes) rfl

/-- They all leave what the program without threads leaves. -/
theorem EndsUndisturbed.single (hone : inv.engineConfig.workerCount = 1)
    {outcome : Result DurableRunResult} (he : inv.EndsUndisturbed h s outcome s') :
    s' = (run h inv.singleProgram s).2 := by
  cases he with
  | early hruns hearly =>
    cases hruns with
    | openThrows hopen => rw [singleProgram, run_bind_error hopen]
    | beginThrows hopen hbegin =>
      rw [singleProgram, run_bind_ok hopen, run_bind_error (by rw [run_ofExcept, hbegin])]
    | complete hopen hbegin hstatus =>
      rw [singleProgram, run_bind_ok hopen, run_bind_ok (by rw [run_ofExcept, hbegin]),
        if_pos hstatus, run_bind_pure_state, run_ofExcept]
    | executionThrows hb hexecutes houtcome => exact absurd hb (hearly _ _)
    | finishes hb hexecutes houtcome => exact absurd hb (hearly _ _)
  | nothing hb hmissing =>
    rw [hb.run_single, singleExecution_nothing hmissing]
    exact (run_bind_pure_state _ _ _).symm
  | @executionThrows memory s' e state hb hmissing hreach hreturned =>
    have hworkers := workers_job hone hmissing
    obtain ⟨hsink, hcase⟩ := hreach.returned hworkers labelled_job hmissing hreturned
    obtain ⟨-, hcause⟩ := hcase.resolve_left fun hok => by cases hok.1
    rw [hb.run_single, hsink, singleExecution, run_bind, run_consumeAll]
    rcases hfeed : feed (durableConsume h) (inv.job memory).delivery (s', memory) with ⟨e | _, sink⟩
    · rfl
    · rw [hfeed] at hcause
      rcases hcause with ⟨e, he⟩ | hshort
      · cases he
      · simp only [hshort, if_true]
        rfl
  | @finishes memory s' workers state hb hmissing hreach hreturned =>
    have hworkers := workers_job hone hmissing
    obtain ⟨hcount, hfeed, hlength⟩ := Execution.delivered_of_returned hworkers labelled_job
      hreach.reaches hreturned (not_thrown_of_ok labelled_job hreach.reaches hreturned)
    obtain rfl : workers = 1 := Except.ok.inj hcount
    rw [hb.run_single, run_singleExecution_all hfeed hlength, hworkers]
    exact (run_bind_pure_state _ _ _).symm

/-- When the worker delivers every result and all of them are consumed, some interleaving
returns. -/
theorem exists_returned_single (hone : inv.engineConfig.workerCount = 1)
    (hmissing : (inv.job memory).missing ≠ [])
    {sink : σ × DurableMemory}
    (hfeed : feed (durableConsume h) (inv.job memory).delivery (s', memory) = (.ok (), sink))
    (hlength : (inv.job memory).missing.length ≤ (inv.job memory).delivery.length) :
    ∃ state : Execution (inv.job memory) (σ × DurableMemory),
      Execution.Reaches (durableConsume h) (s', memory) state ∧
        state.coordinator = .returned (.ok 1) ∧ state.sink = sink := by
  have hworkers := workers_job hone hmissing
  obtain ⟨hstart, hwork⟩ := Job.work_of_delivery hlength hmissing
  obtain ⟨state, outcome, hreach, hreturned, hquiet⟩ := Execution.exists_returned
    (inv.job memory) (durableConsume h) (s', memory) (by rw [hworkers]; exact Nat.one_pos)
    (queueCapacity_pos _ _) (queueCapacity_pos _ _) (by
      intro state hreach hquiet hfailing
      rcases hfailing with ⟨error, herror⟩ | ⟨i, block, error, hi, herror⟩ | ⟨result, error, hc, he⟩
      · rw [hstart] at herror
        cases herror
      · have hmem := (Execution.lawful_of_reaches labelled_job hreach).held_mem (i := i) (by
          rw [hi]
          exact Multiset.mem_singleton_self block)
        obtain ⟨result, hresult⟩ := hwork block hmem
        have hzero : (i : ℕ) = 0 := by omega
        rw [hzero, hresult] at herror
        cases herror
      · have htaken := (Execution.inOrder_of_reaches (i := ⟨0, by omega⟩) hworkers labelled_job
          hreach).taken
        rw [hc] at htaken
        rcases Execution.fed_of_reaches hworkers labelled_job hreach with hok | ⟨-, hthrown, -⟩
        · have herror := feed_of_error hok he htaken
          rw [hfeed] at herror
          cases herror
        · rw [hquiet] at hthrown
          cases hthrown)
  obtain ⟨rfl, hfed, -⟩ := Execution.delivered_of_returned hworkers labelled_job hreach hreturned
    hquiet
  rw [hfeed] at hfed
  exact ⟨state, hreach, hreturned, (Prod.mk.inj hfed).2.symm⟩

/-- What `singleProgram` returns, some interleaving returns. -/
theorem runs_of_single (hone : inv.engineConfig.workerCount = 1) {result : DurableRunResult}
    (hrun : run h inv.singleProgram s = (.ok (some result), s')) :
    inv.RunParallelDurable h s (.ok result) s' := by
  obtain ⟨store, opened, hopen, hrest⟩ := run_bind_eq_ok hrun
  obtain ⟨memory, hbegin, hexecute⟩ := run_ofExcept_bind_eq_ok hrest
  split at hexecute
  · rename_i hstatus
    obtain ⟨found, hresult, hpure⟩ := run_ofExcept_bind_eq_ok hexecute
    cases hpure
    rw [← hresult]
    exact .complete hopen hbegin hstatus
  · rename_i hstatus
    have hb : inv.Begins h s opened memory := ⟨store, hopen, hbegin, hstatus⟩
    dsimp only at hexecute
    obtain ⟨last, consumed, hconsume, hfinish⟩ := run_bind_eq_ok hexecute
    split at hfinish
    · cases hfinish
    rename_i hlength
    obtain ⟨found, final, hdone, hpure⟩ := run_bind_eq_ok hfinish
    cases hpure
    by_cases hmissing : (inv.job memory).missing = []
    · rw [delivery_nothing hmissing] at hconsume
      cases hconsume
      rw [workers_nothing hmissing] at hdone
      have hexecutes : ExecutesMissing inv.kernels inv.spec inv.engineConfig
          memory.store.recovery.blocks memory.received memory.coordinator.runSpecHash
          memory.coordinator.executionLayoutHash memory.coordinator.buildFingerprint
          (durableConsume h) (opened, memory) ⟨.ok 0, [], false, (opened, memory)⟩ :=
        .execute hb.length_received (.nothing hmissing)
      have hends := RunParallelDurable.finishes hb hexecutes rfl
      rwa [hdone] at hends
    · have hfeed := feed_of_consumeAll hconsume
      obtain ⟨state, hreach, hreturned, hsink⟩ :=
        exists_returned_single hone hmissing hfeed (not_lt.mp hlength)
      have hends := RunParallelDurable.finishes hb
        (.execute hb.length_received (.run hmissing hreach hreturned)) rfl
      rw [workers_job hone hmissing] at hdone
      simp only [hsink] at hends
      rwa [hdone] at hends

/-- What `singleProgram` returns, and a test of it. -/
theorem exists_runs_of_single (hone : inv.engineConfig.workerCount = 1)
    (test : DurableRunResult → Bool)
    (hrun : (run h inv.singleProgram s).1.toOption.join.any test = true) :
    ∃ result, inv.RunParallelDurable h s (.ok result) (run h inv.singleProgram s).2 ∧
      test result = true := by
  rcases hcase : run h inv.singleProgram s with ⟨e | found, s'⟩
  · rw [hcase] at hrun
    cases hrun
  · rw [hcase] at hrun
    cases found with
    | none => cases hrun
    | some result => exact ⟨result, runs_of_single hone hcase, hrun⟩

end Invocation

end MonteCarlo
