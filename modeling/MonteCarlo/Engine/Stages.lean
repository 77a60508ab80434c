import MonteCarlo.Engine.Validators
import MonteCarlo.Store.Hooks

/-!
# The stages of a durable run

What holds of the files at every moment of `run_parallel_durable`, whatever the interleaving and
wherever the process dies.

* `Consumes` — what `consume_result` has done when it returns.
* `Invocation.Keeps` — a property of the variables and the files between two results, and one of
  the files at every moment, with what each step has to keep.
* `Keeps.visits`, `Keeps.returns` — every moment of every run, and the end of a run that returns.
-/

namespace MonteCarlo

open Effects Effects.Program

/-! ## One result -/

/-- The variables after a result has been recorded and committed. -/
def DurableMemory.committed (memory : DurableMemory) (store : DurableRunStore)
    (completed : BlockResult) : DurableMemory :=
  memory.commit store (memory.coordinator.commit completed) completed

/-- The variables after a periodic checkpoint. -/
def DurableMemory.afterCheckpoint (memory : DurableMemory) (store : DurableRunStore) :
    DurableMemory :=
  { memory with store := store, pendingSinceCheckpoint := 0 }

/-- What `consume_result` has done when it returns. -/
inductive Consumes {σ : Type} (h : Handler Op Reply σ) (completed : BlockResult)
    (memory : DurableMemory) (s : σ) : DurableMemory → σ → Prop where
  /-- The result is rejected as a duplicate or out of date. -/
  | rejected : Consumes h completed memory s memory s
  | committed {store : DurableRunStore} {s' : σ}
      (haccepted : AcceptedBy memory.coordinator completed)
      (hrecord : run h (recordResult memory.store completed) s = (.ok store, s'))
      (hdue : (memory.committed store completed).checkpointDue = false) :
      Consumes h completed memory s (memory.committed store completed) s'
  | checkpointed {store store' : DurableRunStore} {middle s' : σ}
      (haccepted : AcceptedBy memory.coordinator completed)
      (hrecord : run h (recordResult memory.store completed) s = (.ok store, middle))
      (hdue : (memory.committed store completed).checkpointDue = true)
      (hcheckpoint : run h (checkpoint store (memory.coordinator.commit completed)
        (memory.committed store completed).leaves (memory.committed store completed).received)
          middle = (.ok store', s')) :
      Consumes h completed memory s ((memory.committed store completed).afterCheckpoint store') s'

theorem consumes_of_run {σ : Type} {h : Handler Op Reply σ} {s s' : σ} {completed : BlockResult}
    {memory next : DurableMemory}
    (hrun : run h (consumeDurable completed memory) s = (.ok next, s')) :
    Consumes h completed memory s next s' := by
  obtain ⟨validation, hvalidate, hrest⟩ := run_ofExcept_bind_eq_ok hrun
  split at hrest
  · cases hrest
    exact .rejected
  split at hrest
  · obtain ⟨_, middle, -, hthrow⟩ := run_bind_eq_ok hrest
    cases hthrow
  rename_i hstatus
  obtain ⟨haccepted, hcommit⟩ :=
    commitResult_of_validateResult hvalidate (not_not.mp hstatus)
  obtain ⟨store, middle, hrecord, hcommitted⟩ := run_bind_eq_ok hrest
  obtain ⟨⟨committed, coordinator⟩, hcommit', hchecked⟩ := run_ofExcept_bind_eq_ok hcommitted
  rw [hcommit] at hcommit'
  obtain ⟨rfl, rfl⟩ := Prod.mk.inj (Except.ok.inj hcommit')
  obtain ⟨_, -, hdue⟩ := run_ofExcept_bind_eq_ok hchecked
  dsimp only at hdue
  split at hdue
  · rename_i hcheckpoint
    obtain ⟨store', final, hrun', hpure⟩ := run_bind_eq_ok hdue
    cases hpure
    exact .checkpointed haccepted hrecord hcheckpoint hrun'
  · rename_i hcheckpoint
    cases hdue
    exact .committed haccepted hrecord (Bool.not_eq_true _ ▸ hcheckpoint)

/-- The blocks stay as they are. -/
theorem Consumes.blocks {σ : Type} {h : Handler Op Reply σ} {s s' : σ} {completed : BlockResult}
    {memory next : DurableMemory} (hconsumes : Consumes h completed memory s next s') :
    next.coordinator.blocks = memory.coordinator.blocks := by
  cases hconsumes <;> rfl

/-! ## What a run keeps -/

/-- The reasons of `invariant_error` are short. -/
theorem AggregateStats.length_invariantError {a : AggregateStats Binary64} {n : Option UInt64}
    {error : String} (h : a.invariantError n = some error) : (ascii error).length ≤ 147 := by
  unfold AggregateStats.invariantError at h
  dsimp only at h
  split_ifs at h <;> (cases h; decide)

/-- So are those of `validate_result`, and with them the failures that a run records. -/
theorem length_validateResult {completed : BlockResult} {state : CoordinatorState}
    {validation : Validation} (h : validateResult completed state = .ok validation) :
    (ascii validation.reason).length ≤ 147 := by
  unfold validateResult at h
  split at h
  · cases h; decide
  split at h
  · cases h; decide
  split at h
  · cases h; decide
  split at h
  · cases h; decide
  split at h
  · cases h; decide
  split at h
  · cases h; decide
  split at h
  · cases h; decide
  split at h
  · cases h; decide
  split at h
  · rename_i error herror
    cases h
    exact AggregateStats.length_invariantError herror
  · obtain ⟨computed, -, h⟩ := Result.bind_eq_ok.mp h
    split at h
    · cases h; decide
    · cases h
      unfold classifyCommit
      split
      · split <;> decide
      · split <;> decide

namespace Invocation

/-- The arguments of `DurableRunStore::open`. -/
def arguments (inv : Invocation) : OpenArguments :=
  ⟨inv.build, inv.spec, inv.engineConfig, inv.storeConfig⟩

/-- A property `I` of the variables and the lasting files between two results, and a property `J`
of the lasting files at every moment, that every step of a run keeps. -/
structure Keeps (inv : Invocation) (env : Environment) (disk : Disk)
    (I : DurableMemory → Disk → Prop) (J : Disk → Prop) : Prop where
  opening : ∀ next, OpenStage env inv.arguments disk next → J next
  begins : ∀ store memory next, Opened inv.build inv.spec inv.engineConfig inv.storeConfig store →
    Opens env inv.arguments disk store next →
    beginRun inv.build inv.spec inv.engineConfig store = .ok memory →
    store.recovery.status ≠ .complete → I memory next
  holds : ∀ memory now, I memory now → J now
  records : ∀ memory now completed store next, I memory now →
    AcceptedBy memory.coordinator completed →
    computeBlock inv.kernels inv.spec completed.block = .ok completed.aggregate →
    Records memory.store completed now store next → I (memory.committed store completed) next
  checkpoints : ∀ memory now store next, I memory now →
    Checkpoints memory.store memory.coordinator memory.leaves memory.received .running none now
      store next → I (memory.afterCheckpoint store) next
  fails : ∀ memory now failure store next, I memory now → failure.reason.length ≤ 147 →
    Checkpoints memory.store memory.coordinator memory.leaves memory.received .failed
      (some failure) now store next → J next
  finishes : ∀ memory now store next, I memory now →
    Checkpoints memory.store memory.coordinator memory.leaves memory.received .complete none now
      store next → J next

section Keeps

variable {inv : Invocation} {env : Environment} {disk : Disk} {I : DurableMemory → Disk → Prop}
  {J : Disk → Prop} {memory : DurableMemory} {now : Disk} {world after : World}

/-- The lasting files have the property. -/
def Lasts (J : Disk → Prop) (world : World) : Prop := ∃ next, J next ∧ next.Same world.disk

theorem lasts_of_within {P : Disk → Prop} (hnow : J now) (hP : ∀ next, P next → J next)
    (h : Within now P world) : Lasts J world := by
  rcases h with hsame | ⟨next, hnext, hsame⟩
  · exact ⟨now, hnow, hsame⟩
  · exact ⟨next, hP next hnext, hsame⟩

/-- A result that is rejected. -/
theorem Keeps.reject (hkeeps : inv.Keeps env disk I J) (hI : I memory now)
    (hworld : now.Same world.disk) {failure : FailureRecord} (hreason : failure.reason.length ≤ 147)
    (error : Exception) :
    Wp env.handle (Lasts J) (Leaves I) (do
      let _ ← checkpoint memory.store memory.coordinator memory.leaves memory.received .failed
        (some failure)
      throw error : Prog DurableMemory) world := by
  have hlasts : ∀ now', Within now (fun next => ∃ store, Checkpoints memory.store
      memory.coordinator memory.leaves memory.received .failed (some failure) now store next)
      now' → Lasts J now' := fun _ => lasts_of_within (hkeeps.holds _ _ hI) fun _ ⟨_, h⟩ =>
    hkeeps.fails _ _ _ _ _ hI hreason h
  refine wp_bind ((wp_checkpoint _ _ _ _ _ hworld).mono hlasts ?_)
  intro outcome after hwithin _
  cases outcome with
  | error e => exact leaves_error _ _
  | ok store => exact wp_throw (hlasts _ hwithin) (leaves_error _ _)

/-- A periodic checkpoint. -/
theorem Keeps.periodic (hkeeps : inv.Keeps env disk I J) (hI : I memory now)
    (hworld : now.Same world.disk) :
    Wp env.handle (Lasts J) (Leaves I) (do
      let store ← checkpoint memory.store memory.coordinator memory.leaves memory.received
      pure (memory.afterCheckpoint store) : Prog DurableMemory) world := by
  have hlasts : ∀ now', Within now (fun next => ∃ store, Checkpoints memory.store
      memory.coordinator memory.leaves memory.received .running none now store next)
      now' → Lasts J now' := fun _ => lasts_of_within (hkeeps.holds _ _ hI) fun _ ⟨_, h⟩ =>
    hkeeps.holds _ _ (hkeeps.checkpoints _ _ _ _ hI h)
  refine wp_bind ((wp_checkpoint _ _ _ _ _ hworld).mono hlasts ?_)
  intro outcome after hwithin hleaves
  cases outcome with
  | error e => exact leaves_error _ _
  | ok store =>
    obtain ⟨next, hcheckpoints, hsame⟩ := hleaves store rfl
    exact wp_pure (hlasts _ hwithin) (leaves_ok (hkeeps.checkpoints _ _ _ _ hI hcheckpoints) hsame)

/-- One result. -/
theorem Keeps.consume (hkeeps : inv.Keeps env disk I J) (hI : I memory now)
    (hworld : now.Same world.disk) {completed : BlockResult}
    (hcomputed : computeBlock inv.kernels inv.spec completed.block = .ok completed.aggregate) :
    Wp env.handle (Lasts J) (Leaves I) (consumeDurable completed memory) world := by
  have hlasts : ∀ {memory' now' world'}, I memory' now' → now'.Same world'.disk → Lasts J world' :=
    fun hI hsame => ⟨_, hkeeps.holds _ _ hI, hsame⟩
  unfold consumeDurable
  cases hvalidate : validateResult completed memory.coordinator with
  | error e => exact wp_throw (hlasts hI hworld) (leaves_error _ _)
  | ok validation =>
    refine wp_bind (wp_pure (hlasts hI hworld) ?_)
    dsimp only
    by_cases hbenign : isBenignRejection validation.status = true
    · rw [if_pos hbenign]
      exact wp_pure (hlasts hI hworld) (leaves_ok hI hworld)
    rw [if_neg hbenign]
    by_cases hstatus : validation.status = .accepted
    · rw [if_neg (not_not.mpr hstatus)]
      obtain ⟨haccepted, hcommit⟩ := commitResult_of_validateResult hvalidate hstatus
      refine wp_bind ((wp_recordResult completed hworld).mono ?_ ?_)
      · exact fun _ => lasts_of_within (hkeeps.holds _ _ hI) fun _ ⟨_, h⟩ =>
          hkeeps.holds _ _ (hkeeps.records _ _ _ _ _ hI haccepted hcomputed h)
      · intro outcome middle _ hleaves
        cases outcome with
        | error e => exact leaves_error _ _
        | ok store =>
          obtain ⟨next, hrecords, hsame⟩ := hleaves store rfl
          have hI' := hkeeps.records _ _ _ _ _ hI haccepted hcomputed hrecords
          dsimp only
          rw [hcommit]
          refine wp_bind (wp_pure (hlasts hI' hsame) ?_)
          dsimp only
          rw [decide_eq_false (not_not.mpr hstatus)]
          refine wp_bind (wp_pure (hlasts hI' hsame) ?_)
          dsimp only
          by_cases hdue : (memory.commit store (memory.coordinator.commit completed)
              completed).checkpointDue = true
          · rw [if_pos hdue]
            exact hkeeps.periodic hI' hsame
          · rw [if_neg hdue]
            exact wp_pure (hlasts hI' hsame) (leaves_ok hI' hsame)
    · rw [if_pos hstatus]
      exact hkeeps.reject hI hworld (length_validateResult hvalidate) _

/-- All results. -/
theorem Keeps.consumeAll (hkeeps : inv.Keeps env disk I J) (results : List BlockResult)
    (hI : I memory now) (hworld : now.Same world.disk)
    (hcomputed : ∀ completed ∈ results,
      computeBlock inv.kernels inv.spec completed.block = .ok completed.aggregate) :
    Wp env.handle (Lasts J) (Leaves I) (consumeAll results memory) world := by
  induction results generalizing memory now world with
  | nil => exact wp_pure ⟨now, hkeeps.holds _ _ hI, hworld⟩ (leaves_ok hI hworld)
  | cons completed rest ih =>
    refine wp_bind ((hkeeps.consume hI hworld (hcomputed _ List.mem_cons_self)).mono
      (fun _ h => h) ?_)
    intro outcome after _ hleaves
    cases outcome with
    | error e => exact leaves_error _ _
    | ok memory' =>
      obtain ⟨next, hI', hsame⟩ := hleaves memory' rfl
      exact ih hI' hsame fun _ h => hcomputed _ (List.mem_cons_of_mem _ h)

/-- The end of a run. -/
def Ends (inv : Invocation) (I : DurableMemory → Disk → Prop) (result : DurableRunResult)
    (next : Disk) : Prop :=
  ∃ memory now store workers, I memory now ∧ memory.received.any (!·) = false ∧
    Checkpoints memory.store memory.coordinator memory.leaves memory.received .complete none now
      store next ∧
    durableResult inv.spec { memory with store := store } workers = .ok result

/-- The last checkpoint. -/
theorem Keeps.finish (hkeeps : inv.Keeps env disk I J) (hI : I memory now)
    (hworld : now.Same world.disk) (workers : ℕ) :
    Wp env.handle (Lasts J) (Leaves (inv.Ends I)) (finishDurable inv.spec memory workers) world := by
  have hlasts : ∀ now', Within now (fun next => ∃ store, Checkpoints memory.store
      memory.coordinator memory.leaves memory.received .complete none now store next)
      now' → Lasts J now' := fun _ => lasts_of_within (hkeeps.holds _ _ hI) fun _ ⟨_, h⟩ =>
    hkeeps.finishes _ _ _ _ hI h
  unfold finishDurable
  cases hall : memory.received.any (!·) with
  | true => exact wp_throw (hlasts _ (Or.inl hworld)) (leaves_error _ _)
  | false =>
    refine wp_bind (wp_pure (hlasts _ (Or.inl hworld)) ?_)
    dsimp only
    refine wp_bind ((wp_checkpoint _ _ _ _ _ hworld).mono hlasts ?_)
    intro outcome after hwithin hleaves
    cases outcome with
    | error e => exact leaves_error _ _
    | ok store =>
      obtain ⟨next, hcheckpoints, hsame⟩ := hleaves store rfl
      refine wp_ofExcept (hlasts _ hwithin) ?_
      intro result hresult
      exact ⟨next, ⟨memory, now, store, workers, hI, hall, hcheckpoints, hresult⟩, hsame⟩

/-- What `open` leaves. -/
theorem opens_of_run {store : DurableRunStore}
    (hopen : run env.handle inv.openStore world = (.ok store, after)) :
    Opened inv.build inv.spec inv.engineConfig inv.storeConfig store ∧
      ∃ next, Opens env inv.arguments world.disk store next ∧ next.Same after.disk := by
  have hpost := (@wp_openStore env inv.arguments world).post
  rw [show run env.handle inv.arguments.openStore world = _ from hopen] at hpost
  exact ⟨(returns_openStore _ _ _ _).run hopen, hpost store rfl⟩

/-- When the execution begins. -/
theorem Keeps.begun (hkeeps : inv.Keeps env world.disk I J)
    (hb : inv.Begins env.handle world after memory) :
    ∃ next, I memory next ∧ next.Same after.disk := by
  obtain ⟨store, hopen, hbegin, hstatus⟩ := hb.opened
  obtain ⟨hopened, next, hopens, hsame⟩ := opens_of_run hopen
  exact ⟨next, hkeeps.begins _ _ _ hopened hopens hbegin hstatus, hsame⟩

/-- What is delivered has been computed. -/
theorem Deliverable.computed {results : List BlockResult} (hd : inv.Deliverable memory results) :
    ∀ completed ∈ results,
      computeBlock inv.kernels inv.spec completed.block = .ok completed.aggregate :=
  fun _ h => (hd.made _ h).aggregate

/-- When some results have been consumed. -/
theorem Keeps.consumed (hkeeps : inv.Keeps env world.disk I J) {opened : World}
    (hb : inv.Begins env.handle world opened memory) {results : List BlockResult}
    (hd : inv.Deliverable memory results) {memory' : DurableMemory}
    (hrun : run env.handle (Invocation.consumeAll results memory) opened = (.ok memory', after)) :
    ∃ next, I memory' next ∧ next.Same after.disk := by
  obtain ⟨next, hI, hsame⟩ := hkeeps.begun hb
  have hpost := (hkeeps.consumeAll results hI hsame hd.computed).post
  rw [hrun] at hpost
  exact hpost memory' rfl

/-- The moments between two calls of `consume_result`. -/
theorem Keeps.between (hkeeps : inv.Keeps env world.disk I J) {opened : World}
    (hb : inv.Begins env.handle world opened memory) {results : List BlockResult}
    (hd : inv.Deliverable memory results) {outcome : Except Exception DurableMemory}
    (hrun : run env.handle (Invocation.consumeAll results memory) opened = (outcome, after)) :
    Lasts J after := by
  obtain ⟨next, hI, hsame⟩ := hkeeps.begun hb
  have hfinal := (hkeeps.consumeAll results hI hsame hd.computed).final
  rwa [hrun] at hfinal

/-- Every moment of every run. -/
theorem Keeps.visits (hkeeps : inv.Keeps env world.disk I J)
    (hv : inv.DurableVisits env.handle world after) : Lasts J after := by
  cases hv with
  | opening hvisits =>
    obtain ⟨next, hstage, hsame⟩ := (@wp_openStore env inv.arguments world).visits hvisits
    exact ⟨next, hkeeps.opening _ hstage, hsame⟩
  | executing hb hmissing hreach =>
    rcases execution_sequential hb hreach with ⟨hd, hrun⟩ | ⟨-, -, results, e, hd, hrun⟩
    · exact hkeeps.between hb hd hrun
    · exact hkeeps.between hb hd hrun
  | @consuming memory _ completed _ state hb hmissing hreach hconsuming hvisits =>
    obtain ⟨hs, hnodup⟩ := hb.nodup
    obtain ⟨-, -, i, hwork⟩ :=
      (Execution.lawful_of_reaches executionJob_labelled hreach).inHand hnodup hconsuming
    rcases execution_sequential hb hreach with ⟨hd, hrun⟩ | ⟨-, hdone, -⟩
    · obtain ⟨next, hI, hsame⟩ := hkeeps.consumed hb hd hrun
      exact (hkeeps.consume hI hsame (madeOf_of_work hs hwork).aggregate).visits hvisits
    · rw [hconsuming] at hdone
      cases hdone
  | finishing hb hexecutes houtcome hvisits =>
    obtain ⟨hd, hrun⟩ := executes_sequential_ok hb hexecutes houtcome
    obtain ⟨next, hI, hsame⟩ := hkeeps.consumed hb hd hrun
    exact (hkeeps.finish hI hsame _).visits hvisits

/-- The end of a run that returns: the store was complete, or it is now. -/
theorem Keeps.returns (hkeeps : inv.Keeps env world.disk I J) {result : DurableRunResult}
    (hruns : inv.RunParallelDurable env.handle world (.ok result) after) :
    (∃ store memory next, Opened inv.build inv.spec inv.engineConfig inv.storeConfig store ∧
        Opens env inv.arguments world.disk store next ∧
        beginRun inv.build inv.spec inv.engineConfig store = .ok memory ∧
        store.recovery.status = .complete ∧ durableResult inv.spec memory 0 = .ok result ∧
        next.Same after.disk) ∨
      ∃ next, inv.Ends I result next ∧ next.Same after.disk := by
  obtain ⟨outcome, houtcome⟩ : ∃ outcome : Result DurableRunResult, outcome = .ok result :=
    ⟨_, rfl⟩
  rw [← houtcome] at hruns
  cases hruns with
  | openThrows hopen => cases houtcome
  | beginThrows hopen hbegin => cases houtcome
  | complete hopen hbegin hstatus =>
    obtain ⟨hopened, next, hopens, hsame⟩ := opens_of_run hopen
    exact Or.inl ⟨_, _, next, hopened, hopens, hbegin, hstatus, houtcome, hsame⟩
  | executionThrows hb hexecutes herror => cases houtcome
  | finishes hb hexecutes hworkers =>
    obtain ⟨hd, hrun⟩ := executes_sequential_ok hb hexecutes hworkers
    obtain ⟨next, hI, hsame⟩ := hkeeps.consumed hb hd hrun
    exact Or.inr ((hkeeps.finish hI hsame _).post result houtcome)

/-- The end of a run is one of its moments. -/
theorem RunParallelDurable.visits {σ : Type} {h : Handler Op Reply σ} {s s' : σ}
    {outcome : Result DurableRunResult} (hruns : inv.RunParallelDurable h s outcome s') :
    inv.DurableVisits h s s' := by
  have hopened : ∀ {store t}, run h inv.openStore s = (store, t) → inv.DurableVisits h s t := by
    intro store t hopen
    have hfinal := visits_final h inv.openStore s
    rw [hopen] at hfinal
    exact .opening hfinal
  cases hruns with
  | openThrows hopen => exact hopened hopen
  | beginThrows hopen hbegin => exact hopened hopen
  | complete hopen hbegin hstatus => exact hopened hopen
  | executionThrows hb hexecutes herror =>
    obtain ⟨store, hopen, -, -⟩ := hb.opened
    cases hexecutes with
    | mismatch hlength => exact hopened hopen
    | execute hlength hexecutes =>
      cases hexecutes with
      | nothing hmissing => exact hopened hopen
      | run hmissing hreach hreturned => exact .executing hb hmissing hreach
  | finishes hb hexecutes hworkers =>
    exact .finishing hb hexecutes hworkers (visits_final h _ _)

end Keeps

end Invocation

end MonteCarlo
