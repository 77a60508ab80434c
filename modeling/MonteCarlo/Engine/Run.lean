import MonteCarlo.Coordinator
import MonteCarlo.Engine.Progress

/-!
# `run_parallel`

The in-memory run of `engine.cpp`: every result a worker makes is accepted by the
coordinator (`BlockResult.MadeOf.acceptedBy`), so the leaves at the end are the computed blocks
at their own positions, whatever the interleaving.

* `ParallelState.Collects` — what the caller's state says about the results consumed.
* `runParallel_exactly_once` — exactly-once delivery and schedule independence.
-/

namespace MonteCarlo

/-- `RunResult`. -/
structure RunResult where
  aggregate : AggregateStats Binary64
  scenariosProcessed : UInt64
  blockCount : UInt64
  workersUsed : ℕ
  deriving DecidableEq, Repr

/-- The variables that the `consume_result` of `run_parallel` captures. -/
structure ParallelState where
  coordinator : CoordinatorState
  leaves : List (AggregateStats Binary64)
  received : List Bool
  deriving DecidableEq, Repr

/-- The `consume_result` of `run_parallel`. -/
def consumeParallel (completed : BlockResult) (state : ParallelState) :
    Result Unit × ParallelState :=
  match commitResult completed state.coordinator with
  | .error e => (.error e, state)
  | .ok (validation, coordinator) =>
    if validation.status ≠ .accepted then
      (.error ⟨.runtimeError, .runParallel, "coordinator rejected block result as "
        ++ validation.status.text ++ ": " ++ validation.reason⟩,
        { state with coordinator := coordinator })
    else
      let leaf := completed.block.blockId.toNat
      (.ok (),
        { coordinator := coordinator
          leaves := state.leaves.set leaf completed.aggregate
          received := state.received.set leaf true })

/-- The captured variables before the first result. -/
def ParallelState.initial (coordinator : CoordinatorState) (count : ℕ) : ParallelState :=
  ⟨coordinator, List.replicate count .empty, List.replicate count false⟩

/-- `run_parallel` from the return of `execute_missing_blocks` on. -/
def finishParallel (spec : RunSpec) (blocks : List ScenarioBlock)
    (ending : Ending ParallelState) : Result RunResult := do
  let workers ← ending.outcome
  throwIf (ending.sink.received.any (!·))
    ⟨.runtimeError, .runParallel, "parallel run ended before every block completed"⟩
  let aggregate ← reduceBlockResults ending.sink.leaves
  pure ⟨aggregate, spec.totalScenarios, UInt64.ofNat blocks.length, workers⟩

/-- `run_parallel`: `RunParallel .. thrown outcome` when some interleaving returns or throws
`outcome`, and `thrown` says whether a worker, the scheduler or `consume_result` threw. -/
inductive RunParallel (kernels : RunSpec → Result (ModelKernel Binary64)) (build : BuildIdentity)
    (spec : RunSpec) (config : EngineConfig) : Bool → Result RunResult → Prop where
  | rejected {error} (h : (do
      let blocks ← makeBlocks spec config
      makeCoordinatorState build spec config blocks) = .error error) :
      RunParallel kernels build spec config false (.error error)
  | run {blocks coordinator ending} (hblocks : makeBlocks spec config = .ok blocks)
      (hcoordinator : makeCoordinatorState build spec config blocks = .ok coordinator)
      (hexecutes : ExecutesMissing kernels spec config blocks (List.replicate blocks.length false)
        coordinator.runSpecHash coordinator.executionLayoutHash coordinator.buildFingerprint
        consumeParallel (.initial coordinator blocks.length) ending) :
      RunParallel kernels build spec config ending.thrown (finishParallel spec blocks ending)

/-- What `run_parallel` computes, without threads: the blocks in the order of their numbers,
reduced over the fixed tree. -/
def reduceComputedBlocks (kernels : RunSpec → Result (ModelKernel Binary64)) (spec : RunSpec)
    (blocks : List ScenarioBlock) : Result (AggregateStats Binary64) := do
  let leaves ← blocks.mapM (computeBlock kernels spec)
  reduceBlockResults leaves

/-- The result of `run_parallel` as a function of its arguments alone. -/
def runParallelResult (kernels : RunSpec → Result (ModelKernel Binary64)) (spec : RunSpec)
    (config : EngineConfig) : Result RunResult := do
  let blocks ← makeBlocks spec config
  let aggregate ← reduceComputedBlocks kernels spec blocks
  pure ⟨aggregate, spec.totalScenarios, UInt64.ofNat blocks.length,
    min config.workerCount blocks.length⟩

/-! ## What workers make -/

/-- A result that a worker made of a block. -/
structure BlockResult.MadeOf (kernels : RunSpec → Result (ModelKernel Binary64)) (spec : RunSpec)
    (specHash layoutHash buildFingerprint : Sha256Digest) (block : ScenarioBlock)
    (result : BlockResult) : Prop where
  block_eq : result.block = block
  aggregate : computeBlock kernels spec block = .ok result.aggregate
  valid : result.aggregate.invariantError (some (expectedObservations spec.antithetic block)) = none
  runSpecHash : result.runSpecHash = specHash
  executionLayoutHash : result.executionLayoutHash = layoutHash
  buildFingerprint : result.buildFingerprint = buildFingerprint
  checksum : aggregatePayloadHash result.aggregate spec.statsSchemaVersion =
    .ok result.payloadChecksum
  rngVersion : result.rngVersion = spec.rngVersion
  statsSchemaVersion : result.statsSchemaVersion = spec.statsSchemaVersion

section Workers

variable {kernels : RunSpec → Result (ModelKernel Binary64)} {spec : RunSpec}
  {config : EngineConfig} {missing : List ScenarioBlock}
  {specHash layoutHash buildFingerprint : Sha256Digest}

/-- The payload hash rejects an invalid aggregate, and the count is right by construction. -/
theorem AggregateStats.invariantError_some {a : AggregateStats Binary64} {n : UInt64}
    (h : a.invariantError = none) (hn : a.n = n) : a.invariantError (some n) = none := by
  subst hn
  simpa [invariantError] using h

theorem madeOf_of_work (hs : spec.Accepted) {index : ℕ} {block : ScenarioBlock}
    {result : BlockResult}
    (h : (executionJob kernels spec config missing specHash layoutHash buildFingerprint).work index
      block = .ok result) :
    result.MadeOf kernels spec specHash layoutHash buildFingerprint block := by
  obtain ⟨kernel, hkernel, h⟩ := Result.bind_eq_ok.mp h
  obtain ⟨aggregate, haggregate, h⟩ := Result.bind_eq_ok.mp h
  obtain ⟨checksum, hchecksum, h⟩ := Result.bind_eq_ok.mp h
  cases h
  have hvalid := (aggregatePayloadHash_eq_ok.mp hchecksum).2.1
  refine ⟨rfl, ?_, ?_, rfl, rfl, rfl, hchecksum, rfl, rfl⟩
  · rw [computeBlock, hkernel]
    exact haggregate
  · exact AggregateStats.invariantError_some hvalid (computeBlockWithKernel_n hs haggregate)

@[simp] theorem executionJob_missing :
    (executionJob kernels spec config missing specHash layoutHash buildFingerprint).missing =
      missing := rfl

theorem executionJob_labelled :
    (executionJob kernels spec config missing specHash layoutHash buildFingerprint).Labelled := by
  intro index block result h
  obtain ⟨kernel, -, h⟩ := Result.bind_eq_ok.mp h
  obtain ⟨aggregate, -, h⟩ := Result.bind_eq_ok.mp h
  obtain ⟨checksum, -, h⟩ := Result.bind_eq_ok.mp h
  cases h
  rfl

/-- The coordinator accepts what a worker made of one of its blocks, once. -/
theorem BlockResult.MadeOf.acceptedBy {state : CoordinatorState} {block : ScenarioBlock}
    {result : BlockResult}
    (h : result.MadeOf kernels spec state.runSpecHash state.executionLayoutHash
      state.buildFingerprint block)
    (hrng : state.rngVersion = spec.rngVersion)
    (hstats : state.statsSchemaVersion = spec.statsSchemaVersion)
    (hanti : state.antithetic = spec.antithetic)
    (hblock : state.blocks[block.blockId.toNat]? = some block)
    (hincarnation : block.runIncarnation = state.runIncarnation)
    (hfresh : (state.committedPayloads[block.blockId.toNat]?).join = none) :
    AcceptedBy state result where
  runSpecHash := h.runSpecHash
  executionLayoutHash := h.executionLayoutHash
  buildFingerprint := h.buildFingerprint
  runIncarnation := by rw [h.block_eq, hincarnation]
  rngVersion := by rw [h.rngVersion, hrng]
  statsSchemaVersion := by rw [h.statsSchemaVersion, hstats]
  expected := by
    rw [h.block_eq, hanti]
    exact ⟨block, hblock, rfl, rfl, rfl, h.valid⟩
  checksum := by rw [h.statsSchemaVersion]; exact h.checksum
  fresh := by rw [h.block_eq]; exact hfresh

end Workers

/-! ## Lists of blocks -/

/-- Each block stands at the position of its number. -/
def Positioned (blocks : List ScenarioBlock) : Prop :=
  ∀ i (hi : i < blocks.length), blocks[i].blockId.toNat = i

theorem CanonicalBlocks.positioned {spec : RunSpec} {blockSize incarnation : UInt64}
    {blocks : List ScenarioBlock} (hc : CanonicalBlocks spec blockSize incarnation blocks) :
    Positioned blocks := by
  intro i hi
  rw [(hc.get i hi).1, UInt64.toNat_ofNat']
  exact Nat.mod_eq_of_lt (index_lt_word (by rw [← hc.length_eq]; exact hi))

theorem Positioned.getElem?_blockId {blocks : List ScenarioBlock} (hp : Positioned blocks)
    {block : ScenarioBlock} (h : block ∈ blocks) : blocks[block.blockId.toNat]? = some block := by
  obtain ⟨i, hi, rfl⟩ := List.mem_iff_getElem.mp h
  rw [hp i hi]
  exact List.getElem?_eq_getElem hi

theorem Positioned.nodup {blocks : List ScenarioBlock} (hp : Positioned blocks) : blocks.Nodup := by
  rw [List.nodup_iff_injective_getElem]
  rintro ⟨i, hi⟩ ⟨j, hj⟩ h
  have := congrArg (·.blockId.toNat) h
  simp only [hp i hi, hp j hj] at this
  exact Fin.ext this

theorem missingBlocks_sublist (blocks : List ScenarioBlock) (received : List Bool) :
    (missingBlocks blocks received).Sublist blocks := by
  unfold missingBlocks
  induction blocks generalizing received with
  | nil => simp
  | cons block rest ih =>
    cases received with
    | nil => simp
    | cons bit bits =>
      rw [List.zip_cons_cons, List.filter_cons]
      cases bit with
      | true => exact (ih bits).cons _
      | false => exact (ih bits).cons_cons _

@[simp] theorem missingBlocks_none (blocks : List ScenarioBlock) :
    missingBlocks blocks (List.replicate blocks.length false) = blocks := by
  induction blocks with
  | nil => rfl
  | cons block rest ih =>
    simp only [missingBlocks, List.length_cons, List.replicate_succ, List.zip_cons_cons,
      List.filter_cons, Bool.not_false, ↓reduceIte, List.map_cons, List.cons.injEq, true_and]
    exact ih

/-! ## Collecting the results -/

section Collecting

variable {kernels : RunSpec → Result (ModelKernel Binary64)} {spec : RunSpec}
  {config : EngineConfig} {coordinator : CoordinatorState} {consumed : List BlockResult}

/-- The captured variables after some results: the blocks of these results are received, their
leaves are the computed blocks, and nothing else is committed. -/
structure ParallelState.Collects (kernels : RunSpec → Result (ModelKernel Binary64))
    (spec : RunSpec) (coordinator : CoordinatorState) (consumed : List BlockResult)
    (state : ParallelState) : Prop where
  coordinator_eq : state.coordinator =
    { coordinator with committedPayloads := state.coordinator.committedPayloads }
  leaves_length : state.leaves.length = coordinator.blocks.length
  received_length : state.received.length = coordinator.blocks.length
  consumed_mem : ∀ block ∈ consumed.map (·.block), block ∈ coordinator.blocks
  collected : ∀ block ∈ consumed.map (·.block),
    state.received[block.blockId.toNat]? = some true ∧
      ∃ leaf, state.leaves[block.blockId.toNat]? = some leaf ∧
        computeBlock kernels spec block = .ok leaf
  fresh : ∀ block ∈ coordinator.blocks, block ∉ consumed.map (·.block) →
    (state.coordinator.committedPayloads[block.blockId.toNat]?).join = none

/-- What the coordinator of a run of `spec` looks like. -/
structure CoordinatorState.Serves (coordinator : CoordinatorState) (spec : RunSpec) : Prop where
  rngVersion : coordinator.rngVersion = spec.rngVersion
  statsSchemaVersion : coordinator.statsSchemaVersion = spec.statsSchemaVersion
  antithetic : coordinator.antithetic = spec.antithetic
  positioned : Positioned coordinator.blocks
  incarnation : ∀ block ∈ coordinator.blocks, block.runIncarnation = coordinator.runIncarnation

/-- One call of `consume_result` with a worker's result of a block that is not consumed yet. -/
theorem ParallelState.Collects.step {state : ParallelState} (hserves : coordinator.Serves spec)
    (hcollects : state.Collects kernels spec coordinator consumed)
    {block : ScenarioBlock} {result : BlockResult}
    (hmade : result.MadeOf kernels spec coordinator.runSpecHash coordinator.executionLayoutHash
      coordinator.buildFingerprint block)
    (hmem : block ∈ coordinator.blocks) (hnew : block ∉ consumed.map (·.block)) :
    (consumeParallel result state).1 = .ok () ∧
      (consumeParallel result state).2.Collects kernels spec coordinator (consumed ++ [result]) := by
  have hposition := hserves.positioned.getElem?_blockId hmem
  have hlt : block.blockId.toNat < coordinator.blocks.length :=
    (List.getElem?_eq_some_iff.mp hposition).1
  have haccepted : AcceptedBy state.coordinator result := by
    have hc := hcollects.coordinator_eq
    have hmade' : result.MadeOf kernels spec state.coordinator.runSpecHash
        state.coordinator.executionLayoutHash state.coordinator.buildFingerprint block := by
      rw [hc]; exact hmade
    refine hmade'.acceptedBy ?_ ?_ ?_ ?_ ?_ (hcollects.fresh block hmem hnew)
    · rw [hc]; exact hserves.rngVersion
    · rw [hc]; exact hserves.statsSchemaVersion
    · rw [hc]; exact hserves.antithetic
    · rw [hc]; exact hposition
    · rw [hc]; exact hserves.incarnation block hmem
  have hresult : consumeParallel result state = (.ok (),
      { coordinator := { state.coordinator with committedPayloads :=
          state.coordinator.committedPayloads.set block.blockId.toNat (some result.payloadChecksum) }
        leaves := state.leaves.set block.blockId.toNat result.aggregate
        received := state.received.set block.blockId.toNat true }) := by
    rw [consumeParallel, commitResult_of_valid haccepted, hmade.block_eq]
    simp
  rw [hresult]
  have hother : ∀ other ∈ coordinator.blocks, other ≠ block →
      other.blockId.toNat ≠ block.blockId.toNat := by
    intro other hother hne heq
    have hsame := hserves.positioned.getElem?_blockId hother
    rw [heq, hposition] at hsame
    exact hne (Option.some.inj hsame).symm
  refine ⟨rfl, ?_, ?_, ?_, ?_, ?_, ?_⟩
  · rw [hcollects.coordinator_eq]
  · simpa using hcollects.leaves_length
  · simpa using hcollects.received_length
  · intro other hmap
    simp only [List.map_append, List.map_singleton, List.mem_append, List.mem_singleton,
      hmade.block_eq] at hmap
    rcases hmap with hold | rfl
    · exact hcollects.consumed_mem other hold
    · exact hmem
  · intro other hmap
    simp only [List.map_append, List.map_singleton, List.mem_append, List.mem_singleton,
      hmade.block_eq] at hmap
    rcases hmap with hold | rfl
    · have hne := hother other (hcollects.consumed_mem other hold) (fun h => hnew (h ▸ hold))
      rw [List.getElem?_set_ne (Ne.symm hne), List.getElem?_set_ne (Ne.symm hne)]
      exact hcollects.collected other hold
    · rw [List.getElem?_set_self (by rw [hcollects.received_length]; exact hlt),
        List.getElem?_set_self (by rw [hcollects.leaves_length]; exact hlt)]
      exact ⟨rfl, _, rfl, hmade.aggregate⟩
  · intro other hmem' hnot
    simp only [List.map_append, List.map_singleton, List.mem_append, List.mem_singleton,
      hmade.block_eq, not_or] at hnot
    simp only [List.getElem?_set_ne (Ne.symm (hother other hmem' hnot.2))]
    exact hcollects.fresh other hmem' hnot.1

theorem ParallelState.collects_initial (hpayloads : coordinator.committedPayloads =
    List.replicate coordinator.blocks.length none) :
    (ParallelState.initial coordinator coordinator.blocks.length).Collects kernels spec coordinator
      [] := by
  refine ⟨rfl, by simp [initial], by simp [initial], by simp, by simp, ?_⟩
  intro block _ _
  simp only [initial, hpayloads, List.getElem?_replicate]
  split <;> rfl

/-- Computing the blocks in order gives the leaves, if each leaf is its block's. -/
theorem mapM_computeBlock {blocks : List ScenarioBlock} {leaves : List (AggregateStats Binary64)}
    (h : List.Forall₂ (fun block leaf => computeBlock kernels spec block = .ok leaf) blocks leaves) :
    blocks.mapM (computeBlock kernels spec) = .ok leaves := by
  induction h with
  | nil => rfl
  | cons hhead _ ih => rw [List.mapM_cons, hhead, ih]; rfl

/-- Once every block is consumed, everything is received and the leaves are the computed
blocks in the order of their numbers. -/
theorem ParallelState.Collects.complete {state : ParallelState} (hserves : coordinator.Serves spec)
    (hcollects : state.Collects kernels spec coordinator consumed)
    (hall : ∀ block ∈ coordinator.blocks, block ∈ consumed.map (·.block)) :
    state.received.any (!·) = false ∧
      coordinator.blocks.mapM (computeBlock kernels spec) = .ok state.leaves := by
  have hat : ∀ i (hi : i < coordinator.blocks.length), state.received[i]? = some true ∧
      ∃ leaf, state.leaves[i]? = some leaf ∧
        computeBlock kernels spec coordinator.blocks[i] = .ok leaf := by
    intro i hi
    have := hcollects.collected _ (hall _ (List.getElem_mem hi))
    rwa [hserves.positioned i hi] at this
  constructor
  · rw [List.any_eq_false]
    intro bit hbit
    obtain ⟨i, hi, rfl⟩ := List.mem_iff_getElem.mp hbit
    have := (hat i (by rw [← hcollects.received_length]; exact hi)).1
    rw [List.getElem?_eq_getElem hi] at this
    simp [Option.some.inj this]
  · apply mapM_computeBlock
    rw [List.forall₂_iff_get]
    refine ⟨hcollects.leaves_length.symm, ?_⟩
    intro i hi hleaf
    obtain ⟨-, leaf, hget, hcompute⟩ := hat i hi
    rw [List.getElem?_eq_getElem hleaf] at hget
    rw [List.get_eq_getElem, List.get_eq_getElem, Option.some.inj hget]
    exact hcompute

end Collecting

/-! ## Every schedule -/

section Schedules

variable {kernels : RunSpec → Result (ModelKernel Binary64)} {spec : RunSpec}
  {config : EngineConfig} {κ : Type} {consume : BlockResult → κ → Result Unit × κ} {sink : κ}

/-- However a call of `execute_missing_blocks` ends: without exceptions every missing block was
consumed once, and with one the call throws. -/
theorem ExecutesMissing.exactlyOnce {blocks : List ScenarioBlock} {received : List Bool}
    {specHash layoutHash buildFingerprint : Sha256Digest} {ending : Ending κ}
    (hworkers : 0 < config.workerCount)
    (h : ExecutesMissing kernels spec config blocks received specHash layoutHash buildFingerprint
      consume sink ending) :
    (ending.thrown = false → (ending.consumed.map (·.block)).Perm (missingBlocks blocks received) ∧
        ending.outcome = .ok (min config.workerCount (missingBlocks blocks received).length)) ∧
      (ending.thrown = true → ∃ error, ending.outcome = .error error) := by
  cases h with
  | mismatch hlength => exact ⟨nofun, fun _ => ⟨_, rfl⟩⟩
  | execute hlength hexecutes =>
    cases hexecutes with
    | nothing hmissing =>
      refine ⟨fun _ => ?_, fun ht => by cases ht⟩
      rw [show missingBlocks blocks received = [] from hmissing]
      simp
    | @run outcome state hmissing hreach hreturned =>
      have hl := Execution.lawful_of_reaches executionJob_labelled hreach
      refine ⟨fun ht => ?_, fun ht => hl.accounted.error hl.staged ht hreturned⟩
      have hpos : 0 < min config.workerCount (missingBlocks blocks received).length :=
        Nat.lt_min.mpr ⟨hworkers, List.length_pos_iff.mpr hmissing⟩
      exact hl.consumed_of_returned hpos ht hreturned

end Schedules

theorem EngineConfig.workerCount_pos {spec : RunSpec} {config : EngineConfig}
    (h : config.validate spec = .ok ()) : 0 < config.workerCount := by
  obtain ⟨⟨⟩, hcount, -⟩ := Result.bind_eq_ok.mp h
  simp only [throwIf_eq_ok, decide_eq_false_iff_not] at hcount
  omega

theorem runSpecHash_of_validate {spec : RunSpec} (h : spec.validate = .ok ()) :
    runSpecHash spec = .ok (sha256 (runSpecBytes spec)) := by
  rw [runSpecHash, encodeRunSpecPayload, h]
  rfl

/-- A layout that `make_blocks` accepts has a hash. -/
theorem executionLayoutHash_of_makeBlocks {spec : RunSpec} {config : EngineConfig}
    {blocks : List ScenarioBlock} (h : makeBlocks spec config = .ok blocks) :
    ∃ digest, executionLayoutHash spec config = .ok digest := by
  obtain ⟨hspec, hconfig, -, hlimit, -⟩ := makeBlocks_eq_ok h
  have hlt : ¬ config.maxMaterializedBlocks < blockCount spec config.blockSize :=
    UInt64.not_lt.mpr hlimit
  simp only [executionLayoutHash, encodeExecutionLayoutPayload, hspec, hconfig, hlt,
    runSpecHash_of_validate hspec, decide_false, throwIf_false, Result.ok_bind]
  exact ⟨_, rfl⟩

section Parallel

variable {kernels : RunSpec → Result (ModelKernel Binary64)} {build : BuildIdentity}
  {spec : RunSpec} {config : EngineConfig}

/-- The coordinator of `run_parallel`. -/
theorem makeCoordinatorState_of_makeBlocks (build : BuildIdentity) {blocks : List ScenarioBlock}
    (hblocks : makeBlocks spec config = .ok blocks) :
    ∃ coordinator, makeCoordinatorState build spec config blocks = .ok coordinator ∧
      coordinator.Serves spec ∧ coordinator.blocks = blocks ∧
      coordinator.committedPayloads = List.replicate blocks.length none := by
  have hcanonical := canonicalBlocks_of_makeBlocks hblocks
  obtain ⟨hspec, hconfig, -⟩ := makeBlocks_eq_ok hblocks
  obtain ⟨layoutHash, hlayout⟩ := executionLayoutHash_of_makeBlocks hblocks
  refine ⟨_, makeCoordinatorState_of_canonical hspec hconfig hcanonical
    (runSpecHash_of_validate hspec) hlayout, ⟨rfl, rfl, rfl, hcanonical.positioned, ?_⟩, rfl, rfl⟩
  intro block hblock
  obtain ⟨i, hi, rfl⟩ := List.mem_iff_getElem.mp hblock
  exact (hcanonical.get i hi).2.2.2.1

/-- The captured variables as long as nothing has been thrown. -/
theorem collects_of_reaches {coordinator : CoordinatorState} (hs : spec.Accepted)
    (hserves : coordinator.Serves spec)
    (hpayloads : coordinator.committedPayloads = List.replicate coordinator.blocks.length none)
    {state : Execution (executionJob kernels spec config coordinator.blocks coordinator.runSpecHash
      coordinator.executionLayoutHash coordinator.buildFingerprint) ParallelState}
    (hreach : Execution.Reaches consumeParallel
      (.initial coordinator coordinator.blocks.length) state)
    (ht : state.thrown = false) :
    state.sink.Collects kernels spec coordinator state.consumed := by
  have hcarried := Execution.sink_invariant (R := fun _ => False)
    (P := fun consumed sink => sink.Collects kernels spec coordinator consumed)
    executionJob_labelled hserves.positioned.nodup (ParallelState.collects_initial hpayloads)
    (by
      intro consumed result now hcollects hmem hnew hwork
      obtain ⟨i, hwork⟩ := hwork
      obtain ⟨hok, hnext⟩ := hcollects.step hserves (madeOf_of_work hs hwork) hmem hnew
      exact ⟨fun _ => hnext, fun error herror => by rw [hok] at herror; cases herror⟩)
    hreach
  rcases hcarried with hP | ⟨hthrown, -⟩
  · exact hP
  · rw [ht] at hthrown
    cases hthrown

/-- The captured variables that an interleaving without exceptions leaves behind. -/
theorem collects_of_executes {coordinator : CoordinatorState} {ending : Ending ParallelState}
    (hs : spec.Accepted) (hserves : coordinator.Serves spec)
    (hpayloads : coordinator.committedPayloads = List.replicate coordinator.blocks.length none)
    (h : ExecutesMissing kernels spec config coordinator.blocks
      (List.replicate coordinator.blocks.length false) coordinator.runSpecHash
      coordinator.executionLayoutHash coordinator.buildFingerprint consumeParallel
      (.initial coordinator coordinator.blocks.length) ending)
    (ht : ending.thrown = false) :
    ending.sink.Collects kernels spec coordinator ending.consumed := by
  cases h with
  | mismatch hlength => cases ht
  | execute hlength hexecutes =>
    rw [missingBlocks_none] at hexecutes
    cases hexecutes with
    | nothing hmissing => exact ParallelState.collects_initial hpayloads
    | run hmissing hreach hreturned => exact collects_of_reaches hs hserves hpayloads hreach ht

/-- `run_parallel` on any schedule. -/
theorem RunParallel.outcome_eq {thrown : Bool} {outcome : Result RunResult}
    (h : RunParallel kernels build spec config thrown outcome) :
    (thrown = false → outcome = runParallelResult kernels spec config) ∧
      (thrown = true → ∃ error, outcome = .error error) := by
  cases h with
  | rejected h =>
    refine ⟨fun _ => ?_, fun ht => by cases ht⟩
    rcases hblocks : makeBlocks spec config with error | blocks
    · rw [hblocks] at h
      cases h
      rw [runParallelResult, hblocks]
      rfl
    · obtain ⟨coordinator, hcoordinator, -⟩ := makeCoordinatorState_of_makeBlocks build
        hblocks
      rw [hblocks, Result.ok_bind, hcoordinator] at h
      cases h
  | @run blocks coordinator ending hblocks hcoordinator hexecutes =>
    obtain ⟨coordinator', hcoordinator', hserves, rfl, hpayloads⟩ :=
      makeCoordinatorState_of_makeBlocks build hblocks
    rw [hcoordinator] at hcoordinator'
    cases hcoordinator'
    obtain ⟨hspec, hconfig, -⟩ := makeBlocks_eq_ok hblocks
    obtain ⟨hquiet, herror⟩ := hexecutes.exactlyOnce (EngineConfig.workerCount_pos hconfig)
    constructor
    · intro ht
      obtain ⟨hperm, houtcome⟩ := hquiet ht
      rw [missingBlocks_none] at hperm houtcome
      have hcollects := collects_of_executes (RunSpec.accepted_of_validate hspec) hserves hpayloads
        hexecutes ht
      obtain ⟨hreceived, hleaves⟩ := hcollects.complete hserves
        (fun block hblock => hperm.symm.subset hblock)
      rw [finishParallel, houtcome, hreceived, runParallelResult, hblocks]
      simp only [Result.ok_bind, throwIf_false, reduceComputedBlocks, hleaves]
    · intro ht
      obtain ⟨error, houtcome⟩ := herror ht
      exact ⟨error, by rw [finishParallel, houtcome]; rfl⟩

end Parallel

theorem queueCapacity_pos (configured workers : ℕ) : 0 < queueCapacity configured workers := by
  unfold queueCapacity
  split <;> omega

theorem makeBlocks_ne_nil {spec : RunSpec} {config : EngineConfig} {blocks : List ScenarioBlock}
    (h : makeBlocks spec config = .ok blocks) : blocks ≠ [] := by
  obtain ⟨hspec, -, -, -, rfl⟩ := makeBlocks_eq_ok h
  rw [ne_eq, List.map_eq_nil_iff, List.range_eq_nil,
    blockCount_toNat (RunSpec.accepted_of_validate hspec)]
  exact (Nat.add_pos_left Nat.zero_lt_one _).ne'

section Parallel
variable {kernels : RunSpec → Result (ModelKernel Binary64)} {build : BuildIdentity}
  {spec : RunSpec} {config : EngineConfig}

/-- If every block can be computed, some schedule of `run_parallel` throws nothing. -/
theorem exists_quiet_ending (build : BuildIdentity)
    (kernels : RunSpec → Result (ModelKernel Binary64)) {kernel : ModelKernel Binary64} {blocks : List ScenarioBlock}
    (hkernel : kernels spec = .ok kernel) (hblocks : makeBlocks spec config = .ok blocks)
    (hcompute : ∀ block ∈ blocks, ∃ a, computeBlockWithKernel kernel spec block = .ok a ∧
      a.invariantError = none) :
    ∃ coordinator ending, makeCoordinatorState build spec config blocks = .ok coordinator ∧
      ExecutesMissing kernels spec config blocks (List.replicate blocks.length false)
        coordinator.runSpecHash coordinator.executionLayoutHash coordinator.buildFingerprint
        consumeParallel (.initial coordinator blocks.length) ending ∧ ending.thrown = false := by
  obtain ⟨hspec, hconfig, -⟩ := makeBlocks_eq_ok hblocks
  have hs := RunSpec.accepted_of_validate hspec
  obtain ⟨coordinator, hcoordinator, hserves, rfl, hpayloads⟩ :=
    makeCoordinatorState_of_makeBlocks build hblocks
  have hwork : ∀ index, ∀ block ∈ coordinator.blocks,
      ∃ result, (executionJob kernels spec config coordinator.blocks coordinator.runSpecHash
        coordinator.executionLayoutHash coordinator.buildFingerprint).work index block
          = .ok result := by
    intro index block hblock
    obtain ⟨a, ha, hvalid⟩ := hcompute block hblock
    have hhash := aggregatePayloadHash_eq_ok.mpr ⟨hs.stats, hvalid, rfl⟩
    exact ⟨_, by
      simp only [executionJob, workerResult, hkernel, ha, hhash, Result.ok_bind]
      rfl⟩
  have hnonempty := makeBlocks_ne_nil hblocks
  have hpos : 0 < min config.workerCount coordinator.blocks.length :=
    Nat.lt_min.mpr ⟨EngineConfig.workerCount_pos hconfig, List.length_pos_iff.mpr hnonempty⟩
  obtain ⟨state, outcome, hreach, hreturned, hquiet⟩ := Execution.exists_returned
    (executionJob kernels spec config coordinator.blocks coordinator.runSpecHash
      coordinator.executionLayoutHash coordinator.buildFingerprint)
    consumeParallel (.initial coordinator coordinator.blocks.length)
    hpos (queueCapacity_pos _ _) (queueCapacity_pos _ _) (by
      intro state hreach hquiet hfailing
      have hl := Execution.lawful_of_reaches executionJob_labelled hreach
      rcases hfailing with ⟨error, hstart⟩ | ⟨i, block, error, hi, herror⟩ | ⟨result, error, hc, he⟩
      · simp only [executionJob, hkernel] at hstart
        cases hstart
      · obtain ⟨result, hresult⟩ := hwork i block (hl.held_mem (i := i) (by
          rw [hi]
          exact Multiset.mem_singleton_self block))
        rw [hresult] at herror
        cases herror
      · obtain ⟨hmem, hnew, i, hmade⟩ := hl.inHand hserves.positioned.nodup hc
        have hcollects := collects_of_reaches hs hserves hpayloads hreach hquiet
        have hok := (hcollects.step hserves (madeOf_of_work hs hmade) hmem hnew).1
        rw [hok] at he
        cases he)
  refine ⟨coordinator, ⟨outcome, state.consumed, state.thrown, state.sink⟩, hcoordinator,
    .execute (by simp) ?_, hquiet⟩
  rw [missingBlocks_none]
  exact .run hnonempty hreach hreturned

end Parallel

/-- **Exactly-once delivery and schedule independence.**  Every interleaving of
`execute_missing_blocks` ends.  If no thread threw, each missing block was consumed once and
nothing else was; otherwise the call throws.  `run_parallel` returns what computing the blocks
in order and reducing them over the fixed tree gives, unless a thread threw. -/
theorem runParallel_exactly_once (kernels : RunSpec → Result (ModelKernel Binary64))
    (build : BuildIdentity) (spec : RunSpec) (config : EngineConfig) :
    (∀ (κ : Type) (consume : BlockResult → κ → Result Unit × κ) (sink : κ)
      (blocks : List ScenarioBlock) (received : List Bool)
      (specHash layoutHash buildFingerprint : Sha256Digest), 0 < config.workerCount →
      (missingBlocks blocks received ≠ [] →
        let job := executionJob kernels spec config (missingBlocks blocks received) specHash
          layoutHash buildFingerprint
        (WellFounded fun after before : Execution job κ => Execution.Step consume before after) ∧
          ∀ state : Execution job κ, Execution.Reaches consume sink state →
            (∃ outcome, state.coordinator = .returned outcome) ∨ Execution.Moves consume state) ∧
      ∀ ending, ExecutesMissing kernels spec config blocks received specHash layoutHash
          buildFingerprint consume sink ending →
        (ending.thrown = false →
          (ending.consumed.map (·.block)).Perm (missingBlocks blocks received) ∧
            ending.outcome = .ok (min config.workerCount (missingBlocks blocks received).length)) ∧
        (ending.thrown = true → ∃ error, ending.outcome = .error error)) ∧
    ∀ thrown outcome, RunParallel kernels build spec config thrown outcome →
      (thrown = false → outcome = runParallelResult kernels spec config) ∧
        (thrown = true → ∃ error, outcome = .error error) := by
  refine ⟨?_, fun thrown outcome h => h.outcome_eq⟩
  intro κ consume sink blocks received specHash layoutHash buildFingerprint hworkers
  refine ⟨fun hmissing => ?_, fun ending h => h.exactlyOnce hworkers⟩
  refine ⟨Execution.step_wellFounded _ consume, fun state hreach => ?_⟩
  exact Execution.progress (Nat.lt_min.mpr ⟨hworkers, List.length_pos_iff.mpr hmissing⟩)
    (queueCapacity_pos _ _) (queueCapacity_pos _ _) hreach

/-- A kernel under which every scenario pays one. -/
def unitKernel : ModelKernel Binary64 := ⟨fun _ => .ok 1, fun _ => .ok 1⟩

/-- Three scenarios in blocks of two, for two workers. -/
def threeScenarios : RunSpec := { RunSpec.defaults with totalScenarios := 3 }

def twoWorkers : EngineConfig := { EngineConfig.defaults with workerCount := 2, blockSize := 2 }

theorem makeBlocks_threeScenarios :
    makeBlocks threeScenarios twoWorkers = .ok [⟨0, 0, 2, 0, 1⟩, ⟨1, 2, 3, 0, 1⟩] := by
  decide +kernel

theorem computeBlock_threeScenarios :
    ∀ block ∈ [(⟨0, 0, 2, 0, 1⟩ : ScenarioBlock), ⟨1, 2, 3, 0, 1⟩],
      ∃ a, computeBlockWithKernel unitKernel threeScenarios block = .ok a ∧
        a.invariantError = none := by
  intro block hblock
  rcases List.mem_pair.mp hblock with rfl | rfl
  · exact ⟨⟨2, 1, 0, 1, 1⟩, by decide +kernel, by decide +kernel⟩
  · exact ⟨⟨1, 1, 0, 1, 1⟩, by decide +kernel, by decide +kernel⟩

/-- Two workers on three scenarios: both blocks are delivered once, and the run returns their
merged statistics. -/
theorem runParallel_exactly_once_three_scenarios :
    ∃ (coordinator : CoordinatorState) (ending : Ending ParallelState),
      ExecutesMissing (fun _ => .ok unitKernel) threeScenarios twoWorkers
        [⟨0, 0, 2, 0, 1⟩, ⟨1, 2, 3, 0, 1⟩] [false, false] coordinator.runSpecHash
        coordinator.executionLayoutHash coordinator.buildFingerprint consumeParallel
        (.initial coordinator 2) ending ∧
      (ending.consumed.map (·.block)).Perm [⟨0, 0, 2, 0, 1⟩, ⟨1, 2, 3, 0, 1⟩] ∧
      RunParallel (fun _ => .ok unitKernel) ⟨[]⟩ threeScenarios twoWorkers false
        (.ok ⟨⟨3, 1, 0, 1, 1⟩, 3, 2, 2⟩) := by
  obtain ⟨coordinator, ending, hcoordinator, hexecutes, hquiet⟩ := exists_quiet_ending
    ⟨[]⟩ (fun _ => .ok unitKernel) rfl makeBlocks_threeScenarios computeBlock_threeScenarios
  have hrun := RunParallel.run makeBlocks_threeScenarios hcoordinator hexecutes
  have hresult := ((runParallel_exactly_once (fun _ => .ok unitKernel) ⟨[]⟩ threeScenarios
    twoWorkers).2 _ _ hrun).1 hquiet
  rw [hquiet, hresult] at hrun
  refine ⟨coordinator, ending, hexecutes, ?_, ?_⟩
  · exact ((((runParallel_exactly_once (fun _ => .ok unitKernel) ⟨[]⟩ threeScenarios
      twoWorkers).1 _ consumeParallel _ _ _ _ _ _ (by decide)).2 ending hexecutes).1 hquiet).1
  · have hvalue : runParallelResult (fun _ => .ok unitKernel) threeScenarios twoWorkers =
        .ok ⟨⟨3, 1, 0, 1, 1⟩, 3, 2, 2⟩ := by decide +kernel
    rwa [hvalue] at hrun

end MonteCarlo
