import MonteCarlo.Codec

/-!
# The coordinator

`coordinator.cpp`: the state against which block results are judged, the
ordered checks of `validateResult`, and `commitResult`.

* `makeCoordinatorState_of_makeBlocks` — the universe built by `makeBlocks`,
  under any common incarnation and nonzero leases, is accepted.
* `validateResult_accepted` — what a verdict `Accepted` has checked.
* `validateResult_of_valid` — and when it is given.
-/

namespace MonteCarlo

/-- `ValidationStatus`. -/
inductive ValidationStatus where
  | accepted
  | duplicate
  | invalidRun
  | executionLayoutMismatch
  | buildMismatch
  | staleIncarnation
  | rngVersionMismatch
  | statsSchemaMismatch
  | invalidAggregate
  | corruptPayload
  | invalidBlock
  | staleLease
  | determinismError
  deriving DecidableEq, Repr

/-- `Validation`. -/
structure Validation where
  status : ValidationStatus
  reason : String
  deriving DecidableEq, Repr

/-- `CoordinatorState`. -/
structure CoordinatorState where
  runSpecHash : Sha256Digest
  executionLayoutHash : Sha256Digest
  buildFingerprint : Sha256Digest
  runIncarnation : UInt64
  rngVersion : UInt64
  statsSchemaVersion : UInt32
  antithetic : Bool
  blocks : List ScenarioBlock
  committedPayloads : List (Option Sha256Digest)
  deriving DecidableEq, Repr

/-- An exception of `make_coordinator_state`. -/
def coordinatorInvalid (what : String) : Exception := ⟨.invalidArgument, .makeCoordinatorState, what⟩

/-- The loop of `make_coordinator_state` from block `index` on; returns the final
`expected_start`. -/
def checkUniverse (spec : RunSpec) (blockSize incarnation : UInt64) :
    ℕ → UInt64 → List ScenarioBlock → Result UInt64
  | _, expectedStart, [] => .ok expectedStart
  | index, expectedStart, block :: rest => do
    let expectedEnd := expectedStart + minWord blockSize (spec.totalScenarios - expectedStart)
    throwIf (block.blockId.toNat ≠ index || block.startScenario ≠ expectedStart
        || block.endScenario ≠ expectedEnd || block.endScenario ≤ block.startScenario)
      (coordinatorInvalid "coordinator block universe is not contiguous and canonical")
    throwIf (block.runIncarnation ≠ incarnation || block.leaseEpoch = 0)
      (coordinatorInvalid "coordinator block universe has inconsistent lease identity")
    throwIf (spec.antithetic
        && (block.startScenario % 2 ≠ 0 || block.endScenario % 2 ≠ 0))
      (coordinatorInvalid "coordinator block universe splits an antithetic pair")
    checkUniverse spec blockSize incarnation (index + 1) expectedEnd rest

/-- `make_coordinator_state`. -/
def makeCoordinatorState (build : BuildIdentity) (spec : RunSpec) (config : EngineConfig)
    (blocks : List ScenarioBlock) : Result CoordinatorState := do
  spec.validate
  config.validate spec
  throwIf (blocks.length ≠ (blockCount spec config.blockSize).toNat)
    (coordinatorInvalid "coordinator block universe has the wrong size")
  match blocks with
  | [] => .error (coordinatorInvalid "coordinator block universe must not be empty")
  | first :: _ => do
    let incarnation := first.runIncarnation
    let covered ← checkUniverse spec config.blockSize incarnation 0 0 blocks
    throwIf (covered ≠ spec.totalScenarios)
      (coordinatorInvalid "coordinator block universe does not cover every scenario")
    let specHash ← MonteCarlo.runSpecHash spec
    let layoutHash ← MonteCarlo.executionLayoutHash spec config
    pure
      { runSpecHash := specHash
        executionLayoutHash := layoutHash
        buildFingerprint := build.hash
        runIncarnation := incarnation
        rngVersion := spec.rngVersion
        statsSchemaVersion := spec.statsSchemaVersion
        antithetic := spec.antithetic
        blocks := blocks
        committedPayloads := List.replicate blocks.length none }

/-- The last checks of `validate_result`, for a result of an existing block whose
payload is intact: what was committed before, then the lease. -/
def classifyCommit (committed : Option Sha256Digest) (result : BlockResult)
    (expected : ScenarioBlock) : Validation :=
  match committed with
  | some checksum =>
    if checksum = result.payloadChecksum then
      ⟨.duplicate, "matching block payload is already committed"⟩
    else ⟨.determinismError, "committed block has a conflicting payload checksum"⟩
  | none =>
    if result.block.leaseEpoch ≠ expected.leaseEpoch then
      ⟨.staleLease, "block lease epoch is stale"⟩
    else ⟨.accepted, "result is valid"⟩

/-- `validate_result`. -/
def validateResult (result : BlockResult) (state : CoordinatorState) : Result Validation :=
  if result.runSpecHash ≠ state.runSpecHash then
    .ok ⟨.invalidRun, "run specification hash mismatch"⟩
  else if result.executionLayoutHash ≠ state.executionLayoutHash then
    .ok ⟨.executionLayoutMismatch, "execution layout hash mismatch"⟩
  else if result.buildFingerprint ≠ state.buildFingerprint then
    .ok ⟨.buildMismatch, "build fingerprint mismatch"⟩
  else if result.block.runIncarnation ≠ state.runIncarnation then
    .ok ⟨.staleIncarnation, "run incarnation is stale"⟩
  else if result.rngVersion ≠ state.rngVersion then
    .ok ⟨.rngVersionMismatch, "RNG version mismatch"⟩
  else if result.statsSchemaVersion ≠ state.statsSchemaVersion then
    .ok ⟨.statsSchemaMismatch, "statistics schema version mismatch"⟩
  else
    match state.blocks[result.block.blockId.toNat]? with
    | none => .ok ⟨.invalidBlock, "block ID is outside the run"⟩
    | some expected =>
      if result.block.startScenario ≠ expected.startScenario
          ∨ result.block.endScenario ≠ expected.endScenario then
        .ok ⟨.invalidBlock, "block scenario range mismatch"⟩
      else
        match result.aggregate.invariantError
            (some (expectedObservations state.antithetic expected)) with
        | some error => .ok ⟨.invalidAggregate, error⟩
        | none => do
          let computed ← aggregatePayloadHash result.aggregate result.statsSchemaVersion
          if computed ≠ result.payloadChecksum then
            pure ⟨.corruptPayload, "aggregate payload does not match its SHA-256 checksum"⟩
          else
            let committed := (state.committedPayloads[result.block.blockId.toNat]?).join
            pure (classifyCommit committed result expected)

/-- `commit_result`. -/
def commitResult (result : BlockResult) (state : CoordinatorState) :
    Result (Validation × CoordinatorState) := do
  let validation ← validateResult result state
  if validation.status = .accepted then
    pure (validation, { state with
      committedPayloads :=
        state.committedPayloads.set result.block.blockId.toNat (some result.payloadChecksum) })
  else pure (validation, state)

/-- `is_benign_rejection`. -/
def isBenignRejection (status : ValidationStatus) : Bool :=
  status = .duplicate || status = .staleIncarnation || status = .staleLease

/-- `to_string(ValidationStatus)`. -/
def ValidationStatus.text : ValidationStatus → String
  | accepted => "accepted"
  | duplicate => "duplicate"
  | invalidRun => "invalid_run"
  | executionLayoutMismatch => "execution_layout_mismatch"
  | buildMismatch => "build_mismatch"
  | staleIncarnation => "stale_incarnation"
  | rngVersionMismatch => "rng_version_mismatch"
  | statsSchemaMismatch => "stats_schema_mismatch"
  | invalidAggregate => "invalid_aggregate"
  | corruptPayload => "corrupt_payload"
  | invalidBlock => "invalid_block"
  | staleLease => "stale_lease"
  | determinismError => "determinism_error"

/-! ## The block universe under a lease -/

/-- `block` with the incarnation and lease epoch of an attempt. -/
def ScenarioBlock.leased (block : ScenarioBlock) (incarnation epoch : UInt64) : ScenarioBlock :=
  { block with runIncarnation := incarnation, leaseEpoch := epoch }

/-- A block list is *canonical* when it is the universe of `make_blocks` up to
incarnations and leases, with one common incarnation and no zero lease. -/
structure CanonicalBlocks (spec : RunSpec) (blockSize incarnation : UInt64)
    (blocks : List ScenarioBlock) : Prop where
  length_eq : blocks.length = (blockCount spec blockSize).toNat
  get : ∀ i (hi : i < blocks.length), blocks[i].blockId = UInt64.ofNat i ∧
    blocks[i].startScenario = (makeBlock spec blockSize i).startScenario ∧
    blocks[i].endScenario = (makeBlock spec blockSize i).endScenario ∧
    blocks[i].runIncarnation = incarnation ∧ blocks[i].leaseEpoch ≠ 0

section Universe

variable {spec : RunSpec} {config : EngineConfig} {blocks : List ScenarioBlock}

/-- The end of a block is the start of the next one, or the end of the run. -/
theorem makeBlock_stop_eq (hs : spec.Accepted) {blockSize : UInt64} {index : ℕ}
    (hi : index + 1 < (blockCount spec blockSize).toNat) :
    (makeBlock spec blockSize (index + 1)).startScenario =
      (makeBlock spec blockSize index).endScenario := by
  apply UInt64.toNat_inj.mp
  have hlt := mul_blockSize_lt hs hi
  rw [makeBlock_start hs hi, makeBlock_stop hs (by omega), Nat.min_eq_left hlt.le]

/-- The last block ends at the end of the run. -/
theorem makeBlock_stop_last (hs : spec.Accepted) {blockSize : UInt64} (hpos : 0 < blockSize.toNat)
    {index : ℕ} (hi : index + 1 = (blockCount spec blockSize).toNat) :
    (makeBlock spec blockSize index).endScenario = spec.totalScenarios := by
  apply UInt64.toNat_inj.mp
  rw [makeBlock_stop hs (by omega), hi, blockCount_toNat hs]
  apply Nat.min_eq_right
  have h1 := hs.total_pos
  have hdiv := Nat.div_add_mod (spec.totalScenarios.toNat - 1) blockSize.toNat
  have hmod := Nat.mod_lt (spec.totalScenarios.toNat - 1) hpos
  rw [Nat.add_mul, Nat.one_mul]
  rw [Nat.mul_comm] at hdiv
  omega

theorem makeBlock_start_lt_stop (hs : spec.Accepted) {blockSize : UInt64}
    (hpos : 0 < blockSize.toNat) {index : ℕ} (hi : index < (blockCount spec blockSize).toNat) :
    (makeBlock spec blockSize index).startScenario.toNat <
      (makeBlock spec blockSize index).endScenario.toNat := by
  have hlt := mul_blockSize_lt hs hi
  rw [makeBlock_start hs hi, makeBlock_stop hs hi, Nat.lt_min]
  refine ⟨?_, hlt⟩
  rw [Nat.add_mul, Nat.one_mul]
  omega

/-- Antithetic blocks start and end on even scenarios. -/
theorem makeBlock_even (hs : spec.Accepted) {blockSize : UInt64} (hanti : spec.antithetic = true)
    (hsize : blockSize.toNat % 2 = 0) {index : ℕ} (hi : index < (blockCount spec blockSize).toNat) :
    (makeBlock spec blockSize index).startScenario.toNat % 2 = 0 ∧
      (makeBlock spec blockSize index).endScenario.toNat % 2 = 0 := by
  have htotal := hs.even hanti
  rw [makeBlock_start hs hi, makeBlock_stop hs hi]
  constructor
  · rw [Nat.mul_mod, hsize, Nat.mul_zero, Nat.zero_mod]
  · rcases Nat.le_total ((index + 1) * blockSize.toNat) spec.totalScenarios.toNat with h | h
    · rw [Nat.min_eq_left h, Nat.mul_mod, hsize, Nat.mul_zero, Nat.zero_mod]
    · rw [Nat.min_eq_right h, htotal]

theorem canonicalBlocks_of_makeBlocks (h : makeBlocks spec config = .ok blocks) :
    CanonicalBlocks spec config.blockSize 0 blocks := by
  obtain ⟨hspec, -, -, -, rfl⟩ := makeBlocks_eq_ok h
  refine ⟨by simp, ?_⟩
  intro i hi
  simp only [List.length_map, List.length_range] at hi
  simp [makeBlock]

/-- The universe check passes from any canonical block on. -/
theorem checkUniverse_of_canonical (hs : spec.Accepted) {blockSize incarnation : UInt64}
    (hpos : 0 < blockSize.toNat)
    (hanti : spec.antithetic = true → blockSize.toNat % 2 = 0)
    (hc : CanonicalBlocks spec blockSize incarnation blocks) :
    ∀ (rest : List ScenarioBlock) (index : ℕ), blocks.drop index = rest →
      index < blocks.length →
      checkUniverse spec blockSize incarnation index
        (makeBlock spec blockSize index).startScenario rest = .ok spec.totalScenarios := by
  intro rest
  induction rest with
  | nil =>
    intro index hdrop hi
    have := List.drop_eq_nil_iff.mp hdrop
    omega
  | cons block rest ih =>
    intro index hdrop hi
    have hcount : index < (blockCount spec blockSize).toNat := by rw [← hc.length_eq]; exact hi
    have hget : blocks[index] = block := by
      have hcons := List.getElem_cons_drop hi
      rw [hdrop] at hcons
      exact (List.cons.inj hcons).1
    obtain ⟨hid, hstart, hstop, hinc, hlease⟩ := hc.get index hi
    rw [hget] at hid hstart hstop hinc hlease
    have hidNat : block.blockId.toNat = index := by
      rw [hid]
      simpa using Nat.mod_eq_of_lt (index_lt_word hcount)
    have hend : (makeBlock spec blockSize index).startScenario
        + minWord blockSize (spec.totalScenarios - (makeBlock spec blockSize index).startScenario)
        = (makeBlock spec blockSize index).endScenario := rfl
    have hlt : ¬ block.endScenario ≤ block.startScenario := by
      rw [hstart, hstop, UInt64.le_iff_toNat_le]
      exact not_le.mpr (makeBlock_start_lt_stop hs hpos hcount)
    have hparity : ¬ (spec.antithetic = true ∧
        (block.startScenario % 2 ≠ 0 ∨ block.endScenario % 2 ≠ 0)) := by
      rintro ⟨ha, hodd⟩
      obtain ⟨h1, h2⟩ := makeBlock_even hs ha (hanti ha) hcount
      rw [← hstart] at h1
      rw [← hstop] at h2
      rcases hodd with ho | ho
      · exact ho (UInt64.toNat_inj.mp (by simpa using h1))
      · exact ho (UInt64.toNat_inj.mp (by simpa using h2))
    rw [checkUniverse]
    simp only [hend, hidNat, hstart, hstop, hinc, hlease, ne_eq, not_true_eq_false, decide_false,
      Bool.or_self, Bool.false_or, throwIf_false]
    rw [hstart] at hlt hparity
    rw [hstop] at hlt hparity
    have hpar : (spec.antithetic && (decide ¬(makeBlock spec blockSize index).startScenario % 2 = 0
        || decide ¬(makeBlock spec blockSize index).endScenario % 2 = 0)) = false := by
      rw [Bool.eq_false_iff]
      intro hcontra
      simp only [Bool.and_eq_true, Bool.or_eq_true, decide_eq_true_eq] at hcontra
      exact hparity hcontra
    simp only [hlt, hpar, decide_false, throwIf_false]
    change checkUniverse spec blockSize incarnation (index + 1) _ rest = _
    by_cases hlast : index + 1 < blocks.length
    · have hnext : (makeBlock spec blockSize (index + 1)).startScenario = _ :=
        makeBlock_stop_eq hs (by rw [← hc.length_eq]; exact hlast)
      rw [← hnext]
      exact ih (index + 1) (by rw [← List.drop_drop, hdrop]; rfl) hlast
    · have hnil : rest = [] := by
        have hlen := congrArg List.length hdrop
        simp only [List.length_drop, List.length_cons] at hlen
        exact List.length_eq_zero_iff.mp (by omega)
      rw [hnil, checkUniverse, makeBlock_stop_last hs hpos (by rw [← hc.length_eq]; omega)]

end Universe

/-- The universe built by `make_blocks`, under any common incarnation and nonzero
leases, is accepted. -/
theorem makeCoordinatorState_of_canonical {build : BuildIdentity} {spec : RunSpec}
    {config : EngineConfig} {blocks : List ScenarioBlock} {incarnation : UInt64}
    {specHash layoutHash : Sha256Digest} (hspec : spec.validate = .ok ())
    (hconfig : config.validate spec = .ok ())
    (hc : CanonicalBlocks spec config.blockSize incarnation blocks)
    (hsh : MonteCarlo.runSpecHash spec = .ok specHash)
    (hlh : MonteCarlo.executionLayoutHash spec config = .ok layoutHash) :
    makeCoordinatorState build spec config blocks = .ok
      { runSpecHash := specHash
        executionLayoutHash := layoutHash
        buildFingerprint := build.hash
        runIncarnation := incarnation
        rngVersion := spec.rngVersion
        statsSchemaVersion := spec.statsSchemaVersion
        antithetic := spec.antithetic
        blocks := blocks
        committedPayloads := List.replicate blocks.length none } := by
  have hs := RunSpec.accepted_of_validate hspec
  have hcfg := hconfig
  simp only [EngineConfig.validate, Result.bind_eq_ok, throwIf_eq_ok, exists_const,
    decide_eq_false_iff_not, Bool.and_eq_false_iff, ne_eq, not_not] at hcfg
  obtain ⟨-, -, hsize, heven, -⟩ := hcfg
  have hpos : 0 < config.blockSize.toNat := by
    rcases Nat.eq_zero_or_pos config.blockSize.toNat with h0 | h0
    · exact absurd (UInt64.toNat_inj.mp (by simpa using h0)) hsize
    · exact h0
  have hanti : spec.antithetic = true → config.blockSize.toNat % 2 = 0 := by
    intro ha
    rcases heven with h | h
    · rw [ha] at h; cases h
    · have := congrArg UInt64.toNat h
      simpa using this
  have hlen : 0 < blocks.length := by
    rw [hc.length_eq, blockCount_toNat hs]
    exact Nat.lt_of_lt_of_le Nat.zero_lt_one (Nat.le_add_right 1 _)
  have hzero : (makeBlock spec config.blockSize 0).startScenario = 0 := by
    simp [makeBlock]
  have hcheck := checkUniverse_of_canonical hs hpos hanti hc blocks 0 (by simp) hlen
  rw [hzero] at hcheck
  cases blocks with
  | nil => exact absurd hlen (by simp)
  | cons first rest =>
    have hfirst : first.runIncarnation = incarnation := (hc.get 0 hlen).2.2.2.1
    simp only [makeCoordinatorState, hspec, hconfig, hc.length_eq, hfirst, hcheck, hsh, hlh,
      ne_eq, not_true_eq_false, decide_false, throwIf_false, Result.ok_bind]
    rfl

/-! ## Verdicts -/

/-- What a verdict `Accepted` has checked. -/
structure AcceptedBy (state : CoordinatorState) (result : BlockResult) : Prop where
  runSpecHash : result.runSpecHash = state.runSpecHash
  executionLayoutHash : result.executionLayoutHash = state.executionLayoutHash
  buildFingerprint : result.buildFingerprint = state.buildFingerprint
  runIncarnation : result.block.runIncarnation = state.runIncarnation
  rngVersion : result.rngVersion = state.rngVersion
  statsSchemaVersion : result.statsSchemaVersion = state.statsSchemaVersion
  expected : ∃ block, state.blocks[result.block.blockId.toNat]? = some block ∧
    result.block.startScenario = block.startScenario ∧
    result.block.endScenario = block.endScenario ∧
    result.block.leaseEpoch = block.leaseEpoch ∧
    result.aggregate.invariantError (some (expectedObservations state.antithetic block)) = none
  checksum : aggregatePayloadHash result.aggregate result.statsSchemaVersion =
    .ok result.payloadChecksum
  fresh : (state.committedPayloads[result.block.blockId.toNat]?).join = none

theorem classifyCommit_accepted {committed : Option Sha256Digest} {result : BlockResult}
    {expected : ScenarioBlock} :
    (classifyCommit committed result expected).status = .accepted ↔
      committed = none ∧ result.block.leaseEpoch = expected.leaseEpoch := by
  cases committed with
  | some checksum =>
    simp only [classifyCommit, reduceCtorEq, false_and, iff_false]
    split <;> simp
  | none =>
    by_cases h : result.block.leaseEpoch = expected.leaseEpoch <;> simp [classifyCommit, h]

theorem validateResult_accepted {result : BlockResult} {state : CoordinatorState}
    {validation : Validation} (h : validateResult result state = .ok validation)
    (ha : validation.status = .accepted) : AcceptedBy state result := by
  unfold validateResult at h
  split at h
  · cases h; simp at ha
  rename_i h1
  split at h
  · cases h; simp at ha
  rename_i h2
  split at h
  · cases h; simp at ha
  rename_i h3
  split at h
  · cases h; simp at ha
  rename_i h4
  split at h
  · cases h; simp at ha
  rename_i h5
  split at h
  · cases h; simp at ha
  rename_i h6
  split at h
  · cases h; simp at ha
  rename_i expected hexpected
  split at h
  · cases h; simp at ha
  rename_i hrange
  split at h
  · cases h; simp at ha
  rename_i hagg
  obtain ⟨computed, hcomputed, hrest⟩ := Result.bind_eq_ok.mp h
  simp only at hrest
  split at hrest
  · cases hrest; simp at ha
  rename_i hchecksum
  cases hrest
  obtain ⟨hfresh, hlease⟩ := classifyCommit_accepted.mp ha
  simp only [ne_eq, not_not, not_or] at *
  exact ⟨h1, h2, h3, h4, h5, h6, ⟨expected, hexpected, hrange.1, hrange.2, hlease, hagg⟩,
    hchecksum ▸ hcomputed, hfresh⟩

/-- A result that meets every check is accepted. -/
theorem validateResult_of_valid {result : BlockResult} {state : CoordinatorState}
    (h : AcceptedBy state result) :
    validateResult result state = .ok ⟨.accepted, "result is valid"⟩ := by
  obtain ⟨block, hblock, hstart, hstop, hlease, hagg⟩ := h.expected
  unfold validateResult
  simp only [h.runSpecHash, h.executionLayoutHash, h.buildFingerprint, h.runIncarnation,
    h.rngVersion, h.statsSchemaVersion, hblock, hstart, hstop, hagg, ne_eq, not_true_eq_false,
    or_self, ↓reduceIte]
  have hsum := h.checksum
  rw [h.statsSchemaVersion] at hsum
  simp only [hsum, Result.ok_bind, h.fresh, classifyCommit, hlease, ne_eq, not_true_eq_false,
    ↓reduceIte]
  rfl

theorem commitResult_of_valid {result : BlockResult} {state : CoordinatorState}
    (h : AcceptedBy state result) :
    commitResult result state = .ok (⟨.accepted, "result is valid"⟩,
      { state with committedPayloads :=
        state.committedPayloads.set result.block.blockId.toNat (some result.payloadChecksum) }) := by
  rw [commitResult, validateResult_of_valid h]
  rfl

end MonteCarlo
