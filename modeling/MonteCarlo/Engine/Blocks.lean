import MonteCarlo.Hash
import MonteCarlo.RunSpec

/-!
# Scenario blocks and the fixed reduction tree

The deterministic part of `engine.cpp`: how a run is cut into blocks, how one
block is computed, and how the block aggregates are reduced.

* `makeBlock_start`, `makeBlock_stop` — block `i` of an accepted layout covers
  the scenarios from `i * blockSize` to the next multiple or the end of the
  run, without 64-bit wraparound.
* `sum_sizes_makeBlocks` — the block sizes add up to the number of scenarios.
* `computeBlock_congr` — computing a block reads only its scenario range.
* `computeBlockWithKernel_n` — a computed block has the expected number of observations.
* `reduceBlockResults_invariantError` — a reduction of valid leaves is valid.

The payoff code itself enters through `ModelKernel`: a deterministic, possibly
failing function of the scenario number.
-/

namespace MonteCarlo

/-- `ScenarioBlock`. -/
structure ScenarioBlock where
  blockId : UInt64
  startScenario : UInt64
  endScenario : UInt64
  runIncarnation : UInt64
  leaseEpoch : UInt64
  deriving DecidableEq, Repr

/-- `BlockResult`. -/
structure BlockResult where
  block : ScenarioBlock
  aggregate : AggregateStats Binary64
  runSpecHash : Sha256Digest
  executionLayoutHash : Sha256Digest
  buildFingerprint : Sha256Digest
  payloadChecksum : Sha256Digest
  rngVersion : UInt64
  statsSchemaVersion : UInt32
  workerId : UInt64
  deriving DecidableEq, Repr

/-- `EngineConfig`. -/
structure EngineConfig where
  workerCount : ℕ
  blockSize : UInt64
  assignmentQueueCapacity : ℕ
  completionQueueCapacity : ℕ
  maxMaterializedBlocks : UInt64
  deriving DecidableEq, Repr

def kMaxWorkerThreads : ℕ := 256
def kDefaultMaxMaterializedBlocks : UInt64 := 1000000
def kBlockPartitionVersion : UInt32 := 1
def kReductionTreeVersion : UInt32 := 1

namespace EngineConfig

/-- A default-constructed configuration. -/
def defaults : EngineConfig := ⟨1, 2048, 0, 0, kDefaultMaxMaterializedBlocks⟩

/-- An exception of `EngineConfig::validate`. -/
def invalid (what : String) : Exception := ⟨.invalidArgument, .engineConfigValidate, what⟩

/-- `EngineConfig::validate`. -/
def validate (config : EngineConfig) (spec : RunSpec) : Result Unit := do
  throwIf (config.workerCount = 0) (invalid "worker_count must be positive")
  throwIf (kMaxWorkerThreads < config.workerCount)
    (invalid "worker_count exceeds the safety limit of 256")
  throwIf (config.blockSize = 0) (invalid "block_size must be positive")
  throwIf (spec.antithetic && config.blockSize % 2 ≠ 0)
    (invalid "antithetic runs require an even block size")
  throwIf (config.maxMaterializedBlocks = 0)
    (invalid "max_materialized_blocks must be positive")

end EngineConfig

/-! ## The block universe -/

/-- `1U + (spec.total_scenarios - 1U) / config.block_size`. -/
def blockCount (spec : RunSpec) (blockSize : UInt64) : UInt64 :=
  1 + (spec.totalScenarios - 1) / blockSize

/-- The smaller of two 64-bit words. -/
def minWord (x y : UInt64) : UInt64 := if y < x then y else x

/-- The block that `make_blocks` builds for one block number. -/
def makeBlock (spec : RunSpec) (blockSize : UInt64) (index : ℕ) : ScenarioBlock :=
  let start := UInt64.ofNat index * blockSize
  { blockId := UInt64.ofNat index
    startScenario := start
    endScenario := start + minWord blockSize (spec.totalScenarios - start)
    runIncarnation := 0
    leaseEpoch := 1 }

/-- `make_blocks`. -/
def makeBlocks (spec : RunSpec) (config : EngineConfig) : Result (List ScenarioBlock) := do
  spec.validate
  config.validate spec
  let count := blockCount spec config.blockSize
  throwIf (config.maxMaterializedBlocks < count)
    ⟨.lengthError, .makeBlocks, "run requires " ++ toString count.toNat
      ++ " blocks, exceeding the host/materialization limit of "
      ++ toString config.maxMaterializedBlocks.toNat⟩
  pure ((List.range count.toNat).map (makeBlock spec config.blockSize))

/-- The number of observations a block contributes: one for each scenario, or
one for each antithetic pair. -/
def expectedObservations (antithetic : Bool) (block : ScenarioBlock) : UInt64 :=
  let scenarioCount := block.endScenario - block.startScenario
  if antithetic then scenarioCount / 2 else scenarioCount

section Layout

variable {spec : RunSpec} {config : EngineConfig} {blocks : List ScenarioBlock}

/-- What a successful `make_blocks` has checked, and what it returns. -/
theorem makeBlocks_eq_ok (h : makeBlocks spec config = .ok blocks) :
    spec.validate = .ok () ∧ config.validate spec = .ok () ∧ 0 < config.blockSize.toNat ∧
      blockCount spec config.blockSize ≤ config.maxMaterializedBlocks ∧
      blocks = (List.range (blockCount spec config.blockSize).toNat).map
        (makeBlock spec config.blockSize) := by
  simp only [makeBlocks, Result.bind_eq_ok] at h
  obtain ⟨⟨⟩, hspec, ⟨⟩, hconfig, ⟨⟩, hlimit, hblocks⟩ := h
  have hsize : config.blockSize ≠ 0 := by
    have hc := hconfig
    simp only [EngineConfig.validate, Result.bind_eq_ok, throwIf_eq_ok, exists_const,
      decide_eq_false_iff_not] at hc
    exact hc.2.2.1
  refine ⟨hspec, hconfig, ?_, ?_, ?_⟩
  · rcases Nat.eq_zero_or_pos config.blockSize.toNat with h0 | h0
    · exact absurd (UInt64.toNat_inj.mp (by simpa using h0)) hsize
    · exact h0
  · simpa using hlimit
  · cases hblocks; rfl

/-- A valid run within the limit is cut into blocks. -/
theorem makeBlocks_of_le (hspec : spec.validate = .ok ()) (hconfig : config.validate spec = .ok ())
    (hlimit : blockCount spec config.blockSize ≤ config.maxMaterializedBlocks) :
    makeBlocks spec config = .ok ((List.range (blockCount spec config.blockSize).toNat).map
      (makeBlock spec config.blockSize)) := by
  have hlt : decide (config.maxMaterializedBlocks < blockCount spec config.blockSize) = false :=
    decide_eq_false (UInt64.not_lt.mpr hlimit)
  simp only [makeBlocks, hspec, hconfig, hlt, throwIf_false, Result.ok_bind]
  rfl

theorem blockCount_toNat (hs : spec.Accepted) (blockSize : UInt64) :
    (blockCount spec blockSize).toNat = 1 + (spec.totalScenarios.toNat - 1) / blockSize.toNat := by
  have h1 := hs.total_pos
  have h2 := hs.total_le
  have hle : (1 : UInt64) ≤ spec.totalScenarios :=
    UInt64.le_iff_toNat_le.mpr (by rw [UInt64.toNat_one]; exact h1)
  have hdiv : (spec.totalScenarios.toNat - 1) / blockSize.toNat ≤ spec.totalScenarios.toNat - 1 :=
    Nat.div_le_self _ _
  rw [blockCount, UInt64.toNat_add, UInt64.toNat_div, UInt64.toNat_sub_of_le _ _ hle,
    UInt64.toNat_one]
  generalize (spec.totalScenarios.toNat - 1) / blockSize.toNat = q at hdiv ⊢
  exact Nat.mod_eq_of_lt (by omega)

/-- Every block number starts inside the run. -/
theorem mul_blockSize_lt (hs : spec.Accepted) {blockSize : UInt64} {index : ℕ}
    (hi : index < (blockCount spec blockSize).toNat) :
    index * blockSize.toNat < spec.totalScenarios.toNat := by
  rw [blockCount_toNat hs] at hi
  have h1 := hs.total_pos
  have hdiv := Nat.div_mul_le_self (spec.totalScenarios.toNat - 1) blockSize.toNat
  have hle : index ≤ (spec.totalScenarios.toNat - 1) / blockSize.toNat := by omega
  have := Nat.mul_le_mul_right blockSize.toNat hle
  omega

theorem index_lt_word {blockSize : UInt64} {index : ℕ}
    (hi : index < (blockCount spec blockSize).toNat) : index < 2 ^ 64 :=
  lt_trans hi (UInt64.toNat_lt _)

theorem makeBlock_blockId {blockSize : UInt64} {index : ℕ}
    (hi : index < (blockCount spec blockSize).toNat) :
    (makeBlock spec blockSize index).blockId.toNat = index := by
  simpa [makeBlock] using Nat.mod_eq_of_lt (index_lt_word hi)

theorem makeBlock_start (hs : spec.Accepted) {blockSize : UInt64} {index : ℕ}
    (hi : index < (blockCount spec blockSize).toNat) :
    (makeBlock spec blockSize index).startScenario.toNat = index * blockSize.toNat := by
  have hlt := mul_blockSize_lt hs hi
  have h2 := hs.total_le
  have hw : index % 2 ^ 64 = index := Nat.mod_eq_of_lt (index_lt_word hi)
  simp only [makeBlock, UInt64.toNat_mul, UInt64.toNat_ofNat', hw]
  exact Nat.mod_eq_of_lt (by omega)

theorem makeBlock_stop (hs : spec.Accepted) {blockSize : UInt64} {index : ℕ}
    (hi : index < (blockCount spec blockSize).toNat) :
    (makeBlock spec blockSize index).endScenario.toNat =
      min ((index + 1) * blockSize.toNat) spec.totalScenarios.toNat := by
  have hstart := makeBlock_start hs hi
  have hlt := mul_blockSize_lt hs hi
  have h2 := hs.total_le
  have hexpand : (index + 1) * blockSize.toNat = index * blockSize.toNat + blockSize.toNat := by
    ring
  simp only [makeBlock] at hstart ⊢
  set start := UInt64.ofNat index * blockSize with hdef
  have hle : start ≤ spec.totalScenarios := UInt64.le_iff_toNat_le.mpr (by omega)
  have hsub := UInt64.toNat_sub_of_le _ _ hle
  rw [UInt64.toNat_add, hexpand]
  unfold minWord
  split
  · rename_i hshort
    rw [UInt64.lt_iff_toNat_lt, hsub] at hshort
    rw [hsub]
    omega
  · rename_i hfull
    rw [UInt64.lt_iff_toNat_lt, hsub] at hfull
    omega

/-- The sizes of the first `n` blocks add up to the scenarios they cover. -/
theorem sum_sizes_range (hs : spec.Accepted) {blockSize : UInt64} (n : ℕ)
    (hn : n ≤ (blockCount spec blockSize).toNat) :
    ((List.range n).map fun i => (makeBlock spec blockSize i).endScenario.toNat
      - (makeBlock spec blockSize i).startScenario.toNat).sum =
      min (n * blockSize.toNat) spec.totalScenarios.toNat := by
  induction n with
  | zero => simp
  | succ n ih =>
    rw [List.range_succ, List.map_append, List.sum_append, ih (by omega), List.map_singleton,
      List.sum_singleton, makeBlock_start hs (by omega), makeBlock_stop hs (by omega)]
    have hlt := mul_blockSize_lt hs (show n < _ from hn)
    rw [Nat.min_eq_left hlt.le]
    have hmono : n * blockSize.toNat ≤ min ((n + 1) * blockSize.toNat) spec.totalScenarios.toNat :=
      le_min (Nat.mul_le_mul_right _ (Nat.le_succ n)) hlt.le
    omega

/-- The block sizes add up to the number of scenarios. -/
theorem sum_sizes_makeBlocks (h : makeBlocks spec config = .ok blocks) :
    (blocks.map fun b => b.endScenario.toNat - b.startScenario.toNat).sum =
      spec.totalScenarios.toNat := by
  obtain ⟨hspec, -, hpos, -, rfl⟩ := makeBlocks_eq_ok h
  have hs := RunSpec.accepted_of_validate hspec
  rw [List.map_map]
  refine (sum_sizes_range hs _ le_rfl).trans (Nat.min_eq_right ?_)
  have h1 := hs.total_pos
  rw [blockCount_toNat hs, Nat.add_mul, Nat.one_mul]
  have := Nat.div_add_mod (spec.totalScenarios.toNat - 1) config.blockSize.toNat
  have hmod := Nat.mod_lt (spec.totalScenarios.toNat - 1) hpos
  rw [Nat.mul_comm] at this
  omega

end Layout

/-! ## Computing a block -/

/-- A constructed `ModelKernel`: the payoff of a scenario, and the mean payoff
of the antithetic pair that starts at an even scenario. -/
structure ModelKernel (F : Type) where
  discountedPayoff : UInt64 → Result F
  antitheticPairMean : UInt64 → Result F

section Compute

variable {F : Type} [FloatOps F]

/-- The scenario loop of `compute_block_with_concrete_kernel`, `fuel` bounding
the number of iterations. -/
def addScenarios (stride : UInt64) (payoff : UInt64 → Result F) (stop : UInt64) :
    ℕ → UInt64 → AggregateStats F → Result (AggregateStats F)
  | 0, _, aggregate => .ok aggregate
  | fuel + 1, scenario, aggregate =>
    if scenario < stop then do
      let observation ← payoff scenario
      let aggregate ← aggregate.add observation
      addScenarios stride payoff stop fuel (scenario + stride) aggregate
    else .ok aggregate

/-- `compute_block_with_concrete_kernel`. -/
def computeBlockWithKernel (kernel : ModelKernel F) (spec : RunSpec) (block : ScenarioBlock) :
    Result (AggregateStats F) := do
  throwIf (block.endScenario ≤ block.startScenario || spec.totalScenarios < block.endScenario)
    ⟨.invalidArgument, .computeBlock, "invalid scenario block range"⟩
  throwIf (spec.antithetic
      && (block.startScenario % 2 ≠ 0 || block.endScenario % 2 ≠ 0))
    ⟨.invalidArgument, .computeBlock, "antithetic block boundaries must be even"⟩
  let fuel := block.endScenario.toNat - block.startScenario.toNat
  if spec.antithetic then
    addScenarios 2 kernel.antitheticPairMean block.endScenario fuel block.startScenario .empty
  else
    addScenarios 1 kernel.discountedPayoff block.endScenario fuel block.startScenario .empty

/-- `compute_block`. -/
def computeBlock (kernels : RunSpec → Result (ModelKernel F)) (spec : RunSpec)
    (block : ScenarioBlock) : Result (AggregateStats F) := do
  let kernel ← kernels spec
  computeBlockWithKernel kernel spec block

/-- Computing a block reads only its scenario range. -/
theorem computeBlock_congr (kernels : RunSpec → Result (ModelKernel F)) (spec : RunSpec)
    {b c : ScenarioBlock} (hstart : b.startScenario = c.startScenario)
    (hstop : b.endScenario = c.endScenario) :
    computeBlock kernels spec b = computeBlock kernels spec c := by
  simp only [computeBlock, computeBlockWithKernel, hstart, hstop]

theorem AggregateStats.add_n {a b : AggregateStats F} {x : F} (h : a.add x = .ok b) :
    b.n = a.n + 1 := by
  unfold AggregateStats.add at h
  split at h
  · cases h
  · split at h
    · rename_i hzero
      cases h
      rw [hzero]
      rfl
    · cases h
      rfl

/-- The loop adds one observation for each stride. -/
theorem addScenarios_n {payoff : UInt64 → Result F} {stop : UInt64} (stride : UInt64)
    (hstride : 0 < stride.toNat) (hstop : stop.toNat + stride.toNat < 2 ^ 64) :
    ∀ (count fuel : ℕ) {scenario : UInt64} {a b : AggregateStats F}, count ≤ fuel →
      scenario.toNat + count * stride.toNat = stop.toNat →
      addScenarios stride payoff stop fuel scenario a = .ok b →
      b.n = a.n + UInt64.ofNat count := by
  intro count
  induction count with
  | zero =>
    intro fuel scenario a b _ hend h
    have hnot : ¬ scenario < stop := by
      rw [UInt64.lt_iff_toNat_lt]
      omega
    cases fuel with
    | zero => cases h; simp
    | succ fuel => rw [addScenarios, if_neg hnot] at h; cases h; simp
  | succ count ih =>
    intro fuel scenario a b hfuel hend h
    have hexpand : (count + 1) * stride.toNat = count * stride.toNat + stride.toNat := by ring
    have hlt : scenario < stop := by
      rw [UInt64.lt_iff_toNat_lt]
      omega
    cases fuel with
    | zero => omega
    | succ fuel =>
      rw [addScenarios, if_pos hlt] at h
      obtain ⟨x, -, h⟩ := Result.bind_eq_ok.mp h
      obtain ⟨c, hadd, h⟩ := Result.bind_eq_ok.mp h
      have hnext : (scenario + stride).toNat = scenario.toNat + stride.toNat := by
        rw [UInt64.toNat_add]
        exact Nat.mod_eq_of_lt (by omega)
      have := ih fuel (by omega) (by rw [hnext]; omega) h
      rw [this, AggregateStats.add_n hadd, UInt64.ofNat_add, UInt64.add_assoc]
      congr 1
      exact UInt64.add_comm _ _

/-- A computed block has one observation for each scenario, or for each pair. -/
theorem computeBlockWithKernel_n {kernel : ModelKernel F} {spec : RunSpec} (hs : spec.Accepted)
    {block : ScenarioBlock} {a : AggregateStats F}
    (h : computeBlockWithKernel kernel spec block = .ok a) :
    a.n = expectedObservations spec.antithetic block := by
  obtain ⟨⟨⟩, hrange, h⟩ := Result.bind_eq_ok.mp h
  obtain ⟨⟨⟩, heven, h⟩ := Result.bind_eq_ok.mp h
  simp only [throwIf_eq_ok, Bool.or_eq_false_iff, decide_eq_false_iff_not] at hrange heven
  obtain ⟨hrange, hend⟩ := hrange
  have hlt : block.startScenario.toNat < block.endScenario.toNat := by
    rw [UInt64.le_iff_toNat_le] at hrange
    omega
  have hstop : block.endScenario.toNat ≤ 2 ^ 40 := by
    rw [UInt64.lt_iff_toNat_lt] at hend
    have := hs.total_le
    omega
  have hsub : (block.endScenario - block.startScenario).toNat =
      block.endScenario.toNat - block.startScenario.toNat :=
    UInt64.toNat_sub_of_le _ _ (UInt64.le_iff_toNat_le.mpr hlt.le)
  unfold expectedObservations
  by_cases hanti : spec.antithetic = true
  · rw [if_pos hanti] at h ⊢
    rw [hanti, Bool.true_and, Bool.or_eq_false_iff] at heven
    have hs0 : block.startScenario.toNat % 2 = 0 := by
      have := congrArg UInt64.toNat (not_not.mp (of_decide_eq_false heven.1))
      simpa using this
    have he0 : block.endScenario.toNat % 2 = 0 := by
      have := congrArg UInt64.toNat (not_not.mp (of_decide_eq_false heven.2))
      simpa using this
    have := addScenarios_n 2 (by decide)
      (by rw [show (2 : UInt64).toNat = 2 from rfl]; omega)
      ((block.endScenario.toNat - block.startScenario.toNat) / 2) _ (by omega)
      (by rw [show (2 : UInt64).toNat = 2 from rfl]; omega) h
    rw [this]
    apply UInt64.toNat_inj.mp
    rw [UInt64.toNat_div, hsub, show (2 : UInt64).toNat = 2 from rfl]
    simp only [AggregateStats.empty, UInt64.zero_add, UInt64.toNat_ofNat']
    omega
  · rw [if_neg hanti] at h ⊢
    have := addScenarios_n 1 (by decide)
      (by rw [show (1 : UInt64).toNat = 1 from rfl]; omega)
      (block.endScenario.toNat - block.startScenario.toNat) _ le_rfl
      (by rw [show (1 : UInt64).toNat = 1 from rfl]; omega) h
    rw [this]
    apply UInt64.toNat_inj.mp
    rw [hsub]
    simp only [AggregateStats.empty, UInt64.zero_add, UInt64.toNat_ofNat']
    omega

end Compute

/-! ## The fixed-position reduction -/

/-- One pass of the loop of `reduce_block_results`: neighbours are merged, an odd
last element is carried over. -/
def reduceLevel {A : Type} (merge : A → A → Result A) : List A → Result (List A)
  | a :: b :: rest => do
    let merged ← merge a b
    let next ← reduceLevel merge rest
    pure (merged :: next)
  | level => .ok level

/-- The loop `while (level.size() > 1)`, `fuel` bounding the number of levels. -/
def reduceLevels {A : Type} (merge : A → A → Result A) : ℕ → List A → Result (List A)
  | 0, level => .ok level
  | fuel + 1, level =>
    if 1 < level.length then do
      let next ← reduceLevel merge level
      reduceLevels merge fuel next
    else .ok level

/-- `reduce_block_results`. -/
def reduceBlockResults {F : Type} [FloatOps F] (leaves : List (AggregateStats F)) :
    Result (AggregateStats F) := do
  let level ← reduceLevels AggregateStats.merge leaves.length leaves
  pure (level.headD .empty)

section Reduction

variable {A : Type} {merge : A → A → Result A} {P : A → Prop}

theorem reduceLevel_forall (hmerge : ∀ a b c, merge a b = .ok c → P c) :
    ∀ {level next : List A}, (∀ a ∈ level, P a) → reduceLevel merge level = .ok next →
      ∀ a ∈ next, P a := by
  intro level
  induction level using reduceLevel.induct with
  | case1 a b rest ih =>
    intro next hlevel h
    simp only [reduceLevel, Result.bind_eq_ok] at h
    obtain ⟨merged, hmerged, tail, htail, hnext⟩ := h
    cases hnext
    intro x hx
    rcases List.mem_cons.mp hx with rfl | hx
    · exact hmerge _ _ _ hmerged
    · exact ih (fun y hy => hlevel y (by simp [hy])) htail x hx
  | case2 level hshort =>
    intro next hlevel h
    rw [reduceLevel] at h
    · cases h; exact hlevel
    · exact hshort

theorem reduceLevels_forall (hmerge : ∀ a b c, merge a b = .ok c → P c) :
    ∀ (fuel : ℕ) {level next : List A}, (∀ a ∈ level, P a) →
      reduceLevels merge fuel level = .ok next → ∀ a ∈ next, P a := by
  intro fuel
  induction fuel with
  | zero => intro level next hlevel h; cases h; exact hlevel
  | succ fuel ih =>
    intro level next hlevel h
    rw [reduceLevels] at h
    split at h
    · obtain ⟨mid, hmid, hrest⟩ := Result.bind_eq_ok.mp h
      exact ih (reduceLevel_forall hmerge hlevel hmid) hrest
    · cases h; exact hlevel

/-- A reduction throws only what a merge throws. -/
theorem reduceLevel_error {E : Exception → Prop} (hmerge : ∀ a b e, merge a b = .error e → E e) :
    ∀ {level : List A} {e : Exception}, reduceLevel merge level = .error e → E e := by
  intro level
  induction level using reduceLevel.induct with
  | case1 a b rest ih =>
    intro e h
    rw [reduceLevel] at h
    rcases Result.bind_eq_error.mp h with h | ⟨_, -, h⟩
    · exact hmerge _ _ _ h
    · rcases Result.bind_eq_error.mp h with h | ⟨_, -, h⟩
      · exact ih h
      · cases h
  | case2 level hshort =>
    intro e h
    rw [reduceLevel] at h
    · cases h
    · exact hshort

theorem reduceLevels_error {E : Exception → Prop} (hmerge : ∀ a b e, merge a b = .error e → E e) :
    ∀ (fuel : ℕ) {level : List A} {e : Exception}, reduceLevels merge fuel level = .error e →
      E e := by
  intro fuel
  induction fuel with
  | zero => intro level e h; cases h
  | succ fuel ih =>
    intro level e h
    rw [reduceLevels] at h
    split at h
    · rcases Result.bind_eq_error.mp h with h | ⟨_, -, h⟩
      · exact reduceLevel_error hmerge h
      · exact ih h
    · cases h

end Reduction

/-- What `reduce_block_results` throws comes from `merge`. -/
theorem reduceBlockResults_error {leaves : List (AggregateStats Binary64)} {e : Exception}
    (h : reduceBlockResults leaves = .error e) :
    e.thrower = .merge ∧ e.type ≠ .invalidDurableArtifact := by
  rcases Result.bind_eq_error.mp h with h | ⟨_, -, h⟩
  · exact reduceLevels_error (fun _ _ _ => AggregateStats.merge_error) _ h
  · cases h

/-- A reduction of valid leaves is valid. -/
theorem reduceBlockResults_invariantError {leaves : List (AggregateStats Binary64)}
    {a : AggregateStats Binary64} (hleaves : ∀ x ∈ leaves, x.invariantError = none)
    (h : reduceBlockResults leaves = .ok a) : a.invariantError = none := by
  obtain ⟨level, hlevel, ha⟩ := Result.bind_eq_ok.mp h
  have hall := reduceLevels_forall (P := fun x => x.invariantError = none)
    (fun _ _ _ hm => AggregateStats.merge_invariantError hm) _ hleaves hlevel
  cases ha
  cases level with
  | nil => exact AggregateStats.empty_invariantError
  | cons x rest => exact hall x (by simp)

/-- The reduction of a run that has nothing yet. -/
theorem reduceLevel_empty (count : ℕ) : ∃ rest : ℕ,
    reduceLevel AggregateStats.merge (List.replicate count (AggregateStats.empty (F := Binary64))) =
      .ok (List.replicate rest .empty) := by
  induction count using Nat.strong_induction_on with
  | _ count ih =>
    rcases count with _ | _ | count
    · exact ⟨0, rfl⟩
    · exact ⟨1, rfl⟩
    · obtain ⟨rest, hrest⟩ := ih count (by omega)
      refine ⟨rest + 1, ?_⟩
      rw [List.replicate_succ, List.replicate_succ, reduceLevel, hrest, AggregateStats.merge]
      simp only [AggregateStats.empty_invariantError]
      rfl

theorem reduceBlockResults_empty (count : ℕ) :
    reduceBlockResults (List.replicate count (AggregateStats.empty (F := Binary64))) =
      .ok .empty := by
  have hlevels : ∀ fuel count : ℕ, ∃ rest : ℕ, reduceLevels AggregateStats.merge fuel
      (List.replicate count (AggregateStats.empty (F := Binary64))) =
        .ok (List.replicate rest .empty) := by
    intro fuel
    induction fuel with
    | zero => exact fun count => ⟨count, rfl⟩
    | succ fuel ih =>
      intro count
      rw [reduceLevels]
      split
      · obtain ⟨rest, hrest⟩ := reduceLevel_empty count
        rw [hrest]
        exact ih rest
      · exact ⟨count, rfl⟩
  obtain ⟨rest, hrest⟩ := hlevels
    (List.replicate count (AggregateStats.empty (F := Binary64))).length count
  rw [reduceBlockResults, hrest]
  cases rest <;> rfl

end MonteCarlo
