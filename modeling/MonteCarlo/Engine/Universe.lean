import MonteCarlo.Engine.Run

/-!
# The block universe

`make_blocks` multiplies, `make_coordinator_state` adds up block after block.  Both describe one
partition of the scenarios, for every block size: nothing wraps around, no block is empty, and the
coordinator accepts exactly the lists with the ids and ranges that `make_blocks` returns.

* `existsUnique_block` — every scenario lies in one block.
* `canonical_of_checkUniverse` — the incremental check accepts no other list.
* `block_universe` — the partition and the exact condition of `make_coordinator_state`.
-/

namespace MonteCarlo

/-- Id and range of a block, without its lease. -/
def ScenarioBlock.range (block : ScenarioBlock) : UInt64 × UInt64 × UInt64 :=
  (block.blockId, block.startScenario, block.endScenario)

/-- One common incarnation and no zero lease. -/
def UniformLease (blocks : List ScenarioBlock) : Prop :=
  ∃ incarnation, ∀ block ∈ blocks, block.runIncarnation = incarnation ∧ block.leaseEpoch ≠ 0

section Universe

variable {build : BuildIdentity} {spec : RunSpec} {config : EngineConfig}
  {blocks : List ScenarioBlock}

theorem EngineConfig.blockSize_even (hconfig : config.validate spec = .ok ())
    (hanti : spec.antithetic = true) : config.blockSize.toNat % 2 = 0 := by
  simp only [EngineConfig.validate, Result.bind_eq_ok, throwIf_eq_ok, exists_const,
    Bool.and_eq_false_iff, decide_eq_false_iff_not, ne_eq, not_not] at hconfig
  obtain ⟨-, -, -, heven, -⟩ := hconfig
  rcases heven with h | h
  · rw [hanti] at h
    cases h
  · simpa using congrArg UInt64.toNat h

/-- The block of a scenario is the quotient by the block size. -/
theorem existsUnique_block (hs : spec.Accepted) {blockSize : UInt64} (hpos : 0 < blockSize.toNat)
    {scenario : ℕ} (h : scenario < spec.totalScenarios.toNat) :
    ∃! i, i < (blockCount spec blockSize).toNat ∧
      (makeBlock spec blockSize i).startScenario.toNat ≤ scenario ∧
      scenario < (makeBlock spec blockSize i).endScenario.toNat := by
  have hcount := blockCount_toNat hs blockSize
  have hlt : scenario / blockSize.toNat < (blockCount spec blockSize).toNat := by
    have hle : scenario / blockSize.toNat ≤ (spec.totalScenarios.toNat - 1) / blockSize.toNat :=
      Nat.div_le_div_right (by omega)
    omega
  refine ⟨scenario / blockSize.toNat, ⟨hlt, ?_, ?_⟩, ?_⟩
  · rw [makeBlock_start hs hlt]
    exact Nat.div_mul_le_self _ _
  · rw [makeBlock_stop hs hlt, Nat.lt_min]
    exact ⟨(Nat.div_lt_iff_lt_mul hpos).mp (Nat.lt_succ_self _), h⟩
  · rintro i ⟨hi, hstart, hstop⟩
    rw [makeBlock_start hs hi] at hstart
    rw [makeBlock_stop hs hi, Nat.lt_min] at hstop
    exact (Nat.div_eq_of_lt_le hstart hstop.1).symm

/-- What passes the incremental check is canonical from the block on where it starts. -/
theorem canonical_of_checkUniverse (hs : spec.Accepted) {blockSize incarnation : UInt64} :
    ∀ {blocks : List ScenarioBlock} {index : ℕ} {covered : UInt64},
      index + blocks.length ≤ (blockCount spec blockSize).toNat →
      checkUniverse spec blockSize incarnation index
        (makeBlock spec blockSize index).startScenario blocks = .ok covered →
      ∀ i (hi : i < blocks.length), blocks[i].blockId = UInt64.ofNat (index + i) ∧
        blocks[i].startScenario = (makeBlock spec blockSize (index + i)).startScenario ∧
        blocks[i].endScenario = (makeBlock spec blockSize (index + i)).endScenario ∧
        blocks[i].runIncarnation = incarnation ∧ blocks[i].leaseEpoch ≠ 0 := by
  intro blocks
  induction blocks with
  | nil => intro index covered _ _ i hi; cases hi
  | cons block rest ih =>
    intro index covered hlength h i hi
    rw [List.length_cons] at hlength
    obtain ⟨⟨⟩, hrange, h⟩ := Result.bind_eq_ok.mp h
    obtain ⟨⟨⟩, hlease, h⟩ := Result.bind_eq_ok.mp h
    obtain ⟨⟨⟩, -, h⟩ := Result.bind_eq_ok.mp h
    simp only [throwIf_eq_ok, Bool.or_eq_false_iff, decide_eq_false_iff_not, ne_eq, not_not]
      at hrange hlease
    obtain ⟨⟨⟨hid, hstart⟩, hstop⟩, -⟩ := hrange
    cases i with
    | zero =>
      refine ⟨?_, hstart, hstop, hlease⟩
      rw [List.getElem_cons_zero, Nat.add_zero, ← hid, UInt64.ofNat_toNat]
    | succ i =>
      rw [List.length_cons] at hi
      -- the running end is the start of the next block
      have hnext := makeBlock_stop_eq hs
        (show index + 1 < (blockCount spec blockSize).toNat by omega)
      change checkUniverse spec blockSize incarnation (index + 1)
        (makeBlock spec blockSize index).endScenario rest = _ at h
      rw [← hnext] at h
      have hrest := ih (by omega) h i (by omega)
      rw [Nat.add_assoc, Nat.add_comm 1 i] at hrest
      exact hrest

theorem canonicalBlocks_of_makeCoordinatorState {coordinator : CoordinatorState}
    (h : makeCoordinatorState build spec config blocks = .ok coordinator) :
    ∃ incarnation, CanonicalBlocks spec config.blockSize incarnation blocks := by
  obtain ⟨⟨⟩, hspec, h⟩ := Result.bind_eq_ok.mp h
  obtain ⟨⟨⟩, -, h⟩ := Result.bind_eq_ok.mp h
  obtain ⟨⟨⟩, hlength, h⟩ := Result.bind_eq_ok.mp h
  simp only [throwIf_eq_ok, decide_eq_false_iff_not, ne_eq, not_not] at hlength
  cases blocks with
  | nil => cases h
  | cons first rest =>
    obtain ⟨covered, huniverse, -⟩ := Result.bind_eq_ok.mp h
    have hzero : (makeBlock spec config.blockSize 0).startScenario = 0 := by simp [makeBlock]
    rw [← hzero] at huniverse
    have hcanonical := canonical_of_checkUniverse (RunSpec.accepted_of_validate hspec)
      (by rw [hlength, Nat.zero_add]) huniverse
    refine ⟨first.runIncarnation, hlength, ?_⟩
    intro i hi
    have hi' := hcanonical i hi
    rwa [Nat.zero_add] at hi'

/-- Canonical lists are those with the ranges of `make_blocks` and one lease identity. -/
theorem canonicalBlocks_iff :
    (∃ incarnation, CanonicalBlocks spec config.blockSize incarnation blocks) ↔
      blocks.map ScenarioBlock.range = ((List.range (blockCount spec config.blockSize).toNat).map
        (makeBlock spec config.blockSize)).map ScenarioBlock.range ∧ UniformLease blocks := by
  constructor
  · rintro ⟨incarnation, hc⟩
    refine ⟨List.ext_getElem (by simp [hc.length_eq]) ?_, incarnation, ?_⟩
    · intro i hi hi'
      obtain ⟨hid, hstart, hstop, -⟩ := hc.get i (by simpa using hi)
      simp only [List.getElem_map, List.getElem_range, ScenarioBlock.range, hid, hstart, hstop]
      rfl
    · intro block hblock
      obtain ⟨i, hi, rfl⟩ := List.mem_iff_getElem.mp hblock
      exact (hc.get i hi).2.2.2
  · rintro ⟨hranges, incarnation, hlease⟩
    have hlength : blocks.length = (blockCount spec config.blockSize).toNat := by
      simpa using congrArg List.length hranges
    refine ⟨incarnation, hlength, ?_⟩
    intro i hi
    have hget : (blocks.map ScenarioBlock.range)[i]? =
        (((List.range (blockCount spec config.blockSize).toNat).map
          (makeBlock spec config.blockSize)).map ScenarioBlock.range)[i]? := by rw [hranges]
    rw [List.getElem?_eq_getElem (by simpa using hi),
      List.getElem?_eq_getElem (by simpa using hlength ▸ hi)] at hget
    simp only [List.getElem_map, List.getElem_range, ScenarioBlock.range, Option.some.injEq,
      Prod.mk.injEq] at hget
    obtain ⟨hid, hstart, hstop⟩ := hget
    exact ⟨hid, hstart, hstop, hlease _ (List.getElem_mem hi)⟩

end Universe

/-- For every valid run within the limit `make_blocks` returns consecutive nonempty ranges that
partition the scenarios, computed as in the naturals and even for antithetic runs, and
`make_coordinator_state` accepts exactly the lists with these ids and ranges, one incarnation and
nonzero leases. -/
theorem block_universe (build : BuildIdentity) (spec : RunSpec) (config : EngineConfig)
    (hspec : spec.validate = .ok ()) (hconfig : config.validate spec = .ok ())
    (hlimit : 1 + (spec.totalScenarios.toNat - 1) / config.blockSize.toNat ≤
      config.maxMaterializedBlocks.toNat) :
    ∃ blocks, makeBlocks spec config = .ok blocks ∧
      blocks.length = 1 + (spec.totalScenarios.toNat - 1) / config.blockSize.toNat ∧
      (∀ i (hi : i < blocks.length),
        blocks[i].blockId.toNat = i ∧
        blocks[i].startScenario.toNat = i * config.blockSize.toNat ∧
        blocks[i].endScenario.toNat = blocks[i].startScenario.toNat +
          min config.blockSize.toNat (spec.totalScenarios.toNat - i * config.blockSize.toNat) ∧
        blocks[i].startScenario.toNat < blocks[i].endScenario.toNat ∧
        blocks[i].endScenario.toNat ≤ spec.totalScenarios.toNat ∧
        (∀ (hnext : i + 1 < blocks.length),
          blocks[i + 1].startScenario = blocks[i].endScenario) ∧
        (spec.antithetic = true → blocks[i].startScenario.toNat % 2 = 0 ∧
          blocks[i].endScenario.toNat % 2 = 0)) ∧
      (∀ scenario < spec.totalScenarios.toNat, ∃! i, ∃ hi : i < blocks.length,
        blocks[i].startScenario.toNat ≤ scenario ∧ scenario < blocks[i].endScenario.toNat) ∧
      ∀ candidate, (∃ state, makeCoordinatorState build spec config candidate = .ok state) ↔
        candidate.map ScenarioBlock.range = blocks.map ScenarioBlock.range ∧
          UniformLease candidate := by
  have hs := RunSpec.accepted_of_validate hspec
  rw [← blockCount_toNat hs, ← UInt64.le_iff_toNat_le] at hlimit
  have hmake := makeBlocks_of_le hspec hconfig hlimit
  obtain ⟨-, -, hpos, -, -⟩ := makeBlocks_eq_ok hmake
  refine ⟨_, hmake, ?_, ?_, ?_, ?_⟩
  · rw [List.length_map, List.length_range, blockCount_toNat hs]
  · intro i hi
    have hcount : i < (blockCount spec config.blockSize).toNat := by simpa using hi
    have hlt := mul_blockSize_lt hs hcount
    simp only [List.getElem_map, List.getElem_range]
    refine ⟨makeBlock_blockId hcount, makeBlock_start hs hcount, ?_,
      makeBlock_start_lt_stop hs hpos hcount, ?_, ?_, ?_⟩
    · rw [makeBlock_stop hs hcount, makeBlock_start hs hcount, Nat.add_mul, Nat.one_mul]
      omega
    · rw [makeBlock_stop hs hcount]
      exact Nat.min_le_right _ _
    · intro hnext
      exact makeBlock_stop_eq hs (by simpa using hnext)
    · intro hanti
      exact makeBlock_even hs hanti (EngineConfig.blockSize_even hconfig hanti) hcount
  · intro scenario hscenario
    obtain ⟨i, ⟨hi, hin⟩, hunique⟩ := existsUnique_block hs hpos hscenario
    refine ⟨i, ⟨by simpa using hi, by simpa using hin⟩, ?_⟩
    rintro j ⟨hj, hin'⟩
    exact hunique j ⟨by simpa using hj, by simpa using hin'⟩
  · intro candidate
    rw [← canonicalBlocks_iff]
    constructor
    · rintro ⟨state, hstate⟩
      exact canonicalBlocks_of_makeCoordinatorState hstate
    · rintro ⟨incarnation, hc⟩
      obtain ⟨layoutHash, hlayout⟩ := executionLayoutHash_of_makeBlocks hmake
      exact ⟨_, makeCoordinatorState_of_canonical hspec hconfig hc
        (runSpecHash_of_validate hspec) hlayout⟩

/-- Three scenarios in blocks of the largest even size below `2 ^ 64`: one block, ending at 3. -/
theorem block_universe_three_scenarios :
    ∃ blocks, makeBlocks threeScenarios
        { twoWorkers with blockSize := UInt64.ofNat (2 ^ 64 - 2) } = .ok blocks ∧
      blocks.length = 1 ∧
      ∀ candidate, (∃ state, makeCoordinatorState ⟨[]⟩ threeScenarios
          { twoWorkers with blockSize := UInt64.ofNat (2 ^ 64 - 2) } candidate = .ok state) ↔
        candidate.map ScenarioBlock.range = blocks.map ScenarioBlock.range ∧
          UniformLease candidate := by
  obtain ⟨blocks, hmake, hlength, -, -, haccepts⟩ := block_universe ⟨[]⟩ threeScenarios
    { twoWorkers with blockSize := UInt64.ofNat (2 ^ 64 - 2) } (by decide)
    (by decide) (by decide)
  exact ⟨blocks, hmake, hlength, haccepts⟩

end MonteCarlo
