import MonteCarlo.Engine.SingleRun
import MonteCarlo.Engine.Stages
import MonteCarlo.Store.Attached

/-!
# Exactly-once recovery

Whatever has happened to the run directory before, an invocation of `run_parallel_durable` that
returns has every block exactly once: as a result read back from a file, or as one computed now.
A file of a block result was written by an invocation of the same run, so both are what computing
the block gives.

* `Tracks` — the variables of `run_parallel_durable` agree with the store and the files.
* `Genuine` — every block result on disk is what computing the block gives.
* `History` — the directories that invocations, deaths and damage lead to.
-/

namespace MonteCarlo

open Effects Effects.Program

/-! ## The variables and the store -/

/-- The variables of `run_parallel_durable` agree with the store, and the store with the files. -/
structure Tracks (expected : RunMetadata) (canonical : List ScenarioBlock) (inv : Invocation)
    (memory : DurableMemory) (disk : Disk) : Prop where
  attached : Attached expected canonical inv.arguments memory.store disk
  corresponds : Corresponds inv.spec memory.store memory.coordinator
  leaves : memory.leaves = leavesOf memory.store.durableResults
  received : memory.received = memory.store.durableResults.map (·.isSome)
  payloads : memory.coordinator.committedPayloads =
    memory.store.durableResults.map (·.map (·.payloadChecksum))

section Tracks

variable {expected : RunMetadata} {canonical : List ScenarioBlock} {inv : Invocation}
  {memory : DurableMemory} {disk next : Disk} {env : Environment} {store : DurableRunStore}
  {completed : BlockResult}

/-- The variables with which an execution begins. -/
theorem Opens.beginRun_eq (hopens : Opens env inv.arguments disk store next)
    (hrun : RunOf expected canonical inv.arguments) (howned : Owned expected disk)
    (hbegin : beginRun inv.build inv.spec inv.engineConfig store = .ok memory) :
    store.recovery.status ≠ .failed ∧ ∃ coordinator : CoordinatorState,
      memory =
        { store := store
          coordinator := { coordinator with
            committedPayloads := store.durableResults.map (·.map (·.payloadChecksum)) }
          leaves := leavesOf store.durableResults
          received := store.durableResults.map (·.isSome)
          recoveredBlocks := UInt64.ofNat (store.durableResults.countP (·.isSome))
          recoveredScenarios := UInt64.ofNat (scenariosOf store.durableResults)
          computedBlocks := 0
          computedScenarios := 0
          pendingSinceCheckpoint := 0 } := by
  obtain ⟨leases, hblocks, hsound⟩ := (hopens.attached hrun howned).leased
  obtain @⟨trail, usage, next, htrail, hcleans, horphans⟩ := hopens
  have hlength : trail.recovery.committedResults.length = trail.recovery.blocks.length := by
    have hleased : trail.recovery.blocks = leaseAll _ canonical leases := hblocks
    rw [hleased, length_leaseAll hsound.leases_length]
    exact hsound.length_eq
  obtain ⟨hfailed, coordinator, -, hmemory⟩ := beginRun_eq_ok hbegin hlength
  exact ⟨hfailed, coordinator, hmemory⟩

theorem Opens.tracks (hopens : Opens env inv.arguments disk store next)
    (hrun : RunOf expected canonical inv.arguments) (howned : Owned expected disk)
    (hopened : Opened inv.build inv.spec inv.engineConfig inv.storeConfig store)
    (hbegin : beginRun inv.build inv.spec inv.engineConfig store = .ok memory)
    (hstatus : store.recovery.status ≠ .complete) :
    Tracks expected canonical inv memory next := by
  obtain ⟨hfailed, coordinator, hmemory⟩ := hopens.beginRun_eq hrun howned hbegin
  have hrunning : store.recovery.status = .running := by
    cases hcase : store.recovery.status with
    | running => rfl
    | complete => exact absurd hcase hstatus
    | failed => exact absurd hcase hfailed
  have hcorresponds := Invocation.corresponds_of_beginRun hopened hrunning hbegin
  subst hmemory
  exact ⟨hopens.attached hrun howned, hcorresponds, rfl, rfl, rfl⟩

/-- An accepted result is that of a block without one. -/
theorem Tracks.accepted (h : Tracks expected canonical inv memory disk)
    (haccepted : AcceptedBy memory.coordinator completed) :
    memory.store.durableResults[completed.block.blockId.toNat]? = some none := by
  obtain ⟨block, hblock, -⟩ := haccepted.expected
  have hindex : completed.block.blockId.toNat < memory.store.durableResults.length := by
    have hlength := h.corresponds.length
    rw [h.payloads, List.length_map] at hlength
    rw [hlength]
    exact (List.getElem?_eq_some_iff.mp hblock).1
  have hnone := h.corresponds.fresh haccepted
  rw [List.getElem?_eq_getElem hindex] at hnone ⊢
  exact congrArg some hnone

/-- A result that has been recorded. -/
theorem Tracks.records (h : Tracks expected canonical inv memory disk)
    (hrun : RunOf expected canonical inv.arguments)
    (haccepted : AcceptedBy memory.coordinator completed)
    (hrecords : Records memory.store completed disk store next) :
    (∃ usage, store = memory.store.recorded completed usage) ∧
      Installs disk (blockPathFor completed.block) (completed.fileBytes expected) next ∧
      Tracks expected canonical inv (memory.committed store completed) next := by
  have hattached := hrecords.attached hrun h.attached
  cases hrecords with
  | repeated hcheck hearlier hattempt =>
    rw [h.corresponds.fresh haccepted] at hearlier
    cases hearlier
  | @written bytes usage next hcheck hnew hencode hinstalls =>
    refine ⟨⟨usage, rfl⟩, ?_, hattached, h.corresponds.commit haccepted usage, ?_, ?_, ?_⟩
    · obtain ⟨-, -, rfl⟩ := encodeBlockRecord_eq_ok.mp hencode
      rw [h.attached.metadata.runId] at hinstalls
      exact hinstalls
    · show memory.leaves.set _ _ = leavesOf (memory.store.durableResults.set _ _)
      rw [h.leaves, leavesOf, leavesOf, List.map_set]
      rfl
    · show memory.received.set _ _ = (memory.store.durableResults.set _ _).map _
      rw [h.received, List.map_set]
      rfl
    · show memory.coordinator.committedPayloads.set _ _ = (memory.store.durableResults.set _ _).map _
      rw [h.payloads, List.map_set]
      rfl

/-- A checkpoint. -/
theorem Tracks.checkpoints (h : Tracks expected canonical inv memory disk)
    (hcheckpoints : Checkpoints memory.store memory.coordinator memory.leaves memory.received
      .running none disk store next) :
    Tracks expected canonical inv (memory.afterCheckpoint store) next := by
  have hattached := hcheckpoints.attached h.attached
  obtain ⟨hmanifest, hencode, hlimit, hinstalls⟩ := hcheckpoints
  exact ⟨hattached, h.corresponds.checkpoint _ _ _, h.leaves, h.received, h.payloads⟩

end Tracks

/-! ## The files of the block results -/

section Files

variable {env : Environment} {args : OpenArguments} {expected : RunMetadata}
  {canonical : List ScenarioBlock} {disk next : Disk} {path : Path}

theorem lasting_of_blockResults (hpath : path.dir = .blockResults) : path.Lasting := by
  refine ⟨by rw [hpath]; nofun, ?_⟩
  rintro rfl
  cases hpath

/-- Recovery writes manifests only. -/
theorem Recovers.lookup_ne {metadata : RunMetadata} {existed : Bool} {load : LoadResult}
    {blocks : List ScenarioBlock} {recovery : DurableRecoveryState}
    (h : Recovers metadata existed load blocks disk recovery next) (hpath : path.dir ≠ .manifests) :
    next.lookup path = disk.lookup path := by
  have hne : ∀ sequence, path ≠ manifestPathFor sequence := by
    rintro sequence rfl
    exact hpath rfl
  cases h with
  | started hload hmanifest hinstalls =>
    obtain ⟨bytes, -, hinstalls⟩ := hinstalls
    exact hinstalls.lookup_ne (hne _)
  | resumed hload hstatus hincarnation hsequence hmanifest hinstalls =>
    obtain ⟨bytes, -, hinstalls⟩ := hinstalls
    exact hinstalls.lookup_ne (hne _)
  | ended hload hstatus => rfl

theorem Trail.Of.lookup_blockResults {trail : Trail} (h : trail.Of env args disk)
    (hpath : path.dir = .blockResults) : trail.recovered.lookup path = disk.lookup path := by
  rw [h.recovers.lookup_ne (by rw [hpath]; nofun)]
  exact h.registers.lookup_ne (by rintro rfl; cases hpath)

/-- `open` writes no block result. -/
theorem OpenStage.lookup_blockResults (h : OpenStage env args disk next)
    (hpath : path.dir = .blockResults) :
    next.lookup path = disk.lookup path ∨ next.lookup path = none := by
  cases h with
  | untouched => exact Or.inl rfl
  | registered hexpected hregisters =>
    exact Or.inl (hregisters.lookup_ne (by rintro rfl; cases hpath))
  | recovered htrail => exact Or.inl (htrail.lookup_blockResults hpath)
  | cleaning htrail hcleans =>
    refine (hcleans path (lasting_of_blockResults hpath)).imp ?_ fun h => h.2
    intro hsame
    rw [hsame, htrail.lookup_blockResults hpath]

/-- The directory stays with its run. -/
theorem OpenStage.owned (h : OpenStage env args disk next) (hrun : RunOf expected canonical args)
    (howned : Owned expected disk) : Owned expected next := by
  have hfound : ∀ {bytes}, next.file metadataPath = some bytes →
      encodeRunMetadata expected = .ok bytes → Owned expected next := by
    intro bytes hfile hencode other hother
    rw [hfile] at hother
    cases hother
    exact hencode
  cases h with
  | untouched => exact howned
  | registered hexpected hregisters =>
    rw [hrun.expected] at hexpected
    cases hexpected
    obtain ⟨-, bytes, hfile, hencode⟩ := hregisters.owned hrun howned
    exact hfound hfile hencode
  | recovered htrail =>
    obtain ⟨bytes, hfile, hencode⟩ := htrail.file hrun howned
    exact hfound hfile hencode
  | cleaning htrail hcleans =>
    obtain ⟨bytes, hfile, hencode⟩ := htrail.file hrun howned
    refine hfound ?_ hencode
    rw [hcleans.file lasting_metadataPath nofun]
    exact hfile

end Files

/-! ## Genuine results -/

/-- The directory has no metadata or that of the run, and every block result in it is what
computing the block gives. -/
structure Genuine (kernels : RunSpec → Result (ModelKernel Binary64)) (expected : RunMetadata)
    (disk : Disk) : Prop where
  owned : Owned expected disk
  computed : ∀ path bytes record, path.dir = .blockResults → disk.file path = some bytes →
    decodeBlockRecord bytes = .ok record →
    computeBlock kernels expected.spec record.result.block = .ok record.result.aggregate

section Genuine

variable {kernels : RunSpec → Result (ModelKernel Binary64)} {expected : RunMetadata}
  {canonical : List ScenarioBlock} {disk next : Disk}

/-- No block result comes into being. -/
theorem Genuine.shrink (h : Genuine kernels expected disk) (howned : Owned expected next)
    (hshrink : ∀ path : Path, path.dir = .blockResults →
      next.lookup path = disk.lookup path ∨ next.lookup path = none) :
    Genuine kernels expected next := by
  refine ⟨howned, fun path bytes record hpath hfile hdecode => ?_⟩
  rcases hshrink path hpath with hsame | hnone
  · refine h.computed path bytes record hpath ?_ hdecode
    rw [Disk.file, ← hsame]
    exact hfile
  · rw [Disk.file, hnone] at hfile
    cases hfile

theorem Genuine.same (h : Genuine kernels expected disk) (hsame : disk.Same next) :
    Genuine kernels expected next := by
  refine h.shrink ?_ fun path hpath => Or.inl (hsame path (lasting_of_blockResults hpath))
  intro bytes hfile
  refine h.owned bytes ?_
  rw [Disk.file, ← hsame _ lasting_metadataPath]
  exact hfile

/-- A file that is not the metadata and not a block result. -/
theorem Genuine.installs_manifest (h : Genuine kernels expected disk) {sequence : UInt64}
    {bytes : Bytes} (hinstalls : Installs disk (manifestPathFor sequence) bytes next) :
    Genuine kernels expected next := by
  refine h.shrink ?_ fun path hpath => Or.inl (hinstalls.lookup_ne (by rintro rfl; cases hpath))
  intro bytes hfile
  refine h.owned bytes ?_
  rw [Disk.file, ← hinstalls.lookup_ne (by intro hpath; cases hpath)]
  exact hfile

/-- A block result that has been computed. -/
theorem Genuine.installs_result (h : Genuine kernels expected disk) {result : BlockResult}
    (hcomputed : computeBlock kernels expected.spec result.block = .ok result.aggregate)
    (hvalid : ValidResult expected canonical result)
    (hinstalls : Installs disk (blockPathFor result.block) (result.fileBytes expected) next) :
    Genuine kernels expected next := by
  refine ⟨?_, fun path bytes record hpath hfile hdecode => ?_⟩
  · intro bytes hfile
    refine h.owned bytes ?_
    rw [Disk.file, ← hinstalls.lookup_ne (by intro hpath; cases hpath)]
    exact hfile
  · by_cases hown : path = blockPathFor result.block
    · rw [hown, hinstalls.file] at hfile
      cases hfile
      rw [decodeBlockRecord_encodeBlockRecord hvalid.encodeBlockRecord] at hdecode
      cases hdecode
      exact hcomputed
    · refine h.computed path bytes record hpath ?_ hdecode
      rw [Disk.file, ← hinstalls.lookup_ne hown]
      exact hfile

/-- What is stored has been computed. -/
theorem Genuine.stored (h : Genuine kernels expected disk) {result : BlockResult}
    (hvalid : ValidResult expected canonical result) (hstored : Stored disk expected result) :
    computeBlock kernels expected.spec result.block = .ok result.aggregate :=
  h.computed _ _ ⟨expected.runId, result⟩ rfl hstored
    (decodeBlockRecord_encodeBlockRecord hvalid.encodeBlockRecord)

end Genuine

/-! ## Every block once -/

section Counting

variable {expected : RunMetadata} {canonical : List ScenarioBlock} {spec : RunSpec}
  {config : EngineConfig} {incarnation : UInt64} {leases : List UInt64}
  {results : List (Option BlockResult)}

/-- The results of some of the blocks are those of their blocks. -/
theorem SoundResults.forall₂ (h : SoundResults expected canonical incarnation leases results) :
    List.Forall₂ (fun result block => ∀ r, result = some r →
      r.block.startScenario = block.startScenario ∧ r.block.endScenario = block.endScenario)
      results canonical := by
  rw [List.forall₂_iff_get]
  refine ⟨h.length_eq, fun i hi hi' r hr => ?_⟩
  have hget : results[i]? = some (some r) := by
    rw [List.getElem?_eq_getElem hi]
    exact congrArg some hr
  obtain ⟨hid, hvalid⟩ := h.valid i r hget
  obtain ⟨block, hblock, heq⟩ := hvalid.block
  rw [hid, List.getElem?_eq_getElem hi'] at hblock
  cases hblock
  rw [heq]
  exact ⟨rfl, rfl⟩

/-- Some of the sizes are at most all of them, and all of them when every block has a result. -/
theorem scenariosOf_le {blocks : List ScenarioBlock}
    (h : List.Forall₂ (fun result block => ∀ r, result = some r →
      r.block.startScenario = block.startScenario ∧ r.block.endScenario = block.endScenario)
      results blocks)
    (hordered : ∀ block ∈ blocks, block.startScenario ≤ block.endScenario) :
    let total := (blocks.map fun b => b.endScenario.toNat - b.startScenario.toNat).sum
    scenariosOf results ≤ total ∧ (results.any (·.isNone) = false → scenariosOf results = total) := by
  induction h with
  | nil => exact ⟨le_rfl, fun _ => rfl⟩
  | @cons result block results blocks hhead htail ih =>
    obtain ⟨hle, heq⟩ := ih fun b hb => hordered b (List.mem_cons_of_mem _ hb)
    have hsize : (block.endScenario - block.startScenario).toNat =
        block.endScenario.toNat - block.startScenario.toNat :=
      UInt64.toNat_sub_of_le _ _ (hordered block List.mem_cons_self)
    cases result with
    | none =>
      refine ⟨?_, fun hall => by simp at hall⟩
      show 0 + scenariosOf results ≤ _
      rw [List.map_cons, List.sum_cons]
      omega
    | some r =>
      obtain ⟨hstart, hend⟩ := hhead r rfl
      have hcons : scenariosOf (some r :: results) =
          (block.endScenario.toNat - block.startScenario.toNat) + scenariosOf results := by
        rw [← hsize, ← hstart, ← hend]
        rfl
      rw [hcons]
      refine ⟨?_, fun hall => ?_⟩
      · rw [List.map_cons, List.sum_cons]
        omega
      · rw [List.map_cons, List.sum_cons, heq (by simpa using hall)]

/-- The blocks of a run are not empty. -/
theorem ordered_makeBlocks (h : makeBlocks spec config = .ok canonical) :
    ∀ block ∈ canonical, block.startScenario ≤ block.endScenario := by
  obtain ⟨hspec, -, hpos, -, rfl⟩ := makeBlocks_eq_ok h
  intro block hblock
  obtain ⟨i, hi, rfl⟩ := List.mem_map.mp hblock
  exact UInt64.le_iff_toNat_le.mpr (makeBlock_start_lt_stop (RunSpec.accepted_of_validate hspec)
    hpos (List.mem_range.mp hi)).le

/-- The scenarios of the results are those of the run, or some of them. -/
theorem SoundResults.scenarios (h : SoundResults expected canonical incarnation leases results)
    (hblocks : makeBlocks spec config = .ok canonical) :
    scenariosOf results ≤ spec.totalScenarios.toNat ∧
      (results.any (·.isNone) = false → scenariosOf results = spec.totalScenarios.toNat) := by
  rw [← sum_sizes_makeBlocks hblocks]
  exact scenariosOf_le h.forall₂ (ordered_makeBlocks hblocks)

/-- One more result. -/
theorem scenariosOf_set {i : ℕ} {result : BlockResult} (hnone : results[i]? = some none) :
    scenariosOf (results.set i (some result)) =
      scenariosOf results + (result.block.endScenario - result.block.startScenario).toNat := by
  induction results generalizing i with
  | nil => cases hnone
  | cons first rest ih =>
    cases i with
    | zero =>
      obtain rfl : first = none := Option.some.inj hnone
      show (result.block.endScenario - result.block.startScenario).toNat + scenariosOf rest =
        0 + scenariosOf rest + _
      omega
    | succ i =>
      have hrest := ih (i := i) (by simpa using hnone)
      rw [List.set_cons_succ]
      show _ + scenariosOf (rest.set i (some result)) = _ + scenariosOf rest + _
      rw [hrest]
      omega

theorem countP_set {i : ℕ} {result : BlockResult} (hnone : results[i]? = some none) :
    (results.set i (some result)).countP (·.isSome) = results.countP (·.isSome) + 1 := by
  obtain ⟨hlt, hget⟩ := List.getElem?_eq_some_iff.mp hnone
  rw [List.countP_set hlt, hget]
  rfl

end Counting

/-- The counters of `run_parallel_durable` add up to what the store has. -/
structure Counted (memory : DurableMemory) : Prop where
  blocks : memory.recoveredBlocks.toNat + memory.computedBlocks.toNat =
    memory.store.durableResults.countP (·.isSome)
  scenarios : memory.recoveredScenarios.toNat + memory.computedScenarios.toNat =
    scenariosOf memory.store.durableResults

section Recovery

variable {expected : RunMetadata} {canonical : List ScenarioBlock} {inv : Invocation}
  {memory : DurableMemory} {disk next : Disk} {env : Environment} {store : DurableRunStore}
  {completed : BlockResult}

theorem RunOf.makeBlocks (hrun : RunOf expected canonical inv.arguments) :
    MonteCarlo.makeBlocks inv.spec inv.engineConfig = .ok canonical := hrun.canonical

/-- There are fewer than 2^64 blocks and scenarios. -/
theorem Attached.bounds (h : Attached expected canonical inv.arguments store disk)
    (hrun : RunOf expected canonical inv.arguments) :
    store.durableResults.countP (·.isSome) < 2 ^ 64 ∧ scenariosOf store.durableResults < 2 ^ 64 := by
  obtain ⟨leases, -, hsound⟩ := h.leased
  constructor
  · refine lt_of_le_of_lt List.countP_le_length ?_
    rw [hsound.length_eq, hrun.length]
    exact UInt64.toNat_lt _
  · exact lt_of_le_of_lt (hsound.scenarios hrun.makeBlocks).1 (UInt64.toNat_lt _)

/-- The counters with which an execution begins. -/
theorem Opens.counted (hopens : Opens env inv.arguments disk store next)
    (hrun : RunOf expected canonical inv.arguments) (howned : Owned expected disk)
    (hbegin : beginRun inv.build inv.spec inv.engineConfig store = .ok memory) :
    Counted memory := by
  obtain ⟨hblocks, hscenarios⟩ := (hopens.attached hrun howned).bounds hrun
  obtain ⟨-, coordinator, rfl⟩ := hopens.beginRun_eq hrun howned hbegin
  constructor
  · show (UInt64.ofNat _).toNat + 0 = _
    rw [UInt64.toNat_ofNat_of_lt' hblocks, Nat.add_zero]
  · show (UInt64.ofNat _).toNat + 0 = _
    rw [UInt64.toNat_ofNat_of_lt' hscenarios, Nat.add_zero]

/-- One more result. -/
theorem Counted.records (h : Counted memory) (htracks : Tracks expected canonical inv memory disk)
    (hrun : RunOf expected canonical inv.arguments)
    (haccepted : AcceptedBy memory.coordinator completed)
    (hrecords : Records memory.store completed disk store next) :
    Counted (memory.committed store completed) := by
  obtain ⟨⟨usage, rfl⟩, -, htracks'⟩ := htracks.records hrun haccepted hrecords
  have hnone := htracks.accepted haccepted
  obtain ⟨hblocks, hscenarios⟩ := htracks'.attached.bounds hrun
  have hcount : ((memory.committed (memory.store.recorded completed usage)
      completed).store.durableResults).countP (·.isSome) =
        memory.store.durableResults.countP (·.isSome) + 1 := countP_set hnone
  have hsum : scenariosOf (memory.committed (memory.store.recorded completed usage)
      completed).store.durableResults = scenariosOf memory.store.durableResults +
        (completed.block.endScenario - completed.block.startScenario).toNat :=
    scenariosOf_set hnone
  rw [hcount] at hblocks
  rw [hsum] at hscenarios
  have hold := h.blocks
  have hold' := h.scenarios
  constructor
  · rw [hcount]
    show memory.recoveredBlocks.toNat + (memory.computedBlocks + 1).toNat = _
    rw [UInt64.toNat_add, UInt64.toNat_one]
    omega
  · rw [hsum]
    show memory.recoveredScenarios.toNat + (memory.computedScenarios +
      (completed.block.endScenario - completed.block.startScenario)).toNat = _
    rw [UInt64.toNat_add]
    omega

/-- A store that is complete has a result for every block. -/
theorem Opens.complete (hopens : Opens env inv.arguments disk store next)
    (hrun : RunOf expected canonical inv.arguments) (howned : Owned expected disk)
    (hstatus : store.recovery.status = .complete) :
    store.durableResults.any (·.isNone) = false := by
  obtain @⟨trail, usage, next, htrail, hcleans, horphans⟩ := hopens
  change trail.recovery.status = .complete at hstatus
  change trail.recovery.committedResults.any (·.isNone) = false
  have hrecovers := htrail.recovers
  generalize trail.recovery = recovery at hrecovers hstatus ⊢
  generalize trail.recovered = recovered at hrecovers
  cases hrecovers with
  | started hload hmanifest hinstalls => cases hstatus
  | resumed hload hstatus' hincarnation hsequence hmanifest hinstalls => cases hstatus
  | @ended snapshot hload hended =>
    obtain ⟨hqualifies, -⟩ := htrail.loaded hrun howned hload
    obtain ⟨bytes, -, -, hdecode⟩ := hqualifies.file
    refine hqualifies.results.complete (decodeManifest_accepted hdecode) ?_ hstatus
    rw [hrun.length, blockCount_of_checkIdentity hqualifies.identity]

/-- The result of a run that has every block: that of `run_parallel` on the same layout. -/
structure ExactlyOnce (inv : Invocation) (result : DurableRunResult) : Prop where
  aggregate : ∃ r, runParallelResult inv.kernels inv.spec inv.engineConfig = .ok r ∧
    r.aggregate = result.run.aggregate ∧ r.blockCount = result.run.blockCount
  blocks : result.recoveredBlocks.toNat + result.computedBlocks.toNat =
    result.run.blockCount.toNat
  scenarios : result.recoveredScenarios.toNat + result.computedScenarios.toNat =
    inv.spec.totalScenarios.toNat

/-- When every block has a result that is what computing it gives. -/
theorem exactlyOnce_of_durable (hrun : RunOf expected canonical inv.arguments) {workers : ℕ}
    {result : DurableRunResult} (hresult : durableResult inv.spec memory workers = .ok result)
    (hattached : Attached expected canonical inv.arguments memory.store disk)
    (hgenuine : Genuine inv.kernels expected disk)
    (hleaves : memory.leaves = leavesOf memory.store.durableResults) (hcounted : Counted memory)
    (hall : memory.store.durableResults.any (·.isNone) = false) :
    ExactlyOnce inv result := by
  obtain ⟨leases, hblocks, hsound⟩ := hattached.leased
  have hlength : memory.store.durableResults.length = canonical.length := hsound.length_eq
  have hsome : memory.store.durableResults.countP (·.isSome) = canonical.length := by
    rw [← hlength, List.countP_eq_length]
    intro r hr
    have hnot := List.any_eq_false.mp hall r hr
    rwa [Bool.not_eq_true, Option.isNone_eq_false_iff] at hnot
  have hcomputed : List.Forall₂ (fun block leaf =>
      computeBlock inv.kernels inv.spec block = .ok leaf) canonical memory.leaves := by
    rw [hleaves, leavesOf, List.forall₂_map_right_iff]
    rw [List.forall₂_iff_get]
    refine ⟨hlength.symm, fun i hi hi' => ?_⟩
    have hget := List.any_eq_false.mp hall _ (List.get_mem memory.store.durableResults ⟨i, hi'⟩)
    rw [Bool.not_eq_true, Option.isNone_eq_false_iff] at hget
    obtain ⟨r, hr⟩ := Option.isSome_iff_exists.mp hget
    have hr' : memory.store.durableResults[i]? = some (some r) := by
      rw [List.getElem?_eq_getElem hi']
      exact congrArg some hr
    obtain ⟨hid, hvalid⟩ := hsound.valid i r hr'
    have hstored := hgenuine.stored hvalid (hattached.stored i r hr')
    obtain ⟨block, hblock, heq⟩ := hvalid.block
    rw [hid, List.getElem?_eq_getElem hi] at hblock
    cases hblock
    rw [hr]
    rw [hrun.expected_spec] at hstored
    refine Eq.trans (computeBlock_congr inv.kernels inv.spec ?_ ?_) hstored
    · rw [heq]; rfl
    · rw [heq]; rfl
  obtain ⟨aggregate, hreduce, hpure⟩ := Result.bind_eq_ok.mp hresult
  cases hpure
  have hcount : memory.store.recovery.blocks.length = canonical.length := by
    rw [hblocks, length_leaseAll hsound.leases_length]
  refine ⟨⟨⟨aggregate, inv.spec.totalScenarios, UInt64.ofNat memory.store.recovery.blocks.length,
    min inv.engineConfig.workerCount memory.store.recovery.blocks.length⟩, ?_, rfl, rfl⟩, ?_, ?_⟩
  · rw [runParallelResult, hrun.makeBlocks, Result.ok_bind, reduceComputedBlocks,
      mapM_computeBlock hcomputed, Result.ok_bind, hreduce, Result.ok_bind, ← hcount]
    rfl
  · show memory.recoveredBlocks.toNat + memory.computedBlocks.toNat = (UInt64.ofNat _).toNat
    rw [hcounted.blocks, hsome, hcount, UInt64.toNat_ofNat_of_lt']
    rw [hrun.length]
    exact UInt64.toNat_lt _
  · show memory.recoveredScenarios.toNat + memory.computedScenarios.toNat = _
    rw [hcounted.scenarios]
    exact (hsound.scenarios hrun.makeBlocks).2 hall

/-- What an execution has between two results. -/
structure Recovering (expected : RunMetadata) (canonical : List ScenarioBlock) (inv : Invocation)
    (memory : DurableMemory) (disk : Disk) : Prop where
  tracks : Tracks expected canonical inv memory disk
  counted : Counted memory
  genuine : Genuine inv.kernels expected disk

/-- A run keeps the block results genuine. -/
theorem keeps_recovering (hrun : RunOf expected canonical inv.arguments)
    (hgenuine : Genuine inv.kernels expected disk) :
    inv.Keeps env disk (Recovering expected canonical inv) (Genuine inv.kernels expected) where
  opening next hstage := hgenuine.shrink (hstage.owned hrun hgenuine.owned)
    fun path hpath => hstage.lookup_blockResults hpath
  begins store memory next hopened hopens hbegin hstatus := by
    refine ⟨hopens.tracks hrun hgenuine.owned hopened hbegin hstatus,
      hopens.counted hrun hgenuine.owned hbegin, ?_⟩
    obtain @⟨trail, usage, next, htrail, hcleans, horphans⟩ := hopens
    have hstage : OpenStage env inv.arguments disk next := .cleaning htrail hcleans
    exact hgenuine.shrink (hstage.owned hrun hgenuine.owned)
      fun path hpath => hstage.lookup_blockResults hpath
  holds memory now h := h.genuine
  records memory now completed store next h haccepted hcomputed hrecords := by
    obtain ⟨⟨usage, hstore⟩, hinstalls, htracks⟩ := h.tracks.records hrun haccepted hrecords
    refine ⟨htracks, h.counted.records h.tracks hrun haccepted hrecords, ?_⟩
    obtain ⟨leases, -, hsound⟩ := htracks.attached.leased
    obtain ⟨hlt, -⟩ := List.getElem?_eq_some_iff.mp (h.tracks.accepted haccepted)
    have hvalid := (hsound.valid completed.block.blockId.toNat completed (by
      show store.durableResults[_]? = _
      rw [hstore, DurableRunStore.recorded, List.getElem?_set_self hlt])).2
    exact h.genuine.installs_result (by rw [hrun.expected_spec]; exact hcomputed) hvalid hinstalls
  checkpoints memory now store next h hcheckpoints := by
    refine ⟨h.tracks.checkpoints hcheckpoints, ?_, ?_⟩
    · obtain ⟨hmanifest, hencode, hlimit, hinstalls⟩ := hcheckpoints
      exact ⟨h.counted.blocks, h.counted.scenarios⟩
    · obtain ⟨hmanifest, hencode, hlimit, hinstalls⟩ := hcheckpoints
      exact h.genuine.installs_manifest hinstalls
  fails memory now failure store next h _ hcheckpoints := by
    obtain ⟨hmanifest, hencode, hlimit, hinstalls⟩ := hcheckpoints
    exact h.genuine.installs_manifest hinstalls
  finishes memory now store next h hcheckpoints := by
    obtain ⟨hmanifest, hencode, hlimit, hinstalls⟩ := hcheckpoints
    exact h.genuine.installs_manifest hinstalls

/-- A run that returns has every block exactly once. -/
theorem exactlyOnce_of_returns {world after : World} (hrun : RunOf expected canonical inv.arguments)
    (hgenuine : Genuine inv.kernels expected world.disk) {result : DurableRunResult}
    (hruns : inv.RunParallelDurable env.handle world (.ok result) after) :
    ExactlyOnce inv result := by
  have hkeeps : inv.Keeps env world.disk (Recovering expected canonical inv)
      (Genuine inv.kernels expected) := keeps_recovering hrun hgenuine
  rcases hkeeps.returns hruns with ⟨store, memory, next, hopened, hopens, hbegin, hstatus, hresult,
    -⟩ | ⟨next, ⟨memory, now, store, workers, h, hall, hcheckpoints, hresult⟩, -⟩
  · have hattached := hopens.attached hrun hgenuine.owned
    have hcounted := hopens.counted hrun hgenuine.owned hbegin
    have hcomplete := hopens.complete hrun hgenuine.owned hstatus
    have hgenuine' : Genuine inv.kernels expected next := by
      obtain @⟨trail, usage, next, htrail, hcleans, horphans⟩ := hopens
      have hstage : OpenStage env inv.arguments world.disk next := .cleaning htrail hcleans
      exact hkeeps.opening next hstage
    obtain ⟨-, coordinator, rfl⟩ := hopens.beginRun_eq hrun hgenuine.owned hbegin
    exact exactlyOnce_of_durable hrun hresult hattached hgenuine' rfl hcounted hcomplete
  · have hnone : memory.store.durableResults.any (·.isNone) = false := by
      rw [h.tracks.received, List.any_map] at hall
      simpa [Function.comp_def] using hall
    have hattached := hcheckpoints.attached h.tracks.attached
    have hgenuine' := hkeeps.finishes _ _ _ _ h hcheckpoints
    obtain ⟨hmanifest, hencode, hlimit, hinstalls⟩ := hcheckpoints
    exact exactlyOnce_of_durable hrun hresult hattached hgenuine' h.tracks.leaves
      ⟨h.counted.blocks, h.counted.scenarios⟩ hnone

end Recovery

/-! ## Histories -/

/-- One file of the manifests or of the block results is deleted, or damaged so that it no longer
decodes.  What becomes of a manifest does not matter. -/
inductive Damages (disk next : Disk) : Prop where
  | manifest {path : Path} (hdir : path.dir = .manifests)
      (hothers : ∀ other, other ≠ path → next.lookup other = disk.lookup other) : Damages disk next
  | blockResult {path : Path} (hdir : path.dir = .blockResults)
      (hothers : ∀ other, other ≠ path → next.lookup other = disk.lookup other)
      (hlost : ∀ bytes record, next.file path = some bytes → decodeBlockRecord bytes ≠ .ok record) :
      Damages disk next

/-- An invocation of the run: the same specification, block size and build. -/
structure Invocation.Of (kernels : RunSpec → Result (ModelKernel Binary64)) (build : BuildIdentity)
    (spec : RunSpec) (blockSize : UInt64) (inv : Invocation) : Prop where
  kernels : inv.kernels = kernels
  build : inv.build = build
  spec : inv.spec = spec
  blockSize : inv.engineConfig.blockSize = blockSize

/-- The run directories that invocations, deaths at any moment and damage in between lead to. -/
inductive History (kernels : RunSpec → Result (ModelKernel Binary64)) (build : BuildIdentity)
    (spec : RunSpec) (blockSize : UInt64) : Disk → Prop where
  | empty : History kernels build spec blockSize ∅
  | invoked {inv : Invocation} {env : Environment} {world now : World}
      (hhistory : History kernels build spec blockSize world.disk)
      (hof : inv.Of kernels build spec blockSize)
      (hvisits : inv.DurableVisits env.handle world now) :
      History kernels build spec blockSize now.disk
  | damaged {disk next : Disk} (hhistory : History kernels build spec blockSize disk)
      (hdamages : Damages disk next) : History kernels build spec blockSize next

section Histories

variable {kernels : RunSpec → Result (ModelKernel Binary64)} {build : BuildIdentity}
  {spec : RunSpec} {blockSize : UInt64} {expected : RunMetadata} {disk next : Disk}
  {inv : Invocation}

/-- What `open` expects does not depend on the rest of the configuration. -/
theorem expectedMetadata_unique {config config' : EngineConfig} {other : RunMetadata}
    (hsize : config.blockSize = config'.blockSize)
    (h : expectedMetadata build spec config = .ok expected)
    (h' : expectedMetadata build spec config' = .ok other) : expected = other := by
  obtain ⟨-, -, -, hspec, hlayout, heq⟩ := expectedMetadata_eq_ok h
  obtain ⟨-, -, -, hspec', hlayout', heq'⟩ := expectedMetadata_eq_ok h'
  rw [heq, heq', executionLayoutHash_congr hsize hlayout hlayout',
    Except.ok.inj (hspec.symm.trans hspec'), hsize]

theorem Genuine.damaged (h : Genuine kernels expected disk) (hdamages : Damages disk next) :
    Genuine kernels expected next := by
  have howned : ∀ {path : Path}, path ≠ metadataPath →
      (∀ other, other ≠ path → next.lookup other = disk.lookup other) → Owned expected next := by
    intro path hpath hothers bytes hfile
    refine h.owned bytes ?_
    rw [Disk.file, ← hothers _ hpath.symm]
    exact hfile
  cases hdamages with
  | manifest hdir hothers =>
    refine h.shrink (howned (by rintro rfl; cases hdir) hothers) fun path hpath => Or.inl ?_
    refine hothers path ?_
    rintro rfl
    rw [hdir] at hpath
    cases hpath
  | @blockResult lost hdir hothers hlost =>
    refine ⟨howned (by rintro rfl; cases hdir) hothers,
      fun path bytes record hpath hfile hdecode => ?_⟩
    by_cases hown : path = lost
    · rw [hown] at hfile
      exact absurd hdecode (hlost bytes record hfile)
    · refine h.computed path bytes record hpath ?_ hdecode
      rw [Disk.file, ← hothers path hown]
      exact hfile

/-- `open` throws at these arguments: they are invalid, or are not those of the run whose metadata
is there. -/
def OpenArguments.Refused (args : OpenArguments) (disk : Disk) : Prop :=
  ∀ expected, expectedMetadata args.build args.spec args.engineConfig = .ok expected →
    ∃ bytes persisted e, disk.file metadataPath = some bytes ∧
      decodeRunMetadata bytes = .ok persisted ∧ requireCompatible persisted expected = .error e

theorem OpenArguments.refused_of_error {args : OpenArguments} {e : Exception}
    (herror : expectedMetadata args.build args.spec args.engineConfig = .error e) :
    args.Refused disk := by
  intro expected hexpected
  rw [herror] at hexpected
  cases hexpected

/-- Such arguments come by no metadata. -/
theorem OpenArguments.Refused.not_registers {env : Environment} {args : OpenArguments}
    {expected metadata : RunMetadata} {existed : Bool} (h : args.Refused disk)
    (hexpected : expectedMetadata args.build args.spec args.engineConfig = .ok expected) :
    ¬ Registers env expected disk metadata existed next := by
  obtain ⟨bytes, persisted, e, hfile, hdecode, hrefused⟩ := h expected hexpected
  intro hregisters
  cases hregisters with
  | found hfile' hdecode' hcompatible =>
    rw [hfile] at hfile'
    cases hfile'
    rw [hdecode] at hdecode'
    cases hdecode'
    rw [hrefused] at hcompatible
    cases hcompatible
  | installed hfree hbare hencode =>
    rw [Disk.file, hfree] at hfile
    cases hfile

/-- The moments of an `open` that is refused. -/
theorem OpenStage.eq_of_refused {env : Environment} {args : OpenArguments}
    (h : OpenStage env args disk next) (hrefused : args.Refused disk) : next = disk := by
  cases h with
  | untouched => rfl
  | registered hexpected hregisters => exact absurd hregisters (hrefused.not_registers hexpected)
  | recovered htrail => exact absurd htrail.registers (hrefused.not_registers htrail.expected)
  | cleaning htrail hcleans => exact absurd htrail.registers (hrefused.not_registers htrail.expected)

theorem OpenArguments.Refused.not_opens {env : Environment} {args : OpenArguments}
    {store : DurableRunStore} (h : args.Refused disk) : ¬ Opens env args disk store next := by
  intro hopens
  obtain @⟨trail, usage, next, htrail, hcleans, horphans⟩ := hopens
  exact h.not_registers htrail.expected htrail.registers

/-- An invocation that is refused leaves the files as they are. -/
theorem Invocation.keeps_of_refused {env : Environment} (hrefused : inv.arguments.Refused disk) :
    inv.Keeps env disk (fun _ _ => False) (· = disk) where
  opening _ hstage := hstage.eq_of_refused hrefused
  begins _ _ _ _ hopens := absurd hopens hrefused.not_opens
  holds _ _ h := h.elim
  records _ _ _ _ _ h := h.elim
  checkpoints _ _ _ _ h := h.elim
  fails _ _ _ _ _ h := h.elim
  finishes _ _ _ _ h := h.elim

theorem genuine_empty : Genuine kernels expected ∅ := by
  refine ⟨nofun, fun path bytes record hpath hfile => ?_⟩
  rw [Disk.file, AList.lookup_empty] at hfile
  cases hfile

/-- Whatever has happened, the block results are genuine. -/
theorem History.genuine (h : History kernels build spec blockSize disk) {config : EngineConfig}
    (hsize : config.blockSize = blockSize)
    (hexpected : expectedMetadata build spec config = .ok expected) :
    Genuine kernels expected disk := by
  induction h with
  | empty => exact genuine_empty
  | @invoked inv env world now hhistory hof hvisits ih =>
    obtain ⟨rfl, rfl, rfl, hblock⟩ := hof
    cases hcase : expectedMetadata inv.build inv.spec inv.engineConfig with
    | error e =>
      obtain ⟨next, rfl, hsame⟩ :=
        (Invocation.keeps_of_refused (OpenArguments.refused_of_error hcase)).visits hvisits
      exact ih.same hsame
    | ok other =>
      obtain rfl := expectedMetadata_unique (hsize.trans hblock.symm) hexpected hcase
      obtain ⟨canonical, hrun⟩ := RunOf.of_expected inv.arguments hcase
      obtain ⟨next, hnext, hsame⟩ := (keeps_recovering hrun ih).visits hvisits
      exact hnext.same hsame
  | damaged hhistory hdamages ih => exact ih.damaged hdamages

end Histories

/-- Exactly-once recovery: after any history, an invocation that returns has the aggregate of
`run_parallel` on the same layout, and has recovered or computed every block and every scenario
once. -/
theorem exactly_once_recovery {kernels : RunSpec → Result (ModelKernel Binary64)}
    {build : BuildIdentity} {spec : RunSpec} {blockSize : UInt64} {inv : Invocation}
    {env : Environment} {world after : World} {result : DurableRunResult}
    (hhistory : History kernels build spec blockSize world.disk)
    (hof : inv.Of kernels build spec blockSize)
    (hruns : inv.RunParallelDurable env.handle world (.ok result) after) :
    ExactlyOnce inv result := by
  have hexpected : ∃ expected,
      expectedMetadata inv.build inv.spec inv.engineConfig = .ok expected := by
    cases hcase : expectedMetadata inv.build inv.spec inv.engineConfig with
    | ok expected => exact ⟨expected, rfl⟩
    | error e =>
      have hrefused : inv.arguments.Refused world.disk := OpenArguments.refused_of_error hcase
      rcases (Invocation.keeps_of_refused hrefused).returns hruns with
        ⟨store, memory, next, -, hopens, -⟩ | ⟨next, ⟨memory, now, store, workers, h, -⟩, -⟩
      · exact absurd hopens hrefused.not_opens
      · exact absurd h id
  obtain ⟨expected, hexpected⟩ := hexpected
  obtain ⟨canonical, hrun⟩ := RunOf.of_expected inv.arguments hexpected
  obtain ⟨rfl, rfl, rfl, hblock⟩ := hof
  exact exactlyOnce_of_returns hrun (hhistory.genuine hblock hexpected) hruns

/-- The state in which an invocation dies whose `run_spec.bin` has no other name yet than its
temporary one. -/
def diedWorld : World := stateAfter Environment.idle.handle twoScenariosRun.openStore 28 ⟨∅, 0, 0⟩

theorem visits_diedWorld :
    Visits Environment.idle.handle twoScenariosRun.openStore ⟨∅, 0, 0⟩ diedWorld :=
  visits_stateAfter _ _ _ _

/-- The next invocation clears away what is left there and computes both blocks. -/
theorem returned_twoScenarios : ∃ result after,
    (diedWorld.disk.entries .temporary).length = 1 ∧
      twoScenariosRun.RunParallelDurable Environment.idle.handle diedWorld (.ok result) after ∧
      result.recoveredBlocks = 0 ∧ result.computedBlocks = 2 := by
  have htest : (decide ((diedWorld.disk.entries .temporary).length = 1) &&
      (run Environment.idle.handle twoScenariosRun.singleProgram
        diedWorld).1.toOption.join.any fun result =>
          decide (result.recoveredBlocks = 0 ∧ result.computedBlocks = 2)) = true := by
    decide +kernel
  obtain ⟨hleft, hreturns⟩ := Bool.and_eq_true_iff.mp htest
  obtain ⟨result, hruns, hcounts⟩ := Invocation.exists_runs_of_single rfl _ hreturns
  obtain ⟨hrecovered, hcomputed⟩ := of_decide_eq_true hcounts
  exact ⟨result, _, of_decide_eq_true hleft, hruns, hrecovered, hcomputed⟩

/-- The first invocation dies, and the second one returns. -/
theorem exactly_once_recovery_two_scenarios :
    ∃ world result after,
      History twoScenariosRun.kernels ⟨[66]⟩ twoScenarios 1 world.disk ∧
        (world.disk.entries .temporary).length = 1 ∧
        twoScenariosRun.RunParallelDurable Environment.idle.handle world (.ok result) after ∧
        result.computedBlocks = 2 ∧ ExactlyOnce twoScenariosRun result := by
  obtain ⟨result, after, hleft, hruns, -, hcomputed⟩ := returned_twoScenarios
  have hhistory : History twoScenariosRun.kernels ⟨[66]⟩ twoScenarios 1 diedWorld.disk :=
    @History.invoked _ _ _ _ twoScenariosRun Environment.idle ⟨∅, 0, 0⟩ _ .empty
      ⟨rfl, rfl, rfl, rfl⟩ (.opening visits_diedWorld)
  exact ⟨diedWorld, result, after, hhistory, hleft, hruns, hcomputed,
    exactly_once_recovery hhistory ⟨rfl, rfl, rfl, rfl⟩ hruns⟩

end MonteCarlo
