import MonteCarlo.Engine.SingleRun
import MonteCarlo.Engine.Stages
import MonteCarlo.Store.Ownership

/-!
# How often a run passes its failure points

A run with one worker in an empty directory passes every failure point of a block result once for
each block, those of a manifest once for each checkpoint and once more for the manifest of `open`,
and the one after the installation once for each checkpoint.

* `Tally` — how often each failure point has been passed.
* `Tallied` — the variables, the directory and the counts between two results.
* `Tallied.consume`, `Tallied.consumeAll` — one result, and all of them.
-/

namespace MonteCarlo

open Effects Effects.Program

/-! ## Counts -/

/-- How often a failure point has been passed. -/
def passed (trace : Trace) (point : FailurePoint) : ℕ := trace.countP fun hit => hit.1 = point

/-- The number for each failure point, by those of the results, the manifests and the checkpoints. -/
def FailurePoint.tally (results manifests checkpoints : ℕ) : FailurePoint → ℕ
  | .resultBeforeFileFsync | .resultAfterFileFsync | .resultBeforeRename | .resultAfterRename =>
    results
  | .manifestBeforeFileFsync | .manifestAfterFileFsync | .manifestBeforeRename
  | .manifestAfterRename => manifests
  | .manifestAfterInstallBeforeMemory => checkpoints

/-- The trace has these counts. -/
def Tally (trace : Trace) (results manifests checkpoints : ℕ) : Prop :=
  ∀ point, passed trace point = point.tally results manifests checkpoints

section Counts

variable {trace : Trace} {results manifests checkpoints : ℕ}

theorem passed_append (first second : Trace) (point : FailurePoint) :
    passed (first ++ second) point = passed first point + passed second point :=
  List.countP_append

theorem Tally.result (h : Tally trace results manifests checkpoints) (context : FailureContext) :
    Tally (trace ++ (WriteContext.blockResult context).allHits) (results + 1) manifests
      checkpoints := by
  intro point
  rw [passed_append, h point]
  cases point <;> rfl

theorem Tally.manifest (h : Tally trace results manifests checkpoints) (context : FailureContext) :
    Tally (trace ++ (WriteContext.manifest context).allHits) results (manifests + 1)
      checkpoints := by
  intro point
  rw [passed_append, h point]
  cases point <;> rfl

theorem Tally.checkpoint (h : Tally trace results manifests checkpoints)
    (context : FailureContext) :
    Tally (trace ++ checkpointHits context) results (manifests + 1) (checkpoints + 1) := by
  intro point
  rw [passed_append, h point]
  cases point <;> rfl

end Counts

/-! ## Between two results -/

/-- The number of blocks that have a result. -/
def DurableMemory.count (memory : DurableMemory) : ℕ := memory.received.countP id

/-- Between two results of a run in an empty directory, after `checkpoints` periodic checkpoints. -/
structure Tallied (spec : RunSpec) (interval : UInt64) (memory : DurableMemory) (disk : Disk)
    (trace : Trace) (checkpoints : ℕ) : Prop where
  corresponds : Corresponds spec memory.store memory.coordinator
  interval_eq : memory.store.config.checkpointIntervalBlocks = interval
  received : memory.coordinator.committedPayloads.map (·.isSome) = memory.received
  /-- A block without a result has no file. -/
  free : ∀ (i : ℕ) block, memory.coordinator.blocks[i]? = some block →
    memory.received[i]? = some false → disk.lookup (blockPathFor block) = none
  /-- There is no manifest above the last one. -/
  above : ∀ sequence, memory.store.recovery.manifestSequence.toNat < sequence.toNat →
    disk.lookup (manifestPathFor sequence) = none
  small : memory.coordinator.blocks.length < 2 ^ 64
  recovered : memory.recoveredBlocks = 0
  computed : memory.computedBlocks.toNat = memory.count
  pending : memory.pendingSinceCheckpoint.toNat + interval.toNat * checkpoints = memory.count
  tally : Tally trace memory.count (checkpoints + 1) checkpoints

/-- A checkpoint is made as soon as it is due, but not after the last result. -/
structure Cadence (interval : UInt64) (memory : DurableMemory) : Prop where
  bounded : memory.pendingSinceCheckpoint.toNat ≤ interval.toNat
  inside : memory.count < memory.coordinator.blocks.length →
    memory.pendingSinceCheckpoint.toNat < interval.toNat
  last : memory.count = memory.coordinator.blocks.length →
    0 < memory.pendingSinceCheckpoint.toNat

section Step

variable {spec : RunSpec} {interval : UInt64} {memory next : DurableMemory} {disk : Disk}
  {trace trace' : Trace} {checkpoints : ℕ} {env : Environment} {world after : World}
  {completed : BlockResult} {store : DurableRunStore}

theorem Tallied.length_received (h : Tallied spec interval memory disk trace checkpoints) :
    memory.received.length = memory.coordinator.blocks.length := by
  rw [← h.received, List.length_map, h.corresponds.length]

/-- The block of an accepted result. -/
theorem Tallied.accepted (h : Tallied spec interval memory disk trace checkpoints)
    (haccepted : AcceptedBy memory.coordinator completed) :
    memory.coordinator.blocks[completed.block.blockId.toNat]? = some completed.block ∧
      memory.received[completed.block.blockId.toNat]? = some false := by
  obtain ⟨block, hblock, hstart, hend, hlease, -⟩ := haccepted.expected
  obtain ⟨hindex, hget⟩ := List.getElem?_eq_some_iff.mp hblock
  have hid : block.blockId = completed.block.blockId := by
    have hpositioned := h.corresponds.serves.positioned _ hindex
    rw [hget] at hpositioned
    exact UInt64.toNat_inj.mp hpositioned
  have hincarnation : block.runIncarnation = completed.block.runIncarnation := by
    rw [h.corresponds.serves.incarnation block (List.mem_of_getElem? hblock),
      haccepted.runIncarnation]
  have heq : completed.block = block := by
    obtain ⟨id, start, stop, incarnation, lease⟩ := block
    cases hcompleted : completed.block
    simp_all
  constructor
  · rw [hblock, heq]
  · have hlength : completed.block.blockId.toNat < memory.coordinator.committedPayloads.length := by
      rw [h.corresponds.length]
      exact hindex
    have hfresh := haccepted.fresh
    rw [List.getElem?_eq_getElem hlength] at hfresh
    rw [← h.received, List.getElem?_map, List.getElem?_eq_getElem hlength,
      show memory.coordinator.committedPayloads[completed.block.blockId.toNat] = none from hfresh]
    rfl

/-- Another block has another file. -/
theorem blockPathFor_ne {block other : ScenarioBlock} (h : block.blockId ≠ other.blockId) :
    blockPathFor block ≠ blockPathFor other := by
  intro hpath
  have hname : blockName block = blockName other := congrArg Path.name hpath
  have hid : block.attempt.blockId = other.attempt.blockId := by rw [blockName_injective hname]
  exact h hid

theorem Tallied.count_le (h : Tallied spec interval memory disk trace checkpoints) :
    memory.count ≤ memory.coordinator.blocks.length := by
  rw [← h.length_received]
  exact List.countP_le_length

/-- One more block has a result. -/
theorem Tallied.count_committed (h : Tallied spec interval memory disk trace checkpoints)
    (haccepted : AcceptedBy memory.coordinator completed) (store : DurableRunStore) :
    (memory.committed store completed).count = memory.count + 1 ∧
      memory.count < memory.coordinator.blocks.length := by
  obtain ⟨hindex, hget⟩ := List.getElem?_eq_some_iff.mp (h.accepted haccepted).2
  have hcount : (memory.committed store completed).count = memory.count + 1 := by
    show (memory.received.set completed.block.blockId.toNat true).countP id = _
    rw [List.countP_set hindex, hget]
    rfl
  have hle : (memory.committed store completed).count ≤ memory.received.length := by
    show (memory.received.set completed.block.blockId.toNat true).countP id ≤ _
    exact List.countP_le_length.trans (List.length_set ..).le
  rw [h.length_received] at hle
  exact ⟨hcount, by omega⟩

theorem toNat_succ {n : UInt64} {bound : ℕ} (hn : n.toNat < bound) (hbound : bound < 2 ^ 64) :
    (n + 1).toNat = n.toNat + 1 := by
  rw [UInt64.toNat_add, UInt64.toNat_one]
  omega

/-- A result that has been recorded and committed. -/
theorem Tallied.record (h : Tallied spec interval memory disk trace checkpoints)
    (haccepted : AcceptedBy memory.coordinator completed) (hworld : disk.Same world.disk)
    (hrecord : run env.traced (recordResult memory.store completed) (world, trace) =
      (.ok store, (after, trace'))) :
    ∃ next, next.Same after.disk ∧
      Tallied spec interval (memory.committed store completed) next trace' checkpoints := by
  obtain ⟨hblock, hreceived⟩ := h.accepted haccepted
  have hfree := h.free _ _ hblock hreceived
  have hnew := h.corresponds.fresh haccepted
  obtain ⟨context, rfl⟩ := trace_recordResult hnew
    ((hworld _ (lasting_blockPathFor _)).trans hfree) hrecord
  obtain ⟨next, hrecords, hnext⟩ := leaves_traced (wp_recordResult completed hworld) hrecord
  refine ⟨next, hnext, ?_⟩
  cases hrecords with
  | repeated hcheck hearlier hattempt =>
    rw [hnew] at hearlier
    cases hearlier
  | @written bytes usage next hcheck hnone hencode hinstalls =>
    obtain ⟨hcount, hlt⟩ := h.count_committed haccepted (memory.store.recorded completed usage)
    have hpending : memory.pendingSinceCheckpoint.toNat < memory.coordinator.blocks.length := by
      have := h.pending
      omega
    refine ⟨h.corresponds.commit haccepted usage, h.interval_eq, ?_, ?_, ?_, h.small, h.recovered,
      ?_, ?_, ?_⟩
    · show (memory.coordinator.committedPayloads.set _ _).map _ = memory.received.set _ true
      rw [List.map_set, h.received]
      rfl
    · intro i block hi hmissing
      change memory.coordinator.blocks[i]? = some block at hi
      change (memory.received.set completed.block.blockId.toNat true)[i]? = some false at hmissing
      have hne : i ≠ completed.block.blockId.toNat := by
        rintro rfl
        rw [List.getElem?_set_self (List.getElem?_eq_some_iff.mp hreceived).1] at hmissing
        cases hmissing
      rw [List.getElem?_set_ne hne.symm] at hmissing
      have hid : block.blockId ≠ completed.block.blockId := by
        intro hid
        obtain ⟨hlt, hget⟩ := List.getElem?_eq_some_iff.mp hi
        have hposition := h.corresponds.serves.positioned i hlt
        rw [hget, hid] at hposition
        exact hne hposition.symm
      rw [hinstalls.lookup_ne (blockPathFor_ne hid)]
      exact h.free i block hi hmissing
    · intro sequence hsequence
      rw [hinstalls.lookup_ne (by intro hpath; cases hpath)]
      exact h.above sequence hsequence
    · rw [hcount, ← h.computed]
      exact toNat_succ (by rw [h.computed]; exact hlt) h.small
    · rw [hcount, ← h.pending]
      show (memory.pendingSinceCheckpoint + 1).toNat + _ = _
      rw [toNat_succ hpending h.small]
      omega
    · rw [hcount]
      exact h.tally.result context

/-- What a checkpoint leaves. -/
theorem Tallied.installs (h : Tallied spec interval memory disk trace checkpoints)
    {status : DurableRunStatus} (hworld : disk.Same world.disk)
    (hcheckpoint : run env.traced (MonteCarlo.checkpoint memory.store memory.coordinator
      memory.leaves memory.received status) (world, trace) = (.ok store, (after, trace'))) :
    (∃ context, trace' = trace ++ checkpointHits context) ∧
      ∃ (next : Disk) (sequence : UInt64) (bytes : Bytes) (usage : StorageUsage),
        next.Same after.disk ∧ Installs disk (manifestPathFor sequence) bytes next ∧
        sequence.toNat = memory.store.recovery.manifestSequence.toNat + 1 ∧
        store = memory.store.checkpointed sequence status memory.received usage := by
  obtain ⟨next, hcheckpoints, hnext⟩ := leaves_traced (wp_checkpoint _ _ _ _ _ hworld) hcheckpoint
  obtain ⟨hmanifest, hencode, hlimit, hinstalls⟩ := hcheckpoints
  rename_i manifest bytes usage
  obtain ⟨hne, hsequence⟩ := checkpointManifest_sequence hmanifest
  have hlt : memory.store.recovery.manifestSequence.toNat < 2 ^ 64 - 1 := by
    have hmax : memory.store.recovery.manifestSequence.toNat ≠ 2 ^ 64 - 1 :=
      fun heq => hne (UInt64.toNat_inj.mp heq)
    have := UInt64.toNat_lt memory.store.recovery.manifestSequence
    omega
  have hsucc : (memory.store.recovery.manifestSequence + 1).toNat =
      memory.store.recovery.manifestSequence.toNat + 1 := toNat_succ hlt (by omega)
  have hfree : world.disk.lookup
      (manifestPathFor (memory.store.recovery.manifestSequence + 1)) = none := by
    rw [hworld _ (lasting_manifestPathFor _)]
    exact h.above _ (by omega)
  exact ⟨trace_checkpoint hfree hcheckpoint, next, manifest.sequence, bytes, usage, hnext,
    hinstalls, by rw [hsequence, hsucc], rfl⟩

/-- A periodic checkpoint. -/
theorem Tallied.checkpoint (h : Tallied spec interval memory disk trace checkpoints)
    (hdue : memory.pendingSinceCheckpoint.toNat = interval.toNat) (hworld : disk.Same world.disk)
    (hcheckpoint : run env.traced (MonteCarlo.checkpoint memory.store memory.coordinator
      memory.leaves memory.received) (world, trace) = (.ok store, (after, trace'))) :
    ∃ next, next.Same after.disk ∧
      Tallied spec interval (memory.afterCheckpoint store) next trace' (checkpoints + 1) := by
  obtain ⟨⟨context, rfl⟩, next, sequence, bytes, usage, hnext, hinstalls, hsequence, rfl⟩ :=
    h.installs hworld hcheckpoint
  refine ⟨next, hnext, h.corresponds.checkpoint _ _ _, h.interval_eq, h.received, ?_, ?_, h.small,
    h.recovered, h.computed, ?_, h.tally.checkpoint context⟩
  · intro i block hi hmissing
    rw [hinstalls.lookup_ne (by intro hpath; cases hpath)]
    exact h.free i block hi hmissing
  · intro later hlater
    change sequence.toNat < later.toNat at hlater
    have hne : later ≠ sequence := by
      rintro rfl
      exact lt_irrefl _ hlater
    rw [hinstalls.lookup_ne fun hpath => hne (manifestName_injective (congrArg Path.name hpath))]
    exact h.above later (by omega)
  · show (0 : UInt64).toNat + _ = memory.count
    rw [← h.pending, hdue, UInt64.toNat_zero, Nat.mul_add]
    omega

/-- When a checkpoint is due. -/
theorem Tallied.checkpointDue_iff (h : Tallied spec interval memory disk trace checkpoints) :
    memory.checkpointDue = true ↔ interval.toNat ≤ memory.pendingSinceCheckpoint.toNat ∧
      memory.count < memory.coordinator.blocks.length := by
  have hblocks : (UInt64.ofNat memory.store.recovery.blocks.length).toNat =
      memory.coordinator.blocks.length := by
    rw [← h.corresponds.blocks]
    exact UInt64.toNat_ofNat_of_lt' h.small
  rw [DurableMemory.checkpointDue, Bool.and_eq_true, decide_eq_true_eq, decide_eq_true_eq,
    h.interval_eq, h.recovered, UInt64.zero_add, UInt64.le_iff_toNat_le, UInt64.lt_iff_toNat_lt,
    h.computed, hblocks]

/-- One more result is pending. -/
theorem Tallied.pending_committed (h : Tallied spec interval memory disk trace checkpoints)
    (haccepted : AcceptedBy memory.coordinator completed) (store : DurableRunStore) :
    (memory.committed store completed).pendingSinceCheckpoint.toNat =
      memory.pendingSinceCheckpoint.toNat + 1 := by
  have hlt := (h.count_committed haccepted store).2
  have hpending := h.pending
  have hbound : memory.pendingSinceCheckpoint.toNat < memory.coordinator.blocks.length := by omega
  exact toNat_succ hbound h.small

/-- One result. -/
theorem Tallied.consume (h : Tallied spec interval memory disk trace checkpoints)
    (hcadence : Cadence interval memory) (hworld : disk.Same world.disk)
    (hrun : run env.traced (consumeDurable completed memory) (world, trace) =
      (.ok next, (after, trace'))) :
    ∃ disk' checkpoints', disk'.Same after.disk ∧ Cadence interval next ∧
      Tallied spec interval next disk' trace' checkpoints' := by
  cases consumes_of_run hrun with
  | rejected => exact ⟨disk, checkpoints, hworld, hcadence, h⟩
  | @committed store _ haccepted hrecord hdue =>
    obtain ⟨disk', hsame, htallied⟩ := h.record haccepted hworld hrecord
    obtain ⟨hcount, hlt⟩ := h.count_committed haccepted store
    have hpending := h.pending_committed haccepted store
    have hinside := hcadence.inside hlt
    rw [← Bool.not_eq_true, htallied.checkpointDue_iff, not_and] at hdue
    refine ⟨disk', checkpoints, hsame, ⟨by omega, fun hlt' => ?_, fun _ => by omega⟩, htallied⟩
    by_contra hle
    exact hdue (not_lt.mp hle) hlt'
  | @checkpointed store store' middle _ haccepted hrecord hdue hcheckpoint =>
    obtain ⟨between, earlier⟩ := middle
    obtain ⟨disk', hsame, htallied⟩ := h.record haccepted hworld hrecord
    obtain ⟨hcount, hlt⟩ := h.count_committed haccepted store
    have hpending := h.pending_committed haccepted store
    have hinside := hcadence.inside hlt
    rw [htallied.checkpointDue_iff] at hdue
    obtain ⟨disk'', hsame', htallied'⟩ := htallied.checkpoint (by omega) hsame hcheckpoint
    refine ⟨disk'', checkpoints + 1, hsame', ⟨Nat.zero_le _, fun _ => ?_, fun hlast => ?_⟩,
      htallied'⟩
    · show (0 : UInt64).toNat < interval.toNat
      rw [UInt64.toNat_zero]
      omega
    · exact absurd hlast hdue.2.ne

/-- All results. -/
theorem Tallied.consumeAll (results : List BlockResult)
    (h : Tallied spec interval memory disk trace checkpoints) (hcadence : Cadence interval memory)
    (hworld : disk.Same world.disk)
    (hrun : run env.traced (Invocation.consumeAll results memory) (world, trace) =
      (.ok next, (after, trace'))) :
    next.coordinator.blocks = memory.coordinator.blocks ∧
      ∃ disk' checkpoints', disk'.Same after.disk ∧ Cadence interval next ∧
        Tallied spec interval next disk' trace' checkpoints' := by
  induction results generalizing memory disk trace checkpoints world with
  | nil =>
    cases hrun
    exact ⟨rfl, disk, checkpoints, hworld, hcadence, h⟩
  | cons completed rest ih =>
    rw [Invocation.consumeAll_cons] at hrun
    obtain ⟨middle, ⟨between, earlier⟩, hconsume, hrest⟩ := run_bind_eq_ok hrun
    obtain ⟨disk', checkpoints', hsame, hcadence', htallied⟩ :=
      h.consume hcadence hworld hconsume
    obtain ⟨hblocks, hrest'⟩ := ih htallied hcadence' hsame hrest
    exact ⟨hblocks.trans (consumes_of_run hconsume).blocks, hrest'⟩

/-- Rounding up. -/
theorem ceilDiv_of_cadence {blocks interval pending checkpoints : ℕ}
    (hsum : pending + interval * checkpoints = blocks) (hpos : 0 < pending)
    (hle : pending ≤ interval) : (blocks + interval - 1) / interval = checkpoints + 1 := by
  have hcomm : interval * checkpoints = checkpoints * interval := Nat.mul_comm _ _
  refine Nat.div_eq_of_lt_le ?_ ?_
  · rw [Nat.add_mul, Nat.one_mul]
    omega
  · rw [Nat.add_mul, Nat.add_mul, Nat.one_mul]
    omega

/-- The last checkpoint. -/
theorem Tallied.finish (h : Tallied spec interval memory disk trace checkpoints)
    (hcadence : Cadence interval memory) (hworld : disk.Same world.disk) {workers : ℕ}
    {result : DurableRunResult}
    (hrun : run env.traced (finishDurable spec memory workers) (world, trace) =
      (.ok result, (after, trace'))) :
    let blocks := memory.coordinator.blocks.length
    let manifests := (blocks + interval.toNat - 1) / interval.toNat
    Tally trace' blocks (1 + manifests) manifests := by
  obtain ⟨_, hall, hrest⟩ := run_ofExcept_bind_eq_ok hrun
  rw [throwIf_eq_ok] at hall
  have hcount : memory.count = memory.coordinator.blocks.length := by
    rw [← h.length_received, DurableMemory.count, List.countP_eq_length]
    intro flag hflag
    have hset := List.any_eq_false.mp hall flag hflag
    simpa using hset
  obtain ⟨store, ⟨completed, earlier⟩, hcheckpoint, hresult⟩ := run_bind_eq_ok hrest
  obtain ⟨⟨context, rfl⟩, -⟩ := h.installs hworld hcheckpoint
  rw [run_ofExcept] at hresult
  obtain ⟨-, hstate⟩ := Prod.mk.inj hresult
  cases hstate
  have hceil := ceilDiv_of_cadence (h.pending.trans hcount) (hcadence.last hcount) hcadence.bounded
  dsimp only
  rw [hceil, ← hcount, Nat.add_comm 1]
  exact h.tally.checkpoint context

end Step

/-! ## The beginning -/

section Beginning

variable {env : Environment} {args : OpenArguments} {disk next : Disk} {store : DurableRunStore}

/-- A directory without manifests is not resumed. -/
theorem Trail.Of.loaded_none {trail : Trail} (h : trail.Of env args disk)
    (hmanifests : ∀ sequence, disk.lookup (manifestPathFor sequence) = none) :
    (∀ sequence, trail.registered.lookup (manifestPathFor sequence) = none) ∧
      trail.load.loaded = none := by
  have hfree : ∀ sequence, trail.registered.lookup (manifestPathFor sequence) = none := by
    intro sequence
    rw [h.registers.lookup_ne (by intro hpath; cases hpath)]
    exact hmanifests sequence
  refine ⟨hfree, ?_⟩
  by_contra hsome
  obtain ⟨snapshot, hsnapshot⟩ := Option.ne_none_iff_exists'.mp hsome
  obtain ⟨bytes, hfile, -⟩ := (h.loads.qualifies snapshot hsnapshot).2.file
  rw [Disk.file, hfree] at hfile
  cases hfile

/-- What `open` makes of a directory without manifests and block results. -/
theorem Opens.fresh (h : Opens env args disk store next)
    (hmanifests : ∀ sequence, disk.lookup (manifestPathFor sequence) = none)
    (hresults : ∀ block, disk.lookup (blockPathFor block) = none) :
    ∃ blocks existed, makeBlocks args.spec args.engineConfig = .ok blocks ∧
      store.recovery = ⟨0, 1, .running, existed, blocks.map fun block => block.leased 1 1,
        List.replicate blocks.length none⟩ ∧
      store.config = args.config ∧
      (∀ block, next.lookup (blockPathFor block) = none) ∧
      ∀ sequence, 0 < sequence.toNat → next.lookup (manifestPathFor sequence) = none := by
  obtain @⟨trail, usage, next, htrail, hcleans, -⟩ := h
  obtain ⟨hfree, hloaded⟩ := htrail.loaded_none hmanifests
  have hregistered : ∀ block, trail.registered.lookup (blockPathFor block) = none := by
    intro block
    rw [htrail.registers.lookup_ne (by intro hpath; cases hpath)]
    exact hresults block
  have hkept : ∀ path, path.Lasting → trail.recovered.lookup path = none →
      next.lookup path = none := by
    intro path hpath hnone
    rcases hcleans path hpath with hsame | ⟨-, hgone⟩
    · rw [hsame, hnone]
    · exact hgone
  have hrecovers := htrail.recovers
  generalize htrail_recovery : trail.recovery = recovery at hrecovers
  generalize htrail_recovered : trail.recovered = recovered at hrecovers
  cases hrecovers with
  | started hload hmanifest hinstalls =>
    obtain ⟨bytes, -, hinstalls⟩ := hinstalls
    refine ⟨trail.blocks, trail.existed, htrail.blocks, rfl, rfl, ?_, ?_⟩
    · intro block
      refine hkept _ (lasting_blockPathFor block) ?_
      rw [htrail_recovered, hinstalls.lookup_ne (by intro hpath; cases hpath)]
      exact hregistered block
    · intro sequence hsequence
      refine hkept _ (lasting_manifestPathFor sequence) ?_
      rw [htrail_recovered, hinstalls.lookup_ne]
      · exact hfree sequence
      · intro hpath
        have hzero : sequence = 0 :=
          (manifestName_injective (congrArg Path.name hpath)).trans
            (makeManifestFromResults_eq_ok hmanifest).sequence
        rw [hzero] at hsequence
        exact lt_irrefl _ hsequence
  | resumed hload => rw [hloaded] at hload; cases hload
  | ended hload => rw [hloaded] at hload; cases hload

/-- No failure point has been passed. -/
theorem tally_nil : Tally [] 0 0 0 := by
  intro point
  cases point <;> rfl

/-- An interval that is asked for is the one in use. -/
theorem OpenArguments.config_of_interval (h : args.storeConfig.checkpointIntervalBlocks ≠ 0) :
    args.config = args.storeConfig := by
  rw [OpenArguments.config, resolveCheckpointCadence, if_pos h]

theorem OpenArguments.config_interval (h : args.storeConfig.checkpointIntervalBlocks ≠ 0) :
    args.config.checkpointIntervalBlocks = args.storeConfig.checkpointIntervalBlocks := by
  rw [config_of_interval h]

end Beginning

namespace Invocation

variable {inv : Invocation} {env : Environment} {clock nonce : ℕ} {world : World}
  {trace : Trace}

/-- The number of blocks of the invocation. -/
def blocks (inv : Invocation) : ℕ := (blockCount inv.spec inv.engineConfig.blockSize).toNat

/-- Before the first result. -/
theorem tallied_of_open {store : DurableRunStore} {memory : DurableMemory}
    (hinterval : inv.storeConfig.checkpointIntervalBlocks ≠ 0)
    (hopen : run env.traced inv.openStore (⟨∅, clock, nonce⟩, []) = (.ok store, (world, trace)))
    (hbegin : beginRun inv.build inv.spec inv.engineConfig store = .ok memory) :
    ∃ disk, disk.Same world.disk ∧ memory.coordinator.blocks.length = inv.blocks ∧
      Cadence inv.storeConfig.checkpointIntervalBlocks memory ∧
      Tallied inv.spec inv.storeConfig.checkpointIntervalBlocks memory disk trace 0 := by
  let args : OpenArguments := ⟨inv.build, inv.spec, inv.engineConfig, inv.storeConfig⟩
  have hopen' : run env.traced args.openStore (⟨∅, clock, nonce⟩, []) =
      (.ok store, (world, trace)) := hopen
  obtain ⟨context, rfl⟩ := trace_openStore (fun _ => rfl) hopen'
  obtain ⟨disk, hopens, hsame⟩ := leaves_traced (wp_openStore args _) hopen'
  obtain ⟨blocks, existed, hblocks, hrecovery, hconfig, hfree, habove⟩ :=
    hopens.fresh (fun _ => rfl) fun _ => rfl
  obtain ⟨-, -, -, -, hmake⟩ := makeBlocks_eq_ok hblocks
  have hcorresponds := corresponds_of_beginRun ((returns_openStore _ _ _ _).run hopen)
    (by rw [hrecovery]) hbegin
  obtain ⟨-, coordinator, hcoordinator, rfl⟩ := beginRun_eq_ok hbegin
    (by rw [hrecovery]; simp)
  obtain ⟨hspec, -, -, hcblocks, -⟩ := makeCoordinatorState_eq_ok hcoordinator
  have hlength : coordinator.blocks.length = inv.blocks := by
    rw [hcblocks, hrecovery, List.length_map, hmake, List.length_map, List.length_range]
    rfl
  have hpos : 0 < inv.blocks := by
    rw [Invocation.blocks, blockCount_toNat (RunSpec.accepted_of_validate hspec)]
    exact Nat.add_pos_left Nat.one_pos _
  have hcount : (store.recovery.committedResults.map (·.isSome)).countP id = 0 := by
    rw [hrecovery, List.map_replicate, List.countP_replicate]
    rfl
  have hinterval' : 0 < inv.storeConfig.checkpointIntervalBlocks.toNat :=
    Nat.pos_of_ne_zero fun h => hinterval (UInt64.toNat_inj.mp h)
  refine ⟨disk, hsame, hlength, ⟨Nat.zero_le _, fun _ => hinterval', fun hlast => ?_⟩,
    hcorresponds, ?_, ?_, ?_, ?_, ?_, ?_, ?_, ?_, ?_⟩
  · have hnothing : 0 = coordinator.blocks.length := hcount.symm.trans hlast
    omega
  · exact (congrArg _ hconfig).trans (args.config_interval hinterval)
  · simp
  · intro i block _ _
    exact hfree block
  · intro sequence hsequence
    refine habove sequence ?_
    rw [hrecovery] at hsequence
    exact hsequence
  · show coordinator.blocks.length < 2 ^ 64
    rw [hlength]
    exact UInt64.toNat_lt _
  · rw [hrecovery, List.countP_replicate]
    rfl
  · exact hcount.symm
  · exact hcount.symm
  · show Tally _ ((store.recovery.committedResults.map (·.isSome)).countP id) (0 + 1) 0
    rw [hcount]
    exact tally_nil.manifest context

/-- A durable run in an empty directory that returns has passed every failure point of a block
result once for each block, those of a manifest once for each checkpoint and once for `open`, and
the one after the installation once for each checkpoint. -/
theorem RunParallelDurable.tally {result : DurableRunResult}
    (hinterval : inv.storeConfig.checkpointIntervalBlocks ≠ 0)
    (hruns : inv.RunParallelDurable env.traced (⟨∅, clock, nonce⟩, []) (.ok result)
      (world, trace)) :
    let interval := inv.storeConfig.checkpointIntervalBlocks.toNat
    let checkpoints := (inv.blocks + interval - 1) / interval
    Tally trace inv.blocks (1 + checkpoints) checkpoints := by
  generalize houtcome : (Except.ok result : Result DurableRunResult) = outcome at hruns
  generalize hfinal : (world, trace) = final at hruns
  cases hruns with
  | openThrows hopen => cases houtcome
  | beginThrows hopen hbegin => cases houtcome
  | complete hopen hbegin hstatus =>
    subst hfinal
    obtain ⟨disk, hsame, hlength, hcadence, htallied⟩ := tallied_of_open hinterval hopen hbegin
    have hrunning := htallied.corresponds.running
    rw [(beginRun_coordinator hbegin).1, hstatus] at hrunning
    cases hrunning
  | executionThrows hbegins hexecutes herror => cases houtcome
  | @finishes memory ending workers s' hbegins hexecutes hworkers =>
    obtain ⟨opened, before⟩ := s'
    obtain ⟨store, hopen, hbegin, -⟩ := hbegins.opened
    obtain ⟨disk, hsame, hlength, hcadence, htallied⟩ := tallied_of_open hinterval hopen hbegin
    obtain ⟨-, hconsume⟩ := executes_sequential_ok hbegins hexecutes hworkers
    obtain ⟨hblocks, disk', checkpoints, hsame', hcadence', htallied'⟩ :=
      htallied.consumeAll _ hcadence hsame hconsume
    have htally := htallied'.finish hcadence' hsame' (Prod.ext houtcome.symm hfinal.symm)
    rw [hblocks, hlength] at htally
    exact htally

end Invocation

end MonteCarlo
