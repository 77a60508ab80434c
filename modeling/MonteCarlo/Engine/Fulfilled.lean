import MonteCarlo.Engine.HookCounts
import MonteCarlo.Engine.Recovery
import MonteCarlo.Store.Unhindered

/-!
# Runs in which nothing fails

A durable run with one worker that starts in an empty directory, has the room that `open` asks for
and computes every block gets to its end, unless the run directory is written with a separator
behind its name.

* `Invocation.Computes` — every block can be computed, and every checkpoint can be reduced.
* `Fulfilling` — between two results of such a run.
* `Fulfilling.consumeAll` — every result is recorded, committed and checkpointed.
* `Invocation.exists_fulfilled` — the run returns.
-/

namespace MonteCarlo

open Effects Effects.Program

/-! ## Checkpoints that return -/

section Checkpoints

variable {store : DurableRunStore} {coordinator : CoordinatorState}
  {leaves : List (AggregateStats Binary64)} {received : List Bool}

/-- The entries of received blocks, when the coordinator and the leaves are those of the store. -/
theorem checkpointEntries_of_durable (hleaves : leaves = leavesOf store.durableResults)
    (hpayloads : coordinator.committedPayloads =
      store.durableResults.map (·.map (·.payloadChecksum))) (received : List Bool) (index : ℕ)
    (hreceived : ∀ (i : ℕ), received[i]? = some true →
      ∃ result, store.durableResults[index + i]? = some (some result)) :
    ∃ entries, checkpointEntries store coordinator leaves index received = .ok entries := by
  induction received generalizing index with
  | nil => exact ⟨[], rfl⟩
  | cons flag rest ih =>
    have hrest : ∀ (i : ℕ), rest[i]? = some true →
        ∃ result, store.durableResults[index + 1 + i]? = some (some result) := by
      intro i hi
      rw [show index + 1 + i = index + (i + 1) by omega]
      exact hreceived (i + 1) hi
    obtain ⟨entries, hentries⟩ := ih (index + 1) hrest
    cases flag with
    | false => exact ⟨entries, hentries⟩
    | true =>
      obtain ⟨result, hresult⟩ := hreceived 0 rfl
      rw [Nat.add_zero] at hresult
      have hpayload : (coordinator.committedPayloads[index]?).join =
          some result.payloadChecksum := by
        rw [hpayloads, List.getElem?_map, hresult]
        rfl
      have hleaf : leaves.getD index .empty = result.aggregate := by
        rw [hleaves, leavesOf, List.getD_eq_getElem?_getD, List.getElem?_map, hresult]
        rfl
      have hequal : AggregateStats.aggregatesEqual result.aggregate result.aggregate = true :=
        AggregateStats.aggregatesEqual_iff.mpr rfl
      refine ⟨result.entry :: entries, ?_⟩
      rw [checkpointEntries, hresult]
      dsimp only [Option.join_some]
      rw [hpayload, hleaf, hequal, decide_eq_false (not_not.mpr rfl), hentries]
      rfl

/-- The manifest of everything that is durable can be made. -/
theorem checkpointManifest_of_durable {status : DurableRunStatus} {spec : RunSpec}
    {aggregate : AggregateStats Binary64} (hcorresponds : Corresponds spec store coordinator)
    (hlength : store.durableResults.length = store.metadata.blockCount.toNat)
    (hleaves : leaves = leavesOf store.durableResults)
    (hreceived : received = store.durableResults.map (·.isSome))
    (hpayloads : coordinator.committedPayloads =
      store.durableResults.map (·.map (·.payloadChecksum)))
    (hincarnation : coordinator.runIncarnation = store.recovery.runIncarnation)
    (hcomplete : status = .complete → received.any (!·) = false) (hfailed : status ≠ .failed)
    (hsequence : store.recovery.manifestSequence ≠ maxWord)
    (hreduction : reduceBlockResults leaves = .ok aggregate) :
    ∃ manifest, checkpointManifest store coordinator leaves received status none =
      .ok manifest := by
  have hblocks : coordinator.blocks.length = store.metadata.blockCount.toNat := by
    rw [← hcorresponds.length, hpayloads, List.length_map, hlength]
  obtain ⟨entries, hentries⟩ := checkpointEntries_of_durable hleaves hpayloads received 0 (by
    intro i hi
    rw [hreceived, List.getElem?_map] at hi
    obtain ⟨result, hresult, hsome⟩ := Option.map_eq_some_iff.mp hi
    obtain ⟨found, rfl⟩ := Option.isSome_iff_exists.mp hsome
    exact ⟨found, by rw [Nat.zero_add, hresult]⟩)
  have huniverse : (decide (coordinator.runSpecHash ≠ store.metadata.runSpecHash)
      || decide (coordinator.executionLayoutHash ≠ store.metadata.executionLayoutHash)
      || decide (coordinator.buildFingerprint ≠ store.metadata.buildFingerprint)
      || decide (coordinator.runIncarnation ≠ store.recovery.runIncarnation)
      || decide (coordinator.blocks.length ≠ store.metadata.blockCount.toNat)
      || decide (leaves.length ≠ store.metadata.blockCount.toNat)
      || decide (received.length ≠ store.metadata.blockCount.toNat)) = false := by
    rw [hcorresponds.runSpecHash, hcorresponds.executionLayoutHash, hcorresponds.buildFingerprint,
      hincarnation, hblocks, hleaves, hreceived, leavesOf, List.length_map, List.length_map,
      hlength]
    simp
  have hall : (decide (status = .complete) && received.any (!·)) = false := by
    by_cases hstatus : status = .complete
    · rw [hcomplete hstatus, Bool.and_false]
    · rw [decide_eq_false hstatus, Bool.false_and]
  have hfailure : (decide (status = .failed) != (none : Option FailureRecord).isSome) = false := by
    rw [decide_eq_false hfailed]
    rfl
  have hrunning : ¬ store.recovery.status ≠ .running := not_not.mpr hcorresponds.running
  rw [checkpointManifest, decide_eq_false hrunning, huniverse, hall, hfailure, hentries,
    decide_eq_false hsequence, hreduction]
  exact ⟨_, rfl⟩

end Checkpoints

/-! ## Between two results -/

/-- Between two results of a run in which nothing fails, whose metadata has `size` bytes. -/
structure Fulfilling (expected : RunMetadata) (canonical : List ScenarioBlock) (inv : Invocation)
    (size : ℕ) (consumed rest : List BlockResult) (memory : DurableMemory) (disk : Disk)
    (trace : Trace) (checkpoints : ℕ) : Prop where
  tallied : Tallied inv.spec inv.storeConfig.checkpointIntervalBlocks memory disk trace checkpoints
  tracks : Tracks expected canonical inv memory disk
  tidy : disk.Tidy
  durable : memory.store.durableResults =
    consumed.map some ++ List.replicate rest.length none
  sequence : memory.store.recovery.manifestSequence.toNat = checkpoints
  bytes : memory.store.usage.bytes.toNat ≤ size + 512 * consumed.length +
    (checkpoints + 1) * (512 + 64 * expected.blockCount.toNat)
  files : memory.store.usage.files.toNat = 3 + consumed.length + checkpoints

section Fulfilling

variable {expected : RunMetadata} {canonical : List ScenarioBlock} {inv : Invocation}
  {metadata : Bytes} {total : UInt64} {size : ℕ} {consumed rest : List BlockResult}
  {memory : DurableMemory} {disk next : Disk} {trace : Trace} {checkpoints nonce : ℕ} {state : World × Trace}
  {env : Environment} {completed : BlockResult}

theorem Tallied.same {spec : RunSpec} {interval : UInt64}
    (h : Tallied spec interval memory disk trace checkpoints) (hsame : disk.Same next) :
    Tallied spec interval memory next trace checkpoints :=
  { h with
    free := fun i block hblock hreceived =>
      (hsame _ (lasting_blockPathFor block)).trans (h.free i block hblock hreceived)
    above := fun sequence hsequence =>
      (hsame _ (lasting_manifestPathFor sequence)).trans (h.above sequence hsequence) }

theorem Tracks.same (h : Tracks expected canonical inv memory disk) (hsame : disk.Same next) :
    Tracks expected canonical inv memory next :=
  { h with attached := h.attached.same hsame }

/-- `consume_result` from the recording of an accepted result on. -/
theorem run_consumeDurable_of_accepted {σ : Type} {h : Handler Op Reply σ} {s s' : σ}
    {store : DurableRunStore} (haccepted : AcceptedBy memory.coordinator completed)
    (hrecord : run h (recordResult memory.store completed) s = (.ok store, s')) :
    run h (consumeDurable completed memory) s =
      let next := memory.committed store completed
      run h (if next.checkpointDue then do
          let store' ← checkpoint next.store next.coordinator next.leaves next.received
          pure (next.afterCheckpoint store')
        else pure next) s' := by
  rw [consumeDurable, run_bind_ok (by rw [run_ofExcept, validateResult_of_valid haccepted]),
    if_neg (by decide), if_neg (by decide), run_bind_ok hrecord,
    run_bind_ok (by rw [run_ofExcept, commitResult_of_valid haccepted])]
  dsimp only
  rw [run_bind_ok (by rw [run_ofExcept]; rfl)]
  rfl

namespace Fulfilling

theorem count_eq (h : Fulfilling expected canonical inv size consumed rest memory disk
    trace checkpoints) : memory.count = consumed.length := by
  rw [DurableMemory.count, h.tracks.received, h.durable, List.map_append, List.map_map,
    List.map_replicate, List.countP_append, List.countP_replicate, List.countP_map]
  simp

theorem length_eq (hrun : RunOf expected canonical inv.arguments)
    (h : Fulfilling expected canonical inv size consumed rest memory disk trace
      checkpoints) :
    memory.coordinator.blocks.length = consumed.length + rest.length ∧
      expected.blockCount.toNat = consumed.length + rest.length := by
  have hlength := h.tracks.attached.length hrun
  have hpayloads := h.tracks.corresponds.length
  rw [h.tracks.payloads, List.length_map] at hpayloads
  rw [← hpayloads, ← h.tracks.attached.metadata.blockCount, ← hlength, h.durable]
  simp

/-- The leaves. -/
theorem leaves_eq (h : Fulfilling expected canonical inv size consumed rest memory disk
    trace checkpoints) :
    memory.leaves = consumed.map (·.aggregate) ++ List.replicate rest.length .empty := by
  rw [h.tracks.leaves, h.durable, leavesOf, List.map_append, List.map_map, List.map_replicate]
  rfl

/-- There have been as many checkpoints as there may be. -/
theorem checkpoints_le (hrun : RunOf expected canonical inv.arguments)
    (h : Fulfilling expected canonical inv size consumed rest memory disk trace
      checkpoints) (hinterval : inv.storeConfig.checkpointIntervalBlocks ≠ 0)
    (hmore : rest ≠ [] ∨ 0 < memory.pendingSinceCheckpoint.toNat) :
    checkpoints ≤
      (expected.blockCount.toNat - 1) / inv.storeConfig.checkpointIntervalBlocks.toNat := by
  have hpending := h.tallied.pending
  have hblocks := (h.length_eq hrun).2
  rw [h.count_eq] at hpending
  have hpos : 0 < inv.storeConfig.checkpointIntervalBlocks.toNat :=
    Nat.pos_of_ne_zero fun hzero => hinterval (UInt64.toNat_inj.mp hzero)
  have hless : inv.storeConfig.checkpointIntervalBlocks.toNat * checkpoints ≤
      expected.blockCount.toNat - 1 := by
    rcases hmore with hrest | hsome
    · have := List.length_pos_of_ne_nil hrest
      omega
    · omega
  rw [Nat.le_div_iff_mul_le hpos, Nat.mul_comm]
  exact hless

/-- There is room for three more manifests. -/
theorem checkpoints_room (hadmitted : inv.arguments.Admitted expected canonical metadata total)
    (hinterval : inv.storeConfig.checkpointIntervalBlocks ≠ 0)
    (h : Fulfilling expected canonical inv size consumed rest memory disk trace checkpoints)
    (hmore : rest ≠ [] ∨ 0 < memory.pendingSinceCheckpoint.toNat) :
    checkpoints + 3 ≤ inv.arguments.config.manifestRoom expected.blockCount.toNat := by
  have hcheckpoints := h.checkpoints_le hadmitted.run hinterval hmore
  unfold RunStoreConfig.manifestRoom
  rw [inv.arguments.config_interval hinterval]
  show _ ≤ 3 + (_ - 1) / inv.storeConfig.checkpointIntervalBlocks.toNat
  omega

/-- What `open` has asked for is enough for one more file. -/
theorem takes (hadmitted : inv.arguments.Admitted expected canonical metadata total)
    (henv : env.Supports (inv.arguments.needs total))
    (h : Fulfilling expected canonical inv metadata.length consumed rest memory disk trace
      checkpoints) {results manifests added : ℕ}
    (hbytes : memory.store.usage.bytes.toNat + added ≤ metadata.length + 512 * results +
      manifests * (512 + 64 * expected.blockCount.toNat))
    (hfiles : memory.store.usage.files.toNat < 2 + results + manifests)
    (hresults : results ≤ expected.blockCount.toNat)
    (hmanifests : manifests ≤ inv.arguments.config.manifestRoom expected.blockCount.toNat) :
    memory.store.config.Takes memory.store.usage added ∧
      env.Supports (added + memory.store.config.minFreeSpaceBytes.toNat) := by
  obtain ⟨htakes, hneeds⟩ := hadmitted.takes hbytes hfiles hresults hmanifests
  rw [h.tracks.attached.config]
  exact ⟨htakes, henv.mono (Nat.add_le_add_right hneeds _)⟩

/-- `record_result`. -/
theorem record (hadmitted : inv.arguments.Admitted expected canonical metadata total)
    (henv : env.Supports (inv.arguments.needs total))
    (hinterval : inv.storeConfig.checkpointIntervalBlocks ≠ 0)
    (h : Fulfilling expected canonical inv metadata.length consumed (completed :: rest) memory disk
      trace checkpoints)
    (haccepted : AcceptedBy memory.coordinator completed)
    (hposition : completed.block.blockId.toNat = consumed.length)
    (hstands : Stands disk nonce trace state) :
    ∃ store disk' trace', Settles env (recordResult memory.store completed) state store disk'
        (nonce + 1) trace' ∧
      Fulfilling expected canonical inv metadata.length (consumed ++ [completed]) rest
        (memory.committed store completed) disk' trace' checkpoints := by
  obtain ⟨hblock, hreceived⟩ := h.tallied.accepted haccepted
  obtain ⟨bytes, hencode⟩ := h.tracks.corresponds.encodeBlockRecord haccepted
  have hlength := length_encodeBlockRecord hencode
  have hblocks := (h.length_eq hadmitted.run).2
  rw [List.length_cons] at hblocks
  have hroom := h.checkpoints_room hadmitted hinterval (Or.inl (List.cons_ne_nil _ _))
  have hfiles := h.files
  have hbytes := h.bytes
  obtain ⟨htakes, hsupports⟩ := @takes _ _ _ _ _ _ _ _ _ _ _ _ hadmitted henv h
    (consumed.length + 1) (checkpoints + 1) bytes.length (by omega) (by omega) (by omega) (by omega)
  obtain ⟨trace', final, hrecord, hfinal⟩ := settles_recordResult
    (h.tracks.corresponds.checkRecord haccepted) (h.tracks.corresponds.fresh haccepted) hencode
    htakes hsupports (h.tallied.free _ _ hblock hreceived) h.tidy hstands
  obtain ⟨rfl, hnonce, rfl⟩ := hstands
  obtain ⟨hdisk, -, rfl⟩ := id hfinal
  refine ⟨_, _, _, ⟨final, hrecord, hfinal⟩, ?_⟩
  obtain ⟨hplus, hfile⟩ := StorageUsage.toNat_plus htakes
  obtain ⟨next, hsame, htallied⟩ := h.tallied.record haccepted (Disk.Same.refl _) hrecord
  obtain ⟨later, hrecords, hlater⟩ := leaves_traced
    (wp_recordResult completed (Disk.Same.refl _)) hrecord
  obtain ⟨-, -, htracks⟩ := h.tracks.records hadmitted.run haccepted hrecords
  rw [hdisk] at hsame hlater
  refine ⟨htallied.same hsame, htracks.same hlater, h.tidy.insert (by intro h; cases h) _, ?_,
    h.sequence, ?_, ?_⟩
  · show memory.store.durableResults.set completed.block.blockId.toNat (some completed) = _
    rw [h.durable, hposition, List.length_cons, List.replicate_succ, List.set_append_right _ _
      (List.length_map _).le, List.length_map, Nat.sub_self, List.map_append]
    simp
  · show (memory.store.usage.plus bytes.length).bytes.toNat ≤ _
    rw [hplus, List.length_append, List.length_singleton]
    omega
  · show (memory.store.usage.plus bytes.length).files.toNat = _
    rw [hfile, List.length_append, List.length_singleton]
    omega

/-- The blocks are leased to the incarnation of the store. -/
theorem incarnation_eq (hadmitted : inv.arguments.Admitted expected canonical metadata total)
    (h : Fulfilling expected canonical inv size consumed rest memory disk trace checkpoints) :
    memory.coordinator.runIncarnation = memory.store.recovery.runIncarnation := by
  obtain ⟨hlength, hblocks⟩ := h.length_eq hadmitted.run
  have hpos : memory.coordinator.blocks.length ≠ 0 := by
    rw [hlength, ← hblocks]
    exact fun hzero => hadmitted.blockCount_ne (UInt64.toNat_inj.mp hzero)
  obtain ⟨leases, hleased, -⟩ := h.tracks.attached.leased
  obtain ⟨block, hblock⟩ := List.exists_mem_of_length_pos (Nat.pos_of_ne_zero hpos)
  rw [← h.tracks.corresponds.serves.incarnation block hblock]
  rw [h.tracks.corresponds.blocks, hleased] at hblock
  obtain ⟨i, hi⟩ := List.mem_iff_getElem?.mp hblock
  obtain ⟨original, -, -, rfl⟩ := leaseAll_getElem? hi
  rfl

/-- The manifest of the next checkpoint. -/
theorem exists_manifest (hadmitted : inv.arguments.Admitted expected canonical metadata total)
    (hinterval : inv.storeConfig.checkpointIntervalBlocks ≠ 0)
    (h : Fulfilling expected canonical inv size consumed rest memory disk trace checkpoints)
    (hpending : 0 < memory.pendingSinceCheckpoint.toNat) {status : DurableRunStatus}
    (hfailed : status ≠ .failed) (hcomplete : status = .complete → rest = [])
    {aggregate : AggregateStats Binary64}
    (hreduction : reduceBlockResults memory.leaves = .ok aggregate) :
    ∃ manifest bytes, checkpointManifest memory.store memory.coordinator memory.leaves
        memory.received status none = .ok manifest ∧
      encodeManifest manifest = .ok bytes ∧
      bytes.length ≤ 512 + 64 * expected.blockCount.toNat ∧
      manifest.sequence.toNat = checkpoints + 1 := by
  have hcheckpoints := h.checkpoints_le hadmitted.run hinterval (Or.inr hpending)
  have hsequence := h.sequence
  have hdiv := Nat.div_le_self (expected.blockCount.toNat - 1)
    inv.storeConfig.checkpointIntervalBlocks.toNat
  have hword := UInt64.toNat_lt expected.blockCount
  have hpositive : expected.blockCount.toNat ≠ 0 :=
    fun hzero => hadmitted.blockCount_ne (UInt64.toNat_inj.mp hzero)
  have hmax : maxWord.toNat = 2 ^ 64 - 1 := by decide
  have hnext : memory.store.recovery.manifestSequence ≠ maxWord := by
    intro heq
    rw [heq] at hsequence
    omega
  have hall : status = .complete → memory.received.any (!·) = false := by
    intro hstatus
    rw [h.tracks.received, h.durable, hcomplete hstatus]
    simp
  obtain ⟨manifest, hmanifest⟩ := checkpointManifest_of_durable h.tracks.corresponds
    (h.tracks.attached.length hadmitted.run) h.tracks.leaves h.tracks.received h.tracks.payloads
    (h.incarnation_eq hadmitted) hall hfailed hnext hreduction
  have hof := checkpointManifest_eq_ok (h.tracks.attached.length hadmitted.run) hmanifest
  obtain ⟨bytes, hencode⟩ := (hadmitted.run.encodable_checkpoint h.tracks.attached
    h.tracks.corresponds.blocks h.tracks.leaves h.tracks.received (by simp) hmanifest).encodes
  refine ⟨manifest, bytes, hmanifest, hencode, ?_, ?_⟩
  · have hfailure : manifest.failure = none := checkpointManifest_failure hmanifest
    have hle := length_manifest_le hencode (by rw [hfailure]; simp)
    rwa [hof.blockCount, h.tracks.attached.metadata.blockCount] at hle
  · obtain ⟨-, hsucc⟩ := checkpointManifest_sequence hmanifest
    rw [hsucc, @toNat_succ _ (2 ^ 64 - 1) (by omega) (by decide), hsequence]

/-- `checkpoint`, once a result is pending. -/
theorem checkpoint (hadmitted : inv.arguments.Admitted expected canonical metadata total)
    (henv : env.Supports (inv.arguments.needs total))
    (hinterval : inv.storeConfig.checkpointIntervalBlocks ≠ 0)
    (h : Fulfilling expected canonical inv metadata.length consumed rest memory disk trace
      checkpoints) (hpending : 0 < memory.pendingSinceCheckpoint.toNat)
    (status : DurableRunStatus) (hfailed : status ≠ .failed)
    (hcomplete : status = .complete → rest = [])
    {aggregate : AggregateStats Binary64}
    (hreduction : reduceBlockResults memory.leaves = .ok aggregate)
    (hstands : Stands disk nonce trace state) :
    ∃ (sequence : UInt64) (bytes : Bytes) (trace' : Trace),
      Settles env (MonteCarlo.checkpoint memory.store memory.coordinator memory.leaves
        memory.received status) state (memory.store.checkpointed sequence status memory.received
          (memory.store.usage.plus bytes.length))
        (disk.insert (manifestPathFor sequence) (.regular bytes)) (nonce + 1) trace' ∧
      sequence.toNat = checkpoints + 1 ∧
      bytes.length ≤ 512 + 64 * expected.blockCount.toNat ∧
      memory.store.config.Takes memory.store.usage bytes.length := by
  obtain ⟨manifest, bytes, hmanifest, hencode, hsize, hsequence⟩ :=
    h.exists_manifest hadmitted hinterval hpending hfailed hcomplete hreduction
  have hblocks := (h.length_eq hadmitted.run).2
  have hroom := h.checkpoints_room hadmitted hinterval (Or.inr hpending)
  have hfiles := h.files
  have hbytes := h.bytes
  have hexpand : (checkpoints + 2) * (512 + 64 * expected.blockCount.toNat) =
      (checkpoints + 1) * (512 + 64 * expected.blockCount.toNat) +
        (512 + 64 * expected.blockCount.toNat) := by ring
  obtain ⟨htakes, hsupports⟩ := @takes _ _ _ _ _ _ _ _ _ _ _ _ hadmitted henv h consumed.length
    (checkpoints + 2) bytes.length (by omega) (by omega) (by omega) (by omega)
  have hlimit : bytes.length ≤ memory.store.config.maxManifestBytes.toNat := by
    rw [h.tracks.attached.config]
    exact hsize.trans (completionBytes_eq_ok hadmitted.room).1.manifest
  obtain ⟨trace', hsettles⟩ := settles_checkpoint hmanifest hencode hlimit htakes hsupports
    (h.tallied.above _ (by rw [h.sequence]; omega)) h.tidy hstands
  exact ⟨manifest.sequence, bytes, trace', hsettles, hsequence, hsize, htakes⟩

/-- A periodic checkpoint. -/
theorem periodic (hadmitted : inv.arguments.Admitted expected canonical metadata total)
    (henv : env.Supports (inv.arguments.needs total))
    (hinterval : inv.storeConfig.checkpointIntervalBlocks ≠ 0)
    (h : Fulfilling expected canonical inv metadata.length consumed rest memory disk trace
      checkpoints)
    (hdue : memory.pendingSinceCheckpoint.toNat =
      inv.storeConfig.checkpointIntervalBlocks.toNat)
    {aggregate : AggregateStats Binary64}
    (hreduction : reduceBlockResults memory.leaves = .ok aggregate)
    (hstands : Stands disk nonce trace state) :
    ∃ store disk' trace', Settles env (MonteCarlo.checkpoint memory.store memory.coordinator
        memory.leaves memory.received) state store disk' (nonce + 1) trace' ∧
      Fulfilling expected canonical inv metadata.length consumed rest
        (memory.afterCheckpoint store) disk' trace' (checkpoints + 1) := by
  have hpos : 0 < inv.storeConfig.checkpointIntervalBlocks.toNat :=
    Nat.pos_of_ne_zero fun hzero => hinterval (UInt64.toNat_inj.mp hzero)
  obtain ⟨sequence, bytes, trace', ⟨final, hcheckpoint, hfinal⟩, hsequence, hsize, htakes⟩ :=
    h.checkpoint hadmitted henv hinterval (by omega) .running (by decide) (by intro h; cases h)
      hreduction hstands
  obtain ⟨rfl, -, rfl⟩ := hstands
  obtain ⟨hdisk, -, rfl⟩ := id hfinal
  refine ⟨_, _, _, ⟨final, hcheckpoint, hfinal⟩, ?_⟩
  obtain ⟨hplus, hfile⟩ := StorageUsage.toNat_plus htakes
  obtain ⟨next, hsame, htallied⟩ := h.tallied.checkpoint hdue (Disk.Same.refl _) hcheckpoint
  obtain ⟨later, hcheckpoints, hlater⟩ := leaves_traced
    (wp_checkpoint _ _ _ _ _ (Disk.Same.refl _)) hcheckpoint
  have htracks := h.tracks.checkpoints hcheckpoints
  rw [hdisk] at hsame hlater
  have hfiles := h.files
  have hbytes := h.bytes
  have hexpand : (checkpoints + 1 + 1) * (512 + 64 * expected.blockCount.toNat) =
      (checkpoints + 1) * (512 + 64 * expected.blockCount.toNat) +
        (512 + 64 * expected.blockCount.toNat) := by ring
  refine ⟨htallied.same hsame, htracks.same hlater, h.tidy.insert (by intro h; cases h) _,
    h.durable, hsequence, ?_, ?_⟩
  · show (memory.store.usage.plus bytes.length).bytes.toNat ≤ _
    omega
  · show (memory.store.usage.plus bytes.length).files.toNat = _
    omega

/-- The next result is accepted. -/
theorem accepts (h : Fulfilling expected canonical inv size consumed (completed :: rest) memory disk
      trace checkpoints)
    (hmade : completed.MadeOf inv.kernels inv.spec memory.coordinator.runSpecHash
      memory.coordinator.executionLayoutHash memory.coordinator.buildFingerprint completed.block)
    (hblock : memory.coordinator.blocks[consumed.length]? = some completed.block) :
    completed.block.blockId.toNat = consumed.length ∧ AcceptedBy memory.coordinator completed := by
  have hserves := h.tracks.corresponds.serves
  have hposition : completed.block.blockId.toNat = consumed.length := by
    obtain ⟨hlt, hget⟩ := List.getElem?_eq_some_iff.mp hblock
    have hpositioned := hserves.positioned _ hlt
    rwa [hget] at hpositioned
  have hfresh : (memory.coordinator.committedPayloads[completed.block.blockId.toNat]?).join =
      none := by
    rw [h.tracks.payloads, h.durable, hposition, List.getElem?_map, List.getElem?_append_right
      (List.length_map _).le, List.length_map, Nat.sub_self, List.length_cons]
    rfl
  exact ⟨hposition, hmade.acceptedBy hserves.rngVersion hserves.statsSchemaVersion
    hserves.antithetic (by rw [hposition]; exact hblock)
    (hserves.incarnation _ (List.mem_of_getElem? hblock)) hfresh⟩

/-- One result. -/
theorem consume (hadmitted : inv.arguments.Admitted expected canonical metadata total)
    (henv : env.Supports (inv.arguments.needs total))
    (hinterval : inv.storeConfig.checkpointIntervalBlocks ≠ 0)
    (h : Fulfilling expected canonical inv metadata.length consumed (completed :: rest) memory disk
      trace checkpoints)
    (hcadence : Cadence inv.storeConfig.checkpointIntervalBlocks memory)
    (hmade : completed.MadeOf inv.kernels inv.spec memory.coordinator.runSpecHash
      memory.coordinator.executionLayoutHash memory.coordinator.buildFingerprint completed.block)
    (hblock : memory.coordinator.blocks[consumed.length]? = some completed.block)
    (hreduces : inv.storeConfig.checkpointIntervalBlocks.toNat ∣ consumed.length + 1 →
      ∃ aggregate, reduceBlockResults ((consumed ++ [completed]).map (·.aggregate) ++
        List.replicate rest.length .empty) = .ok aggregate)
    (hstands : Stands disk nonce trace state) :
    ∃ next disk' nonce' trace' checkpoints',
      Settles env (consumeDurable completed memory) state next disk' nonce' trace' ∧
      Fulfilling expected canonical inv metadata.length (consumed ++ [completed]) rest next disk'
        trace' checkpoints' ∧
      Cadence inv.storeConfig.checkpointIntervalBlocks next ∧
      next.coordinator = memory.coordinator.commit completed := by
  obtain ⟨hposition, haccepted⟩ := h.accepts hmade hblock
  obtain ⟨store, disk', trace', hrecord, hnext⟩ :=
    h.record hadmitted henv hinterval haccepted hposition hstands
  obtain ⟨final, hrun, hfinal⟩ := hrecord
  have hrest := run_consumeDurable_of_accepted haccepted hrun
  dsimp only at hrest
  -- A checkpoint may follow.
  have hnow : ∃ next disk'' nonce' trace'' checkpoints',
      Settles env (consumeDurable completed memory) state next disk'' nonce' trace'' ∧
      Fulfilling expected canonical inv metadata.length (consumed ++ [completed]) rest next disk''
        trace'' checkpoints' ∧ next.coordinator = memory.coordinator.commit completed := by
    cases hdue : (memory.committed store completed).checkpointDue with
    | false =>
      rw [hdue] at hrest
      exact ⟨_, disk', nonce + 1, trace', checkpoints, ⟨final, hrest, hfinal⟩, hnext, rfl⟩
    | true =>
      rw [hdue] at hrest
      have hpending := h.tallied.pending_committed haccepted store
      have hinside := hcadence.inside (h.tallied.count_committed haccepted store).2
      have hreached := (hnext.tallied.checkpointDue_iff.mp hdue).1
      have hequal : (memory.committed store completed).pendingSinceCheckpoint.toNat =
          inv.storeConfig.checkpointIntervalBlocks.toNat := by omega
      have hdivides : inv.storeConfig.checkpointIntervalBlocks.toNat ∣ consumed.length + 1 := by
        have htotal := hnext.tallied.pending
        rw [hnext.count_eq, List.length_append, List.length_singleton, hequal] at htotal
        exact ⟨checkpoints + 1, by rw [← htotal, Nat.mul_add, Nat.mul_one, Nat.add_comm]⟩
      obtain ⟨aggregate, hreduction⟩ := hreduces hdivides
      rw [← hnext.leaves_eq] at hreduction
      obtain ⟨store', disk'', trace'', ⟨last, hcheckpoint, hlast⟩, hfulfilling⟩ :=
        hnext.periodic hadmitted henv hinterval hequal hreduction hfinal
      refine ⟨_, disk'', nonce + 1 + 1, trace'', checkpoints + 1, ⟨last, ?_, hlast⟩, hfulfilling, rfl⟩
      rw [hrest, if_pos rfl, run_bind_ok hcheckpoint]
      rfl
  obtain ⟨next, disk'', nonce', trace'', checkpoints', hsettles, hfulfilling, hcoordinator⟩ := hnow
  obtain ⟨after, hconsume, -⟩ := id hsettles
  obtain ⟨rfl, -, rfl⟩ := hstands
  obtain ⟨-, -, -, hcadence', -⟩ := h.tallied.consume hcadence (Disk.Same.refl _) hconsume
  exact ⟨next, disk'', nonce', trace'', checkpoints', hsettles, hfulfilling, hcadence',
    hcoordinator⟩

/-- All results. -/
theorem consumeAll (hadmitted : inv.arguments.Admitted expected canonical metadata total)
    (henv : env.Supports (inv.arguments.needs total))
    (hinterval : inv.storeConfig.checkpointIntervalBlocks ≠ 0)
    (h : Fulfilling expected canonical inv metadata.length consumed rest memory disk trace
      checkpoints)
    (hcadence : Cadence inv.storeConfig.checkpointIntervalBlocks memory)
    (hmade : ∀ result ∈ rest, result.MadeOf inv.kernels inv.spec memory.coordinator.runSpecHash
      memory.coordinator.executionLayoutHash memory.coordinator.buildFingerprint result.block)
    (hblocks : ∀ (i : ℕ) result, rest[i]? = some result →
      memory.coordinator.blocks[consumed.length + i]? = some result.block)
    (hreduces : ∀ first second, consumed ++ rest = first ++ second →
      inv.storeConfig.checkpointIntervalBlocks.toNat ∣ first.length →
      ∃ aggregate, reduceBlockResults (first.map (·.aggregate) ++
        List.replicate second.length .empty) = .ok aggregate)
    (hstands : Stands disk nonce trace state) :
    ∃ next disk' nonce' trace' checkpoints',
      Settles env (Invocation.consumeAll rest memory) state next disk' nonce' trace' ∧
      Fulfilling expected canonical inv metadata.length (consumed ++ rest) [] next disk' trace'
        checkpoints' ∧
      Cadence inv.storeConfig.checkpointIntervalBlocks next := by
  induction rest generalizing consumed memory disk trace checkpoints nonce state with
  | nil =>
    rw [List.append_nil]
    exact ⟨memory, disk, nonce, trace, checkpoints, settles_pure memory hstands, h, hcadence⟩
  | cons completed rest ih =>
    have hlist : consumed ++ completed :: rest = consumed ++ [completed] ++ rest := by simp
    obtain ⟨next, disk', nonce', trace', checkpoints', hconsume, hnext, hcadence', hcoordinator⟩ :=
      h.consume hadmitted henv hinterval hcadence (hmade completed List.mem_cons_self)
        (by simpa using hblocks 0 completed rfl)
        (fun hdivides => hreduces _ _ hlist (by simpa using hdivides)) hstands
    obtain ⟨middle, hrun, hmiddle⟩ := hconsume
    rw [hlist] at hreduces ⊢
    obtain ⟨last, disk'', nonce'', trace'', checkpoints'', ⟨final, hrest, hfinal⟩, hlast⟩ :=
      ih hnext hcadence' (by
          rw [hcoordinator]
          exact fun result hresult => hmade result (List.mem_cons_of_mem _ hresult))
        (by
          intro i result hi
          rw [hcoordinator, List.length_append, List.length_singleton, Nat.add_assoc,
            Nat.add_comm 1]
          exact hblocks (i + 1) result hi)
        hreduces hmiddle
    refine ⟨last, disk'', nonce'', trace'', checkpoints'', ⟨final, ?_, hfinal⟩, hlast⟩
    rw [Invocation.consumeAll_cons, run_bind_ok hrun]
    exact hrest

/-- The last checkpoint. -/
theorem finish (hadmitted : inv.arguments.Admitted expected canonical metadata total)
    (henv : env.Supports (inv.arguments.needs total))
    (hinterval : inv.storeConfig.checkpointIntervalBlocks ≠ 0)
    (h : Fulfilling expected canonical inv metadata.length consumed [] memory disk trace
      checkpoints)
    (hcadence : Cadence inv.storeConfig.checkpointIntervalBlocks memory)
    {aggregate : AggregateStats Binary64}
    (hreduction : reduceBlockResults (consumed.map (·.aggregate)) = .ok aggregate)
    (workers : ℕ) (hstands : Stands disk nonce trace state) :
    ∃ result final, run env.traced (finishDurable inv.spec memory workers) state =
      (.ok result, final) := by
  have hreceived : memory.received.any (!·) = false := by
    rw [h.tracks.received, h.durable]
    simp
  have hpending : 0 < memory.pendingSinceCheckpoint.toNat := by
    refine hcadence.last ?_
    rw [h.count_eq, (h.length_eq hadmitted.run).1]
    rfl
  have hleaves : memory.leaves = consumed.map (·.aggregate) := by
    rw [h.leaves_eq]
    simp
  rw [← hleaves] at hreduction
  obtain ⟨sequence, bytes, trace', ⟨final, hcheckpoint, -⟩, -⟩ := h.checkpoint hadmitted henv
    hinterval hpending .complete (by decide) (fun _ => rfl) hreduction hstands
  rw [finishDurable, run_bind_ok (by rw [run_ofExcept, hreceived]; rfl), run_bind_ok hcheckpoint,
    run_ofExcept, durableResult, hreduction]
  exact ⟨_, final, rfl⟩

end Fulfilling

end Fulfilling

/-! ## What `open` asks for -/

section Admission

variable {args : OpenArguments}

/-- The metadata of a valid run can be encoded. -/
theorem OpenArguments.exists_encodeRunMetadata (hspec : args.spec.validate = .ok ())
    (hconfig : args.engineConfig.validate args.spec = .ok ())
    (hmaterialized : blockCount args.spec args.engineConfig.blockSize ≤
      args.engineConfig.maxMaterializedBlocks) (hdescription : args.build.description ≠ [])
    (hlength : args.build.description.length ≤ kMaxBuildDescriptionBytes.toNat) :
    ∃ expected canonical bytes, RunOf expected canonical args ∧
      encodeRunMetadata expected = .ok bytes ∧
      expected.blockCount = blockCount args.spec args.engineConfig.blockSize := by
  have hblocks := makeBlocks_of_le hspec hconfig hmaterialized
  obtain ⟨layoutHash, hlayout⟩ := executionLayoutHash_of_makeBlocks hblocks
  have hhash := runSpecHash_of_validate hspec
  have hnot : ¬ args.engineConfig.maxMaterializedBlocks <
      blockCount args.spec args.engineConfig.blockSize := UInt64.not_lt.mpr hmaterialized
  obtain ⟨-, -, hsize, -⟩ := makeBlocks_eq_ok hblocks
  have hne : args.engineConfig.blockSize ≠ 0 := by
    intro hzero
    rw [hzero] at hsize
    exact lt_irrefl _ hsize
  have hcount : blockCount args.spec args.engineConfig.blockSize ≠ 0 := by
    intro hzero
    have hpos := blockCount_toNat (RunSpec.accepted_of_validate hspec) args.engineConfig.blockSize
    rw [hzero, UInt64.toNat_zero] at hpos
    exact absurd hpos (Nat.add_pos_left Nat.one_pos _).ne
  have happend : appendString args.build.description kMaxBuildDescriptionBytes =
      .ok (appendU32 (UInt32.ofNat args.build.description.length) ++ args.build.description) :=
    if_neg (Nat.not_lt.mpr hlength)
  have hempty : args.build.description.isEmpty = false :=
    List.isEmpty_eq_false_iff.mpr hdescription
  let expected : RunMetadata :=
    { runId := durableRunId (sha256 (runSpecBytes args.spec)) layoutHash
      spec := args.spec
      blockSize := args.engineConfig.blockSize
      blockCount := blockCount args.spec args.engineConfig.blockSize
      runSpecHash := sha256 (runSpecBytes args.spec)
      executionLayoutHash := layoutHash
      buildFingerprint := args.build.hash
      buildDescription := args.build.description }
  have hexpected : expectedMetadata args.build args.spec args.engineConfig = .ok expected := by
    simp only [expectedMetadata, hspec, hconfig, hnot, hhash, hlayout, decide_false, throwIf_false,
      Result.ok_bind]
    rfl
  have hencode : ∃ bytes, encodeRunMetadata expected = .ok bytes := by
    simp only [expected, encodeRunMetadata, hspec, hhash, hne, hcount, hempty, happend,
      encodeRunSpecPayload, BuildIdentity.hash, ne_eq, not_true_eq_false, decide_false,
      Bool.or_self, throwIf_false, Result.ok_bind]
    exact ⟨_, rfl⟩
  obtain ⟨bytes, hbytes⟩ := hencode
  exact ⟨expected, _, bytes, ⟨hexpected, hblocks⟩, hbytes, rfl⟩

/-- `open` admits a valid run for which the limits have room, with a megabyte for the metadata. -/
theorem OpenArguments.exists_admitted (hspec : args.spec.validate = .ok ())
    (hconfig : args.engineConfig.validate args.spec = .ok ())
    (hvalid : args.storeConfig.validate = .ok ())
    (hmaterialized : blockCount args.spec args.engineConfig.blockSize ≤
      args.engineConfig.maxMaterializedBlocks) (hdescription : args.build.description ≠ [])
    (hlength : args.build.description.length ≤ kMaxBuildDescriptionBytes.toNat)
    (hfits : args.Fits) {limit blocks : ℕ}
    (hblocks : (blockCount args.spec args.engineConfig.blockSize).toNat = blocks)
    (hbytes : 512 * blocks + args.config.manifestRoom blocks * (512 + 64 * blocks) + 1024 * 1024 ≤
      limit) (hstorage : limit ≤ args.config.maxStorageBytes.toNat)
    (hfiles : 2 + blocks + args.config.manifestRoom blocks ≤ args.config.maxStorageFiles.toNat) :
    ∃ expected canonical bytes total, args.Admitted expected canonical bytes total ∧
      total.toNat ≤ limit := by
  obtain ⟨expected, canonical, bytes, hrun, hencode, hcount⟩ := exists_encodeRunMetadata hspec
    hconfig hmaterialized hdescription hlength
  have hsize := length_encodeRunMetadata hencode
  have hword : (UInt64.ofNat bytes.length).toNat = bytes.length :=
    UInt64.toNat_ofNat_of_lt' (show bytes.length < 2 ^ 64 by omega)
  have hne : expected.blockCount ≠ 0 := (encodeRunMetadata_eq_ok hencode).2.2.1
  have hmanifest : args.config.Fits expected.blockCount := by
    rw [hcount]
    exact hfits
  have hmanifests := toNat_freshPlan_manifests hne hmanifest
  rw [hcount, hblocks] at hmanifests
  change _ = args.config.manifestRoom blocks at hmanifests
  have hplan : (freshPlan args.config expected.blockCount (UInt64.ofNat bytes.length) 1).bytes ≤
      limit := by
    show 512 * expected.blockCount.toNat + (checkpointCount args.config expected.blockCount +
      2).toNat * (512 + 64 * expected.blockCount.toNat) + (UInt64.ofNat bytes.length).toNat ≤ limit
    rw [hcount, hblocks, hmanifests, hword]
    omega
  have hroom : (freshPlan args.config expected.blockCount (UInt64.ofNat bytes.length) 1).FitsInto
      args.config ⟨0, 1⟩ := by
    refine ⟨hmanifest, ?_, ?_⟩
    · rw [← CompletionPlan.bytes]
      show 0 + _ ≤ _
      omega
    · show 1 + (expected.blockCount.toNat + (checkpointCount args.config expected.blockCount +
        2).toNat + 1) ≤ _
      rw [hcount, hblocks, hmanifests]
      omega
  obtain ⟨total, htotal⟩ := hroom.exists_completionBytes
  refine ⟨expected, canonical, bytes, total, ⟨hrun, hvalid, hencode, htotal⟩, ?_⟩
  rw [(completionBytes_eq_ok htotal).2]
  exact hplan

end Admission

/-! ## The run -/

/-- Nothing that an invocation computes throws: every block can be computed, and the leaves can be
reduced at the end and whenever a checkpoint is due. -/
structure Invocation.Computes (inv : Invocation) (canonical : List ScenarioBlock)
    (aggregates : List (AggregateStats Binary64)) : Prop where
  blocks : List.Forall₂ (fun block aggregate =>
    computeBlock inv.kernels inv.spec block = .ok aggregate ∧ aggregate.invariantError = none)
      canonical aggregates
  leaves : ∀ first second, aggregates = first ++ second →
    inv.storeConfig.checkpointIntervalBlocks.toNat ∣ first.length ∨ second = [] →
    ∃ aggregate, reduceBlockResults (first ++ List.replicate second.length .empty) = .ok aggregate

/-- `Computes`, evaluated. -/
def Invocation.computesWell (inv : Invocation) (canonical : List ScenarioBlock) : Bool :=
  (canonical.mapM (computeBlock inv.kernels inv.spec)).toOption.any fun aggregates =>
    aggregates.all (fun aggregate => decide (aggregate.invariantError = none)) &&
      (List.range (aggregates.length + 1)).all fun count =>
        !(decide (inv.storeConfig.checkpointIntervalBlocks.toNat ∣ count)
          || decide (count = aggregates.length)) ||
        (reduceBlockResults (aggregates.take count ++
          List.replicate (aggregates.length - count) .empty)).toOption.isSome

theorem forall₂_of_mapM {α β : Type} {f : α → Result β} {xs : List α} {ys : List β}
    (h : xs.mapM f = .ok ys) : List.Forall₂ (fun x y => f x = .ok y) xs ys := by
  induction xs generalizing ys with
  | nil =>
    cases h
    exact .nil
  | cons x xs ih =>
    rw [List.mapM_cons] at h
    obtain ⟨y, hy, h⟩ := Result.bind_eq_ok.mp h
    obtain ⟨rest, hrest, h⟩ := Result.bind_eq_ok.mp h
    cases h
    exact .cons hy (ih hrest)

theorem Invocation.exists_computes {inv : Invocation} {canonical : List ScenarioBlock}
    (h : inv.computesWell canonical = true) : ∃ aggregates, inv.Computes canonical aggregates := by
  obtain ⟨aggregates, hmap, hall⟩ := exists_of_toOption_any h
  obtain ⟨hvalid, hreduces⟩ := Bool.and_eq_true_iff.mp hall
  refine ⟨aggregates, ?_, fun first second hsplit hdue => ?_⟩
  · refine List.forall₂_iff_get.mpr ⟨(forall₂_of_mapM hmap).length_eq, fun i hi hi' => ?_⟩
    exact ⟨(List.forall₂_iff_get.mp (forall₂_of_mapM hmap)).2 i hi hi',
      of_decide_eq_true (List.all_eq_true.mp hvalid _ (List.get_mem _ _))⟩
  · have hcount := List.all_eq_true.mp hreduces first.length (by
      rw [hsplit, List.mem_range, List.length_append]
      omega)
    have hreached : (decide (inv.storeConfig.checkpointIntervalBlocks.toNat ∣ first.length)
        || decide (first.length = aggregates.length)) = true := by
      rw [Bool.or_eq_true, decide_eq_true_iff, decide_eq_true_iff]
      refine hdue.imp_right fun hnone => ?_
      rw [hsplit, hnone, List.append_nil]
    rw [hreached, hsplit, List.take_left, List.length_append, Nat.add_sub_cancel_left] at hcount
    cases hreduction : reduceBlockResults (first ++ List.replicate second.length .empty) with
    | error e =>
      rw [hreduction] at hcount
      cases hcount
    | ok aggregate => exact ⟨aggregate, rfl⟩

/-- A worker that makes every result. -/
theorem Job.attempt_of_forall {job : Job} {blocks : List ScenarioBlock}
    {results : List BlockResult}
    (h : List.Forall₂ (fun block result => job.work 0 block = .ok result) blocks results) :
    job.attempt blocks = results := by
  induction h with
  | nil => rfl
  | cons hwork _ ih => rw [Job.attempt, hwork]; simp only [ih]

/-- Every block is missing. -/
theorem missingBlocks_replicate (blocks : List ScenarioBlock) {count : ℕ}
    (hlength : blocks.length = count) :
    missingBlocks blocks (List.replicate count false) = blocks := by
  subst hlength
  induction blocks with
  | nil => rfl
  | cons block rest ih => exact congrArg (block :: ·) ih

/-- Where nothing has thrown, no thread has thrown on its own. -/
theorem Execution.undisturbed_of_reaches {job : Job} {κ : Type}
    {consume : BlockResult → κ → Result Unit × κ} {sink : κ} {state : Execution job κ}
    (h : Reaches consume sink state) (hthrown : state.thrown = false) :
    Undisturbed consume sink state := by
  induction h with
  | refl => exact .refl
  | tail hreach hstep ih =>
    refine (ih (step_thrown_mono hstep hthrown)).tail ⟨hstep, fun hspontaneous => ?_⟩
    cases hspontaneous <;> cases hthrown

namespace Invocation

variable {inv : Invocation} {env : Environment} {expected : RunMetadata}
  {canonical : List ScenarioBlock} {metadata : Bytes} {total : UInt64}
  {aggregates : List (AggregateStats Binary64)}

theorem blocks_pos (inv : Invocation) (haccepted : inv.spec.Accepted) : 0 < inv.blocks := by
  rw [Invocation.blocks, blockCount_toNat haccepted]
  exact Nat.add_pos_left Nat.one_pos _

/-- A block that can be computed is sent. -/
theorem work_of_computes (memory : DurableMemory)
    (hstats : inv.spec.statsSchemaVersion = kStatsSchemaVersion) {block : ScenarioBlock}
    {aggregate : AggregateStats Binary64}
    (hcompute : computeBlock inv.kernels inv.spec block = .ok aggregate)
    (hvalid : aggregate.invariantError = none) :
    ∃ result, (inv.job memory).work 0 (block.leased 1 1) = .ok result ∧
      result.block = block.leased 1 1 ∧ result.aggregate = aggregate := by
  have hsame := computeBlock_congr inv.kernels inv.spec (b := block.leased 1 1) (c := block) rfl rfl
  rw [← hsame] at hcompute
  obtain ⟨kernel, hkernel, hcompute⟩ := Result.bind_eq_ok.mp hcompute
  have hchecksum := aggregatePayloadHash_eq_ok.mpr ⟨hstats, hvalid, rfl⟩
  refine ⟨⟨block.leased 1 1, aggregate, memory.coordinator.runSpecHash,
    memory.coordinator.executionLayoutHash, memory.coordinator.buildFingerprint,
    sha256 (aggregateBytes aggregate inv.spec.statsSchemaVersion), inv.spec.rngVersion,
    inv.spec.statsSchemaVersion, UInt64.ofNat 0⟩, ?_, rfl, rfl⟩
  show (do
    let kernel ← inv.kernels inv.spec
    workerResult kernel inv.spec _ _ _ 0 (block.leased 1 1)) = _
  rw [hkernel, Result.ok_bind, workerResult, hcompute, Result.ok_bind, hchecksum]
  rfl

/-- What the worker sends. -/
theorem Computes.delivery (h : inv.Computes canonical aggregates) (memory : DurableMemory)
    (hstats : inv.spec.statsSchemaVersion = kStatsSchemaVersion) (hne : canonical ≠ [])
    (hmissing : (inv.job memory).missing = canonical.map fun block => block.leased 1 1) :
    (inv.job memory).delivery.map (·.block) = (canonical.map fun block => block.leased 1 1) ∧
      (inv.job memory).delivery.map (·.aggregate) = aggregates ∧
      ∀ result ∈ (inv.job memory).delivery, ∃ block, (inv.job memory).work 0 block = .ok result := by
  obtain ⟨results, hwork, hblocks, haggregates, hmade⟩ : ∃ results,
      List.Forall₂ (fun block result => (inv.job memory).work 0 block = .ok result)
        (canonical.map fun block => block.leased 1 1) results ∧
      results.map (·.block) = (canonical.map fun block => block.leased 1 1) ∧
      results.map (·.aggregate) = aggregates ∧
      ∀ result ∈ results, ∃ block, (inv.job memory).work 0 block = .ok result := by
    have hall := h.blocks
    clear hmissing hne h
    induction hall with
    | nil => exact ⟨[], .nil, rfl, rfl, by simp⟩
    | cons hhead _ ih =>
      obtain ⟨results, hwork, hblocks, haggregates, hmade⟩ := ih
      obtain ⟨result, hresult, hblock, haggregate⟩ :=
        inv.work_of_computes memory hstats hhead.1 hhead.2
      exact ⟨result :: results, .cons hresult hwork, by simp [hblock, hblocks],
        by simp [haggregate, haggregates], List.forall_mem_cons.mpr ⟨⟨_, hresult⟩, hmade⟩⟩
  have hstart : (inv.job memory).start = .ok () := by
    obtain ⟨block, rest, rfl⟩ := List.exists_cons_of_ne_nil hne
    have hall := h.blocks
    cases hall with
    | cons hhead _ =>
      obtain ⟨kernel, hkernel, -⟩ := Result.bind_eq_ok.mp hhead.1
      show (do let _ ← inv.kernels inv.spec; pure ()) = _
      rw [hkernel]
      rfl
  rw [Job.delivery_of_start hstart, hmissing, Job.attempt_of_forall hwork]
  exact ⟨hblocks, haggregates, hmade⟩

/-- The execution begins with every block missing. -/
theorem exists_begins (hadmitted : inv.arguments.Admitted expected canonical metadata total)
    (henv : env.Supports (inv.arguments.needs total))
    (hinterval : inv.storeConfig.checkpointIntervalBlocks ≠ 0)
    (hseparator : ¬ (Paths.Spelling.ofText inv.storeConfig.runDirectory).EndsInSeparator)
    (clock nonce : ℕ) :
    ∃ (memory : DurableMemory) (disk : Disk) (opened : World × Trace) (nonce' : ℕ),
      inv.Begins env.traced (⟨∅, clock, nonce⟩, []) opened memory ∧
      Stands disk nonce' opened.2 opened ∧
      memory.coordinator.blocks = (canonical.map fun block => block.leased 1 1) ∧
      (inv.job memory).missing = (canonical.map fun block => block.leased 1 1) ∧
      Cadence inv.storeConfig.checkpointIntervalBlocks memory ∧
      ∀ rest : List BlockResult, rest.length = canonical.length →
        Fulfilling expected canonical inv metadata.length [] rest memory disk opened.2 0 := by
  have hconfig : inv.arguments.config = inv.storeConfig :=
    OpenArguments.config_of_interval hinterval
  rw [← hconfig] at hseparator
  obtain ⟨store, manifest, trace, ⟨opened, hopen, hstands⟩, hrecovery, hdurable, hbytes, hfiles,
    hsize⟩ := settles_openStore hadmitted henv hseparator
      (show Stands ∅ nonce [] (⟨∅, clock, nonce⟩, []) from ⟨rfl, rfl, rfl⟩)
  obtain ⟨world, trace'⟩ := opened
  obtain ⟨hdisk, -, rfl⟩ := id hstands
  change world.disk = _ at hdisk
  have hopened := (returns_openStore _ _ _ _).run hopen
  have hrunning : store.recovery.status = .running := by rw [hrecovery]
  obtain ⟨memory, hbegin⟩ := inv.beginRun_of_opened hopened (by rw [hrunning]; decide)
  have hstore := (beginRun_coordinator hbegin).1
  have hbegins : inv.Begins env.traced (⟨∅, clock, nonce⟩, []) (world, trace') memory :=
    ⟨store, hopen, hbegin, by rw [hrunning]; decide⟩
  obtain ⟨disk, hsame, -, hcadence, htallied⟩ := tallied_of_open hinterval hopen hbegin
  obtain ⟨later, hopens, hlater⟩ := leaves_traced (wp_openStore inv.arguments _) hopen
  have howned : Owned expected ∅ := by
    intro bytes hfile
    cases hfile
  have htracks := hopens.tracks hadmitted.run howned hopened hbegin (by rw [hrunning]; decide)
  rw [hdisk] at hsame hlater
  have hblocks : memory.coordinator.blocks = canonical.map fun block => block.leased 1 1 := by
    rw [htracks.corresponds.blocks, hstore, hrecovery]
  have hreceived : memory.received = List.replicate canonical.length false := by
    rw [htracks.received, hstore, hdurable, List.map_replicate]
    rfl
  refine ⟨memory, openedDisk metadata manifest, (world, trace'), nonce + 2, hbegins, hstands,
    hblocks, ?_, hcadence, fun rest hrest => ⟨htallied.same hsame, htracks.same hlater,
      tidy_openedDisk metadata manifest, ?_, ?_, ?_, ?_⟩⟩
  · show missingBlocks memory.store.recovery.blocks memory.received = _
    rw [hstore, hrecovery, hreceived]
    exact missingBlocks_replicate _ (by simp)
  · rw [hstore, hdurable, hrest]
    rfl
  · rw [hstore, hrecovery]
    rfl
  · rw [hstore, hbytes]
    simp only [List.length_nil]
    omega
  · rw [hstore, hfiles]
    rfl

/-- The run returns. -/
theorem exists_fulfilled (hone : inv.engineConfig.workerCount = 1)
    (hinterval : inv.storeConfig.checkpointIntervalBlocks ≠ 0)
    (hadmitted : inv.arguments.Admitted expected canonical metadata total)
    (hcomputes : inv.Computes canonical aggregates)
    (henv : env.Supports (inv.arguments.needs total))
    (hseparator : ¬ (Paths.Spelling.ofText inv.storeConfig.runDirectory).EndsInSeparator)
    (clock nonce : ℕ) :
    ∃ result final, inv.EndsUndisturbed env.traced (⟨∅, clock, nonce⟩, []) (.ok result) final := by
  obtain ⟨hspec, -, -, -, hcanonical⟩ := makeBlocks_eq_ok hadmitted.run.canonical
  have haccepted : inv.spec.Accepted := RunSpec.accepted_of_validate hspec
  have hne : canonical ≠ [] := by
    rw [hcanonical, ne_eq, List.map_eq_nil_iff, List.range_eq_nil]
    exact Nat.pos_iff_ne_zero.mp (inv.blocks_pos haccepted)
  obtain ⟨memory, disk, opened, nonce', hbegins, hstands, hblocks, hmissing, hcadence,
    hfulfilling⟩ := exists_begins hadmitted henv hinterval hseparator clock nonce
  obtain ⟨hsent, haggregates, hwork⟩ := hcomputes.delivery memory haccepted.stats hne hmissing
  have hlength : (inv.job memory).delivery.length = canonical.length := by
    rw [← List.length_map (·.block), hsent, List.length_map]
  have hreduces : ∀ first second, (inv.job memory).delivery = first ++ second →
      inv.storeConfig.checkpointIntervalBlocks.toNat ∣ first.length ∨ second = [] →
      ∃ aggregate, reduceBlockResults (first.map (·.aggregate) ++
        List.replicate second.length .empty) = .ok aggregate := by
    intro first second hsplit hdue
    have hreduction := hcomputes.leaves (first.map (·.aggregate)) (second.map (·.aggregate))
      (by rw [← haggregates, hsplit, List.map_append])
    rw [List.length_map, List.length_map, List.map_eq_nil_iff] at hreduction
    exact hreduction hdue
  have hmade : ∀ result ∈ (inv.job memory).delivery, result.MadeOf inv.kernels inv.spec
      memory.coordinator.runSpecHash memory.coordinator.executionLayoutHash
      memory.coordinator.buildFingerprint result.block := by
    intro result hresult
    obtain ⟨block, hblock⟩ := hwork result hresult
    have hmade := madeOf_of_work haccepted hblock
    rwa [hmade.block_eq]
  have hposition : ∀ (i : ℕ) result, (inv.job memory).delivery[i]? = some result →
      memory.coordinator.blocks[([] : List BlockResult).length + i]? = some result.block := by
    intro i result hi
    rw [hblocks, ← hsent, List.length_nil, Nat.zero_add, List.getElem?_map, hi]
    rfl
  obtain ⟨next, disk', nonce'', trace', checkpoints, ⟨middle, hconsume, hmiddle⟩, hdone, hcadence'⟩ :=
    (hfulfilling _ hlength).consumeAll hadmitted henv hinterval hcadence hmade hposition
      (fun first second hsplit hdue => hreduces _ _ hsplit (Or.inl hdue)) hstands
  obtain ⟨aggregate, hreduction⟩ := hreduces _ _ (List.append_nil _).symm (Or.inr rfl)
  obtain ⟨result, final, hfinish⟩ := hdone.finish hadmitted henv hinterval hcadence'
    (by simpa using hreduction) 1 hmiddle
  have hmissing' : (inv.job memory).missing ≠ [] := by
    rw [hmissing]
    exact fun hnil => hne (List.map_eq_nil_iff.mp hnil)
  have hall : (inv.job memory).missing.length ≤ (inv.job memory).delivery.length := by
    rw [hmissing, hlength, List.length_map]
  obtain ⟨state, hreach, hreturned, hsink⟩ :=
    exists_returned_single hone hmissing' (feed_of_consumeAll hconsume) hall
  have hends := EndsUndisturbed.finishes hbegins hmissing' (Execution.undisturbed_of_reaches hreach
    (not_thrown_of_ok labelled_job hreach hreturned)) hreturned
  rw [hsink, hfinish] at hends
  exact ⟨result, final, hends⟩

/-- With a separator at the end of the path of the run directory, nothing is done. -/
theorem ends_of_separator (hone : inv.engineConfig.workerCount = 1)
    (hinterval : inv.storeConfig.checkpointIntervalBlocks ≠ 0)
    (hvalid : inv.storeConfig.validate = .ok ())
    (hexpected : expectedMetadata inv.build inv.spec inv.engineConfig = .ok expected)
    {required : ℕ} (henv : env.Supports required)
    (hseparator : (Paths.Spelling.ofText inv.storeConfig.runDirectory).EndsInSeparator)
    (clock nonce : ℕ) :
    (∃ e final, inv.EndsUndisturbed env.traced (⟨∅, clock, nonce⟩, []) (.error e) final) ∧
      ∀ outcome final, inv.EndsUndisturbed env.traced (⟨∅, clock, nonce⟩, []) outcome final →
        final.2 = [] := by
  have hconfig : inv.arguments.config = inv.storeConfig :=
    OpenArguments.config_of_interval hinterval
  rw [← hconfig] at hseparator
  obtain ⟨e, opened, hopen, -, -, htrace⟩ := run_openStore_separator hvalid hexpected henv hseparator
    (show Stands ∅ nonce [] (⟨∅, clock, nonce⟩, []) from ⟨rfl, rfl, rfl⟩)
  change run env.traced inv.openStore _ = _ at hopen
  refine ⟨⟨e, opened, .early (.openThrows hopen) ?_⟩, fun outcome final hends => ?_⟩
  · rintro t memory ⟨store, hopen', -⟩
    rw [hopen] at hopen'
    cases hopen'
  · have hfinal := hends.single hone
    rw [singleProgram, run_bind_error hopen] at hfinal
    rw [hfinal]
    exact htrace

/-- A run in which nothing fails passes the failure points as often as it should, unless the path
of its directory has a separator at its end. -/
theorem tally_iff (hone : inv.engineConfig.workerCount = 1)
    (hinterval : inv.storeConfig.checkpointIntervalBlocks ≠ 0)
    (hadmitted : inv.arguments.Admitted expected canonical metadata total)
    (hcomputes : inv.Computes canonical aggregates)
    (henv : env.Supports (inv.arguments.needs total)) (clock nonce : ℕ) :
    let interval := inv.storeConfig.checkpointIntervalBlocks.toNat
    let checkpoints := (inv.blocks + interval - 1) / interval
    (∃ outcome final, inv.EndsUndisturbed env.traced (⟨∅, clock, nonce⟩, []) outcome final) ∧
      ∀ outcome final, inv.EndsUndisturbed env.traced (⟨∅, clock, nonce⟩, []) outcome final →
        (Tally final.2 inv.blocks (1 + checkpoints) checkpoints ↔
          ¬ (Paths.Spelling.ofText inv.storeConfig.runDirectory).EndsInSeparator) := by
  dsimp only
  by_cases hseparator : (Paths.Spelling.ofText inv.storeConfig.runDirectory).EndsInSeparator
  · obtain ⟨⟨e, ended, hended⟩, hall⟩ := ends_of_separator hone hinterval hadmitted.valid
      hadmitted.run.expected henv hseparator clock nonce
    refine ⟨⟨_, ended, hended⟩, fun outcome final hends => ⟨fun htally => ?_, absurd hseparator⟩⟩
    obtain ⟨hspec, -⟩ := makeBlocks_eq_ok hadmitted.run.canonical
    have hpos := inv.blocks_pos (RunSpec.accepted_of_validate hspec)
    have hcount := htally .resultBeforeFileFsync
    rw [hall outcome final hends] at hcount
    exact absurd hcount hpos.ne
  · obtain ⟨result, ended, hended⟩ := exists_fulfilled hone hinterval hadmitted hcomputes henv
      hseparator clock nonce
    refine ⟨⟨_, ended, hended⟩, fun outcome final hends => ⟨fun _ => hseparator, fun _ => ?_⟩⟩
    obtain ⟨world, trace⟩ := ended
    rw [hends.single hone, ← hended.single hone]
    exact RunParallelDurable.tally hinterval hended.runs

end Invocation

end MonteCarlo
