import MonteCarlo.Engine.Continuity
import MonteCarlo.Store.Acceptance

/-!
# Runs accept their own files

Whatever has happened to a directory that nobody damaged, the next invocation reads the highest
manifest back, and nothing that it throws is a rejection of what the store has written.

* `Invocation.StoreThrows` — what the calls of the store throw in an invocation, whatever its
  threads do.
* `own_writes_accepted` — the highest manifest is loaded, and no exception is a rejection.
-/

namespace MonteCarlo

open Effects Effects.Program

/-- What the store throws in an invocation: in `open`, in `consume_result`, or at the end. -/
inductive Invocation.StoreThrows {σ : Type} (inv : Invocation) (h : Handler Op Reply σ) (s : σ) :
    Exception → Prop where
  | opening {e s'} (hopen : run h inv.openStore s = (.error e, s')) : StoreThrows inv h s e
  | consuming {memory s' completed e now}
      {state : Execution (inv.job memory) (σ × DurableMemory)} (hbegins : inv.Begins h s s' memory)
      (hreach : Execution.Reaches (durableConsume h) (s', memory) state)
      (hconsuming : state.coordinator = .consuming completed)
      (hconsume : run h (consumeDurable completed state.sink.2) state.sink.1 = (.error e, now)) :
      StoreThrows inv h s e
  | finishing {memory ending workers s' e now} (hbegins : inv.Begins h s s' memory)
      (hexecutes : ExecutesMissing inv.kernels inv.spec inv.engineConfig
        memory.store.recovery.blocks memory.received memory.coordinator.runSpecHash
        memory.coordinator.executionLayoutHash memory.coordinator.buildFingerprint
        (durableConsume h) (s', memory) ending)
      (houtcome : ending.outcome = .ok workers)
      (hfinish : run h (finishDurable inv.spec ending.sink.2 workers) ending.sink.1 =
        (.error e, now)) :
      StoreThrows inv h s e

section Consuming

variable {expected : RunMetadata} {canonical : List ScenarioBlock} {inv : Invocation}
  {env : Environment} {start disk next : Disk} {world : World} {memory : DurableMemory}

theorem Continuing.same (h : Continuing expected canonical inv start memory disk)
    (hrun : RunOf expected canonical inv.arguments) (hsame : disk.Same next) :
    Continuing expected canonical inv start memory next where
  tracks := { h.tracks with attached := h.tracks.attached.same hsame }
  leads := h.leads.same hrun hsame
  follows := h.follows.trans (h.follows.toConsistent.same hrun.positioned hrun.length hsame)

/-- A checkpoint of the variables. -/
theorem Continuing.throwsOnly_checkpoint
    (h : Continuing expected canonical inv start memory world.disk)
    (hrun : RunOf expected canonical inv.arguments) (status : DurableRunStatus)
    {failure : Option FailureRecord} (hreason : ∀ record ∈ failure, record.reason.length ≤ 147) :
    ThrowsOnly env.handle Accepting (checkpoint memory.store memory.coordinator memory.leaves
      memory.received status failure) world :=
  MonteCarlo.throwsOnly_checkpoint h.tracks.attached h.leads hrun h.tracks.corresponds.blocks
    h.tracks.leaves h.tracks.received hreason

/-- One call of `consume_result`. -/
theorem Continuing.throwsOnly_consume
    (h : Continuing expected canonical inv start memory world.disk)
    (hrun : RunOf expected canonical inv.arguments) {completed : BlockResult} :
    ThrowsOnly env.handle Accepting (consumeDurable completed memory) world := by
  have hcorresponds := h.tracks.corresponds
  have hdurable : Thrower.runParallelDurable ∉ rejections := by decide
  obtain ⟨validation, hvalidate⟩ := validateResult_total completed
    (hcorresponds.serves.statsSchemaVersion.trans hcorresponds.stats)
  rw [consumeDurable, hvalidate]
  refine throwsOnly_bind ((raises_pure _).throwsOnly world) fun verdict same hsame => ?_
  obtain ⟨hverdict, rfl⟩ := Prod.mk.inj hsame
  obtain rfl := Except.ok.inj hverdict
  split
  · exact (raises_pure _).throwsOnly world
  split
  · have herror : ∀ what, Accepting (durableError what) := fun _ => hdurable
    refine throwsOnly_bind (h.throwsOnly_checkpoint hrun .failed fun record hrecord => ?_)
      fun _ last _ => (raises_throw (herror _)).throwsOnly last
    obtain rfl := Option.some.inj hrecord
    exact length_validateResult hvalidate
  rename_i hstatus
  obtain ⟨hby, hcommit⟩ := commitResult_of_validateResult hvalidate (not_not.mp hstatus)
  refine throwsOnly_bind (throwsOnly_recordResult h.tracks.attached h.leads hrun
    (hcorresponds.checkRecord hby) (hcorresponds.fresh hby) (hcorresponds.encodeBlockRecord hby))
    fun store recorded hrecord => ?_
  have hwp : Wp env.handle _ _ (recordResult memory.store completed) world :=
    wp_recordResult completed (.refl world.disk)
  have hpost := hwp.post
  rw [hrecord] at hpost
  obtain ⟨next, hrecords, hsame⟩ := hpost store rfl
  obtain ⟨-, -, htracks⟩ := h.tracks.records hrun hby hrecords
  obtain ⟨hfollows, hleads⟩ := hrecords.leads h.tracks.attached h.leads hrun
  have hnext : Continuing expected canonical inv start (memory.committed store completed)
      recorded.disk :=
    Continuing.same ⟨htracks, hleads, h.follows.trans hfollows⟩ hrun hsame
  rw [hcommit]
  refine throwsOnly_bind ((raises_pure _).throwsOnly recorded) fun pair committed hcommitted => ?_
  obtain ⟨hpair, rfl⟩ := Prod.mk.inj hcommitted
  obtain rfl := Except.ok.inj hpair
  refine throwsOnly_bind ((thrownBy_throwIf hdurable).throwsOnly recorded) fun _ now hnow => ?_
  rw [run_ofExcept] at hnow
  obtain ⟨-, rfl⟩ := Prod.mk.inj hnow
  dsimp only
  split
  · exact throwsOnly_bind (hnext.throwsOnly_checkpoint hrun .running fun _ h => by cases h)
      fun _ last _ => (raises_pure _).throwsOnly last
  · exact (raises_pure _).throwsOnly recorded

/-- The end of the run. -/
theorem Continuing.throwsOnly_finish
    (h : Continuing expected canonical inv start memory world.disk)
    (hrun : RunOf expected canonical inv.arguments) (workers : ℕ) :
    ThrowsOnly env.handle Accepting (finishDurable inv.spec memory workers) world := by
  have hdurable : Thrower.runParallelDurable ∉ rejections := by decide
  refine throwsOnly_bind ((thrownBy_throwIf hdurable).throwsOnly world) fun _ now hnow => ?_
  rw [run_ofExcept] at hnow
  obtain ⟨-, rfl⟩ := Prod.mk.inj hnow
  refine throwsOnly_bind (h.throwsOnly_checkpoint hrun .complete nofun) fun store last _ => ?_
  refine (raises_ofExcept (Result.throws_bind (fun e he => ?_) fun _ =>
    Result.throws_ok _)).throwsOnly last
  unfold Accepting ThrownBy
  rw [(reduceBlockResults_error he).1]
  decide

end Consuming

/-! ## Whole invocations -/

section Lives

variable {build : BuildIdentity} {spec : RunSpec} {blockSize : UInt64} {expected : RunMetadata}
  {canonical : List ScenarioBlock} {past : List OpenArguments} {inv : Invocation}
  {env : Environment} {world : World}

/-- No exception of an invocation is a rejection, if its limit has room for the manifests. -/
theorem Consistent.accepting (h : Consistent expected canonical world.disk)
    (hrun : RunOf expected canonical inv.arguments) (hquiet : env.Quiet)
    (hfits : ∀ sequence, (world.disk.file (manifestPathFor sequence)).isSome → inv.arguments.Fits)
    {e : Exception} (hthrows : inv.StoreThrows env.handle world e) :
    Accepting e ∨ encodeRunMetadata expected = .error e := by
  cases hthrows with
  | opening hopen => exact throwsOnly_openStore hquiet h hrun hfits e _ hopen
  | @consuming memory _ completed _ now state hb hreach hconsuming hconsume =>
    have hkeeps := keeps_continuing hrun hquiet (hb.fits hrun h.owned) h.follows
    rcases Invocation.execution_sequential hb hreach with ⟨hd, hseq⟩ | ⟨-, hdone, -⟩
    · obtain ⟨next, hnext, hsame⟩ := hkeeps.consumed hb hd hseq
      exact Or.inl ((hnext.same hrun hsame).throwsOnly_consume hrun e now hconsume)
    · rw [hconsuming] at hdone
      cases hdone
  | @finishing memory ending workers _ _ now hb hexecutes houtcome hfinish =>
    have hkeeps := keeps_continuing hrun hquiet (hb.fits hrun h.owned) h.follows
    obtain ⟨hd, hseq⟩ := Invocation.executes_sequential_ok hb hexecutes houtcome
    obtain ⟨next, hnext, hsame⟩ := hkeeps.consumed hb hd hseq
    exact Or.inl ((hnext.same hrun hsame).throwsOnly_finish hrun workers e now hfinish)

/-- Operator limits that were not lowered leave room for the largest manifest. -/
theorem Life.room (hlife : Life build spec blockSize ∅ past world.disk)
    (hof : inv.arguments.Of build spec blockSize)
    (hlimits : ∀ earlier ∈ past,
      earlier.storeConfig.maxManifestBytes ≤ inv.storeConfig.maxManifestBytes) {sequence : UInt64}
    (hsome : (world.disk.file (manifestPathFor sequence)).isSome) : inv.arguments.Fits := by
  obtain ⟨earlier, hmem, hearlier, hfits, -⟩ := hlife.fits hsome
  have hcount : blockCount earlier.spec earlier.engineConfig.blockSize =
      blockCount inv.spec inv.engineConfig.blockSize := by
    rw [hearlier.spec, hearlier.blockSize, ← hof.spec, ← hof.blockSize]
    rfl
  have hle := UInt64.le_iff_toNat_le.mp (hlimits earlier hmem)
  unfold OpenArguments.Fits RunStoreConfig.Fits at hfits ⊢
  rw [OpenArguments.maxManifestBytes_config, hcount] at hfits
  rw [OpenArguments.maxManifestBytes_config]
  exact hfits.trans hle

/-- The highest manifest is loaded. -/
theorem Consistent.reads_highest {sequence : UInt64} {metadata : RunMetadata}
    (h : Consistent expected canonical world.disk) (hrun : RunOf expected canonical inv.arguments)
    (hquiet : env.Quiet) (hfits : inv.arguments.Fits)
    (hsome : (world.disk.file (manifestPathFor sequence)).isSome)
    (hhighest : ∀ other, (world.disk.file (manifestPathFor other)).isSome → other ≤ sequence)
    (hmetadata : metadata = expected ∨ ∃ found, world.disk.file metadataPath = some found ∧
      decodeRunMetadata found = .ok metadata) :
    ∃ bytes manifest snapshot load,
      world.disk.file (manifestPathFor sequence) = some bytes ∧
      decodeManifest bytes inv.arguments.config.maxManifestBytes = .ok manifest ∧
      (run env.handle (validateManifestSnapshot inv.engineConfig inv.arguments.config manifest
        metadata) world).1 = .ok snapshot ∧
      (run env.handle (loadLatestValidManifest inv.engineConfig inv.arguments.config metadata)
        world).1 = .ok load ∧ load.loaded = some snapshot := by
  have halike : metadata.Alike expected := by
    rcases hmetadata with rfl | ⟨found, hfound, hdecode⟩
    · exact rfl
    · rw [decodeRunMetadata_expected hrun.expected (h.owned found hfound)] at hdecode
      obtain rfl := Except.ok.inj hdecode
      exact expected.alike_persisted
  have hblocks : makeBlocks metadata.spec inv.engineConfig = .ok canonical := by
    rw [halike.makeBlocks, hrun.expected_spec]
    exact hrun.canonical
  have hcount : canonical.length = metadata.blockCount.toNat := by
    rw [halike.blockCount]
    exact hrun.length
  obtain ⟨snapshot, hsealed⟩ := h.sealed sequence hsome
  have hqualifies := (hsealed.qualifies (hrun.fits_iff.mpr hfits)).alike halike.symm
  obtain ⟨bytes, hfile, hlength, hdecode⟩ := hqualifies.file
  obtain ⟨load, hload, hloaded⟩ := selects_of_highest hquiet hblocks hcount hqualifies hhighest
  refine ⟨bytes, snapshot.manifest, snapshot, load, hfile, hdecode, ?_, hload, hloaded⟩
  rw [run_reads (only_validateManifestSnapshot _ _ _ _) hquiet.reads]
  exact (eval_validateManifestSnapshot_ok hblocks hcount (decodeManifest_accepted hdecode)).mpr
    ⟨rfl, hqualifies.identity, hqualifies.results, hqualifies.reduction⟩

/-- Arguments that are refused before the directory is looked at. -/
theorem Invocation.accepting_of_error {failure e : Exception}
    (herror : expectedMetadata inv.build inv.spec inv.engineConfig = .error failure)
    (hthrows : inv.StoreThrows env.handle world e) : Accepting e := by
  have hnever : ∀ opened memory, ¬ inv.Begins env.handle world opened memory := by
    rintro opened memory ⟨store, hopen, -⟩
    obtain ⟨-, next, hopens, -⟩ := Invocation.opens_of_run hopen
    exact (OpenArguments.refused_of_error herror).not_opens hopens
  have hrefused : ThrowsOnly env.handle Accepting inv.arguments.openStore world :=
    throwsOnly_openStore_of_error herror
  cases hthrows with
  | opening hopen => exact hrefused e _ hopen
  | consuming hb => exact absurd hb (hnever _ _)
  | finishing hb => exact absurd hb (hnever _ _)

end Lives

/-- **The store never rejects what it wrote.**  In a directory where opens and durable runs of one
run have happened, wherever they ended, and those of other runs were refused, the next invocation of
the run, if its limit for manifests is not below the earlier ones, reads back the highest manifest
and no other one.  Nothing that the store throws in it, in any interleaving, comes from
`encode_manifest`, from other bytes under the name of a file, or from manifests none of which is
valid; only a build description that is too long is refused.  The environments are `Quiet`: a read or
a listing that fails would make the loader fall back. -/
theorem own_writes_accepted {build : BuildIdentity} {spec : RunSpec} {blockSize : UInt64}
    {past : List OpenArguments} {inv : Invocation} {env : Environment} {world : World}
    (hlife : Life build spec blockSize ∅ past world.disk)
    (hof : inv.arguments.Of build spec blockSize) (hquiet : env.Quiet)
    (hlimits : ∀ earlier ∈ past,
      earlier.storeConfig.maxManifestBytes ≤ inv.storeConfig.maxManifestBytes) :
    (∀ sequence expected metadata,
      (world.disk.file (manifestPathFor sequence)).isSome →
      (∀ other, (world.disk.file (manifestPathFor other)).isSome → other ≤ sequence) →
      expectedMetadata inv.build inv.spec inv.engineConfig = .ok expected →
      (metadata = expected ∨ ∃ found, world.disk.file metadataPath = some found ∧
        decodeRunMetadata found = .ok metadata) →
      ∃ bytes manifest snapshot load,
        world.disk.file (manifestPathFor sequence) = some bytes ∧
        decodeManifest bytes inv.arguments.config.maxManifestBytes = .ok manifest ∧
        (run env.handle (validateManifestSnapshot inv.engineConfig inv.arguments.config manifest
          metadata) world).1 = .ok snapshot ∧
        (run env.handle (loadLatestValidManifest inv.engineConfig inv.arguments.config metadata)
          world).1 = .ok load ∧ load.loaded = some snapshot) ∧
    ∀ e, inv.StoreThrows env.handle world e → e.thrower ∉ rejections ∨
      ∃ expected, expectedMetadata inv.build inv.spec inv.engineConfig = .ok expected ∧
        encodeRunMetadata expected = .error e := by
  have hconsistent : ∀ expected canonical, RunOf expected canonical inv.arguments →
      Consistent expected canonical world.disk := fun _ _ hrun =>
    (hlife.follows hof hrun consistent_empty).toConsistent
  refine ⟨fun sequence expected metadata hsome hhighest hexpected hmetadata => ?_,
    fun e hthrows => ?_⟩
  · obtain ⟨canonical, hrun⟩ := RunOf.of_expected inv.arguments hexpected
    exact (hconsistent _ _ hrun).reads_highest hrun hquiet (hlife.room hof hlimits hsome) hsome
      hhighest hmetadata
  · cases hcase : expectedMetadata inv.build inv.spec inv.engineConfig with
    | error failure => exact Or.inl (Invocation.accepting_of_error hcase hthrows)
    | ok expected =>
      obtain ⟨canonical, hrun⟩ := RunOf.of_expected inv.arguments hcase
      rcases (hconsistent _ _ hrun).accepting hrun hquiet
        (fun sequence hsome => hlife.room hof hlimits hsome) hthrows with haccepting | hencode
      · exact Or.inl haccepting
      · exact Or.inr ⟨expected, rfl, hencode⟩

/-- The directory of a run that has returned, opened again. -/
theorem own_writes_accepted_two_scenarios :
    ∃ past world sequence expected bytes manifest snapshot load,
      Life ⟨[66]⟩ twoScenarios 1 ∅ past world.disk ∧
        world.disk.file (manifestPathFor sequence) = some bytes ∧
        decodeManifest bytes twoScenariosRun.arguments.config.maxManifestBytes = .ok manifest ∧
        (run Environment.idle.handle (loadLatestValidManifest singleBlocks
          twoScenariosRun.arguments.config expected) world).1 = .ok load ∧
        load.loaded = some snapshot := by
  obtain ⟨past, after, expected, canonical, sequence, snapshot, hlife, hpast, hrun, hconsistent,
    hsealed, hstatus⟩ := completed_twoScenarios
  have hof : twoScenariosRun.arguments.Of ⟨[66]⟩ twoScenarios 1 := ⟨rfl, rfl, rfl⟩
  have hended : snapshot.manifest.status ≠ .running := by
    rw [hstatus]
    nofun
  obtain ⟨hreads, -⟩ := own_writes_accepted hlife hof Environment.idle_faultless.quiet
    fun earlier hearlier => by
      obtain rfl := hpast earlier hearlier
      exact UInt64.le_refl _
  obtain ⟨bytes, manifest, loaded, load, hfile, hdecode, -, hload, hloaded⟩ :=
    hreads sequence expected expected hsealed.isSome_file
      (fun other hother => hconsistent.last_of_ended hsealed hended hother) hrun.expected
      (Or.inl rfl)
  exact ⟨_, after, _, expected, bytes, manifest, loaded, load, hlife, hfile, hdecode, hload,
    hloaded⟩

end MonteCarlo
