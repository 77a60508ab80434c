import MonteCarlo.Store.Attached

/-!
# Checkpoints and recovery

Does the next `open` recover what a checkpoint has committed?

* `ReachableStore` — a store that was opened and then called in any way, in any environments.
* `ReachableStore.attached` — its directory holds what it has in memory.
* `Recoverable` — the next `open` selects the manifest and recovers the received blocks.
* `Checkpointed` — what a checkpoint that has returned leaves; `Checkpointed.reduction` and
  `Checkpointed.recoverable` are the two directions.
* `checkpoint_recoverable_iff` — a checkpoint that returns is recoverable if and only if leaves that
  were not received make no difference to the reduction.
-/

namespace MonteCarlo

open Effects Effects.Program

/-! ## Reachable stores -/

/-- The store after a call: a mutator that throws leaves it as it was. -/
def storeAfter (store : DurableRunStore) : Except Exception DurableRunStore → DurableRunStore
  | .ok next => next
  | .error _ => store

/-- A store that was opened in a directory without metadata or with that of its own run, with a
complete listing of the manifests, and on which the mutators have been called in any way.  Each
call has an environment of its own. -/
inductive ReachableStore (args : OpenArguments) : DurableRunStore → World → Prop
  | opened {env : Environment} {world after : World} {store : DurableRunStore}
      (howned : ∀ expected,
        expectedMetadata args.build args.spec args.engineConfig = .ok expected →
          Owned expected world.disk)
      (hall : env.ListsAll .manifests)
      (hopen : run env.handle args.openStore world = (.ok store, after)) :
      ReachableStore args store after
  | called {env : Environment} {world after : World} {store : DurableRunStore}
      {outcome : Except Exception DurableRunStore} (hreach : ReachableStore args store world)
      (call : StoreCall) (hcall : run env.handle (call.program store) world = (outcome, after)) :
      ReachableStore args (storeAfter store outcome) after

section Reachable

variable {args : OpenArguments} {store : DurableRunStore} {world : World}

/-- A reachable store is attached to its directory, and continues after its highest manifest. -/
theorem ReachableStore.attached (h : ReachableStore args store world) :
    args.storeConfig.validate = .ok () ∧ ∃ expected canonical, RunOf expected canonical args ∧
      Attached expected canonical args store world.disk ∧ Topmost store world.disk := by
  induction h with
  | @opened env world after store howned hall hopen =>
    have hpost : Leaves (Opens env args world.disk) (run env.handle args.openStore world).1
        (run env.handle args.openStore world).2 := (wp_openStore args world).post
    rw [hopen] at hpost
    obtain ⟨next, hopens, hsame⟩ := hpost store rfl
    obtain ⟨trail, htrail⟩ := hopens.exists_trail
    refine ⟨htrail.valid, trail.expected, trail.blocks, htrail.runOf, ?_,
      (hopens.topmost hall).same hsame⟩
    exact (hopens.attached htrail.runOf (howned _ htrail.expected)).same hsame
  | @called env world after store outcome hreach call hcall ih =>
    obtain ⟨hvalid, expected, canonical, hrun, hattached, htop⟩ := ih
    refine ⟨hvalid, expected, canonical, hrun, ?_⟩
    cases call with
    | recordResult result =>
      rcases wp_within (wp_recordResult result (.refl world.disk)) hcall with
        ⟨store', next, rfl, hrecords, hsame⟩ | ⟨e, rfl, hsame | ⟨store', next, hrecords, hsame⟩⟩
      · exact ⟨(hrecords.attached hrun hattached).same hsame, (hrecords.topmost htop).1.same hsame⟩
      · exact ⟨hattached.same hsame, htop.same hsame⟩
      · exact ⟨(hrecords.kept hattached).same hsame, (hrecords.topmost htop).2.same hsame⟩
    | checkpoint coordinator leaves received status failure =>
      have hlength : store.durableResults.length = store.metadata.blockCount.toNat := by
        rw [hattached.length hrun]
      rcases wp_within (wp_checkpoint coordinator leaves received status failure
          (.refl world.disk)) hcall with
        ⟨store', next, rfl, hmade, hsame⟩ | ⟨e, rfl, hsame | ⟨store', next, hmade, hsame⟩⟩
      · exact ⟨(hmade.attached hattached).same hsame, (hmade.topmost hlength htop).1.same hsame⟩
      · exact ⟨hattached.same hsame, htop.same hsame⟩
      · exact ⟨(hmade.kept hattached).same hsame, (hmade.topmost hlength htop).2.same hsame⟩

end Reachable

/-! ## Recoverable checkpoints -/

/-- The manifest after those of the store passes the checks of the loader, the next `open` with the
same arguments selects it, and what it recovers are the received blocks. -/
structure Recoverable (args : OpenArguments) (store : DurableRunStore) (received : List Bool)
    (disk : Disk) : Prop where
  validates : ∃ bytes manifest,
    disk.file (manifestPathFor (store.recovery.manifestSequence + 1)) = some bytes ∧
      decodeManifest bytes store.config.maxManifestBytes = .ok manifest ∧
      eval disk.reply (validateManifestSnapshot args.engineConfig store.config manifest
        store.metadata) = .ok ⟨manifest, receivedResults store.durableResults received⟩
  selects : ∀ (env : Environment) (world : World), env.Quiet → world.disk = disk →
    ∃ load manifest, (run env.handle (loadLatestValidManifest args.engineConfig store.config
        store.metadata) world).1 = .ok load ∧
      load.loaded = some ⟨manifest, receivedResults store.durableResults received⟩ ∧
      manifest.sequence = store.recovery.manifestSequence + 1
  reopens : ∀ (env : Environment) (world last : World) (reopened : DurableRunStore), env.Quiet →
    world.disk = disk → run env.handle args.openStore world = (.ok reopened, last) →
      reopened.recovery.committedResults = receivedResults store.durableResults received

section Recoverable

variable {expected : RunMetadata} {canonical : List ScenarioBlock} {args : OpenArguments}
  {disk : Disk} {sequence : UInt64} {snapshot : LoadedManifest}

/-- The highest manifest is the first candidate. -/
theorem Disk.candidates_of_highest (hsome : (disk.file (manifestPathFor sequence)).isSome)
    (hhighest : ∀ other, (disk.file (manifestPathFor other)).isSome → other ≤ sequence) :
    ∃ rest, disk.candidates = (sequence, manifestPathFor sequence) :: rest := by
  have hmem : (sequence, manifestPathFor sequence) ∈ disk.candidates :=
    Disk.mem_candidates.mpr ⟨rfl, hsome⟩
  have hpairwise := disk.candidates_pairwise
  cases hcandidates : disk.candidates with
  | nil =>
    rw [hcandidates] at hmem
    cases hmem
  | cons first rest =>
    rw [hcandidates] at hmem hpairwise
    rcases List.mem_cons.mp hmem with rfl | hrest
    · exact ⟨rest, rfl⟩
    · have hlt : sequence < first.1 := (List.pairwise_cons.mp hpairwise).1 _ hrest
      have hle : first.1 ≤ sequence := hhighest _
        (Disk.mem_candidates.mp (hcandidates ▸ List.mem_cons_self)).2
      exact absurd hlt (UInt64.not_lt.mpr hle)

/-- A manifest that qualifies and is the highest one is selected. -/
theorem selects_of_highest {env : Environment} {engineConfig : EngineConfig}
    {config : RunStoreConfig} {metadata : RunMetadata} {world : World} (hquiet : env.Quiet)
    (hblocks : makeBlocks metadata.spec engineConfig = .ok canonical)
    (hcount : canonical.length = metadata.blockCount.toNat)
    (hqualifies : Qualifies world.disk config metadata canonical sequence snapshot)
    (hhighest : ∀ other, (world.disk.file (manifestPathFor other)).isSome → other ≤ sequence) :
    ∃ load, (run env.handle (loadLatestValidManifest engineConfig config metadata) world).1 =
      .ok load ∧ load.loaded = some snapshot := by
  obtain ⟨rest, hrest⟩ := Disk.candidates_of_highest hqualifies.toLoadable.isSome_file hhighest
  rw [(run_loadLatestValidManifest hquiet engineConfig config metadata world).1, hrest,
    tryCandidates, tryCandidate, eval_bind, eval_tryCatch, eval_bind,
    (eval_loadCandidate_ok hblocks hcount).mpr hqualifies]
  exact ⟨_, rfl, rfl⟩

/-- An `open` that returns has recovered from it. -/
theorem Opens.of_highest {env : Environment} {reopened : DurableRunStore} {next : Disk}
    (hquiet : env.Quiet) (hrun : RunOf expected canonical args) (howned : Owned expected disk)
    (hfile : (disk.lookup metadataPath).isSome)
    (hqualifies : Qualifies disk args.config expected canonical sequence snapshot)
    (hhighest : ∀ other, (disk.file (manifestPathFor other)).isSome → other ≤ sequence)
    (hopens : Opens env args disk reopened next) :
    reopened.recovery.committedResults = snapshot.results := by
  cases hopens with
  | @intro trail usage _ htrail hcleans horphans =>
    obtain ⟨hcanonical, -, halike, -⟩ := htrail.owned hrun howned
    have hregistered : trail.registered = disk := by
      have hregisters := htrail.registers
      generalize trail.registered = registered at hregisters
      generalize trail.metadata = metadata at hregisters
      generalize trail.existed = existed at hregisters
      cases hregisters with
      | found => rfl
      | installed hfree =>
        rw [hfree] at hfile
        cases hfile
    have hqualifies' : Qualifies trail.registered args.config trail.metadata trail.canonical sequence
        snapshot := by
      rw [hregistered, hcanonical]
      exact hqualifies.alike halike.symm
    obtain ⟨top, htop, hle⟩ := htrail.loads.highest hquiet sequence snapshot hqualifies'
    have htop' := (htrail.loads.qualifies top htop).2
    have hsome := htop'.toLoadable.isSome_file
    rw [hregistered] at hsome
    have hsequence : top.manifest.sequence = sequence :=
      UInt64.le_antisymm (hhighest _ hsome) hle
    rw [hsequence] at htop'
    have hunique : top = snapshot := htop'.toLoadable.unique hqualifies'.toLoadable
    have hrecovers := htrail.recovers
    change trail.recovery.committedResults = _
    generalize trail.recovery = recovery at hrecovers ⊢
    generalize trail.recovered = recovered at hrecovers
    cases hrecovers with
    | started hnone =>
      rw [Option.mem_def, hnone] at htop
      cases htop
    | resumed hsome' =>
      rw [Option.mem_def, hsome'] at htop
      rw [Option.some.inj htop, hunique]
    | ended hsome' =>
      rw [Option.mem_def, hsome'] at htop
      rw [Option.some.inj htop, hunique]

/-- The results that a checkpoint names are sound under its own lease table, which `encode_manifest`
has checked. -/
theorem CheckpointOf.sound {store : DurableRunStore} {leaves : List (AggregateStats Binary64)}
    {received : List Bool} {status : DurableRunStatus} {leases : List UInt64}
    {manifest : RunManifest} {bytes : Bytes}
    (hof : CheckpointOf store leaves received status leases manifest)
    (hencode : encodeManifest manifest = .ok bytes) (hrun : RunOf expected canonical args)
    (hattached : Attached expected canonical args store disk) :
    SoundResults expected canonical manifest.runIncarnation manifest.leaseEpochs
      (receivedResults store.durableResults received) := by
  obtain ⟨leases', -, hsound⟩ := hattached.leased
  have hm := (encodeManifest_eq_ok.mp hencode).1
  have hcount : manifest.blockCount.toNat = canonical.length := by
    rw [hof.blockCount, hattached.metadata.blockCount, hrun.length]
  refine ⟨?_, by rw [hm.leases, hcount], hm.leases_ne, hm.incarnation,
    fun i result hi => hsound.valid i result (durable_of_received hi), fun i result hi => ?_⟩
  · have hlength := hof.length
    rw [receivedResults, List.length_zipWith, hlength, hattached.metadata.blockCount, hrun.length,
      ← hrun.length, hsound.length_eq, min_self]
  · have hid := (hsound.valid i result (durable_of_received hi)).1
    have hentry : result.entry ∈ manifest.committedBlocks := by
      rw [hof.committedBlocks]
      exact mem_entriesOf.mpr ⟨i, result, hi, rfl⟩
    have hfenced := checkEntries_fenced hm.entries _ hentry
    rw [← hid]
    exact hfenced

end Recoverable

/-! ## A checkpoint that has returned -/

/-- What a checkpoint that returns leaves in the directory of its run: its manifest is the highest
one and passes every check of the loader but for that of its aggregate. -/
structure Checkpointed (args : OpenArguments) (store : DurableRunStore) (received : List Bool)
    (expected : RunMetadata) (canonical : List ScenarioBlock) (manifest : RunManifest) (disk : Disk) :
    Prop where
  runOf : RunOf expected canonical args
  config : store.config = args.config
  metadata : store.metadata.Alike expected
  loadable : Loadable disk args.config store.metadata canonical
    (store.recovery.manifestSequence + 1)
    ⟨manifest, receivedResults store.durableResults received⟩
  highest : ∀ other, (disk.file (manifestPathFor other)).isSome →
    other ≤ store.recovery.manifestSequence + 1
  file : ∃ bytes, disk.file metadataPath = some bytes ∧ encodeRunMetadata expected = .ok bytes

section Checkpointed

variable {args : OpenArguments} {store next : DurableRunStore} {received : List Bool}
  {expected : RunMetadata} {canonical : List ScenarioBlock} {manifest : RunManifest} {disk : Disk}

/-- The reduction of the leaves is in the manifest, and those of its results are the received
leaves. -/
theorem checkpointed_of_run {world after : World} {env : Environment}
    {coordinator : CoordinatorState} {leaves : List (AggregateStats Binary64)}
    {status : DurableRunStatus} {failure : Option FailureRecord}
    (hreach : ReachableStore args store world)
    (hcheckpoint : run env.handle (checkpoint store coordinator leaves received status failure)
      world = (.ok next, after)) :
    ∃ expected canonical manifest,
      Checkpointed args store received expected canonical manifest after.disk ∧
      reduceBlockResults leaves = .ok manifest.committedAggregate ∧
      leavesOf (receivedResults store.durableResults received) = receivedLeaves leaves received := by
  obtain ⟨hvalid, expected, canonical, hrun, hattached, htop⟩ := hreach.attached
  have hlength := hattached.length hrun
  rcases wp_within (wp_checkpoint coordinator leaves received status failure (.refl world.disk))
    hcheckpoint with ⟨store', disk, hok, hmade, hsame⟩ | ⟨e, herror, -⟩
  swap
  · cases herror
  have hattached' := (hmade.kept hattached).same hsame
  have htop' := (hmade.topmost hlength htop).2.same hsame
  cases hmade with
  | @intro manifest bytes usage _ hmanifest hencode hlimit hinstalls =>
    have hof := checkpointManifest_eq_ok hlength hmanifest
    refine ⟨expected, canonical, manifest, ⟨hrun, hattached.config, hattached.metadata, ?_, ?_,
      hattached'.file⟩, hof.reduction, hof.leavesOf hlength⟩
    · have hsound := (hof.sound hencode hrun hattached).alike hattached.metadata.symm
      rw [hof.leaseEpochs] at hsound
      refine loadable_of_stored hsound hof.toManifestOf (fun i result hi => ?_) ?_ hencode
        hof.sequence (OpenArguments.config_min hvalid) (hattached.config ▸ hlimit)
      · exact (stored_iff_of_alike hattached.metadata).mpr
          (hattached'.stored i result (durable_of_received hi))
      · rw [hsame.file (lasting_manifestPathFor _), ← hof.sequence]
        exact hinstalls.file
    · intro other hsome
      rw [UInt64.le_iff_toNat_le, toNat_add_one hof.sequence_ne]
      exact htop' hof.running other hsome

theorem Checkpointed.makeBlocks
    (h : Checkpointed args store received expected canonical manifest disk) :
    MonteCarlo.makeBlocks store.metadata.spec args.engineConfig = .ok canonical ∧
      canonical.length = store.metadata.blockCount.toNat := by
  rw [h.metadata.makeBlocks, h.runOf.expected_spec, h.runOf.length, h.metadata.blockCount]
  exact ⟨h.runOf.canonical, rfl⟩

/-- A manifest that is recovered carries the reduction of its results. -/
theorem Checkpointed.reduction
    (h : Checkpointed args store received expected canonical manifest disk)
    (hrecoverable : Recoverable args store received disk) :
    reduceBlockResults (leavesOf (receivedResults store.durableResults received)) =
      .ok manifest.committedAggregate := by
  obtain ⟨hblocks, hcount⟩ := h.makeBlocks
  obtain ⟨bytes, hfile, -, hdecode⟩ := h.loadable.file
  obtain ⟨bytes', manifest', hfile', hdecode', hvalidates⟩ := hrecoverable.validates
  rw [hfile] at hfile'
  cases hfile'
  rw [h.config, hdecode] at hdecode'
  cases hdecode'
  exact ((eval_validateManifestSnapshot_ok hblocks hcount (decodeManifest_accepted hdecode)).mp
    hvalidates).2.2.2

/-- A manifest that carries the reduction of its results is recovered. -/
theorem Checkpointed.recoverable
    (h : Checkpointed args store received expected canonical manifest disk)
    (hreduction : reduceBlockResults (leavesOf (receivedResults store.durableResults received)) =
      .ok manifest.committedAggregate) : Recoverable args store received disk := by
  obtain ⟨hblocks, hcount⟩ := h.makeBlocks
  have hqualifies : Qualifies disk args.config store.metadata canonical
      (store.recovery.manifestSequence + 1)
      ⟨manifest, receivedResults store.durableResults received⟩ := ⟨h.loadable, hreduction⟩
  refine ⟨?_, fun env world hquiet hworld => ?_, fun env world last reopened hquiet hworld hopen => ?_⟩
  · obtain ⟨bytes, hfile, -, hdecode⟩ := h.loadable.file
    refine ⟨bytes, manifest, hfile, h.config ▸ hdecode, ?_⟩
    exact (eval_validateManifestSnapshot_ok hblocks hcount (decodeManifest_accepted hdecode)).mpr
      ⟨rfl, h.loadable.identity, h.loadable.results, hreduction⟩
  · subst hworld
    obtain ⟨load, hload, hloaded⟩ := selects_of_highest hquiet hblocks hcount hqualifies h.highest
    rw [h.config]
    exact ⟨load, manifest, hload, hloaded, h.loadable.sequence_eq⟩
  · subst hworld
    obtain ⟨bytes, hmetadata, hencoded⟩ := h.file
    have hpost : Leaves (Opens env args world.disk) (run env.handle args.openStore world).1
        (run env.handle args.openStore world).2 := (wp_openStore args world).post
    rw [hopen] at hpost
    obtain ⟨disk', hopens, -⟩ := hpost reopened rfl
    refine hopens.of_highest hquiet h.runOf (fun found hfound => ?_) ?_ (hqualifies.alike h.metadata)
      h.highest
    · rw [hmetadata] at hfound
      exact Option.some.inj hfound ▸ hencoded
    · exact Disk.isSome_lookup (by rw [hmetadata]; rfl)

end Checkpointed

/-- A checkpoint of a reachable store that returns is recoverable if and only if the leaves of
blocks that were not received make no difference to the reduction. -/
theorem checkpoint_recoverable_iff {args : OpenArguments} {store next : DurableRunStore}
    {world after : World} {env : Environment} {coordinator : CoordinatorState}
    {leaves : List (AggregateStats Binary64)} {received : List Bool} {status : DurableRunStatus}
    {failure : Option FailureRecord} (hreach : ReachableStore args store world)
    (hcheckpoint : run env.handle (checkpoint store coordinator leaves received status failure)
      world = (.ok next, after)) :
    Recoverable args store received after.disk ↔
      reduceBlockResults leaves = reduceBlockResults (receivedLeaves leaves received) := by
  obtain ⟨expected, canonical, manifest, hmade, hreduction, hleaves⟩ :=
    checkpointed_of_run hreach hcheckpoint
  rw [hreduction, ← hleaves]
  exact ⟨fun h => (hmade.reduction h).symm, fun h => hmade.recoverable h.symm⟩

/-- Two blocks in an empty directory. -/
def twoBlocks : OpenArguments := ⟨⟨[66]⟩, twoScenarios, singleBlocks, .defaults "run"⟩

theorem owned_empty (expected : RunMetadata) : Owned expected ∅ := nofun

/-- The coordinating thread after the first block. -/
def DurableRunStore.firstCommitted (store : DurableRunStore) (result : BlockResult) :
    CoordinatorState :=
  { store.freshCoordinator with committedPayloads := [some result.payloadChecksum, none] }

/-- The first block is recorded, and the checkpoint that names it is recoverable. -/
theorem checkpoint_recoverable_iff_first_block :
    ∃ store world next after result, ReachableStore twoBlocks store world ∧
      receivedResults store.durableResults [true, false] = [some result, none] ∧
      run Environment.idle.handle (checkpoint store (store.firstCommitted result)
        [result.aggregate, .empty] [true, false]) world = (.ok next, after) ∧
      Recoverable twoBlocks store [true, false] after.disk := by
  let first (store : DurableRunStore) : BlockResult :=
    singleResult store.metadata ⟨0, 0, 1, 1, 1⟩ ⟨0x3FF0000000000000⟩
  have hreturns : returnedPassing (fun opened world => returnedPassing (fun store world =>
        decide (store.durableResults = [some (first opened), none]) &&
          returnedPassing (fun _ _ => true) (run Environment.idle.handle (checkpoint store
            (store.firstCommitted (first opened)) [(first opened).aggregate, .empty]
            [true, false]) world))
      (run Environment.idle.handle (recordResult opened (first opened)) world))
      (run Environment.idle.handle twoBlocks.openStore ⟨∅, 0, 0⟩) = true := by decide +kernel
  obtain ⟨opened, world, hopen, hthen⟩ := exists_of_returnedPassing hreturns
  obtain ⟨store, recorded, hrecord, htest⟩ := exists_of_returnedPassing hthen
  obtain ⟨hdurable, hrest⟩ := Bool.and_eq_true_iff.mp htest
  obtain ⟨next, after, hcheckpoint, -⟩ := exists_of_returnedPassing hrest
  have hreach : ReachableStore twoBlocks store recorded :=
    .called (.opened (fun expected _ => owned_empty expected) (fun _ => ⟨rfl, rfl⟩) hopen)
      (.recordResult (first opened)) hrecord
  refine ⟨store, recorded, next, after, first opened, hreach, ?_, hcheckpoint,
    (checkpoint_recoverable_iff hreach hcheckpoint).mpr rfl⟩
  rw [of_decide_eq_true hdurable]
  rfl

/-- A checkpoint with a leaf that was not received returns, and the loader refuses its manifest. -/
theorem checkpoint_not_recoverable :
    ∃ store world next after, ReachableStore twoBlocks store world ∧
      run Environment.idle.handle (checkpoint store store.freshCoordinator
        [⟨1, ⟨0x3FF0000000000000⟩, ⟨0⟩, ⟨0x3FF0000000000000⟩, ⟨0x3FF0000000000000⟩⟩, .empty]
        [false, false]) world = (.ok next, after) ∧
      ¬ Recoverable twoBlocks store [false, false] after.disk := by
  have hrefused : returnedPassing (fun store world => returnedPassing (fun _ after =>
        (after.disk.file (manifestPathFor (store.recovery.manifestSequence + 1))).any fun bytes =>
          (decodeManifest bytes store.config.maxManifestBytes).toOption.any fun manifest =>
            (eval after.disk.reply (validateManifestSnapshot twoBlocks.engineConfig
              store.config manifest store.metadata)).toOption.isNone)
      (run Environment.idle.handle (checkpoint store store.freshCoordinator
        [⟨1, ⟨0x3FF0000000000000⟩, ⟨0⟩, ⟨0x3FF0000000000000⟩, ⟨0x3FF0000000000000⟩⟩, .empty]
        [false, false]) world))
      (run Environment.idle.handle twoBlocks.openStore ⟨∅, 0, 0⟩) = true := by decide +kernel
  obtain ⟨store, world, hopen, hthen⟩ := exists_of_returnedPassing hrefused
  obtain ⟨next, after, hcheckpoint, htest⟩ := exists_of_returnedPassing hthen
  refine ⟨store, world, next, after, .opened (fun expected _ => owned_empty expected)
    (fun _ => ⟨rfl, rfl⟩) hopen, hcheckpoint, ?_⟩
  rintro ⟨⟨bytes, manifest, hfile, hdecode, hvalidates⟩, -, -⟩
  rw [hfile, Option.any_some, hdecode, Except.toOption, Option.any_some, hvalidates] at htest
  cases htest

end MonteCarlo
