import MonteCarlo.Store.Loading
import MonteCarlo.Store.Opening

/-!
# What the store does to its directory

Every execution of `DurableRunStore::open`, `record_result` and `checkpoint`, in an arbitrary
environment, as a sequence of disks: the lasting files are those of one of these disks at every
moment, wherever the process dies.

* `Registers` — the metadata is found, or installed in a directory without lasting files.
* `Recovers` — the manifest with which a run starts or resumes.
* `Trail` — an execution of `open` up to the clean-up of orphans.
* `OpenStage`, `Opens`, `wp_openStore` — the moments of `open`, and what it returns.
* `Records`, `wp_recordResult`; `Checkpoints`, `wp_checkpoint` — the same for the mutators.
-/

namespace MonteCarlo

open Effects Effects.Program

/-! ## Metadata -/

/-- How `open` comes by its metadata, whether it was there before, and the disk afterwards. -/
inductive Registers (env : Environment) (expected : RunMetadata) (disk : Disk) :
    RunMetadata → Bool → Disk → Prop
  | found {bytes : Bytes} {metadata : RunMetadata} (hfile : disk.file metadataPath = some bytes)
      (hdecode : decodeRunMetadata bytes = .ok metadata)
      (hcompatible : requireCompatible metadata expected = .ok ()) :
      Registers env expected disk metadata true disk
  | installed {bytes : Bytes} (hfree : disk.lookup metadataPath = none)
      (hbare : env.ListsAll .payload → disk.Bare) (hencode : encodeRunMetadata expected = .ok bytes) :
      Registers env expected disk expected false (disk.insert metadataPath (.regular bytes))

section Metadata

variable {env : Environment} {config : RunStoreConfig} {expected : RunMetadata} {disk : Disk}
  {usage : StorageUsage} {world : World}

theorem only_preflightRunCompletion (config : RunStoreConfig) (usage : StorageUsage)
    (plan : CompletionPlan) : Only Op.Keeps (preflightRunCompletion config usage plan) := by
  refine only_bind (only_ofExcept _) fun _ => ?_
  refine only_bind (only_callOr (show Op.space.Keeps from trivial) _) fun available => ?_
  exact only_bind (only_ofExcept _) fun _ => only_ofExcept _

theorem preserves_preflightRunCompletion (config : RunStoreConfig) (usage : StorageUsage)
    (plan : CompletionPlan) :
    Preserves env (fun now => disk.Same now.disk) (preflightRunCompletion config usage plan) :=
  preserves_same ((only_preflightRunCompletion _ _ _).mono fun _ => Op.Keeps.sparesLasting) disk

/-- The metadata file was not there, so what is there after the write was installed. -/
theorem Registers.of_installs {bytes : Bytes} {next : Disk}
    (hfree : disk.lookup metadataPath = none) (hbare : env.ListsAll .payload → disk.Bare)
    (hencode : encodeRunMetadata expected = .ok bytes)
    (hinstalls : Installs disk metadataPath bytes next) :
    Registers env expected disk expected false next := by
  rcases hinstalls with ⟨hfile, -⟩ | ⟨-, rfl⟩
  · rw [Disk.file, hfree] at hfile
    cases hfile
  · exact .installed hfree hbare hencode

theorem wp_obtainMetadata (hworld : disk.Same world.disk) :
    Wp env.handle
      (Within disk fun next => ∃ metadata existed, Registers env expected disk metadata existed next)
      (Leaves fun found => Registers env expected disk found.1 found.2.1)
      (obtainMetadata config expected usage) world := by
  have hlookup : world.disk.lookup metadataPath = disk.lookup metadataPath :=
    hworld _ lasting_metadataPath
  have hsame : ∀ {now next : World}, disk.Same now.disk → next.disk = now.disk →
      disk.Same next.disk := fun hnow hnext => by rwa [hnext]
  have hasks : (Op.exists_ metadataPath).Keeps := trivial
  refine wp_keeps_bind hasks (fun _ h => Or.inl (hsame hworld h)) (fun existed asked hdisk hanswer =>
    ?_) fun _ _ _ => leaves_error _ _
  have hexisted : existed = (disk.lookup metadataPath).isSome := by
    rw [← hlookup]
    exact (Except.ok.inj hanswer).symm
  have hasked := hsame hworld hdisk
  cases existed with
  | true =>
    refine wp_readFile_bind (fun _ h => Or.inl (hsame hasked h)) (fun bytes read hdisk hfile => ?_)
      fun _ _ _ => leaves_error _ _
    have hread := hsame hasked hdisk
    rw [hasked.file lasting_metadataPath] at hfile
    refine wp_bind (wp_ofExcept (Or.inl hread) ?_)
    cases hdecode : decodeRunMetadata bytes with
    | error e => exact leaves_error _ _
    | ok metadata =>
      refine wp_bind (wp_ofExcept (Or.inl hread) ?_)
      cases hcompatible : requireCompatible metadata expected with
      | error e => exact leaves_error _ _
      | ok _ =>
        exact wp_pure (Or.inl hread) (leaves_ok (.found hfile hdecode hcompatible) hread)
  | false =>
    have hfree : disk.lookup metadataPath = none :=
      Option.isNone_iff_eq_none.mp (by simpa using hexisted.symm)
    refine wp_bind ((wp_hasExistingRunPayload config).mono (fun _ h => Or.inl (hsame hasked h))
      fun outcome inspected hdisk hbare => ?_)
    have hinspected := hsame hasked hdisk
    cases outcome with
    | error e => exact leaves_error _ _
    | ok payload =>
      refine wp_bind (wp_ofExcept (Or.inl hinspected) ?_)
      cases payload with
      | true => exact leaves_error _ _
      | false =>
        have hempty : env.ListsAll .payload → disk.Bare := fun hall path hpath => by
          rw [← hasked.file hpath]
          exact hbare rfl hall path hpath
        refine wp_bind (wp_ofExcept (Or.inl hinspected) ?_)
        cases hencode : encodeRunMetadata expected with
        | error e => exact leaves_error _ _
        | ok bytes =>
          refine wp_preserves_bind (preserves_preflightRunCompletion _ _ _) hinspected
            (fun _ h => Or.inl h) (fun _ planned hplanned => ?_) fun _ _ _ => leaves_error _ _
          refine wp_bind ((wp_atomicWrite_lasting lasting_metadataPath hplanned).mono
            (fun now hnow => hnow.mono fun next h =>
              ⟨expected, false, .of_installs hfree hempty hencode h⟩)
            fun outcome written hnow hpost => ?_)
          cases outcome with
          | error e => exact leaves_error _ _
          | ok usage =>
            obtain ⟨next, hinstalls, hnext⟩ := hpost usage rfl
            have hregisters := Registers.of_installs hfree hempty hencode hinstalls
            exact wp_pure (Or.inr ⟨next, ⟨expected, false, hregisters⟩, hnext⟩)
              (leaves_ok hregisters hnext)

end Metadata

/-! ## The manifest of a new incarnation -/

/-- A manifest is encoded and installed. -/
def InstallsManifest (disk : Disk) (manifest : RunManifest) (next : Disk) : Prop :=
  ∃ bytes, encodeManifest manifest = .ok bytes ∧
    Installs disk (manifestPathFor manifest.sequence) bytes next

/-- How `open` recovers from what it has loaded, and the disk afterwards. -/
inductive Recovers (metadata : RunMetadata) (existed : Bool) (load : LoadResult)
    (blocks : List ScenarioBlock) (disk : Disk) : DurableRecoveryState → Disk → Prop
  | started {manifest : RunManifest} {next : Disk} (hload : load.loaded = none)
      (hmanifest : makeManifestFromResults metadata 0 1 .running
        (blocks.map fun block => block.leased 1 1) (List.replicate blocks.length none) none =
          .ok manifest)
      (hinstalls : InstallsManifest disk manifest next) :
      Recovers metadata existed load blocks disk
        ⟨0, 1, .running, existed, blocks.map fun block => block.leased 1 1,
          List.replicate blocks.length none⟩ next
  | resumed {snapshot : LoadedManifest} {renewed : List ScenarioBlock} {manifest : RunManifest}
      {next : Disk} (hload : load.loaded = some snapshot)
      (hstatus : snapshot.manifest.status = .running)
      (hincarnation : snapshot.manifest.runIncarnation ≠ maxWord)
      (hsequence : load.highestSequenceSeen ≠ maxWord)
      (hmanifest : recoveryManifest metadata snapshot load.highestSequenceSeen
        (leasedBlocks blocks snapshot.manifest) = .ok (renewed, manifest))
      (hinstalls : InstallsManifest disk manifest next) :
      Recovers metadata existed load blocks disk
        ⟨manifest.sequence, manifest.runIncarnation, .running, existed, renewed, snapshot.results⟩
        next
  /-- A run that has ended is left alone. -/
  | ended {snapshot : LoadedManifest} (hload : load.loaded = some snapshot)
      (hstatus : snapshot.manifest.status ≠ .running) :
      Recovers metadata existed load blocks disk
        ⟨snapshot.manifest.sequence, snapshot.manifest.runIncarnation, snapshot.manifest.status,
          existed, leasedBlocks blocks snapshot.manifest, snapshot.results⟩ disk

section Recovery

variable {env : Environment} {config : RunStoreConfig} {metadata : RunMetadata} {existed : Bool}
  {load : LoadResult} {blocks : List ScenarioBlock} {disk : Disk} {usage : StorageUsage}
  {world : World}

theorem wp_installManifest {manifest : RunManifest} (hworld : disk.Same world.disk) :
    Wp env.handle (Within disk (InstallsManifest disk manifest))
      (Leaves fun _ => InstallsManifest disk manifest) (installManifest config manifest usage)
      world := by
  refine wp_bind (wp_ofExcept (Or.inl hworld) ?_)
  cases hencode : encodeManifest manifest with
  | error e => exact leaves_error _ _
  | ok bytes =>
    refine (wp_atomicWrite_lasting (lasting_manifestPathFor _) hworld).mono
      (fun now hnow => hnow.mono fun next h => ⟨bytes, hencode, h⟩)
      fun outcome after _ hpost usage' husage => ?_
    obtain ⟨next, hinstalls, hnext⟩ := hpost usage' husage
    exact ⟨next, ⟨bytes, hencode, hinstalls⟩, hnext⟩

/-- A recovery that installs a manifest last. -/
theorem wp_installManifest_bind {manifest : RunManifest} {recovery : DurableRecoveryState}
    {P : DurableRecoveryState → Disk → Prop} (hworld : disk.Same world.disk)
    (hrecovers : ∀ next, InstallsManifest disk manifest next → P recovery next) :
    Wp env.handle (Within disk fun next => ∃ recovery, P recovery next) (Leaves P)
      (do
        let _ ← installManifest config manifest usage
        pure recovery) world := by
  refine wp_bind ((wp_installManifest hworld).mono
    (fun now hnow => hnow.mono fun next h => ⟨recovery, hrecovers next h⟩)
    fun outcome after hafter hpost => ?_)
  cases outcome with
  | error e => exact leaves_error _ _
  | ok usage' =>
    obtain ⟨next, hinstalls, hnext⟩ := hpost usage' rfl
    exact wp_pure (Or.inr ⟨next, ⟨recovery, hrecovers next hinstalls⟩, hnext⟩)
      (leaves_ok (hrecovers next hinstalls) hnext)

theorem wp_startRun (hload : load.loaded = none) (hworld : disk.Same world.disk) :
    Wp env.handle
      (Within disk fun next => ∃ recovery, Recovers metadata existed load blocks disk recovery next)
      (Leaves (Recovers metadata existed load blocks disk))
      (startRun config metadata existed blocks usage) world := by
  have hstart : ∀ planned : World, disk.Same planned.disk → Wp env.handle
      (Within disk fun next => ∃ recovery, Recovers metadata existed load blocks disk recovery next)
      (Leaves (Recovers metadata existed load blocks disk)) (do
        let initial ← Program.ofExcept (makeManifestFromResults metadata 0 1 .running
          (blocks.map fun block => block.leased 1 1) (List.replicate blocks.length none) none)
        let _ ← installManifest config initial usage
        pure ⟨0, 1, .running, existed, blocks.map fun block => block.leased 1 1,
          List.replicate blocks.length none⟩) planned := by
    intro planned hplanned
    refine wp_bind (wp_ofExcept (Or.inl hplanned) ?_)
    cases hmanifest : makeManifestFromResults metadata 0 1 .running
      (blocks.map fun block => block.leased 1 1) (List.replicate blocks.length none) none with
    | error e => exact leaves_error _ _
    | ok manifest =>
      exact wp_installManifest_bind hplanned fun next hinstalls =>
        .started hload hmanifest hinstalls
  unfold startRun
  dsimp only
  split
  · exact wp_preserves_bind (preserves_preflightRunCompletion _ _ _) hworld (fun _ h => Or.inl h)
      (fun _ planned hplanned => hstart planned hplanned) fun _ _ _ => leaves_error _ _
  · exact hstart world hworld

theorem wp_recoverRun {snapshot : LoadedManifest} (hload : load.loaded = some snapshot)
    (hworld : disk.Same world.disk) :
    Wp env.handle
      (Within disk fun next => ∃ recovery, Recovers metadata existed load blocks disk recovery next)
      (Leaves (Recovers metadata existed load blocks disk))
      (recoverRun config metadata existed snapshot load.highestSequenceSeen blocks usage) world := by
  unfold recoverRun
  dsimp only
  split
  · rename_i hstatus
    refine wp_bind (wp_ofExcept (Or.inl hworld) ?_)
    cases hlimits : throwIf (snapshot.manifest.runIncarnation = maxWord ||
        load.highestSequenceSeen = maxWord)
        (⟨.overflowError, .openStore, "durable recovery identity overflow"⟩ : Exception) with
    | error e => exact leaves_error _ _
    | ok _ =>
      rw [throwIf_eq_ok, Bool.or_eq_false_iff, decide_eq_false_iff_not,
        decide_eq_false_iff_not] at hlimits
      refine wp_preserves_bind (preserves_preflightRunCompletion _ _ _) hworld
        (fun _ h => Or.inl h) (fun _ planned hplanned => ?_) fun _ _ _ => leaves_error _ _
      refine wp_bind (wp_ofExcept (Or.inl hplanned) ?_)
      cases hmanifest : recoveryManifest metadata snapshot load.highestSequenceSeen
        (leasedBlocks blocks snapshot.manifest) with
      | error e => exact leaves_error _ _
      | ok found =>
        obtain ⟨renewed, manifest⟩ := found
        refine wp_installManifest_bind hplanned fun next hinstalls => ?_
        rw [hstatus]
        exact .resumed hload hstatus hlimits.1 hlimits.2 hmanifest hinstalls
  · rename_i hstatus
    exact wp_pure (Or.inl hworld) (leaves_ok (.ended hload hstatus) hworld)

theorem wp_obtainRecovery (hworld : disk.Same world.disk) :
    Wp env.handle
      (Within disk fun next => ∃ recovery, Recovers metadata existed load blocks disk recovery next)
      (Leaves (Recovers metadata existed load blocks disk))
      (obtainRecovery config metadata existed load blocks usage) world := by
  unfold obtainRecovery
  split
  · exact wp_startRun (by assumption) hworld
  · exact wp_recoverRun (by assumption) hworld

end Recovery

/-! ## Opening -/

/-- What an execution of `open` has come by when it has recovered, and the disks it has left: with
the metadata, and with the manifest of the new incarnation. -/
structure Trail where
  expected : RunMetadata
  metadata : RunMetadata
  existed : Bool
  registered : Disk
  canonical : List ScenarioBlock
  load : LoadResult
  blocks : List ScenarioBlock
  recovery : DurableRecoveryState
  recovered : Disk

/-- The arguments of `open`. -/
structure OpenArguments where
  build : BuildIdentity
  spec : RunSpec
  engineConfig : EngineConfig
  storeConfig : RunStoreConfig

/-- The code of `open` with these arguments. -/
def OpenArguments.openStore (args : OpenArguments) : Prog DurableRunStore :=
  MonteCarlo.openStore args.build args.spec args.engineConfig args.storeConfig

/-- The configuration with its checkpoint interval. -/
def OpenArguments.config (args : OpenArguments) : RunStoreConfig :=
  resolveCheckpointCadence args.storeConfig (blockCount args.spec args.engineConfig.blockSize)

section Configurations

variable {args : OpenArguments}

theorem OpenArguments.config_eq {expected : RunMetadata}
    (h : expectedMetadata args.build args.spec args.engineConfig = .ok expected) :
    resolveCheckpointCadence args.storeConfig expected.blockCount = args.config := by
  obtain ⟨-, -, -, -, -, heq⟩ := expectedMetadata_eq_ok h
  rw [heq]
  rfl

/-- Only the checkpoint interval is resolved. -/
@[simp] theorem OpenArguments.maxManifestBytes_config :
    args.config.maxManifestBytes = args.storeConfig.maxManifestBytes := by
  unfold config resolveCheckpointCadence
  split <;> rfl

/-- The limit on manifests is at least 256 bytes. -/
theorem OpenArguments.config_min (hvalid : args.storeConfig.validate = .ok ()) :
    256 ≤ args.config.maxManifestBytes.toNat := by
  simp only [RunStoreConfig.validate, Result.bind_eq_ok, throwIf_eq_ok, exists_const,
    Bool.or_eq_false_iff, decide_eq_false_iff_not] at hvalid
  rw [maxManifestBytes_config]
  exact UInt64.le_iff_toNat_le.mp (UInt64.not_lt.mp hvalid.2.2.1)

end Configurations

/-- The trail is one of an execution from this disk. -/
structure Trail.Of (trail : Trail) (env : Environment) (args : OpenArguments) (disk : Disk) :
    Prop where
  valid : args.storeConfig.validate = .ok ()
  expected : expectedMetadata args.build args.spec args.engineConfig = .ok trail.expected
  registers : Registers env trail.expected disk trail.metadata trail.existed trail.registered
  canonical : makeBlocks trail.metadata.spec args.engineConfig = .ok trail.canonical
  loads : Loads env args.config trail.metadata trail.canonical trail.registered trail.load
  seen : trail.load.loaded = none → trail.load.sawManifestFile = false
  blocks : makeBlocks args.spec args.engineConfig = .ok trail.blocks
  recovers : Recovers trail.metadata trail.existed trail.load trail.blocks trail.registered
    trail.recovery trail.recovered

/-- Some orphans are gone, and no other file. -/
def Disk.Cleans (disk : Disk) (committed : List (Option BlockResult)) (next : Disk) : Prop :=
  ∀ path, path.Lasting → next.lookup path = disk.lookup path ∨
    disk.Orphan committed path ∧ next.lookup path = none

/-- The disks between any two calls of `open`, as far as lasting files go. -/
inductive OpenStage (env : Environment) (args : OpenArguments) (disk : Disk) : Disk → Prop
  | untouched : OpenStage env args disk disk
  | registered {expected metadata : RunMetadata} {existed : Bool} {next : Disk}
      (hexpected : expectedMetadata args.build args.spec args.engineConfig = .ok expected)
      (hregisters : Registers env expected disk metadata existed next) :
      OpenStage env args disk next
  | recovered {trail : Trail} (htrail : trail.Of env args disk) :
      OpenStage env args disk trail.recovered
  | cleaning {trail : Trail} {next : Disk} (htrail : trail.Of env args disk)
      (hcleans : trail.recovered.Cleans trail.recovery.committedResults next) :
      OpenStage env args disk next

/-- The store that `open` returns, and the disk it leaves. -/
inductive Opens (env : Environment) (args : OpenArguments) (disk : Disk) :
    DurableRunStore → Disk → Prop
  | intro {trail : Trail} {usage : StorageUsage} {next : Disk} (htrail : trail.Of env args disk)
      (hcleans : trail.recovered.Cleans trail.recovery.committedResults next)
      (horphans : env.ListsAll .blockResults → ∀ path,
        trail.recovered.Orphan trail.recovery.committedResults path → next.lookup path = none) :
      Opens env args disk
        ⟨args.spec, args.engineConfig, args.config, trail.metadata, trail.recovery,
          trail.recovery.committedResults, usage⟩ next

section Open

variable {env : Environment} {args : OpenArguments} {disk : Disk} {world : World}

/-- Orphans are counted by the lasting files alone. -/
theorem Disk.Same.orphan {now : Disk} (h : disk.Same now) {committed : List (Option BlockResult)}
    {path : Path} : now.Orphan committed path ↔ disk.Orphan committed path := by
  unfold Disk.Orphan
  refine and_congr_right fun hdir => ?_
  rw [h.file (lasting_of_dir (hdir ▸ nofun) (hdir ▸ nofun))]

/-- The clean-up of orphans. -/
theorem wp_removeOrphans_lasting {config : RunStoreConfig} {committed : List (Option BlockResult)}
    (hworld : disk.Same world.disk) :
    Wp env.handle (fun now => disk.Cleans committed now.disk)
      (fun outcome after => ∀ a, outcome = .ok a → env.ListsAll .blockResults →
        ∀ path, disk.Orphan committed path → after.disk.lookup path = none)
      (removeOrphanBlockResults config committed) world := by
  refine (wp_removeOrphanBlockResults config).mono (fun now hnow path hpath => ?_)
    fun outcome after _ hpost a ha hall path horphan => ?_
  · rcases hnow path with hsame | ⟨horphan, hgone⟩
    · exact Or.inl (hsame.trans (hworld path hpath))
    · exact Or.inr ⟨hworld.orphan.mp horphan, hgone⟩
  · exact hpost a ha hall path (hworld.orphan.mpr horphan)

/-- `open` from the loaded manifest on. -/
theorem wp_finishOpen (trail : Trail) (htrail : ∀ blocks recovery recovered,
      (trail.load.loaded = none → trail.load.sawManifestFile = false) →
      makeBlocks args.spec args.engineConfig = .ok blocks →
      Recovers trail.metadata trail.existed trail.load blocks trail.registered recovery recovered →
      Trail.Of { trail with blocks := blocks, recovery := recovery, recovered := recovered }
        env args disk)
    {usage : StorageUsage} (hworld : trail.registered.Same world.disk)
    (hregistered : OpenStage env args disk trail.registered) :
    Wp env.handle (fun now => ∃ next, OpenStage env args disk next ∧ next.Same now.disk)
      (Leaves (Opens env args disk))
      (finishOpen args.spec args.engineConfig args.config trail.metadata trail.existed trail.load
        usage) world := by
  have hstart : ∃ next, OpenStage env args disk next ∧ next.Same world.disk :=
    ⟨_, hregistered, hworld⟩
  refine wp_bind (wp_ofExcept hstart ?_)
  cases hseen : throwIf (trail.load.loaded.isNone && trail.load.sawManifestFile)
      (⟨.runtimeError, .openNoValidManifest,
        "no valid compatible manifest remains; last error: " ++ trail.load.lastError⟩ :
          Exception) with
  | error e => exact leaves_error _ _
  | ok _ =>
    rw [throwIf_eq_ok] at hseen
    replace hseen : trail.load.loaded = none → trail.load.sawManifestFile = false := by
      intro hnone
      rw [hnone] at hseen
      exact hseen
    refine wp_bind (wp_ofExcept hstart ?_)
    cases hblocks : makeBlocks args.spec args.engineConfig with
    | error e => exact leaves_error _ _
    | ok blocks =>
      refine wp_bind ((wp_obtainRecovery hworld).mono (fun now hnow => ?_)
        fun outcome recovered hrecovered hpost => ?_)
      · rcases hnow with hsame | ⟨next, ⟨recovery, hrecovers⟩, hsame⟩
        · exact ⟨_, hregistered, hsame⟩
        · exact ⟨next, .recovered (htrail blocks recovery next hseen hblocks hrecovers), hsame⟩
      cases outcome with
      | error e => exact leaves_error _ _
      | ok recovery =>
        obtain ⟨next, hrecovers, hsame⟩ := hpost recovery rfl
        have hof := htrail blocks recovery next hseen hblocks hrecovers
        refine wp_bind ((wp_removeOrphans_lasting hsame).mono
          (fun now hnow => ⟨now.disk, .cleaning hof hnow, .refl _⟩)
          fun outcome cleaned hcleaned horphans => ?_)
        cases outcome with
        | error e => exact leaves_error _ _
        | ok _ =>
          have husage : Only Op.Keeps storageUsage :=
            only_storageUsage trivial trivial (fun _ => trivial) fun _ => trivial
          refine wp_preserves_bind (preserves_keeps husage cleaned.disk) rfl
            (fun now hnow => ⟨cleaned.disk, .cleaning hof hcleaned, by rw [hnow]; exact .refl _⟩)
            (fun counted after hafter => ?_) fun _ _ _ => leaves_error _ _
          refine wp_pure ⟨after.disk, .cleaning hof (hafter ▸ hcleaned), .refl _⟩
            (leaves_ok (.intro hof (hafter ▸ hcleaned) fun hall path horphan => ?_) (.refl _))
          rw [hafter]
          exact horphans () rfl hall path horphan

/-- `open`. -/
theorem wp_openStore (args : OpenArguments) (world : World) :
    Wp env.handle (fun now => ∃ next, OpenStage env args world.disk next ∧ next.Same now.disk)
      (Leaves (Opens env args world.disk)) args.openStore world := by
  have huntouched : ∀ {now : World}, world.disk.Same now.disk →
      ∃ next, OpenStage env args world.disk next ∧ next.Same now.disk :=
    fun h => ⟨_, .untouched, h⟩
  refine wp_bind (wp_ofExcept (huntouched (.refl _)) ?_)
  cases hvalid : args.storeConfig.validate with
  | error e => exact leaves_error _ _
  | ok _ =>
    refine wp_bind (wp_ofExcept (huntouched (.refl _)) ?_)
    cases hexpected : expectedMetadata args.build args.spec args.engineConfig with
    | error e => exact leaves_error _ _
    | ok expected =>
      have hconfig := OpenArguments.config_eq hexpected
      dsimp only
      rw [hconfig]
      refine wp_preserves_bind (preserves_prepareDirectory args.config) (.refl world.disk)
        (fun now hnow => huntouched hnow) (fun usage prepared hprepared => ?_)
        fun _ _ _ => leaves_error _ _
      refine wp_bind ((wp_obtainMetadata hprepared).mono (fun now hnow => ?_)
        fun outcome registered hregistered hpost => ?_)
      · rcases hnow with hsame | ⟨next, ⟨metadata, existed, hregisters⟩, hsame⟩
        · exact huntouched hsame
        · exact ⟨next, .registered hexpected hregisters, hsame⟩
      cases outcome with
      | error e => exact leaves_error _ _
      | ok found =>
        obtain ⟨next, hregisters, hsame⟩ := hpost found rfl
        obtain ⟨metadata, existed, counted⟩ := found
        have hstage : OpenStage env args world.disk next := .registered hexpected hregisters
        have hmetadata : MetadataOf args.build args.spec args.engineConfig metadata := by
          cases hregisters with
          | found hfile hdecode hcompatible => exact .found hexpected hdecode hcompatible
          | installed hfree hbare hencode => exact .installed hexpected
        obtain ⟨canonical, hcanonical, hcount⟩ := hmetadata.makeBlocks
        refine wp_bind ((wp_loadLatestValidManifest hcanonical hcount).mono
          (fun now hnow => ⟨next, hstage, ?_⟩) fun outcome loaded hloaded hloads => ?_)
        · rw [hnow]
          exact hsame
        cases outcome with
        | error e => exact leaves_error _ _
        | ok load =>
          have hsame' : next.Same loaded.disk := by rw [hloaded]; exact hsame
          have hloads' := (hloads load rfl).of_same hsame
          exact wp_finishOpen
            ⟨expected, metadata, existed, next, canonical, load, [], ⟨0, 0, .running, false, [], []⟩,
              next⟩
            (fun blocks recovery recovered hseen hblocks hrecovers =>
              ⟨hvalid, hexpected, hregisters, hcanonical, hloads', hseen, hblocks, hrecovers⟩)
            hsame' hstage

end Open

/-! ## Recording and checkpointing -/

/-- The store after `record_result`, and the disk it leaves. -/
inductive Records (store : DurableRunStore) (result : BlockResult) (disk : Disk) :
    DurableRunStore → Disk → Prop
  /-- The attempt is durable already. -/
  | repeated {earlier : BlockResult} (hcheck : checkRecord store result = .ok ())
      (hearlier : (store.durableResults[result.block.blockId.toNat]?).join = some earlier)
      (hattempt : sameAttempt earlier result = true) : Records store result disk store disk
  | written {bytes : Bytes} {usage : StorageUsage} {next : Disk}
      (hcheck : checkRecord store result = .ok ())
      (hnew : (store.durableResults[result.block.blockId.toNat]?).join = none)
      (hencode : encodeBlockRecord ⟨store.metadata.runId, result⟩ = .ok bytes)
      (hinstalls : Installs disk (blockPathFor result.block) bytes next) :
      Records store result disk (store.recorded result usage) next

/-- The store after `checkpoint`, and the disk it leaves. -/
inductive Checkpoints (store : DurableRunStore) (coordinator : CoordinatorState)
    (leaves : List (AggregateStats Binary64)) (received : List Bool) (status : DurableRunStatus)
    (failure : Option FailureRecord) (disk : Disk) : DurableRunStore → Disk → Prop
  | intro {manifest : RunManifest} {bytes : Bytes} {usage : StorageUsage} {next : Disk}
      (hmanifest : checkpointManifest store coordinator leaves received status failure =
        .ok manifest)
      (hencode : encodeManifest manifest = .ok bytes)
      (hlimit : bytes.length ≤ store.config.maxManifestBytes.toNat)
      (hinstalls : Installs disk (manifestPathFor manifest.sequence) bytes next) :
      Checkpoints store coordinator leaves received status failure disk
        (store.checkpointed manifest.sequence status received usage) next

section Mutators

variable {env : Environment} {store : DurableRunStore} {disk : Disk} {world : World}

theorem wp_recordResult (result : BlockResult) (hworld : disk.Same world.disk) :
    Wp env.handle (Within disk fun next => ∃ store', Records store result disk store' next)
      (Leaves (Records store result disk)) (recordResult store result) world := by
  refine wp_bind (wp_ofExcept (Or.inl hworld) ?_)
  cases hcheck : checkRecord store result with
  | error e => exact leaves_error _ _
  | ok _ =>
    dsimp only
    split
    · rename_i earlier hearlier
      split
      · exact wp_pure (Or.inl hworld)
          (leaves_ok (.repeated hcheck hearlier (by assumption)) hworld)
      · exact wp_throw (Or.inl hworld) (leaves_error _ _)
    · rename_i hnew
      refine wp_bind (wp_ofExcept (Or.inl hworld) ?_)
      cases hencode : encodeBlockRecord ⟨store.metadata.runId, result⟩ with
      | error e => exact leaves_error _ _
      | ok bytes =>
        refine wp_bind ((wp_atomicWrite_lasting (lasting_blockPathFor _) hworld).mono
          (fun now hnow => hnow.mono fun next h =>
            ⟨store.recorded result store.usage, .written hcheck hnew hencode h⟩)
          fun outcome written _ hpost => ?_)
        cases outcome with
        | error e => exact leaves_error _ _
        | ok usage =>
          obtain ⟨next, hinstalls, hnext⟩ := hpost usage rfl
          have hrecords : Records store result disk (store.recorded result usage) next :=
            .written hcheck hnew hencode hinstalls
          exact wp_pure (Or.inr ⟨next, ⟨_, hrecords⟩, hnext⟩) (leaves_ok hrecords hnext)

theorem wp_checkpoint (coordinator : CoordinatorState) (leaves : List (AggregateStats Binary64))
    (received : List Bool) (status : DurableRunStatus) (failure : Option FailureRecord)
    (hworld : disk.Same world.disk) :
    Wp env.handle (Within disk fun next => ∃ store',
        Checkpoints store coordinator leaves received status failure disk store' next)
      (Leaves (Checkpoints store coordinator leaves received status failure disk))
      (checkpoint store coordinator leaves received status failure) world := by
  refine wp_bind (wp_ofExcept (Or.inl hworld) ?_)
  cases hmanifest : checkpointManifest store coordinator leaves received status failure with
  | error e => exact leaves_error _ _
  | ok manifest =>
    refine wp_bind (wp_ofExcept (Or.inl hworld) ?_)
    cases hencode : encodeManifest manifest with
    | error e => exact leaves_error _ _
    | ok bytes =>
      refine wp_bind (wp_ofExcept (Or.inl hworld) ?_)
      by_cases hlimit : store.config.maxManifestBytes.toNat < bytes.length
      · rw [decide_eq_true hlimit, throwIf_true]
        exact leaves_error _ _
      · rw [decide_eq_false hlimit, throwIf_false]
        rw [not_lt] at hlimit
        refine wp_bind ((wp_atomicWrite_lasting (lasting_manifestPathFor _) hworld).mono
          (fun now hnow => hnow.mono fun next h =>
            ⟨store.checkpointed manifest.sequence status received store.usage,
              .intro hmanifest hencode hlimit h⟩)
          fun outcome written _ hpost => ?_)
        cases outcome with
        | error e => exact leaves_error _ _
        | ok usage =>
          obtain ⟨next, hinstalls, hnext⟩ := hpost usage rfl
          have hcheckpoints : Checkpoints store coordinator leaves received status failure disk
              (store.checkpointed manifest.sequence status received usage) next :=
            .intro hmanifest hencode hlimit hinstalls
          have hmoment : ∀ {now : World}, next.Same now.disk → Within disk (fun next => ∃ store',
              Checkpoints store coordinator leaves received status failure disk store' next) now :=
            fun h => Or.inr ⟨next, ⟨_, hcheckpoints⟩, h⟩
          -- the hook after the installation
          have hhook : next.Same (env.handle (.hit .manifestAfterInstallBeforeMemory
              ⟨manifest.runIncarnation, kNoFailureContext, manifest.sequence⟩) written).2.disk := by
            rw [Op.Keeps.disk (show (Op.hit _ _).Keeps from trivial)]
            exact hnext
          exact wp_bind (wp_callIgnored (hmoment hnext) (hmoment hhook)
            (wp_pure (hmoment hhook) (leaves_ok hcheckpoints hhook)))

end Mutators

end MonteCarlo
