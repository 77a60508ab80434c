import MonteCarlo.Store.Leading
import MonteCarlo.Store.Throwers

/-!
# What the store accepts

In a directory that nobody damages, the store never rejects what it has written: the last manifest
is read back, every manifest can be encoded, and no file is in the way of another one.

* `rejections` — the throwers of the exceptions that would be a rejection.
* `throwsOnly_openStore`, `throwsOnly_recordResult`, `throwsOnly_checkpoint` — no operation of the
  store throws one of them.
-/

namespace MonteCarlo

open Effects Effects.Program

/-- The functions that reject what has been written, or what is to be written: `encode_manifest`
with what it calls, `atomic_write` at a file with other bytes, and `open` among manifests none of
which is valid. -/
def rejections : List Thrower :=
  [.encodeManifest, .encodeAggregatePayload, .appendString, .atomicWriteImmutable,
    .openNoValidManifest]

/-- An exception that rejects nothing. -/
def Accepting : Exception → Prop := ThrownBy (· ∉ rejections)

/-! ## Files -/

section Files

variable {env : Environment} {config : RunStoreConfig} {usage : StorageUsage} {world : World}

/-- `atomic_write` where nothing is, or the same bytes are. -/
theorem throwsOnly_atomicWrite {path : Path} {bytes : Bytes} (context : WriteContext)
    (hfile : ∀ found, world.disk.file path = some found → found = bytes) :
    ThrowsOnly env.handle Accepting (atomicWrite config path bytes usage context) world := by
  have hwrite : Thrower.atomicWrite ∉ rejections := by decide
  have hasked : Raises Accepting (callOr (.exists_ path) (filesystemError .atomicWrite)) :=
    thrownBy_callOr fun _ => hwrite
  refine throwsOnly_bind (hasked.throwsOnly world) fun present now hpresent => ?_
  have hdisk : now.disk = world.disk := by
    have hfinal := visits_final env.handle
      (callOr (.exists_ path) (filesystemError .atomicWrite)) world
    rw [hpresent] at hfinal
    exact (visits_reads (only_callOr trivial _) hfinal).1
  split
  · refine throwsOnly_bind ((thrownBy_readFile _ _ _ _ (by decide)).throwsOnly now)
      fun existing after hread => ?_
    rw [if_pos (hfile existing (hdisk ▸ file_of_readFile hread))]
    exact (raises_pure _).throwsOnly after
  · exact throwsOnly_writeNewFile (T := (· ∉ rejections)) config path bytes usage context
      ((thrownBy_preflightWrite _ _ _ (by decide)).throwsOnly now) hwrite (by decide) (by decide)
      fun _ h => h

theorem EncodableManifest.encodes {manifest : RunManifest} (h : EncodableManifest manifest) :
    ∃ bytes, encodeManifest manifest = .ok bytes := by
  obtain ⟨failure, hfailure⟩ := failureBytes_eq_ok.mpr h.reason
  exact ⟨_, encodeManifest_eq_ok.mpr ⟨h, failure, hfailure, rfl⟩⟩

/-- The installation of a manifest that can be encoded, under a free name. -/
theorem throwsOnly_installManifest {manifest : RunManifest}
    (hencodable : EncodableManifest manifest)
    (hfree : world.disk.file (manifestPathFor manifest.sequence) = none) :
    ThrowsOnly env.handle Accepting (installManifest config manifest usage) world := by
  obtain ⟨bytes, hencode⟩ := hencodable.encodes
  rw [installManifest, hencode]
  refine throwsOnly_atomicWrite _ fun found hfound => ?_
  rw [hfree] at hfound
  cases hfound

end Files

/-! ## Manifests of a run -/

section Encoding

variable {expected : RunMetadata} {canonical : List ScenarioBlock} {args : OpenArguments}
  {leases : List UInt64} {results : List (Option BlockResult)} {manifest : RunManifest}
  {incarnation : UInt64}

theorem SoundResults.leaves
    (h : SoundResults expected canonical incarnation leases results) :
    ∀ leaf ∈ leavesOf results, leaf.invariantError = none := by
  intro leaf hleaf
  obtain ⟨entry, hentry, rfl⟩ := List.mem_map.mp hleaf
  cases entry with
  | none => exact AggregateStats.empty_invariantError
  | some result =>
    obtain ⟨i, hi⟩ := List.mem_iff_getElem?.mp hentry
    exact (AggregateStats.invariantError_none (h.valid i result hi).2.aggregate).1

/-- The manifest of the results of a run can be encoded. -/
theorem RunOf.encodable (hrun : RunOf expected canonical args)
    (hmanifest : ManifestOf expected leases results manifest)
    (hsound : SoundResults expected canonical manifest.runIncarnation leases results)
    (hreduction : reduceBlockResults (leavesOf results) = .ok manifest.committedAggregate)
    (hfailed : manifest.status = .failed ↔ manifest.failure.isSome)
    (hreason : ∀ failure ∈ manifest.failure,
      failure.reason.length ≤ kMaxFailureReasonBytes.toNat)
    (hcomplete : manifest.status = .complete → results.any (·.isNone) = false) :
    EncodableManifest manifest := by
  have hstats : expected.spec.statsSchemaVersion = kStatsSchemaVersion := by
    rw [hrun.expected_spec]
    exact (RunSpec.accepted_of_validate (makeBlocks_eq_ok hrun.canonical).1).stats
  exact encodableManifest_of_sound hsound hmanifest hrun.length
    (makeBlocks_ne_nil hrun.canonical) hstats
    (reduceBlockResults_invariantError hsound.leaves hreduction) hfailed hreason hcomplete

/-- So can that of a new incarnation. -/
theorem RunOf.encodable_running (hrun : RunOf expected canonical args) {metadata : RunMetadata}
    (halike : metadata.Alike expected) {sequence : UInt64} {blocks : List ScenarioBlock}
    (hmanifest : makeManifestFromResults metadata sequence incarnation .running blocks results none =
      .ok manifest)
    (hsound : SoundResults expected canonical incarnation (blocks.map (·.leaseEpoch)) results) :
    EncodableManifest manifest := by
  have hfor := (makeManifestFromResults_eq_ok hmanifest).alike halike
  have hfailure : manifest.failure = none := by
    obtain ⟨aggregate, -, hpure⟩ := Result.bind_eq_ok.mp hmanifest
    cases hpure
    rfl
  rw [← hfor.incarnation] at hsound
  refine hrun.encodable hfor.toManifestOf hsound hfor.reduction ?_ ?_ ?_
  · rw [hfor.status, hfailure]
    exact ⟨nofun, nofun⟩
  · rw [hfailure]
    nofun
  · rw [hfor.status]
    nofun

end Encoding

/-! ## Opening -/

section Opening

variable {env : Environment} {expected metadata : RunMetadata} {canonical : List ScenarioBlock}
  {args : OpenArguments} {config : RunStoreConfig} {usage : StorageUsage} {world after : World}
  {existed : Bool}

theorem disk_of_keeps {α : Type} {p : Prog α} (hp : Only Op.Keeps p)
    {outcome : Except Exception α} (h : run env.handle p world = (outcome, after)) :
    after.disk = world.disk := by
  have hkeeps : Preserves env (fun now => now.disk = world.disk) p := preserves_keeps hp world.disk
  have hpost := (hkeeps world rfl).post
  rw [h] at hpost
  exact hpost

theorem disk_of_preflight {plan : CompletionPlan} {outcome : Except Exception Unit}
    (h : run env.handle (preflightRunCompletion config usage plan) world = (outcome, after)) :
    after.disk = world.disk :=
  disk_of_keeps (only_preflightRunCompletion config usage plan) h

theorem accepting_preflight (config : RunStoreConfig) (usage : StorageUsage)
    (plan : CompletionPlan) : Raises Accepting (preflightRunCompletion config usage plan) :=
  thrownBy_preflightRunCompletion _ _ _ (by decide) (by decide)

theorem accepting_makeManifest {sequence incarnation : UInt64} {status : DurableRunStatus}
    {blocks : List ScenarioBlock} {results : List (Option BlockResult)}
    {failure : Option FailureRecord} : Result.Throws Accepting
      (makeManifestFromResults metadata sequence incarnation status blocks results failure) := by
  refine Result.throws_bind (fun e h => ?_) fun _ => Result.throws_ok _
  unfold Accepting ThrownBy
  rw [(reduceBlockResults_error h).1]
  decide

/-- The first manifest of a run. -/
theorem throwsOnly_startRun (hrun : RunOf expected canonical args)
    (halike : metadata.Alike expected)
    (hnone : ∀ sequence, world.disk.file (manifestPathFor sequence) = none) :
    ThrowsOnly env.handle Accepting (startRun config metadata existed canonical usage) world := by
  have hinstall : ∀ now : World, now.disk = world.disk → ThrowsOnly env.handle Accepting (do
      let leased := canonical.map fun block => block.leased 1 1
      let results : List (Option BlockResult) := List.replicate canonical.length none
      let initial ← Program.ofExcept
        (makeManifestFromResults metadata 0 1 .running leased results none)
      let _ ← installManifest config initial usage
      pure (⟨0, 1, .running, existed, leased, results⟩ : DurableRecoveryState)) now := by
    intro now hdisk
    refine throwsOnly_bind ((raises_ofExcept accepting_makeManifest).throwsOnly now)
      fun initial same hpair => ?_
    rw [run_ofExcept] at hpair
    obtain ⟨hmanifest, rfl⟩ := Prod.mk.inj hpair
    refine throwsOnly_bind (throwsOnly_installManifest (hrun.encodable_running halike hmanifest ?_)
      ?_) fun _ last _ => (raises_pure _).throwsOnly last
    · have hleases : ((canonical.map fun block => block.leased 1 1).map (·.leaseEpoch)) =
          List.replicate canonical.length 1 := by
        rw [List.map_map]
        exact List.map_const' ..
      rw [hleases]
      exact soundResults_none expected canonical
    · rw [hdisk]
      exact hnone _
  unfold startRun
  cases existed with
  | false => exact hinstall world rfl
  | true =>
    exact throwsOnly_bind ((accepting_preflight _ _ _).throwsOnly world)
      fun _ now hnow => hinstall now (disk_of_preflight hnow)

theorem accepting_renewLeases (incarnation : UInt64) (blocks : List ScenarioBlock) :
    Result.Throws Accepting (renewLeases incarnation blocks) := by
  induction blocks with
  | nil => exact Result.throws_ok _
  | cons block rest ih =>
    refine Result.throws_bind (Result.throws_throwIf ?_) fun _ =>
      Result.throws_bind ih fun _ => Result.throws_ok _
    unfold Accepting ThrownBy
    decide

/-- The manifest of a new incarnation. -/
theorem RunOf.encodable_recovery (hrun : RunOf expected canonical args)
    (halike : metadata.Alike expected) {snapshot : LoadedManifest} {highest : UInt64}
    {renewed : List ScenarioBlock} {manifest : RunManifest}
    (hsound : SoundResults expected canonical snapshot.manifest.runIncarnation
      snapshot.manifest.leaseEpochs snapshot.results)
    (hmax : snapshot.manifest.runIncarnation ≠ maxWord)
    (hmanifest : recoveryManifest metadata snapshot highest
      (leasedBlocks canonical snapshot.manifest) = .ok (renewed, manifest)) :
    manifest.sequence = highest + 1 ∧ EncodableManifest manifest := by
  obtain ⟨leases, hrenewed, hsound', hfor⟩ :=
    recoveryManifest_eq_ok (hsound.alike halike.symm) hmax hmanifest
  obtain ⟨blocks, -, hmake⟩ := Result.bind_eq_ok.mp hmanifest
  obtain ⟨made, hmake, hpure⟩ := Result.bind_eq_ok.mp hmake
  cases hpure
  refine ⟨hfor.sequence, hrun.encodable_running halike hmake ?_⟩
  rw [hrenewed, map_leaseEpoch_leaseAll _ hsound'.leases_length, ← hfor.incarnation]
  exact hsound'.alike halike

/-- A run that goes on, where no manifest is above the highest one seen. -/
theorem throwsOnly_recoverRun (hrun : RunOf expected canonical args)
    (halike : metadata.Alike expected) {snapshot : LoadedManifest} {highest : UInt64}
    (hsound : SoundResults expected canonical snapshot.manifest.runIncarnation
      snapshot.manifest.leaseEpochs snapshot.results)
    (hhighest : ∀ sequence, (world.disk.file (manifestPathFor sequence)).isSome →
      sequence ≤ highest) :
    ThrowsOnly env.handle Accepting
      (recoverRun config metadata existed snapshot highest canonical usage) world := by
  have hopen : Thrower.openStore ∉ rejections := by decide
  unfold recoverRun
  split
  · refine throwsOnly_bind ((thrownBy_throwIf hopen).throwsOnly world) fun _ now hnow => ?_
    rw [run_ofExcept] at hnow
    obtain ⟨hmax, rfl⟩ := Prod.mk.inj hnow
    rw [throwIf_eq_ok, Bool.or_eq_false_iff, decide_eq_false_iff_not,
      decide_eq_false_iff_not] at hmax
    refine throwsOnly_bind ((accepting_preflight _ _ _).throwsOnly world) fun _ checked hcheck => ?_
    refine throwsOnly_bind ((raises_ofExcept ?_).throwsOnly checked) fun found same hpair => ?_
    · exact Result.throws_bind (accepting_renewLeases _ _) fun _ =>
        Result.throws_bind accepting_makeManifest fun _ => Result.throws_ok _
    obtain ⟨renewed, manifest⟩ := found
    rw [run_ofExcept] at hpair
    obtain ⟨hmanifest, rfl⟩ := Prod.mk.inj hpair
    obtain ⟨hsequence, hencodable⟩ := hrun.encodable_recovery halike hsound hmax.1 hmanifest
    refine throwsOnly_bind (throwsOnly_installManifest hencodable ?_)
      fun _ last _ => (raises_pure _).throwsOnly last
    rw [disk_of_preflight hcheck, hsequence, ← Option.not_isSome_iff_eq_none]
    intro hsome
    have hle := UInt64.le_iff_toNat_le.mp (hhighest _ hsome)
    rw [toNat_add_one hmax.2] at hle
    omega
  · exact (raises_pure _).throwsOnly world

theorem only_hasExistingRunPayload (config : RunStoreConfig) :
    Only Op.Keeps (hasExistingRunPayload config) := by
  refine only_scan trivial trivial (fun found path => ?_) _
  refine only_bind (only_callOr trivial _) fun regular => ?_
  split <;> exact only_pure _

/-- The metadata, in a directory that has that of the run or none. -/
theorem throwsOnly_obtainMetadata (hrun : RunOf expected canonical args)
    (howned : Owned expected world.disk) :
    ThrowsOnly env.handle (fun e => Accepting e ∨ encodeRunMetadata expected = .error e)
      (obtainMetadata config expected usage) world := by
  have hopen : Thrower.openStore ∉ rejections := by decide
  have haccepting : ∀ {α : Type} {p : Prog α} (now : World), Raises Accepting p →
      ThrowsOnly env.handle (fun e => Accepting e ∨ encodeRunMetadata expected = .error e) p now :=
    fun now hp => (hp.mono fun _ => Or.inl).throwsOnly now
  refine throwsOnly_bind (haccepting world (thrownBy_callOr fun _ => hopen))
    fun existed asked hasked => ?_
  have hdisk := disk_of_keeps (only_callOr trivial _) hasked
  split
  · refine throwsOnly_bind (haccepting asked (thrownBy_readFile _ _ _ _ (by decide)))
      fun bytes now hread => ?_
    have hencode := howned bytes (hdisk ▸ file_of_readFile hread)
    rw [decodeRunMetadata_expected hrun.expected hencode]
    refine throwsOnly_bind (haccepting now (raises_pure _)) fun metadata same _ => ?_
    refine haccepting same (raises_bind (raises_ofExcept ?_) fun _ => raises_pure _)
    have hcompatible : Thrower.requireCompatible ∉ rejections := by decide
    refine Result.throws_bind (Result.throws_throwIf hcompatible) fun _ => ?_
    refine Result.throws_bind (Result.throws_throwIf hcompatible) fun _ => ?_
    exact Result.throws_bind (Result.throws_throwIf hcompatible) fun _ =>
      Result.throws_throwIf hcompatible
  · refine throwsOnly_bind (haccepting asked (thrownBy_hasExistingRunPayload config (by decide)))
      fun payload scanned hscanned => ?_
    refine throwsOnly_bind (haccepting scanned (thrownBy_throwIf hopen)) fun _ bare hbare => ?_
    refine throwsOnly_bind ?_ fun bytes encoded hencoded => ?_
    · intro e now h
      rw [run_ofExcept] at h
      exact Or.inr (Prod.mk.inj h).1
    rw [run_ofExcept] at hbare hencoded
    obtain ⟨-, rfl⟩ := Prod.mk.inj hbare
    obtain ⟨hencode, rfl⟩ := Prod.mk.inj hencoded
    refine throwsOnly_bind (haccepting _ (accepting_preflight _ _ _)) fun _ checked hchecked => ?_
    refine throwsOnly_bind (fun e now h => Or.inl (throwsOnly_atomicWrite .metadata ?_ e now h))
      fun counted last _ => haccepting last (raises_pure _)
    intro found hfound
    rw [disk_of_preflight hchecked, disk_of_keeps (only_hasExistingRunPayload config) hscanned, hdisk]
      at hfound
    have hsame := howned found hfound
    rw [hencode] at hsame
    exact (Except.ok.inj hsame).symm

/-- Where every manifest is valid, one is loaded, or there is none. -/
theorem throwsOnly_loadLatestValidManifest (hquiet : env.Quiet)
    (hrun : RunOf expected canonical args) (halike : metadata.Alike expected)
    (hvalid : ∀ sequence, (world.disk.file (manifestPathFor sequence)).isSome →
      ∃ snapshot, Qualifies world.disk config metadata canonical sequence snapshot) :
    ThrowsOnly env.handle Accepting (loadLatestValidManifest args.engineConfig config metadata)
      world := by
  have hblocks : makeBlocks metadata.spec args.engineConfig = .ok canonical := by
    rw [halike.makeBlocks, hrun.expected_spec]
    exact hrun.canonical
  have hcount : canonical.length = metadata.blockCount.toNat := by
    rw [halike.blockCount]
    exact hrun.length
  intro e after h
  have heval := (run_loadLatestValidManifest hquiet args.engineConfig config metadata world).1
  rw [h] at heval
  cases hcandidates : world.disk.candidates with
  | nil =>
    rw [hcandidates] at heval
    cases heval
  | cons candidate rest =>
    obtain ⟨sequence, path⟩ := candidate
    obtain ⟨hpath, hsome⟩ := Disk.mem_candidates.mp (hcandidates ▸ List.mem_cons_self)
    obtain rfl : path = manifestPathFor sequence := hpath
    obtain ⟨snapshot, hqualifies⟩ := hvalid sequence hsome
    rw [hcandidates, tryCandidates, tryCandidate, eval_bind, eval_tryCatch, eval_bind,
      (eval_loadCandidate_ok hblocks hcount).mpr hqualifies] at heval
    cases heval

/-- `open` from the loaded manifest on. -/
theorem throwsOnly_finishOpen (hquiet : env.Quiet) (hrun : RunOf expected canonical args)
    (halike : metadata.Alike expected) {load : LoadResult}
    (hvalid : ∀ sequence, (world.disk.file (manifestPathFor sequence)).isSome →
      ∃ snapshot, Qualifies world.disk config metadata canonical sequence snapshot)
    (hloads : Loads env config metadata canonical world.disk load) :
    ThrowsOnly env.handle Accepting
      (finishOpen args.spec args.engineConfig config metadata existed load usage) world := by
  have hall : env.ListsAll .manifests := fun _ => ⟨hquiet.openScan _ _, hquiet.nextEntry _ _⟩
  have hnone : load.loaded = none → ∀ sequence,
      ¬ (world.disk.file (manifestPathFor sequence)).isSome := by
    intro hload sequence hsome
    obtain ⟨snapshot, hqualifies⟩ := hvalid sequence hsome
    obtain ⟨top, htop, -⟩ := hloads.highest hquiet _ _ hqualifies
    rw [Option.mem_def, hload] at htop
    cases htop
  have hfound : (load.loaded.isNone && load.sawManifestFile) = false := by
    cases hload : load.loaded with
    | some snapshot => rfl
    | none =>
      cases hsaw : load.sawManifestFile with
      | false => rfl
      | true => exact absurd (hloads.shown hsaw) (hnone hload _)
  unfold finishOpen
  rw [hfound, throwIf_false, hrun.canonical]
  refine throwsOnly_bind ((raises_pure _).throwsOnly world) fun _ now hnow => ?_
  refine throwsOnly_bind ((raises_pure _).throwsOnly now) fun blocks same hsame => ?_
  obtain ⟨-, rfl⟩ := Prod.mk.inj hnow
  obtain ⟨hblocks, rfl⟩ := Prod.mk.inj hsame
  obtain rfl := Except.ok.inj hblocks
  refine throwsOnly_bind ?_ fun recovery recovered _ => ?_
  · unfold obtainRecovery
    cases hload : load.loaded with
    | none =>
      exact throwsOnly_startRun hrun halike fun sequence =>
        Option.not_isSome_iff_eq_none.mp (hnone hload sequence)
    | some snapshot =>
      have hcount : canonical.length = metadata.blockCount.toNat := by
        rw [halike.blockCount]
        exact hrun.length
      have hsound := ((hloads.qualifies snapshot hload).2.toLoadable.sound hrun.positioned
        hcount).1.alike halike
      exact throwsOnly_recoverRun hrun halike hsound fun sequence hsome =>
        (hloads.seen hall sequence hsome).2
  · refine Raises.throwsOnly ?_ recovered
    refine raises_bind (thrownBy_removeOrphanBlockResults _ _ (by decide) (by decide)) fun _ => ?_
    exact raises_bind (thrownBy_storageUsage (by decide)) fun _ => raises_pure _

/-- `open` from the selection of a manifest on. -/
theorem throwsOnly_openLoaded (hquiet : env.Quiet) (hrun : RunOf expected canonical args)
    (halike : metadata.Alike expected)
    (hvalid : ∀ sequence, (world.disk.file (manifestPathFor sequence)).isSome →
      ∃ snapshot, Qualifies world.disk config metadata canonical sequence snapshot) :
    ThrowsOnly env.handle Accepting (do
      let load ← loadLatestValidManifest args.engineConfig config metadata
      finishOpen args.spec args.engineConfig config metadata existed load usage) world := by
  have hblocks : makeBlocks metadata.spec args.engineConfig = .ok canonical := by
    rw [halike.makeBlocks, hrun.expected_spec]
    exact hrun.canonical
  have hcount : canonical.length = metadata.blockCount.toNat := by
    rw [halike.blockCount]
    exact hrun.length
  refine throwsOnly_bind (throwsOnly_loadLatestValidManifest hquiet hrun halike hvalid)
    fun load loaded hload => ?_
  have hwp : Wp env.handle _ _ (loadLatestValidManifest args.engineConfig config metadata) world :=
    wp_loadLatestValidManifest hblocks hcount
  have hdisk := hwp.final
  have hloads := hwp.post
  rw [hload] at hdisk hloads
  have hvalid' : ∀ sequence, (loaded.disk.file (manifestPathFor sequence)).isSome →
      ∃ snapshot, Qualifies loaded.disk config metadata canonical sequence snapshot := by
    rw [hdisk]
    exact hvalid
  exact throwsOnly_finishOpen hquiet hrun halike hvalid' (hdisk.symm ▸ hloads load rfl)

theorem only_validateManifestSnapshot (engineConfig : EngineConfig) (config : RunStoreConfig)
    (manifest : RunManifest) (metadata : RunMetadata) :
    Only Op.Reads (validateManifestSnapshot engineConfig config manifest metadata) := by
  refine only_bind (only_ofExcept _) fun _ => only_bind (only_ofExcept _) fun canonical => ?_
  refine only_bind (only_loadEntries _ _ _ _ _ _) fun results => ?_
  exact only_bind (only_ofExcept _) fun _ => only_pure _

/-- Arguments that are no run are refused with an exception of their own. -/
theorem throwsOnly_openStore_of_error {error : Exception}
    (herror : expectedMetadata args.build args.spec args.engineConfig = .error error) :
    ThrowsOnly env.handle Accepting args.openStore world := by
  have hraises := thrownBy_expectedMetadata (T := (· ∉ rejections)) args.build args.spec
    args.engineConfig (by decide) (by decide) (by decide) (by decide)
  unfold OpenArguments.openStore MonteCarlo.openStore
  rw [herror]
  refine throwsOnly_bind ((raises_ofExcept
    (thrownBy_validateStore _ (by decide))).throwsOnly world) fun _ now _ => ?_
  refine throwsOnly_bind ((raises_throw (hraises error herror)).throwsOnly now)
    fun expected last hlast => ?_
  cases (Prod.mk.inj hlast).1

theorem same_of_prepareDirectory {outcome : Except Exception StorageUsage}
    (h : run env.handle (prepareDirectory config) world = (outcome, after)) :
    world.disk.Same after.disk := by
  have hwp : Wp env.handle _ _ (prepareDirectory config) world :=
    preserves_prepareDirectory config world (.refl world.disk)
  have hpost := hwp.post
  rw [h] at hpost
  exact hpost

/-- `open` rejects nothing that it finds or writes.  A build description that is too long to be
encoded is what the caller supplies. -/
theorem throwsOnly_openStore (hquiet : env.Quiet) (h : Consistent expected canonical world.disk)
    (hrun : RunOf expected canonical args)
    (hfits : ∀ sequence, (world.disk.file (manifestPathFor sequence)).isSome → args.Fits) :
    ThrowsOnly env.handle (fun e => Accepting e ∨ encodeRunMetadata expected = .error e)
      args.openStore world := by
  have haccepting : ∀ {α : Type} {p : Prog α} (now : World), Raises Accepting p →
      ThrowsOnly env.handle (fun e => Accepting e ∨ encodeRunMetadata expected = .error e) p now :=
    fun now hp => (hp.mono fun _ => Or.inl).throwsOnly now
  unfold OpenArguments.openStore MonteCarlo.openStore
  rw [hrun.expected]
  refine throwsOnly_bind (haccepting world (raises_ofExcept
    (thrownBy_validateStore _ (by decide)))) fun _ valid hvalid => ?_
  rw [run_ofExcept] at hvalid
  obtain ⟨-, rfl⟩ := Prod.mk.inj hvalid
  refine throwsOnly_bind (haccepting world (raises_pure _)) fun found same hsame => ?_
  obtain ⟨hfound, rfl⟩ := Prod.mk.inj hsame
  obtain rfl := Except.ok.inj hfound
  have hconfig := OpenArguments.config_eq hrun.expected
  dsimp only
  rw [hconfig]
  refine throwsOnly_bind (haccepting world (thrownBy_prepareDirectory _ (by decide) (by decide)
    (by decide) (by decide) (by decide) (by decide))) fun usage prepared hprepare => ?_
  have hprepared := same_of_prepareDirectory hprepare
  have hconsistent := h.same hrun.positioned hrun.length hprepared
  refine throwsOnly_bind (throwsOnly_obtainMetadata hrun hconsistent.owned)
    fun found registered hobtain => ?_
  have hwp : Wp env.handle _ _ (obtainMetadata args.config expected usage) prepared :=
    wp_obtainMetadata (Disk.Same.refl prepared.disk)
  have hobtained := hwp.post
  rw [hobtain] at hobtained
  obtain ⟨next, hregisters, hsame⟩ := hobtained found rfl
  obtain ⟨metadata, existed, counted⟩ := found
  have halike := (hregisters.owned hrun hconsistent.owned).1
  have hfollows := (hconsistent.toConsistent.registers hrun hregisters).toConsistent.same
    hrun.positioned hrun.length hsame
  have hmanifests : world.disk.SameManifests registered.disk := by
    refine hprepared.sameManifests.trans (Disk.SameManifests.trans (fun sequence => ?_)
      hsame.sameManifests)
    rw [Disk.file, Disk.file, hregisters.lookup_ne (by intro hpath; cases hpath)]
  intro e last hrest
  refine Or.inl (throwsOnly_openLoaded hquiet hrun halike (fun sequence hsome => ?_) e last hrest)
  obtain ⟨snapshot, hsealed⟩ := hfollows.sealed sequence hsome
  rw [hmanifests sequence] at hsome
  exact ⟨snapshot, (hsealed.qualifies (hrun.fits_iff.mpr (hfits sequence hsome))).alike
    halike.symm⟩

end Opening

/-! ## Recording and checkpointing -/

section Mutators

variable {env : Environment} {expected : RunMetadata} {canonical : List ScenarioBlock}
  {args : OpenArguments} {store : DurableRunStore} {world : World}
  {coordinator : CoordinatorState} {leaves : List (AggregateStats Binary64)}
  {received : List Bool} {status : DurableRunStatus} {failure : Option FailureRecord}

/-- `record_result`, for a result that passes its checks and is new. -/
theorem throwsOnly_recordResult {result : BlockResult}
    (hattached : Attached expected canonical args store world.disk)
    (hleads : Leads expected canonical args store world.disk)
    (hrun : RunOf expected canonical args) (hcheck : checkRecord store result = .ok ())
    (hnew : (store.durableResults[result.block.blockId.toNat]?).join = none)
    (hencode : ∃ bytes, encodeBlockRecord ⟨store.metadata.runId, result⟩ = .ok bytes) :
    ThrowsOnly env.handle Accepting (recordResult store result) world := by
  obtain ⟨bytes, hbytes⟩ := hencode
  obtain ⟨leases, hleased, hsound⟩ := hattached.leased
  obtain ⟨-, -, -, hincarnation, -⟩ := hattached.valid hrun hleased hsound.leases_ne hcheck
  have hfree : ∀ found, world.disk.file (blockPathFor result.block) ≠ some found := by
    intro found hfound
    obtain ⟨earlier, hearlier, -⟩ := hleads.fresh result.block hincarnation (by rw [hfound]; rfl)
    rw [hearlier] at hnew
    cases hnew
  rw [recordResult, hcheck, hbytes]
  refine throwsOnly_bind ((raises_pure _).throwsOnly world) fun _ now hnow => ?_
  obtain ⟨-, rfl⟩ := Prod.mk.inj hnow
  simp only [hnew]
  refine throwsOnly_bind ((raises_pure _).throwsOnly world) fun written same hsame => ?_
  obtain ⟨-, rfl⟩ := Prod.mk.inj hsame
  exact throwsOnly_bind (throwsOnly_atomicWrite _ fun found hfound => absurd hfound (hfree found))
    fun _ last _ => (raises_pure _).throwsOnly last

theorem accepting_checkpointEntries (index : ℕ) :
    Result.Throws Accepting (checkpointEntries store coordinator leaves index received) := by
  have hcheckpoint : Thrower.checkpoint ∉ rejections := by decide
  induction received generalizing index with
  | nil => exact Result.throws_ok _
  | cons flag rest ih =>
    cases flag with
    | false => exact ih _
    | true =>
      rw [checkpointEntries]
      split
      · exact Result.throws_error hcheckpoint
      · exact Result.throws_bind (Result.throws_throwIf hcheckpoint) fun _ =>
          Result.throws_bind (ih _) fun _ => Result.throws_ok _

theorem accepting_checkpointManifest : Result.Throws Accepting
    (checkpointManifest store coordinator leaves received status failure) := by
  have hcheckpoint : Thrower.checkpoint ∉ rejections := by decide
  refine Result.throws_bind (Result.throws_throwIf hcheckpoint) fun _ => ?_
  refine Result.throws_bind (Result.throws_throwIf hcheckpoint) fun _ => ?_
  refine Result.throws_bind (Result.throws_throwIf hcheckpoint) fun _ => ?_
  refine Result.throws_bind (Result.throws_throwIf hcheckpoint) fun _ => ?_
  refine Result.throws_bind (accepting_checkpointEntries 0) fun _ => ?_
  refine Result.throws_bind (Result.throws_throwIf hcheckpoint) fun _ => ?_
  refine Result.throws_bind (fun e h => ?_) fun _ => Result.throws_ok _
  unfold Accepting ThrownBy
  rw [(reduceBlockResults_error h).1]
  decide

theorem checkpointManifest_failed {manifest : RunManifest}
    (h : checkpointManifest store coordinator leaves received status failure = .ok manifest) :
    status = .failed ↔ failure.isSome := by
  obtain ⟨⟨⟩, -, h⟩ := Result.bind_eq_ok.mp h
  obtain ⟨⟨⟩, -, h⟩ := Result.bind_eq_ok.mp h
  obtain ⟨⟨⟩, -, h⟩ := Result.bind_eq_ok.mp h
  obtain ⟨⟨⟩, hfailed, -⟩ := Result.bind_eq_ok.mp h
  rw [throwIf_eq_ok, bne_eq_false_iff_eq] at hfailed
  rw [← hfailed, decide_eq_true_iff]

/-- A checkpoint of everything that is durable can be encoded. -/
theorem RunOf.encodable_checkpoint {disk : Disk} (hrun : RunOf expected canonical args)
    (hattached : Attached expected canonical args store disk)
    (hblocks : coordinator.blocks = store.recovery.blocks)
    (hleaves : leaves = leavesOf store.durableResults)
    (hreceived : received = store.durableResults.map (·.isSome))
    (hreason : ∀ record ∈ failure, record.reason.length ≤ 147) {manifest : RunManifest}
    (hmanifest : checkpointManifest store coordinator leaves received status failure =
      .ok manifest) :
    EncodableManifest manifest := by
  have hof := checkpointManifest_eq_ok (hattached.length hrun) hmanifest
  obtain ⟨leases, hleased, hsound⟩ := hattached.leased
  have hepochs : coordinator.blocks.map (·.leaseEpoch) = leases := by
    rw [hblocks, hleased, map_leaseEpoch_leaseAll _ hsound.leases_length]
  have hall : receivedResults store.durableResults received = store.durableResults := by
    rw [hreceived, receivedResults_isSome]
  have hmanifestOf := hof.toManifestOf
  rw [hepochs, hall] at hmanifestOf
  have hreduction : reduceBlockResults (leavesOf store.durableResults) =
      .ok manifest.committedAggregate := by
    rw [← hleaves]
    exact hof.reduction
  have hfor : ManifestFor store.metadata leases store.durableResults
      (store.recovery.manifestSequence + 1) store.recovery.runIncarnation status manifest :=
    ⟨hmanifestOf, hof.sequence, hof.incarnation, hof.status_eq, hreduction⟩
  refine hrun.encodable (hfor.alike hattached.metadata).toManifestOf ?_ hreduction ?_ ?_ ?_
  · rw [hof.incarnation]
    exact hsound
  · rw [hof.status_eq, checkpointManifest_failure hmanifest]
    exact checkpointManifest_failed hmanifest
  · intro record hrecord
    rw [checkpointManifest_failure hmanifest] at hrecord
    exact Nat.le_trans (hreason record hrecord) (by decide)
  · intro hcomplete
    rw [hof.status_eq] at hcomplete
    rw [List.any_eq_false]
    intro result hresult hnone
    have hflag := hof.complete hcomplete result.isSome
      (hreceived ▸ List.mem_map_of_mem hresult)
    rw [Option.isNone_iff_eq_none] at hnone
    rw [hnone] at hflag
    cases hflag

/-- `checkpoint`, of everything that is durable. -/
theorem throwsOnly_checkpoint (hattached : Attached expected canonical args store world.disk)
    (hleads : Leads expected canonical args store world.disk)
    (hrun : RunOf expected canonical args)
    (hblocks : coordinator.blocks = store.recovery.blocks)
    (hleaves : leaves = leavesOf store.durableResults)
    (hreceived : received = store.durableResults.map (·.isSome))
    (hreason : ∀ record ∈ failure, record.reason.length ≤ 147) :
    ThrowsOnly env.handle Accepting
      (checkpoint store coordinator leaves received status failure) world := by
  refine throwsOnly_bind ((raises_ofExcept accepting_checkpointManifest).throwsOnly world)
    fun manifest now hpair => ?_
  rw [run_ofExcept] at hpair
  obtain ⟨hmanifest, rfl⟩ := Prod.mk.inj hpair
  have hof := checkpointManifest_eq_ok (hattached.length hrun) hmanifest
  obtain ⟨bytes, hencode⟩ :=
    (hrun.encodable_checkpoint hattached hblocks hleaves hreceived hreason hmanifest).encodes
  rw [hencode]
  refine throwsOnly_bind ((raises_pure _).throwsOnly world) fun written same hsame => ?_
  obtain ⟨-, rfl⟩ := Prod.mk.inj hsame
  refine throwsOnly_bind ((thrownBy_throwIf (by decide)).throwsOnly world) fun _ fits hfits => ?_
  rw [run_ofExcept] at hfits
  obtain ⟨-, rfl⟩ := Prod.mk.inj hfits
  refine throwsOnly_bind (throwsOnly_atomicWrite _ fun found hfound => ?_) fun _ last _ =>
    (raises_bind (thrownBy_callIgnored _) fun _ => raises_pure _).throwsOnly last
  have hle := UInt64.le_iff_toNat_le.mp (hleads.highest manifest.sequence (by rw [hfound]; rfl))
  rw [hof.sequence, toNat_add_one hof.sequence_ne] at hle
  omega

end Mutators

end MonteCarlo
