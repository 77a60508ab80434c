import MonteCarlo.Store.Chain

/-!
# The store that leads the chain

`open` continues the chain of manifests, and so do the mutators of the store that it returns.

* `Recovers.identity` — the sequence number and the incarnation with which a run goes on.
* `Leads` — the store of a run that is going on: its manifest is the last one, and no block result
  of its incarnation is on disk but those that it has.
* `Consistent.opening`, `Leads.records`, `Leads.checkpoints` — what each step leaves.
-/

namespace MonteCarlo

open Effects Effects.Program

/-! ## The identity of a recovered run -/

theorem le_maxOfWords (x y : UInt64) : x ≤ maxOfWords x y ∧ y ≤ maxOfWords x y := by
  unfold maxOfWords
  split
  · rename_i hlt
    exact ⟨UInt64.le_of_lt hlt, UInt64.le_refl _⟩
  · rename_i hlt
    exact ⟨UInt64.le_refl _, UInt64.not_lt.mp hlt⟩

/-- With what a run goes on: afresh, as a new incarnation of a snapshot, or not at all. -/
inductive Renews (load : LoadResult) (recovery : DurableRecoveryState) : Prop where
  | started (hload : load.loaded = none) (hsequence : recovery.manifestSequence = 0)
      (hincarnation : recovery.runIncarnation = 1) (hstatus : recovery.status = .running)
      (hresults : ∀ (i : ℕ) result, recovery.committedResults[i]? ≠ some (some result))
  | resumed {snapshot : LoadedManifest} (hload : load.loaded = some snapshot)
      (hrunning : snapshot.manifest.status = .running)
      (hincarnation_ne : snapshot.manifest.runIncarnation ≠ maxWord)
      (hsequence_ne : load.highestSequenceSeen ≠ maxWord)
      (hsequence : recovery.manifestSequence = load.highestSequenceSeen + 1)
      (hincarnation : recovery.runIncarnation =
        maxOfWords (snapshot.manifest.runIncarnation + 1) (load.highestSequenceSeen + 1))
      (hstatus : recovery.status = .running)
      (hresults : recovery.committedResults = snapshot.results)
  | ended {snapshot : LoadedManifest} (hload : load.loaded = some snapshot)
      (hended : snapshot.manifest.status ≠ .running)
      (hsequence : recovery.manifestSequence = snapshot.manifest.sequence)
      (hincarnation : recovery.runIncarnation = snapshot.manifest.runIncarnation)
      (hstatus : recovery.status = snapshot.manifest.status)
      (hresults : recovery.committedResults = snapshot.results)

theorem Recovers.identity {metadata : RunMetadata} {existed : Bool} {load : LoadResult}
    {blocks : List ScenarioBlock} {disk next : Disk} {recovery : DurableRecoveryState}
    (h : Recovers metadata existed load blocks disk recovery next) : Renews load recovery := by
  cases h with
  | started hload hmanifest hinstalls =>
    refine .started hload rfl rfl rfl fun i result hi => ?_
    rw [List.getElem?_replicate] at hi
    split at hi <;> cases hi
  | resumed hload hstatus hincarnation hsequence hmanifest hinstalls =>
    obtain ⟨renewed, -, hmanifest⟩ := Result.bind_eq_ok.mp hmanifest
    obtain ⟨made, hmade, hmanifest⟩ := Result.bind_eq_ok.mp hmanifest
    cases hmanifest
    have hmade' := makeManifestFromResults_eq_ok hmade
    exact .resumed hload hstatus hincarnation hsequence hmade'.sequence hmade'.incarnation rfl rfl
  | ended hload hended => exact .ended hload hended rfl rfl rfl rfl

/-! ## Opening -/

section Opening

variable {env : Environment} {expected : RunMetadata} {canonical : List ScenarioBlock}
  {args : OpenArguments} {disk next : Disk} {trail : Trail}

theorem RunOf.fits_iff (hrun : RunOf expected canonical args) :
    args.config.Fits expected.blockCount ↔ args.Fits :=
  (MetadataOf.installed hrun.expected).fits_iff

/-- The metadata is found or installed. -/
theorem Consistent.registers (h : Consistent expected canonical disk)
    (hrun : RunOf expected canonical args) {metadata : RunMetadata} {existed : Bool}
    (hregisters : Registers env expected disk metadata existed next) :
    Follows expected canonical disk next := by
  have hlookup : ∀ {path : Path}, path ≠ metadataPath → next.file path = disk.file path := by
    intro path hpath
    rw [Disk.file, Disk.file, hregisters.lookup_ne hpath]
  have hblock : ∀ block, next.file (blockPathFor block) = disk.file (blockPathFor block) :=
    fun _ => hlookup (by intro hpath; cases hpath)
  refine h.of_stored hrun.positioned hrun.length ?_ (fun _ => hlookup (by intro hpath; cases hpath))
    (fun _ _ hsealed i result hi => ?_) (fun block hsome => ?_)
  · obtain ⟨-, bytes, hfile, hencode⟩ := hregisters.owned hrun h.owned
    intro found hfound
    rw [hfile] at hfound
    rwa [← Option.some.inj hfound]
  · rw [Stored, hblock]
    exact hsealed.stored hrun.positioned hrun.length hi
  · rw [hblock] at hsome
    exact h.stamped block hsome

/-- A manifest of `open` is sealed. -/
theorem sealed_of_manifestFor {leases : List UInt64} {results : List (Option BlockResult)}
    {sequence incarnation : UInt64} {manifest : RunManifest} {bytes : Bytes}
    (hfits : args.Fits) (hrun : RunOf expected canonical args)
    (hmanifest : ManifestFor expected leases results sequence incarnation .running manifest)
    (hsound : SoundResults expected canonical incarnation leases results)
    (hstored : ∀ (i : ℕ) result, results[i]? = some (some result) → Stored next expected result)
    (hencode : encodeManifest manifest = .ok bytes)
    (hfile : next.file (manifestPathFor sequence) = some bytes) :
    Sealed expected canonical next sequence ⟨manifest, results⟩ := by
  have hm := (encodeManifest_eq_ok.mp hencode).1
  have hnone : manifest.failure = none := by
    rw [← Option.not_isSome_iff_eq_none, ← hm.failed, hmanifest.status]
    nofun
  have hsize : bytes.length ≤ 512 + 64 * expected.blockCount.toNat := by
    rw [← hmanifest.blockCount]
    refine length_manifest_le hencode ?_
    rw [hnone]
    nofun
  have hfits' := hrun.fits_iff.mpr hfits
  unfold RunStoreConfig.Fits at hfits'
  rw [← hmanifest.incarnation] at hsound
  refine ⟨⟨args.config, hfits', ?_⟩, ?_⟩
  · exact ⟨loadable_of_stored hsound hmanifest.toManifestOf hstored hfile hencode
      hmanifest.sequence (by omega) (by omega), hmanifest.reduction⟩
  · intro found hfound
    rw [Option.mem_def, hfile] at hfound
    rwa [← Option.some.inj hfound]

/-- What is loaded for a run that goes on is the last manifest, if there is room. -/
theorem Follows.loaded_last (h : Follows expected canonical disk trail.registered)
    (hrun : RunOf expected canonical args) (hquiet : env.Quiet) (howned : Owned expected disk)
    (htrail : trail.Of env args disk) (hfits : args.Fits) {top : LoadedManifest}
    (hload : trail.load.loaded = some top) :
    Sealed expected canonical trail.registered trail.load.highestSequenceSeen top := by
  have hall : env.ListsAll .manifests := fun _ => ⟨hquiet.openScan _ _, hquiet.nextEntry _ _⟩
  obtain ⟨hcanonical, -, halike, -⟩ := htrail.owned hrun howned
  obtain ⟨hvalid, -⟩ := htrail.loaded hrun howned hload
  obtain ⟨highest, hhighest⟩ := h.sealed _ (htrail.loads.shown
    (htrail.loads.seen hall _ hvalid.toLoadable.isSome_file).1)
  have hqualifies := (hhighest.qualifies (hrun.fits_iff.mpr hfits)).alike halike.symm
  rw [← hcanonical] at hqualifies
  obtain ⟨found, hfound, hle⟩ := htrail.loads.highest hquiet _ _ hqualifies
  rw [Option.mem_def, hload] at hfound
  rw [← Option.some.inj hfound] at hle
  have htop : top.manifest.sequence = trail.load.highestSequenceSeen :=
    UInt64.le_antisymm (htrail.loads.qualifies top hload).1 hle
  rw [htop] at hvalid
  rwa [hhighest.unique hvalid] at hhighest

/-- A run that goes on continues after every manifest that was there. -/
theorem Follows.renews (h : Follows expected canonical disk trail.registered)
    (hrun : RunOf expected canonical args) (hquiet : env.Quiet) (howned : Owned expected disk)
    (htrail : trail.Of env args disk) (hstatus : trail.recovery.status = .running) :
    (∀ sequence, (trail.registered.file (manifestPathFor sequence)).isSome →
        sequence < trail.recovery.manifestSequence) ∧
      (args.Fits → ∀ sequence snapshot,
        Sealed expected canonical trail.registered sequence snapshot →
          snapshot.manifest.status = .running ∧
            Extends snapshot.results trail.recovery.committedResults ∧
            snapshot.manifest.runIncarnation < trail.recovery.runIncarnation) := by
  have hall : env.ListsAll .manifests := fun _ => ⟨hquiet.openScan _ _, hquiet.nextEntry _ _⟩
  cases htrail.recovers.identity with
  | started hload =>
    have hnone : ∀ sequence, ¬ (trail.registered.file (manifestPathFor sequence)).isSome := by
      intro sequence hsome
      have hsaw := (htrail.loads.seen hall sequence hsome).1
      rw [htrail.seen hload] at hsaw
      cases hsaw
    exact ⟨fun sequence hsome => absurd hsome (hnone sequence), fun _ sequence snapshot hsealed =>
      absurd hsealed.isSome_file (hnone sequence)⟩
  | @resumed top hload hrunning hincarnation_ne hsequence_ne hsequence hincarnation _ hresults =>
    have hbelow : ∀ sequence, (trail.registered.file (manifestPathFor sequence)).isSome →
        sequence ≤ trail.load.highestSequenceSeen := fun sequence hsome =>
      (htrail.loads.seen hall sequence hsome).2
    refine ⟨fun sequence hsome => ?_, fun hfits sequence snapshot hsealed => ?_⟩
    · have hle := UInt64.le_iff_toNat_le.mp (hbelow sequence hsome)
      rw [hsequence, UInt64.lt_iff_toNat_lt, toNat_add_one hsequence_ne]
      omega
    · have htop := h.loaded_last hrun hquiet howned htrail hfits hload
      have hle := hbelow sequence hsealed.isSome_file
      obtain ⟨hextends, hincarnation_le⟩ := h.extends_of_le hsealed htop hle
      refine ⟨?_, hresults ▸ hextends, ?_⟩
      · rcases UInt64.lt_or_eq_of_le hle with hlt | rfl
        · exact (h.ordered _ _ _ _ hsealed htop hlt).1
        · rw [hsealed.unique (htop.qualifies (hrun.fits_iff.mpr hfits))]
          exact hrunning
      · have hmax := UInt64.le_iff_toNat_le.mp (le_maxOfWords (top.manifest.runIncarnation + 1)
          (trail.load.highestSequenceSeen + 1)).1
        rw [toNat_add_one hincarnation_ne] at hmax
        have hle := UInt64.le_iff_toNat_le.mp hincarnation_le
        rw [hincarnation, UInt64.lt_iff_toNat_lt]
        omega
  | ended hload hended _ _ hstatus' =>
    rw [hstatus'] at hstatus
    exact absurd hstatus hended

theorem Consistent.registered (h : Consistent expected canonical disk)
    (hrun : RunOf expected canonical args) (htrail : trail.Of env args disk) :
    Follows expected canonical disk trail.registered ∧
      disk.SameManifests trail.registered := by
  have hexpected : trail.expected = expected :=
    Except.ok.inj (htrail.expected.symm.trans hrun.expected)
  have hregisters := htrail.registers
  rw [hexpected] at hregisters
  refine ⟨h.registers hrun hregisters, fun sequence => ?_⟩
  rw [Disk.file, Disk.file, hregisters.lookup_ne (by intro hpath; cases hpath)]

/-- When a run goes on, the largest manifest fits and the new one is the last. -/
theorem Consistent.trail_running (h : Consistent expected canonical disk)
    (hrun : RunOf expected canonical args) (hquiet : env.Quiet) (htrail : trail.Of env args disk)
    (hbudget : args.Fits ∨ disk.SameManifests trail.recovered)
    (hstatus : trail.recovery.status = .running) :
    args.Fits ∧ Follows expected canonical disk trail.recovered ∧ ∃ snapshot,
      Sealed expected canonical trail.recovered trail.recovery.manifestSequence snapshot ∧
        snapshot.manifest.status = .running ∧
        snapshot.manifest.runIncarnation = trail.recovery.runIncarnation ∧
        snapshot.results = trail.recovery.committedResults ∧
        (∀ sequence, (trail.recovered.file (manifestPathFor sequence)).isSome →
          sequence ≤ trail.recovery.manifestSequence) ∧
        ∀ block, (trail.recovered.file (blockPathFor block)).isSome →
          block.runIncarnation < trail.recovery.runIncarnation := by
  obtain ⟨leases, ⟨-, hsound⟩, hcases⟩ := htrail.recovered hrun h.owned
  rcases hcases with ⟨-, manifest, hmanifest, bytes, hencode, hinstalls⟩ | ⟨hended, -⟩
  swap
  · exact absurd hstatus hended
  rw [hmanifest.sequence] at hinstalls
  obtain ⟨hregistered, hmanifests⟩ := h.registered hrun htrail
  obtain ⟨hlast, hextends⟩ := hregistered.renews hrun hquiet h.owned htrail hstatus
  have hfits : args.Fits := by
    rcases hbudget with hfits | hsame
    · exact hfits
    · have hnew := hsame trail.recovery.manifestSequence
      rw [hinstalls.file, ← hmanifests] at hnew
      exact absurd (hlast _ (by rw [← hnew]; rfl)) (UInt64.lt_irrefl _)
  have hsealed : Sealed expected canonical trail.recovered trail.recovery.manifestSequence
      ⟨manifest, trail.recovery.committedResults⟩ :=
    sealed_of_manifestFor hfits hrun hmanifest hsound
      (fun i result hi => htrail.stored hrun h.owned hi) hencode hinstalls.file
  refine ⟨hfits, hregistered.trans (hregistered.installs_manifest hrun.positioned hrun.length
    hinstalls hsealed hlast fun other earlier hother => ?_), _, hsealed, hmanifest.status,
    hmanifest.incarnation, rfl, fun sequence hsome => ?_, fun block hsome => ?_⟩
  · obtain ⟨hrunning, hresults, hlt⟩ := hextends hfits other earlier hother
    refine ⟨hrunning, hresults, ?_⟩
    rw [show (LoadedManifest.mk manifest trail.recovery.committedResults).manifest.runIncarnation =
      trail.recovery.runIncarnation from hmanifest.incarnation]
    exact UInt64.le_of_lt hlt
  · by_cases heq : sequence = trail.recovery.manifestSequence
    · rw [heq]
      exact UInt64.le_refl _
    · rw [hinstalls.file_ne (fun hpath => heq (manifestPathFor_injective hpath))] at hsome
      exact UInt64.le_of_lt (hlast sequence hsome)
  · rw [hinstalls.file_ne (by intro hpath; cases hpath)] at hsome
    obtain ⟨sequence, snapshot, hold, hle⟩ := hregistered.stamped block hsome
    have hlt := UInt64.lt_iff_toNat_lt.mp (hextends hfits sequence snapshot hold).2.2
    rw [UInt64.lt_iff_toNat_lt]
    exact Nat.lt_of_le_of_lt (UInt64.le_iff_toNat_le.mp hle) hlt

/-- When the run has ended, the manifest that says so is the last one. -/
theorem Consistent.trail_ended (h : Consistent expected canonical disk)
    (hrun : RunOf expected canonical args) (htrail : trail.Of env args disk)
    (hstatus : trail.recovery.status ≠ .running) :
    Follows expected canonical disk trail.recovered ∧ ∃ snapshot,
      Sealed expected canonical trail.recovered trail.recovery.manifestSequence snapshot ∧
        snapshot.manifest.status = trail.recovery.status ∧
        snapshot.manifest.runIncarnation = trail.recovery.runIncarnation ∧
        snapshot.results = trail.recovery.committedResults := by
  obtain ⟨leases, -, hcases⟩ := htrail.recovered hrun h.owned
  rcases hcases with ⟨hrunning, -⟩ | ⟨-, hrecovered⟩
  · exact absurd hrunning hstatus
  obtain ⟨hregistered, -⟩ := h.registered hrun htrail
  rw [hrecovered]
  refine ⟨hregistered, ?_⟩
  cases htrail.recovers.identity with
  | started hload _ _ hrunning => exact absurd hrunning hstatus
  | resumed hload _ _ _ _ _ hrunning => exact absurd hrunning hstatus
  | @ended snapshot hload hended hsequence hincarnation hstatus' hresults =>
    obtain ⟨hvalid, -⟩ := htrail.loaded hrun h.owned hload
    obtain ⟨found, hfound⟩ := hregistered.sealed _ hvalid.toLoadable.isSome_file
    obtain rfl := hfound.unique hvalid
    exact ⟨found, hsequence ▸ hfound, hstatus'.symm, hincarnation.symm, hresults.symm⟩

/-- The recovered results are those of every manifest, and perhaps more. -/
theorem Consistent.trail_covers (h : Consistent expected canonical disk)
    (hrun : RunOf expected canonical args) (hquiet : env.Quiet) (htrail : trail.Of env args disk)
    (hbudget : args.Fits ∨ disk.SameManifests trail.recovered) :
    Follows expected canonical disk trail.recovered ∧ ∀ sequence snapshot,
      Sealed expected canonical trail.recovered sequence snapshot →
        Extends snapshot.results trail.recovery.committedResults := by
  by_cases hstatus : trail.recovery.status = .running
  · obtain ⟨-, hfollows, top, htop, -, -, hresults, hlast, -⟩ :=
      h.trail_running hrun hquiet htrail hbudget hstatus
    refine ⟨hfollows, fun sequence snapshot hsealed => ?_⟩
    rw [← hresults]
    exact (hfollows.extends_of_le hsealed htop (hlast _ hsealed.isSome_file)).1
  · obtain ⟨hfollows, top, htop, hended, -, hresults⟩ := h.trail_ended hrun htrail hstatus
    rw [← hended] at hstatus
    refine ⟨hfollows, fun sequence snapshot hsealed => ?_⟩
    rw [← hresults]
    exact (hfollows.extends_of_le hsealed htop
      (hfollows.last_of_ended htop hstatus hsealed.isSome_file)).1

theorem Consistent.trail_cleans (h : Consistent expected canonical disk)
    (hrun : RunOf expected canonical args) (hquiet : env.Quiet) (htrail : trail.Of env args disk)
    (hcleans : trail.recovered.Cleans trail.recovery.committedResults next)
    (hbudget : args.Fits ∨ disk.SameManifests next) :
    (args.Fits ∨ disk.SameManifests trail.recovered) ∧
      Follows expected canonical trail.recovered next := by
  have hbudget' : args.Fits ∨ disk.SameManifests trail.recovered := by
    refine hbudget.imp_right fun hsame sequence => ?_
    rw [← hcleans.file (lasting_manifestPathFor sequence) nofun]
    exact hsame sequence
  obtain ⟨hfollows, hcovers⟩ := h.trail_covers hrun hquiet htrail hbudget'
  obtain ⟨leases, ⟨-, hsound⟩, -⟩ := htrail.recovered hrun h.owned
  exact ⟨hbudget', hfollows.cleans hrun.positioned hrun.length hsound hcleans hcovers⟩

/-- Every moment of `open`. -/
theorem Consistent.opening (h : Consistent expected canonical disk)
    (hrun : RunOf expected canonical args) (hquiet : env.Quiet)
    (hstage : OpenStage env args disk next) (hbudget : args.Fits ∨ disk.SameManifests next) :
    Follows expected canonical disk next := by
  cases hstage with
  | untouched => exact h.follows
  | registered hexpected hregisters =>
    obtain rfl := Except.ok.inj (hexpected.symm.trans hrun.expected)
    exact h.registers hrun hregisters
  | recovered htrail => exact (h.trail_covers hrun hquiet htrail hbudget).1
  | cleaning htrail hcleans =>
    obtain ⟨hbudget', hcleaned⟩ := h.trail_cleans hrun hquiet htrail hcleans hbudget
    exact (h.trail_covers hrun hquiet htrail hbudget').1.trans hcleaned

end Opening

/-! ## The store of a run that goes on -/

/-- The manifest of the store is the last one, and the block results of its incarnation are those
that it has. -/
structure Leads (expected : RunMetadata) (canonical : List ScenarioBlock) (args : OpenArguments)
    (store : DurableRunStore) (disk : Disk) : Prop extends Consistent expected canonical disk where
  fits : args.Fits
  running : store.recovery.status = .running
  top : ∃ snapshot, Sealed expected canonical disk store.recovery.manifestSequence snapshot ∧
    snapshot.manifest.status = .running ∧
    snapshot.manifest.runIncarnation = store.recovery.runIncarnation ∧
    Extends snapshot.results store.durableResults
  highest : ∀ sequence, (disk.file (manifestPathFor sequence)).isSome →
    sequence ≤ store.recovery.manifestSequence
  fresh : ∀ block, block.runIncarnation = store.recovery.runIncarnation →
    (disk.file (blockPathFor block)).isSome → ∃ result,
      store.durableResults[block.blockId.toNat]? = some (some result) ∧
        result.block.attempt = block.attempt

section Leads

variable {env : Environment} {expected : RunMetadata} {canonical : List ScenarioBlock}
  {args : OpenArguments} {disk next : Disk} {store store' : DurableRunStore}

/-- What `open` returns has the results of every manifest. -/
theorem Opens.covers (hopens : Opens env args disk store next)
    (h : Consistent expected canonical disk) (hrun : RunOf expected canonical args)
    (hquiet : env.Quiet) (hbudget : args.Fits ∨ disk.SameManifests next) :
    Follows expected canonical disk next ∧ ∀ sequence snapshot,
      Sealed expected canonical disk sequence snapshot →
        Extends snapshot.results store.recovery.committedResults := by
  obtain @⟨trail, usage, next, htrail, hcleans, horphans⟩ := hopens
  obtain ⟨hbudget', hcleaned⟩ := h.trail_cleans hrun hquiet htrail hcleans hbudget
  obtain ⟨hfollows, hcovers⟩ := h.trail_covers hrun hquiet htrail hbudget'
  exact ⟨hfollows.trans hcleaned, fun sequence snapshot hsealed =>
    hcovers sequence snapshot (hfollows.keeps _ _ hsealed)⟩

/-- A store that is opened and has ended. -/
theorem Opens.last (hopens : Opens env args disk store next)
    (h : Consistent expected canonical disk) (hrun : RunOf expected canonical args)
    (hquiet : env.Quiet) (hbudget : args.Fits ∨ disk.SameManifests next)
    (hstatus : store.recovery.status ≠ .running) :
    ∃ snapshot, Sealed expected canonical next store.recovery.manifestSequence snapshot ∧
      snapshot.manifest.status = store.recovery.status ∧
      snapshot.manifest.runIncarnation = store.recovery.runIncarnation ∧
      snapshot.results = store.durableResults := by
  obtain @⟨trail, usage, next, htrail, hcleans, horphans⟩ := hopens
  obtain ⟨-, hcleaned⟩ := h.trail_cleans hrun hquiet htrail hcleans hbudget
  obtain ⟨-, snapshot, hsealed, hrest⟩ := h.trail_ended hrun htrail hstatus
  exact ⟨snapshot, hcleaned.keeps _ _ hsealed, hrest⟩

/-- A store that is opened and running. -/
theorem Opens.leads (hopens : Opens env args disk store next)
    (h : Consistent expected canonical disk) (hrun : RunOf expected canonical args)
    (hquiet : env.Quiet) (hbudget : args.Fits ∨ disk.SameManifests next)
    (hstatus : store.recovery.status = .running) : Leads expected canonical args store next := by
  obtain @⟨trail, usage, next, htrail, hcleans, horphans⟩ := hopens
  obtain ⟨hbudget', hcleaned⟩ := h.trail_cleans hrun hquiet htrail hcleans hbudget
  obtain ⟨hfits, hfollows, top, htop, hrunning, hincarnation, hresults, hlast, hfresh⟩ :=
    h.trail_running hrun hquiet htrail hbudget' hstatus
  refine ⟨hcleaned.toConsistent, hfits, hstatus, ⟨top, hcleaned.keeps _ _ htop, hrunning,
    hincarnation, ?_⟩, fun sequence hsome => ?_, fun block hblock hsome => ?_⟩
  · rw [hresults]
    exact .refl _
  · rw [hcleans.file (lasting_manifestPathFor sequence) nofun] at hsome
    exact hlast sequence hsome
  · obtain ⟨bytes, hbytes⟩ := Option.isSome_iff_exists.mp hsome
    have hlt := hfresh block (by
      rw [hcleans.retains.file (lasting_blockPathFor block) hbytes]
      rfl)
    rw [hblock] at hlt
    exact absurd hlt (UInt64.lt_irrefl _)

theorem Leads.same (h : Leads expected canonical args store disk)
    (hrun : RunOf expected canonical args) (hsame : disk.Same next) :
    Leads expected canonical args store next := by
  have hfollows := h.toConsistent.same hrun.positioned hrun.length hsame
  obtain ⟨top, htop, htop'⟩ := h.top
  refine ⟨hfollows.toConsistent, h.fits, h.running, ⟨top, hfollows.keeps _ _ htop, htop'⟩,
    fun sequence hsome => ?_, fun block hblock hsome => ?_⟩
  · rw [hsame.file (lasting_manifestPathFor sequence)] at hsome
    exact h.highest sequence hsome
  · rw [hsame.file (lasting_blockPathFor block)] at hsome
    exact h.fresh block hblock hsome

/-- A result is recorded. -/
theorem Records.leads {result : BlockResult} (hrecords : Records store result disk store' next)
    (hattached : Attached expected canonical args store disk)
    (h : Leads expected canonical args store disk) (hrun : RunOf expected canonical args) :
    Follows expected canonical disk next ∧ Leads expected canonical args store' next := by
  cases hrecords with
  | repeated hcheck hearlier hattempt => exact ⟨h.toConsistent.follows, h⟩
  | @written bytes usage next hcheck hnew hencode hinstalls =>
    obtain ⟨leases, hleased, hsound⟩ := hattached.leased
    obtain ⟨-, hlt, -, hincarnation, -⟩ := hattached.valid hrun hleased hsound.leases_ne hcheck
    rw [← hsound.length_eq] at hlt
    obtain ⟨top, htop, hrunning, htopIncarnation, hextends⟩ := h.top
    have hfollows := h.toConsistent.installs_block hrun.positioned hrun.length hinstalls htop (by
      rw [htopIncarnation, hincarnation]
      exact UInt64.le_refl _)
    have hnone : store.durableResults[result.block.blockId.toNat]? = some none := by
      rw [List.getElem?_eq_getElem hlt] at hnew ⊢
      exact congrArg some hnew
    refine ⟨hfollows, hfollows.toConsistent, h.fits, h.running, ⟨top, hfollows.keeps _ _ htop,
      hrunning, htopIncarnation, ?_⟩, fun sequence hsome => ?_, fun block hblock hsome => ?_⟩
    · intro i found hi
      have hfound := hextends i found hi
      have hne : result.block.blockId.toNat ≠ i := by
        rintro rfl
        rw [hnone] at hfound
        cases hfound
      change (store.durableResults.set _ _)[i]? = _
      rwa [List.getElem?_set_ne hne]
    · rw [hinstalls.file_ne (by intro hpath; cases hpath)] at hsome
      exact h.highest sequence hsome
    · change ∃ found, (store.durableResults.set _ _)[_]? = _ ∧ _
      by_cases hpath : blockPathFor block = blockPathFor result.block
      · have hattempt : block.attempt = result.block.attempt :=
          blockName_injective (congrArg Path.name hpath)
        have hid : block.blockId = result.block.blockId := by
          simp only [ScenarioBlock.attempt, ScenarioBlock.mk.injEq] at hattempt
          exact hattempt.1
        refine ⟨result, ?_, hattempt.symm⟩
        rw [hid, List.getElem?_set_self hlt]
      · rw [hinstalls.file_ne hpath] at hsome
        obtain ⟨found, hfound, hattempt⟩ := h.fresh block hblock hsome
        refine ⟨found, ?_, hattempt⟩
        have hne : result.block.blockId.toNat ≠ block.blockId.toNat := by
          intro heq
          rw [← heq, hnone] at hfound
          cases hfound
        rwa [List.getElem?_set_ne hne]

/-! ## Checkpoints -/

theorem receivedResults_isSome (results : List (Option BlockResult)) :
    receivedResults results (results.map (·.isSome)) = results := by
  induction results with
  | nil => rfl
  | cons first rest ih =>
    have htail : receivedResults rest (rest.map (·.isSome)) = rest := ih
    cases first <;> exact congrArg (List.cons _) htail

variable {coordinator : CoordinatorState} {leaves : List (AggregateStats Binary64)}
  {received : List Bool} {status : DurableRunStatus} {failure : Option FailureRecord}

theorem checkpointManifest_failure {manifest : RunManifest}
    (h : checkpointManifest store coordinator leaves received status failure = .ok manifest) :
    manifest.failure = failure := by
  obtain ⟨⟨⟩, -, h⟩ := Result.bind_eq_ok.mp h
  obtain ⟨⟨⟩, -, h⟩ := Result.bind_eq_ok.mp h
  obtain ⟨⟨⟩, -, h⟩ := Result.bind_eq_ok.mp h
  obtain ⟨⟨⟩, -, h⟩ := Result.bind_eq_ok.mp h
  obtain ⟨entries, -, h⟩ := Result.bind_eq_ok.mp h
  obtain ⟨⟨⟩, -, h⟩ := Result.bind_eq_ok.mp h
  obtain ⟨aggregate, -, h⟩ := Result.bind_eq_ok.mp h
  cases h
  rfl

/-- A checkpoint of all results is sealed. -/
theorem Checkpoints.sealed
    (hcheckpoints : Checkpoints store coordinator leaves received status failure disk store' next)
    (hattached : Attached expected canonical args store disk)
    (h : Leads expected canonical args store disk) (hrun : RunOf expected canonical args)
    (hleaves : leaves = leavesOf store.durableResults)
    (hreceived : received = store.durableResults.map (·.isSome))
    (hreason : ∀ record ∈ failure, record.reason.length ≤ 147) :
    ∃ snapshot, Sealed expected canonical next (store.recovery.manifestSequence + 1) snapshot ∧
      snapshot.manifest.status = status ∧
      snapshot.manifest.runIncarnation = store.recovery.runIncarnation ∧
      snapshot.results = store.durableResults := by
  obtain @⟨manifest, bytes, usage, next, hmanifest, hencode, hlimit, hinstalls⟩ := hcheckpoints
  have hof := checkpointManifest_eq_ok (hattached.length hrun) hmanifest
  have hall : receivedResults store.durableResults received = store.durableResults := by
    rw [hreceived, receivedResults_isSome]
  have hsound := (hof.sound hencode hrun hattached).alike hattached.metadata.symm
  have hmanifestOf := hof.toManifestOf
  rw [hof.leaseEpochs] at hsound
  rw [hall] at hsound hmanifestOf
  have hfits := hrun.fits_iff.mpr h.fits
  unfold RunStoreConfig.Fits at hfits
  have hblockCount : manifest.blockCount = expected.blockCount := by
    rw [hof.blockCount, hattached.metadata.blockCount]
  have hsize : bytes.length ≤ 512 + 64 * expected.blockCount.toNat := by
    rw [← hblockCount]
    refine length_manifest_le hencode ?_
    rw [checkpointManifest_failure hmanifest]
    exact hreason
  have hfile : next.file (manifestPathFor (store.recovery.manifestSequence + 1)) = some bytes := by
    rw [← hof.sequence]
    exact hinstalls.file
  have hstored : ∀ (i : ℕ) result, store.durableResults[i]? = some (some result) →
      Stored next store.metadata result := fun i result hi =>
    (stored_iff_of_alike hattached.metadata).mpr ((hattached.stored i result hi).installs hinstalls)
  have hreduction : reduceBlockResults (leavesOf store.durableResults) =
      .ok manifest.committedAggregate := by
    rw [← hleaves]
    exact hof.reduction
  have hqualifies : Qualifies next args.config store.metadata canonical
      (store.recovery.manifestSequence + 1) ⟨manifest, store.durableResults⟩ :=
    ⟨loadable_of_stored hsound hmanifestOf hstored hfile hencode hof.sequence (by omega) (by omega),
      hreduction⟩
  refine ⟨⟨manifest, store.durableResults⟩, ⟨⟨args.config, hfits,
    hqualifies.alike hattached.metadata⟩, ?_⟩, hof.status_eq, hof.incarnation, rfl⟩
  intro found hfound
  rw [Option.mem_def, hfile] at hfound
  rwa [← Option.some.inj hfound]

/-- A checkpoint continues the chain. -/
theorem Checkpoints.follows
    (hcheckpoints : Checkpoints store coordinator leaves received status failure disk store' next)
    (hattached : Attached expected canonical args store disk)
    (h : Leads expected canonical args store disk) (hrun : RunOf expected canonical args)
    {snapshot : LoadedManifest}
    (hsealed : Sealed expected canonical next (store.recovery.manifestSequence + 1) snapshot)
    (hincarnation : snapshot.manifest.runIncarnation = store.recovery.runIncarnation)
    (hresults : snapshot.results = store.durableResults) :
    store.recovery.manifestSequence ≠ maxWord ∧
      (∀ sequence, (disk.file (manifestPathFor sequence)).isSome →
        sequence < store.recovery.manifestSequence + 1) ∧
      Follows expected canonical disk next := by
  obtain @⟨manifest, bytes, usage, next, hmanifest, hencode, hlimit, hinstalls⟩ := hcheckpoints
  have hof := checkpointManifest_eq_ok (hattached.length hrun) hmanifest
  rw [hof.sequence] at hinstalls
  have hlast : ∀ sequence, (disk.file (manifestPathFor sequence)).isSome →
      sequence < store.recovery.manifestSequence + 1 := by
    intro sequence hsome
    rw [UInt64.lt_iff_toNat_lt, toNat_add_one hof.sequence_ne]
    exact Nat.lt_succ_of_le (UInt64.le_iff_toNat_le.mp (h.highest sequence hsome))
  obtain ⟨top, htop, hrunning, htopIncarnation, hextends⟩ := h.top
  refine ⟨hof.sequence_ne, hlast, h.toConsistent.installs_manifest hrun.positioned hrun.length
    hinstalls hsealed hlast fun other earlier hother => ?_⟩
  have hle := h.highest other hother.isSome_file
  obtain ⟨hearlier, hincarnation_le⟩ := h.toConsistent.extends_of_le hother htop hle
  refine ⟨?_, ?_, ?_⟩
  · rcases UInt64.lt_or_eq_of_le hle with hlt | rfl
    · exact (h.ordered _ _ _ _ hother htop hlt).1
    · rw [hother.unique (htop.qualifies (hrun.fits_iff.mpr h.fits))]
      exact hrunning
  · rw [hresults]
    exact hearlier.trans hextends
  · rw [hincarnation, ← htopIncarnation]
    exact hincarnation_le

/-- A checkpoint of a run that goes on. -/
theorem Checkpoints.leads
    (hcheckpoints : Checkpoints store coordinator leaves received .running none disk store' next)
    (hattached : Attached expected canonical args store disk)
    (h : Leads expected canonical args store disk) (hrun : RunOf expected canonical args)
    (hleaves : leaves = leavesOf store.durableResults)
    (hreceived : received = store.durableResults.map (·.isSome)) :
    Follows expected canonical disk next ∧ Leads expected canonical args store' next := by
  obtain ⟨snapshot, hsealed, hstatus, hincarnation, hresults⟩ :=
    hcheckpoints.sealed hattached h hrun hleaves hreceived nofun
  obtain ⟨hne, hlast, hfollows⟩ :=
    hcheckpoints.follows hattached h hrun hsealed hincarnation hresults
  obtain @⟨manifest, bytes, usage, next, hmanifest, hencode, hlimit, hinstalls⟩ := hcheckpoints
  have hof := checkpointManifest_eq_ok (hattached.length hrun) hmanifest
  refine ⟨hfollows, hfollows.toConsistent, h.fits, rfl, ⟨snapshot, ?_, hstatus, hincarnation, ?_⟩,
    fun sequence hsome => ?_, fun block hblock hsome => ?_⟩
  · change Sealed expected canonical next manifest.sequence snapshot
    rw [hof.sequence]
    exact hsealed
  · rw [hresults]
    exact .refl _
  · change sequence ≤ manifest.sequence
    by_cases heq : sequence = manifest.sequence
    · rw [heq]
      exact UInt64.le_refl _
    · rw [hinstalls.file_ne (fun hpath => heq (manifestPathFor_injective hpath))] at hsome
      rw [hof.sequence]
      exact UInt64.le_of_lt (hlast sequence hsome)
  · rw [hinstalls.file_ne (by intro hpath; cases hpath)] at hsome
    exact h.fresh block hblock hsome

end Leads

end MonteCarlo
