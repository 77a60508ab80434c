import MonteCarlo.Store.Hooks
import MonteCarlo.Store.Validity

/-!
# The sizes of manifests

`preflight_run_completion` refuses a run whose manifests could exceed the limit.  It comes before
every manifest that `open` installs, so a manifest of the run fits into the limit of everyone who
installs another one.

* `length_manifest_le` — the size of a manifest is at most the estimate.
* `OpenArguments.Fits` — the estimate is within the limit.
* `wp_openStore_budgeted` — without that, `open` leaves the manifests as they are.
-/

namespace MonteCarlo

open Effects Effects.Program

/-! ## Sizes -/

theorem length_entries_le {blockCount : UInt64} {entries : List ManifestEntry}
    (hsorted : entries.Pairwise fun x y => x.blockId < y.blockId)
    (hbound : ∀ entry ∈ entries, entry.blockId < blockCount) :
    entries.length ≤ blockCount.toNat := by
  have hnodup : (entries.map (·.blockId.toNat)).Nodup := by
    rw [List.Nodup, List.pairwise_map]
    exact hsorted.imp fun hlt => (UInt64.lt_iff_toNat_lt.mp hlt).ne
  have hsubset : entries.map (·.blockId.toNat) ⊆ List.range blockCount.toNat := by
    intro id hid
    obtain ⟨entry, hentry, rfl⟩ := List.mem_map.mp hid
    exact List.mem_range.mpr (UInt64.lt_iff_toNat_lt.mp (hbound entry hentry))
  have hle := (hnodup.subperm hsubset).length_le
  rwa [List.length_map, List.length_range] at hle

theorem length_failureBytes {failure : FailureRecord} {bytes : Bytes}
    (h : failureBytes (some failure) = .ok bytes) : bytes.length = 97 + failure.reason.length := by
  obtain ⟨reason, hreason, hpure⟩ := Result.bind_eq_ok.mp h
  cases hpure
  obtain ⟨-, rfl⟩ := appendString_eq_ok hreason
  simp only [List.length_append, length_appendDigest, length_appendU64, length_appendU32,
    length_appendU8]
  omega

/-- The size of an encoded manifest is at most the estimate of `preflight_run_completion`, as long
as the reason of a failure is short. -/
theorem length_manifest_le {manifest : RunManifest} {bytes : Bytes}
    (h : encodeManifest manifest = .ok bytes)
    (hreason : ∀ failure ∈ manifest.failure, failure.reason.length ≤ 147) :
    bytes.length ≤ 512 + 64 * manifest.blockCount.toNat := by
  obtain ⟨hm, failure, hfailure, rfl⟩ := encodeManifest_eq_ok.mp h
  obtain ⟨-, hsorted, hbound⟩ := checkEntries_pairwise hm.entries
  have hentries := length_entries_le hsorted hbound
  have hshort : failure.length ≤ 244 := by
    cases hcase : manifest.failure with
    | none =>
      rw [hcase] at hfailure
      cases hfailure
      exact Nat.le_of_ble_eq_true rfl
    | some record =>
      rw [hcase] at hfailure
      rw [length_failureBytes hfailure]
      exact Nat.add_le_add_left (hreason record hcase) 97
  rw [length_makeEnvelope length_kManifestMagic]
  simp only [manifestPayload, manifestHeader, List.length_append, length_leaseBytes,
    length_entryBytes, length_aggregateBytes, length_appendDigest, length_appendU64,
    length_appendU32, length_appendU8, List.length_replicate, envelopeOverhead, hm.leases]
  omega

/-! ## The preflight -/

/-- The largest manifest of a run is within the limit. -/
def RunStoreConfig.Fits (config : RunStoreConfig) (blockCount : UInt64) : Prop :=
  512 + 64 * blockCount.toNat ≤ config.maxManifestBytes.toNat

/-- The largest manifest of the run is within the limit of its arguments. -/
def OpenArguments.Fits (args : OpenArguments) : Prop :=
  args.config.Fits (blockCount args.spec args.engineConfig.blockSize)

/-- What `preflight_run_completion` has found to fit. -/
structure CompletionPlan.FitsInto (plan : CompletionPlan) (config : RunStoreConfig)
    (usage : StorageUsage) : Prop where
  manifest : config.Fits plan.blockCount
  bytes : usage.bytes.toNat + (512 * plan.missingBlocks.toNat +
    plan.additionalManifests.toNat * (512 + 64 * plan.blockCount.toNat) +
    plan.additionalFixedBytes.toNat) ≤ config.maxStorageBytes.toNat
  files : usage.files.toNat + (plan.missingBlocks.toNat + plan.additionalManifests.toNat +
    plan.additionalFixedFiles.toNat) ≤ config.maxStorageFiles.toNat

/-- What the run needs at most. -/
def CompletionPlan.bytes (plan : CompletionPlan) : ℕ :=
  512 * plan.missingBlocks.toNat +
    plan.additionalManifests.toNat * (512 + 64 * plan.blockCount.toNat) +
    plan.additionalFixedBytes.toNat

theorem completionBytes_eq_ok {config : RunStoreConfig} {usage : StorageUsage}
    {plan : CompletionPlan} {bytes : UInt64} (h : completionBytes config usage plan = .ok bytes) :
    plan.FitsInto config usage ∧ bytes.toNat = plan.bytes := by
  obtain ⟨manifest, hmanifest, h⟩ := Result.bind_eq_ok.mp h
  obtain ⟨⟨⟩, hlimit, h⟩ := Result.bind_eq_ok.mp h
  obtain ⟨results, hresults, h⟩ := Result.bind_eq_ok.mp h
  obtain ⟨manifests, hmanifests, h⟩ := Result.bind_eq_ok.mp h
  obtain ⟨both, hboth, h⟩ := Result.bind_eq_ok.mp h
  obtain ⟨all, hall, h⟩ := Result.bind_eq_ok.mp h
  obtain ⟨count, hcount, h⟩ := Result.bind_eq_ok.mp h
  obtain ⟨files, hfiles, h⟩ := Result.bind_eq_ok.mp h
  obtain ⟨⟨⟩, hbytes, h⟩ := Result.bind_eq_ok.mp h
  obtain ⟨⟨⟩, hcounts, hpure⟩ := Result.bind_eq_ok.mp h
  obtain rfl : all = bytes := Except.ok.inj hpure
  obtain ⟨entries, hentries, hsum⟩ := Result.bind_eq_ok.mp hmanifest
  have h512 : (512 : UInt64).toNat = 512 := rfl
  have h64 : (64 : UInt64).toNat = 64 := rfl
  have hsize := checkedAdd_toNat hsum
  rw [checkedMultiply_toNat hentries, h512, h64] at hsize
  rw [throwIf_eq_ok, decide_eq_false_iff_not, UInt64.not_lt, UInt64.le_iff_toNat_le] at hlimit
  rw [throwIf_eq_ok, Bool.or_eq_false_iff, decide_eq_false_iff_not, decide_eq_false_iff_not,
    UInt64.not_lt, UInt64.not_lt] at hbytes hcounts
  obtain ⟨hused, hbytes⟩ := hbytes
  obtain ⟨hcounted, hcounts⟩ := hcounts
  rw [UInt64.le_iff_toNat_le, UInt64.toNat_sub_of_le _ _ hused] at hbytes
  rw [UInt64.le_iff_toNat_le, UInt64.toNat_sub_of_le _ _ hcounted] at hcounts
  rw [UInt64.le_iff_toNat_le] at hused hcounted
  have hall' := checkedAdd_toNat hall
  rw [checkedAdd_toNat hboth, checkedMultiply_toNat hresults, checkedMultiply_toNat hmanifests,
    hsize, h512] at hall'
  have hfiles' := checkedAdd_toNat hfiles
  rw [checkedAdd_toNat hcount] at hfiles'
  have htotal : all.toNat = plan.bytes := by
    rw [CompletionPlan.bytes, Nat.mul_comm 64, Nat.mul_comm 512]
    omega
  refine ⟨⟨?_, ?_, ?_⟩, htotal⟩
  · unfold RunStoreConfig.Fits
    omega
  · rw [← CompletionPlan.bytes, ← htotal]
    omega
  · omega

theorem returns_preflightRunCompletion (config : RunStoreConfig) (usage : StorageUsage)
    (plan : CompletionPlan) :
    Returns (fun _ => plan.FitsInto config usage) (preflightRunCompletion config usage plan) := by
  refine returns_bind (P := fun _ => plan.FitsInto config usage)
    (returns_ofExcept fun _ h => (completionBytes_eq_ok h).1) fun _ hfits => ?_
  refine returns_skip _ fun _ => returns_skip _ fun _ => ?_
  exact returns_ofExcept fun _ _ => hfits

/-! ## An `open` without room -/

/-- The manifests are those of another disk. -/
def Disk.SameManifests (disk now : Disk) : Prop :=
  ∀ sequence, now.file (manifestPathFor sequence) = disk.file (manifestPathFor sequence)

section Budgeted

variable {env : Environment} {config : RunStoreConfig} {usage : StorageUsage} {disk : Disk}
  {world : World} {args : OpenArguments}

theorem Disk.Same.sameManifests {now : Disk} (h : disk.Same now) : disk.SameManifests now :=
  fun _ => h.file (lasting_manifestPathFor _)

theorem Disk.SameManifests.trans {now next : Disk} (h : disk.SameManifests now)
    (h' : now.SameManifests next) : disk.SameManifests next :=
  fun sequence => (h' sequence).trans (h sequence)

/-- A plan that does not fit is refused. -/
theorem wp_preflight_refused {plan : CompletionPlan} (hnot : ¬ config.Fits plan.blockCount)
    {α : Type} {f : Unit → Prog α} {Q : Except Exception α → World → Prop}
    (hworld : disk.SameManifests world.disk) (hQ : ∀ e after, Q (.error e) after) :
    Wp env.handle (fun now => disk.SameManifests now.disk) Q
      (preflightRunCompletion config usage plan >>= f) world := by
  have hkeeps : Wp env.handle (fun now => world.disk.Same now.disk)
      (fun _ now => world.disk.Same now.disk) (preflightRunCompletion config usage plan) world :=
    preserves_preflightRunCompletion config usage plan world (.refl world.disk)
  refine wp_bind ((hkeeps.returns (returns_preflightRunCompletion config usage plan)).mono
    (fun now hnow => hworld.trans (Disk.Same.sameManifests hnow)) ?_)
  rintro outcome after - ⟨-, hreturns⟩
  cases outcome with
  | error e => exact hQ e after
  | ok a => exact absurd (hreturns a rfl).manifest hnot

/-- Metadata is installed only when a plan fits. -/
theorem returns_obtainMetadata_existed {expected : RunMetadata}
    (hnot : ¬ config.Fits expected.blockCount) :
    Returns (fun found => found.2.1 = true) (obtainMetadata config expected usage) := by
  refine returns_skip _ fun existed => ?_
  split
  · exact returns_skip _ fun _ => returns_skip _ fun _ => returns_skip _ fun _ => returns_pure rfl
  · refine returns_skip _ fun _ => returns_skip _ fun _ => returns_skip _ fun _ => ?_
    refine returns_bind (returns_preflightRunCompletion _ _ _) fun _ hfits => ?_
    exact absurd hfits.manifest hnot

/-- The branches of `open` that install a manifest are refused. -/
theorem wp_obtainRecovery_refused {metadata : RunMetadata} {load : LoadResult}
    {blocks : List ScenarioBlock} (hnot : ¬ config.Fits metadata.blockCount)
    (hworld : disk.SameManifests world.disk) :
    Wp env.handle (fun now => disk.SameManifests now.disk)
      (fun outcome _ => ∀ recovery, outcome = .ok recovery → recovery.status ≠ .running)
      (obtainRecovery config metadata true load blocks usage) world := by
  have hrefused : ∀ (e : Exception) (_ : World) (recovery : DurableRecoveryState),
      Except.error e = Except.ok recovery → recovery.status ≠ .running := by
    intro e _ recovery h
    cases h
  unfold obtainRecovery
  split
  · exact wp_preflight_refused hnot hworld hrefused
  · rename_i snapshot hload
    unfold recoverRun
    split
    · unfold resumeRun
      refine wp_bind (wp_ofExcept hworld ?_)
      cases throwIf (decide (snapshot.manifest.runIncarnation = maxWord) ||
          decide (load.highestSequenceSeen = maxWord))
          (⟨.overflowError, .openStore, "durable recovery identity overflow"⟩ : Exception) with
      | error e => exact hrefused e world
      | ok _ => exact wp_preflight_refused hnot hworld hrefused
    · rename_i hended
      refine wp_pure hworld ?_
      rintro recovery hrecovery
      cases hrecovery
      exact hended

theorem MetadataOf.fits_iff {metadata : RunMetadata}
    (h : MetadataOf args.build args.spec args.engineConfig metadata) :
    args.config.Fits metadata.blockCount ↔ args.Fits := by
  rw [OpenArguments.Fits, h.identity.2.2.2]

/-- `open` from the loaded manifest on. -/
theorem wp_finishOpen_refused {metadata : RunMetadata} {load : LoadResult}
    (hnot : ¬ config.Fits metadata.blockCount) (hworld : disk.SameManifests world.disk) :
    Wp env.handle (fun now => disk.SameManifests now.disk)
      (fun outcome _ => ∀ store, outcome = .ok store → store.recovery.status ≠ .running)
      (finishOpen args.spec args.engineConfig config metadata true load usage) world := by
  have hrefused : ∀ (e : Exception) (_ : World) (store : DurableRunStore),
      Except.error e = Except.ok store → store.recovery.status ≠ .running := by
    intro e _ store h
    cases h
  refine wp_bind (wp_ofExcept hworld ?_)
  cases throwIf (load.loaded.isNone && load.sawManifestFile)
      (⟨.runtimeError, .openNoValidManifest,
        "no valid compatible manifest remains; last error: " ++ load.lastError⟩ : Exception) with
  | error e => exact hrefused e world
  | ok _ =>
    refine wp_bind (wp_ofExcept hworld ?_)
    cases makeBlocks args.spec args.engineConfig with
    | error e => exact hrefused e world
    | ok blocks =>
      refine wp_bind ((wp_obtainRecovery_refused hnot hworld).mono (fun _ h => h) ?_)
      rintro outcome recovered hrecovered hstatus
      cases outcome with
      | error e => exact hrefused e recovered
      | ok recovery =>
        have hclean : ∀ {now : Disk}, recovered.disk.Cleans recovery.committedResults now →
            disk.SameManifests now := fun h =>
          hrecovered.trans fun _ => h.file (lasting_manifestPathFor _) nofun
        refine wp_bind ((wp_removeOrphans_lasting (.refl recovered.disk)).mono
          (fun now hnow => hclean hnow) ?_)
        rintro outcome cleaned hcleaned -
        cases outcome with
        | error e => exact hrefused e cleaned
        | ok _ =>
          have husage : Only Op.Keeps storageUsage :=
            only_storageUsage trivial trivial (fun _ => trivial) fun _ => trivial
          refine wp_preserves_bind (preserves_keeps husage cleaned.disk) rfl (fun now hnow => ?_)
            (fun counted after hafter => ?_) fun e after _ => hrefused e after
          · rw [hnow]
            exact hclean hcleaned
          · refine wp_pure (by rw [hafter]; exact hclean hcleaned) ?_
            intro store hstore
            cases hstore
            exact hstatus recovery rfl

/-- When the largest manifest does not fit, `open` leaves the manifests as they are, and does not
return a store that is running. -/
theorem wp_openStore_budgeted (hnot : ¬ args.Fits) :
    Wp env.handle (fun now => world.disk.SameManifests now.disk)
      (fun outcome _ => ∀ store, outcome = .ok store → store.recovery.status ≠ .running)
      args.openStore world := by
  have hstart : world.disk.SameManifests world.disk := fun _ => rfl
  have hrefused : ∀ (e : Exception) (_ : World) (store : DurableRunStore),
      Except.error e = Except.ok store → store.recovery.status ≠ .running := by
    intro e _ store h
    cases h
  refine wp_bind (wp_ofExcept hstart ?_)
  cases args.storeConfig.validate with
  | error e => exact hrefused e world
  | ok _ =>
    refine wp_bind (wp_ofExcept hstart ?_)
    cases hexpected : expectedMetadata args.build args.spec args.engineConfig with
    | error e => exact hrefused e world
    | ok expected =>
      have hconfig := OpenArguments.config_eq hexpected
      dsimp only
      rw [hconfig]
      refine wp_preserves_bind (preserves_prepareDirectory args.config) (.refl world.disk)
        (fun now hnow => Disk.Same.sameManifests hnow) (fun usage prepared hprepared => ?_)
        fun e after _ => hrefused e after
      have hnot' : ¬ args.config.Fits expected.blockCount := fun h =>
        hnot ((MetadataOf.installed hexpected).fits_iff.mp h)
      have hmanifests : ∀ now, Within world.disk (fun next => ∃ metadata existed,
          Registers env expected world.disk metadata existed next) now →
            world.disk.SameManifests now.disk := by
        rintro now (hsame | ⟨next, ⟨metadata, existed, hregisters⟩, hsame⟩)
        · exact Disk.Same.sameManifests hsame
        · refine Disk.SameManifests.trans (fun sequence => ?_) (Disk.Same.sameManifests hsame)
          rw [Disk.file, Disk.file, hregisters.lookup_ne (by intro h; cases h)]
      refine wp_bind ((((wp_obtainMetadata hprepared).returns
        (returns_obtainMetadata_existed hnot')).returns
          (returns_obtainMetadata hexpected usage)).mono hmanifests ?_)
      rintro outcome registered hregistered ⟨⟨-, hexisted⟩, hmetadata⟩
      replace hregistered := hmanifests _ hregistered
      cases outcome with
      | error e => exact hrefused e registered
      | ok found =>
        obtain ⟨metadata, existed, counted⟩ := found
        obtain rfl : existed = true := hexisted _ rfl
        have hof := hmetadata _ rfl
        obtain ⟨canonical, hcanonical, hcount⟩ := hof.makeBlocks
        refine wp_bind ((wp_loadLatestValidManifest hcanonical hcount).mono (fun now hnow => ?_) ?_)
        · rw [hnow]
          exact hregistered
        rintro outcome loaded hloaded -
        cases outcome with
        | error e => exact hrefused e loaded
        | ok load =>
          refine wp_finishOpen_refused (fun h => hnot (hof.fits_iff.mp h)) ?_
          rw [hloaded]
          exact hregistered

end Budgeted

end MonteCarlo
