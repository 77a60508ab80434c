import MonteCarlo.Persistence.Canonical
import MonteCarlo.Store.Stages

/-!
# The run of a directory

A directory belongs to the run whose metadata it holds.  The metadata is read back up to a field
that is not persisted, and nothing in the store depends on that field.

* `RunMetadata.Alike` — metadata of the same run.
* `RunOf` — the metadata and the blocks of a run, with arguments of `open` that agree with them.
* `Owned` — the directory has no metadata, or that of the run.
* `Qualifies.sound`, `Qualifies.stored` — the results of a manifest that qualifies, and their files.
* `Recovered` — a recovery state with the manifest that records it.
* `Recovers.recovered` — what `open` recovers, and the manifest it installs.
-/

namespace MonteCarlo

open Effects Effects.Program

/-! ## Metadata of the same run -/

/-- Equal in all that is persisted. -/
def RunMetadata.Alike (metadata other : RunMetadata) : Prop := metadata.persisted = other.persisted

theorem RunMetadata.alike_persisted (metadata : RunMetadata) : metadata.persisted.Alike metadata := by
  unfold Alike persisted
  rcases metadata.spec.persisted_eq with h | ⟨hmodel, h⟩
  · rw [h, h]
  · rw [h]
    simp only [RunSpec.persisted, hmodel, ↓reduceIte]

section Alike

variable {metadata other : RunMetadata} {canonical : List ScenarioBlock} {disk : Disk}
  {config : RunStoreConfig}

theorem checkIdentity_persisted (manifest : RunManifest) (metadata : RunMetadata) :
    checkIdentity manifest metadata.persisted = checkIdentity manifest metadata := by
  unfold RunMetadata.persisted
  rcases metadata.spec.persisted_eq with h | ⟨-, h⟩
  · rw [h]
  · rw [h]
    rfl

theorem checkEntryRecord_persisted (manifest : RunManifest) (metadata : RunMetadata)
    (block : ScenarioBlock) (entry : ManifestEntry) (record : DurableBlockRecord) :
    checkEntryRecord manifest metadata.persisted block entry record =
      checkEntryRecord manifest metadata block entry record := by
  unfold RunMetadata.persisted
  rcases metadata.spec.persisted_eq with h | ⟨-, h⟩
  · rw [h]
  · rw [h]
    rfl

theorem qualifies_persisted {sequence : UInt64} {snapshot : LoadedManifest} :
    Qualifies disk config metadata.persisted canonical sequence snapshot ↔
      Qualifies disk config metadata canonical sequence snapshot := by
  have hresult : ResultOf disk metadata.persisted canonical = ResultOf disk metadata canonical := by
    funext manifest entry result
    simp only [ResultOf, checkEntryRecord_persisted]
  constructor
  · rintro ⟨⟨hfile, hsequence, hidentity, hlength, hcommitted, hmissing⟩, hreduction⟩
    rw [checkIdentity_persisted] at hidentity
    rw [hresult] at hcommitted
    exact ⟨⟨hfile, hsequence, hidentity, hlength, hcommitted, hmissing⟩, hreduction⟩
  · rintro ⟨⟨hfile, hsequence, hidentity, hlength, hcommitted, hmissing⟩, hreduction⟩
    rw [← checkIdentity_persisted] at hidentity
    rw [← hresult] at hcommitted
    exact ⟨⟨hfile, hsequence, hidentity, hlength, hcommitted, hmissing⟩, hreduction⟩

theorem Qualifies.alike (halike : metadata.Alike other) {sequence : UInt64}
    {snapshot : LoadedManifest}
    (h : Qualifies disk config metadata canonical sequence snapshot) :
    Qualifies disk config other canonical sequence snapshot := by
  rw [← qualifies_persisted, halike, qualifies_persisted] at h
  exact h

theorem validResult_persisted {result : BlockResult} :
    ValidResult metadata.persisted canonical result ↔ ValidResult metadata canonical result := by
  unfold RunMetadata.persisted
  rcases metadata.spec.persisted_eq with h | ⟨-, h⟩
  · rw [h]
  · rw [h]
    exact ⟨fun hvalid => { hvalid with }, fun hvalid => { hvalid with }⟩

theorem SoundResults.alike (halike : metadata.Alike other) {incarnation : UInt64}
    {leases : List UInt64} {results : List (Option BlockResult)}
    (h : SoundResults metadata canonical incarnation leases results) :
    SoundResults other canonical incarnation leases results :=
  { h with
    valid := fun i result hi => by
      obtain ⟨hid, hvalid⟩ := h.valid i result hi
      rw [← validResult_persisted, halike, validResult_persisted] at hvalid
      exact ⟨hid, hvalid⟩ }

theorem RunMetadata.Alike.runId (h : metadata.Alike other) : metadata.runId = other.runId := by
  have hrunId := congrArg RunMetadata.runId h
  exact hrunId

theorem RunMetadata.Alike.hashes (h : metadata.Alike other) :
    metadata.runSpecHash = other.runSpecHash ∧
      metadata.executionLayoutHash = other.executionLayoutHash ∧
      metadata.buildFingerprint = other.buildFingerprint := by
  have hspec := congrArg RunMetadata.runSpecHash h
  have hlayout := congrArg RunMetadata.executionLayoutHash h
  have hbuild := congrArg RunMetadata.buildFingerprint h
  exact ⟨hspec, hlayout, hbuild⟩

theorem RunMetadata.Alike.blockCount (h : metadata.Alike other) :
    metadata.blockCount = other.blockCount := by
  have hcount := congrArg RunMetadata.blockCount h
  exact hcount

theorem RunMetadata.Alike.makeBlocks (h : metadata.Alike other) (engineConfig : EngineConfig) :
    MonteCarlo.makeBlocks metadata.spec engineConfig =
      MonteCarlo.makeBlocks other.spec engineConfig := by
  rw [← RunSpec.makeBlocks_persisted, ← RunSpec.makeBlocks_persisted other.spec]
  exact congrArg (MonteCarlo.makeBlocks · engineConfig)
    (congrArg RunMetadata.spec (show metadata.persisted = other.persisted from h))

theorem stored_iff_of_alike (h : metadata.Alike other) {result : BlockResult} :
    Stored disk metadata result ↔ Stored disk other result := by
  unfold Stored BlockResult.fileBytes
  rw [h.runId]

end Alike

/-! ## The run of some arguments -/

/-- The metadata and the blocks of a run, with arguments of `open` that agree with them. -/
structure RunOf (expected : RunMetadata) (canonical : List ScenarioBlock) (args : OpenArguments) :
    Prop where
  expected : expectedMetadata args.build args.spec args.engineConfig = .ok expected
  canonical : makeBlocks args.spec args.engineConfig = .ok canonical

/-- The directory has no metadata, or that of the run. -/
def Owned (expected : RunMetadata) (disk : Disk) : Prop :=
  ∀ bytes, disk.file metadataPath = some bytes → encodeRunMetadata expected = .ok bytes

section Run

variable {expected : RunMetadata} {canonical : List ScenarioBlock} {args : OpenArguments}

/-- What `open` expects is read back. -/
theorem decodeRunMetadata_expected {build : BuildIdentity} {spec : RunSpec} {config : EngineConfig}
    {bytes : Bytes} (h : expectedMetadata build spec config = .ok expected)
    (hencode : encodeRunMetadata expected = .ok bytes) :
    decodeRunMetadata bytes = .ok expected.persisted := by
  obtain ⟨hspec, hconfig, hlimit, hspecHash, hlayoutHash, heq⟩ := expectedMetadata_eq_ok h
  have hcount : expected.blockCount = blockCount expected.spec expected.blockSize := by rw [heq]
  have hsize : expected.blockSize = config.blockSize := by rw [heq]
  have hspec' : expected.spec = spec := by rw [heq]
  have hpositive : expected.blockCount ≠ 0 := (encodeRunMetadata_eq_ok hencode).2.2.1
  have hvalid : (layoutConfig expected.blockSize expected.blockCount).validate spec = .ok () := by
    simp only [EngineConfig.validate, layoutConfig, Result.bind_eq_ok, throwIf_eq_ok, exists_const,
      hsize] at hconfig ⊢
    refine ⟨by decide, by decide, hconfig.2.2.1, hconfig.2.2.2.1, ?_⟩
    simpa using hpositive
  have hlayout : ∃ digest, executionLayoutHash spec
      (layoutConfig expected.blockSize expected.blockCount) = .ok digest := by
    rw [hspec'] at hcount
    have hlimit' : ¬ (layoutConfig expected.blockSize expected.blockCount).maxMaterializedBlocks <
        blockCount spec (layoutConfig expected.blockSize expected.blockCount).blockSize := by
      simp only [layoutConfig, ← hcount]
      exact UInt64.lt_irrefl _
    simp only [executionLayoutHash, encodeExecutionLayoutPayload, hspec, hvalid, hspecHash, hlimit',
      decide_false, throwIf_false, Result.ok_bind]
    exact ⟨_, rfl⟩
  obtain ⟨digest, hdigest⟩ := hlayout
  obtain rfl : digest = expected.executionLayoutHash :=
    executionLayoutHash_congr hsize hdigest hlayoutHash
  exact (decodeRunMetadata_encodeRunMetadata hencode hcount (hspec' ▸ hdigest)).1

theorem RunOf.expected_spec (h : RunOf expected canonical args) : expected.spec = args.spec := by
  obtain ⟨-, -, -, -, -, heq⟩ := expectedMetadata_eq_ok h.expected
  rw [heq]

/-- Arguments with metadata are those of a run. -/
theorem RunOf.of_expected (args : OpenArguments)
    (h : expectedMetadata args.build args.spec args.engineConfig = .ok expected) :
    ∃ canonical, RunOf expected canonical args := by
  obtain ⟨hspec, hconfig, hlimit, -⟩ := expectedMetadata_eq_ok h
  obtain ⟨canonical, hcanonical, -⟩ := makeBlocks_of_validate hspec hconfig hlimit
  exact ⟨canonical, h, hcanonical⟩

theorem RunOf.length (h : RunOf expected canonical args) :
    canonical.length = expected.blockCount.toNat := by
  obtain ⟨hspec, hconfig, hlimit, -, -, heq⟩ := expectedMetadata_eq_ok h.expected
  obtain ⟨blocks, hblocks, hlength⟩ := makeBlocks_of_validate hspec hconfig hlimit
  have hcanonical := h.canonical
  rw [hblocks] at hcanonical
  rw [← Except.ok.inj hcanonical, hlength, heq]

/-- The metadata of an owned directory is that of the run. -/
theorem Registers.owned {env : Environment} {disk next : Disk} {metadata : RunMetadata}
    {existed : Bool} (hrun : RunOf expected canonical args)
    (h : Registers env expected disk metadata existed next) (howned : Owned expected disk) :
    metadata.Alike expected ∧ ∃ bytes, next.file metadataPath = some bytes ∧
      encodeRunMetadata expected = .ok bytes := by
  cases h with
  | @found bytes _ hfile hdecode hcompatible =>
    have hencode := howned bytes hfile
    have hpersisted := decodeRunMetadata_expected hrun.expected hencode
    rw [hdecode] at hpersisted
    rw [Except.ok.inj hpersisted]
    exact ⟨expected.alike_persisted, bytes, hfile, hencode⟩
  | @installed bytes hfree hbare hencode => exact ⟨rfl, bytes, Disk.file_insert, hencode⟩

end Run

/-! ## The results of a manifest -/

section Results

variable {disk : Disk} {config : RunStoreConfig} {metadata : RunMetadata}
  {canonical : List ScenarioBlock} {sequence : UInt64} {snapshot : LoadedManifest}

/-- The results of a loadable manifest are valid and fenced, and its entries are theirs. -/
theorem Loadable.sound (hpositioned : Positioned canonical)
    (hcount : canonical.length = metadata.blockCount.toNat)
    (h : Loadable disk config metadata canonical sequence snapshot) :
    SoundResults metadata canonical snapshot.manifest.runIncarnation snapshot.manifest.leaseEpochs
        snapshot.results ∧
      ∀ entry, entry ∈ snapshot.manifest.committedBlocks ↔ ∃ (i : ℕ) (result : BlockResult),
        snapshot.results[i]? = some (some result) ∧ result.entry = entry := by
  obtain ⟨bytes, -, -, hdecode⟩ := h.file
  have hm := decodeManifest_accepted hdecode
  have hcount' : canonical.length = snapshot.manifest.blockCount.toNat := by
    rw [blockCount_of_checkIdentity h.identity, hcount]
  have heval : eval disk.reply (loadEntries config snapshot.manifest metadata canonical
      snapshot.manifest.committedBlocks (List.replicate canonical.length none)) =
        .ok snapshot.results := (eval_loadEntries hm hcount').mpr h.results
  obtain ⟨found, hfound, hresults⟩ := eval_loadEntries_ok.mp heval
  have hentries : List.Forall₂ (EntryResult metadata canonical snapshot.manifest)
      snapshot.manifest.committedBlocks found := by
    refine hfound.imp fun entry result hresult => ?_
    obtain ⟨bytes, record, -, -, hrecord⟩ := hresult
    exact ⟨bytes, record, hrecord⟩
  rw [hresults]
  exact soundResults_of_entries hm hpositioned hcount' hentries

/-- Their files are on disk. -/
theorem Loadable.stored (hpositioned : Positioned canonical)
    (hcount : canonical.length = metadata.blockCount.toNat)
    (h : Loadable disk config metadata canonical sequence snapshot) {i : ℕ} {result : BlockResult}
    (hi : snapshot.results[i]? = some (some result)) : Stored disk metadata result := by
  obtain ⟨hsound, hentries⟩ := h.sound hpositioned hcount
  obtain ⟨hid, hvalid⟩ := hsound.valid i result hi
  have hentry : result.entry ∈ snapshot.manifest.committedBlocks :=
    (hentries _).mpr ⟨i, result, hi, rfl⟩
  obtain ⟨other, hother, bytes, record, hfile, -, hdecode, hcheck, hrecord⟩ :=
    h.results.committed _ hentry
  have hindex : result.entry.blockId.toNat = i := hid
  rw [hindex, hi] at hother
  obtain rfl : result = other := Option.some.inj (Option.some.inj hother)
  have hrunId : record.runId = metadata.runId := by
    obtain ⟨⟨⟩, hcheck, -⟩ := Result.bind_eq_ok.mp hcheck
    simp only [throwIf_eq_ok, Bool.or_eq_false_iff, decide_eq_false_iff_not, ne_eq,
      not_not] at hcheck
    exact hcheck.1.1.1.1.1.1.1.1.1.1.1.1
  obtain ⟨-, -, hbytes⟩ := encodeBlockRecord_eq_ok.mp (decodeBlockRecord_accepted hdecode)
  have hpath := hvalid.entryPath
  rw [hid] at hpath
  rw [hindex, hpath] at hfile
  rw [Stored, hfile, hbytes, BlockResult.fileBytes, ← hrunId, hrecord]

end Results

/-! ## The manifest of a new incarnation -/

/-- A manifest that records these results under these leases. -/
structure ManifestFor (metadata : RunMetadata) (leases : List UInt64)
    (results : List (Option BlockResult)) (sequence incarnation : UInt64)
    (status : DurableRunStatus) (manifest : RunManifest) : Prop
    extends ManifestOf metadata leases results manifest where
  sequence : manifest.sequence = sequence
  incarnation : manifest.runIncarnation = incarnation
  status : manifest.status = status
  reduction : reduceBlockResults (leavesOf results) = .ok manifest.committedAggregate

theorem ManifestFor.alike {metadata other : RunMetadata} {leases : List UInt64}
    {results : List (Option BlockResult)} {sequence incarnation : UInt64}
    {status : DurableRunStatus} {manifest : RunManifest}
    (h : ManifestFor metadata leases results sequence incarnation status manifest)
    (halike : metadata.Alike other) :
    ManifestFor other leases results sequence incarnation status manifest := by
  have hpersisted : ∀ metadata : RunMetadata,
      ManifestFor metadata.persisted leases results sequence incarnation status manifest ↔
        ManifestFor metadata leases results sequence incarnation status manifest := by
    intro metadata
    unfold RunMetadata.persisted
    rcases metadata.spec.persisted_eq with heq | ⟨-, heq⟩
    · rw [heq]
    · rw [heq]
      exact ⟨fun h => { h with }, fun h => { h with }⟩
  rw [← hpersisted, halike, hpersisted] at h
  exact h

theorem makeManifestFromResults_eq_ok {metadata : RunMetadata} {sequence incarnation : UInt64}
    {status : DurableRunStatus} {blocks : List ScenarioBlock} {results : List (Option BlockResult)}
    {failure : Option FailureRecord} {manifest : RunManifest}
    (h : makeManifestFromResults metadata sequence incarnation status blocks results failure =
      .ok manifest) :
    ManifestFor metadata (blocks.map (·.leaseEpoch)) results sequence incarnation status
      manifest := by
  obtain ⟨aggregate, hreduction, h⟩ := Result.bind_eq_ok.mp h
  cases h
  exact ⟨⟨rfl, rfl, rfl, rfl, rfl, rfl, rfl, rfl, rfl⟩, rfl, rfl, rfl, hreduction⟩

/-- A recovery state whose blocks are leased and whose results are sound. -/
def Recovered (metadata : RunMetadata) (canonical : List ScenarioBlock)
    (recovery : DurableRecoveryState) (leases : List UInt64) : Prop :=
  recovery.blocks = leaseAll recovery.runIncarnation canonical leases ∧
    SoundResults metadata canonical recovery.runIncarnation leases recovery.committedResults

section Recovering

variable {metadata : RunMetadata} {canonical : List ScenarioBlock} {existed : Bool}
  {load : LoadResult} {disk next : Disk} {recovery : DurableRecoveryState}

/-- The leases of a new incarnation. -/
theorem recoveryManifest_eq_ok {snapshot : LoadedManifest} {highestSequence : UInt64}
    {renewed : List ScenarioBlock} {manifest : RunManifest}
    (hsound : SoundResults metadata canonical snapshot.manifest.runIncarnation
      snapshot.manifest.leaseEpochs snapshot.results)
    (hmax : snapshot.manifest.runIncarnation ≠ maxWord)
    (h : recoveryManifest metadata snapshot highestSequence
      (leasedBlocks canonical snapshot.manifest) = .ok (renewed, manifest)) :
    ∃ leases, renewed = leaseAll manifest.runIncarnation canonical leases ∧
      SoundResults metadata canonical manifest.runIncarnation leases snapshot.results ∧
      ManifestFor metadata leases snapshot.results (highestSequence + 1)
        (maxOfWords (snapshot.manifest.runIncarnation + 1) (highestSequence + 1)) .running
        manifest := by
  obtain ⟨renewed', hrenewed, h⟩ := Result.bind_eq_ok.mp h
  obtain ⟨made, hmade, h⟩ := Result.bind_eq_ok.mp h
  cases h
  have hmanifest := makeManifestFromResults_eq_ok hmade
  obtain ⟨rfl, hleases⟩ := renewLeases_eq_ok hrenewed
  have hlength := hsound.leases_length
  have hblocks : ((leasedBlocks canonical snapshot.manifest).map fun block =>
      block.leased (maxOfWords (snapshot.manifest.runIncarnation + 1) (highestSequence + 1))
        (block.leaseEpoch + 1)) =
      leaseAll (maxOfWords (snapshot.manifest.runIncarnation + 1) (highestSequence + 1)) canonical
        (snapshot.manifest.leaseEpochs.map (· + 1)) :=
    map_leased_leaseAll _ _ (· + 1) canonical _
  rw [hblocks] at hmanifest ⊢
  rw [map_leaseEpoch_leaseAll _ (by rw [List.length_map, hlength])] at hmanifest
  refine ⟨snapshot.manifest.leaseEpochs.map (· + 1), by rw [hmanifest.incarnation], ?_, hmanifest⟩
  rw [hmanifest.incarnation]
  refine hsound.renew (fun epoch hepoch => ?_) ?_
  · rw [← map_leaseEpoch_leaseAll snapshot.manifest.runIncarnation hlength] at hepoch
    obtain ⟨block, hblock, rfl⟩ := List.mem_map.mp hepoch
    exact hleases block hblock
  · rw [UInt64.lt_iff_toNat_lt, maxOfWords_toNat, toNat_add_one hmax]
    exact Nat.lt_of_lt_of_le (Nat.lt_succ_self _) (Nat.le_max_left _ _)

/-- What `open` recovers: a sound state, and either it has installed the manifest of the state or
the run has ended. -/
theorem Recovers.recovered
    (hload : ∀ snapshot ∈ load.loaded, SoundResults metadata canonical
      snapshot.manifest.runIncarnation snapshot.manifest.leaseEpochs snapshot.results)
    (h : Recovers metadata existed load canonical disk recovery next) :
    ∃ leases, Recovered metadata canonical recovery leases ∧
      ((recovery.status = .running ∧ ∃ manifest, ManifestFor metadata leases
          recovery.committedResults recovery.manifestSequence recovery.runIncarnation .running
          manifest ∧ InstallsManifest disk manifest next) ∨
        recovery.status ≠ .running ∧ next = disk) := by
  cases h with
  | @started manifest _ hnone hmanifest hinstalls =>
    have hmanifest := makeManifestFromResults_eq_ok hmanifest
    rw [← leaseAll_replicate, map_leaseEpoch_leaseAll _ List.length_replicate] at hmanifest
    exact ⟨List.replicate canonical.length 1, ⟨(leaseAll_replicate _ _ _).symm,
      soundResults_none metadata canonical⟩, Or.inl ⟨rfl, manifest, hmanifest, hinstalls⟩⟩
  | @resumed snapshot renewed manifest _ hsome hstatus hincarnation hsequence hmanifest hinstalls =>
    obtain ⟨leases, hrenewed, hsound, hmanifest⟩ :=
      recoveryManifest_eq_ok (hload snapshot hsome) hincarnation hmanifest
    refine ⟨leases, ⟨hrenewed, hsound⟩, Or.inl ⟨rfl, manifest, ?_, hinstalls⟩⟩
    exact { hmanifest with sequence := rfl, incarnation := rfl }
  | @ended snapshot hsome hstatus =>
    exact ⟨snapshot.manifest.leaseEpochs, ⟨rfl, hload snapshot hsome⟩, Or.inr ⟨hstatus, rfl⟩⟩

end Recovering

end MonteCarlo
