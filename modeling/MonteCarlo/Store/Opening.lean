import MonteCarlo.Store.Selection

/-!
# What `open` returns

Whatever the operating system answers, a store that `DurableRunStore::open` returns has been
checked.  Nothing here looks at the disk: the lemmas hold for every reply to every call.

* `LoadedBy` — what the loader has checked of a snapshot it returns.
* `RecoveredBy` — the recovery state of an opened store: the blocks of the run under one
  incarnation, and sound results.
* `returns_openStore` — every opened store is `Opened`.
-/

namespace MonteCarlo

open Effects Effects.Program

/-! ## Loading a snapshot -/

section Loading

variable {config : RunStoreConfig} {engineConfig : EngineConfig} {metadata : RunMetadata}
  {canonical : List ScenarioBlock} {manifest : RunManifest}

/-- `result` was read for `entry` and passed the checks of the validator. -/
def EntryResult (metadata : RunMetadata) (canonical : List ScenarioBlock) (manifest : RunManifest)
    (entry : ManifestEntry) (result : BlockResult) : Prop :=
  let block := canonical.getD entry.blockId.toNat .default
  ∃ bytes record, decodeBlockRecord bytes = .ok record ∧
    checkEntryRecord manifest metadata block entry record = .ok () ∧ result = record.result

theorem returns_readEntryRecord (config : RunStoreConfig) (path : Path) :
    Returns (fun record => ∃ bytes, decodeBlockRecord bytes = .ok record)
      (readEntryRecord config path) := by
  refine returns_tryCatch (returns_skip _ fun bytes => returns_ofExcept ?_) fun e => ?_
  · exact fun record h => ⟨bytes, h⟩
  · split
    · exact returns_throw _
    · exact returns_throw _

theorem returns_loadEntries (entries : List ManifestEntry) (results : List (Option BlockResult)) :
    Returns (fun loaded => ∃ found,
        List.Forall₂ (EntryResult metadata canonical manifest) entries found ∧
          loaded = placeResults results entries found)
      (loadEntries config manifest metadata canonical entries results) := by
  induction entries generalizing results with
  | nil => exact returns_pure ⟨[], .nil, rfl⟩
  | cons entry entries ih =>
    refine returns_bind (returns_readEntryRecord _ _) fun record hrecord => ?_
    obtain ⟨bytes, hdecode⟩ := hrecord
    refine returns_bind (P := fun _ => checkEntryRecord manifest metadata
      (canonical.getD entry.blockId.toNat .default) entry record = .ok ()) ?_ fun _ hcheck => ?_
    · exact returns_ofExcept fun _ h => h
    · refine (ih _).mono ?_
      rintro loaded ⟨found, hfound, rfl⟩
      exact ⟨record.result :: found, .cons ⟨bytes, record, hdecode, hcheck, rfl⟩ hfound, rfl⟩

/-- A result that was read for an entry belongs to a block of the run. -/
theorem EntryResult.valid {entry : ManifestEntry} {result : BlockResult}
    (h : EntryResult metadata canonical manifest entry result) (hpositioned : Positioned canonical)
    (hlt : entry.blockId.toNat < canonical.length) :
    result.entry = entry ∧ ValidResult metadata canonical result := by
  obtain ⟨bytes, record, hdecode, hcheck, rfl⟩ := h
  rw [List.getD_eq_getElem _ _ hlt] at hcheck
  obtain ⟨⟨⟩, hfields, hcheck⟩ := Result.bind_eq_ok.mp hcheck
  obtain ⟨⟨⟩, -, hcheck⟩ := Result.bind_eq_ok.mp hcheck
  simp only [throwIf_eq_ok, Bool.or_eq_false_iff, decide_eq_false_iff_not, ne_eq, not_not]
    at hfields
  obtain ⟨⟨⟨⟨⟨⟨⟨⟨⟨⟨⟨⟨-, hspec⟩, hlayout⟩, hbuild⟩, hrng⟩, hstats⟩, hid⟩, hstart⟩, hend⟩,
    hincarnation⟩, hlease⟩, -⟩, hchecksum⟩ := hfields
  have hexpected : record.result.aggregate.invariantError
      (some (expectedObservations metadata.spec.antithetic canonical[entry.blockId.toNat])) =
        none := by
    split at hcheck
    · cases hcheck
    · assumption
  have hblock : canonical[entry.blockId.toNat].blockId = entry.blockId :=
    UInt64.toNat_inj.mp (hpositioned _ hlt)
  obtain ⟨hne, hhash, -⟩ := encodeBlockRecord_eq_ok.mp (decodeBlockRecord_accepted hdecode)
  refine ⟨?_, hspec, hlayout, hbuild, hrng, hstats, ⟨canonical[entry.blockId.toNat], ?_, ?_⟩, ?_,
    hne, hhash⟩
  · rw [BlockResult.entry, hid, hincarnation, hlease, hchecksum]
  · rw [hid, List.getElem?_eq_getElem hlt]
  · rw [ScenarioBlock.leased, hblock, ← hstart, ← hend, ← hid]
  · rw [expectedObservations, hstart, hend]
    exact hexpected

/-- Canonical entries are fenced by the incarnation and the lease table. -/
theorem checkEntries_fenced {blockCount incarnation : UInt64} {leases : List UInt64}
    {entries : List ManifestEntry} : ∀ {previous : Option UInt64},
    checkEntries blockCount incarnation leases previous entries = .ok () →
      ∀ entry ∈ entries, entry.resultIncarnation ≠ 0 ∧ entry.resultIncarnation ≤ incarnation ∧
        entry.leaseEpoch ≤ leases.getD entry.blockId.toNat 0 ∧
        (entry.resultIncarnation = incarnation →
          entry.leaseEpoch = leases.getD entry.blockId.toNat 0) := by
  induction entries with
  | nil => intro previous _; simp
  | cons entry rest ih =>
    intro previous h
    obtain ⟨_, hentry, hrest⟩ := Result.bind_eq_ok.mp h
    rw [throwIf_eq_ok] at hentry
    simp only [entryNotCanonical, Bool.or_eq_false_iff, Bool.and_eq_false_iff,
      decide_eq_false_iff_not, ne_eq, not_not] at hentry
    obtain ⟨⟨⟨⟨⟨⟨-, hzero⟩, -⟩, hfuture⟩, hlease⟩, hcurrent⟩, -⟩ := hentry
    intro e he
    rcases List.mem_cons.mp he with rfl | he
    · exact ⟨hzero, UInt64.not_lt.mp hfuture, UInt64.not_lt.mp hlease,
        fun heq => hcurrent.resolve_left (not_not.mpr heq)⟩
    · exact ih hrest e he

/-- What the loader has checked of a snapshot that it returns. -/
structure LoadedBy (metadata : RunMetadata) (canonical : List ScenarioBlock)
    (snapshot : LoadedManifest) : Prop where
  accepted : AcceptedManifest snapshot.manifest
  identity : checkIdentity snapshot.manifest metadata = .ok ()
  sound : SoundResults metadata canonical snapshot.manifest.runIncarnation
    snapshot.manifest.leaseEpochs snapshot.results
  committed : ∀ entry, entry ∈ snapshot.manifest.committedBlocks ↔
    ∃ (i : ℕ) (result : BlockResult), snapshot.results[i]? = some (some result) ∧
      result.entry = entry
  reduction : reduceBlockResults (leavesOf snapshot.results) =
    .ok snapshot.manifest.committedAggregate

/-- Placed at their blocks, the results of canonical entries are sound. -/
theorem soundResults_of_entries (hm : AcceptedManifest manifest)
    (hpositioned : Positioned canonical) (hcount : canonical.length = manifest.blockCount.toNat)
    {found : List BlockResult}
    (hfound : List.Forall₂ (EntryResult metadata canonical manifest) manifest.committedBlocks
      found) :
    let results := placeResults (List.replicate canonical.length none) manifest.committedBlocks found
    SoundResults metadata canonical manifest.runIncarnation manifest.leaseEpochs results ∧
      ∀ entry, entry ∈ manifest.committedBlocks ↔ ∃ (i : ℕ) (result : BlockResult),
        results[i]? = some (some result) ∧ result.entry = entry := by
  intro results
  obtain ⟨-, hpairwise, hbound⟩ := checkEntries_pairwise hm.entries
  have hlt : ∀ entry ∈ manifest.committedBlocks, entry.blockId.toNat < canonical.length := by
    intro entry hentry
    rw [hcount]
    exact UInt64.lt_iff_toNat_lt.mp (hbound entry hentry)
  obtain ⟨hlength, hplaced, hother⟩ := placeResults_spec hfound
    (List.replicate canonical.length none)
    (hpairwise.imp fun h => (UInt64.lt_iff_toNat_lt.mp h).ne)
    (by simpa using hlt)
  have horigin : ∀ (i : ℕ) result, results[i]? = some (some result) →
      ∃ entry ∈ manifest.committedBlocks, entry.blockId.toNat = i ∧
        EntryResult metadata canonical manifest entry result := by
    intro i result hi
    by_cases hentry : ∃ entry ∈ manifest.committedBlocks, entry.blockId.toNat = i
    · obtain ⟨entry, hmem, rfl⟩ := hentry
      obtain ⟨placed, hget, hresult⟩ := hplaced entry hmem
      rw [hget] at hi
      cases hi
      exact ⟨entry, hmem, rfl, hresult⟩
    · push Not at hentry
      rw [hother i hentry, List.getElem?_replicate] at hi
      split at hi <;> cases hi
  refine ⟨⟨by simpa using hlength, by rw [hm.leases, hcount], hm.leases_ne, hm.incarnation,
    ?_, ?_⟩, fun entry => ⟨fun hmem => ?_, ?_⟩⟩
  · intro i result hi
    obtain ⟨entry, hmem, hid, hresult⟩ := horigin i result hi
    obtain ⟨hentry, hvalid⟩ := hresult.valid hpositioned (hlt entry hmem)
    exact ⟨by rw [← hid, ← hentry]; rfl, hvalid⟩
  · intro i result hi
    obtain ⟨entry, hmem, rfl, hresult⟩ := horigin i result hi
    obtain ⟨hentry, -⟩ := hresult.valid hpositioned (hlt entry hmem)
    have hfenced := checkEntries_fenced hm.entries entry hmem
    rw [← hentry] at hfenced ⊢
    exact hfenced
  · obtain ⟨result, hget, hresult⟩ := hplaced entry hmem
    exact ⟨_, result, hget, (hresult.valid hpositioned (hlt entry hmem)).1⟩
  · rintro ⟨i, result, hi, rfl⟩
    obtain ⟨entry, hmem, -, hresult⟩ := horigin i result hi
    rw [(hresult.valid hpositioned (hlt entry hmem)).1]
    exact hmem

theorem returns_validateManifestSnapshot (hblocks : makeBlocks metadata.spec engineConfig =
      .ok canonical) (hcount : canonical.length = metadata.blockCount.toNat)
    (hm : AcceptedManifest manifest) :
    Returns (LoadedBy metadata canonical)
      (validateManifestSnapshot engineConfig config manifest metadata) := by
  refine returns_bind (P := fun _ => checkIdentity manifest metadata = .ok ())
    (returns_ofExcept fun _ h => h) fun _ hidentity => ?_
  refine returns_bind (P := fun blocks => makeBlocks metadata.spec engineConfig = .ok blocks)
    (returns_ofExcept fun _ h => h) fun blocks hmade => ?_
  obtain rfl : blocks = canonical := Except.ok.inj (hmade.symm.trans hblocks)
  have hpositioned := (canonicalBlocks_of_makeBlocks hblocks).positioned
  have hcount' : blocks.length = manifest.blockCount.toNat := by
    rw [hcount, blockCount_of_checkIdentity hidentity]
  refine returns_bind (returns_loadEntries _ _) fun results hresults => ?_
  obtain ⟨found, hfound, rfl⟩ := hresults
  obtain ⟨hsound, hcommitted⟩ := soundResults_of_entries hm hpositioned hcount' hfound
  refine returns_bind (P := fun _ => checkReduction manifest _ = .ok ())
    (returns_ofExcept fun _ h => h) fun _ hcheck => ?_
  obtain ⟨reduced, hreduced, hcheck⟩ := Result.bind_eq_ok.mp hcheck
  obtain ⟨⟨⟩, hequal, -⟩ := Result.bind_eq_ok.mp hcheck
  rw [throwIf_eq_ok, Bool.not_eq_false', AggregateStats.aggregatesEqual_iff] at hequal
  exact returns_pure ⟨hm, hidentity, hsound, hcommitted, by rw [← hequal]; exact hreduced⟩

theorem returns_tryCandidates (hblocks : makeBlocks metadata.spec engineConfig = .ok canonical)
    (hcount : canonical.length = metadata.blockCount.toNat) (files : List (UInt64 × Path))
    (lastError : String) :
    Returns (fun outcome => ∀ snapshot ∈ outcome.1, LoadedBy metadata canonical snapshot)
      (tryCandidates engineConfig config metadata files lastError) := by
  induction files generalizing lastError with
  | nil => exact returns_pure (by simp)
  | cons candidate rest ih =>
    have hcandidate : Returns (fun outcome => ∀ snapshot, outcome = .loaded snapshot →
        LoadedBy metadata canonical snapshot)
        (tryCandidate engineConfig config metadata candidate) := by
      refine returns_tryCatch (returns_bind (P := LoadedBy metadata canonical) ?_ ?_) fun e => ?_
      · refine returns_skip _ fun bytes => returns_bind (P := AcceptedManifest)
          (returns_ofExcept fun manifest h => ?_) fun manifest hm =>
            returns_validateManifestSnapshot hblocks hcount hm
        obtain ⟨decoded, hdecoded, h⟩ := Result.bind_eq_ok.mp h
        obtain ⟨⟨⟩, -, h⟩ := Result.bind_eq_ok.mp h
        cases h
        cases hdecode : decodeManifest bytes config.maxManifestBytes with
        | error e => rw [hdecode] at hdecoded; cases hdecoded
        | ok found =>
          rw [hdecode] at hdecoded
          cases hdecoded
          exact decodeManifest_accepted hdecode
      · intro snapshot hloaded
        refine returns_pure ?_
        rintro _ ⟨⟩
        exact hloaded
      · split
        · exact returns_pure nofun
        · exact returns_throw _
    refine returns_bind hcandidate fun outcome houtcome => ?_
    cases outcome with
    | loaded snapshot =>
      refine returns_pure ?_
      rintro _ ⟨⟩
      exact houtcome snapshot rfl
    | skipped message => exact ih message

theorem returns_loadLatestValidManifest
    (hblocks : makeBlocks metadata.spec engineConfig = .ok canonical)
    (hcount : canonical.length = metadata.blockCount.toNat) :
    Returns (fun load => ∀ snapshot ∈ load.loaded, LoadedBy metadata canonical snapshot)
      (loadLatestValidManifest engineConfig config metadata) := by
  refine returns_skip _ fun candidates => ?_
  refine returns_bind (returns_tryCandidates hblocks hcount _ _) ?_
  rintro ⟨loaded, lastError⟩ hloaded
  exact returns_pure hloaded

end Loading

/-! ## Blocks under a lease table -/

/-- The blocks of a run under one incarnation and a lease table. -/
def leaseAll (incarnation : UInt64) (blocks : List ScenarioBlock) (leases : List UInt64) :
    List ScenarioBlock :=
  blocks.zipWith (fun block epoch => block.leased incarnation epoch) leases

theorem length_leaseAll {incarnation : UInt64} {blocks : List ScenarioBlock} {leases : List UInt64}
    (h : leases.length = blocks.length) :
    (leaseAll incarnation blocks leases).length = blocks.length := by
  rw [leaseAll, List.length_zipWith, h, Nat.min_self]

theorem map_leaseEpoch_leaseAll (incarnation : UInt64) {blocks : List ScenarioBlock}
    {leases : List UInt64} (h : leases.length = blocks.length) :
    (leaseAll incarnation blocks leases).map (·.leaseEpoch) = leases := by
  induction blocks generalizing leases with
  | nil => rw [List.length_eq_zero_iff.mp h]; rfl
  | cons block blocks ih =>
    cases leases with
    | nil => cases h
    | cons epoch leases =>
      rw [leaseAll, List.zipWith_cons_cons, List.map_cons]
      exact congrArg (epoch :: ·) (ih (Nat.succ.inj h))

theorem leaseAll_replicate (incarnation epoch : UInt64) (blocks : List ScenarioBlock) :
    leaseAll incarnation blocks (List.replicate blocks.length epoch) =
      blocks.map fun block => block.leased incarnation epoch := by
  induction blocks with
  | nil => rfl
  | cons block blocks ih => exact congrArg (block.leased incarnation epoch :: ·) ih

/-- Leasing again replaces the incarnation and the lease. -/
theorem map_leased_leaseAll (incarnation old : UInt64) (f : UInt64 → UInt64)
    (blocks : List ScenarioBlock) (leases : List UInt64) :
    ((leaseAll old blocks leases).map fun block => block.leased incarnation (f block.leaseEpoch)) =
      leaseAll incarnation blocks (leases.map f) := by
  induction blocks generalizing leases with
  | nil => rfl
  | cons block blocks ih =>
    cases leases with
    | nil => rfl
    | cons epoch leases =>
      rw [leaseAll, List.zipWith_cons_cons, List.map_cons]
      exact congrArg (block.leased incarnation (f epoch) :: ·) (ih leases)

/-- The blocks of a run stay canonical under other nonzero leases. -/
theorem CanonicalBlocks.leaseAll {spec : RunSpec} {blockSize incarnation : UInt64}
    {blocks : List ScenarioBlock} (h : CanonicalBlocks spec blockSize incarnation blocks)
    (later : UInt64) {leases : List UInt64} (hlength : leases.length = blocks.length)
    (hne : ∀ epoch ∈ leases, epoch ≠ 0) :
    CanonicalBlocks spec blockSize later (leaseAll later blocks leases) where
  length_eq := by rw [length_leaseAll hlength, h.length_eq]
  get := by
    intro i hi
    have hblock : i < blocks.length := by rwa [length_leaseAll hlength] at hi
    have hlease : i < leases.length := by rwa [hlength]
    have hget : (MonteCarlo.leaseAll later blocks leases)[i] =
        blocks[i].leased later leases[i] := List.getElem_zipWith ..
    obtain ⟨hid, hstart, hend, -⟩ := h.get i hblock
    rw [hget]
    exact ⟨hid, hstart, hend, rfl, hne _ (List.getElem_mem _)⟩

theorem renewLeases_eq_ok {incarnation : UInt64} {blocks renewed : List ScenarioBlock}
    (h : renewLeases incarnation blocks = .ok renewed) :
    (renewed = blocks.map fun block => block.leased incarnation (block.leaseEpoch + 1)) ∧
      ∀ block ∈ blocks, block.leaseEpoch ≠ maxWord := by
  induction blocks generalizing renewed with
  | nil => cases h; exact ⟨rfl, by simp⟩
  | cons block rest ih =>
    obtain ⟨⟨⟩, hmax, h⟩ := Result.bind_eq_ok.mp h
    obtain ⟨tail, htail, h⟩ := Result.bind_eq_ok.mp h
    cases h
    rw [throwIf_eq_ok, decide_eq_false_iff_not] at hmax
    obtain ⟨rfl, hrest⟩ := ih htail
    refine ⟨rfl, fun other hother => ?_⟩
    rcases List.mem_cons.mp hother with rfl | hother
    · exact hmax
    · exact hrest other hother

theorem toNat_add_one {word : UInt64} (h : word ≠ maxWord) : (word + 1).toNat = word.toNat + 1 := by
  have hlt := word.toNat_lt
  have hne : word.toNat ≠ 2 ^ 64 - 1 := fun heq => h (UInt64.toNat_inj.mp heq)
  rw [UInt64.toNat_add, UInt64.toNat_one]
  omega

section Sound

variable {metadata : RunMetadata} {canonical : List ScenarioBlock} {incarnation later : UInt64}
  {leases : List UInt64} {results : List (Option BlockResult)}

/-- Nothing has been computed: sound under every first incarnation. -/
theorem soundResults_none (metadata : RunMetadata) (canonical : List ScenarioBlock) :
    SoundResults metadata canonical 1 (List.replicate canonical.length 1)
      (List.replicate canonical.length none) where
  length_eq := List.length_replicate
  leases_length := List.length_replicate
  leases_ne := by
    intro epoch hepoch
    rw [(List.mem_replicate.mp hepoch).2]
    decide
  incarnation_ne := by decide
  valid := by
    intro i result hi
    rw [List.getElem?_replicate] at hi
    split at hi <;> cases hi
  fenced := by
    intro i result hi
    rw [List.getElem?_replicate] at hi
    split at hi <;> cases hi

/-- Results stay sound under a later incarnation that renews every lease. -/
theorem SoundResults.renew (h : SoundResults metadata canonical incarnation leases results)
    (hmax : ∀ epoch ∈ leases, epoch ≠ maxWord) (hlt : incarnation < later) :
    SoundResults metadata canonical later (leases.map (· + 1)) results where
  length_eq := h.length_eq
  leases_length := by rw [List.length_map, h.leases_length]
  leases_ne := by
    intro epoch hepoch hzero
    obtain ⟨old, hold, rfl⟩ := List.mem_map.mp hepoch
    have := congrArg UInt64.toNat hzero
    rw [toNat_add_one (hmax old hold)] at this
    cases this
  incarnation_ne := by
    rintro rfl
    exact absurd (UInt64.lt_iff_toNat_lt.mp hlt) (Nat.not_lt_zero _)
  valid := h.valid
  fenced := by
    intro i result hi
    obtain ⟨hzero, hle, hlease, -⟩ := h.fenced i result hi
    have hilt : i < leases.length := by
      rw [h.leases_length, ← h.length_eq]
      exact (List.getElem?_eq_some_iff.mp hi).1
    have hold : result.block.runIncarnation < later :=
      UInt64.lt_of_le_of_lt hle hlt
    refine ⟨hzero, UInt64.le_of_lt hold, ?_, fun heq => ?_⟩
    · rw [List.getD_eq_getElem _ _ hilt] at hlease
      rw [List.getD_eq_getElem _ _ (by rw [List.length_map]; exact hilt), List.getElem_map,
        UInt64.le_iff_toNat_le, toNat_add_one (hmax _ (List.getElem_mem hilt))]
      exact Nat.le_succ_of_le (UInt64.le_iff_toNat_le.mp hlease)
    · rw [heq] at hold
      exact absurd hold (UInt64.lt_irrefl _)

end Sound

/-! ## The recovery state -/

/-- The recovery state of an opened store. -/
structure RecoveredBy (metadata : RunMetadata) (canonical blocks : List ScenarioBlock)
    (recovery : DurableRecoveryState) : Prop where
  leased : ∃ leases, leases.length = blocks.length ∧
    recovery.blocks = leaseAll recovery.runIncarnation blocks leases ∧
    SoundResults metadata canonical recovery.runIncarnation leases recovery.committedResults

section Recovering

variable {config : RunStoreConfig} {engineConfig : EngineConfig} {metadata : RunMetadata}
  {canonical blocks : List ScenarioBlock} {metadataExisted : Bool} {usage : StorageUsage}

theorem returns_startRun (hlength : canonical.length = blocks.length) :
    Returns (RecoveredBy metadata canonical blocks)
      (startRun config metadata metadataExisted blocks usage) := by
  have hrecovery : RecoveredBy metadata canonical blocks
      ⟨0, 1, .running, metadataExisted, blocks.map fun block => block.leased 1 1,
        List.replicate blocks.length none⟩ := by
    refine ⟨List.replicate blocks.length 1, List.length_replicate, ?_, ?_⟩
    · rw [leaseAll_replicate]
    · have h := soundResults_none metadata canonical
      rw [hlength] at h
      exact h
  have hrest : Returns (RecoveredBy metadata canonical blocks) (do
      let initial ← Program.ofExcept (makeManifestFromResults metadata 0 1 .running
        (blocks.map fun block => block.leased 1 1) (List.replicate blocks.length none) none)
      let _ ← installManifest config initial usage
      pure ⟨0, 1, .running, metadataExisted, blocks.map fun block => block.leased 1 1,
        List.replicate blocks.length none⟩) :=
    returns_skip _ fun _ => returns_skip _ fun _ => returns_pure hrecovery
  unfold startRun
  split
  · exact returns_skip _ fun _ => hrest
  · exact hrest

theorem returns_resumeRun {snapshot : LoadedManifest} {highestSequence : UInt64}
    {recovered : DurableRecoveryState}
    (hlength : snapshot.manifest.leaseEpochs.length = blocks.length)
    (hrecovered : recovered.blocks = leaseAll snapshot.manifest.runIncarnation blocks
      snapshot.manifest.leaseEpochs)
    (hresults : recovered.committedResults = snapshot.results)
    (hloaded : LoadedBy metadata canonical snapshot) :
    Returns (fun recovery => RecoveredBy metadata canonical blocks recovery ∧
        recovery.status = recovered.status)
      (resumeRun config metadata snapshot highestSequence recovered usage) := by
  refine returns_bind (P := fun _ => snapshot.manifest.runIncarnation ≠ maxWord)
    (returns_ofExcept fun _ h => ?_) fun _ hmax => ?_
  · simp only [throwIf_eq_ok, Bool.or_eq_false_iff, decide_eq_false_iff_not] at h
    exact h.1
  refine returns_skip _ fun _ => returns_bind (P := fun pair =>
      recoveryManifest metadata snapshot highestSequence recovered.blocks = .ok pair)
    (returns_ofExcept fun _ h => h) ?_
  rintro ⟨renewed, manifest⟩ hmanifest
  refine returns_skip _ fun _ => returns_pure ⟨?_, rfl⟩
  obtain ⟨renewed', hrenewed, hmanifest⟩ := Result.bind_eq_ok.mp hmanifest
  obtain ⟨made, hmade, hmanifest⟩ := Result.bind_eq_ok.mp hmanifest
  cases hmanifest
  obtain ⟨aggregate, -, hmade⟩ := Result.bind_eq_ok.mp hmade
  cases hmade
  obtain ⟨rfl, hleases⟩ := renewLeases_eq_ok hrenewed
  rw [hrecovered] at hleases ⊢
  refine ⟨snapshot.manifest.leaseEpochs.map (· + 1), by rw [List.length_map, hlength], ?_, ?_⟩
  · exact map_leased_leaseAll _ _ (· + 1) blocks _
  · rw [hresults]
    refine hloaded.sound.renew ?_ ?_
    · intro epoch hepoch
      rw [← map_leaseEpoch_leaseAll snapshot.manifest.runIncarnation hlength]
        at hepoch
      obtain ⟨block, hblock, rfl⟩ := List.mem_map.mp hepoch
      exact hleases block hblock
    · rw [UInt64.lt_iff_toNat_lt, maxOfWords_toNat, toNat_add_one hmax]
      exact Nat.lt_of_lt_of_le (Nat.lt_succ_self _) (Nat.le_max_left _ _)

theorem returns_obtainRecovery {load : LoadResult} (hlength : canonical.length = blocks.length)
    (hload : ∀ snapshot ∈ load.loaded, LoadedBy metadata canonical snapshot) :
    Returns (RecoveredBy metadata canonical blocks)
      (obtainRecovery config metadata metadataExisted load blocks usage) := by
  unfold obtainRecovery
  split
  · exact returns_startRun hlength
  · rename_i snapshot hsnapshot
    have hloaded := hload snapshot hsnapshot
    have hleases : snapshot.manifest.leaseEpochs.length = blocks.length := by
      rw [hloaded.sound.leases_length, hlength]
    unfold recoverRun
    split
    · exact (returns_resumeRun hleases rfl rfl hloaded).mono fun recovery h => h.1
    · exact returns_pure ⟨snapshot.manifest.leaseEpochs, hleases, rfl, hloaded.sound⟩

end Recovering

/-! ## Opening a store -/

section Opening

variable {build : BuildIdentity} {spec : RunSpec} {engineConfig : EngineConfig}
  {storeConfig : RunStoreConfig} {metadata : RunMetadata}

/-- The metadata of an opened store names the run. -/
theorem MetadataOf.identity (h : MetadataOf build spec engineConfig metadata) :
    runSpecHash spec = .ok metadata.runSpecHash ∧
      executionLayoutHash spec engineConfig = .ok metadata.executionLayoutHash ∧
      metadata.buildFingerprint = build.hash ∧
      metadata.blockCount = blockCount spec engineConfig.blockSize := by
  cases h with
  | installed h =>
    obtain ⟨-, -, -, hspec, hlayout, heq⟩ := expectedMetadata_eq_ok h
    exact ⟨hspec, hlayout, by rw [heq], by rw [heq]⟩
  | found hexpected hdecode hcompatible =>
    obtain ⟨-, -, -, hspec, hlayout, heq⟩ := expectedMetadata_eq_ok hexpected
    obtain ⟨hspec', hlayout', -, hcount, hbuild, -⟩ := requireCompatible_eq_ok hcompatible
    refine ⟨by rw [hspec', hspec], by rw [hlayout', hlayout], ?_, ?_⟩
    · rw [hbuild, heq]
    · rw [hcount, heq]

/-- What `open` has established of a store that it returns. -/
structure Opened (build : BuildIdentity) (spec : RunSpec) (engineConfig : EngineConfig)
    (storeConfig : RunStoreConfig) (store : DurableRunStore) : Prop where
  valid : storeConfig.validate = .ok ()
  spec_eq : store.spec = spec
  config_eq : store.config =
    resolveCheckpointCadence storeConfig (blockCount spec engineConfig.blockSize)
  metadata : MetadataOf build spec engineConfig store.metadata
  recovered : ∃ canonical blocks, makeBlocks store.metadata.spec engineConfig = .ok canonical ∧
    makeBlocks spec engineConfig = .ok blocks ∧ canonical.length = blocks.length ∧
    RecoveredBy store.metadata canonical blocks store.recovery
  durable : store.durableResults = store.recovery.committedResults

theorem returns_obtainMetadata {config : RunStoreConfig} {expected : RunMetadata}
    (hexpected : expectedMetadata build spec engineConfig = .ok expected) (usage : StorageUsage) :
    Returns (fun found => MetadataOf build spec engineConfig found.1)
      (obtainMetadata config expected usage) := by
  refine returns_skip _ fun existed => ?_
  split
  · refine returns_skip _ fun bytes => returns_bind
      (P := fun metadata => decodeRunMetadata bytes = .ok metadata)
      (returns_ofExcept fun _ h => h) fun metadata hdecode => ?_
    refine returns_bind (P := fun _ => requireCompatible metadata expected = .ok ())
      (returns_ofExcept fun _ h => h) fun _ hcompatible => ?_
    exact returns_pure (.found hexpected hdecode hcompatible)
  · refine returns_skip _ fun _ => returns_skip _ fun _ => returns_skip _ fun _ => ?_
    exact returns_skip _ fun _ => returns_skip _ fun _ => returns_pure (.installed hexpected)

/-- Whatever the operating system answers, an opened store has been checked. -/
theorem returns_openStore (build : BuildIdentity) (spec : RunSpec) (engineConfig : EngineConfig)
    (storeConfig : RunStoreConfig) :
    Returns (Opened build spec engineConfig storeConfig)
      (openStore build spec engineConfig storeConfig) := by
  refine returns_bind (P := fun _ => storeConfig.validate = .ok ())
    (returns_ofExcept fun _ h => h) fun _ hvalid => ?_
  refine returns_bind (P := fun expected => expectedMetadata build spec engineConfig = .ok expected)
    (returns_ofExcept fun _ h => h) fun expected hexpected => ?_
  have hcount : expected.blockCount = blockCount spec engineConfig.blockSize :=
    (MetadataOf.installed hexpected).identity.2.2.2
  refine returns_skip _ fun usage => returns_bind (returns_obtainMetadata hexpected usage) ?_
  rintro ⟨metadata, existed, usage⟩ hmetadata
  obtain ⟨canonical, hcanonical, hlength⟩ := hmetadata.makeBlocks
  refine returns_bind (returns_loadLatestValidManifest hcanonical hlength) fun load hload => ?_
  refine returns_skip _ fun _ => returns_bind
    (P := fun blocks => makeBlocks spec engineConfig = .ok blocks)
    (returns_ofExcept fun _ h => h) fun blocks hblocks => ?_
  have hsame : canonical.length = blocks.length := by
    rw [hlength, hmetadata.identity.2.2.2,
      (canonicalBlocks_of_makeBlocks hblocks).length_eq]
  refine returns_bind (returns_obtainRecovery hsame hload) fun recovery hrecovery => ?_
  refine returns_skip _ fun _ => returns_skip _ fun usage => returns_pure ?_
  exact ⟨hvalid, rfl, by rw [hcount], hmetadata,
    ⟨canonical, blocks, hcanonical, hblocks, hsame, hrecovery⟩, rfl⟩

/-- The run returned, and what it returned passes a test, with the state after it. -/
def returnedPassing {α σ : Type} (test : α → σ → Bool) : Result α × σ → Bool
  | (.ok a, after) => test a after
  | (.error _, _) => false

theorem exists_of_returnedPassing {α σ : Type} {test : α → σ → Bool} {outcome : Result α × σ}
    (h : returnedPassing test outcome = true) :
    ∃ a after, outcome = (.ok a, after) ∧ test a after = true := by
  rcases outcome with ⟨e | a, after⟩
  · cases h
  · exact ⟨a, after, rfl, h⟩

/-- The same for a computation without calls. -/
theorem exists_of_toOption_any {α : Type} {test : α → Bool} {outcome : Result α}
    (h : outcome.toOption.any test = true) : ∃ a, outcome = .ok a ∧ test a = true := by
  cases outcome with
  | error e => cases h
  | ok a => exact ⟨a, rfl, h⟩

end Opening

end MonteCarlo
