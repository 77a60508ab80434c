import MonteCarlo.Store.Reading

/-!
# Snapshots that the store writes

The writers (`make_manifest_from_results`, `checkpoint`) and the validator
(`validate_manifest_snapshot`) check leases, incarnations and aggregates independently of each
other.  `SoundResults` is what they have to agree on.

* `ValidResult` — a result that belongs to a block of the run.
* `SoundResults` — results at the positions of their blocks, fenced by an incarnation and its
  lease table.
* `encodableManifest_of_sound` — the encoder accepts a manifest of sound results;
* `loadable_of_stored` — and the validator accepts it as long as the files of its results are in
  place.
-/

namespace MonteCarlo

/-- A result of a block of the run, with the identity of the run. -/
structure ValidResult (metadata : RunMetadata) (canonical : List ScenarioBlock)
    (result : BlockResult) : Prop where
  runSpecHash : result.runSpecHash = metadata.runSpecHash
  executionLayoutHash : result.executionLayoutHash = metadata.executionLayoutHash
  buildFingerprint : result.buildFingerprint = metadata.buildFingerprint
  rngVersion : result.rngVersion = metadata.spec.rngVersion
  statsSchemaVersion : result.statsSchemaVersion = metadata.spec.statsSchemaVersion
  block : ∃ block, canonical[result.block.blockId.toNat]? = some block ∧
    result.block = block.leased result.block.runIncarnation result.block.leaseEpoch
  aggregate : result.aggregate.invariantError
    (some (expectedObservations metadata.spec.antithetic result.block)) = none
  leaseEpoch : result.block.leaseEpoch ≠ 0
  checksum : aggregatePayloadHash result.aggregate result.statsSchemaVersion =
    .ok result.payloadChecksum

/-- The bytes of the file of a result. -/
def BlockResult.fileBytes (metadata : RunMetadata) (result : BlockResult) : Bytes :=
  makeEnvelope kBlockMagic (blockRecordBytes ⟨metadata.runId, result⟩)

/-- The file of a result is in place. -/
def Stored (disk : Disk) (metadata : RunMetadata) (result : BlockResult) : Prop :=
  disk.file (blockPathFor result.block) = some (result.fileBytes metadata)

/-- Results at the positions of their blocks; the incarnation and the lease table fence them. -/
structure SoundResults (metadata : RunMetadata) (canonical : List ScenarioBlock)
    (incarnation : UInt64) (leases : List UInt64) (results : List (Option BlockResult)) :
    Prop where
  length_eq : results.length = canonical.length
  leases_length : leases.length = canonical.length
  leases_ne : ∀ epoch ∈ leases, epoch ≠ 0
  incarnation_ne : incarnation ≠ 0
  valid : ∀ (i : ℕ) result, results[i]? = some (some result) →
    result.block.blockId.toNat = i ∧ ValidResult metadata canonical result
  fenced : ∀ (i : ℕ) result, results[i]? = some (some result) →
    result.block.runIncarnation ≠ 0 ∧ result.block.runIncarnation ≤ incarnation ∧
      result.block.leaseEpoch ≤ leases.getD i 0 ∧
      (result.block.runIncarnation = incarnation → result.block.leaseEpoch = leases.getD i 0)

/-- The entries of a manifest that commits `results`. -/
def entriesOf (results : List (Option BlockResult)) : List ManifestEntry :=
  results.filterMap fun result => result.map (·.entry)

theorem mem_entriesOf {results : List (Option BlockResult)} {entry : ManifestEntry} :
    entry ∈ entriesOf results ↔
      ∃ (i : ℕ) (result : BlockResult), results[i]? = some (some result) ∧ result.entry = entry := by
  rw [entriesOf, List.mem_filterMap]
  constructor
  · rintro ⟨found, hmem, hentry⟩
    obtain ⟨result, rfl, rfl⟩ := Option.map_eq_some_iff.mp hentry
    obtain ⟨i, hi⟩ := List.mem_iff_getElem?.mp hmem
    exact ⟨i, result, hi, rfl⟩
  · rintro ⟨i, result, hi, hentry⟩
    exact ⟨some result, List.mem_of_getElem? hi, congrArg some hentry⟩

section Encoding

variable {metadata : RunMetadata} {canonical : List ScenarioBlock} {incarnation : UInt64}
  {leases : List UInt64} {results : List (Option BlockResult)}

theorem ValidResult.encodeBlockRecord {result : BlockResult}
    (h : ValidResult metadata canonical result) :
    encodeBlockRecord ⟨metadata.runId, result⟩ = .ok (result.fileBytes metadata) :=
  encodeBlockRecord_eq_ok.mpr ⟨h.leaseEpoch, h.checksum, rfl⟩

/-- One entry is canonical on its own when its lease and its incarnation are fenced. -/
theorem entryNotCanonical_eq_false {blockCount : UInt64} {previous : Option UInt64}
    {entry : ManifestEntry} (hid : entry.blockId < blockCount) (hinc : entry.resultIncarnation ≠ 0)
    (hlease : entry.leaseEpoch ≠ 0) (hfence : entry.resultIncarnation ≤ incarnation)
    (hle : entry.leaseEpoch ≤ leases.getD entry.blockId.toNat 0)
    (hcurrent : entry.resultIncarnation = incarnation →
      entry.leaseEpoch = leases.getD entry.blockId.toNat 0)
    (hprevious : ∀ id ∈ previous, id < entry.blockId) :
    entryNotCanonical blockCount incarnation leases previous entry = false := by
  have hlast : previous.any (fun id => entry.blockId ≤ id) = false := by
    cases previous with
    | none => rfl
    | some id => exact decide_eq_false (UInt64.not_le.mpr (hprevious id rfl))
  simp only [entryNotCanonical, hlast, UInt64.not_le.mpr hid, hinc, hlease,
    UInt64.not_lt.mpr hfence, UInt64.not_lt.mpr hle, decide_false, Bool.or_false, Bool.or_self,
    Bool.false_or, Bool.and_eq_false_iff, decide_eq_false_iff_not, ne_eq, not_not]
  by_cases h : entry.resultIncarnation = incarnation
  · exact Or.inr (hcurrent h)
  · exact Or.inl h

/-- The entry loop accepts the entries of fenced results from position `offset` on. -/
theorem checkEntries_filterMap {blockCount : UInt64} (rest : List (Option BlockResult)) :
    ∀ (offset : ℕ) (previous : Option UInt64),
      (∀ id ∈ previous, id.toNat < offset) →
      (∀ (i : ℕ) result, rest[i]? = some (some result) →
        result.block.blockId.toNat = offset + i ∧ result.block.blockId < blockCount ∧
        result.block.leaseEpoch ≠ 0 ∧ result.block.runIncarnation ≠ 0 ∧
        result.block.runIncarnation ≤ incarnation ∧
        result.block.leaseEpoch ≤ leases.getD (offset + i) 0 ∧
        (result.block.runIncarnation = incarnation →
          result.block.leaseEpoch = leases.getD (offset + i) 0)) →
      checkEntries blockCount incarnation leases previous (entriesOf rest) = .ok () := by
  induction rest with
  | nil => intro offset previous _ _; rfl
  | cons result rest ih =>
    intro offset previous hprevious hrest
    have htail : ∀ (i : ℕ) result, rest[i]? = some (some result) →
        result.block.blockId.toNat = offset + 1 + i ∧ result.block.blockId < blockCount ∧
        result.block.leaseEpoch ≠ 0 ∧ result.block.runIncarnation ≠ 0 ∧
        result.block.runIncarnation ≤ incarnation ∧
        result.block.leaseEpoch ≤ leases.getD (offset + 1 + i) 0 ∧
        (result.block.runIncarnation = incarnation →
          result.block.leaseEpoch = leases.getD (offset + 1 + i) 0) := by
      intro i result hi
      have h := hrest (i + 1) result (by simpa using hi)
      rwa [show offset + (i + 1) = offset + 1 + i by omega] at h
    cases result with
    | none =>
      exact ih (offset + 1) previous (fun id hid => Nat.lt_succ_of_lt (hprevious id hid)) htail
    | some result =>
      obtain ⟨hid, hbound, hlease, hinc, hfence, hle, hcurrent⟩ := hrest 0 result rfl
      rw [Nat.add_zero] at hid hle hcurrent
      rw [← hid] at hle hcurrent
      have hcanonical : entryNotCanonical blockCount incarnation leases previous result.entry =
          false := by
        refine entryNotCanonical_eq_false hbound hinc hlease hfence hle hcurrent fun id hmem => ?_
        rw [UInt64.lt_iff_toNat_lt]
        exact lt_of_lt_of_eq (hprevious id hmem) hid.symm
      change checkEntries blockCount incarnation leases previous
        (result.entry :: entriesOf rest) = _
      rw [checkEntries, hcanonical, throwIf_false, Result.ok_bind]
      refine ih (offset + 1) _ ?_ htail
      intro id hmem
      obtain rfl : id = result.block.blockId := (Option.some.inj hmem).symm
      omega

theorem SoundResults.checkEntries (h : SoundResults metadata canonical incarnation leases results)
    {blockCount : UInt64} (hcount : canonical.length = blockCount.toNat) :
    checkEntries blockCount incarnation leases none (entriesOf results) = .ok () := by
  refine checkEntries_filterMap results 0 none (by simp) fun i result hi => ?_
  obtain ⟨hid, hvalid⟩ := h.valid i result hi
  obtain ⟨hinc, hfence, hle, hcurrent⟩ := h.fenced i result hi
  rw [Nat.zero_add]
  refine ⟨hid, ?_, hvalid.leaseEpoch, hinc, hfence, hle, hcurrent⟩
  rw [UInt64.lt_iff_toNat_lt, hid, ← hcount, ← h.length_eq]
  exact (List.getElem?_eq_some_iff.mp hi).1

/-- All entries of a list without a gap. -/
theorem length_entriesOf (hall : results.any (·.isNone) = false) :
    (entriesOf results).length = results.length := by
  induction results with
  | nil => rfl
  | cons result rest ih =>
    rw [List.any_cons, Bool.or_eq_false_iff] at hall
    cases result with
    | none => simp at hall
    | some result =>
      change (result.entry :: entriesOf rest).length = _
      rw [List.length_cons, List.length_cons, ih hall.2]

/-- A manifest that commits `results` under a lease table: what both writers build. -/
structure ManifestOf (metadata : RunMetadata) (leases : List UInt64)
    (results : List (Option BlockResult)) (manifest : RunManifest) : Prop where
  runId : manifest.runId = metadata.runId
  runSpecHash : manifest.runSpecHash = metadata.runSpecHash
  executionLayoutHash : manifest.executionLayoutHash = metadata.executionLayoutHash
  buildFingerprint : manifest.buildFingerprint = metadata.buildFingerprint
  rngVersion : manifest.rngVersion = metadata.spec.rngVersion
  statsSchemaVersion : manifest.statsSchemaVersion = metadata.spec.statsSchemaVersion
  blockCount : manifest.blockCount = metadata.blockCount
  leaseEpochs : manifest.leaseEpochs = leases
  committedBlocks : manifest.committedBlocks = entriesOf results

theorem ManifestOf.checkIdentity {manifest : RunManifest}
    (h : ManifestOf metadata leases results manifest) :
    checkIdentity manifest metadata = .ok () := by
  simp [MonteCarlo.checkIdentity, h.runId, h.runSpecHash, h.executionLayoutHash,
    h.buildFingerprint, h.rngVersion, h.statsSchemaVersion, h.blockCount]

/-- The encoder accepts a manifest of sound results. -/
theorem encodableManifest_of_sound {manifest : RunManifest}
    (hsound : SoundResults metadata canonical manifest.runIncarnation leases results)
    (hmanifest : ManifestOf metadata leases results manifest)
    (hcount : canonical.length = metadata.blockCount.toNat) (hne : canonical ≠ [])
    (hstats : metadata.spec.statsSchemaVersion = kStatsSchemaVersion)
    (haggregate : manifest.committedAggregate.invariantError = none)
    (hfailed : manifest.status = .failed ↔ manifest.failure.isSome)
    (hreason : ∀ failure ∈ manifest.failure,
      failure.reason.length ≤ kMaxFailureReasonBytes.toNat)
    (hcomplete : manifest.status = .complete → results.any (·.isNone) = false) :
    EncodableManifest manifest where
  incarnation := hsound.incarnation_ne
  blockCount := by
    rw [hmanifest.blockCount]
    intro hzero
    rw [hzero] at hcount
    exact hne (List.length_eq_zero_iff.mp hcount)
  leases := by rw [hmanifest.leaseEpochs, hmanifest.blockCount, hsound.leases_length, hcount]
  leases_ne := by rw [hmanifest.leaseEpochs]; exact hsound.leases_ne
  failed := hfailed
  complete := by
    intro hstatus
    rw [hmanifest.committedBlocks, hmanifest.blockCount, length_entriesOf (hcomplete hstatus),
      hsound.length_eq, hcount]
  entries := by
    rw [hmanifest.blockCount, hmanifest.leaseEpochs, hmanifest.committedBlocks]
    exact hsound.checkEntries hcount
  aggregate := haggregate
  stats := by rw [hmanifest.statsSchemaVersion, hstats]
  reason := hreason

end Encoding

/-! ## Reading back -/

section ReadingBack

variable {disk : Disk} {config : RunStoreConfig} {metadata : RunMetadata}
  {canonical : List ScenarioBlock} {leases : List UInt64} {results : List (Option BlockResult)}
  {manifest : RunManifest}

/-- The record of a stored result passes the checks of the validator. -/
theorem SoundResults.checkEntryRecord
    (hsound : SoundResults metadata canonical manifest.runIncarnation leases results)
    (hleases : manifest.leaseEpochs = leases) {i : ℕ} {result : BlockResult}
    (hi : results[i]? = some (some result)) :
    checkEntryRecord manifest metadata (canonical.getD i .default) result.entry
      ⟨metadata.runId, result⟩ = .ok () := by
  obtain ⟨rfl, hvalid⟩ := hsound.valid i result hi
  obtain ⟨-, hfence, -, hcurrent⟩ := hsound.fenced _ result hi
  obtain ⟨block, hblock, heq⟩ := hvalid.block
  have hget : canonical.getD result.block.blockId.toNat .default = block := by
    rw [List.getD_eq_getElem?_getD, hblock, Option.getD_some]
  have hstart : result.block.startScenario = block.startScenario := by rw [heq]; rfl
  have hend : result.block.endScenario = block.endScenario := by rw [heq]; rfl
  have haggregate : result.aggregate.invariantError
      (some (expectedObservations metadata.spec.antithetic block)) = none := by
    have h := hvalid.aggregate
    rwa [expectedObservations, hstart, hend] at h
  have hlease : (decide (result.block.runIncarnation = manifest.runIncarnation) &&
      decide (result.block.leaseEpoch ≠ manifest.leaseEpochs.getD result.block.blockId.toNat 0)) =
        false := by
    rw [Bool.and_eq_false_iff, decide_eq_false_iff_not, decide_eq_false_iff_not, not_not, hleases]
    by_cases h : result.block.runIncarnation = manifest.runIncarnation
    · exact Or.inr (hcurrent h)
    · exact Or.inl h
  rw [hget]
  refine Result.bind_eq_ok.mpr ⟨(), throwIf_eq_ok.mpr ?_,
    Result.bind_eq_ok.mpr ⟨(), throwIf_eq_ok.mpr hlease, ?_⟩⟩
  · simp only [BlockResult.entry, hvalid.runSpecHash, hvalid.executionLayoutHash,
      hvalid.buildFingerprint, hvalid.rngVersion, hvalid.statsSchemaVersion, hstart, hend,
      UInt64.not_lt.mpr hfence, ne_eq, not_true_eq_false, decide_false, Bool.or_self]
  · simp only [haggregate]
    rfl

/-- The file that an entry names is the file of its result. -/
theorem ValidResult.entryPath {result : BlockResult} (h : ValidResult metadata canonical result) :
    entryPath (canonical.getD result.block.blockId.toNat .default) result.entry =
      blockPathFor result.block := by
  obtain ⟨block, hblock, heq⟩ := h.block
  rw [List.getD_eq_getElem?_getD, hblock, Option.getD_some, MonteCarlo.entryPath]
  exact congrArg blockPathFor heq.symm

/-- The results of a manifest are found on a disk that stores them. -/
theorem committedResults_of_stored
    (hsound : SoundResults metadata canonical manifest.runIncarnation leases results)
    (hmanifest : ManifestOf metadata leases results manifest)
    (hstored : ∀ (i : ℕ) result, results[i]? = some (some result) → Stored disk metadata result) :
    CommittedResults disk metadata canonical manifest results where
  length_eq := hsound.length_eq
  committed := by
    intro entry hentry
    rw [hmanifest.committedBlocks] at hentry
    obtain ⟨i, result, hi, rfl⟩ := mem_entriesOf.mp hentry
    obtain ⟨rfl, hvalid⟩ := hsound.valid i result hi
    have hencode := hvalid.encodeBlockRecord
    refine ⟨result, hi, result.fileBytes metadata, ⟨metadata.runId, result⟩, ?_, ?_,
      decodeBlockRecord_encodeBlockRecord hencode,
      hsound.checkEntryRecord hmanifest.leaseEpochs hi, rfl⟩
    · rw [← hstored _ result hi]
      exact congrArg disk.file hvalid.entryPath
    · rw [length_encodeBlockRecord hencode]
      norm_num
  missing := by
    intro i hi hnone
    rw [hmanifest.committedBlocks] at hnone
    have hlt : i < results.length := by rw [hsound.length_eq]; exact hi
    rw [List.getElem?_eq_getElem hlt]
    cases hget : results[i] with
    | none => rfl
    | some result =>
      have hi : results[i]? = some (some result) := by rw [List.getElem?_eq_getElem hlt, hget]
      exact absurd (hsound.valid i result hi).1
        (hnone result.entry (mem_entriesOf.mpr ⟨i, result, hi, rfl⟩))

/-- The validator accepts what the writers wrote, as long as the files are in place. -/
theorem loadable_of_stored {sequence : UInt64} {bytes : Bytes}
    (hsound : SoundResults metadata canonical manifest.runIncarnation leases results)
    (hmanifest : ManifestOf metadata leases results manifest)
    (hstored : ∀ (i : ℕ) result, results[i]? = some (some result) → Stored disk metadata result)
    (hfile : disk.file (manifestPathFor sequence) = some bytes)
    (hencode : encodeManifest manifest = .ok bytes) (hsequence : manifest.sequence = sequence)
    (hmin : 256 ≤ config.maxManifestBytes.toNat)
    (hlength : bytes.length ≤ config.maxManifestBytes.toNat) :
    Loadable disk config metadata canonical sequence ⟨manifest, results⟩ where
  file := ⟨bytes, hfile, hlength, decodeManifest_encodeManifest hencode hmin hlength⟩
  sequence_eq := hsequence
  identity := hmanifest.checkIdentity
  results := committedResults_of_stored hsound hmanifest hstored

end ReadingBack

end MonteCarlo
