import MonteCarlo.Persistence.Records

/-!
# Decoding undoes encoding

Every artifact that its encoder accepts is read back unchanged by its decoder:

* `decodeBlockRecord_encodeBlockRecord` — block records, which are 296 bytes long;
* `decodeManifest_encodeManifest` — manifests, of any size within the limit;
* `decodeRunMetadata_encodeRunMetadata` — metadata, where a Heston
  specification comes back with the default in its unused volatility.

The proofs walk through the fields in the order of the reader.
-/

namespace MonteCarlo

open Wire

/-! ## Aggregates and block records -/

theorem readsAll_readAggregate (a : AggregateStats Binary64) (schema : UInt32) :
    ReadsAll (readAggregate schema) (aggregateBytes a schema) a := by
  unfold aggregateBytes readAggregate
  rw [← List.append_nil (appendDouble a.max)]
  simp only [List.append_assoc]
  refine (Reader.reads_u32 _).andThen ((reads_require _ (by simp)).check ?_)
  refine (Reader.reads_u32 _).andThen ((reads_require _ (by simp)).check ?_)
  refine (Reader.reads_u64 _).andThen ((Reader.reads_binary64 _).andThen ?_)
  refine (Reader.reads_binary64 _).andThen ((Reader.reads_binary64 _).andThen ?_)
  refine (Reader.reads_binary64 _).andThen (Reader.readsAll_finish ?_)
  exact ReadsAll.pure _

theorem decodeAggregatePayload_aggregateBytes {a : AggregateStats Binary64} (schema : UInt32)
    (ha : a.invariantError = none) : decodeAggregatePayload (aggregateBytes a schema) schema = .ok a := by
  rw [decodeAggregatePayload, Reader.decode_of_readsAll (readsAll_readAggregate a schema)]
  simp only [Result.ok_bind, ha]
  rfl

/-- The size and the bytes of an aggregate, as both records store them. -/
theorem reads_aggregate {a : AggregateStats Binary64} (schema : UInt32)
    (ha : a.invariantError = none) :
    Reads (do
      let size ← Reader.u32
      let bytes ← Reader.byteVector size.toNat
      Wire.Reader.ofExcept (decodeAggregatePayload bytes schema))
      (appendU32 (UInt32.ofNat (aggregateBytes a schema).length) ++ aggregateBytes a schema) a := by
  refine (Reader.reads_u32 _).bind ?_
  rw [← List.append_nil (aggregateBytes a schema)]
  refine Reads.bind ?_ (reads_ofExcept (decodeAggregatePayload_aggregateBytes schema ha))
  have hsize : (UInt32.ofNat (aggregateBytes a schema).length).toNat
      = (aggregateBytes a schema).length := by
    rw [length_aggregateBytes]; rfl
  rw [List.append_nil, hsize]
  exact Reader.reads_byteVector _

/-- What `encode_block_record` has checked. -/
theorem encodeBlockRecord_eq_ok {record : DurableBlockRecord} {bytes : Bytes} :
    encodeBlockRecord record = .ok bytes ↔
      record.result.block.leaseEpoch ≠ 0 ∧
      aggregatePayloadHash record.result.aggregate record.result.statsSchemaVersion =
        .ok record.result.payloadChecksum ∧
      bytes = makeEnvelope kBlockMagic (blockRecordBytes record) := by
  unfold encodeBlockRecord
  constructor
  · intro h
    obtain ⟨_, hlease, checksum, hhash, _, hchecksum, hbytes⟩ := by
      simpa only [Result.bind_eq_ok] using h
    simp only [throwIf_eq_ok, decide_eq_false_iff_not, ne_eq, not_not] at hlease hchecksum
    refine ⟨hlease, by rw [hchecksum]; exact hhash, ?_⟩
    cases hbytes
    rfl
  · rintro ⟨hlease, hhash, rfl⟩
    simp only [hlease, hhash, decide_false, throwIf_false, Result.ok_bind, ne_eq,
      not_true_eq_false]
    rfl

theorem length_blockRecordBytes (record : DurableBlockRecord) :
    (blockRecordBytes record).length = 272 := by
  simp [blockRecordBytes]

/-- Every block record is 296 bytes long. -/
theorem length_encodeBlockRecord {record : DurableBlockRecord} {bytes : Bytes}
    (h : encodeBlockRecord record = .ok bytes) : bytes.length = 296 := by
  obtain ⟨-, -, rfl⟩ := encodeBlockRecord_eq_ok.mp h
  rw [length_makeEnvelope length_kBlockMagic, length_blockRecordBytes]
  rfl

theorem readsAll_readBlockRecord {record : DurableBlockRecord}
    (ha : record.result.aggregate.invariantError = none) :
    ReadsAll readBlockRecord (blockRecordBytes record) record := by
  obtain ⟨runId, ⟨⟨id, start, stop, inc, lease⟩, aggregate, specHash, layoutHash, build, checksum,
    rng, stats, worker⟩⟩ := record
  unfold blockRecordBytes readBlockRecord
  simp only at ha ⊢
  rw [← List.append_nil (appendDigest checksum)]
  simp only [List.append_assoc]
  refine (Reader.reads_digest _).andThen ((Reader.reads_digest _).andThen ?_)
  refine (Reader.reads_digest _).andThen ((Reader.reads_digest _).andThen ?_)
  refine (Reader.reads_u64 _).andThen ((Reader.reads_u64 _).andThen ?_)
  refine (Reader.reads_u64 _).andThen ((Reader.reads_u64 _).andThen ?_)
  refine (Reader.reads_u64 _).andThen ((Reader.reads_u64 _).andThen ?_)
  refine (Reader.reads_u32 _).andThen ((Reader.reads_u64 _).andThen ?_)
  have hagg := (reads_aggregate stats ha).andThen
    (f := fun aggregate => do
      let payloadChecksum ← Reader.digest
      Reader.finish
      pure (⟨runId, { block := ⟨id, start, stop, inc, lease⟩, aggregate := aggregate,
                      runSpecHash := specHash, executionLayoutHash := layoutHash,
                      buildFingerprint := build, payloadChecksum := payloadChecksum,
                      rngVersion := rng, statsSchemaVersion := stats, workerId := worker }⟩ :
        DurableBlockRecord))
    ((Reader.reads_digest checksum).andThen (Reader.readsAll_finish (ReadsAll.pure _)))
  simpa only [bind_assoc, List.append_assoc] using hagg

/-- A block record is read back unchanged. -/
theorem decodeBlockRecord_encodeBlockRecord {record : DurableBlockRecord} {bytes : Bytes}
    (h : encodeBlockRecord record = .ok bytes) : decodeBlockRecord bytes = .ok record := by
  have hlen := length_encodeBlockRecord h
  obtain ⟨hlease, hhash, rfl⟩ := encodeBlockRecord_eq_ok.mp h
  have hopen := openEnvelope_makeEnvelope (blockRecordBytes record)
    kMaxBlockRecordBytes length_kBlockMagic (by rw [hlen]; decide)
  obtain ⟨-, ha, -⟩ := aggregatePayloadHash_eq_ok.mp hhash
  have hread := Reader.decode_of_readsAll (readsAll_readBlockRecord ha)
  simp only [decodeBlockRecord, hopen, hread, hlease, hhash, decide_false, throwIf_false,
    Result.ok_bind, ne_eq, not_true_eq_false]
  rfl

/-! ## Manifests -/

theorem reads_readReserved (count : ℕ) : Reads (readReserved count) (List.replicate count 0) () := by
  induction count with
  | zero => exact Reads.pure ()
  | succ count ih =>
    exact (Reader.reads_u8 0).bind ((reads_require _ (by simp)).bind_nil ih)

theorem reads_readLeases {leases : List UInt64} (hzero : ∀ epoch ∈ leases, epoch ≠ 0) :
    Reads (readLeases leases.length) (leases.flatMap appendU64) leases := by
  induction leases with
  | nil => exact Reads.pure []
  | cons epoch rest ih =>
    have hrest := ih fun e he => hzero e (List.mem_cons_of_mem _ he)
    refine (Reader.reads_u64 epoch).bind (Reads.bind_nil (reads_require _ ?_) ?_)
    · simpa using hzero epoch List.mem_cons_self
    · exact hrest.map (fun tail => epoch :: tail)

/-- The entry loops of the encoder and of the decoder agree. -/
theorem reads_readEntries {blockCount incarnation : UInt64} {leases : List UInt64}
    {entries : List ManifestEntry} : ∀ {previous : Option UInt64},
    checkEntries blockCount incarnation leases previous entries = .ok () →
      Reads (readEntries blockCount incarnation leases entries.length previous)
        (entries.flatMap entryBytes) entries := by
  induction entries with
  | nil => intro previous _; exact Reads.pure []
  | cons entry rest ih =>
    intro previous h
    obtain ⟨_, hentry, hrest⟩ := Result.bind_eq_ok.mp h
    rw [throwIf_eq_ok] at hentry
    simp only [List.flatMap_cons, entryBytes, List.append_assoc]
    refine (Reader.reads_u64 _).bind ((Reader.reads_u64 _).bind ?_)
    refine (Reader.reads_u64 _).bind ((Reader.reads_digest _).bind ?_)
    refine (reads_require _ ?_).bind_nil ((ih hrest).map (fun tail => entry :: tail))
    rw [hentry]
    rfl

/-- Canonical entries have strictly increasing block numbers. -/
theorem checkEntries_pairwise {blockCount incarnation : UInt64} {leases : List UInt64}
    {entries : List ManifestEntry} : ∀ {previous : Option UInt64},
    checkEntries blockCount incarnation leases previous entries = .ok () →
      (∀ id ∈ previous, ∀ entry ∈ entries, id < entry.blockId) ∧
        entries.Pairwise (fun x y => x.blockId < y.blockId) ∧
        ∀ entry ∈ entries, entry.blockId < blockCount := by
  induction entries with
  | nil => intro previous _; simp
  | cons entry rest ih =>
    intro previous h
    obtain ⟨_, hentry, hrest⟩ := Result.bind_eq_ok.mp h
    rw [throwIf_eq_ok] at hentry
    simp only [entryNotCanonical, Bool.or_eq_false_iff, decide_eq_false_iff_not] at hentry
    obtain ⟨⟨⟨⟨⟨⟨hcount, -⟩, -⟩, -⟩, -⟩, -⟩, hprevious⟩ := hentry
    obtain ⟨hfirst, hpairwise, hbound⟩ := ih hrest
    have hfirst' := hfirst entry.blockId rfl
    refine ⟨?_, List.pairwise_cons.mpr ⟨hfirst', hpairwise⟩, ?_⟩
    · intro id hid e he
      have hlt : id < entry.blockId := by
        rw [Option.mem_def.mp hid] at hprevious
        simpa using hprevious
      rcases List.mem_cons.mp he with rfl | he
      · exact hlt
      · exact UInt64.lt_trans hlt (hfirst' e he)
    · intro e he
      rcases List.mem_cons.mp he with rfl | he
      · exact UInt64.not_le.mp hcount
      · exact hbound e he

theorem length_le_of_checkEntries {blockCount incarnation : UInt64} {leases : List UInt64}
    {entries : List ManifestEntry}
    (h : checkEntries blockCount incarnation leases none entries = .ok ()) :
    entries.length ≤ blockCount.toNat := by
  obtain ⟨-, hpairwise, hbound⟩ := checkEntries_pairwise h
  have hnodup : (entries.map fun e => e.blockId.toNat).Nodup := by
    rw [List.Nodup, List.pairwise_map]
    exact hpairwise.imp fun hlt => (UInt64.lt_iff_toNat_lt.mp hlt).ne
  have hsub : (entries.map fun e => e.blockId.toNat) ⊆ List.range blockCount.toNat := by
    intro i hi
    obtain ⟨e, he, rfl⟩ := List.mem_map.mp hi
    exact List.mem_range.mpr (UInt64.lt_iff_toNat_lt.mp (hbound e he))
  simpa using (hnodup.subperm hsub).length_le

theorem reads_readFailure {failure : Option FailureRecord} {bytes : Bytes}
    (h : failureBytes failure = .ok bytes) : Reads readFailure bytes failure := by
  cases failure with
  | none =>
    cases h
    rw [← List.append_nil (appendU8 0)]
    exact (Reader.reads_u8 0).bind ((reads_require _ (by decide)).bind_nil (Reads.pure none))
  | some failure =>
    obtain ⟨reason, hreason, hbytes⟩ := Result.bind_eq_ok.mp h
    cases hbytes
    simp only [List.append_assoc]
    refine (Reader.reads_u8 1).bind ((reads_require _ (by decide)).bind_nil ?_)
    refine (Reader.reads_u32 _).bind ?_
    refine (reads_ofExcept (validationStatus_statusCode _)).bind_nil ?_
    refine (Reader.reads_u64 _).bind ((Reader.reads_u64 _).bind ?_)
    refine (Reader.reads_u64 _).bind ((Reader.reads_digest _).bind ?_)
    refine (Reader.reads_digest _).bind ?_
    exact (reads_string hreason).map fun reason =>
      some { failure with reason := reason }

theorem length_leaseBytes (leases : List UInt64) :
    (leases.flatMap appendU64).length = 8 * leases.length := by
  simp [List.length_flatMap, Nat.mul_comm]

theorem length_entryBytes (entries : List ManifestEntry) :
    (entries.flatMap entryBytes).length = 56 * entries.length := by
  simp [List.length_flatMap, entryBytes, Nat.mul_comm]

/-- What `decode_manifest` checks of a manifest. -/
structure AcceptedManifest (manifest : RunManifest) : Prop where
  incarnation : manifest.runIncarnation ≠ 0
  blockCount : manifest.blockCount ≠ 0
  leases : manifest.leaseEpochs.length = manifest.blockCount.toNat
  leases_ne : ∀ epoch ∈ manifest.leaseEpochs, epoch ≠ 0
  failed : manifest.status = .failed ↔ manifest.failure.isSome
  complete : manifest.status = .complete →
    manifest.committedBlocks.length = manifest.blockCount.toNat
  entries : checkEntries manifest.blockCount manifest.runIncarnation manifest.leaseEpochs none
    manifest.committedBlocks = .ok ()
  aggregate : manifest.committedAggregate.invariantError = none
  reason : ∀ failure ∈ manifest.failure, failure.reason.length ≤ kMaxFailureReasonBytes.toNat

/-- What `encode_manifest` checks of a manifest: the statistics schema, too. -/
structure EncodableManifest (manifest : RunManifest) : Prop extends AcceptedManifest manifest where
  stats : manifest.statsSchemaVersion = kStatsSchemaVersion

/-- The payload of a manifest, given the bytes of its failure record. -/
def manifestPayload (manifest : RunManifest) (failure : Bytes) : Bytes :=
  let aggregate := aggregateBytes manifest.committedAggregate manifest.statsSchemaVersion
  manifestHeader manifest ++ manifest.leaseEpochs.flatMap appendU64
    ++ appendU64 (UInt64.ofNat manifest.committedBlocks.length)
    ++ manifest.committedBlocks.flatMap entryBytes
    ++ appendU32 (UInt32.ofNat aggregate.length) ++ aggregate ++ failure

theorem failureBytes_eq_ok {failure : Option FailureRecord} :
    (∃ bytes, failureBytes failure = .ok bytes) ↔
      ∀ f ∈ failure, f.reason.length ≤ kMaxFailureReasonBytes.toNat := by
  cases failure with
  | none => simp [failureBytes]
  | some f =>
    constructor
    · rintro ⟨bytes, h⟩ g hg
      cases hg
      obtain ⟨reason, hreason, -⟩ := Result.bind_eq_ok.mp h
      exact (appendString_eq_ok hreason).1
    · intro h
      have hle := h f rfl
      simp only [failureBytes, appendString, not_lt.mpr hle, ↓reduceIte, Result.ok_bind]
      exact ⟨_, rfl⟩

/-- The exact domain and value of `encode_manifest`. -/
theorem encodeManifest_eq_ok {manifest : RunManifest} {bytes : Bytes} :
    encodeManifest manifest = .ok bytes ↔
      EncodableManifest manifest ∧ ∃ failure, failureBytes manifest.failure = .ok failure ∧
        bytes = makeEnvelope kManifestMagic (manifestPayload manifest failure) := by
  constructor
  · intro h
    simp only [encodeManifest, Result.bind_eq_ok, throwIf_eq_ok, exists_const] at h
    obtain ⟨huniverse, hleases, hfailed, hother, hcomplete, ⟨⟩, hentries, h⟩ := h
    simp only [Bool.or_eq_false_iff, Bool.and_eq_false_iff, decide_eq_false_iff_not, not_not,
      ne_eq, List.any_eq_false, decide_eq_true_eq] at huniverse hleases hfailed hother hcomplete
    cases hagg : manifest.committedAggregate.invariantError with
    | some error => rw [hagg] at h; cases h
    | none =>
      rw [hagg] at h
      obtain ⟨aggregate, haggregate, h⟩ := Result.bind_eq_ok.mp h
      obtain ⟨failure, hfailure, h⟩ := Result.bind_eq_ok.mp h
      obtain ⟨hstats, -, rfl⟩ := encodeAggregatePayload_eq_ok.mp haggregate
      refine ⟨⟨⟨huniverse.1.1, huniverse.1.2, huniverse.2, hleases, ?_, ?_, hentries, hagg,
        failureBytes_eq_ok.mp ⟨failure, hfailure⟩⟩, hstats⟩, failure, hfailure, ?_⟩
      · cases hf : manifest.failure <;> simp_all
      · intro hc
        exact hcomplete.resolve_left (not_not.mpr hc)
      · cases h
        rfl
  · rintro ⟨hm, failure, hfailure, rfl⟩
    have haggregate := encodeAggregatePayload_eq_ok.mpr ⟨hm.stats, hm.aggregate, rfl⟩
    have hzero : (manifest.leaseEpochs.any fun epoch => decide (epoch = 0)) = false := by
      simpa [List.any_eq_false] using hm.leases_ne
    have hfailed : (decide (manifest.status = .failed) && manifest.failure.isNone) = false := by
      have := hm.failed
      cases hf : manifest.failure <;> simp_all
    have hother : (decide (manifest.status ≠ .failed) && manifest.failure.isSome) = false := by
      have := hm.failed
      cases hf : manifest.failure <;> simp_all
    have hcomplete : (decide (manifest.status = .complete)
        && decide (manifest.committedBlocks.length ≠ manifest.blockCount.toNat)) = false := by
      rw [Bool.and_eq_false_iff, decide_eq_false_iff_not, decide_eq_false_iff_not, not_not]
      by_cases hc : manifest.status = .complete
      · exact Or.inr (hm.complete hc)
      · exact Or.inl hc
    simp only [encodeManifest, hm.incarnation, hm.blockCount, hm.leases, hzero, hfailed, hother,
      hcomplete, hm.entries, hm.aggregate, haggregate, hfailure, ne_eq, not_true_eq_false,
      decide_false, Bool.or_self, throwIf_false, Result.ok_bind]
    rfl

theorem readsAll_readManifest {manifest : RunManifest} {failure : Bytes}
    (hm : AcceptedManifest manifest) (hfailure : failureBytes manifest.failure = .ok failure) :
    ReadsAll readManifest (manifestPayload manifest failure) manifest := by
  have hcount : UInt64.ofNat manifest.leaseEpochs.length = manifest.blockCount := by
    rw [hm.leases, UInt64.ofNat_toNat]
  have hcommitted : (UInt64.ofNat manifest.committedBlocks.length).toNat
      = manifest.committedBlocks.length := by
    rw [UInt64.toNat_ofNat']
    exact Nat.mod_eq_of_lt
      (lt_of_le_of_lt (length_le_of_checkEntries hm.entries) manifest.blockCount.toNat_lt)
  unfold manifestPayload manifestHeader readManifest
  rw [← List.append_nil failure, hcount]
  simp only [List.append_assoc]
  refine (Reader.reads_digest _).andThen ((Reader.reads_digest _).andThen ?_)
  refine (Reader.reads_digest _).andThen ((Reader.reads_digest _).andThen ?_)
  refine (Reader.reads_u64 _).andThen ((Reader.reads_u8 _).andThen ?_)
  refine (reads_ofExcept (durableStatus_code _)).check ((reads_readReserved 7).andThen ?_)
  refine (Reader.reads_u64 _).andThen ((Reader.reads_u64 _).andThen ?_)
  refine (Reader.reads_u32 _).andThen ((Reader.reads_u32 _).andThen ?_)
  refine (reads_require _ (by simp)).check ((Reader.reads_u64 _).andThen ?_)
  refine (Reader.reads_u64 _).andThen (ReadsAll.remaining ?_)
  refine (reads_require _ ?_).check ?_
  · simp only [hm.blockCount, ne_eq, not_false_eq_true, decide_true, Bool.and_self, Bool.true_and,
      decide_eq_true_eq]
    rw [Nat.le_div_iff_mul_le (by norm_num), List.length_append, length_leaseBytes, hm.leases]
    omega
  · have hleases := reads_readLeases hm.leases_ne
    rw [hm.leases] at hleases
    refine hleases.andThen ?_
    unfold readManifestBody
    simp only [bind_assoc]
    refine (Reader.reads_u64 _).andThen (ReadsAll.remaining ?_)
    refine (reads_require _ ?_).check ?_
    · rw [Bool.and_eq_true, decide_eq_true_eq, decide_eq_true_eq, UInt64.le_iff_toNat_le,
        hcommitted, Nat.le_div_iff_mul_le (by norm_num), List.length_append, length_entryBytes]
      exact ⟨length_le_of_checkEntries hm.entries, by omega⟩
    · rw [hcommitted]
      refine (reads_readEntries hm.entries).andThen ?_
      have hagg := (reads_aggregate manifest.statsSchemaVersion hm.aggregate).andThen
        (f := fun aggregate => do
          let failure ← readFailure
          let read ← pure (manifest.committedBlocks, aggregate, failure)
          Reader.finish
          pure { manifest with
            committedBlocks := read.1, committedAggregate := read.2.1, failure := read.2.2 })
        ((reads_readFailure hfailure).andThen (Reader.readsAll_finish (ReadsAll.pure _)))
      simpa only [bind_assoc, List.append_assoc] using hagg

/-- The size of an encoded manifest without a failure record. -/
theorem length_encodeManifest {manifest : RunManifest} {bytes : Bytes}
    (h : encodeManifest manifest = .ok bytes) (hf : manifest.failure = none) :
    bytes.length = 269 + 8 * manifest.leaseEpochs.length + 56 * manifest.committedBlocks.length := by
  obtain ⟨-, failure, hfailure, rfl⟩ := encodeManifest_eq_ok.mp h
  rw [hf] at hfailure
  cases hfailure
  rw [length_makeEnvelope length_kManifestMagic]
  simp only [manifestPayload, manifestHeader, List.length_append, length_leaseBytes,
    length_entryBytes, length_aggregateBytes, length_appendDigest, length_appendU64,
    length_appendU32, length_appendU8, List.length_replicate, envelopeOverhead]
  omega

/-- The payload of a manifest is read back, whatever its statistics schema. -/
theorem decodeManifest_manifestPayload {manifest : RunManifest} {failure : Bytes}
    {maxManifestBytes : UInt64} (hm : AcceptedManifest manifest)
    (hfailure : failureBytes manifest.failure = .ok failure)
    (hmin : 256 ≤ maxManifestBytes.toNat)
    (hmax : (makeEnvelope kManifestMagic (manifestPayload manifest failure)).length
      ≤ maxManifestBytes.toNat) :
    decodeManifest (makeEnvelope kManifestMagic (manifestPayload manifest failure))
      maxManifestBytes = .ok manifest := by
  have hopen := openEnvelope_makeEnvelope _ maxManifestBytes
    length_kManifestMagic hmax
  have hread := Reader.decode_of_readsAll (readsAll_readManifest hm hfailure)
  have hlimit : ¬ maxManifestBytes < 256 := by
    rw [UInt64.lt_iff_toNat_lt]
    exact not_lt.mpr hmin
  have hfailed : (decide (manifest.status = .failed) != manifest.failure.isSome) = false := by
    have := hm.failed
    cases hf : manifest.failure <;> simp_all
  have hcomplete : (decide (manifest.status = .complete)
      && decide (manifest.committedBlocks.length ≠ manifest.blockCount.toNat)) = false := by
    rw [Bool.and_eq_false_iff, decide_eq_false_iff_not, decide_eq_false_iff_not, not_not]
    by_cases hc : manifest.status = .complete
    · exact Or.inr (hm.complete hc)
    · exact Or.inl hc
  simp only [decodeManifest, hlimit, hopen, hread, hm.incarnation, hfailed, hcomplete, decide_false,
    Bool.or_self, throwIf_false, Result.ok_bind]
  rfl

/-- A manifest is read back unchanged, under every limit that admits its size. -/
theorem decodeManifest_encodeManifest {manifest : RunManifest} {bytes : Bytes}
    {maxManifestBytes : UInt64} (h : encodeManifest manifest = .ok bytes)
    (hmin : 256 ≤ maxManifestBytes.toNat) (hmax : bytes.length ≤ maxManifestBytes.toNat) :
    decodeManifest bytes maxManifestBytes = .ok manifest := by
  obtain ⟨hm, failure, hfailure, rfl⟩ := encodeManifest_eq_ok.mp h
  exact decodeManifest_manifestPayload hm.toAcceptedManifest hfailure hmin hmax

/-! ## Metadata -/

/-- The specification as it comes back from disk: a Heston run does not store the
volatility it does not use. -/
def RunSpec.persisted (spec : RunSpec) : RunSpec :=
  if spec.modelType = .gbm then spec else { spec with volatility := RunSpec.defaultVolatility }

namespace RunSpec

variable (spec : RunSpec)

/-- `persisted` changes nothing but the volatility of a run that is not GBM. -/
theorem persisted_eq :
    spec.persisted = spec ∨
      (spec.modelType ≠ .gbm ∧ spec.persisted = { spec with volatility := defaultVolatility }) := by
  by_cases h : spec.modelType = .gbm
  · exact Or.inl (by rw [persisted, if_pos h])
  · exact Or.inr ⟨h, by rw [persisted, if_neg h]⟩

theorem validate_persisted : spec.persisted.validate = spec.validate := by
  rcases spec.persisted_eq with h | ⟨hmodel, h⟩
  · rw [h]
  · rw [h]
    simp only [validate, validateModel, hmodel, ↓reduceIte]

theorem runSpecBytes_persisted : runSpecBytes spec.persisted = runSpecBytes spec := by
  rcases spec.persisted_eq with h | ⟨hmodel, h⟩
  · rw [h]
  · rw [h]
    simp only [runSpecBytes, modelTail, hmodel, ↓reduceIte]

theorem runSpecHash_persisted : runSpecHash spec.persisted = runSpecHash spec := by
  simp only [runSpecHash, encodeRunSpecPayload, validate_persisted, runSpecBytes_persisted]

theorem totalScenarios_persisted : spec.persisted.totalScenarios = spec.totalScenarios := by
  rcases spec.persisted_eq with h | ⟨-, h⟩ <;> rw [h]

theorem antithetic_persisted : spec.persisted.antithetic = spec.antithetic := by
  rcases spec.persisted_eq with h | ⟨-, h⟩ <;> rw [h]

theorem blockCount_persisted (blockSize : UInt64) :
    blockCount spec.persisted blockSize = blockCount spec blockSize := by
  rw [blockCount, totalScenarios_persisted, blockCount]

theorem engineValidate_persisted (config : EngineConfig) :
    config.validate spec.persisted = config.validate spec := by
  simp only [EngineConfig.validate, antithetic_persisted]

theorem executionLayoutHash_persisted (config : EngineConfig) :
    executionLayoutHash spec.persisted config = executionLayoutHash spec config := by
  simp only [executionLayoutHash, encodeExecutionLayoutPayload, validate_persisted,
    engineValidate_persisted, blockCount_persisted, runSpecHash_persisted]

theorem makeBlocks_persisted (config : EngineConfig) :
    makeBlocks spec.persisted config = makeBlocks spec config := by
  simp only [makeBlocks, validate_persisted, engineValidate_persisted, blockCount_persisted]
  have hblock : makeBlock spec.persisted config.blockSize = makeBlock spec config.blockSize := by
    funext index
    simp only [makeBlock, totalScenarios_persisted]
  rw [hblock]

end RunSpec

/-- A validated specification is one of the two models, with its parameters. -/
theorem RunSpec.model_of_validate {spec : RunSpec} (h : spec.validate = .ok ()) :
    (spec.modelType = .gbm ∧ spec.heston = none) ∨
      (spec.modelType = .heston ∧ ∃ heston, spec.heston = some heston) := by
  simp only [RunSpec.validate, Result.bind_eq_ok, throwIf_eq_ok, exists_const] at h
  obtain ⟨-, -, -, -, -, -, -, -, -, -, -, hmodel⟩ := h
  unfold RunSpec.validateModel at hmodel
  split at hmodel
  · rename_i hgbm
    obtain ⟨_, hheston, -⟩ := Result.bind_eq_ok.mp hmodel
    rw [throwIf_eq_ok, Option.isSome_eq_false_iff, Option.isNone_iff_eq_none] at hheston
    exact Or.inl ⟨hgbm, hheston⟩
  · split at hmodel
    · rename_i hheston
      cases hp : spec.heston with
      | none => rw [hp] at hmodel; cases hmodel
      | some heston => exact Or.inr ⟨hheston, heston, rfl⟩
    · cases hmodel

/-- The model parameters are read back. -/
theorem reads_readModelTail {spec : RunSpec} (h : spec.validate = .ok ()) :
    Reads (readModelTail spec.modelType) (modelTail spec)
      (spec.persisted.volatility, spec.persisted.heston) := by
  rcases RunSpec.model_of_validate h with ⟨hmodel, hheston⟩ | ⟨hmodel, heston, hheston⟩
  · have hp : spec.persisted = spec := by rw [RunSpec.persisted, if_pos hmodel]
    rw [hp, readModelTail, modelTail, if_pos hmodel, if_pos hmodel, hheston]
    exact (Reader.reads_binary64 _).map fun volatility => (volatility, none)
  · have hne : spec.modelType ≠ .gbm := by rw [hmodel]; decide
    have hp : spec.persisted = { spec with volatility := RunSpec.defaultVolatility } := by
      rw [RunSpec.persisted, if_neg hne]
    rw [hp, readModelTail, modelTail, if_neg hne, if_neg hne, if_pos hmodel, hheston]
    simp only [List.append_assoc]
    refine (Reader.reads_u32 _).bind ((Reader.reads_binary64 _).bind ?_)
    refine (Reader.reads_binary64 _).bind ((Reader.reads_binary64 _).bind ?_)
    refine (Reader.reads_binary64 _).bind ?_
    exact (Reader.reads_binary64 _).map fun correlation =>
      (RunSpec.defaultVolatility, some { heston with correlation := correlation })

theorem readsAll_readRunSpec {spec : RunSpec} (h : spec.validate = .ok ()) :
    ReadsAll readRunSpec (runSpecBytes spec) spec.persisted := by
  have hfields : spec.persisted =
      { spec with
        volatility := spec.persisted.volatility, heston := spec.persisted.heston } := by
    rcases spec.persisted_eq with h | ⟨-, h⟩ <;> rw [h]
  have hflag : (if spec.antithetic then (1 : UInt8) else 0) ≤ 1 := by split <;> decide
  have hanti : decide ((if spec.antithetic then (1 : UInt8) else 0) = 1) = spec.antithetic := by
    cases spec.antithetic <;> decide
  unfold runSpecBytes readRunSpec
  rw [← List.append_nil (modelTail spec)]
  simp only [List.append_assoc]
  refine (Reader.reads_u32 _).andThen ((reads_require _ (by simp)).check ?_)
  refine (Reader.reads_u64 _).andThen ((Reader.reads_u64 _).andThen ?_)
  refine (Reader.reads_u32 _).andThen ((Reader.reads_u8 _).andThen ?_)
  refine (Reader.reads_u8 _).andThen ((Reader.reads_u8 _).andThen ?_)
  refine (reads_require _ (by simpa using hflag)).check ((Reader.reads_u8 _).andThen ?_)
  refine (reads_require _ (by simp)).check ((Reader.reads_u64 _).andThen ?_)
  refine (Reader.reads_u64 _).andThen ((Reader.reads_u32 _).andThen ?_)
  refine (Reader.reads_binary64 _).andThen ((Reader.reads_binary64 _).andThen ?_)
  refine (Reader.reads_binary64 _).andThen ((Reader.reads_binary64 _).andThen ?_)
  refine (reads_readModelTail h).andThen (Reader.readsAll_finish ?_)
  rw [hanti, hfields]
  exact ReadsAll.pure _

theorem decodeRunSpecPayload_runSpecBytes {spec : RunSpec} (h : spec.validate = .ok ()) :
    decodeRunSpecPayload (runSpecBytes spec) = .ok spec.persisted := by
  rw [decodeRunSpecPayload, Reader.decode_of_readsAll (readsAll_readRunSpec h)]
  simp only [Result.ok_bind, RunSpec.validate_persisted, h]
  rfl

/-- The persisted metadata of a specification whose layout is consistent. -/
def RunMetadata.persisted (metadata : RunMetadata) : RunMetadata :=
  { metadata with spec := metadata.spec.persisted }

theorem length_modelTail_le (spec : RunSpec) : (modelTail spec).length ≤ 44 := by
  unfold modelTail
  split
  · simp
  · split <;> simp

theorem length_runSpecBytes_le (spec : RunSpec) : (runSpecBytes spec).length ≤ 124 := by
  have := length_modelTail_le spec
  simp only [runSpecBytes, List.length_append, length_appendU32, length_appendU64, length_appendU8,
    length_appendDouble]
  omega

/-- The payload of the metadata file, given the bytes of its build description. -/
def metadataPayload (metadata : RunMetadata) (description : Bytes) : Bytes :=
  let specBytes := runSpecBytes metadata.spec
  appendDigest metadata.runId ++ appendU32 (UInt32.ofNat specBytes.length) ++ specBytes
    ++ appendU64 metadata.blockSize ++ appendU64 metadata.blockCount
    ++ appendDigest metadata.runSpecHash ++ appendDigest metadata.executionLayoutHash
    ++ appendDigest metadata.buildFingerprint ++ description

/-- What `encode_run_metadata` has checked. -/
theorem encodeRunMetadata_eq_ok {metadata : RunMetadata} {bytes : Bytes}
    (h : encodeRunMetadata metadata = .ok bytes) :
    metadata.spec.validate = .ok () ∧ metadata.blockSize ≠ 0 ∧ metadata.blockCount ≠ 0 ∧
      runSpecHash metadata.spec = .ok metadata.runSpecHash ∧
      metadata.runId = durableRunId metadata.runSpecHash metadata.executionLayoutHash ∧
      metadata.buildDescription ≠ [] ∧
      sha256 metadata.buildDescription = metadata.buildFingerprint ∧
      ∃ description,
        appendString metadata.buildDescription kMaxBuildDescriptionBytes = .ok description ∧
        bytes = makeEnvelope kMetadataMagic (metadataPayload metadata description) := by
  simp only [encodeRunMetadata, Result.bind_eq_ok, throwIf_eq_ok, exists_const] at h
  obtain ⟨⟨⟩, hspec, hlayout, specHash, hhash, hidentity, hbuild, specBytes, hspecBytes,
    description, hdescription, hbytes⟩ := h
  simp only [Bool.or_eq_false_iff, decide_eq_false_iff_not, ne_eq, not_not,
    List.isEmpty_eq_false_iff] at hlayout hidentity hbuild
  obtain ⟨⟨⟩, -, hspecBytes⟩ := Result.bind_eq_ok.mp hspecBytes
  cases hspecBytes
  cases hbytes
  exact ⟨hspec, hlayout.1, hlayout.2, by rw [hidentity.1]; exact hhash, hidentity.2, hbuild.1,
    hbuild.2, description, hdescription, rfl⟩

theorem readsAll_readRunMetadata {metadata : RunMetadata} {description : Bytes}
    (hspec : metadata.spec.validate = .ok ())
    (hdescription : appendString metadata.buildDescription kMaxBuildDescriptionBytes =
      .ok description) :
    ReadsAll readRunMetadata (metadataPayload metadata description) metadata.persisted := by
  have hsize : (UInt32.ofNat (runSpecBytes metadata.spec).length).toNat
      = (runSpecBytes metadata.spec).length := by
    rw [UInt32.toNat_ofNat']
    exact Nat.mod_eq_of_lt
      (lt_of_le_of_lt (length_runSpecBytes_le metadata.spec) (by norm_num))
  have hbytes : Reads (Reader.byteVector (UInt32.ofNat (runSpecBytes metadata.spec).length).toNat)
      (runSpecBytes metadata.spec) (runSpecBytes metadata.spec) := by
    rw [hsize]
    exact Reader.reads_byteVector _
  unfold metadataPayload readRunMetadata
  rw [← List.append_nil description]
  simp only [List.append_assoc]
  refine (Reader.reads_digest _).andThen ((Reader.reads_u32 _).andThen ?_)
  refine hbytes.andThen ?_
  refine (reads_ofExcept (decodeRunSpecPayload_runSpecBytes hspec)).check ?_
  refine (Reader.reads_u64 _).andThen ((Reader.reads_u64 _).andThen ?_)
  refine (Reader.reads_digest _).andThen ((Reader.reads_digest _).andThen ?_)
  refine (Reader.reads_digest _).andThen ((reads_string hdescription).andThen ?_)
  exact Reader.readsAll_finish (ReadsAll.pure _)

/-- Metadata is small. -/
theorem length_encodeRunMetadata {metadata : RunMetadata} {bytes : Bytes}
    (h : encodeRunMetadata metadata = .ok bytes) : bytes.length ≤ 1024 * 1024 := by
  obtain ⟨-, -, -, -, -, -, -, description, hdescription, rfl⟩ := encodeRunMetadata_eq_ok h
  obtain ⟨hle, hd⟩ := appendString_eq_ok hdescription
  have hspecLen := length_runSpecBytes_le metadata.spec
  have hmax : kMaxBuildDescriptionBytes.toNat = 65536 := by decide
  rw [length_makeEnvelope length_kMetadataMagic]
  simp only [metadataPayload, hd, List.length_append, length_appendDigest, length_appendU32,
    length_appendU64, envelopeOverhead]
  omega

/-- Metadata with a consistent layout is read back, up to an unused volatility. -/
theorem decodeRunMetadata_encodeRunMetadata {metadata : RunMetadata} {bytes : Bytes}
    (h : encodeRunMetadata metadata = .ok bytes)
    (hcount : metadata.blockCount = blockCount metadata.spec metadata.blockSize)
    (hlayout : executionLayoutHash metadata.spec
      (layoutConfig metadata.blockSize metadata.blockCount) = .ok metadata.executionLayoutHash) :
    decodeRunMetadata bytes = .ok metadata.persisted ∧ bytes.length ≤ 1024 * 1024 := by
  have hlen := length_encodeRunMetadata h
  obtain ⟨hspec, hsize, hblocks, hhash, hid, hdesc, hbuild, description, hdescription, rfl⟩ :=
    encodeRunMetadata_eq_ok h
  have hopen := openEnvelope_makeEnvelope _ kMaxMetadataBytes
    length_kMetadataMagic hlen
  have hread := Reader.decode_of_readsAll (readsAll_readRunMetadata hspec hdescription)
  refine ⟨?_, hlen⟩
  have hdesc' : metadata.buildDescription.isEmpty = false := List.isEmpty_eq_false_iff.mpr hdesc
  simp only [decodeRunMetadata, hopen, hread, Result.ok_bind]
  simp only [RunMetadata.persisted, hsize, hblocks, RunSpec.runSpecHash_persisted, hhash, ← hid,
    RunSpec.blockCount_persisted, ← hcount, RunSpec.executionLayoutHash_persisted, hlayout, hdesc',
    hbuild, ne_eq, not_true_eq_false, decide_false, Bool.or_self, throwIf_false, Result.ok_bind]
  rfl

/-! ## Both records -/

/-- Decoding undoes encoding, for block records and for manifests of any size. -/
theorem decode_undoes_encode :
    (∀ record bytes, encodeBlockRecord record = .ok bytes →
      decodeBlockRecord bytes = .ok record) ∧
    ∀ manifest bytes (maxManifestBytes : UInt64), encodeManifest manifest = .ok bytes →
      256 ≤ maxManifestBytes → bytes.length ≤ maxManifestBytes.toNat →
      decodeManifest bytes maxManifestBytes = .ok manifest := by
  refine ⟨fun record bytes h => decodeBlockRecord_encodeBlockRecord h, ?_⟩
  intro manifest bytes maxManifestBytes h hmin hmax
  exact decodeManifest_encodeManifest h (UInt64.le_iff_toNat_le.mp hmin) hmax

/-- A digest of zeros. -/
def zeroDigest : Sha256Digest := Vector.replicate 32 0

/-- The record of a block with one scenario that pays one. -/
def unitRecord : DurableBlockRecord where
  runId := zeroDigest
  result :=
    { block := ⟨0, 0, 1, 1, 1⟩
      aggregate := ⟨1, 1, 0, 1, 1⟩
      runSpecHash := zeroDigest
      executionLayoutHash := zeroDigest
      buildFingerprint := zeroDigest
      payloadChecksum := sha256 (aggregateBytes ⟨1, 1, 0, 1, 1⟩ kStatsSchemaVersion)
      rngVersion := kRngVersion
      statsSchemaVersion := kStatsSchemaVersion
      workerId := 0 }

/-- A failed run of two blocks, one of them committed. -/
def failedManifest : RunManifest where
  runId := zeroDigest
  runSpecHash := zeroDigest
  executionLayoutHash := zeroDigest
  buildFingerprint := zeroDigest
  sequence := 3
  status := .failed
  runIncarnation := 2
  rngVersion := kRngVersion
  statsSchemaVersion := kStatsSchemaVersion
  blockCount := 2
  leaseEpochs := [2, 2]
  committedBlocks := [⟨0, 1, 1, zeroDigest⟩]
  committedAggregate := ⟨1, 1, 0, 1, 1⟩
  failure := some
    { status := .corruptPayload
      blockId := 1
      runIncarnation := 2
      leaseEpoch := 2
      observedChecksum := zeroDigest
      committedChecksum := zeroDigest
      reason := [120] }

theorem unitAggregate_invariantError :
    (⟨1, 1, 0, 1, 1⟩ : AggregateStats Binary64).invariantError = none := by
  decide +kernel

theorem encodableManifest_failedManifest : EncodableManifest failedManifest where
  incarnation := by decide
  blockCount := by decide
  leases := rfl
  leases_ne := by simp [failedManifest]
  failed := by simp [failedManifest]
  complete := by simp [failedManifest]
  entries := by decide
  aggregate := unitAggregate_invariantError
  stats := rfl
  reason := by
    intro failure hfailure
    cases hfailure
    decide

theorem encodeBlockRecord_unitRecord : ∃ bytes, encodeBlockRecord unitRecord = .ok bytes := by
  have hlease : unitRecord.result.block.leaseEpoch ≠ 0 := by decide
  have hhash : aggregatePayloadHash unitRecord.result.aggregate
      unitRecord.result.statsSchemaVersion = .ok unitRecord.result.payloadChecksum :=
    aggregatePayloadHash_eq_ok.mpr ⟨rfl, unitAggregate_invariantError, rfl⟩
  exact ⟨_, encodeBlockRecord_eq_ok.mpr ⟨hlease, hhash, rfl⟩⟩

theorem encodeManifest_failedManifest :
    ∃ bytes, encodeManifest failedManifest = .ok bytes ∧ bytes.length ≤ 1024 := by
  refine ⟨_, encodeManifest_eq_ok.mpr ⟨encodableManifest_failedManifest, _, rfl, rfl⟩, ?_⟩
  rw [length_makeEnvelope length_kManifestMagic]
  simp only [manifestPayload, manifestHeader, List.length_append, length_leaseBytes,
    length_entryBytes, length_aggregateBytes, length_appendDigest, length_appendU64,
    length_appendU32, length_appendU8, List.length_replicate, envelopeOverhead]
  decide

/-- One record and one failed manifest, written and read back. -/
theorem decode_undoes_encode_failed_run :
    (∃ bytes, encodeBlockRecord unitRecord = .ok bytes ∧
      decodeBlockRecord bytes = .ok unitRecord) ∧
    ∃ bytes, encodeManifest failedManifest = .ok bytes ∧
      decodeManifest bytes 1024 = .ok failedManifest := by
  obtain ⟨record, hrecord⟩ := encodeBlockRecord_unitRecord
  obtain ⟨manifest, hmanifest, hlength⟩ := encodeManifest_failedManifest
  exact ⟨⟨record, hrecord, decode_undoes_encode.1 _ _ hrecord⟩,
    ⟨manifest, hmanifest, decode_undoes_encode.2 _ _ 1024 hmanifest (by decide) hlength⟩⟩

end MonteCarlo
