import MonteCarlo.Persistence.Accepted

/-!
# Canonical encodings

Encoder and decoder of a durable record check it separately.  Here the two are compared on every
byte string the decoder accepts, and on every record the encoder accepts.

* `records_canonical` — metadata and block records re-encode to the bytes they were read from, and
  the payload of a specification determines its active fields.
* `decodeManifest_canonical_iff` — a manifest does so exactly when it carries the one supported
  statistics schema; `decode_manifest` compares the schema of the aggregate with the manifest's own
  field and with nothing else.
* `decodeRunMetadata_encode_iff` — which of the metadata that `encode_run_metadata` accepts can
  be read again: the encoder checks neither the block count nor the layout hash.
-/

namespace MonteCarlo

open Wire

/-! ## What the encoder of the metadata lets through -/

/-- The bytes of `encode_run_metadata` decode to the metadata, up to an unused volatility, exactly
when the block count and the layout hash are those of the specification and the block size. -/
theorem decodeRunMetadata_encode_iff {metadata : RunMetadata} {bytes : Bytes}
    (h : encodeRunMetadata metadata = .ok bytes) :
    decodeRunMetadata bytes = .ok metadata.persisted ↔
      metadata.blockCount = blockCount metadata.spec metadata.blockSize ∧
        executionLayoutHash metadata.spec (layoutConfig metadata.blockSize metadata.blockCount)
          = .ok metadata.executionLayoutHash := by
  constructor
  · intro hdecode
    have haccepted := decodeRunMetadata_accepted hdecode
    have hcount := haccepted.blockCount
    have hlayout := haccepted.layoutHash
    simp only [RunMetadata.persisted, RunSpec.blockCount_persisted] at hcount
    simp only [RunMetadata.persisted, RunSpec.executionLayoutHash_persisted] at hlayout
    exact ⟨hcount, hlayout⟩
  · rintro ⟨hcount, hlayout⟩
    exact (decodeRunMetadata_encodeRunMetadata h hcount hlayout).1

/-- Metadata of the default specification in blocks of 100000 scenarios, which are one block,
with a given block count and layout hash. -/
def defaultMetadata (count : UInt64) (layoutHash : Sha256Digest) : RunMetadata where
  runId := durableRunId (sha256 (runSpecBytes .defaults)) layoutHash
  spec := .defaults
  blockSize := 100000
  blockCount := count
  runSpecHash := sha256 (runSpecBytes .defaults)
  executionLayoutHash := layoutHash
  buildFingerprint := sha256 [66]
  buildDescription := [66]

theorem runSpecHash_defaults : runSpecHash .defaults = .ok (sha256 (runSpecBytes .defaults)) := by
  have hvalid : RunSpec.defaults.validate = .ok () := by decide
  rw [runSpecHash, encodeRunSpecPayload, hvalid]
  rfl

theorem encodeRunMetadata_defaultMetadata {count : UInt64} (layoutHash : Sha256Digest)
    (hcount : count ≠ 0) :
    ∃ bytes, encodeRunMetadata (defaultMetadata count layoutHash) = .ok bytes := by
  have hvalid : RunSpec.defaults.validate = .ok () := by decide
  have hdescription : ∃ description,
      appendString [66] kMaxBuildDescriptionBytes = .ok description := ⟨_, rfl⟩
  obtain ⟨description, hdescription⟩ := hdescription
  have hsize : (100000 : UInt64) ≠ 0 := by decide
  simp only [encodeRunMetadata, defaultMetadata, hvalid, runSpecHash_defaults, hcount, hsize,
    hdescription, encodeRunSpecPayload, ne_eq, not_true_eq_false, decide_false, Bool.or_self,
    List.isEmpty_cons, throwIf_false, Result.ok_bind]
  exact ⟨_, rfl⟩

theorem executionLayoutHash_defaults :
    ∃ layoutHash, executionLayoutHash .defaults (layoutConfig 100000 1) = .ok layoutHash := by
  have hvalid : RunSpec.defaults.validate = .ok () := by decide
  have hconfig : (layoutConfig 100000 1).validate .defaults = .ok () := by decide
  have hlimit : decide ((layoutConfig 100000 1).maxMaterializedBlocks
      < blockCount .defaults (layoutConfig 100000 1).blockSize) = false := by decide
  simp only [executionLayoutHash, encodeExecutionLayoutPayload, hvalid, hconfig, hlimit,
    runSpecHash_defaults, throwIf_false, Result.ok_bind]
  exact ⟨_, rfl⟩

/-- The default specification with its own layout is written and read back. -/
theorem decodeRunMetadata_encode_defaults :
    ∃ layoutHash bytes, encodeRunMetadata (defaultMetadata 1 layoutHash) = .ok bytes ∧
      decodeRunMetadata bytes = .ok (defaultMetadata 1 layoutHash).persisted := by
  obtain ⟨layoutHash, hlayout⟩ := executionLayoutHash_defaults
  obtain ⟨bytes, hencode⟩ := encodeRunMetadata_defaultMetadata layoutHash
    (by decide : (1 : UInt64) ≠ 0)
  refine ⟨layoutHash, bytes, hencode, (decodeRunMetadata_encode_iff hencode).mpr ⟨?_, hlayout⟩⟩
  exact (by decide : (1 : UInt64) = blockCount .defaults 100000)

/-- Two blocks announced for a run of one: the encoder writes it, the decoder refuses it. -/
theorem decodeRunMetadata_refuses_miscounted :
    ∃ bytes, encodeRunMetadata (defaultMetadata 2 (sha256 [])) = .ok bytes ∧
      decodeRunMetadata bytes ≠ .ok (defaultMetadata 2 (sha256 [])).persisted := by
  obtain ⟨bytes, hencode⟩ := encodeRunMetadata_defaultMetadata (sha256 [])
    (by decide : (2 : UInt64) ≠ 0)
  refine ⟨bytes, hencode, fun hdecode => ?_⟩
  have hcount := (decodeRunMetadata_accepted hdecode).blockCount
  simp only [RunMetadata.persisted, RunSpec.blockCount_persisted] at hcount
  exact absurd hcount (by decide : (2 : UInt64) ≠ blockCount .defaults 100000)

/-! ## Metadata and block records -/

/-- The payload of a specification determines everything but an unused volatility. -/
theorem encodeRunSpecPayload_injective {a b : RunSpec} {bytes : Bytes}
    (ha : encodeRunSpecPayload a = .ok bytes) (hb : encodeRunSpecPayload b = .ok bytes) :
    a.persisted = b.persisted := by
  obtain ⟨⟨⟩, hvalidA, hbytesA⟩ := Result.bind_eq_ok.mp ha
  obtain ⟨⟨⟩, hvalidB, hbytesB⟩ := Result.bind_eq_ok.mp hb
  cases hbytesA
  have hdecode := decodeRunSpecPayload_runSpecBytes hvalidB
  rw [Except.ok.inj hbytesB, decodeRunSpecPayload_runSpecBytes hvalidA] at hdecode
  exact Except.ok.inj hdecode

/-- Decoded metadata and block records encode to the bytes they were read from, and the payload of
a valid specification determines its active fields. -/
theorem records_canonical :
    (∀ bytes metadata, decodeRunMetadata bytes = .ok metadata →
      encodeRunMetadata metadata = .ok bytes) ∧
    (∀ bytes record, decodeBlockRecord bytes = .ok record →
      encodeBlockRecord record = .ok bytes) ∧
    ∀ a b bytes, encodeRunSpecPayload a = .ok bytes → encodeRunSpecPayload b = .ok bytes →
      a.persisted = b.persisted := by
  refine ⟨fun bytes metadata h => (encodeRunMetadata_of_decode h).1, ?_, ?_⟩
  · exact fun bytes record h => decodeBlockRecord_accepted h
  · exact fun a b bytes ha hb => encodeRunSpecPayload_injective ha hb

/-- A Heston run of the default size, with a volatility that it does not use. -/
def hestonSpec (volatility : Binary64) : RunSpec :=
  { RunSpec.defaults with
    modelType := .heston
    heston := some ⟨1, 1, 1, 1, 0, kHestonDiscretizationVersion⟩
    volatility := volatility }

theorem encodeRunSpecPayload_hestonSpec (volatility : Binary64) :
    encodeRunSpecPayload (hestonSpec volatility) = .ok (runSpecBytes (hestonSpec 0)) := by
  have hmodel : (hestonSpec volatility).modelType ≠ .gbm :=
    show (.heston : ModelType) ≠ .gbm by decide
  have hpersisted : (hestonSpec volatility).persisted = (hestonSpec 0).persisted := by
    rw [RunSpec.persisted, if_neg hmodel]
    rfl
  have hvalid : (hestonSpec 0).validate = .ok () := by decide
  rw [encodeRunSpecPayload, ← RunSpec.validate_persisted, ← RunSpec.runSpecBytes_persisted,
    hpersisted, RunSpec.validate_persisted, RunSpec.runSpecBytes_persisted, hvalid]
  rfl

/-- Metadata, a record, and two specifications that differ in a volatility they do not use. -/
theorem records_canonical_defaults :
    (∃ bytes metadata, decodeRunMetadata bytes = .ok metadata ∧
      encodeRunMetadata metadata = .ok bytes) ∧
    (∃ bytes, decodeBlockRecord bytes = .ok unitRecord ∧
      encodeBlockRecord unitRecord = .ok bytes) ∧
    (hestonSpec 0).persisted = (hestonSpec 1).persisted := by
  obtain ⟨layoutHash, hlayout⟩ := executionLayoutHash_defaults
  obtain ⟨bytes, hencode⟩ := encodeRunMetadata_defaultMetadata layoutHash
    (by decide : (1 : UInt64) ≠ 0)
  obtain ⟨hdecode, -⟩ := decodeRunMetadata_encodeRunMetadata hencode
    (by decide : (1 : UInt64) = blockCount .defaults 100000) hlayout
  obtain ⟨record, hrecord⟩ := encodeBlockRecord_unitRecord
  have hread := decodeBlockRecord_encodeBlockRecord hrecord
  refine ⟨⟨bytes, _, hdecode, records_canonical.1 _ _ hdecode⟩,
    ⟨record, hread, records_canonical.2.1 _ _ hread⟩, ?_⟩
  exact records_canonical.2.2 _ _ _ (encodeRunSpecPayload_hestonSpec 0)
    (encodeRunSpecPayload_hestonSpec 1)

/-! ## Manifests -/

/-- The four bytes of an encoded manifest that hold its statistics schema. -/
def statsSchemaField (bytes : Bytes) : Bytes := (bytes.drop 180).take 4

theorem makeEnvelope_split (magic payload : Bytes) :
    ∃ head tail, makeEnvelope magic payload = head ++ (payload ++ tail) ∧
      head.length = magic.length + 12 := by
  refine ⟨magic ++ appendU32 kStorageSchemaVersion ++ appendU64 (UInt64.ofNat payload.length), _,
    List.append_assoc _ _ _, ?_⟩
  simp only [List.length_append, length_appendU32, length_appendU64]

theorem manifestPayload_split (manifest : RunManifest) (failure : Bytes) :
    ∃ head tail, manifestPayload manifest failure =
      head ++ (appendU32 manifest.statsSchemaVersion ++ tail) ∧ head.length = 160 := by
  have hheader : ∃ head tail, manifestHeader manifest =
      head ++ (appendU32 manifest.statsSchemaVersion ++ tail) ∧ head.length = 160 := by
    refine ⟨appendDigest manifest.runId ++ appendDigest manifest.runSpecHash
      ++ appendDigest manifest.executionLayoutHash ++ appendDigest manifest.buildFingerprint
      ++ appendU64 manifest.sequence ++ appendU8 manifest.status.code ++ List.replicate 7 0
      ++ appendU64 manifest.runIncarnation ++ appendU64 manifest.rngVersion,
      appendU32 0 ++ appendU64 manifest.blockCount
      ++ appendU64 (UInt64.ofNat manifest.leaseEpochs.length), ?_, ?_⟩
    · simp only [manifestHeader, List.append_assoc]
    · simp only [List.length_append, length_appendU64, length_appendDigest, length_appendU8,
        List.length_replicate]
  obtain ⟨head, tail, hsplit, hlength⟩ := hheader
  have hrest : ∃ rest, manifestPayload manifest failure = manifestHeader manifest ++ rest := by
    simp only [manifestPayload, List.append_assoc]
    exact ⟨_, rfl⟩
  obtain ⟨rest, hrest⟩ := hrest
  refine ⟨head, tail ++ rest, ?_, hlength⟩
  rw [hrest, hsplit]
  simp only [List.append_assoc]

theorem statsSchemaField_manifestPayload (manifest : RunManifest) (failure : Bytes) :
    statsSchemaField (makeEnvelope kManifestMagic (manifestPayload manifest failure)) =
      appendU32 manifest.statsSchemaVersion := by
  obtain ⟨head, tail, hpayload, hlength⟩ := manifestPayload_split manifest failure
  obtain ⟨outer, crc, henvelope, houter⟩ :=
    makeEnvelope_split kManifestMagic (manifestPayload manifest failure)
  have hbytes : makeEnvelope kManifestMagic (manifestPayload manifest failure) =
      (outer ++ head) ++ (appendU32 manifest.statsSchemaVersion ++ (tail ++ crc)) := by
    rw [henvelope, hpayload]
    simp only [List.append_assoc]
  have hoffset : (outer ++ head).length = 180 := by
    rw [List.length_append, houter, hlength, length_kManifestMagic]
  rw [statsSchemaField, hbytes, List.drop_left' hoffset, List.take_left' (length_appendU32 _)]

theorem appendU32_injective {a b : UInt32} (h : appendU32 a = appendU32 b) : a = b := by
  have ha := (Reader.reads_u32 a).run
  rw [h, (Reader.reads_u32 b).run] at ha
  exact (congrArg Prod.fst (Except.ok.inj ha)).symm

/-- A decoded manifest encodes to the bytes it was read from exactly when these carry the supported
statistics schema; in any case no other bytes decode to it. -/
theorem decodeManifest_canonical_iff {bytes : Bytes} {maxManifestBytes : UInt64}
    {manifest : RunManifest} (h : decodeManifest bytes maxManifestBytes = .ok manifest) :
    (encodeManifest manifest = .ok bytes ↔
      statsSchemaField bytes = appendU32 kStatsSchemaVersion) ∧
    ∀ other limit, decodeManifest other limit = .ok manifest → other = bytes := by
  obtain ⟨haccepted, failure, hfailure, hbytes⟩ := decodeManifest_eq_ok h
  have hfield : statsSchemaField bytes = appendU32 manifest.statsSchemaVersion := by
    rw [hbytes, statsSchemaField_manifestPayload]
  refine ⟨⟨fun hencode => ?_, fun hschema => ?_⟩, fun other limit hother => ?_⟩
  · obtain ⟨hencodable, -⟩ := encodeManifest_eq_ok.mp hencode
    rw [hfield, hencodable.stats]
  · have hstats := appendU32_injective (hfield.symm.trans hschema)
    exact encodeManifest_eq_ok.mpr ⟨⟨haccepted, hstats⟩, failure, hfailure, hbytes⟩
  · obtain ⟨-, otherFailure, hotherFailure, hotherBytes⟩ := decodeManifest_eq_ok hother
    rw [hfailure] at hotherFailure
    cases hotherFailure
    rw [hotherBytes, hbytes]

/-- The failed run of two blocks carries the supported schema, and is canonical. -/
theorem decodeManifest_canonical_failed_run :
    ∃ bytes, decodeManifest bytes 1024 = .ok failedManifest ∧
      statsSchemaField bytes = appendU32 kStatsSchemaVersion ∧
      encodeManifest failedManifest = .ok bytes := by
  obtain ⟨bytes, hencode, hlength⟩ := encodeManifest_failedManifest
  have hdecode : decodeManifest bytes 1024 = .ok failedManifest :=
    decodeManifest_encodeManifest hencode (by decide) hlength
  obtain ⟨-, failure, -, hbytes⟩ := decodeManifest_eq_ok hdecode
  have hschema : statsSchemaField bytes = appendU32 kStatsSchemaVersion := by
    rw [hbytes, statsSchemaField_manifestPayload]
    rfl
  exact ⟨bytes, hdecode, hschema, (decodeManifest_canonical_iff hdecode).1.mpr hschema⟩

/-- The same manifest with statistics schema 2 is decoded, and cannot be encoded. -/
theorem decodeManifest_accepts_unknown_schema :
    ∃ bytes, decodeManifest bytes 1024 = .ok { failedManifest with statsSchemaVersion := 2 } ∧
      ∀ other, encodeManifest { failedManifest with statsSchemaVersion := 2 } ≠ .ok other := by
  have haccepted : AcceptedManifest { failedManifest with statsSchemaVersion := 2 } :=
    { encodableManifest_failedManifest with }
  refine ⟨_, decodeManifest_manifestPayload haccepted rfl (by decide) ?_, ?_⟩
  · rw [length_makeEnvelope length_kManifestMagic]
    simp only [manifestPayload, manifestHeader, List.length_append, length_leaseBytes,
      length_entryBytes, length_aggregateBytes, length_appendDigest, length_appendU64,
      length_appendU32, length_appendU8, List.length_replicate, envelopeOverhead]
    decide
  · intro other hencode
    obtain ⟨hencodable, -⟩ := encodeManifest_eq_ok.mp hencode
    exact absurd hencodable.stats (by decide)

end MonteCarlo
