import MonteCarlo.Persistence.RoundTrip

/-!
# What the decoders accept

Bytes on disk are arbitrary; what the decoders return is not.  Each `accepts_` lemma says of a
reader which bytes it has consumed and what it has checked.

* `decodeBlockRecord_accepted`, `decodeManifest_accepted`, `decodeRunMetadata_accepted` — a decoded
  record passes the checks of its encoder, and the bytes it was read from are its own encoding.
-/

namespace MonteCarlo

open Wire

/-! ## Enumerations and aggregates -/

theorem validationStatus_eq_ok {code : UInt32} {status : ValidationStatus}
    (h : validationStatus code = .ok status) : code = statusCode status := by
  unfold validationStatus at h
  iterate 13
    obtain ⟨hcode, h⟩ | ⟨-, h⟩ := ite_eq_iff.mp h
    · cases h
      exact hcode
  cases h

theorem durableStatus_eq_ok {code : UInt8} {status : DurableRunStatus}
    (h : durableStatus code = .ok status) : code = status.code := by
  unfold durableStatus at h
  iterate 3
    obtain ⟨hcode, h⟩ | ⟨-, h⟩ := ite_eq_iff.mp h
    · cases h
      exact hcode
  cases h

theorem accepts_readAggregate (schema : UInt32) :
    Accepts (readAggregate schema) fun bytes a => bytes = aggregateBytes a schema := by
  refine Reader.accepts_u32.bind ?_
  rintro layout _ rfl
  refine (accepts_require _ _).bind ?_
  rintro - _ ⟨rfl, hlayout⟩
  refine Reader.accepts_u32.bind ?_
  rintro found _ rfl
  refine (accepts_require _ _).bind ?_
  rintro - _ ⟨rfl, hschema⟩
  refine Reader.accepts_u64.bind ?_
  rintro n _ rfl
  refine Reader.accepts_binary64.bind ?_
  rintro mean _ rfl
  refine Reader.accepts_binary64.bind ?_
  rintro m2 _ rfl
  refine Reader.accepts_binary64.bind ?_
  rintro min _ rfl
  refine Reader.accepts_binary64.bind ?_
  rintro max _ rfl
  refine Reader.accepts_finish.bind ?_
  rintro - _ rfl
  refine Accepts.pure ?_
  rw [of_decide_eq_true hlayout, of_decide_eq_true hschema]
  simp only [aggregateBytes, List.append_assoc, List.nil_append, List.append_nil]

theorem drains_readAggregate (schema : UInt32) : Drains (readAggregate schema) := by
  refine Drains.bind fun _ => Drains.bind fun _ => Drains.bind fun _ => Drains.bind fun _ => ?_
  refine Drains.bind fun _ => Drains.bind fun _ => Drains.bind fun _ => Drains.bind fun _ => ?_
  exact Drains.bind fun _ => Reader.drains_finish _

theorem decodeAggregatePayload_eq_ok {bytes : Bytes} {schema : UInt32}
    {a : AggregateStats Binary64} (h : decodeAggregatePayload bytes schema = .ok a) :
    bytes = aggregateBytes a schema ∧ a.invariantError = none := by
  obtain ⟨aggregate, hread, h⟩ := Result.bind_eq_ok.mp h
  split at h
  · cases h
  · rename_i hvalid
    cases h
    have hbytes := Reader.accepts_of_decode (accepts_readAggregate schema)
      (drains_readAggregate schema) hread
    exact ⟨hbytes, hvalid⟩

/-- A length-prefixed aggregate, in front of what follows it. -/
theorem accepts_aggregate {β : Type} {f : AggregateStats Binary64 → Reader β}
    {S : Bytes → β → Prop} (schema : UInt32)
    (hf : ∀ a, a.invariantError = none → Accepts (f a) fun rest =>
      S (appendU32 (UInt32.ofNat (aggregateBytes a schema).length)
        ++ (aggregateBytes a schema ++ rest))) :
    Accepts (do
      let size ← Reader.u32
      let bytes ← Reader.byteVector size.toNat
      let a ← Wire.Reader.ofExcept (decodeAggregatePayload bytes schema)
      f a) S := by
  refine Reader.accepts_u32.bind ?_
  rintro size _ rfl
  refine (Reader.accepts_byteVector _).bind ?_
  rintro _ payload ⟨rfl, hlength⟩
  refine (accepts_ofExcept _).bind ?_
  rintro a _ ⟨rfl, hdecode⟩
  obtain ⟨rfl, hvalid⟩ := decodeAggregatePayload_eq_ok hdecode
  have h := hf a hvalid
  rwa [hlength, UInt32.ofNat_toNat] at h

/-! ## Block records -/

theorem accepts_readBlockRecord :
    Accepts readBlockRecord fun bytes record => bytes = blockRecordBytes record := by
  refine Reader.accepts_digest.bind ?_
  rintro runId _ rfl
  refine Reader.accepts_digest.bind ?_
  rintro runSpecHash _ rfl
  refine Reader.accepts_digest.bind ?_
  rintro executionLayoutHash _ rfl
  refine Reader.accepts_digest.bind ?_
  rintro buildFingerprint _ rfl
  refine Reader.accepts_u64.bind ?_
  rintro blockId _ rfl
  refine Reader.accepts_u64.bind ?_
  rintro startScenario _ rfl
  refine Reader.accepts_u64.bind ?_
  rintro endScenario _ rfl
  refine Reader.accepts_u64.bind ?_
  rintro runIncarnation _ rfl
  refine Reader.accepts_u64.bind ?_
  rintro leaseEpoch _ rfl
  refine Reader.accepts_u64.bind ?_
  rintro rngVersion _ rfl
  refine Reader.accepts_u32.bind ?_
  rintro statsSchemaVersion _ rfl
  refine Reader.accepts_u64.bind ?_
  rintro workerId _ rfl
  refine accepts_aggregate statsSchemaVersion ?_
  intro aggregate _
  refine Reader.accepts_digest.bind ?_
  rintro payloadChecksum _ rfl
  refine Reader.accepts_finish.bind ?_
  rintro - _ rfl
  refine Accepts.pure ?_
  simp only [blockRecordBytes, List.append_assoc, List.append_nil]

theorem drains_readBlockRecord : Drains readBlockRecord := by
  refine Drains.bind fun _ => Drains.bind fun _ => Drains.bind fun _ => Drains.bind fun _ => ?_
  refine Drains.bind fun _ => Drains.bind fun _ => Drains.bind fun _ => Drains.bind fun _ => ?_
  refine Drains.bind fun _ => Drains.bind fun _ => Drains.bind fun _ => Drains.bind fun _ => ?_
  refine Drains.bind fun _ => Drains.bind fun _ => Drains.bind fun _ => Drains.bind fun _ => ?_
  exact Reader.drains_finish _

/-- The bytes of a decoded block record are the ones it encodes to. -/
theorem decodeBlockRecord_accepted {bytes : Bytes} {record : DurableBlockRecord}
    (h : decodeBlockRecord bytes = .ok record) : encodeBlockRecord record = .ok bytes := by
  obtain ⟨payload, hopen, h⟩ := Result.bind_eq_ok.mp h
  obtain ⟨decoded, hread, h⟩ := Result.bind_eq_ok.mp h
  obtain ⟨⟨⟩, hlease, h⟩ := Result.bind_eq_ok.mp h
  obtain ⟨checksum, hchecksum, h⟩ := Result.bind_eq_ok.mp h
  obtain ⟨⟨⟩, hequal, h⟩ := Result.bind_eq_ok.mp h
  cases h
  simp only [throwIf_eq_ok, decide_eq_false_iff_not, ne_eq, not_not] at hlease hequal
  have hpayload := Reader.accepts_of_decode accepts_readBlockRecord drains_readBlockRecord hread
  refine encodeBlockRecord_eq_ok.mpr ⟨hlease, ?_, ?_⟩
  · rw [hequal]
    exact hchecksum
  · rw [openEnvelope_eq_ok hopen, hpayload]

/-! ## Manifests -/

theorem accepts_readReserved (count : ℕ) :
    Accepts (readReserved count) fun bytes _ => bytes = List.replicate count 0 := by
  induction count with
  | zero => exact Accepts.pure rfl
  | succ count ih =>
    refine Reader.accepts_u8.bind ?_
    rintro byte _ rfl
    refine (accepts_require _ _).bind ?_
    rintro - _ ⟨rfl, hzero⟩
    refine ih.mono ?_
    rintro _ - rfl
    rw [of_decide_eq_true hzero]
    rfl

theorem accepts_readLeases (count : ℕ) :
    Accepts (readLeases count) fun bytes leases =>
      bytes = leases.flatMap appendU64 ∧ leases.length = count ∧ ∀ epoch ∈ leases, epoch ≠ 0 := by
  induction count with
  | zero => exact Accepts.pure ⟨rfl, rfl, by simp⟩
  | succ count ih =>
    refine Reader.accepts_u64.bind ?_
    rintro epoch _ rfl
    refine (accepts_require _ _).bind ?_
    rintro - _ ⟨rfl, hepoch⟩
    refine ih.bind ?_
    rintro leases _ ⟨rfl, hlength, hleases⟩
    refine Accepts.pure ⟨by simp, by simp [hlength], ?_⟩
    intro other hother
    rcases List.mem_cons.mp hother with rfl | hother
    · exact of_decide_eq_true hepoch
    · exact hleases other hother

theorem accepts_readEntries (blockCount incarnation : UInt64) (leases : List UInt64) (count : ℕ)
    (previous : Option UInt64) :
    Accepts (readEntries blockCount incarnation leases count previous) fun bytes entries =>
      bytes = entries.flatMap entryBytes ∧ entries.length = count ∧
        checkEntries blockCount incarnation leases previous entries = .ok () := by
  induction count generalizing previous with
  | zero => exact Accepts.pure ⟨rfl, rfl, rfl⟩
  | succ count ih =>
    refine Reader.accepts_u64.bind ?_
    rintro blockId _ rfl
    refine Reader.accepts_u64.bind ?_
    rintro resultIncarnation _ rfl
    refine Reader.accepts_u64.bind ?_
    rintro leaseEpoch _ rfl
    refine Reader.accepts_digest.bind ?_
    rintro payloadChecksum _ rfl
    refine (accepts_require _ _).bind ?_
    rintro - _ ⟨rfl, hcanonical⟩
    refine (ih _).bind ?_
    rintro entries _ ⟨rfl, hlength, hentries⟩
    have hentry : entryNotCanonical blockCount incarnation leases previous
        ⟨blockId, resultIncarnation, leaseEpoch, payloadChecksum⟩ = false := by
      simpa using hcanonical
    refine Accepts.pure ⟨?_, by simp [hlength], ?_⟩
    · simp [entryBytes]
    · rw [checkEntries, hentry, throwIf_false, Result.ok_bind]
      exact hentries

theorem eq_zero_of_le_one {flag : UInt8} (hle : flag ≤ 1) (hone : flag ≠ 1) : flag = 0 := by
  have hle' : flag.toNat ≤ 1 := UInt8.le_iff_toNat_le.mp hle
  have hne : flag.toNat ≠ 1 := fun h => hone (UInt8.toNat_inj.mp h)
  apply UInt8.toNat_inj.mp
  change flag.toNat = 0
  omega

theorem accepts_readFailure :
    Accepts readFailure fun bytes failure => failureBytes failure = .ok bytes := by
  refine Reader.accepts_u8.bind ?_
  rintro flag _ rfl
  refine (accepts_require _ _).bind ?_
  rintro - _ ⟨rfl, hflag⟩
  split
  · rename_i hone
    refine Reader.accepts_u32.bind ?_
    rintro code _ rfl
    refine (accepts_ofExcept _).bind ?_
    rintro status _ ⟨rfl, hstatus⟩
    refine Reader.accepts_u64.bind ?_
    rintro blockId _ rfl
    refine Reader.accepts_u64.bind ?_
    rintro runIncarnation _ rfl
    refine Reader.accepts_u64.bind ?_
    rintro leaseEpoch _ rfl
    refine Reader.accepts_digest.bind ?_
    rintro observedChecksum _ rfl
    refine Reader.accepts_digest.bind ?_
    rintro committedChecksum _ rfl
    refine (accepts_string _).bind ?_
    intro reason bytes hreason
    refine Accepts.pure ?_
    rw [hone, validationStatus_eq_ok hstatus]
    simp only [failureBytes, hreason, Result.ok_bind, List.append_assoc, List.nil_append,
      List.append_nil]
    rfl
  · rename_i hone
    refine Accepts.pure ?_
    rw [eq_zero_of_le_one (of_decide_eq_true hflag) hone]
    rfl

theorem accepts_readManifestBody (blockCount incarnation : UInt64) (leases : List UInt64)
    (schema : UInt32) :
    Accepts (readManifestBody blockCount incarnation leases schema) fun bytes body =>
      checkEntries blockCount incarnation leases none body.1 = .ok () ∧
        body.2.1.invariantError = none ∧ ∃ failure, failureBytes body.2.2 = .ok failure ∧
          bytes = appendU64 (UInt64.ofNat body.1.length) ++ body.1.flatMap entryBytes
            ++ appendU32 (UInt32.ofNat (aggregateBytes body.2.1 schema).length)
            ++ aggregateBytes body.2.1 schema ++ failure := by
  refine Reader.accepts_u64.bind ?_
  rintro committedCount _ rfl
  refine accepts_remaining.bind ?_
  rintro remaining _ rfl
  refine (accepts_require _ _).bind ?_
  rintro - _ ⟨rfl, -⟩
  refine (accepts_readEntries _ _ _ _ _).bind ?_
  rintro entries _ ⟨rfl, hlength, hentries⟩
  refine accepts_aggregate schema ?_
  intro aggregate hvalid
  refine accepts_readFailure.bind ?_
  intro failure bytes hfailure
  refine Accepts.pure ⟨hentries, hvalid, bytes, hfailure, ?_⟩
  rw [hlength, UInt64.ofNat_toNat]
  simp only [List.append_assoc, List.nil_append, List.append_nil]

theorem accepts_readManifest :
    Accepts readManifest fun bytes manifest =>
      manifest.blockCount ≠ 0 ∧ manifest.leaseEpochs.length = manifest.blockCount.toNat ∧
        (∀ epoch ∈ manifest.leaseEpochs, epoch ≠ 0) ∧
        checkEntries manifest.blockCount manifest.runIncarnation manifest.leaseEpochs none
          manifest.committedBlocks = .ok () ∧
        manifest.committedAggregate.invariantError = none ∧
        ∃ failure, failureBytes manifest.failure = .ok failure ∧
          bytes = manifestPayload manifest failure := by
  refine Reader.accepts_digest.bind ?_
  rintro runId _ rfl
  refine Reader.accepts_digest.bind ?_
  rintro runSpecHash _ rfl
  refine Reader.accepts_digest.bind ?_
  rintro executionLayoutHash _ rfl
  refine Reader.accepts_digest.bind ?_
  rintro buildFingerprint _ rfl
  refine Reader.accepts_u64.bind ?_
  rintro sequence _ rfl
  refine Reader.accepts_u8.bind ?_
  rintro statusByte _ rfl
  refine (accepts_ofExcept _).bind ?_
  rintro status _ ⟨rfl, hstatus⟩
  refine (accepts_readReserved 7).bind ?_
  rintro - _ rfl
  refine Reader.accepts_u64.bind ?_
  rintro runIncarnation _ rfl
  refine Reader.accepts_u64.bind ?_
  rintro rngVersion _ rfl
  refine Reader.accepts_u32.bind ?_
  rintro statsSchemaVersion _ rfl
  refine Reader.accepts_u32.bind ?_
  rintro reserved _ rfl
  refine (accepts_require _ _).bind ?_
  rintro - _ ⟨rfl, hreserved⟩
  refine Reader.accepts_u64.bind ?_
  rintro blockCount _ rfl
  refine Reader.accepts_u64.bind ?_
  rintro leaseCount _ rfl
  refine accepts_remaining.bind ?_
  rintro remaining _ rfl
  refine (accepts_require _ _).bind ?_
  rintro - _ ⟨rfl, hcounts⟩
  simp only [Bool.and_eq_true, decide_eq_true_eq] at hcounts
  obtain ⟨⟨hne, rfl⟩, -⟩ := hcounts
  refine (accepts_readLeases _).bind ?_
  rintro leaseEpochs _ ⟨rfl, hlength, hleases⟩
  refine (accepts_readManifestBody _ _ _ _).bind ?_
  rintro ⟨committedBlocks, committedAggregate, failure⟩ _ ⟨hentries, hvalid, bytes, hfailure, rfl⟩
  refine Reader.accepts_finish.bind ?_
  rintro - _ rfl
  refine Accepts.pure ⟨hne, hlength, hleases, hentries, hvalid, bytes, hfailure, ?_⟩
  rw [durableStatus_eq_ok hstatus, of_decide_eq_true hreserved]
  simp only [manifestPayload, manifestHeader, hlength, UInt64.ofNat_toNat, List.append_assoc,
    List.nil_append, List.append_nil]

theorem drains_readManifest : Drains readManifest := by
  refine Drains.bind fun _ => Drains.bind fun _ => Drains.bind fun _ => Drains.bind fun _ => ?_
  refine Drains.bind fun _ => Drains.bind fun _ => Drains.bind fun _ => Drains.bind fun _ => ?_
  refine Drains.bind fun _ => Drains.bind fun _ => Drains.bind fun _ => Drains.bind fun _ => ?_
  refine Drains.bind fun _ => Drains.bind fun _ => Drains.bind fun _ => Drains.bind fun _ => ?_
  refine Drains.bind fun _ => Drains.bind fun _ => Drains.bind fun _ => ?_
  exact Reader.drains_finish _

/-- A decoded manifest is well formed, and its bytes are determined by it. -/
theorem decodeManifest_eq_ok {bytes : Bytes} {maxManifestBytes : UInt64} {manifest : RunManifest}
    (h : decodeManifest bytes maxManifestBytes = .ok manifest) :
    AcceptedManifest manifest ∧ ∃ failure, failureBytes manifest.failure = .ok failure ∧
      bytes = makeEnvelope kManifestMagic (manifestPayload manifest failure) := by
  obtain ⟨⟨⟩, -, h⟩ := Result.bind_eq_ok.mp h
  obtain ⟨payload, hopen, h⟩ := Result.bind_eq_ok.mp h
  obtain ⟨decoded, hdecoded, h⟩ := Result.bind_eq_ok.mp h
  obtain ⟨⟨⟩, hstate, h⟩ := Result.bind_eq_ok.mp h
  cases h
  obtain ⟨hcount, hlength, hleases, hentries, hvalid, failure, hfailure, hpayload⟩ :=
    Reader.accepts_of_decode accepts_readManifest drains_readManifest hdecoded
  simp only [throwIf_eq_ok, Bool.or_eq_false_iff, decide_eq_false_iff_not, Bool.and_eq_false_iff,
    ne_eq, not_not, bne_eq_false_iff_eq] at hstate
  obtain ⟨⟨hincarnation, hfailed⟩, hcomplete⟩ := hstate
  refine ⟨⟨hincarnation, hcount, hlength, hleases, ?_, ?_, hentries, hvalid,
    failureBytes_eq_ok.mp ⟨failure, hfailure⟩⟩, failure, hfailure, ?_⟩
  · rw [← hfailed, decide_eq_true_eq]
  · intro hstatus
    exact hcomplete.resolve_left (fun hnot => hnot hstatus)
  · rw [openEnvelope_eq_ok hopen, hpayload]

/-- A decoded manifest is well formed. -/
theorem decodeManifest_accepted {bytes : Bytes} {maxManifestBytes : UInt64}
    {manifest : RunManifest} (h : decodeManifest bytes maxManifestBytes = .ok manifest) :
    AcceptedManifest manifest :=
  (decodeManifest_eq_ok h).1

/-! ## Metadata -/

theorem accepts_readModelTail (modelType : ModelType) :
    Accepts (readModelTail modelType) fun bytes tail =>
      ∀ spec : RunSpec, spec.modelType = modelType → spec.volatility = tail.1 →
        spec.heston = tail.2 → bytes = modelTail spec ∧ spec.persisted = spec := by
  unfold readModelTail
  split
  · rename_i hgbm
    refine Reader.accepts_binary64.bind ?_
    rintro volatility _ rfl
    refine Accepts.pure fun spec hmodel hvolatility _ => ?_
    have hmodel' : spec.modelType = .gbm := hmodel.trans hgbm
    rw [modelTail, if_pos hmodel', RunSpec.persisted, if_pos hmodel', hvolatility, List.append_nil]
    exact ⟨rfl, rfl⟩
  · rename_i hgbm
    split
    · refine Reader.accepts_u32.bind ?_
      rintro discretizationVersion _ rfl
      refine Reader.accepts_binary64.bind ?_
      rintro initialVariance _ rfl
      refine Reader.accepts_binary64.bind ?_
      rintro meanReversionRate _ rfl
      refine Reader.accepts_binary64.bind ?_
      rintro longRunVariance _ rfl
      refine Reader.accepts_binary64.bind ?_
      rintro volatilityOfVariance _ rfl
      refine Reader.accepts_binary64.bind ?_
      rintro correlation _ rfl
      refine Accepts.pure fun spec hmodel hvolatility hheston => ?_
      have hmodel' : spec.modelType ≠ .gbm := fun h => hgbm (hmodel.symm.trans h)
      refine ⟨?_, ?_⟩
      · rw [modelTail, if_neg hmodel', hheston]
        simp only [List.append_assoc, List.append_nil]
      · have hdefault : spec.volatility = RunSpec.defaultVolatility := hvolatility
        rw [RunSpec.persisted, if_neg hmodel', ← hdefault]
    · refine (accepts_ofExcept _).mono ?_
      rintro bytes tail ⟨-, htail⟩
      cases htail

theorem accepts_readRunSpec :
    Accepts readRunSpec fun bytes spec => bytes = runSpecBytes spec ∧ spec.persisted = spec := by
  refine Reader.accepts_u32.bind ?_
  rintro schema _ rfl
  refine (accepts_require _ _).bind ?_
  rintro - _ ⟨rfl, hschema⟩
  refine Reader.accepts_u64.bind ?_
  rintro engineVersion _ rfl
  refine Reader.accepts_u64.bind ?_
  rintro rngVersion _ rfl
  refine Reader.accepts_u32.bind ?_
  rintro statsSchemaVersion _ rfl
  refine Reader.accepts_u8.bind ?_
  rintro modelCode _ rfl
  refine Reader.accepts_u8.bind ?_
  rintro payoffCode _ rfl
  refine Reader.accepts_u8.bind ?_
  rintro antithetic _ rfl
  refine (accepts_require _ _).bind ?_
  rintro - _ ⟨rfl, hflag⟩
  refine Reader.accepts_u8.bind ?_
  rintro reserved _ rfl
  refine (accepts_require _ _).bind ?_
  rintro - _ ⟨rfl, hreserved⟩
  refine Reader.accepts_u64.bind ?_
  rintro globalSeed _ rfl
  refine Reader.accepts_u64.bind ?_
  rintro totalScenarios _ rfl
  refine Reader.accepts_u32.bind ?_
  rintro numTimeSteps _ rfl
  refine Reader.accepts_binary64.bind ?_
  rintro maturity _ rfl
  refine Reader.accepts_binary64.bind ?_
  rintro spot _ rfl
  refine Reader.accepts_binary64.bind ?_
  rintro strike _ rfl
  refine Reader.accepts_binary64.bind ?_
  rintro rate _ rfl
  refine (accepts_readModelTail _).bind ?_
  rintro ⟨volatility, heston⟩ tail htail
  refine Reader.accepts_finish.bind ?_
  rintro - _ rfl
  refine Accepts.pure ?_
  have hanti : antithetic = if decide (antithetic = 1) then 1 else 0 := by
    by_cases hone : antithetic = 1
    · simp [hone]
    · have hzero := eq_zero_of_le_one (of_decide_eq_true hflag) hone
      simp [hzero]
  obtain ⟨hbytes, hpersisted⟩ := htail
    { globalSeed, totalScenarios, numTimeSteps, maturity, spot, strike, rate, volatility, heston,
      payoffType := ⟨payoffCode⟩, antithetic := antithetic = 1, modelType := ⟨modelCode⟩,
      engineVersion, rngVersion, statsSchemaVersion } rfl rfl rfl
  refine ⟨?_, hpersisted⟩
  rw [runSpecBytes, ← hbytes, of_decide_eq_true hschema, of_decide_eq_true hreserved, ← hanti]
  simp only [List.append_assoc, List.nil_append, List.append_nil]

theorem drains_readRunSpec : Drains readRunSpec := by
  refine Drains.bind fun _ => Drains.bind fun _ => Drains.bind fun _ => Drains.bind fun _ => ?_
  refine Drains.bind fun _ => Drains.bind fun _ => Drains.bind fun _ => Drains.bind fun _ => ?_
  refine Drains.bind fun _ => Drains.bind fun _ => Drains.bind fun _ => Drains.bind fun _ => ?_
  refine Drains.bind fun _ => Drains.bind fun _ => Drains.bind fun _ => Drains.bind fun _ => ?_
  refine Drains.bind fun _ => Drains.bind fun _ => Drains.bind fun _ => ?_
  exact Reader.drains_finish _

/-- The bytes of a decoded specification are the ones it encodes to. -/
theorem decodeRunSpecPayload_eq_ok {bytes : Bytes} {spec : RunSpec}
    (h : decodeRunSpecPayload bytes = .ok spec) :
    spec.validate = .ok () ∧ bytes = runSpecBytes spec ∧ spec.persisted = spec := by
  obtain ⟨decoded, hread, h⟩ := Result.bind_eq_ok.mp h
  obtain ⟨⟨⟩, hvalid, h⟩ := Result.bind_eq_ok.mp h
  cases h
  exact ⟨hvalid, Reader.accepts_of_decode accepts_readRunSpec drains_readRunSpec hread⟩

theorem accepts_readRunMetadata :
    Accepts readRunMetadata fun bytes metadata =>
      metadata.persisted = metadata ∧ ∃ description,
        appendString metadata.buildDescription kMaxBuildDescriptionBytes = .ok description ∧
        bytes = metadataPayload metadata description := by
  refine Reader.accepts_digest.bind ?_
  rintro runId _ rfl
  refine Reader.accepts_u32.bind ?_
  rintro specSize _ rfl
  refine (Reader.accepts_byteVector _).bind ?_
  rintro _ specBytes ⟨rfl, hlength⟩
  refine (accepts_ofExcept _).bind ?_
  rintro spec _ ⟨rfl, hspec⟩
  obtain ⟨-, rfl, hpersisted⟩ := decodeRunSpecPayload_eq_ok hspec
  refine Reader.accepts_u64.bind ?_
  rintro blockSize _ rfl
  refine Reader.accepts_u64.bind ?_
  rintro blockCount _ rfl
  refine Reader.accepts_digest.bind ?_
  rintro runSpecHash _ rfl
  refine Reader.accepts_digest.bind ?_
  rintro executionLayoutHash _ rfl
  refine Reader.accepts_digest.bind ?_
  rintro buildFingerprint _ rfl
  refine (accepts_string _).bind ?_
  intro buildDescription description hdescription
  refine Reader.accepts_finish.bind ?_
  rintro - _ rfl
  refine Accepts.pure ⟨?_, description, hdescription, ?_⟩
  · simp only [RunMetadata.persisted, hpersisted]
  · rw [metadataPayload, hlength, UInt32.ofNat_toNat]
    simp only [List.append_assoc, List.nil_append, List.append_nil]

theorem drains_readRunMetadata : Drains readRunMetadata := by
  refine Drains.bind fun _ => Drains.bind fun _ => Drains.bind fun _ => Drains.bind fun _ => ?_
  refine Drains.bind fun _ => Drains.bind fun _ => Drains.bind fun _ => Drains.bind fun _ => ?_
  refine Drains.bind fun _ => Drains.bind fun _ => ?_
  exact Reader.drains_finish _

/-- What `decode_run_metadata` has checked. -/
structure AcceptedMetadata (metadata : RunMetadata) : Prop where
  spec : metadata.spec.validate = .ok ()
  layout : (layoutConfig metadata.blockSize metadata.blockCount).validate metadata.spec = .ok ()
  blockCount : metadata.blockCount = MonteCarlo.blockCount metadata.spec metadata.blockSize
  runSpecHash : MonteCarlo.runSpecHash metadata.spec = .ok metadata.runSpecHash
  layoutHash : executionLayoutHash metadata.spec
    (layoutConfig metadata.blockSize metadata.blockCount) = .ok metadata.executionLayoutHash
  runId : metadata.runId = durableRunId metadata.runSpecHash metadata.executionLayoutHash

theorem validate_of_executionLayoutHash {spec : RunSpec} {config : EngineConfig}
    {digest : Sha256Digest} (h : executionLayoutHash spec config = .ok digest) :
    spec.validate = .ok () ∧ config.validate spec = .ok () := by
  unfold executionLayoutHash at h
  cases hp : encodeExecutionLayoutPayload spec config with
  | error e => rw [hp] at h; cases h
  | ok bytes =>
    obtain ⟨⟨⟩, hspec, hp⟩ := Result.bind_eq_ok.mp hp
    obtain ⟨⟨⟩, hconfig, -⟩ := Result.bind_eq_ok.mp hp
    exact ⟨hspec, hconfig⟩

/-- Decoded metadata describes a valid layout. -/
theorem decodeRunMetadata_accepted {bytes : Bytes} {metadata : RunMetadata}
    (h : decodeRunMetadata bytes = .ok metadata) : AcceptedMetadata metadata := by
  obtain ⟨payload, -, h⟩ := Result.bind_eq_ok.mp h
  obtain ⟨decoded, -, h⟩ := Result.bind_eq_ok.mp h
  obtain ⟨⟨⟩, -, h⟩ := Result.bind_eq_ok.mp h
  obtain ⟨specHash, hspecHash, h⟩ := Result.bind_eq_ok.mp h
  obtain ⟨⟨⟩, hidentity, h⟩ := Result.bind_eq_ok.mp h
  obtain ⟨⟨⟩, hcount, h⟩ := Result.bind_eq_ok.mp h
  obtain ⟨layoutHash, hlayoutHash, h⟩ := Result.bind_eq_ok.mp h
  obtain ⟨⟨⟩, hlayout, h⟩ := Result.bind_eq_ok.mp h
  obtain ⟨⟨⟩, -, h⟩ := Result.bind_eq_ok.mp h
  cases h
  simp only [throwIf_eq_ok, Bool.or_eq_false_iff, decide_eq_false_iff_not, ne_eq, not_not]
    at hidentity hcount hlayout
  obtain ⟨hspec, hconfig⟩ := validate_of_executionLayoutHash hlayoutHash
  exact ⟨hspec, hconfig, hcount, by rw [hspecHash, hidentity.1], by rw [hlayoutHash, hlayout],
    hidentity.2⟩

/-- The bytes of decoded metadata are the ones it encodes to. -/
theorem encodeRunMetadata_of_decode {bytes : Bytes} {metadata : RunMetadata}
    (h : decodeRunMetadata bytes = .ok metadata) :
    encodeRunMetadata metadata = .ok bytes ∧ metadata.persisted = metadata := by
  have haccepted := decodeRunMetadata_accepted h
  obtain ⟨payload, hopen, h⟩ := Result.bind_eq_ok.mp h
  obtain ⟨decoded, hread, h⟩ := Result.bind_eq_ok.mp h
  obtain ⟨⟨⟩, hempty, h⟩ := Result.bind_eq_ok.mp h
  obtain ⟨specHash, -, h⟩ := Result.bind_eq_ok.mp h
  obtain ⟨⟨⟩, -, h⟩ := Result.bind_eq_ok.mp h
  obtain ⟨⟨⟩, -, h⟩ := Result.bind_eq_ok.mp h
  obtain ⟨layoutHash, -, h⟩ := Result.bind_eq_ok.mp h
  obtain ⟨⟨⟩, -, h⟩ := Result.bind_eq_ok.mp h
  obtain ⟨⟨⟩, hbuild, h⟩ := Result.bind_eq_ok.mp h
  cases h
  simp only [throwIf_eq_ok, Bool.or_eq_false_iff, decide_eq_false_iff_not, ne_eq, not_not]
    at hempty hbuild
  obtain ⟨hpersisted, description, hdescription, hpayload⟩ :=
    Reader.accepts_of_decode accepts_readRunMetadata drains_readRunMetadata hread
  refine ⟨?_, hpersisted⟩
  simp only [encodeRunMetadata, encodeRunSpecPayload, haccepted.spec, hempty, haccepted.runSpecHash,
    ← haccepted.runId, hbuild.1, hbuild.2.symm, hdescription, ne_eq, not_true_eq_false, decide_false, Bool.or_self,
    throwIf_false, Result.ok_bind]
  rw [openEnvelope_eq_ok hopen, hpayload]
  rfl

end MonteCarlo
