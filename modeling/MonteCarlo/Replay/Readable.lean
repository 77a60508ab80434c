import MonteCarlo.Persistence.RoundTrip
import MonteCarlo.Replay.Descriptor

/-!
# Every descriptor is readable

What `FailureInjector::hit` writes, `read_replay_descriptor` reads back.

* `parseU64_decimal`, `parseHexU64_bitsHex`, `parseDigest_toHex`, `parseFailurePoint_name` — each
  parser undoes its printer.
* `reads_descriptor` — the fields, in the order of the file.
* `readFields_lines`, `finalLine_line` — the lines of the file, and its last one.
* `descriptor_readable` — the whole file.
-/

namespace MonteCarlo

open Numeral Wire

/-! ## Values -/

theorem head?_decimal (n : ℕ) {c : Char} (hc : c ∈ ['\n', '=', '-', '+', '.', '_']) :
    (decimal n).head? ≠ some c := by
  intro hhead
  have hmem : c ∈ decimal n := List.mem_of_mem_head? hhead
  have hdigit := isDigit_of_mem_print (by omega) (by omega) hmem
  rw [isDigit_eq_false hc] at hdigit
  cases hdigit

theorem parseU64_decimal (value : UInt64) (field : String) :
    parseU64 (decimal value.toNat) field = .ok value := by
  have hstart : ¬ (decimal value.toNat = [] ∨ (decimal value.toNat).head? = some '-' ∨
      (decimal value.toNat).head? = some '+') := by
    rintro (h | h | h)
    · exact print_ne_nil h
    · exact head?_decimal _ (by decide) h
    · exact head?_decimal _ (by decide) h
  have hchars : fromChars 10 (2 ^ 64) (decimal value.toNat) = .ok (value.toNat, []) :=
    fromChars_print (by omega) (by omega) value.toNat_lt
  rw [parseU64, if_neg hstart, hchars]
  simp

theorem parseSize_decimal {value : ℕ} (h : value < 2 ^ 64) (field : String) :
    parseSize (decimal value) field = .ok value := by
  have hvalue : (UInt64.ofNat value).toNat = value := by
    rw [UInt64.toNat_ofNat', Nat.mod_eq_of_lt h]
  rw [parseSize, ← hvalue, parseU64_decimal]
  rfl

theorem parseU32_decimal (value : UInt32) (field : String) :
    parseU32 (decimal value.toNat) field = .ok value := by
  have hlt := value.toNat_lt
  have hvalue : (UInt64.ofNat value.toNat).toNat = value.toNat := by
    rw [UInt64.toNat_ofNat', Nat.mod_eq_of_lt (by omega)]
  have hsmall : ¬ (0xFFFFFFFF : UInt64) < UInt64.ofNat value.toNat := by
    rw [UInt64.lt_iff_toNat_lt, hvalue]
    exact Nat.not_lt.mpr (Nat.le_of_lt_succ hlt)
  rw [parseU32, ← hvalue, parseU64_decimal, Result.ok_bind, decide_eq_false hsmall, throwIf_false,
    Result.ok_bind, hvalue]
  exact congrArg Except.ok (by simp)

theorem parseU8_decimal (value : UInt8) (field : String) :
    parseU8 (decimal value.toNat) field = .ok value := by
  have hlt := value.toNat_lt
  have hvalue : (UInt64.ofNat value.toNat).toNat = value.toNat := by
    rw [UInt64.toNat_ofNat', Nat.mod_eq_of_lt (by omega)]
  have hsmall : ¬ (0xFF : UInt64) < UInt64.ofNat value.toNat := by
    rw [UInt64.lt_iff_toNat_lt, hvalue]
    exact Nat.not_lt.mpr (Nat.le_of_lt_succ hlt)
  rw [parseU8, ← hvalue, parseU64_decimal, Result.ok_bind, decide_eq_false hsmall, throwIf_false,
    Result.ok_bind, hvalue]
  exact congrArg Except.ok (by simp)

theorem length_bitsHex (value : Binary64) : (bitsHex value).length = 16 :=
  length_pad (length_print_le (by omega) (by omega)
    (Nat.lt_of_lt_of_le value.bits.toNat_lt (by norm_num)))

theorem parseHexU64_bitsHex (value : Binary64) (field : String) :
    parseHexU64 (bitsHex value) field = .ok value.bits := by
  have hchars : fromChars 16 (2 ^ 64) (bitsHex value) = .ok (value.bits.toNat, []) :=
    fromChars_pad (by omega) (by omega) value.bits.toNat_lt
  rw [parseHexU64, length_bitsHex, if_neg (by omega), hchars]
  simp

/-- The two digits of a byte. -/
theorem fromChars_byte (byte : UInt8) :
    fromChars 16 (2 ^ 32) [digit (byte.toNat / 16), digit (byte.toNat % 16)] =
      .ok (byte.toNat, []) := by
  have hlt := byte.toNat_lt
  have hhigh : byte.toNat / 16 < 16 := by omega
  have hlow : byte.toNat % 16 < 16 := by omega
  have hvalue : value 16 [digit (byte.toNat / 16), digit (byte.toNat % 16)] = byte.toNat := by
    rw [value, List.foldl_cons, List.foldl_cons, List.foldl_nil,
      digitValue_digit (Nat.lt_trans hhigh (by omega)),
      digitValue_digit (Nat.lt_trans hlow (by omega)), Option.getD_some, Option.getD_some]
    omega
  rw [fromChars_of_digits (by simp) ?_ (by rw [hvalue]; omega), hvalue]
  intro c hc
  rcases List.mem_cons.mp hc with rfl | hc
  · exact isDigit_digit hhigh (by omega)
  · rw [List.mem_singleton.mp hc]
    exact isDigit_digit hlow (by omega)

theorem parseBytes_toHex (field : String) (bytes : Bytes) :
    parseBytes field
        (bytes.flatMap fun byte => [digit (byte.toNat / 16), digit (byte.toNat % 16)]) =
      .ok bytes := by
  induction bytes with
  | nil => rfl
  | cons byte rest ih =>
    rw [List.flatMap_cons]
    simp only [List.cons_append, List.nil_append, parseBytes, fromChars_byte, ih, Result.ok_bind]
    simp
    rfl

theorem length_toHex (digest : Sha256Digest) : (toHex digest).length = 64 := by
  rw [toHex, List.length_flatMap]
  simp

theorem parseDigest_toHex (digest : Sha256Digest) (field : String) :
    parseDigest (toHex digest) field = .ok digest := by
  rw [parseDigest, length_toHex, toHex, parseBytes_toHex]
  exact congrArg Except.ok (Reader.digestOf_toList digest)

theorem parseFailurePoint_name (point : FailurePoint) :
    parseFailurePoint (failurePointName point) = .ok point := by
  cases point <;> decide

/-! ## Fields in the order of the file -/

theorem RunSpec.validateModel_of_validate {spec : RunSpec} (h : spec.validate = .ok ()) :
    spec.validateModel = .ok () := by
  unfold RunSpec.validate at h
  simp only [Result.bind_eq_ok, throwIf_eq_ok, exists_const] at h
  exact h.2.2.2.2.2.2.2.2.2.2.2

namespace FieldReader

theorem reads_take (name : String) (value : Text) : Reads (take name) [(name.toList, value)] value := by
  intro rest
  change take name ((name.toList, value) :: rest) = _
  simp [take]

theorem reads_ofExcept {α : Type} {x : Result α} {a : α} (h : x = .ok a) :
    Reads (ofExcept x) [] a := by
  intro rest
  change ofExcept x rest = _
  rw [h]
  rfl

theorem reads_parse {α : Type} {parser : Text → String → Result α} {name : String} {value : Text}
    {a : α} (h : parser value name = .ok a) :
    Reads (parse parser name) [(name.toList, value)] a :=
  (reads_take name value).bind_done (reads_ofExcept h)

theorem reads_bits (name : String) (value : Binary64) :
    Reads (bits name) [(name.toList, bitsHex value)] value :=
  (reads_parse (parseHexU64_bitsHex value name)).bind_done (Reads.pure _)

/-- The model, after the other fields of a specification have been read. -/
theorem reads_model {s : RunSpec} (h : s.validateModel = .ok ()) :
    Reads (model { s with volatility := RunSpec.defaultVolatility, heston := none })
      (modelFields s) s.persisted := by
  unfold RunSpec.validateModel at h
  unfold model modelFields RunSpec.persisted
  dsimp only
  by_cases hgbm : s.modelType = .gbm
  · rw [if_pos hgbm] at h
    rw [if_pos hgbm, if_pos hgbm, if_pos hgbm]
    obtain ⟨⟨⟩, hheston, -⟩ := Result.bind_eq_ok.mp h
    rw [throwIf_eq_ok, Option.isSome_eq_false_iff, Option.isNone_iff_eq_none] at hheston
    refine (reads_bits _ s.volatility).bind_done ?_
    rw [← hheston]
    exact Reads.pure s
  · rw [if_neg hgbm] at h
    rw [if_neg hgbm, if_neg hgbm, if_neg hgbm]
    by_cases hheston : s.modelType = .heston
    · rw [if_pos hheston] at h ⊢
      cases hparams : s.heston with
      | none => rw [hparams] at h; cases h
      | some heston =>
        refine (reads_parse (parseU32_decimal heston.discretizationVersion _)).bind_cons ?_
        refine (reads_bits _ heston.initialVariance).bind_cons ?_
        refine (reads_bits _ heston.meanReversionRate).bind_cons ?_
        refine (reads_bits _ heston.longRunVariance).bind_cons ?_
        refine (reads_bits _ heston.volatilityOfVariance).bind_cons ?_
        refine (reads_bits _ heston.correlation).bind_done ?_
        rw [← hparams]
        exact Reads.pure _
    · rw [if_neg hheston] at h
      cases h

theorem reads_spec {s : RunSpec} (h : s.validate = .ok ()) :
    Reads spec (specFields s ++ modelFields s) s.persisted := by
  refine (reads_parse (parseU64_decimal s.engineVersion _)).bind_cons ?_
  refine (reads_parse (parseU64_decimal s.rngVersion _)).bind_cons ?_
  refine (reads_parse (parseU32_decimal s.statsSchemaVersion _)).bind_cons ?_
  refine (reads_parse (parseU8_decimal s.modelType.code _)).bind_cons ?_
  refine (reads_parse (parseU8_decimal s.payoffType.code _)).bind_cons ?_
  have hflag : (if s.antithetic then 1 else 0) = (if s.antithetic then (1 : UInt64) else 0).toNat := by
    cases s.antithetic <;> rfl
  rw [hflag]
  refine (reads_parse (parseU64_decimal (if s.antithetic then 1 else 0) _)).bind_cons ?_
  have hvalid : throwIf (1 < (if s.antithetic then (1 : UInt64) else 0))
      (replayError "antithetic flag is invalid") = .ok () := by
    cases s.antithetic <;> rfl
  refine Reads.bind_nil (reads_ofExcept hvalid) ?_
  refine (reads_parse (parseU64_decimal s.globalSeed _)).bind_cons ?_
  refine (reads_parse (parseU64_decimal s.totalScenarios _)).bind_cons ?_
  refine (reads_parse (parseU32_decimal s.numTimeSteps _)).bind_cons ?_
  refine (reads_bits _ s.maturity).bind_cons ?_
  refine (reads_bits _ s.spot).bind_cons ?_
  refine (reads_bits _ s.strike).bind_cons ?_
  refine (reads_bits _ s.rate).bind_cons ?_
  have hanti : decide ((if s.antithetic then 1 else 0) = (1 : UInt64)) = s.antithetic := by
    cases s.antithetic <;> rfl
  rw [hanti]
  exact reads_model (RunSpec.validateModel_of_validate h)

end FieldReader

/-- The sizes of a configuration fit `std::size_t`. -/
structure EngineConfig.Sized (config : EngineConfig) : Prop where
  workerCount : config.workerCount < 2 ^ 64
  assignmentQueueCapacity : config.assignmentQueueCapacity < 2 ^ 64
  completionQueueCapacity : config.completionQueueCapacity < 2 ^ 64

namespace FieldReader

theorem reads_engineConfig {config : EngineConfig} (h : config.Sized) :
    Reads engineConfig (engineFields config) config := by
  refine (reads_parse (parseSize_decimal h.workerCount _)).bind_cons ?_
  refine (reads_parse (parseU64_decimal config.blockSize _)).bind_cons ?_
  refine (reads_parse (parseSize_decimal h.assignmentQueueCapacity _)).bind_cons ?_
  refine (reads_parse (parseSize_decimal h.completionQueueCapacity _)).bind_cons ?_
  refine (reads_parse (parseU64_decimal config.maxMaterializedBlocks _)).bind_done ?_
  exact Reads.pure config

end FieldReader

/-- The descriptor that is read back: without the replay path, and with the specification as every
file stores it. -/
def ReplayDescriptor.recorded (descriptor : ReplayDescriptor) : ReplayDescriptor :=
  { descriptor with
    spec := descriptor.spec.persisted
    injection := { descriptor.injection with replayDescriptorPath := "" } }

/-- What holds of every descriptor that is written. -/
structure ReplayDescriptor.WellFormed (descriptor : ReplayDescriptor) : Prop where
  version : descriptor.version = kReplayDescriptorVersion
  spec : descriptor.spec.validate = .ok ()
  engineConfig : descriptor.engineConfig.validate descriptor.spec = .ok ()
  sized : descriptor.engineConfig.Sized
  singleWorker : descriptor.engineConfig.workerCount = 1
  cadence : descriptor.checkpointIntervalBlocks ≠ 0
  storageBytes : descriptor.maxStorageBytes ≠ 0
  storageFiles : descriptor.maxStorageFiles ≠ 0
  manifestBytes : 256 ≤ descriptor.maxManifestBytes
  manifestLe : descriptor.maxManifestBytes ≤ descriptor.maxStorageBytes
  specHash : MonteCarlo.runSpecHash descriptor.spec = .ok descriptor.runSpecHash
  injection : descriptor.injection.validate = .ok ()

namespace FieldReader

theorem reads_descriptor {d : ReplayDescriptor} (h : d.WellFormed) :
    Reads descriptor (descriptorFields d) d.recorded := by
  unfold descriptorFields
  simp only [List.append_assoc, List.cons_append, List.nil_append]
  refine (reads_take "format" kReplayMagic).bind_cons ?_
  refine Reads.bind_nil (a := ()) (reads_ofExcept rfl) ?_
  refine (reads_parse (parseU32_decimal d.version _)).bind_cons ?_
  have hversion : throwIf (d.version ≠ kReplayDescriptorVersion)
      (replayError "unsupported replay descriptor version") = .ok () := by
    rw [throwIf_eq_ok, h.version]
    rfl
  refine Reads.bind_nil (reads_ofExcept hversion) ?_
  refine (reads_parse (parseDigest_toHex d.runSpecHash _)).bind_cons ?_
  refine (reads_parse (parseDigest_toHex d.buildFingerprint _)).bind_cons ?_
  rw [← List.append_assoc (specFields d.spec)]
  refine (reads_spec h.spec).bind ((reads_engineConfig h.sized).bind ?_)
  unfold policyFields traceFields
  simp only [List.cons_append, List.nil_append]
  refine (reads_parse (parseU64_decimal d.checkpointIntervalBlocks _)).bind_cons ?_
  refine (reads_parse (parseU64_decimal d.maxStorageBytes _)).bind_cons ?_
  refine (reads_parse (parseU64_decimal d.maxStorageFiles _)).bind_cons ?_
  refine (reads_parse (parseU64_decimal d.minFreeSpaceBytes _)).bind_cons ?_
  refine (reads_parse (parseU64_decimal d.maxManifestBytes _)).bind_cons ?_
  refine (reads_parse (parseU64_decimal d.injection.failureSeed _)).bind_cons ?_
  refine (reads_parse (parseU64_decimal d.injection.deterministicSchedulerSeed _)).bind_cons ?_
  refine (reads_parse (parseFailurePoint_name d.injection.selectedPoint)).bind_cons ?_
  refine (reads_parse (parseU64_decimal d.injection.selectedOccurrence _)).bind_cons ?_
  refine (reads_parse (parseDigest_toHex d.observedTraceHash _)).bind_cons ?_
  refine (reads_parse (parseU64_decimal d.observedTraceEvents _)).bind_cons ?_
  refine (reads_parse (parseU64_decimal d.runIncarnation _)).bind_cons ?_
  refine (reads_parse (parseU64_decimal d.blockId _)).bind_cons ?_
  refine (reads_parse (parseU64_decimal d.checkpointSequence _)).bind_done ?_
  exact Reads.pure d.recorded

/-- The fields of the file, and a checksum. -/
theorem run_all {d : ReplayDescriptor} (h : d.WellFormed) (digest : Sha256Digest) :
    all.run (descriptorFields d ++ [("descriptor_sha256".toList, toHex digest)]) =
      .ok ((d.recorded, digest), []) := by
  have hchecksum := reads_parse (parseDigest_toHex digest "descriptor_sha256")
  unfold all
  rw [StateT.run_bind, reads_descriptor h]
  change StateT.run (do
    let checksum ← parse parseDigest "descriptor_sha256"
    finish
    pure (d.recorded, checksum)) [("descriptor_sha256".toList, toHex digest)] = _
  rw [StateT.run_bind, hchecksum.run]
  rfl

end FieldReader

/-! ## Lines -/

/-- A name that a line can begin with. -/
def PlainName (name : Text) : Prop :=
  name ≠ [] ∧ name.length ≤ 64 ∧ '=' ∉ name ∧ '\n' ∉ name

instance (name : Text) : Decidable (PlainName name) := by
  unfold PlainName
  infer_instance

/-- A value that a line can end with. -/
def PlainValue (value : Text) : Prop := value.length ≤ 64 ∧ '\n' ∉ value

/-- A field that fits one line. -/
def Field.Plain (field : Field) : Prop := PlainName field.1 ∧ PlainValue field.2

theorem plainValue_decimal {n : ℕ} (h : n < 2 ^ 64) : PlainValue (decimal n) := by
  refine ⟨length_print_le (by omega) (by omega) (by omega), fun hmem => ?_⟩
  have hdigit := isDigit_of_mem_print (by omega) (by omega) hmem
  rw [isDigit_eq_false (by decide)] at hdigit
  cases hdigit

theorem plainValue_bitsHex (value : Binary64) : PlainValue (bitsHex value) := by
  refine ⟨by rw [length_bitsHex]; omega, fun hmem => ?_⟩
  have hdigit := isDigit_of_mem_pad (by omega) (by omega) hmem
  rw [isDigit_eq_false (by decide)] at hdigit
  cases hdigit

theorem plainValue_toHex (digest : Sha256Digest) : PlainValue (toHex digest) := by
  refine ⟨by rw [length_toHex], fun hmem => ?_⟩
  obtain ⟨byte, -, hbyte⟩ := List.mem_flatMap.mp hmem
  have hlt := byte.toNat_lt
  have hdigit : isDigit 16 '\n' = true := by
    rcases List.mem_cons.mp hbyte with h | h
    · rw [h]
      exact isDigit_digit (by omega) (by omega)
    · rw [List.mem_singleton.mp h]
      exact isDigit_digit (by omega) (by omega)
  rw [isDigit_eq_false (by decide)] at hdigit
  cases hdigit

theorem plainValue_failurePointName (point : FailurePoint) :
    PlainValue (failurePointName point) := by
  cases point <;> exact ⟨by decide, by decide⟩

theorem Field.plain_decimal {name : String} {n : ℕ} (hname : PlainName name.toList) (h : n < 2 ^ 64) :
    Field.Plain (name.toList, decimal n) :=
  ⟨hname, plainValue_decimal h⟩

theorem Field.plain_bitsHex {name : String} {value : Binary64} (hname : PlainName name.toList) :
    Field.Plain (name.toList, bitsHex value) :=
  ⟨hname, plainValue_bitsHex value⟩

theorem Field.plain_toHex {name : String} {digest : Sha256Digest} (hname : PlainName name.toList) :
    Field.Plain (name.toList, toHex digest) :=
  ⟨hname, plainValue_toHex digest⟩

theorem Field.plain_point {name : String} {point : FailurePoint} (hname : PlainName name.toList) :
    Field.Plain (name.toList, failurePointName point) :=
  ⟨hname, plainValue_failurePointName point⟩

theorem plain_specFields (spec : RunSpec) : ∀ field ∈ specFields spec, field.Plain := by
  have hflag : (if spec.antithetic then 1 else 0) < 2 ^ 64 := by split <;> omega
  simp only [specFields, List.forall_mem_cons]
  exact ⟨Field.plain_decimal (by decide) spec.engineVersion.toNat_lt,
    Field.plain_decimal (by decide) spec.rngVersion.toNat_lt,
    Field.plain_decimal (by decide) (spec.statsSchemaVersion.toNat_lt.trans (by omega)),
    Field.plain_decimal (by decide) (spec.modelType.code.toNat_lt.trans (by omega)),
    Field.plain_decimal (by decide) (spec.payoffType.code.toNat_lt.trans (by omega)),
    Field.plain_decimal (by decide) hflag,
    Field.plain_decimal (by decide) spec.globalSeed.toNat_lt,
    Field.plain_decimal (by decide) spec.totalScenarios.toNat_lt,
    Field.plain_decimal (by decide) (spec.numTimeSteps.toNat_lt.trans (by omega)),
    Field.plain_bitsHex (by decide), Field.plain_bitsHex (by decide),
    Field.plain_bitsHex (by decide), Field.plain_bitsHex (by decide), by simp⟩

theorem plain_modelFields (spec : RunSpec) : ∀ field ∈ modelFields spec, field.Plain := by
  unfold modelFields
  split
  · simp only [List.forall_mem_cons]
    exact ⟨Field.plain_bitsHex (by decide), by simp⟩
  · cases spec.heston with
    | none => simp
    | some heston =>
      simp only [List.forall_mem_cons]
      exact ⟨Field.plain_decimal (by decide)
          (heston.discretizationVersion.toNat_lt.trans (by omega)),
        Field.plain_bitsHex (by decide), Field.plain_bitsHex (by decide),
        Field.plain_bitsHex (by decide), Field.plain_bitsHex (by decide),
        Field.plain_bitsHex (by decide), by simp⟩

theorem plain_engineFields {config : EngineConfig} (h : config.Sized) :
    ∀ field ∈ engineFields config, field.Plain := by
  simp only [engineFields, List.forall_mem_cons]
  exact ⟨Field.plain_decimal (by decide) h.workerCount,
    Field.plain_decimal (by decide) config.blockSize.toNat_lt,
    Field.plain_decimal (by decide) h.assignmentQueueCapacity,
    Field.plain_decimal (by decide) h.completionQueueCapacity,
    Field.plain_decimal (by decide) config.maxMaterializedBlocks.toNat_lt, by simp⟩

theorem plain_policyFields (d : ReplayDescriptor) : ∀ field ∈ policyFields d, field.Plain := by
  simp only [policyFields, List.forall_mem_cons]
  exact ⟨Field.plain_decimal (by decide) d.checkpointIntervalBlocks.toNat_lt,
    Field.plain_decimal (by decide) d.maxStorageBytes.toNat_lt,
    Field.plain_decimal (by decide) d.maxStorageFiles.toNat_lt,
    Field.plain_decimal (by decide) d.minFreeSpaceBytes.toNat_lt,
    Field.plain_decimal (by decide) d.maxManifestBytes.toNat_lt,
    Field.plain_decimal (by decide) d.injection.failureSeed.toNat_lt,
    Field.plain_decimal (by decide) d.injection.deterministicSchedulerSeed.toNat_lt,
    Field.plain_point (by decide),
    Field.plain_decimal (by decide) d.injection.selectedOccurrence.toNat_lt, by simp⟩

theorem plain_traceFields (d : ReplayDescriptor) : ∀ field ∈ traceFields d, field.Plain := by
  simp only [traceFields, List.forall_mem_cons]
  exact ⟨Field.plain_toHex (by decide), Field.plain_decimal (by decide) d.observedTraceEvents.toNat_lt,
    Field.plain_decimal (by decide) d.runIncarnation.toNat_lt,
    Field.plain_decimal (by decide) d.blockId.toNat_lt,
    Field.plain_decimal (by decide) d.checkpointSequence.toNat_lt, by simp⟩

theorem plain_checksumField (body : Text) : (checksumField body).Plain :=
  Field.plain_toHex (by decide)

theorem plain_descriptorFields {d : ReplayDescriptor} (h : d.engineConfig.Sized) :
    ∀ field ∈ descriptorFields d, field.Plain := by
  have hformat : Field.Plain ("format".toList, kReplayMagic) := ⟨by decide, by decide, by decide⟩
  have hversion : Field.Plain ("version".toList, decimal d.version.toNat) :=
    Field.plain_decimal (by decide) (d.version.toNat_lt.trans (by omega))
  unfold descriptorFields
  simp only [List.forall_mem_append, List.forall_mem_cons]
  exact ⟨⟨⟨⟨⟨⟨hformat, hversion, Field.plain_toHex (by decide), Field.plain_toHex (by decide),
    by simp⟩, plain_specFields d.spec⟩, plain_modelFields d.spec⟩, plain_engineFields h⟩,
    plain_policyFields d⟩, plain_traceFields d⟩

theorem length_descriptorFields_le (d : ReplayDescriptor) : (descriptorFields d).length ≤ 63 := by
  have hmodel : (modelFields d.spec).length ≤ 6 := by
    unfold modelFields
    split
    · simp
    · split <;> simp
  simp only [descriptorFields, List.length_append, specFields, engineFields, policyFields,
    traceFields, List.length_cons, List.length_nil]
  omega

/-- What stands before a separator that it does not contain. -/
theorem takeWhile_separator {c : Char} {text rest : Text} (h : c ∉ text) :
    (text ++ c :: rest).takeWhile (· ≠ c) = text := by
  rw [List.takeWhile_append_of_pos fun x hx => by
    simpa using fun hxc : x = c => h (hxc ▸ hx)]
  simp

theorem dropWhile_separator {c : Char} {text rest : Text} (h : c ∉ text) :
    (text ++ c :: rest).dropWhile (· ≠ c) = c :: rest := by
  rw [List.dropWhile_append_of_pos fun x hx => by
    simpa using fun hxc : x = c => h (hxc ▸ hx)]
  simp

/-- One line is one field. -/
theorem readFieldsFrom_line {field : Field} (h : field.Plain) (fuel : ℕ) (rest : Text)
    {fields : List Field} (hcount : fields.length < 64) :
    readFieldsFrom (fuel + 1) (field.line ++ rest) fields =
      readFieldsFrom fuel rest (fields ++ [field]) := by
  obtain ⟨⟨hne, hname, hequals, hnewline⟩, hvalue, hnewline'⟩ := h
  obtain ⟨name, value⟩ := field
  have hline : '\n' ∉ name ++ '=' :: value := by
    simp only [List.mem_append, List.mem_cons, not_or]
    exact ⟨hnewline, by decide, hnewline'⟩
  have hwhole : Field.line (name, value) ++ rest = (name ++ '=' :: value) ++ '\n' :: rest := by
    simp [Field.line]
  have hlong : decide (kMaxReplayDescriptorLineBytes < (name ++ '=' :: value).length) = false := by
    rw [decide_eq_false_iff_not, kMaxReplayDescriptorLineBytes, List.length_append, List.length_cons]
    dsimp only at hname hvalue
    omega
  have hfull : decide (fields.length = kMaxReplayDescriptorFields) = false := by
    rw [decide_eq_false_iff_not, kMaxReplayDescriptorFields]
    omega
  have hempty : decide (name = []) = false := decide_eq_false hne
  rw [readFieldsFrom, hwhole]
  · simp only [takeWhile_separator hline, dropWhile_separator hline, takeWhile_separator hequals,
      dropWhile_separator hequals, hlong, hfull, hempty, throwIf_false, Result.ok_bind]
  · rw [hwhole]
    simp

/-- The lines of a text are its fields. -/
theorem readFieldsFrom_lines {lines : List Field} (h : ∀ field ∈ lines, field.Plain) (fuel : ℕ)
    (hfuel : lines.length ≤ fuel) {fields : List Field} (hcount : fields.length + lines.length ≤ 64) :
    readFieldsFrom fuel (lines.flatMap Field.line) fields = .ok (fields ++ lines) := by
  induction lines generalizing fuel fields with
  | nil => cases fuel <;> simp [readFieldsFrom]
  | cons field lines ih =>
    rw [List.length_cons] at hfuel hcount
    cases fuel with
    | zero => omega
    | succ fuel =>
      rw [List.flatMap_cons, readFieldsFrom_line (h field List.mem_cons_self) fuel _ (by omega),
        ih (fun f hf => h f (List.mem_cons_of_mem _ hf)) fuel (by omega)
          (by rw [List.length_append, List.length_singleton]; omega),
        List.append_assoc, List.singleton_append]

theorem length_line (field : Field) :
    field.line.length = field.1.length + field.2.length + 2 := by
  simp only [Field.line, List.length_append, List.length_cons, List.length_nil]
  omega

theorem length_lines_le {lines : List Field} (h : ∀ field ∈ lines, field.Plain) :
    lines.length ≤ (lines.flatMap Field.line).length ∧
      (lines.flatMap Field.line).length ≤ 130 * lines.length := by
  induction lines with
  | nil => simp
  | cons field lines ih =>
    obtain ⟨hlower, hupper⟩ := ih fun f hf => h f (List.mem_cons_of_mem _ hf)
    obtain ⟨⟨-, hname, -, -⟩, hvalue, -⟩ := h field List.mem_cons_self
    rw [List.flatMap_cons, List.length_append, length_line, List.length_cons]
    omega

theorem readFields_lines {lines : List Field} (h : ∀ field ∈ lines, field.Plain)
    (hcount : lines.length ≤ 64) : readFields (lines.flatMap Field.line) = .ok lines :=
  readFieldsFrom_lines h _ (length_lines_le h).1 (by simpa using hcount)

theorem getLast?_lines {lines : List Field} (h : lines ≠ []) :
    (lines.flatMap Field.line).getLast? = some '\n' := by
  obtain ⟨init, last, rfl⟩ := List.eq_nil_or_concat lines |>.resolve_left h
  rw [List.concat_eq_append, List.flatMap_append, List.flatMap_singleton, Field.line,
    ← List.append_assoc, List.getLast?_concat]

/-- The last line, after lines that end with a newline. -/
theorem finalLine_line {body : Text} (hbody : body.getLast? = some '\n') {field : Field}
    (h : field.Plain) : finalLine (body ++ field.line) = field.1 ++ '=' :: field.2 := by
  obtain ⟨⟨-, -, -, hname⟩, -, hvalue⟩ := h
  have hline : '\n' ∉ (field.1 ++ '=' :: field.2).reverse := by
    simp only [List.mem_reverse, List.mem_append, List.mem_cons, not_or]
    exact ⟨hname, by decide, hvalue⟩
  obtain ⟨init, rfl⟩ : ∃ init, body = init ++ ['\n'] := by
    obtain ⟨init, last, hinit⟩ := List.eq_nil_or_concat body |>.resolve_left (by
      rintro rfl; cases hbody)
    rw [List.concat_eq_append] at hinit
    rw [hinit, List.getLast?_concat] at hbody
    exact ⟨init, by rw [hinit, Option.some.inj hbody]⟩
  have hlast : (init ++ ['\n'] ++ field.line).dropLast.reverse =
      (field.1 ++ '=' :: field.2).reverse ++ '\n' :: init.reverse := by
    rw [Field.line, ← List.append_assoc, List.dropLast_concat, List.reverse_append,
      List.reverse_concat]
  rw [finalLine, hlast, takeWhile_separator hline, List.reverse_reverse]

/-! ## The whole file -/

section WholeFile

variable {d : ReplayDescriptor}

/-- The file is the lines of its fields. -/
theorem encodeDescriptor_eq (d : ReplayDescriptor) :
    encodeDescriptor d = (descriptorFields d ++ [checksumField (encodeDescriptorBody d)]).flatMap
      Field.line := by
  rw [List.flatMap_append, List.flatMap_singleton]
  rfl

theorem plain_encoded (h : d.engineConfig.Sized) :
    ∀ field ∈ descriptorFields d ++ [checksumField (encodeDescriptorBody d)], field.Plain := by
  rw [List.forall_mem_append]
  refine ⟨plain_descriptorFields h, fun field hfield => ?_⟩
  rw [List.mem_singleton.mp hfield]
  exact plain_checksumField _

theorem readFields_encodeDescriptor (h : d.engineConfig.Sized) :
    readFields (encodeDescriptor d) =
      .ok (descriptorFields d ++ [checksumField (encodeDescriptorBody d)]) := by
  have hcount := length_descriptorFields_le d
  rw [encodeDescriptor_eq, readFields_lines (plain_encoded h)]
  rw [List.length_append, List.length_singleton]
  omega

theorem readDescriptorBytes_encodeDescriptor (h : d.engineConfig.Sized) :
    readDescriptorBytes (encodeDescriptor d) = .ok (encodeDescriptor d) := by
  have hlast : (encodeDescriptor d).getLast? = some '\n' := by
    rw [encodeDescriptor_eq]
    exact getLast?_lines (by simp)
  have hshort : ¬ kMaxReplayDescriptorBytes < (encodeDescriptor d).length := by
    have hbound := (length_lines_le (plain_encoded h)).2
    have hcount := length_descriptorFields_le d
    rw [← encodeDescriptor_eq, List.length_append, List.length_singleton] at hbound
    rw [kMaxReplayDescriptorBytes]
    omega
  rw [readDescriptorBytes, decide_eq_false hshort, hlast]
  rfl

theorem verifyDescriptorChecksum_encodeDescriptor :
    verifyDescriptorChecksum (encodeDescriptor d) =
      .ok (sha256 (byteSpan (encodeDescriptorBody d))) := by
  have hbody : (encodeDescriptorBody d).getLast? = some '\n' :=
    getLast?_lines (by simp [descriptorFields])
  have hline : finalLine (encodeDescriptor d) = (checksumField (encodeDescriptorBody d)).1 ++
      '=' :: (checksumField (encodeDescriptorBody d)).2 := by
    rw [encodeDescriptor, finalLine_line hbody (plain_checksumField _)]
  have hfinal : finalLine (encodeDescriptor d) =
      checksumPrefix ++ toHex (sha256 (byteSpan (encodeDescriptorBody d))) := hline
  have htake : (encodeDescriptor d).take
      ((encodeDescriptor d).length - 1 - (finalLine (encodeDescriptor d)).length) =
        encodeDescriptorBody d := by
    have hlength : (encodeDescriptor d).length = (encodeDescriptorBody d).length +
        (finalLine (encodeDescriptor d)).length + 1 := by
      rw [hline, encodeDescriptor, List.length_append, length_line, List.length_append,
        List.length_cons]
      omega
    rw [hlength, Nat.add_sub_cancel, Nat.add_sub_cancel, encodeDescriptor, List.take_left]
  rw [verifyDescriptorChecksum]
  simp only [htake]
  rw [hfinal, List.drop_left, parseDigest_toHex, List.isPrefixOf_iff_prefix.mpr
    (List.prefix_append _ _)]
  simp only [Bool.not_true, throwIf_false, Result.ok_bind, ne_eq, not_true_eq_false, decide_false]
  rfl

theorem isPrefixOf_kReplayV1Prefix (d : ReplayDescriptor) :
    kReplayV1Prefix.isPrefixOf (encodeDescriptor d) = false := by
  have hfirst : encodeDescriptor d = "format=mc-r3-replay-v2\n".toList ++
      ((descriptorFields d).tail.flatMap Field.line ++
        (checksumField (encodeDescriptorBody d)).line) := by
    rfl
  rw [hfirst]
  rfl

theorem descriptorFields_recorded (d : ReplayDescriptor) :
    descriptorFields d.recorded = descriptorFields d := by
  have hspec : specFields d.spec.persisted = specFields d.spec := by
    rcases d.spec.persisted_eq with h | ⟨-, h⟩ <;> rw [h]
    rfl
  have hmodel : modelFields d.spec.persisted = modelFields d.spec := by
    rcases d.spec.persisted_eq with h | ⟨hmodel, h⟩
    · rw [h]
    · rw [h, modelFields, modelFields, if_neg hmodel, if_neg hmodel]
  change _ ++ specFields d.spec.persisted ++ modelFields d.spec.persisted ++ _ ++ _ ++ _ = _
  rw [hspec, hmodel]
  rfl

theorem encodeDescriptor_recorded (d : ReplayDescriptor) :
    encodeDescriptor d.recorded = encodeDescriptor d := by
  simp only [encodeDescriptor, encodeDescriptorBody, descriptorFields_recorded]

theorem checkDescriptor_recorded (h : d.WellFormed) :
    checkDescriptor d.recorded (encodeDescriptor d) = .ok () := by
  have hspec : d.spec.persisted.validate = .ok () := by rw [RunSpec.validate_persisted, h.spec]
  have hengine : d.engineConfig.validate d.spec.persisted = .ok () := by
    rw [RunSpec.engineValidate_persisted, h.engineConfig]
  have hhash : runSpecHash d.spec.persisted = .ok d.runSpecHash := by
    rw [RunSpec.runSpecHash_persisted, h.specHash]
  have hmin : ¬ d.maxManifestBytes < 256 := by
    rw [UInt64.lt_iff_toNat_lt]
    exact Nat.not_lt.mpr (UInt64.le_iff_toNat_le.mp h.manifestBytes)
  have hmax : ¬ d.maxStorageBytes < d.maxManifestBytes := by
    rw [UInt64.lt_iff_toNat_lt]
    exact Nat.not_lt.mpr (UInt64.le_iff_toNat_le.mp h.manifestLe)
  simp only [checkDescriptor, encodeDescriptor_recorded]
  simp only [ReplayDescriptor.recorded, hspec, hengine, hhash, Result.ok_bind, h.singleWorker,
    h.cadence, h.storageBytes, h.storageFiles, hmin, hmax, decide_false, Bool.or_self,
    throwIf_false, ne_eq, not_true_eq_false]

theorem readReplayDescriptor_encodeDescriptor (h : d.WellFormed) {path : String}
    (hpath : path ≠ "") : readReplayDescriptor path (encodeDescriptor d) = .ok { d with
      spec := d.spec.persisted
      injection := { d.injection with replayDescriptorPath := path } } := by
  have hinjection : ({ d.injection with replayDescriptorPath := path } :
      FailureInjectionConfig).validate = .ok () := by
    have hvalid := h.injection
    simp only [FailureInjectionConfig.validate, parseFailurePoint_name, Result.ok_bind,
      Result.bind_eq_ok, throwIf_eq_ok, exists_const] at hvalid ⊢
    exact ⟨hvalid.1, decide_eq_false hpath, hvalid.2.2⟩
  have hchecksum := verifyDescriptorChecksum_encodeDescriptor (d := d)
  have hfields : readFields (encodeDescriptor d) = .ok (descriptorFields d ++
      [("descriptor_sha256".toList, toHex (sha256 (byteSpan (encodeDescriptorBody d))))]) :=
    readFields_encodeDescriptor h.sized
  simp only [readReplayDescriptor, readDescriptorBytes_encodeDescriptor h.sized, Result.ok_bind,
    isPrefixOf_kReplayV1Prefix, throwIf_false, hchecksum, hfields, FieldReader.run_all h,
    ne_eq, not_true_eq_false, decide_false, checkDescriptor_recorded h]
  simp only [ReplayDescriptor.recorded, hinjection, Result.ok_bind]
  rfl

end WholeFile

/-! ## The descriptors that are written -/

/-- `d'` differs from `d` in what the trace has recorded only. -/
def ReplayDescriptor.SameRun (d d' : ReplayDescriptor) : Prop :=
  ∃ hash events incarnation block sequence, d' = { d with
    observedTraceHash := hash
    observedTraceEvents := events
    runIncarnation := incarnation
    blockId := block
    checkpointSequence := sequence }

theorem ReplayDescriptor.SameRun.refl (d : ReplayDescriptor) : d.SameRun d :=
  ⟨d.observedTraceHash, d.observedTraceEvents, d.runIncarnation, d.blockId,
    d.checkpointSequence, rfl⟩

theorem ReplayDescriptor.SameRun.trans {d d' d'' : ReplayDescriptor} (h : d.SameRun d')
    (h' : d'.SameRun d'') : d.SameRun d'' := by
  obtain ⟨_, _, _, _, _, rfl⟩ := h
  obtain ⟨hash, events, incarnation, block, sequence, rfl⟩ := h'
  exact ⟨hash, events, incarnation, block, sequence, rfl⟩

theorem ReplayDescriptor.SameRun.wellFormed {d d' : ReplayDescriptor} (h : d.SameRun d')
    (hd : d.WellFormed) : d'.WellFormed := by
  obtain ⟨_, _, _, _, _, rfl⟩ := h
  exact ⟨hd.version, hd.spec, hd.engineConfig, hd.sized, hd.singleWorker, hd.cadence,
    hd.storageBytes, hd.storageFiles, hd.manifestBytes, hd.manifestLe, hd.specHash, hd.injection⟩

/-- What `hit` leaves behind, whether it returns or not. -/
def HitOutcome.descriptor : HitOutcome → ReplayDescriptor
  | .continues injector => injector.descriptor
  | .crashes descriptor => descriptor

/-- One failure point changes the recorded trace only. -/
theorem FailureInjector.sameRun_hit (injector : FailureInjector) (point : FailurePoint)
    (context : FailureContext) :
    injector.descriptor.SameRun (injector.hit point context).descriptor := by
  unfold FailureInjector.hit
  split
  · exact .refl _
  · dsimp only
    split
    · exact ⟨_, _, _, _, _, rfl⟩
    · split
      · exact ⟨_, _, _, _, _, rfl⟩
      · exact ⟨_, _, _, _, _, rfl⟩

/-- So does a whole run. -/
theorem FailureInjector.sameRun_hitAll (injector : FailureInjector)
    (hits : List (FailurePoint × FailureContext)) :
    injector.descriptor.SameRun (injector.hitAll hits).descriptor := by
  induction hits generalizing injector with
  | nil => exact .refl _
  | cons hit rest ih =>
    obtain ⟨point, context⟩ := hit
    have hstep := injector.sameRun_hit point context
    rw [FailureInjector.hitAll]
    cases hhit : injector.hit point context with
    | continues next =>
      rw [hhit] at hstep
      exact hstep.trans (ih next)
    | crashes descriptor =>
      rw [hhit] at hstep
      exact hstep

/-- An injector that is not enabled never crashes. -/
theorem FailureInjector.enabled_of_crashes {injector : FailureInjector}
    {hits : List (FailurePoint × FailureContext)} {descriptor : ReplayDescriptor}
    (h : injector.hitAll hits = .crashes descriptor) : injector.enabled = true := by
  induction hits with
  | nil => cases h
  | cons hit rest ih =>
    obtain ⟨point, context⟩ := hit
    by_contra hdisabled
    have hhit : injector.hit point context = .continues injector := by
      rw [FailureInjector.hit, Bool.not_eq_true _ |>.mp hdisabled]
      rfl
    rw [FailureInjector.hitAll, hhit] at h
    exact hdisabled (ih h)

/-- The cadence is the only thing that is resolved. -/
theorem resolveCheckpointCadence_eq (config : RunStoreConfig) (count : UInt64) :
    ∃ cadence, resolveCheckpointCadence config count =
      { config with checkpointIntervalBlocks := cadence } := by
  unfold resolveCheckpointCadence
  split
  · exact ⟨_, rfl⟩
  · exact ⟨_, rfl⟩

theorem checkpointIntervalBlocks_resolveCheckpointCadence (config : RunStoreConfig)
    (count : UInt64) : (resolveCheckpointCadence config count).checkpointIntervalBlocks ≠ 0 := by
  unfold resolveCheckpointCadence
  split
  · assumption
  · dsimp only
    unfold maxOfWords
    split
    · rename_i hlt
      intro hzero
      rw [hzero, UInt64.lt_iff_toNat_lt] at hlt
      exact Nat.not_lt_zero _ hlt
    · decide

/-- The constructor makes a well-formed descriptor. -/
theorem FailureInjector.wellFormed_new {build : BuildIdentity} {spec : RunSpec}
    {engineConfig : EngineConfig} {storeConfig : RunStoreConfig} {count : UInt64}
    {injection : Option FailureInjectionConfig} {paths : PathInspection}
    {injector : FailureInjector} (hspec : spec.validate = .ok ())
    (hengine : engineConfig.validate spec = .ok ()) (hsized : engineConfig.Sized)
    (hstore : storeConfig.validate = .ok ())
    (hnew : FailureInjector.new build spec engineConfig
      (resolveCheckpointCadence storeConfig count) injection paths = .ok injector)
    (henabled : injector.enabled = true) : injector.descriptor.WellFormed := by
  have hcadence := checkpointIntervalBlocks_resolveCheckpointCadence storeConfig count
  simp only [RunStoreConfig.validate, Result.bind_eq_ok, throwIf_eq_ok, exists_const,
    Bool.or_eq_false_iff, decide_eq_false_iff_not] at hstore
  obtain ⟨-, ⟨hbytes, hfiles⟩, hmin, hmax⟩ := hstore
  cases injection with
  | none =>
    cases hnew
    cases henabled
  | some injection =>
    simp only [new, Result.bind_eq_ok, throwIf_eq_ok, exists_const, decide_eq_false_iff_not, ne_eq,
      not_not] at hnew
    obtain ⟨hworkers, ⟨⟩, hinjection, -, -, -, -, -, -, specHash, hhash, hinjector⟩ := hnew
    cases hinjector
    obtain ⟨cadence, hconfig⟩ := resolveCheckpointCadence_eq storeConfig count
    rw [hconfig] at hcadence ⊢
    exact
      { version := rfl
        spec := hspec
        engineConfig := hengine
        sized := hsized
        singleWorker := hworkers
        cadence := hcadence
        storageBytes := hbytes
        storageFiles := hfiles
        manifestBytes := UInt64.not_lt.mp hmin
        manifestLe := UInt64.not_lt.mp hmax
        specHash := hhash
        injection := hinjection }

/-- What the constructor of an injector and any failure points of a run lead to is read back:
nothing is lost but the replay path and an inactive volatility. -/
theorem descriptor_readable {build : BuildIdentity} {spec : RunSpec} {engineConfig : EngineConfig}
    {storeConfig : RunStoreConfig} {count : UInt64} {injection : Option FailureInjectionConfig}
    {paths : PathInspection} {injector : FailureInjector}
    {hits : List (FailurePoint × FailureContext)} {descriptor : ReplayDescriptor} {path : String}
    (hspec : spec.validate = .ok ()) (hengine : engineConfig.validate spec = .ok ())
    (hsized : engineConfig.Sized) (hstore : storeConfig.validate = .ok ())
    (hnew : FailureInjector.new build spec engineConfig
      (resolveCheckpointCadence storeConfig count) injection paths = .ok injector)
    (hcrash : injector.hitAll hits = .crashes descriptor) (hpath : path ≠ "") :
    readReplayDescriptor path (encodeDescriptor descriptor) = .ok { descriptor with
      spec := descriptor.spec.persisted
      injection := { descriptor.injection with replayDescriptorPath := path } } := by
  have hwell := FailureInjector.wellFormed_new hspec hengine hsized hstore hnew
    (FailureInjector.enabled_of_crashes hcrash)
  have hsame := injector.sameRun_hitAll hits
  rw [hcrash] at hsame
  exact readReplayDescriptor_encodeDescriptor (hsame.wellFormed hwell) hpath

/-- An injector of the default run that stops at the second installation of a manifest. -/
def secondManifestInjector : Result FailureInjector :=
  FailureInjector.new ⟨[1, 2, 3]⟩ .defaults .defaults (resolveCheckpointCadence (.defaults "/run") 49)
    (some ⟨.manifestAfterRename, 2, 7, 0, "/replay"⟩) ⟨.ok false, .ok false⟩

/-- Three failure points of a run; the last one is selected. -/
def threeHits : List (FailurePoint × FailureContext) :=
  [(.manifestAfterRename, ⟨1, kNoFailureContext, 1⟩), (.resultBeforeRename, ⟨1, 0, kNoFailureContext⟩),
    (.manifestAfterRename, ⟨1, kNoFailureContext, 2⟩)]

theorem descriptor_readable_second_manifest :
    ∃ injector descriptor, secondManifestInjector = .ok injector ∧
      injector.hitAll threeHits = .crashes descriptor ∧
      readReplayDescriptor "/copy" (encodeDescriptor descriptor) = .ok { descriptor with
        spec := descriptor.spec.persisted
        injection := { descriptor.injection with replayDescriptorPath := "/copy" } } := by
  have hcrashes : (match secondManifestInjector with
      | .ok injector => match injector.hitAll threeHits with
        | .crashes _ => true
        | .continues _ => false
      | .error _ => false) = true := by
    decide +kernel
  cases hnew : secondManifestInjector with
  | error e => rw [hnew] at hcrashes; cases hcrashes
  | ok injector =>
    cases hcrash : injector.hitAll threeHits with
    | continues next => rw [hnew] at hcrashes; simp only [hcrash] at hcrashes; cases hcrashes
    | crashes descriptor =>
      exact ⟨injector, descriptor, rfl, hcrash, descriptor_readable (by decide)
        (by decide) ⟨by decide, by decide, by decide⟩ (by decide) hnew hcrash
        (by decide)⟩

end MonteCarlo
