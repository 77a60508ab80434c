import MonteCarlo.Engine.Fulfilled
import MonteCarlo.Replay.Readable
import MonteCarlo.Tools.Bootstrap

/-!
# The crash matrix

`run_crash_matrix.cpp`: the case that is made of a failure seed.  Its layout comes from slices of
a mixed word, and has to be such that its run passes the failure point selected by the seed as
often as the seed asks for.

* `makeCase`, `failureInjectionFromSeed` — the case and the failure it selects.
* `makeCase_valid` — every case passes every check.
* `FailureInjector.stops_of_passed` — the process ends at the selected occurrence.
-/

namespace MonteCarlo

open Effects Effects.Program

/-- `mix_seed`. -/
def mixSeed (value : UInt64) : UInt64 := splitmix64Finalizer (value + 0x9E3779B97F4A7C15)

/-- `failure_injection_from_seed`. -/
def failureInjectionFromSeed (failureSeed : UInt64) (replayDescriptorPath : String) :
    FailureInjectionConfig :=
  let mixed := mixSeed failureSeed
  { selectedPoint := kFailurePoints.getD (mixed % 9).toNat .resultBeforeFileFsync
    selectedOccurrence := (1 : UInt64) + ((mixed >>> 8) &&& 1)
    failureSeed := failureSeed
    deterministicSchedulerSeed := 0
    replayDescriptorPath := replayDescriptorPath }

/-- `MatrixCase`, with the failure that its store is to inject. -/
structure MatrixCase where
  spec : RunSpec
  engineConfig : EngineConfig
  storeConfig : RunStoreConfig
  injection : FailureInjectionConfig

/-- `base + step * static_cast<double>(slice)`. -/
def matrixParameter (base step : Binary64) (slice : UInt64) : Binary64 :=
  Binary64.add base (Binary64.mul step (.ofUInt64 slice))

/-- The Heston parameters of a case. -/
def matrixHeston (topology : UInt64) : HestonParams where
  initialVariance :=
    matrixParameter ⟨0x3F947AE147AE147B⟩ ⟨0x3F847AE147AE147B⟩ ((topology >>> 4) % 4)
  meanReversionRate :=
    matrixParameter ⟨0x3FE8000000000000⟩ ⟨0x3FD0000000000000⟩ ((topology >>> 6) % 5)
  longRunVariance :=
    matrixParameter ⟨0x3F9EB851EB851EB8⟩ ⟨0x3F847AE147AE147B⟩ ((topology >>> 9) % 4)
  volatilityOfVariance :=
    matrixParameter ⟨0x3FC999999999999A⟩ ⟨0x3FB999999999999A⟩ ((topology >>> 11) % 4)
  correlation :=
    matrixParameter ⟨0xBFE999999999999A⟩ ⟨0x3FC999999999999A⟩ ((topology >>> 14) % 9)
  discretizationVersion := kHestonDiscretizationVersion

def matrixBlockSizes : List UInt64 := [16, 24, 32, 48, 64, 96]
def matrixQueueCapacities : List ℕ := [0, 1, 2, 4]

/-- `block_count`. -/
def matrixBlockCount (topology : UInt64) : UInt64 :=
  (3 : UInt64) + ((topology >>> 20) % 8)

/-- `block_sizes[(topology >> 12U) % block_sizes.size()]`. -/
def matrixBlockSize (topology : UInt64) : UInt64 :=
  matrixBlockSizes.getD ((topology >>> 12) % 6).toNat 0

/-- `(topology & 2U) != 0U`. -/
def matrixAntithetic (topology : UInt64) : Bool := topology &&& 2 ≠ 0

/-- The scenarios of the last block. -/
def matrixTail (topology : UInt64) : UInt64 :=
  let tailUnits :=
    if matrixAntithetic topology then matrixBlockSize topology / 2 else matrixBlockSize topology
  let tailMultiplier : UInt64 := if matrixAntithetic topology then 2 else 1
  tailMultiplier * ((1 : UInt64) + ((topology >>> 28) % tailUnits))

/-- `checkpoint_interval_blocks`. -/
def matrixInterval (topology : UInt64) : UInt64 :=
  let most :=
    if matrixBlockCount topology - 1 < 4 then matrixBlockCount topology - 1 else 4
  (1 : UInt64) + ((topology >>> 52) % most)

/-- The number of scenarios of a case. -/
def matrixTotal (topology : UInt64) : UInt64 :=
  (matrixBlockCount topology - 1) * matrixBlockSize topology + matrixTail topology

/-- `test_case.spec`. -/
def matrixSpec (failureSeed topology : UInt64) : RunSpec :=
  { RunSpec.defaults with
    globalSeed := 0xD1B54A32D192ED03 ^^^ failureSeed
    numTimeSteps := ((1 : UInt64) + ((topology >>> 8) % 4)).toUInt32
    payoffType := if topology &&& 1 = 0 then .europeanCall else .asianCall
    antithetic := matrixAntithetic topology
    modelType := if topology &&& 4 ≠ 0 then .heston else .gbm
    heston := if topology &&& 4 ≠ 0 then some (matrixHeston topology) else none
    totalScenarios := matrixTotal topology }

/-- `test_case.engine_config`. -/
def matrixEngine (topology : UInt64) : EngineConfig :=
  { EngineConfig.defaults with
    workerCount := 1
    blockSize := matrixBlockSize topology
    assignmentQueueCapacity := matrixQueueCapacities.getD ((topology >>> 36) % 4).toNat 0
    completionQueueCapacity := matrixQueueCapacities.getD ((topology >>> 44) % 4).toNat 0 }

/-- `test_case.store_config`. -/
def matrixStore (topology : UInt64) (caseDirectory : String) : RunStoreConfig :=
  { RunStoreConfig.defaults (joinPath caseDirectory "run") with
    checkpointIntervalBlocks := matrixInterval topology
    minFreeSpaceBytes := 0 }

/-- `make_case`. -/
def makeCase (failureSeed : UInt64) (caseDirectory : String) : MatrixCase :=
  let topology := mixSeed (failureSeed ^^^ 0xA0761D6478BD642F)
  { spec := matrixSpec failureSeed topology
    engineConfig := matrixEngine topology
    storeConfig := matrixStore topology caseDirectory
    injection := failureInjectionFromSeed failureSeed (joinPath caseDirectory "failure.replay") }

/-! ## The slices -/

section Slices

/-- What is checked for the first words holds of every remainder. -/
theorem of_all {words : List UInt64} {P : UInt64 → Bool} (h : words.all P = true) {bound : UInt64}
    (hpos : 0 < bound.toNat) (hwords : (List.range bound.toNat).map UInt64.ofNat = words)
    (word : UInt64) : P (word % bound) = true := by
  refine List.all_eq_true.mp h _ ?_
  rw [← hwords, List.mem_map]
  refine ⟨(word % bound).toNat, List.mem_range.mpr ?_, UInt64.ofNat_toNat⟩
  rw [UInt64.toNat_mod]
  exact Nat.mod_lt _ hpos

theorem toNat_mod_lt (word bound : UInt64) (hbound : 0 < bound.toNat) :
    (word % bound).toNat < bound.toNat := by
  rw [UInt64.toNat_mod]
  exact Nat.mod_lt _ hbound

variable (topology : UInt64)

theorem toNat_matrixBlockCount :
    (matrixBlockCount topology).toNat = 3 + (topology >>> 20).toNat % 8 := by
  have hslice : ((topology >>> 20) % 8).toNat = (topology >>> 20).toNat % 8 := UInt64.toNat_mod ..
  have hlt := Nat.mod_lt (topology >>> 20).toNat (show 0 < 8 by decide)
  rw [matrixBlockCount, UInt64.toNat_add, hslice]
  exact Nat.mod_eq_of_lt (by show 3 + _ < 2 ^ 64; omega)

theorem matrixBlockCount_bounds :
    3 ≤ (matrixBlockCount topology).toNat ∧ (matrixBlockCount topology).toNat ≤ 10 := by
  rw [toNat_matrixBlockCount]
  omega

/-- The size of a block is one of six even numbers. -/
theorem matrixBlockSize_bounds :
    16 ≤ (matrixBlockSize topology).toNat ∧ (matrixBlockSize topology).toNat ≤ 96 ∧
      (matrixBlockSize topology).toNat % 2 = 0 := by
  have hall := @of_all [0, 1, 2, 3, 4, 5] (fun slice =>
    let size := (matrixBlockSizes.getD slice.toNat 0).toNat
    16 ≤ size ∧ size ≤ 96 ∧ size % 2 = 0) (by decide) 6 (by decide) (by decide) (topology >>> 12)
  rw [decide_eq_true_eq] at hall
  exact hall

theorem matrixTail_bounds :
    0 < (matrixTail topology).toNat ∧
      (matrixTail topology).toNat ≤ (matrixBlockSize topology).toNat ∧
      (matrixAntithetic topology = true → (matrixTail topology).toNat % 2 = 0) := by
  obtain ⟨hlow, hhigh, heven⟩ := matrixBlockSize_bounds topology
  unfold matrixTail
  cases matrixAntithetic topology with
  | true =>
    have hhalf : (matrixBlockSize topology / 2).toNat = (matrixBlockSize topology).toNat / 2 :=
      UInt64.toNat_div ..
    have hlt := toNat_mod_lt (topology >>> 28) (matrixBlockSize topology / 2) (by omega)
    simp only [if_true]
    rw [UInt64.toNat_mul, UInt64.toNat_add, UInt64.toNat_one, show (2 : UInt64).toNat = 2 from rfl]
    omega
  | false =>
    have hlt := toNat_mod_lt (topology >>> 28) (matrixBlockSize topology) (by omega)
    simp only [Bool.false_eq_true, if_false]
    rw [UInt64.one_mul, UInt64.toNat_add, UInt64.toNat_one]
    refine ⟨by omega, by omega, nofun⟩

theorem matrixInterval_bounds :
    0 < (matrixInterval topology).toNat ∧
      (matrixInterval topology).toNat < (matrixBlockCount topology).toNat := by
  obtain ⟨hlow, hhigh⟩ := matrixBlockCount_bounds topology
  have hpred : (matrixBlockCount topology - 1).toNat = (matrixBlockCount topology).toNat - 1 := by
    rw [UInt64.toNat_sub_of_le _ _ (UInt64.le_iff_toNat_le.mpr (by
      rw [UInt64.toNat_one]
      omega)), UInt64.toNat_one]
  have hbound : ∀ bound : UInt64, 0 < bound.toNat → bound.toNat < (matrixBlockCount topology).toNat →
      0 < ((1 : UInt64) + (topology >>> 52) % bound).toNat ∧
        ((1 : UInt64) + (topology >>> 52) % bound).toNat < (matrixBlockCount topology).toNat := by
    intro bound hpos hlt
    have hmod := toNat_mod_lt (topology >>> 52) bound hpos
    rw [UInt64.toNat_add, UInt64.toNat_one]
    omega
  unfold matrixInterval
  split
  · exact hbound _ (by omega) (by omega)
  · rename_i hsmall
    rw [UInt64.lt_iff_toNat_lt, hpred] at hsmall
    exact hbound 4 (by decide) (by change 4 < _; change ¬ _ < 4 at hsmall; omega)

theorem toNat_matrixTotal : (matrixTotal topology).toNat =
    ((matrixBlockCount topology).toNat - 1) * (matrixBlockSize topology).toNat +
      (matrixTail topology).toNat := by
  obtain ⟨hlow, hhigh⟩ := matrixBlockCount_bounds topology
  obtain ⟨hsmall, hlarge, -⟩ := matrixBlockSize_bounds topology
  obtain ⟨hpos, htail, -⟩ := matrixTail_bounds topology
  have hpred : (matrixBlockCount topology - 1).toNat = (matrixBlockCount topology).toNat - 1 := by
    rw [UInt64.toNat_sub_of_le _ _ (UInt64.le_iff_toNat_le.mpr (by
      rw [UInt64.toNat_one]
      omega)), UInt64.toNat_one]
  have hproduct : ((matrixBlockCount topology).toNat - 1) * (matrixBlockSize topology).toNat ≤
      9 * 96 := Nat.mul_le_mul (by omega) hlarge
  rw [matrixTotal, UInt64.toNat_add, UInt64.toNat_mul, hpred, Nat.mod_eq_of_lt, Nat.mod_eq_of_lt]
  · omega
  · rw [Nat.mod_eq_of_lt (by omega)]
    omega

end Slices

/-! ## Every case is valid -/

theorem joinPath_ne (directory name : String) (hname : name ≠ "") :
    joinPath directory name ≠ "" := by
  have happend : ∀ first : String, first ++ name ≠ "" := by
    intro first hempty
    exact hname (String.append_eq_empty_iff.mp hempty).2
  unfold joinPath
  split
  · exact happend _
  · exact happend _

/-- The first or the second occurrence is selected. -/
theorem selectedOccurrence_bounds (seed : UInt64) (path : String) :
    1 ≤ (failureInjectionFromSeed seed path).selectedOccurrence.toNat ∧
      (failureInjectionFromSeed seed path).selectedOccurrence.toNat ≤ 2 := by
  have hbit : ((mixSeed seed >>> 8) &&& 1).toNat < 2 := by
    rw [UInt64.toNat_and]
    exact Nat.lt_of_le_of_lt Nat.and_le_right (by decide)
  show 1 ≤ ((1 : UInt64) + ((mixSeed seed >>> 8) &&& 1)).toNat ∧
    ((1 : UInt64) + ((mixSeed seed >>> 8) &&& 1)).toNat ≤ 2
  rw [UInt64.toNat_add, UInt64.toNat_one]
  omega

/-- What `FailureInjectionConfig::validate` asks for. -/
theorem FailureInjectionConfig.validate_of {config : FailureInjectionConfig}
    (hoccurrence : config.selectedOccurrence ≠ 0) (hpath : config.replayDescriptorPath ≠ "")
    (hseed : config.deterministicSchedulerSeed = 0) : config.validate = .ok () := by
  have hnot : ¬ config.deterministicSchedulerSeed ≠ 0 := not_not.mpr hseed
  rw [FailureInjectionConfig.validate, parseFailurePoint_name, decide_eq_false hoccurrence,
    decide_eq_false hpath, decide_eq_false hnot]
  rfl

/-- A failure selected by a seed passes the checks. -/
theorem validate_failureInjectionFromSeed (seed : UInt64) {path : String} (hpath : path ≠ "") :
    (failureInjectionFromSeed seed path).validate = .ok () := by
  refine FailureInjectionConfig.validate_of ?_ hpath rfl
  intro hzero
  have hlow := (selectedOccurrence_bounds seed path).1
  rw [hzero, UInt64.toNat_zero] at hlow
  omega

/-- A parameter that is checked for every slice. -/
theorem notNonnegative_slice {words : List UInt64} {base step : Binary64}
    (h : words.all (fun slice => !RunSpec.notNonnegative (matrixParameter base step slice)) = true)
    {bound : UInt64} (hpos : 0 < bound.toNat)
    (hwords : (List.range bound.toNat).map UInt64.ofNat = words) (word : UInt64) :
    RunSpec.notNonnegative (matrixParameter base step (word % bound)) = false := by
  have hall := of_all h hpos hwords word
  rwa [Bool.not_eq_true'] at hall

/-- The Heston parameters of a case pass the checks. -/
theorem validateModel_matrixHeston (topology : UInt64) {spec : RunSpec}
    (hmodel : spec.modelType = .heston) (hheston : spec.heston = some (matrixHeston topology)) :
    spec.validateModel = .ok () := by
  have hinitial := @notNonnegative_slice [0, 1, 2, 3] ⟨0x3F947AE147AE147B⟩ ⟨0x3F847AE147AE147B⟩
    (by decide +kernel) 4 (by decide) (by decide) (topology >>> 4)
  have hreversion := @notNonnegative_slice [0, 1, 2, 3, 4] ⟨0x3FE8000000000000⟩
    ⟨0x3FD0000000000000⟩ (by decide +kernel) 5 (by decide) (by decide) (topology >>> 6)
  have hlong := @notNonnegative_slice [0, 1, 2, 3] ⟨0x3F9EB851EB851EB8⟩ ⟨0x3F847AE147AE147B⟩
    (by decide +kernel) 4 (by decide) (by decide) (topology >>> 9)
  have hvolatility := @notNonnegative_slice [0, 1, 2, 3] ⟨0x3FC999999999999A⟩ ⟨0x3FB999999999999A⟩
    (by decide +kernel) 4 (by decide) (by decide) (topology >>> 11)
  have hcorrelation := @of_all [0, 1, 2, 3, 4, 5, 6, 7, 8] (fun slice =>
    let correlation := matrixParameter ⟨0xBFE999999999999A⟩ ⟨0x3FC999999999999A⟩ slice
    !(!correlation.isFinite || Binary64.lt correlation ⟨0xBFF0000000000000⟩
      || Binary64.lt 1 correlation)) (by decide +kernel) 9 (by decide) (by decide)
    (topology >>> 14)
  rw [Bool.not_eq_true'] at hcorrelation
  have hversion : ¬ kHestonDiscretizationVersion ≠ kHestonDiscretizationVersion := not_not.mpr rfl
  rw [RunSpec.validateModel, hmodel, if_neg (by decide), if_pos rfl, hheston]
  dsimp only [matrixHeston]
  rw [decide_eq_false hversion, hinitial, hreversion, hlong, hvolatility, hcorrelation]
  rfl

theorem matrixTotal_bounds (topology : UInt64) :
    0 < (matrixTotal topology).toNat ∧ (matrixTotal topology).toNat ≤ 2 ^ 40 ∧
      (matrixAntithetic topology = true → (matrixTotal topology).toNat % 2 = 0) := by
  obtain ⟨hlow, hhigh⟩ := matrixBlockCount_bounds topology
  obtain ⟨hsmall, hlarge, heven⟩ := matrixBlockSize_bounds topology
  obtain ⟨hpos, htail, hparity⟩ := matrixTail_bounds topology
  have hproduct : ((matrixBlockCount topology).toNat - 1) * (matrixBlockSize topology).toNat ≤
      9 * 96 := Nat.mul_le_mul (by omega) hlarge
  rw [toNat_matrixTotal]
  refine ⟨by omega, by omega, fun hantithetic => ?_⟩
  rw [Nat.add_mod, Nat.mul_mod, heven, hparity hantithetic, Nat.mul_zero]

theorem validateModel_matrixSpec (seed topology : UInt64) :
    (matrixSpec seed topology).validateModel = .ok () := by
  by_cases hheston : topology &&& 4 = 0
  · have hmodel : (matrixSpec seed topology).modelType = .gbm := if_neg (not_not.mpr hheston)
    have hnone : (matrixSpec seed topology).heston = none := if_neg (not_not.mpr hheston)
    have hvolatility : RunSpec.notPositive (matrixSpec seed topology).volatility = false :=
      show RunSpec.notPositive RunSpec.defaultVolatility = false by decide +kernel
    rw [RunSpec.validateModel, if_pos hmodel, hnone, hvolatility]
    rfl
  · exact validateModel_matrixHeston topology (if_pos hheston) (if_pos hheston)

/-- What `RunSpec::validate` asks for. -/
theorem RunSpec.validate_of {spec : RunSpec} (hengine : spec.engineVersion = kEngineVersion)
    (hrng : spec.rngVersion = kRngVersion) (hstats : spec.statsSchemaVersion = kStatsSchemaVersion)
    (htotal : spec.totalScenarios ≠ 0 ∧ spec.totalScenarios ≤ kMaxScenarios)
    (hsteps : spec.numTimeSteps ≠ 0 ∧ spec.numTimeSteps ≤ kMaxTimeSteps)
    (hmaturity : notPositive spec.maturity = false) (hspot : notPositive spec.spot = false)
    (hstrike : notPositive spec.strike = false) (hrate : spec.rate.isFinite = true)
    (heven : spec.antithetic = true → spec.totalScenarios % 2 = 0)
    (hpayoff : spec.payoffType = .europeanCall ∨ spec.payoffType = .asianCall)
    (hmodel : spec.validateModel = .ok ()) : spec.validate = .ok () := by
  have hparity : (spec.antithetic && decide (spec.totalScenarios % 2 ≠ 0)) = false := by
    cases hantithetic : spec.antithetic with
    | false => rfl
    | true => rw [heven hantithetic]; rfl
  have hknown : (decide (spec.payoffType ≠ .europeanCall) &&
      decide (spec.payoffType ≠ .asianCall)) = false := by
    rcases hpayoff with hpayoff | hpayoff <;> rw [hpayoff] <;> rfl
  have hscenarios : (decide (spec.totalScenarios = 0) ||
      decide (kMaxScenarios < spec.totalScenarios)) = false := by
    rw [decide_eq_false htotal.1, decide_eq_false (UInt64.not_lt.mpr htotal.2)]
    rfl
  have hcount : (decide (spec.numTimeSteps = 0) ||
      decide (kMaxTimeSteps < spec.numTimeSteps)) = false := by
    rw [decide_eq_false hsteps.1, decide_eq_false (UInt32.not_lt.mpr hsteps.2)]
    rfl
  rw [RunSpec.validate, decide_eq_false (not_not.mpr hengine), decide_eq_false (not_not.mpr hrng),
    decide_eq_false (not_not.mpr hstats), hscenarios, hcount, hmaturity, hspot, hstrike, hrate,
    hparity, hknown, hmodel]
  rfl

/-- The specification of a case passes the checks. -/
theorem validate_matrixSpec (seed topology : UInt64) :
    (matrixSpec seed topology).validate = .ok () := by
  obtain ⟨hpos, hle, heven⟩ := matrixTotal_bounds topology
  have hsteps := @of_all [0, 1, 2, 3] (fun slice =>
    decide (((1 : UInt64) + slice).toUInt32 ≠ 0 ∧ ((1 : UInt64) + slice).toUInt32 ≤ kMaxTimeSteps))
    (by decide) 4 (by decide) (by decide) (topology >>> 8)
  rw [decide_eq_true_eq] at hsteps
  refine RunSpec.validate_of rfl rfl rfl ⟨?_, UInt64.le_iff_toNat_le.mpr hle⟩ hsteps
    (show RunSpec.notPositive RunSpec.defaults.maturity = false by decide +kernel)
    (show RunSpec.notPositive RunSpec.defaults.spot = false by decide +kernel)
    (show RunSpec.notPositive RunSpec.defaults.strike = false by decide +kernel)
    (show RunSpec.defaults.rate.isFinite = true by decide +kernel) ?_ (ite_eq_or_eq _ _ _)
    (validateModel_matrixSpec seed topology)
  · intro hzero
    have htotal : matrixTotal topology = 0 := hzero
    rw [htotal] at hpos
    exact lt_irrefl _ hpos
  · intro hantithetic
    refine UInt64.toNat_inj.mp ?_
    rw [UInt64.toNat_mod]
    exact heven hantithetic

/-- The layout of a case passes the checks. -/
theorem validate_matrixEngine (seed topology : UInt64) :
    (matrixEngine topology).validate (matrixSpec seed topology) = .ok () := by
  obtain ⟨hsmall, hlarge, heven⟩ := matrixBlockSize_bounds topology
  have hsize : (matrixEngine topology).blockSize ≠ 0 := by
    intro hzero
    have hblock : matrixBlockSize topology = 0 := hzero
    rw [hblock] at hsmall
    exact absurd hsmall (by decide)
  have hparity : (matrixEngine topology).blockSize % 2 = 0 := by
    refine UInt64.toNat_inj.mp ?_
    rw [UInt64.toNat_mod]
    exact heven
  rw [EngineConfig.validate, decide_eq_false hsize, hparity, Bool.and_comm]
  rfl

theorem validate_matrixStore (topology : UInt64) (directory : String) :
    (matrixStore topology directory).validate = .ok () := by
  have hdirectory : (matrixStore topology directory).runDirectory ≠ "" :=
    joinPath_ne directory "run" (by decide)
  rw [RunStoreConfig.validate, decide_eq_false hdirectory]
  rfl

/-- **Every case is valid.** -/
theorem makeCase_valid (seed : UInt64) (directory : String) :
    (makeCase seed directory).spec.validate = .ok () ∧
      (makeCase seed directory).engineConfig.validate (makeCase seed directory).spec = .ok () ∧
      (makeCase seed directory).storeConfig.validate = .ok () ∧
      (makeCase seed directory).injection.validate = .ok () :=
  ⟨validate_matrixSpec _ _, validate_matrixEngine _ _, validate_matrixStore _ _,
    validate_failureInjectionFromSeed _ (joinPath_ne _ _ (by decide))⟩

/-- A case has the number of blocks that its slice asks for. -/
theorem blockCount_matrixSpec (seed topology : UInt64) :
    (blockCount (matrixSpec seed topology) (matrixEngine topology).blockSize).toNat =
      (matrixBlockCount topology).toNat := by
  obtain ⟨hlow, hhigh⟩ := matrixBlockCount_bounds topology
  obtain ⟨hsmall, -, -⟩ := matrixBlockSize_bounds topology
  obtain ⟨hpos, htail, -⟩ := matrixTail_bounds topology
  rw [blockCount_toNat (RunSpec.accepted_of_validate (validate_matrixSpec seed topology))]
  show 1 + ((matrixTotal topology).toNat - 1) / (matrixBlockSize topology).toNat = _
  have hdiv : ((matrixTotal topology).toNat - 1) / (matrixBlockSize topology).toNat =
      (matrixBlockCount topology).toNat - 1 := by
    rw [toNat_matrixTotal]
    refine Nat.div_eq_of_lt_le ?_ ?_
    · omega
    · rw [Nat.add_mul, Nat.one_mul]
      omega
  rw [hdiv]
  omega

/-! ## The process ends at the selected occurrence -/

/-- The process ends when it passes the point for the given time, and not before. -/
def FailureInjector.StopsAt (injector : FailureInjector) (trace : Trace) (point : FailurePoint)
    (occurrence : ℕ) : Prop :=
  ∃ earlier context later next descriptor, trace = earlier ++ (point, context) :: later ∧
    passed earlier point + 1 = occurrence ∧ injector.hitAll earlier = .continues next ∧
    next.hit point context = .crashes descriptor

/-- What `hit` does at the selected point. -/
theorem FailureInjector.hit_selected {injector : FailureInjector}
    (henabled : injector.enabled = true) (context : FailureContext) :
    (injector.selectedHits + 1 = injector.descriptor.injection.selectedOccurrence ∧
        ∃ descriptor, injector.hit injector.descriptor.injection.selectedPoint context =
          .crashes descriptor) ∨
      (injector.selectedHits + 1 ≠ injector.descriptor.injection.selectedOccurrence ∧
        ∃ next, injector.hit injector.descriptor.injection.selectedPoint context =
          .continues next ∧ next.enabled = true ∧
          next.descriptor.injection = injector.descriptor.injection ∧
          next.selectedHits = injector.selectedHits + 1) := by
  by_cases hlast : injector.selectedHits + 1 = injector.descriptor.injection.selectedOccurrence
  · refine Or.inl ⟨hlast, ?_⟩
    simp only [FailureInjector.hit, henabled, hlast, Bool.not_true, Bool.false_eq_true, if_false,
      ne_eq, not_true_eq_false]
    exact ⟨_, rfl⟩
  · refine Or.inr ⟨hlast, ?_⟩
    simp only [FailureInjector.hit, henabled, hlast, Bool.not_true, Bool.false_eq_true, if_false,
      ne_eq, not_true_eq_false, not_false_eq_true, if_true]
    exact ⟨_, rfl, rfl, rfl, rfl⟩

/-- What `hit` does at another point. -/
theorem FailureInjector.hit_other {injector : FailureInjector} (henabled : injector.enabled = true)
    {point : FailurePoint} (hpoint : point ≠ injector.descriptor.injection.selectedPoint)
    (context : FailureContext) :
    ∃ next, injector.hit point context = .continues next ∧ next.enabled = true ∧
      next.descriptor.injection = injector.descriptor.injection ∧
      next.selectedHits = injector.selectedHits := by
  simp only [FailureInjector.hit, henabled, hpoint, Bool.not_true, Bool.false_eq_true, if_false,
    ne_eq, not_false_eq_true, if_true]
  exact ⟨_, rfl, rfl, rfl, rfl⟩

theorem passed_cons (reached : FailurePoint) (context : FailureContext) (rest : Trace)
    (point : FailurePoint) : passed ((reached, context) :: rest) point =
      passed rest point + if reached = point then 1 else 0 := by
  rw [passed, List.countP_cons]
  simp only [decide_eq_true_eq]
  rfl

/-- A trace that passes the selected point often enough does not come to its end. -/
theorem FailureInjector.stops_of_passed {injector : FailureInjector} {point : FailurePoint}
    {trace : Trace} (henabled : injector.enabled = true)
    (hpoint : injector.descriptor.injection.selectedPoint = point)
    (hbefore : injector.selectedHits.toNat <
      injector.descriptor.injection.selectedOccurrence.toNat)
    (hpassed : injector.descriptor.injection.selectedOccurrence.toNat ≤
      injector.selectedHits.toNat + passed trace point) :
    injector.StopsAt trace point (injector.descriptor.injection.selectedOccurrence.toNat -
      injector.selectedHits.toNat) := by
  induction trace generalizing injector with
  | nil =>
    have hnone : passed [] point = 0 := rfl
    omega
  | cons hit rest ih =>
    obtain ⟨reached, context⟩ := hit
    rw [passed_cons] at hpassed
    have hsucc : (injector.selectedHits + 1).toNat = injector.selectedHits.toNat + 1 :=
      toNat_succ hbefore (UInt64.toNat_lt _)
    -- The rest of the trace, after a `hit` that returns.
    have hcontinue : ∀ next, injector.hit reached context = .continues next →
        next.enabled = true → next.descriptor.injection = injector.descriptor.injection →
        next.selectedHits.toNat =
          injector.selectedHits.toNat + (if reached = point then 1 else 0) →
        next.selectedHits.toNat < injector.descriptor.injection.selectedOccurrence.toNat →
        injector.StopsAt ((reached, context) :: rest) point
          (injector.descriptor.injection.selectedOccurrence.toNat -
            injector.selectedHits.toNat) := by
      intro next hhit hnext hinjection hhits hless
      have hstops := @ih next hnext (by rw [hinjection, hpoint]) (by rw [hinjection]; exact hless)
        (by rw [hinjection]; omega)
      obtain ⟨earlier, context', later, last, descriptor, rfl, hcount, hearlier, hcrash⟩ := hstops
      refine ⟨(reached, context) :: earlier, context', later, last, descriptor, rfl, ?_, ?_, hcrash⟩
      · rw [passed_cons]
        rw [hinjection] at hcount
        omega
      · rw [FailureInjector.hitAll, hhit]
        exact hearlier
    by_cases hreached : reached = point
    · subst hreached
      rw [if_pos rfl] at hpassed
      have hselected := FailureInjector.hit_selected henabled context
      rw [hpoint] at hselected
      rcases hselected with
        ⟨hlast, descriptor, hcrash⟩ | ⟨hlast, next, hhit, hnext, hinjection, hhits⟩
      · refine ⟨[], context, rest, injector, descriptor, rfl, ?_, rfl, hcrash⟩
        rw [← hlast, hsucc]
        show 0 + 1 = _
        omega
      · have hne : (injector.selectedHits + 1).toNat ≠
            injector.descriptor.injection.selectedOccurrence.toNat :=
          fun heq => hlast (UInt64.toNat_inj.mp heq)
        refine hcontinue next hhit hnext hinjection ?_ ?_
        · rw [hhits, hsucc, if_pos rfl]
        · rw [hhits]
          omega
    · obtain ⟨next, hhit, hnext, hinjection, hhits⟩ := FailureInjector.hit_other henabled
        (fun heq => hreached (heq.trans hpoint)) context
      refine hcontinue next hhit hnext hinjection ?_ ?_
      · rw [hhits, if_neg hreached, Nat.add_zero]
      · rw [hhits]
        exact hbefore

/-! ## The case reaches its failure -/

/-- The invocation of a case. -/
def MatrixCase.invocation (matrixCase : MatrixCase) (build : BuildIdentity)
    (kernels : RunSpec → Result (ModelKernel Binary64)) : Invocation :=
  ⟨kernels, build, matrixCase.spec, matrixCase.engineConfig, matrixCase.storeConfig⟩

/-- The injector of a case, whose replay path is free and outside the run directory. -/
def MatrixCase.injector (matrixCase : MatrixCase) (build : BuildIdentity) :
    Result FailureInjector :=
  FailureInjector.new build matrixCase.spec matrixCase.engineConfig matrixCase.storeConfig
    (some matrixCase.injection) ⟨.ok false, .ok false⟩

/-- The injector of a case is built, and waits for the first occurrence. -/
theorem makeCase_injector (seed : UInt64) (directory : String) (build : BuildIdentity) :
    ∃ injector, (makeCase seed directory).injector build = .ok injector ∧
      injector.enabled = true ∧ injector.selectedHits = 0 ∧
      injector.descriptor.injection = (makeCase seed directory).injection := by
  obtain ⟨hspec, -, -, hinjection⟩ := makeCase_valid seed directory
  have hhash := runSpecHash_of_validate hspec
  have hone : ¬ (makeCase seed directory).engineConfig.workerCount ≠ 1 := not_not.mpr rfl
  rw [MatrixCase.injector, FailureInjector.new, decide_eq_false hone, hinjection, hhash]
  exact ⟨_, rfl, rfl, rfl, rfl⟩

/-- Two checkpoints are made at least. -/
theorem two_le_ceilDiv {blocks interval : ℕ} (hpos : 0 < interval) (hlt : interval < blocks) :
    2 ≤ (blocks + interval - 1) / interval := by
  rw [Nat.le_div_iff_mul_le hpos]
  omega

/-- Every failure point is passed twice at least. -/
theorem two_le_tally {results manifests checkpoints : ℕ} (hresults : 2 ≤ results)
    (hmanifests : 2 ≤ manifests) (hcheckpoints : 2 ≤ checkpoints) (point : FailurePoint) :
    2 ≤ point.tally results manifests checkpoints := by
  cases point <;> assumption

/-- The run directory of a case has no separator at its end. -/
theorem joinPath_not_separator (directory : String) :
    ¬ (Paths.Spelling.ofText (joinPath directory "run")).EndsInSeparator := by
  rintro ⟨htrailing, -⟩
  have hlast : ∀ first : String, (first ++ "run").toList.getLast? = some 'n' := by
    intro first
    rw [String.toList_append, List.getLast?_append]
    rfl
  have hend : (joinPath directory "run").toList.getLast? = some 'n' := by
    unfold joinPath
    split
    · exact hlast _
    · exact hlast _
  rw [Paths.Spelling.ofText, hend] at htrailing
  cases htrailing

/-- The space that every case gets by with. -/
def matrixSpace : ℕ := 2 * 1024 * 1024

theorem makeCase_interval (seed : UInt64) (directory : String) :
    (makeCase seed directory).storeConfig.checkpointIntervalBlocks ≠ 0 := by
  intro hzero
  have hpos := (matrixInterval_bounds (mixSeed (seed ^^^ 0xA0761D6478BD642F))).1
  have hnone : matrixInterval (mixSeed (seed ^^^ 0xA0761D6478BD642F)) = 0 := hzero
  rw [hnone] at hpos
  exact lt_irrefl _ hpos

/-- `open` admits every case. -/
theorem makeCase_admitted (seed : UInt64) (directory : String) {build : BuildIdentity}
    (hdescription : build.description ≠ [])
    (hlength : build.description.length ≤ kMaxBuildDescriptionBytes.toNat)
    (kernels : RunSpec → Result (ModelKernel Binary64)) :
    ∃ expected canonical bytes total,
      ((makeCase seed directory).invocation build kernels).arguments.Admitted expected canonical
        bytes total ∧
      ((makeCase seed directory).invocation build kernels).arguments.needs total ≤ matrixSpace := by
  obtain ⟨hspec, hengine, hstore, -⟩ := makeCase_valid seed directory
  let topology := mixSeed (seed ^^^ 0xA0761D6478BD642F)
  obtain ⟨hlow, hhigh⟩ := matrixBlockCount_bounds topology
  have hcount : (blockCount (makeCase seed directory).spec
      (makeCase seed directory).engineConfig.blockSize).toNat = (matrixBlockCount topology).toNat :=
    blockCount_matrixSpec seed topology
  have hconfig : ((makeCase seed directory).invocation build kernels).arguments.config =
      (makeCase seed directory).storeConfig :=
    OpenArguments.config_of_interval (makeCase_interval seed directory)
  have hbytes : (makeCase seed directory).storeConfig.maxStorageBytes.toNat =
      64 * 1024 * 1024 * 1024 := rfl
  have hfiles : (makeCase seed directory).storeConfig.maxStorageFiles.toNat = 2000100 := rfl
  have hmanifest : (makeCase seed directory).storeConfig.maxManifestBytes.toNat =
      128 * 1024 * 1024 := rfl
  have hfree : (makeCase seed directory).storeConfig.minFreeSpaceBytes = 0 := rfl
  have hroom : ((makeCase seed directory).storeConfig.manifestRoom
      (matrixBlockCount topology).toNat) ≤ 3 + (matrixBlockCount topology).toNat := by
    unfold RunStoreConfig.manifestRoom
    exact Nat.add_le_add_left ((Nat.div_le_self _ _).trans (Nat.sub_le _ _)) 3
  have hmul := Nat.mul_le_mul (hroom.trans (Nat.add_le_add_left hhigh 3))
    (show 512 + 64 * (matrixBlockCount topology).toNat ≤ 512 + 64 * 10 by omega)
  have hmaterialized : blockCount (makeCase seed directory).spec
      (makeCase seed directory).engineConfig.blockSize ≤
        (makeCase seed directory).engineConfig.maxMaterializedBlocks := by
    rw [UInt64.le_iff_toNat_le, hcount]
    show _ ≤ 1000000
    omega
  have hfits : ((makeCase seed directory).invocation build kernels).arguments.Fits := by
    show 512 + 64 * (blockCount (makeCase seed directory).spec
      (makeCase seed directory).engineConfig.blockSize).toNat ≤ _
    rw [hconfig, hcount, hmanifest]
    omega
  obtain ⟨expected, canonical, bytes, total, hadmitted, htotal⟩ := @OpenArguments.exists_admitted
    ((makeCase seed directory).invocation build kernels).arguments hspec hengine hstore
    hmaterialized hdescription hlength hfits matrixSpace _ hcount
    (by rw [hconfig]; unfold matrixSpace; omega) (by rw [hconfig, hbytes]; unfold matrixSpace; omega)
    (by rw [hconfig, hfiles]; omega)
  refine ⟨expected, canonical, bytes, total, hadmitted, ?_⟩
  unfold OpenArguments.needs
  rw [hconfig, hfree]
  exact htotal

/-- A case whose failure points are passed as often as they should be passes all of them twice. -/
theorem makeCase_passed {seed : UInt64} {directory : String} {build : BuildIdentity}
    {kernels : RunSpec → Result (ModelKernel Binary64)} {trace : Trace}
    (htally :
      let inv := (makeCase seed directory).invocation build kernels
      let interval := inv.storeConfig.checkpointIntervalBlocks.toNat
      let checkpoints := (inv.blocks + interval - 1) / interval
      Tally trace inv.blocks (1 + checkpoints) checkpoints) (point : FailurePoint) :
    2 ≤ passed trace point := by
  let topology := mixSeed (seed ^^^ 0xA0761D6478BD642F)
  obtain ⟨hpos, hlt⟩ := matrixInterval_bounds topology
  obtain ⟨hlow, -⟩ := matrixBlockCount_bounds topology
  have hblocks : ((makeCase seed directory).invocation build kernels).blocks =
      (matrixBlockCount topology).toNat := blockCount_matrixSpec seed topology
  have hcount := htally point
  rw [hblocks] at hcount
  have hcheckpoints := two_le_ceilDiv hpos hlt
  rw [hcount]
  exact two_le_tally (by omega) (le_trans hcheckpoints (Nat.le_add_left _ _)) hcheckpoints point

/-- A case that passes every failure point twice ends at the selected occurrence. -/
theorem makeCase_stops {seed : UInt64} {directory : String} {build : BuildIdentity}
    {injector : FailureInjector} (hinjector : (makeCase seed directory).injector build = .ok injector)
    {trace : Trace} (htwice : ∀ point, 2 ≤ passed trace point) :
    injector.StopsAt trace (makeCase seed directory).injection.selectedPoint
      (makeCase seed directory).injection.selectedOccurrence.toNat := by
  obtain ⟨found, hfound, henabled, hhits, hinjection⟩ := makeCase_injector seed directory build
  obtain rfl : found = injector := Except.ok.inj (hfound.symm.trans hinjector)
  obtain ⟨hfirst, hsecond⟩ :=
    selectedOccurrence_bounds seed (joinPath directory "failure.replay")
  have hoccurrence : found.descriptor.injection.selectedOccurrence =
      (failureInjectionFromSeed seed
        (joinPath directory "failure.replay")).selectedOccurrence := by rw [hinjection]; rfl
  have hpoint : found.descriptor.injection.selectedPoint =
      (makeCase seed directory).injection.selectedPoint := by rw [hinjection]
  have htwice' := htwice (makeCase seed directory).injection.selectedPoint
  have hstops := FailureInjector.stops_of_passed henabled hpoint
    (by rw [hhits, hoccurrence, UInt64.toNat_zero]; omega)
    (show _ ≤ found.selectedHits.toNat + passed trace _ by rw [hoccurrence]; omega)
  rw [hhits, UInt64.toNat_zero, Nat.sub_zero, hinjection] at hstops
  exact hstops

/-- **Hook counts and crash-matrix reachability.**  A durable run with one worker in an empty
directory that `open` admits comes to its end when no call fails, the space lasts and nothing that
it computes throws.  It has passed the failure points of a block result once for each block, those
of a manifest once for each checkpoint and once more, and the last one once for each checkpoint, if
and only if the path of the run directory does not end in a separator: with a separator `open`
takes its own lock file for the files of another run.  The case of every failure seed is valid, and
the process of its run ends at the selected occurrence of the selected failure point. -/
theorem hook_counts_iff_no_separator (env : Environment) (clock nonce : ℕ) :
    (∀ (inv : Invocation) (expected : RunMetadata) (canonical : List ScenarioBlock) (bytes : Bytes)
      (total : UInt64) (aggregates : List (AggregateStats Binary64)),
      inv.engineConfig.workerCount = 1 →
      inv.storeConfig.checkpointIntervalBlocks ≠ 0 →
      inv.arguments.Admitted expected canonical bytes total → inv.Computes canonical aggregates →
      env.Supports (inv.arguments.needs total) →
      let interval := inv.storeConfig.checkpointIntervalBlocks.toNat
      let checkpoints := (inv.blocks + interval - 1) / interval
      (∃ outcome final, inv.EndsUndisturbed env.traced (⟨∅, clock, nonce⟩, []) outcome final) ∧
        ∀ outcome final, inv.EndsUndisturbed env.traced (⟨∅, clock, nonce⟩, []) outcome final →
          (Tally final.2 inv.blocks (1 + checkpoints) checkpoints ↔
            ¬ (Paths.Spelling.ofText inv.storeConfig.runDirectory).EndsInSeparator)) ∧
    ∀ (seed : UInt64) (directory : String) (build : BuildIdentity), build.description ≠ [] →
      build.description.length ≤ kMaxBuildDescriptionBytes.toNat →
      let matrixCase := makeCase seed directory
      (matrixCase.spec.validate = .ok () ∧
        matrixCase.engineConfig.validate matrixCase.spec = .ok () ∧
        matrixCase.storeConfig.validate = .ok () ∧ matrixCase.injection.validate = .ok ()) ∧
      ∃ injector, matrixCase.injector build = .ok injector ∧
        ∀ (kernels : RunSpec → Result (ModelKernel Binary64)) (canonical : List ScenarioBlock)
          (aggregates : List (AggregateStats Binary64)),
          makeBlocks matrixCase.spec matrixCase.engineConfig = .ok canonical →
          (matrixCase.invocation build kernels).Computes canonical aggregates →
          env.Supports matrixSpace →
          (∃ outcome final, (matrixCase.invocation build kernels).EndsUndisturbed env.traced
            (⟨∅, clock, nonce⟩, []) outcome final) ∧
          ∀ outcome final, (matrixCase.invocation build kernels).EndsUndisturbed env.traced
            (⟨∅, clock, nonce⟩, []) outcome final →
            injector.StopsAt final.2 matrixCase.injection.selectedPoint
              matrixCase.injection.selectedOccurrence.toNat := by
  refine ⟨fun inv expected canonical bytes total aggregates hone hinterval hadmitted hcomputes
    henv => Invocation.tally_iff hone hinterval hadmitted hcomputes henv clock nonce, ?_⟩
  intro seed directory build hdescription hlength
  obtain ⟨injector, hinjector, -⟩ := makeCase_injector seed directory build
  refine ⟨makeCase_valid seed directory, injector, hinjector, ?_⟩
  intro kernels canonical aggregates hcanonical hcomputes henv
  obtain ⟨expected, blocks, bytes, total, hadmitted, hneeds⟩ :=
    makeCase_admitted seed directory hdescription hlength kernels
  obtain rfl : canonical = blocks := Except.ok.inj (hcanonical.symm.trans hadmitted.run.canonical)
  obtain ⟨hends, htally⟩ := Invocation.tally_iff rfl (makeCase_interval seed directory) hadmitted
    hcomputes (henv.mono hneeds) clock nonce
  refine ⟨hends, fun outcome final hend => makeCase_stops hinjector fun point => ?_⟩
  exact makeCase_passed ((htally outcome final hend).mpr (joinPath_not_separator directory)) point


/-- The case of a seed that selects the second renaming of a manifest, with three blocks and a
checkpoint after every second one. -/
def threeBlocksCase : Invocation :=
  (makeCase 645 "case").invocation ⟨[66]⟩ fun _ => .ok unitKernel

theorem exists_computes_threeBlocks : ∃ canonical aggregates,
    makeBlocks threeBlocksCase.spec threeBlocksCase.engineConfig = .ok canonical ∧
      threeBlocksCase.Computes canonical aggregates := by
  have hcheck : (makeBlocks threeBlocksCase.spec threeBlocksCase.engineConfig).toOption.any
      threeBlocksCase.computesWell = true := by decide +kernel
  obtain ⟨canonical, hmake, hwell⟩ := exists_of_toOption_any hcheck
  obtain ⟨aggregates, hcomputes⟩ := Invocation.exists_computes hwell
  exact ⟨canonical, aggregates, hmake, hcomputes⟩

theorem hook_counts_iff_no_separator_three_blocks :
    ∃ outcome final, threeBlocksCase.EndsUndisturbed Environment.idle.traced (⟨∅, 0, 0⟩, []) outcome
        final ∧
      Tally final.2 3 3 2 ∧
      ∃ injector, (makeCase 645 "case").injector ⟨[66]⟩ = .ok injector ∧
        injector.StopsAt final.2 .manifestBeforeRename 2 := by
  have hlayout : threeBlocksCase.blocks = 3 ∧
      threeBlocksCase.storeConfig.checkpointIntervalBlocks = 2 ∧
      (makeCase 645 "case").injection.selectedPoint = .manifestBeforeRename ∧
      (makeCase 645 "case").injection.selectedOccurrence = 2 := by decide
  obtain ⟨hblocks, hinterval, hpoint, hoccurrence⟩ := hlayout
  obtain ⟨canonical, aggregates, hcanonical, hcomputes⟩ := exists_computes_threeBlocks
  obtain ⟨expected, blocks, bytes, total, hadmitted, hneeds⟩ := @makeCase_admitted 645 "case"
    ⟨[66]⟩ (by decide) (by decide) fun _ => .ok unitKernel
  obtain rfl : canonical = blocks := Except.ok.inj (hcanonical.symm.trans hadmitted.run.canonical)
  have hspace : Environment.idle.Supports matrixSpace := Environment.idle_supports 2097152
  obtain ⟨hcounts, hcases⟩ := hook_counts_iff_no_separator Environment.idle 0 0
  obtain ⟨-, htally⟩ := hcounts threeBlocksCase expected canonical bytes total aggregates rfl
    (makeCase_interval 645 "case") hadmitted hcomputes (hspace.mono hneeds)
  obtain ⟨-, injector, hinjector, hreaches⟩ :=
    hcases 645 "case" ⟨[66]⟩ (by decide) (by decide)
  obtain ⟨⟨outcome, final, hends⟩, hstops⟩ := hreaches (fun _ => .ok unitKernel) canonical
    aggregates hcanonical hcomputes hspace
  refine ⟨outcome, final, hends, ?_, injector, hinjector, ?_⟩
  · have hcount := (htally outcome final hends).mpr (joinPath_not_separator "case")
    rw [hblocks, hinterval] at hcount
    exact hcount
  · have hstop := hstops outcome final hends
    rw [hpoint, hoccurrence] at hstop
    exact hstop

/-- The same run in a directory that is written with a separator at its end. -/
def trailingSeparatorCase : Invocation :=
  { threeBlocksCase with
    storeConfig := { threeBlocksCase.storeConfig with runDirectory := "x/" } }

/-- Nothing hinders it, and no failure point is passed. -/
theorem trailing_separator_hits_nothing :
    trailingSeparatorCase.storeConfig.runDirectory = "x/" ∧
    trailingSeparatorCase.engineConfig.workerCount = 1 ∧
    trailingSeparatorCase.storeConfig.checkpointIntervalBlocks = 2 ∧
    (∃ expected canonical bytes total aggregates,
      trailingSeparatorCase.arguments.Admitted expected canonical bytes total ∧
      trailingSeparatorCase.Computes canonical aggregates ∧
      Environment.idle.Supports (trailingSeparatorCase.arguments.needs total)) ∧
    (∃ e final, trailingSeparatorCase.EndsUndisturbed Environment.idle.traced (⟨∅, 0, 0⟩, [])
      (.error e) final) ∧
    ∀ outcome final, trailingSeparatorCase.EndsUndisturbed Environment.idle.traced (⟨∅, 0, 0⟩, [])
      outcome final → final.2 = [] ∧ ¬ Tally final.2 3 3 2 := by
  have hinterval : threeBlocksCase.storeConfig.checkpointIntervalBlocks = 2 := rfl
  have hne : threeBlocksCase.storeConfig.checkpointIntervalBlocks ≠ 0 := by
    rw [hinterval]
    decide
  obtain ⟨canonical, aggregates, hcanonical, hcomputes⟩ := exists_computes_threeBlocks
  obtain ⟨expected, blocks, bytes, total, hadmitted, hneeds⟩ := @makeCase_admitted 645 "case"
    ⟨[66]⟩ (by decide) (by decide) fun _ => .ok unitKernel
  obtain rfl : canonical = blocks := Except.ok.inj (hcanonical.symm.trans hadmitted.run.canonical)
  have hconfig : threeBlocksCase.arguments.config = threeBlocksCase.storeConfig :=
    OpenArguments.config_of_interval hne
  have hconfig' : trailingSeparatorCase.arguments.config = trailingSeparatorCase.storeConfig :=
    OpenArguments.config_of_interval hne
  have hvalid : trailingSeparatorCase.storeConfig.validate = .ok () := rfl
  have hroom := hadmitted.room
  have hspace : Environment.idle.Supports (trailingSeparatorCase.arguments.needs total) := by
    refine Environment.Supports.mono (Environment.idle_supports 2097152) (le_trans (le_of_eq ?_) hneeds)
    unfold OpenArguments.needs
    rw [hconfig']
    show total.toNat + threeBlocksCase.storeConfig.minFreeSpaceBytes.toNat = _
    rw [← hconfig]
    rfl
  have hseparator : (Paths.Spelling.ofText trailingSeparatorCase.storeConfig.runDirectory
      ).EndsInSeparator := show (Paths.Spelling.ofText "x/").EndsInSeparator by decide
  obtain ⟨hends, htrace⟩ := @Invocation.ends_of_separator trailingSeparatorCase Environment.idle
    expected rfl hne hvalid hadmitted.run.expected _ hspace hseparator 0 0
  refine ⟨rfl, rfl, hinterval, ⟨expected, canonical, bytes, total, aggregates, ?_, ?_, hspace⟩,
    hends, fun outcome final hend => ⟨htrace outcome final hend, fun htally => ?_⟩⟩
  · refine ⟨⟨hadmitted.run.expected, hadmitted.run.canonical⟩, hvalid, hadmitted.encode, ?_⟩
    rw [hconfig']
    rw [show ((makeCase 645 "case").invocation ⟨[66]⟩ fun _ => .ok unitKernel).arguments.config =
      threeBlocksCase.storeConfig from hconfig] at hroom
    exact hroom
  · exact ⟨hcomputes.blocks, hcomputes.leaves⟩
  · have hcount := htally .resultBeforeFileFsync
    rw [htrace outcome final hend] at hcount
    cases hcount

end MonteCarlo
