import MonteCarlo.Library.Requests
import MonteCarlo.Models.Kernels

/-!
# The coordinates of a run

Which logical draws the kernels request, and that no two of them share a Philox block.

* `Kernel.stream` — the draws of one path, in order.
* `asks_discountedPayoff`, `asks_antitheticPairMean` — a simulation requests them and no others.
* `random_coordinates_never_collide` — acceptance and freedom from collisions.
-/

namespace MonteCarlo

open Effects Program

section Streams

variable {F : Type} [KernelOps F] {math : MathLibrary F}

/-- The number of normal draws in a step of a path. -/
def Kernel.dimensions : Kernel F → List UInt32
  | .gbm _ => [0]
  | .heston _ => [0, 1]

/-- The draws of the path with the given random scenario. -/
def Kernel.stream (kernel : Kernel F) (randomScenario : UInt64) : List Coordinates :=
  (List.range kernel.parameters.numTimeSteps.toNat).flatMap fun step =>
    kernel.dimensions.map fun dimension => ⟨randomScenario, UInt32.ofNat step, dimension, 0⟩

/-- The scenario whose draws a payoff uses: antithetic scenarios share those of the even one. -/
def Kernel.randomScenario (kernel : Kernel F) (scenarioId : UInt64) : UInt64 :=
  if kernel.parameters.antithetic then scenarioId &&& ~~~1 else scenarioId

omit [KernelOps F] in
theorem asks_standardNormal (scenarioId : UInt64) (step dimension : UInt32) :
    Asks (Draws.standardNormal scenarioId step dimension : Draws F F)
      [⟨scenarioId, step, dimension, 0⟩] :=
  (asks_perform _).then_none fun normal => asks_ofExcept normal

omit [KernelOps F] in
theorem asks_throwIf (condition : Bool) (error : Exception) :
    Asks (Draws.throwIf condition error : Draws F Unit) [] :=
  asks_ofExcept _

omit [KernelOps F] in
/-- What follows a check matters only if the check passes. -/
theorem asks_check {condition : Bool} {error : Exception} {f : Unit → Draws F F}
    {ops : List Coordinates} (hf : condition = false → Asks (f ()) ops) :
    Asks (Draws.throwIf condition error >>= f) ops := by
  cases condition with
  | false => exact hf rfl
  | true => trivial

/-! ## One step -/

theorem GbmKernel.asks_advance (kernel : GbmKernel F) (scenarioId : UInt64) (step : UInt32)
    (path : GbmPath F) :
    Asks (kernel.advance math scenarioId step path)
      [⟨(Kernel.gbm kernel).randomScenario scenarioId, step, 0, 0⟩] := by
  refine (asks_standardNormal _ _ _).then_none fun drawn => ?_
  refine asks_skip (asks_throwIf _ _) fun _ => ?_
  refine asks_skip (asks_throwIf _ _) fun _ => ?_
  exact asks_pure _

theorem GbmKernel.asks_advancePair (kernel : GbmKernel F) (evenScenarioId : UInt64)
    (step : UInt32) (paths : GbmPath F × GbmPath F) :
    Asks (kernel.advancePair math evenScenarioId step paths) [⟨evenScenarioId, step, 0, 0⟩] := by
  refine (asks_standardNormal _ _ _).then_none fun drawn => ?_
  refine asks_skip (asks_throwIf _ _) fun _ => ?_
  refine asks_skip (asks_throwIf _ _) fun _ => ?_
  exact asks_pure _

theorem HestonKernel.asks_advance (kernel : HestonKernel F) (randomScenarioId : UInt64)
    (shockSign : F) (step : UInt32) (path : HestonPath F) :
    Asks (kernel.advance math randomScenarioId shockSign step path)
      [⟨randomScenarioId, step, 0, 0⟩, ⟨randomScenarioId, step, 1, 0⟩] := by
  refine (asks_standardNormal _ _ _).bind fun zAsset => ?_
  refine (asks_standardNormal _ _ _).then_none fun zOrthogonal => ?_
  refine asks_skip (asks_throwIf _ _) fun _ => ?_
  refine asks_skip (asks_throwIf _ _) fun _ => ?_
  exact asks_pure _

theorem HestonKernel.asks_advancePair (kernel : HestonKernel F) (evenScenarioId : UInt64)
    (step : UInt32) (paths : HestonPath F × HestonPath F) :
    Asks (kernel.advancePair math evenScenarioId step paths)
      [⟨evenScenarioId, step, 0, 0⟩, ⟨evenScenarioId, step, 1, 0⟩] := by
  refine (asks_standardNormal _ _ _).bind fun zAsset => ?_
  refine (asks_standardNormal _ _ _).then_none fun zOrthogonal => ?_
  refine asks_skip (asks_throwIf _ _) fun _ => ?_
  refine asks_skip (asks_throwIf _ _) fun _ => ?_
  exact asks_pure _

/-! ## A simulation -/

/-- The two entry points of a kernel. -/
inductive Simulation where
  | discountedPayoff (scenarioId : UInt64)
  | antitheticPairMean (evenScenarioId : UInt64)

namespace Simulation

def scenarioId : Simulation → UInt64
  | .discountedPayoff scenarioId => scenarioId
  | .antitheticPairMean evenScenarioId => evenScenarioId

def draws (math : MathLibrary F) (kernel : Kernel F) : Simulation → Draws F F
  | .discountedPayoff scenarioId => kernel.discountedPayoff math scenarioId
  | .antitheticPairMean evenScenarioId => kernel.antitheticPairMean math evenScenarioId

end Simulation

/-- The draws of a scenario; outside the run there are none. -/
def Kernel.requests (kernel : Kernel F) (scenarioId : UInt64) : List Coordinates :=
  if scenarioId < kernel.parameters.totalScenarios then
    kernel.stream (kernel.randomScenario scenarioId)
  else []

omit [KernelOps F] in
theorem Kernel.requests_of_lt (kernel : Kernel F) {scenarioId : UInt64}
    (h : ¬ kernel.parameters.totalScenarios ≤ scenarioId) :
    kernel.requests scenarioId = kernel.stream (kernel.randomScenario scenarioId) :=
  if_pos (UInt64.not_le.mp h)

/-- A payoff asks for the draws of its path. -/
theorem Kernel.asks_discountedPayoff (kernel : Kernel F) (scenarioId : UInt64) :
    Asks (kernel.discountedPayoff math scenarioId) (kernel.requests scenarioId) := by
  cases kernel with
  | gbm kernel =>
    refine asks_check fun hscenario => ?_
    rw [(Kernel.gbm kernel).requests_of_lt (of_decide_eq_false hscenario)]
    refine (Asks.foldlM (fun path step => ?_) _ _).then_none fun path => ?_
    · exact kernel.asks_advance scenarioId (UInt32.ofNat step) path
    · refine asks_skip (asks_ofExcept _) fun payoff => ?_
      exact asks_skip (asks_throwIf _ _) fun _ => asks_pure _
  | heston kernel =>
    refine asks_check fun hscenario => ?_
    rw [(Kernel.heston kernel).requests_of_lt (of_decide_eq_false hscenario)]
    refine (Asks.foldlM (fun path step => ?_) _ _).then_none fun path => ?_
    · exact kernel.asks_advance _ _ (UInt32.ofNat step) path
    · refine asks_skip (asks_ofExcept _) fun payoff => ?_
      exact asks_skip (asks_throwIf _ _) fun _ => asks_pure _

theorem and_shiftLeft_one (x mask : ℕ) : x &&& mask <<< 1 = (x / 2 &&& mask) <<< 1 := by
  apply Nat.eq_of_testBit_eq
  intro i
  cases i with
  | zero => simp
  | succ i => simp [Nat.testBit_shiftLeft, Nat.testBit_div_two]

/-- `x & ~1` clears the last bit. -/
theorem and_not_one_toNat (x : UInt64) : (x &&& ~~~1).toNat = 2 * (x.toNat / 2) := by
  have hmask : (~~~1 : UInt64).toNat = (2 ^ 63 - 1) <<< 1 := by decide
  have hhalf : x.toNat / 2 < 2 ^ 63 := by
    have hlt := x.toNat_lt
    omega
  rw [UInt64.toNat_and, hmask, and_shiftLeft_one, Nat.and_two_pow_sub_one_eq_mod,
    Nat.mod_eq_of_lt hhalf, Nat.shiftLeft_eq, Nat.mul_comm]

omit [KernelOps F] in
/-- What passes the checks of `antithetic_pair_mean` is a scenario with draws of its own. -/
theorem Kernel.requests_even (kernel : Kernel F) {evenScenarioId : UInt64}
    (hanti : kernel.parameters.antithetic = true)
    (heven : evenScenarioId % 2 = 0)
    (hlt : ¬ kernel.parameters.totalScenarios ≤ evenScenarioId + 1) :
    kernel.requests evenScenarioId = kernel.stream evenScenarioId := by
  have hrandom : kernel.randomScenario evenScenarioId = evenScenarioId := by
    rw [Kernel.randomScenario, if_pos hanti]
    apply UInt64.toNat_inj.mp
    have hmod := congrArg UInt64.toNat heven
    rw [UInt64.toNat_mod] at hmod
    rw [and_not_one_toNat]
    simp only [UInt64.reduceToNat] at hmod
    omega
  have hin : ¬ kernel.parameters.totalScenarios ≤ evenScenarioId := by
    rw [UInt64.le_iff_toNat_le, UInt64.toNat_add] at hlt
    rw [UInt64.le_iff_toNat_le]
    have hmod := congrArg UInt64.toNat heven
    rw [UInt64.toNat_mod] at hmod
    simp only [UInt64.reduceToNat] at hmod hlt
    have hword := evenScenarioId.toNat_lt
    omega
  rw [kernel.requests_of_lt hin, hrandom]

/-- The fused loop asks for the draws of the even scenario. -/
theorem Kernel.asks_antitheticPairMean (kernel : Kernel F) (evenScenarioId : UInt64) :
    Asks (kernel.antitheticPairMean math evenScenarioId) (kernel.requests evenScenarioId) := by
  cases kernel with
  | gbm kernel =>
    refine asks_check fun hanti => asks_check fun hrange => ?_
    simp only [Bool.or_eq_false_iff, decide_eq_false_iff_not, ne_eq, not_not] at hrange
    have hpair : kernel.parameters.antithetic = true := by simpa using hanti
    rw [(Kernel.gbm kernel).requests_even hpair hrange.1 hrange.2]
    refine (Asks.foldlM (fun paths step => ?_) _ _).then_none fun paths => ?_
    · exact kernel.asks_advancePair evenScenarioId (UInt32.ofNat step) paths
    · refine asks_skip (asks_ofExcept _) fun positive => ?_
      refine asks_skip (asks_ofExcept _) fun negative => ?_
      exact asks_skip (asks_throwIf _ _) fun _ => asks_pure _
  | heston kernel =>
    refine asks_check fun hanti => asks_check fun hrange => ?_
    simp only [Bool.or_eq_false_iff, decide_eq_false_iff_not, ne_eq, not_not] at hrange
    have hpair : kernel.parameters.antithetic = true := by simpa using hanti
    rw [(Kernel.heston kernel).requests_even hpair hrange.1 hrange.2]
    refine (Asks.foldlM (fun paths step => ?_) _ _).then_none fun paths => ?_
    · exact kernel.asks_advancePair evenScenarioId (UInt32.ofNat step) paths
    · refine asks_skip (asks_ofExcept _) fun positive => ?_
      refine asks_skip (asks_ofExcept _) fun negative => ?_
      exact asks_skip (asks_throwIf _ _) fun _ => asks_pure _

theorem Simulation.asks (kernel : Kernel F) (simulation : Simulation) :
    Asks (simulation.draws math kernel) (kernel.requests simulation.scenarioId) := by
  cases simulation with
  | discountedPayoff scenarioId => exact kernel.asks_discountedPayoff scenarioId
  | antitheticPairMean evenScenarioId => exact kernel.asks_antitheticPairMean evenScenarioId

/-! ## No collisions -/

omit [KernelOps F] in
theorem Kernel.mem_dimensions (kernel : Kernel F) {dimension : UInt32}
    (h : dimension ∈ kernel.dimensions) : dimension ∈ [0, 1] := by
  cases kernel with
  | gbm kernel => exact List.mem_cons.mpr (Or.inl (List.mem_singleton.mp h))
  | heston kernel => exact h

omit [KernelOps F] in
theorem Kernel.mem_stream {kernel : Kernel F} {randomScenario : UInt64} {c : Coordinates} :
    c ∈ kernel.stream randomScenario ↔
      ∃ step < kernel.parameters.numTimeSteps.toNat, ∃ dimension ∈ kernel.dimensions,
        c = ⟨randomScenario, UInt32.ofNat step, dimension, 0⟩ := by
  simp only [Kernel.stream, List.mem_flatMap, List.mem_range, List.mem_map, eq_comm]

omit [KernelOps F] in
/-- A path does not ask for a draw twice. -/
theorem Kernel.nodup_stream (kernel : Kernel F) (randomScenario : UInt64) :
    (kernel.stream randomScenario).Nodup := by
  have hdimensions : kernel.dimensions.Nodup := by
    cases kernel with
    | gbm kernel => exact List.nodup_singleton 0
    | heston kernel => exact (by decide : ([0, 1] : List UInt32).Nodup)
  rw [Kernel.stream, List.nodup_flatMap]
  constructor
  · intro step _
    refine hdimensions.map ?_
    intro d d' h
    exact (Coordinates.mk.inj h).2.2.1
  · refine List.nodup_range.imp_of_mem ?_
    intro step step' hstep hstep' hne c hc hc'
    obtain ⟨d, -, rfl⟩ := List.mem_map.mp hc
    obtain ⟨d', -, h⟩ := List.mem_map.mp hc'
    apply hne
    have hsame := congrArg UInt32.toNat (Coordinates.mk.inj h).2.1
    have hword := kernel.parameters.numTimeSteps.toNat_lt
    rw [List.mem_range] at hstep hstep'
    simp only [UInt32.toNat_ofNat'] at hsame
    omega

omit [KernelOps F] in
/-- A requested draw belongs to a scenario of the run, and names the one whose draws are used. -/
theorem Kernel.requests_of_mem {kernel : Kernel F} {scenarioId : UInt64} {c : Coordinates}
    (h : c ∈ kernel.requests scenarioId) :
    scenarioId < kernel.parameters.totalScenarios ∧
      kernel.requests scenarioId = kernel.stream (kernel.randomScenario scenarioId) ∧
      c.scenarioId = kernel.randomScenario scenarioId := by
  by_cases hlt : scenarioId < kernel.parameters.totalScenarios
  · have hstream := kernel.requests_of_lt (UInt64.not_le.mpr hlt)
    rw [hstream] at h
    obtain ⟨step, -, dimension, -, rfl⟩ := Kernel.mem_stream.mp h
    exact ⟨hlt, hstream, rfl⟩
  · rw [Kernel.requests, if_neg hlt] at h
    cases h

omit [KernelOps F] in
/-- Two scenarios with the same draws are equal, or an antithetic pair. -/
theorem Kernel.randomScenario_eq {kernel : Kernel F} {s t : UInt64}
    (h : kernel.randomScenario s = kernel.randomScenario t) :
    s = t ∨ kernel.parameters.antithetic = true ∧ s / 2 = t / 2 := by
  unfold Kernel.randomScenario at h
  split at h
  · rename_i hanti
    refine Or.inr ⟨hanti, UInt64.toNat_inj.mp ?_⟩
    have hsame := congrArg UInt64.toNat h
    rw [and_not_one_toNat, and_not_one_toNat] at hsame
    rw [UInt64.toNat_div, UInt64.toNat_div]
    exact Nat.eq_of_mul_eq_mul_left (by norm_num) hsame
  · exact Or.inl h

omit [KernelOps F] in
theorem Kernel.randomScenario_le (kernel : Kernel F) (scenarioId : UInt64) :
    (kernel.randomScenario scenarioId).toNat ≤ scenarioId.toNat := by
  unfold Kernel.randomScenario
  split
  · rw [and_not_one_toNat]
    omega
  · exact le_rfl

omit [KernelOps F] in
/-- Within the limits of the specification every requested draw fits the layout. -/
theorem Kernel.fits_of_mem_requests {kernel : Kernel F} {scenarioId : UInt64} {c : Coordinates}
    (hscenarios : kernel.parameters.totalScenarios.toNat ≤ 2 ^ 40)
    (hsteps : kernel.parameters.numTimeSteps.toNat ≤ 2 ^ 24)
    (h : c ∈ kernel.requests scenarioId) : c.Fits := by
  obtain ⟨hlt, hstream, -⟩ := Kernel.requests_of_mem h
  rw [UInt64.lt_iff_toNat_lt] at hlt
  rw [hstream] at h
  obtain ⟨step, hstep, dimension, hdimension, rfl⟩ := Kernel.mem_stream.mp h
  have hle := kernel.randomScenario_le scenarioId
  refine ⟨?_, ?_, ?_, ?_⟩
  · exact lt_of_le_of_lt hle (by omega)
  · simp only [UInt32.toNat_ofNat']
    omega
  · rcases List.mem_pair.mp (kernel.mem_dimensions hdimension) with rfl | rfl
    · simp
    · simp
  · simp

end Streams

theorem RunSpec.numTimeSteps_le {spec : RunSpec} (h : spec.validate = .ok ()) :
    spec.numTimeSteps.toNat ≤ 2 ^ 24 := by
  unfold validate at h
  simp only [Result.bind_eq_ok, throwIf_eq_ok, exists_const, Bool.or_eq_false_iff,
    decide_eq_false_iff_not] at h
  obtain ⟨-, -, -, -, ⟨-, hmax⟩, -⟩ := h
  have hle := UInt32.le_iff_toNat_le.mp (UInt32.not_lt.mp hmax)
  rwa [show kMaxTimeSteps.toNat = 2 ^ 24 by decide] at hle

/-- A constructed kernel has the parameters of a valid specification. -/
theorem makeKernel_eq_ok {math : MathLibrary Binary64} {spec : RunSpec} {kernel : Kernel Binary64}
    (h : makeKernel math spec = .ok kernel) :
    spec.validate = .ok () ∧ kernel.parameters = spec.parameters := by
  unfold makeKernel at h
  split at h
  · cases hgbm : makeGbmKernel math spec with
    | error e =>
      rw [hgbm] at h
      cases h
    | ok gbm =>
      rw [hgbm] at h
      cases h
      obtain ⟨⟨⟩, hspec, hgbm⟩ := Result.bind_eq_ok.mp hgbm
      obtain ⟨⟨⟩, -, hgbm⟩ := Result.bind_eq_ok.mp hgbm
      obtain ⟨⟨⟩, -, hgbm⟩ := Result.bind_eq_ok.mp hgbm
      cases hgbm
      exact ⟨hspec, rfl⟩
  · split at h
    · cases hheston : makeHestonKernel math spec with
      | error e =>
        rw [hheston] at h
        cases h
      | ok heston =>
        rw [hheston] at h
        cases h
        obtain ⟨⟨⟩, hspec, hheston⟩ := Result.bind_eq_ok.mp hheston
        obtain ⟨⟨⟩, -, hheston⟩ := Result.bind_eq_ok.mp hheston
        split at hheston
        · cases hheston
        · obtain ⟨⟨⟩, -, hheston⟩ := Result.bind_eq_ok.mp hheston
          cases hheston
          exact ⟨hspec, rfl⟩
    · cases h

theorem getElem?_of_prefix {A : Type} {l l' : List A} {i : ℕ} {a : A} (h : l <+: l')
    (hi : l[i]? = some a) : l'[i]? = some a := by
  obtain ⟨tail, rfl⟩ := h
  rw [List.getElem?_append_left (List.getElem?_eq_some_iff.mp hi).1, hi]

/-- Accepted coordinates have distinct Philox blocks under every seed.  Every draw that a kernel
requests is accepted, whatever the draws return, and two draws of a run that consume the same block
are the same draw of one scenario, or of an antithetic pair. -/
theorem random_coordinates_never_collide (math : MathLibrary Binary64) (spec : RunSpec)
    (kernel : Kernel Binary64) (hkernel : makeKernel math spec = .ok kernel) :
    (∀ (seed : UInt64) (c d : Coordinates) (p q : PhiloxCounter), packCounterV1 c = .ok p →
      packCounterV1 d = .ok q → philox4x32_10 p (seedKey seed) = philox4x32_10 q (seedKey seed) →
      c = d) ∧
    (∀ (simulation : Simulation) (normals : Coordinates → Result Binary64),
      ∀ c ∈ (simulation.draws math kernel).asked normals, ∃ p, packCounterV1 c = .ok p) ∧
    ∀ (first second : Simulation) (normals normals' : Coordinates → Result Binary64)
      (i j : ℕ) (c d : Coordinates) (p q : PhiloxCounter),
      ((first.draws math kernel).asked normals)[i]? = some c →
      ((second.draws math kernel).asked normals')[j]? = some d →
      packCounterV1 c = .ok p → packCounterV1 d = .ok q →
      philox4x32_10 p (seedKey spec.globalSeed) = philox4x32_10 q (seedKey spec.globalSeed) →
      c = d ∧ i = j ∧ (first.scenarioId = second.scenarioId ∨
        spec.antithetic = true ∧ first.scenarioId / 2 = second.scenarioId / 2) := by
  obtain ⟨hspec, hparameters⟩ := makeKernel_eq_ok hkernel
  have hscenarios : kernel.parameters.totalScenarios.toNat ≤ 2 ^ 40 := by
    rw [hparameters]
    exact (RunSpec.accepted_of_validate hspec).total_le
  have hsteps : kernel.parameters.numTimeSteps.toNat ≤ 2 ^ 24 := by
    rw [hparameters]
    exact RunSpec.numTimeSteps_le hspec
  refine ⟨?_, ?_, ?_⟩
  · intro seed c d p q hc hd h
    exact philox_packCounterV1_injective _ hc hd h
  · intro simulation normals c hc
    have hmem := ((simulation.asks kernel).prefix_asked normals).subset hc
    exact ⟨_, packCounterV1_eq_ok.mpr ⟨Kernel.fits_of_mem_requests hscenarios hsteps hmem, rfl⟩⟩
  · intro first second normals normals' i j c d p q hi hj hc hd h
    obtain rfl := philox_packCounterV1_injective _ hc hd h
    have hfirst := getElem?_of_prefix ((first.asks kernel).prefix_asked normals) hi
    have hsecond := getElem?_of_prefix ((second.asks kernel).prefix_asked normals') hj
    obtain ⟨-, hrequests, hscenario⟩ := Kernel.requests_of_mem (List.mem_of_getElem? hfirst)
    obtain ⟨-, hrequests', hscenario'⟩ := Kernel.requests_of_mem (List.mem_of_getElem? hsecond)
    have hsame := hscenario.symm.trans hscenario'
    rw [hrequests] at hfirst
    rw [hrequests', ← hsame] at hsecond
    refine ⟨rfl, ?_, ?_⟩
    · exact (List.getElem?_inj (List.getElem?_eq_some_iff.mp hfirst).1
        (kernel.nodup_stream _)).mp (hfirst.trans hsecond.symm)
    · have hpair := Kernel.randomScenario_eq hsame
      rwa [hparameters] at hpair

/-- The values of `std::exp` and `std::sqrt` that the kernel of the default specification uses:
`exp(-0.05)` and `sqrt(1.0)`. -/
def defaultMath : MathLibrary Binary64 :=
  ⟨fun _ => ⟨0x3FEE7078B0A726A6⟩, fun _ => 1, fun _ => 0⟩

/-- The default specification has a kernel, and all its draws are accepted. -/
theorem random_coordinates_never_collide_defaults :
    ∃ kernel, makeKernel defaultMath RunSpec.defaults = .ok kernel ∧
      ∀ (simulation : Simulation) (normals : Coordinates → Result Binary64),
        ∀ c ∈ (simulation.draws defaultMath kernel).asked normals,
          ∃ p, packCounterV1 c = .ok p := by
  have hmade : (makeKernel defaultMath RunSpec.defaults).toOption.isSome = true := by
    decide +kernel
  cases hkernel : makeKernel defaultMath RunSpec.defaults with
  | error e =>
    rw [hkernel] at hmade
    cases hmade
  | ok kernel =>
    exact ⟨kernel, rfl, (random_coordinates_never_collide defaultMath RunSpec.defaults kernel
      hkernel).2.1⟩

end MonteCarlo
