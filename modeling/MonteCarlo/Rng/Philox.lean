import MonteCarlo.RunSpec

/-!
# Counter-based random numbers

`philox_rng.cpp`: every logical draw has coordinates, the coordinates are packed into a 128-bit
counter, and ten rounds of Philox4x32 under the seed turn the counter into the block that the draw
consumes.

* `philoxRound_injective` — a round can be undone: the multipliers are odd.
* `philox4x32_10_injective` — so can ten of them, under every key.
* `packCounterV1_eq_ok` — the coordinates that fit the layout, and their counter.
* `philox_packCounterV1_injective` — distinct coordinates produce distinct blocks.
-/

namespace MonteCarlo

/-- `PhiloxCounter`. -/
structure PhiloxCounter where
  word0 : UInt32
  word1 : UInt32
  word2 : UInt32
  word3 : UInt32
  deriving DecidableEq, Repr

/-- `PhiloxKey`. -/
structure PhiloxKey where
  word0 : UInt32
  word1 : UInt32
  deriving DecidableEq, Repr

def kPhiloxMultiplier0 : UInt32 := 0xD2511F53
def kPhiloxMultiplier1 : UInt32 := 0xCD9E8D57
def kPhiloxWeyl0 : UInt32 := 0x9E3779B9
def kPhiloxWeyl1 : UInt32 := 0xBB67AE85

/-- `Product32`. -/
structure Product32 where
  low : UInt32
  high : UInt32
  deriving DecidableEq, Repr

/-- `multiply_high_low`. -/
def multiplyHighLow (left right : UInt32) : Product32 :=
  let product := left.toUInt64 * right.toUInt64
  { low := product.toUInt32
    high := (product >>> 32).toUInt32 }

/-- `philox_round`. -/
def philoxRound (counter : PhiloxCounter) (key : PhiloxKey) : PhiloxCounter :=
  let product0 := multiplyHighLow kPhiloxMultiplier0 counter.word0
  let product1 := multiplyHighLow kPhiloxMultiplier1 counter.word2
  { word0 := product1.high ^^^ counter.word1 ^^^ key.word0
    word1 := product1.low
    word2 := product0.high ^^^ counter.word3 ^^^ key.word1
    word3 := product0.low }

/-- The body of the loop of `philox4x32_10`. -/
def philoxStep (state : PhiloxCounter × PhiloxKey) : PhiloxCounter × PhiloxKey :=
  (philoxRound state.1 state.2,
    ⟨state.2.word0 + kPhiloxWeyl0, state.2.word1 + kPhiloxWeyl1⟩)

/-- `philox4x32_10`. -/
def philox4x32_10 (counter : PhiloxCounter) (key : PhiloxKey) : PhiloxCounter :=
  (philoxStep^[10] (counter, key)).1

/-- The arguments of `pack_counter_v1`: the logical draw. -/
structure Coordinates where
  scenarioId : UInt64
  timeStep : UInt32
  dimension : UInt32
  drawIndex : UInt32
  deriving DecidableEq, Repr

/-- `kMax24BitValue`. -/
def kMax24BitValue : UInt32 := ((1 : UInt32) <<< 24) - 1

/-- An exception of `pack_counter_v1`. -/
def outsideLayout (what : String) : Exception := ⟨.outOfRange, .packCounterV1, what⟩

/-- `pack_counter_v1`. -/
def packCounterV1 (c : Coordinates) : Result PhiloxCounter := do
  throwIf (kMaxScenarios ≤ c.scenarioId)
    (outsideLayout "scenario_id exceeds RNG layout v1's 40-bit field")
  throwIf (kMax24BitValue < c.timeStep)
    (outsideLayout "time_step exceeds RNG layout v1's 24-bit field")
  throwIf (0xFF < c.dimension)
    (outsideLayout "dimension exceeds RNG layout v1's 8-bit field")
  throwIf (kMax24BitValue < c.drawIndex)
    (outsideLayout "draw_index exceeds RNG layout v1's 24-bit field")
  pure
    { word0 := c.scenarioId.toUInt32
      word1 := ((c.scenarioId >>> 32) ||| (c.timeStep.toUInt64 <<< 8)).toUInt32
      word2 := c.dimension ||| (c.drawIndex <<< 8)
      word3 := 0 }

/-- The key that `random_u64` makes of the seed. -/
def seedKey (globalSeed : UInt64) : PhiloxKey :=
  ⟨globalSeed.toUInt32, (globalSeed >>> 32).toUInt32⟩

/-- `random_u64`. -/
def randomU64 (globalSeed : UInt64) (c : Coordinates) : Result UInt64 := do
  let counter ← packCounterV1 c
  let randomWords := philox4x32_10 counter (seedKey globalSeed)
  pure ((randomWords.word0.toUInt64 <<< 32) ||| randomWords.word1.toUInt64)

/-! ## The rounds are injective -/

/-- The low word is the product of the words. -/
theorem multiplyHighLow_low (left right : UInt32) :
    (multiplyHighLow left right).low = left * right := by
  apply UInt32.toNat_inj.mp
  simp only [multiplyHighLow, UInt64.toNat_toUInt32, UInt64.toNat_mul, UInt32.toNat_toUInt64,
    UInt32.toNat_mul]
  exact Nat.mod_mod_of_dvd _ (by norm_num)

/-- Multiplication by a unit of the words keeps them apart. -/
theorem multiplyHighLow_injective {multiplier inverse : UInt32} (hunit : inverse * multiplier = 1)
    {x y : UInt32} (h : (multiplyHighLow multiplier x).low = (multiplyHighLow multiplier y).low) :
    x = y := by
  rw [multiplyHighLow_low, multiplyHighLow_low] at h
  calc x = inverse * multiplier * x := by rw [hunit, one_mul]
    _ = inverse * (multiplier * y) := by rw [mul_assoc, h]
    _ = y := by rw [← mul_assoc, hunit, one_mul]

theorem philoxRound_injective {key : PhiloxKey} {a b : PhiloxCounter}
    (h : philoxRound a key = philoxRound b key) : a = b := by
  obtain ⟨a0, a1, a2, a3⟩ := a
  obtain ⟨b0, b1, b2, b3⟩ := b
  simp only [philoxRound, PhiloxCounter.mk.injEq] at h
  obtain ⟨h0, h1, h2, h3⟩ := h
  obtain rfl := multiplyHighLow_injective
    (show (0x6D7CAE67 : UInt32) * kPhiloxMultiplier1 = 1 by decide) h1
  obtain rfl := multiplyHighLow_injective
    (show (0x991A7CDB : UInt32) * kPhiloxMultiplier0 = 1 by decide) h3
  simp only [UInt32.xor_left_inj, UInt32.xor_right_inj] at h0 h2
  rw [h0, h2]

theorem philoxStep_injective : Function.Injective philoxStep := by
  rintro ⟨a, ⟨k0, k1⟩⟩ ⟨b, ⟨k0', k1'⟩⟩ h
  simp only [philoxStep, Prod.mk.injEq, PhiloxKey.mk.injEq, add_left_inj] at h
  obtain ⟨hround, rfl, rfl⟩ := h
  rw [philoxRound_injective hround]

/-- The key after some rounds depends on the first key alone. -/
theorem philoxStep_iterate_snd (a b : PhiloxCounter) (key : PhiloxKey) (rounds : ℕ) :
    (philoxStep^[rounds] (a, key)).2 = (philoxStep^[rounds] (b, key)).2 := by
  induction rounds with
  | zero => rfl
  | succ rounds ih => simp only [Function.iterate_succ_apply', philoxStep, ih]

theorem philox4x32_10_injective {key : PhiloxKey} {a b : PhiloxCounter}
    (h : philox4x32_10 a key = philox4x32_10 b key) : a = b := by
  have hsteps : philoxStep^[10] (a, key) = philoxStep^[10] (b, key) :=
    Prod.ext h (philoxStep_iterate_snd a b key 10)
  exact (Prod.mk.inj (philoxStep_injective.iterate 10 hsteps)).1

example : philox4x32_10 ⟨0, 0, 0, 0⟩ ⟨0, 0⟩ =
    ⟨0x6627E8D5, 0xE169C58D, 0xBC57AC4C, 0x9B00DBD8⟩ := by decide

/-! ## The packing is injective -/

/-- The coordinates fit the fields of the layout. -/
structure Coordinates.Fits (c : Coordinates) : Prop where
  scenarioId : c.scenarioId.toNat < 2 ^ 40
  timeStep : c.timeStep.toNat < 2 ^ 24
  dimension : c.dimension.toNat < 2 ^ 8
  drawIndex : c.drawIndex.toNat < 2 ^ 24

/-- The counter of coordinates that fit. -/
def packed (c : Coordinates) : PhiloxCounter where
  word0 := c.scenarioId.toUInt32
  word1 := ((c.scenarioId >>> 32) ||| (c.timeStep.toUInt64 <<< 8)).toUInt32
  word2 := c.dimension ||| (c.drawIndex <<< 8)
  word3 := 0

theorem packCounterV1_eq_ok {c : Coordinates} {counter : PhiloxCounter} :
    packCounterV1 c = .ok counter ↔ c.Fits ∧ counter = packed c := by
  have hscenario : kMaxScenarios.toNat = 2 ^ 40 := by decide
  have hmax : kMax24BitValue.toNat = 2 ^ 24 - 1 := by decide
  simp only [packCounterV1, Result.bind_eq_ok, throwIf_eq_ok, exists_const,
    decide_eq_false_iff_not, UInt64.le_iff_toNat_le, UInt32.lt_iff_toNat_lt, hscenario, hmax]
  constructor
  · rintro ⟨h0, h1, h2, h3, hcounter⟩
    cases hcounter
    rw [show (0xFF : UInt32).toNat = 255 from rfl] at h2
    exact ⟨⟨by omega, by omega, by omega, by omega⟩, rfl⟩
  · rintro ⟨⟨h0, h1, h2, h3⟩, rfl⟩
    rw [show (0xFF : UInt32).toNat = 255 from rfl]
    exact ⟨by omega, by omega, by omega, by omega, rfl⟩

/-- Two fields in one word: the lower one has eight bits. -/
theorem or_shiftLeft_eight {low high : ℕ} (h : low < 2 ^ 8) :
    low ||| high <<< 8 = low + 2 ^ 8 * high := by
  rw [Nat.or_comm, Nat.shiftLeft_eq, Nat.mul_comm, ← Nat.two_pow_add_eq_or_of_lt h, Nat.add_comm]

theorem packed_word1 {c : Coordinates} (h : c.Fits) :
    (packed c).word1.toNat = c.scenarioId.toNat / 2 ^ 32 + 2 ^ 8 * c.timeStep.toNat := by
  have hscenario := h.scenarioId
  have hstep := h.timeStep
  have hshift : c.timeStep.toNat <<< 8 % 2 ^ 64 = c.timeStep.toNat <<< 8 := by
    rw [Nat.shiftLeft_eq]
    omega
  simp only [packed, UInt64.toNat_toUInt32, UInt64.toNat_or, UInt64.toNat_shiftRight,
    UInt64.toNat_shiftLeft, UInt32.toNat_toUInt64]
  rw [show (32 : UInt64).toNat % 64 = 32 from rfl, show (8 : UInt64).toNat % 64 = 8 from rfl,
    hshift, Nat.shiftRight_eq_div_pow, or_shiftLeft_eight (by omega)]
  omega

theorem packed_word2 {c : Coordinates} (h : c.Fits) :
    (packed c).word2.toNat = c.dimension.toNat + 2 ^ 8 * c.drawIndex.toNat := by
  have hdraw := h.drawIndex
  have hshift : c.drawIndex.toNat <<< 8 % 2 ^ 32 = c.drawIndex.toNat <<< 8 := by
    rw [Nat.shiftLeft_eq]
    omega
  simp only [packed, UInt32.toNat_or, UInt32.toNat_shiftLeft]
  rw [show (8 : UInt32).toNat % 32 = 8 from rfl, hshift, or_shiftLeft_eight h.dimension]

/-- The fields do not overlap. -/
theorem packed_injective {c d : Coordinates} (hc : c.Fits) (hd : d.Fits)
    (h : packed c = packed d) : c = d := by
  have hword0 : c.scenarioId.toNat % 2 ^ 32 = d.scenarioId.toNat % 2 ^ 32 := by
    simpa [packed] using congrArg (fun p => p.word0.toNat) h
  have hword1 : (packed c).word1.toNat = (packed d).word1.toNat := by rw [h]
  have hword2 : (packed c).word2.toNat = (packed d).word2.toNat := by rw [h]
  rw [packed_word1 hc, packed_word1 hd] at hword1
  rw [packed_word2 hc, packed_word2 hd] at hword2
  obtain ⟨c0, c1, c2, c3⟩ := c
  obtain ⟨d0, d1, d2, d3⟩ := d
  obtain ⟨hc0, -, hc2, -⟩ := hc
  obtain ⟨hd0, -, hd2, -⟩ := hd
  simp only at *
  rw [Coordinates.mk.injEq, ← UInt64.toNat_inj, ← UInt32.toNat_inj, ← UInt32.toNat_inj,
    ← UInt32.toNat_inj]
  omega

/-- Accepted coordinates are read back from the block that they produce. -/
theorem philox_packCounterV1_injective (key : PhiloxKey) {c d : Coordinates}
    {p q : PhiloxCounter} (hc : packCounterV1 c = .ok p) (hd : packCounterV1 d = .ok q)
    (h : philox4x32_10 p key = philox4x32_10 q key) : c = d := by
  obtain ⟨hfitsC, rfl⟩ := packCounterV1_eq_ok.mp hc
  obtain ⟨hfitsD, rfl⟩ := packCounterV1_eq_ok.mp hd
  exact packed_injective hfitsC hfitsD (philox4x32_10_injective h)

end MonteCarlo
