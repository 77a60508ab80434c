import MonteCarlo.Library.Mixing

/-!
# Bootstrap resampling

`checkpoint_gate_stats.cpp`: the generator and the rejection loop that the bootstrap draws its
indices with.  The loop counts nothing down.  It ends because the states of the generator are
distinct for 2^64 steps and the generator is a bijection, so that at most as many draws are
rejected as there are rejected values.

* `splitmix64`, `sampleIndex`, `resampleIndices` — the generator, one index, one resample.
* `splitmix64_bijective`, `minimalPeriod_splitmix64` — every value, and every state.
* `sampleIndex_unbiased` — the loop ends, and no index is favoured.
-/

namespace MonteCarlo

open Mixing

/-- The finalizer of SplitMix64, the same wherever the repository mixes a word. -/
def splitmix64Finalizer (value : UInt64) : UInt64 :=
  let value := (value ^^^ (value >>> 30)) * 0xBF58476D1CE4E5B9
  let value := (value ^^^ (value >>> 27)) * 0x94D049BB133111EB
  value ^^^ (value >>> 31)

/-- `splitmix64`: the value and the state it leaves. -/
def splitmix64 (state : UInt64) : UInt64 × UInt64 :=
  let state := state + 0x9E3779B97F4A7C15
  (splitmix64Finalizer state, state)

/-- `rejection_threshold` of `sample_index`. -/
def rejectionThreshold (count : UInt64) : UInt64 := (0 - count) % count

/-- `sample_index` for at most `fuel` draws: the index and the state it leaves. -/
def sampleIndex : ℕ → UInt64 → UInt64 → Option (UInt64 × UInt64)
  | 0, _, _ => none
  | fuel + 1, state, count =>
    let (value, state) := splitmix64 state
    if rejectionThreshold count ≤ value then some (value % count, state)
    else sampleIndex fuel state count

/-- The loop that fills one resample, as the indices it reads. -/
def resampleIndices (fuel : ℕ) (count : UInt64) : ℕ → UInt64 → Option (List UInt64 × UInt64)
  | 0, state => some ([], state)
  | n + 1, state => do
    let (index, state) ← sampleIndex fuel state count
    let (rest, state) ← resampleIndices fuel count n state
    pure (index :: rest, state)

/-! ## The generator -/

theorem splitmix64Finalizer_injective : Function.Injective splitmix64Finalizer := by
  have hfirst : Function.Injective fun x : UInt64 => x * 0xBF58476D1CE4E5B9 :=
    mul_injective (show _ * (0x96DE1B173F119089 : UInt64) = 1 from rfl)
  have hsecond : Function.Injective fun x : UInt64 => x * 0x94D049BB133111EB :=
    mul_injective (show _ * (0x319642B2D24D8EC3 : UInt64) = 1 from rfl)
  have hthirty : Function.Injective (xorShift 30) := xorShift_injective (by decide)
  have htwentySeven : Function.Injective (xorShift 27) := xorShift_injective (by decide)
  have hthirtyOne : Function.Injective (xorShift 31) := xorShift_injective (by decide)
  exact hthirtyOne.comp (hsecond.comp (htwentySeven.comp (hfirst.comp hthirty)))

/-- Every value is drawn from exactly one state. -/
theorem splitmix64_bijective : Function.Bijective fun state => (splitmix64 state).1 := by
  refine Finite.injective_iff_bijective.mp ?_
  intro x y h
  exact (UInt64.add_left_inj _).mp (splitmix64Finalizer_injective h)

/-- The generator passes through every state before it comes back. -/
theorem minimalPeriod_splitmix64 (state : UInt64) :
    Function.minimalPeriod (fun state => (splitmix64 state).2) state = 2 ^ 64 :=
  minimalPeriod_add (show (0x9E3779B97F4A7C15 : UInt64) * 0xF1DE83E19937733D = 1 from rfl) state

/-! ## One index -/

/-- A loop that has not ended has rejected every draw. -/
theorem rejected_of_sampleIndex_eq_none {fuel : ℕ} {state count : UInt64}
    (h : sampleIndex fuel state count = none) :
    ∀ i < fuel, (splitmix64 ((fun state => (splitmix64 state).2)^[i] state)).1 <
      rejectionThreshold count := by
  induction fuel generalizing state with
  | zero => intro i hi; omega
  | succ fuel ih =>
    rw [sampleIndex] at h
    dsimp only at h
    split at h
    · cases h
    · rename_i hreject
      intro i hi
      cases i with
      | zero => exact UInt64.not_le.mp hreject
      | succ i =>
        rw [Function.iterate_succ_apply]
        exact ih h i (by omega)

/-- No more draws are rejected than there are values to reject. -/
theorem sampleIndex_isSome {fuel : ℕ} (state : UInt64) {count : UInt64}
    (hfuel : (rejectionThreshold count).toNat < fuel) :
    (sampleIndex fuel state count).isSome := by
  rw [Option.isSome_iff_ne_none]
  intro hnone
  have hrejected := rejected_of_sampleIndex_eq_none hnone
  have hle : (rejectionThreshold count).toNat + 1 ≤ 2 ^ 64 := UInt64.toNat_lt _
  let draw : ℕ → ℕ := fun i =>
    (splitmix64 ((fun state => (splitmix64 state).2)^[i] state)).1.toNat
  have hmaps : ∀ i ∈ Finset.range ((rejectionThreshold count).toNat + 1),
      draw i ∈ Finset.range (rejectionThreshold count).toNat := by
    intro i hi
    rw [Finset.mem_range] at hi ⊢
    exact UInt64.lt_iff_toNat_lt.mp (hrejected i (by omega))
  have hinjective : Set.InjOn draw (Finset.range ((rejectionThreshold count).toNat + 1)) := by
    intro i hi j hj hij
    rw [Finset.mem_coe, Finset.mem_range] at hi hj
    have hstates := splitmix64_bijective.injective (UInt64.toNat_inj.mp hij)
    refine Function.iterate_injOn_Iio_minimalPeriod ?_ ?_ hstates
    · rw [Set.mem_Iio, minimalPeriod_splitmix64]
      omega
    · rw [Set.mem_Iio, minimalPeriod_splitmix64]
      omega
  have hcard := Finset.card_le_card_of_injOn draw hmaps hinjective
  rw [Finset.card_range, Finset.card_range] at hcard
  omega

/-- The index is below the bound, whatever the number of draws, and more draws change nothing. -/
theorem sampleIndex_spec {fuel : ℕ} {state count index final : UInt64} (hcount : 0 < count)
    (h : sampleIndex fuel state count = some (index, final)) :
    index < count ∧ ∀ more, fuel ≤ more → sampleIndex more state count = some (index, final) := by
  induction fuel generalizing state with
  | zero => cases h
  | succ fuel ih =>
    rw [sampleIndex] at h
    dsimp only at h
    split at h
    · rename_i haccept
      cases h
      refine ⟨UInt64.mod_lt _ hcount, fun more hmore => ?_⟩
      obtain ⟨more, rfl⟩ : ∃ n, more = n + 1 := ⟨more - 1, by omega⟩
      rw [sampleIndex]
      dsimp only
      rw [if_pos haccept]
    · rename_i hreject
      obtain ⟨hlt, hmore⟩ := ih h
      refine ⟨hlt, fun more hle => ?_⟩
      obtain ⟨more, rfl⟩ : ∃ n, more = n + 1 := ⟨more - 1, by omega⟩
      rw [sampleIndex]
      dsimp only
      rw [if_neg hreject]
      exact hmore more (by omega)

/-- A resample has an index for each value, all of them below the bound. -/
theorem resampleIndices_spec {fuel : ℕ} {count : UInt64} (hcount : 0 < count)
    (hfuel : (rejectionThreshold count).toNat < fuel) (n : ℕ) (state : UInt64) :
    ∃ indices final, resampleIndices fuel count n state = some (indices, final) ∧
      indices.length = n ∧ ∀ index ∈ indices, index < count := by
  induction n generalizing state with
  | zero => exact ⟨[], state, rfl, rfl, by simp⟩
  | succ n ih =>
    obtain ⟨⟨index, next⟩, hindex⟩ := Option.isSome_iff_exists.mp (sampleIndex_isSome state hfuel)
    obtain ⟨rest, final, hrest, hlength, hbelow⟩ := ih next
    refine ⟨index :: rest, final, ?_, by rw [List.length_cons, hlength], ?_⟩
    · rw [resampleIndices, hindex]
      simp only [Option.bind_eq_bind, Option.bind_some, hrest]
      rfl
    · intro i hi
      rcases List.mem_cons.mp hi with rfl | hi
      · exact (sampleIndex_spec hcount hindex).1
      · exact hbelow i hi

/-! ## No index is favoured -/

/-- The accepted values are a multiple of the bound. -/
theorem accepted_eq_mul {count : UInt64} (hcount : 0 < count) :
    (rejectionThreshold count).toNat + (2 ^ 64 - count.toNat) / count.toNat * count.toNat
      + count.toNat = 2 ^ 64 := by
  have hlt := UInt64.toNat_lt count
  have hpos : 0 < count.toNat := UInt64.lt_iff_toNat_lt.mp hcount
  have hthreshold : (rejectionThreshold count).toNat = (2 ^ 64 - count.toNat) % count.toNat := by
    have hnegated : (0 - count).toNat = 2 ^ 64 - count.toNat := by
      rw [UInt64.toNat_sub, UInt64.toNat_zero, Nat.add_zero]
      exact Nat.mod_eq_of_lt (by omega)
    rw [rejectionThreshold, UInt64.toNat_mod, hnegated]
  have hdivision := Nat.mod_add_div' (2 ^ 64 - count.toNat) count.toNat
  omega

/-- The states whose first draw is accepted with a given index. -/
def AcceptsFirst (count index state : UInt64) : Prop :=
  ∃ final, sampleIndex 1 state count = some (index, final)

theorem acceptsFirst_iff {count index state : UInt64} :
    AcceptsFirst count index state ↔
      rejectionThreshold count ≤ (splitmix64 state).1 ∧ (splitmix64 state).1 % count = index := by
  unfold AcceptsFirst
  rw [sampleIndex]
  dsimp only
  split
  · rename_i haccept
    constructor
    · rintro ⟨final, hfinal⟩
      cases hfinal
      exact ⟨haccept, rfl⟩
    · rintro ⟨-, rfl⟩
      exact ⟨_, rfl⟩
  · rename_i hreject
    constructor
    · rintro ⟨final, hfinal⟩
      cases hfinal
    · rintro ⟨haccept, -⟩
      exact absurd haccept hreject

/-- As many states accept an index as there are accepted values with that remainder. -/
theorem card_acceptsFirst {count index : UInt64} (hindex : index < count) :
    Nat.card { state // AcceptsFirst count index state } =
      (2 ^ 64 - count.toNat) / count.toNat + 1 := by
  have hbelow := UInt64.lt_iff_toNat_lt.mp hindex
  have hcount : 0 < count := UInt64.lt_iff_toNat_lt.mpr (Nat.zero_lt_of_lt hbelow)
  have htotal := accepted_eq_mul hcount
  have hcard := card_residues (rejectionThreshold count).toNat
    ((2 ^ 64 - count.toNat) / count.toNat + 1) hbelow
  rw [Nat.succ_mul, ← Nat.add_assoc, htotal] at hcard
  rw [← hcard, ← Fintype.card_coe, ← Nat.card_eq_fintype_card]
  have hmem : ∀ state, AcceptsFirst count index state ↔ (splitmix64 state).1.toNat ∈
      (Finset.Ico (rejectionThreshold count).toNat (2 ^ 64)).filter
        fun x => x % count.toNat = index.toNat := by
    intro state
    have hword := UInt64.toNat_lt (splitmix64 state).1
    rw [acceptsFirst_iff, Finset.mem_filter, Finset.mem_Ico, UInt64.le_iff_toNat_le,
      ← UInt64.toNat_inj, UInt64.toNat_mod, and_iff_left hword]
  refine Nat.card_eq_of_bijective (fun state => ⟨_, (hmem state.1).mp state.2⟩) ⟨?_, ?_⟩
  · intro x y h
    have hvalue := UInt64.toNat_inj.mp (congrArg Subtype.val h)
    exact Subtype.ext (splitmix64_bijective.injective hvalue)
  · rintro ⟨value, hvalue⟩
    have hlt : value < 2 ^ 64 := (Finset.mem_Ico.mp (Finset.mem_filter.mp hvalue).1).2
    obtain ⟨state, hstate⟩ := splitmix64_bijective.surjective (UInt64.ofNat value)
    have hsame : (splitmix64 state).1.toNat = value := by
      rw [show (splitmix64 state).1 = UInt64.ofNat value from hstate,
        UInt64.toNat_ofNat_of_lt' hlt]
    exact ⟨⟨state, (hmem state).mpr (by rwa [hsame])⟩, Subtype.ext hsame⟩

/-- The rejection loop ends with an index below the bound from every state, and over all states
the first draw is accepted equally often for every index.  The generator draws every value from
exactly one state and comes back to a state only after all others. -/
theorem sampleIndex_unbiased (count : UInt64) (hcount : 1 ≤ count) :
    (∀ state, ∃ index final, index < count ∧ ∀ fuel, (rejectionThreshold count).toNat < fuel →
      sampleIndex fuel state count = some (index, final)) ∧
    (∃ each, 2 ^ 64 - (rejectionThreshold count).toNat = each * count.toNat ∧
      ∀ index < count, Nat.card { state // AcceptsFirst count index state } = each) ∧
    (Function.Bijective fun state => (splitmix64 state).1) ∧
    ∀ state, Function.minimalPeriod (fun state => (splitmix64 state).2) state = 2 ^ 64 := by
  have hpos : 0 < count := by
    rw [UInt64.le_iff_toNat_le] at hcount
    exact UInt64.lt_iff_toNat_lt.mpr hcount
  refine ⟨fun state => ?_, ?_, splitmix64_bijective, minimalPeriod_splitmix64⟩
  · obtain ⟨⟨index, final⟩, hfound⟩ := Option.isSome_iff_exists.mp
      (sampleIndex_isSome state (Nat.lt_succ_self (rejectionThreshold count).toNat))
    obtain ⟨hlt, hmore⟩ := sampleIndex_spec hpos hfound
    exact ⟨index, final, hlt, hmore⟩
  · refine ⟨(2 ^ 64 - count.toNat) / count.toNat + 1, ?_, fun index => card_acceptsFirst⟩
    have htotal := accepted_eq_mul hpos
    rw [Nat.succ_mul]
    omega

theorem sampleIndex_unbiased_three :
    (1 : UInt64) ≤ 3 ∧ ∃ each, ∀ index < 3, Nat.card { state // AcceptsFirst 3 index state } =
      each := by
  obtain ⟨-, ⟨each, -, heach⟩, -⟩ := sampleIndex_unbiased 3 (by decide)
  exact ⟨by decide, each, heach⟩

end MonteCarlo
