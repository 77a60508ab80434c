import Mathlib.Data.FinEnum
import Mathlib.Data.Nat.Periodic
import Mathlib.Data.UInt
import Mathlib.Dynamics.PeriodicPts.Defs

/-!
# Mixing of words and rejection

The bijections that generators of random words are made of, counters with an odd increment, and
the arithmetic of rejection: how many words below the size of the word leave each remainder once
the first few are rejected.

* `xorShift_injective`, `mul_injective` — the two steps of a mixer.
* `minimalPeriod_add` — an odd increment visits every word.
* `card_residues` — an interval of `q * count` numbers has `q` of each remainder.
-/

namespace Mixing

/-! ## Bijections -/

/-- `x ^ (x >> shift)`. -/
def xorShift (shift value : UInt64) : UInt64 := value ^^^ (value >>> shift)

theorem xorShift_xor (shift x y : UInt64) :
    xorShift shift (x ^^^ y) = xorShift shift x ^^^ xorShift shift y := by
  simp only [xorShift, UInt64.shiftRight_xor]
  ac_rfl

/-- A word that equals its own shift is zero. -/
theorem eq_zero_of_xorShift {shift x : UInt64} (hshift : 0 < shift.toNat % 64)
    (h : xorShift shift x = 0) : x = 0 := by
  have hsame : x.toNat = x.toNat / 2 ^ (shift.toNat % 64) := by
    conv_lhs => rw [UInt64.xor_eq_zero_iff.mp h]
    rw [UInt64.toNat_shiftRight, Nat.shiftRight_eq_div_pow]
  have htwo : 2 ≤ 2 ^ (shift.toNat % 64) := Nat.le_self_pow hshift.ne' 2
  rw [← UInt64.toNat_inj]
  by_contra hne
  have hlt := Nat.div_lt_self (Nat.pos_of_ne_zero hne) htwo
  omega

theorem xorShift_injective {shift : UInt64} (hshift : 0 < shift.toNat % 64) :
    Function.Injective (xorShift shift) := by
  intro x y h
  have hzero : xorShift shift (x ^^^ y) = 0 := by
    rw [xorShift_xor, h, UInt64.xor_self]
  exact UInt64.xor_eq_zero_iff.mp (eq_zero_of_xorShift hshift hzero)

/-- Multiplication by a word that has an inverse. -/
theorem mul_injective {factor inverse : UInt64} (h : factor * inverse = 1) :
    Function.Injective fun x : UInt64 => x * factor := by
  intro x y hxy
  calc x = x * factor * inverse := by rw [UInt64.mul_assoc, h, UInt64.mul_one]
    _ = y * factor * inverse := congrArg (· * inverse) hxy
    _ = y := by rw [UInt64.mul_assoc, h, UInt64.mul_one]

/-! ## Counters -/

theorem iterate_add (increment state : UInt64) (n : ℕ) :
    (fun s => s + increment)^[n] state = state + UInt64.ofNat n * increment := by
  induction n generalizing state with
  | zero => simp
  | succ n ih =>
    rw [Function.iterate_succ_apply, ih, UInt64.ofNat_add, UInt64.add_mul, UInt64.add_assoc,
      UInt64.add_comm increment]
    simp

/-- A counter whose increment has an inverse comes back after as many steps as there are words. -/
theorem minimalPeriod_add {increment inverse : UInt64} (h : increment * inverse = 1)
    (state : UInt64) : Function.minimalPeriod (fun s => s + increment) state = 2 ^ 64 := by
  have hperiodic : ∀ n, Function.IsPeriodicPt (fun s => s + increment) n state ↔ 2 ^ 64 ∣ n := by
    intro n
    rw [Function.IsPeriodicPt, Function.IsFixedPt, iterate_add]
    have hcancel : state + UInt64.ofNat n * increment = state ↔ UInt64.ofNat n = 0 := by
      constructor
      · intro hsame
        have hzero : UInt64.ofNat n * increment = 0 * increment := by
          rw [UInt64.zero_mul]
          exact UInt64.add_right_inj _ |>.mp (hsame.trans (UInt64.add_zero state).symm)
        exact mul_injective h hzero
      · intro hzero
        rw [hzero, UInt64.zero_mul, UInt64.add_zero]
    rw [hcancel, ← UInt64.toNat_inj, UInt64.toNat_ofNat', UInt64.toNat_zero]
    exact (Nat.dvd_iff_mod_eq_zero).symm
  apply Nat.dvd_antisymm
  · exact Function.IsPeriodicPt.minimalPeriod_dvd ((hperiodic _).mpr dvd_rfl)
  · exact (hperiodic _).mp (Function.isPeriodicPt_minimalPeriod _ _)

/-! ## Remainders -/

theorem card_residues_once (start : ℕ) {count index : ℕ} (hindex : index < count) :
    ((Finset.Ico start (start + count)).filter fun x => x % count = index).card = 1 := by
  have hperiodic : Function.Periodic (fun x => x % count = index) count := by
    intro x
    simp only [Nat.add_mod_right]
  rw [Nat.filter_Ico_card_eq_of_periodic start count _ hperiodic, Nat.count_eq_card_filter_range,
    Finset.card_eq_one]
  refine ⟨index, Finset.ext fun x => ?_⟩
  rw [Finset.mem_filter, Finset.mem_range, Finset.mem_singleton]
  constructor
  · rintro ⟨hx, hmod⟩
    rwa [Nat.mod_eq_of_lt hx] at hmod
  · rintro rfl
    exact ⟨hindex, Nat.mod_eq_of_lt hindex⟩

/-- Every remainder occurs equally often in an interval whose length is a multiple of the
divisor. -/
theorem card_residues (start quotient : ℕ) {count index : ℕ} (hindex : index < count) :
    ((Finset.Ico start (start + quotient * count)).filter fun x => x % count = index).card =
      quotient := by
  induction quotient with
  | zero => simp
  | succ q ih =>
    have hsplit : Finset.Ico start (start + (q + 1) * count) =
        Finset.Ico start (start + q * count) ∪
          Finset.Ico (start + q * count) (start + q * count + count) := by
      rw [Finset.Ico_union_Ico_eq_Ico (by omega) (by omega), Nat.succ_mul, Nat.add_assoc]
    have hdisjoint : Disjoint (Finset.Ico start (start + q * count))
        (Finset.Ico (start + q * count) (start + q * count + count)) :=
      Finset.Ico_disjoint_Ico_consecutive _ _ _
    rw [hsplit, Finset.filter_union, Finset.card_union_of_disjoint
      (Finset.disjoint_filter_filter hdisjoint), ih, card_residues_once _ hindex]

end Mixing
