import MonteCarlo.Library.Wire

/-!
# Reflected cyclic redundancy checks

The register of a reflected CRC of any width and polynomial, fed a byte at a time.  The register is
linear in exclusive or, and for a polynomial with its top bit set every step can be undone.  So the
register tells apart any two inputs that differ only in a window no wider than the register.

* `bit`, `shift`, `step` — one bit, several bits, one byte.
* `shift_xor`, `shift_injective` — linearity and invertibility.
* `foldl_step_eq` — bytes that fit the register act like one word.
* `foldl_step_window` — a burst changes the register.
* `foldl_feed_lowBits` — a byte is taken in like its bits, the lowest first.
-/

namespace Crc

open Wire

variable {w : ℕ} (poly : BitVec w)

/-- One bit: shift down, and subtract the polynomial if a one was shifted out. -/
def bit (register : BitVec w) : BitVec w :=
  if register.getLsbD 0 then (register >>> 1) ^^^ poly else register >>> 1

/-- Several bits. -/
def shift (n : ℕ) (register : BitVec w) : BitVec w := (bit poly)^[n] register

/-- One byte. -/
def step (register : BitVec w) (byte : UInt8) : BitVec w :=
  shift poly 8 (register ^^^ BitVec.ofNat w byte.toNat)

/-- The bytes as a word, the first one lowest. -/
def word (w : ℕ) (bytes : List UInt8) : BitVec w := BitVec.ofNat w (decodeLE bytes)

/-! ## Linearity -/

theorem bit_xor (x y : BitVec w) : bit poly (x ^^^ y) = bit poly x ^^^ bit poly y := by
  unfold bit
  rw [BitVec.getLsbD_xor, BitVec.ushiftRight_xor_distrib]
  cases x.getLsbD 0 <;> cases y.getLsbD 0 <;> simp
  · ac_rfl
  · ac_rfl
  · rw [BitVec.xor_assoc, BitVec.xor_comm poly, BitVec.xor_assoc, BitVec.xor_self, BitVec.xor_zero]

theorem shift_xor (n : ℕ) (x y : BitVec w) :
    shift poly n (x ^^^ y) = shift poly n x ^^^ shift poly n y := by
  induction n generalizing x y with
  | zero => rfl
  | succ n ih =>
    simp only [shift, Function.iterate_succ_apply, bit_xor] at ih ⊢
    exact ih _ _

theorem shift_add (m n : ℕ) (x : BitVec w) :
    shift poly (m + n) x = shift poly m (shift poly n x) :=
  Function.iterate_add_apply _ m n x

/-! ## Words that are only moved -/

theorem bit_of_even {x : BitVec w} (h : 2 ∣ x.toNat) : (bit poly x).toNat = x.toNat / 2 := by
  have hbit : x.getLsbD 0 = false := by
    rw [BitVec.getLsbD, Nat.testBit_zero]
    simpa using Nat.mod_eq_zero_of_dvd h
  rw [bit, hbit, if_neg Bool.false_ne_true, BitVec.toNat_ushiftRight, Nat.shiftRight_eq_div_pow,
    pow_one]

/-- As long as zeros are shifted out the word is only moved. -/
theorem shift_of_dvd {n : ℕ} {x : BitVec w} (h : 2 ^ n ∣ x.toNat) :
    (shift poly n x).toNat = x.toNat / 2 ^ n := by
  induction n generalizing x with
  | zero => simp [shift]
  | succ n ih =>
    obtain ⟨k, hk⟩ := h
    have hhalf : x.toNat / 2 = 2 ^ n * k := by
      rw [hk, pow_succ, Nat.mul_assoc, Nat.mul_comm 2 k, ← Nat.mul_assoc]
      exact Nat.mul_div_cancel _ (by norm_num)
    have hbit := bit_of_even poly (show 2 ∣ x.toNat from ⟨2 ^ n * k, by rw [hk, pow_succ]; ring⟩)
    have hrest := ih (x := bit poly x) ⟨k, by rw [hbit, hhalf]⟩
    rw [shift, Function.iterate_succ_apply]
    rw [shift] at hrest
    rw [hrest, hbit, Nat.div_div_eq_div_mul, pow_succ, Nat.mul_comm]

/-! ## Invertibility -/

section Injective

variable {poly} (hpoly : poly.msb = true)
include hpoly

theorem bit_eq_zero {x : BitVec w} (h : bit poly x = 0#w) : x = 0#w := by
  unfold bit at h
  split at h
  · -- the top bit of the polynomial is not that of a word shifted down
    rw [BitVec.xor_eq_zero_iff] at h
    have hmsb : (x >>> 1).msb = false := by
      rw [BitVec.msb_ushiftRight]
      rfl
    rw [h, hpoly] at hmsb
    cases hmsb
  · rename_i hbit
    have hhalf : x.toNat / 2 = 0 := by
      have hnat := congrArg BitVec.toNat h
      rwa [BitVec.toNat_ushiftRight, Nat.shiftRight_eq_div_pow, pow_one] at hnat
    have heven : x.toNat % 2 = 0 := by
      rw [BitVec.getLsbD, Nat.testBit_zero] at hbit
      simpa using hbit
    apply BitVec.eq_of_toNat_eq
    rw [BitVec.toNat_zero]
    omega

theorem bit_injective : Function.Injective (bit poly) := by
  intro x y h
  have hzero : bit poly (x ^^^ y) = 0#w := by
    rw [bit_xor, h]
    exact BitVec.xor_self
  exact BitVec.xor_eq_zero_iff.mp (bit_eq_zero hpoly hzero)

theorem shift_injective (n : ℕ) : Function.Injective (shift poly n) :=
  (bit_injective hpoly).iterate n

theorem step_injective (byte : UInt8) : Function.Injective fun r => step poly r byte := by
  intro x y h
  exact (BitVec.xor_left_inj _).mp (shift_injective hpoly 8 h)

/-- The same bytes keep two registers apart. -/
theorem foldl_step_injective (bytes : List UInt8) :
    Function.Injective fun r => bytes.foldl (step poly) r := by
  induction bytes with
  | nil => exact fun x y h => h
  | cons byte bytes ih => exact fun x y h => step_injective hpoly byte (ih h)

end Injective

/-! ## Windows -/

/-- A byte below a multiple of 256. -/
theorem xor_mul_eq_add {low high : ℕ} (h : low < 2 ^ 8) :
    low ^^^ 2 ^ 8 * high = low + 2 ^ 8 * high := by
  apply Nat.eq_of_testBit_eq
  intro i
  rw [Nat.add_comm, Nat.testBit_two_pow_mul_add high h, Nat.testBit_xor, Nat.testBit_two_pow_mul]
  split
  · rename_i hi
    simp [Nat.not_le.mpr hi]
  · rename_i hi
    rw [Nat.testBit_lt_two_pow (lt_of_lt_of_le h (Nat.pow_le_pow_right (by norm_num) (by omega)))]
    simp [show 8 ≤ i by omega]

/-- Bytes that fit the register stand for a number below its range. -/
theorem decodeLE_lt_two_pow {bytes : List UInt8} (h : 8 * bytes.length ≤ w) :
    decodeLE bytes < 2 ^ w := by
  calc decodeLE bytes < 256 ^ bytes.length := decodeLE_lt bytes
    _ = 2 ^ (8 * bytes.length) := by rw [pow_mul, show 2 ^ 8 = 256 by norm_num]
    _ ≤ 2 ^ w := Nat.pow_le_pow_right (by norm_num) h

theorem word_toNat {bytes : List UInt8} (h : 8 * bytes.length ≤ w) :
    (word w bytes).toNat = decodeLE bytes := by
  rw [word, BitVec.toNat_ofNat, Nat.mod_eq_of_lt (decodeLE_lt_two_pow h)]

section Cons

variable {byte : UInt8} {bytes : List UInt8} (h : 8 * (byte :: bytes).length ≤ w)
include h

theorem mul_decodeLE_lt : 2 ^ 8 * decodeLE bytes < 2 ^ w := by
  have hlt := decodeLE_lt_two_pow h
  rw [decodeLE] at hlt
  omega

theorem word_cons :
    word w (byte :: bytes) =
      BitVec.ofNat w byte.toNat ^^^ BitVec.ofNat w (2 ^ 8 * decodeLE bytes) := by
  have hlt := decodeLE_lt_two_pow h
  rw [decodeLE] at hlt
  apply BitVec.eq_of_toNat_eq
  rw [word_toNat h, BitVec.toNat_xor, BitVec.toNat_ofNat, BitVec.toNat_ofNat,
    Nat.mod_eq_of_lt (mul_decodeLE_lt h), Nat.mod_eq_of_lt (by omega),
    xor_mul_eq_add byte.toNat_lt]
  rfl

theorem shift_eight_mul :
    shift poly 8 (BitVec.ofNat w (2 ^ 8 * decodeLE bytes)) = word w bytes := by
  have hnat : (BitVec.ofNat w (2 ^ 8 * decodeLE bytes)).toNat = 2 ^ 8 * decodeLE bytes := by
    rw [BitVec.toNat_ofNat, Nat.mod_eq_of_lt (mul_decodeLE_lt h)]
  rw [List.length_cons] at h
  apply BitVec.eq_of_toNat_eq
  rw [shift_of_dvd poly ⟨_, hnat⟩, hnat, word_toNat (by omega), Nat.mul_div_cancel_left _ (by norm_num)]

end Cons

/-- Bytes that fit the register are taken in like one word. -/
theorem foldl_step_eq (r : BitVec w) {bytes : List UInt8} (h : 8 * bytes.length ≤ w) :
    bytes.foldl (step poly) r = shift poly (8 * bytes.length) (r ^^^ word w bytes) := by
  induction bytes generalizing r with
  | nil => simp [shift, word, decodeLE]
  | cons byte bytes ih =>
    have hrest : 8 * bytes.length ≤ w := by
      rw [List.length_cons] at h
      omega
    rw [List.foldl_cons, ih _ hrest, List.length_cons, Nat.mul_add_one, shift_add, word_cons h,
      ← BitVec.xor_assoc, shift_xor _ 8, shift_eight_mul poly h]
    rfl

/-- Two windows that fit the register and leave the same register are equal. -/
theorem foldl_step_window (hpoly : poly.msb = true) {r : BitVec w} {xs ys : List UInt8}
    (hlength : xs.length = ys.length) (h : 8 * xs.length ≤ w)
    (hsame : xs.foldl (step poly) r = ys.foldl (step poly) r) : xs = ys := by
  rw [foldl_step_eq poly r h, foldl_step_eq poly r (hlength ▸ h), ← hlength] at hsame
  have hword : word w xs = word w ys :=
    (BitVec.xor_right_inj r).mp (shift_injective hpoly _ hsame)
  have hnat := congrArg BitVec.toNat hword
  rw [word_toNat h, word_toNat (hlength ▸ h)] at hnat
  rw [← encodeLE_decodeLE xs, ← encodeLE_decodeLE ys, hnat, hlength]

/-! ## Tables -/

/-- One byte by a table of 256 words: only the low byte of the register decides what is
subtracted, the others are moved down. -/
theorem step_eq_table (r : BitVec w) (byte : UInt8) :
    step poly r byte =
      shift poly 8 (BitVec.ofNat w (r.toNat % 2 ^ 8 ^^^ byte.toNat)) ^^^ r >>> 8 := by
  have hhigh : 2 ^ 8 * (r.toNat / 2 ^ 8) < 2 ^ w := lt_of_le_of_lt (Nat.mul_div_le _ _) r.isLt
  have hsplit : r ^^^ BitVec.ofNat w byte.toNat =
      BitVec.ofNat w (r.toNat % 2 ^ 8 ^^^ byte.toNat) ^^^
        BitVec.ofNat w (2 ^ 8 * (r.toNat / 2 ^ 8)) := by
    have hr : r = BitVec.ofNat w (r.toNat % 2 ^ 8 ^^^ 2 ^ 8 * (r.toNat / 2 ^ 8)) := by
      rw [xor_mul_eq_add (Nat.mod_lt _ (by norm_num)), Nat.mod_add_div, BitVec.ofNat_toNat,
        BitVec.setWidth_eq]
    conv_lhs => rw [hr]
    rw [← BitVec.ofNat_xor, ← BitVec.ofNat_xor, Nat.xor_assoc, Nat.xor_assoc, Nat.xor_comm byte.toNat]
  have hmoved : shift poly 8 (BitVec.ofNat w (2 ^ 8 * (r.toNat / 2 ^ 8))) = r >>> 8 := by
    have hnat : (BitVec.ofNat w (2 ^ 8 * (r.toNat / 2 ^ 8))).toNat = 2 ^ 8 * (r.toNat / 2 ^ 8) := by
      rw [BitVec.toNat_ofNat, Nat.mod_eq_of_lt hhigh]
    apply BitVec.eq_of_toNat_eq
    rw [shift_of_dvd poly ⟨_, hnat⟩, hnat, Nat.mul_div_cancel_left _ (by norm_num),
      BitVec.toNat_ushiftRight, Nat.shiftRight_eq_div_pow]
  rw [step, hsplit, shift_xor, hmoved]

/-! ## Bit by bit -/

/-- One bit of the message: the polynomial comes in when the bit that falls out differs from it. -/
def feed (register : BitVec w) (message : Bool) : BitVec w :=
  if register.getLsbD 0 ^^ message then (register >>> 1) ^^^ poly else register >>> 1

/-- The lowest bits of a number, the lowest first. -/
def lowBits (n value : ℕ) : List Bool := (List.range n).map value.testBit

theorem lowBits_succ (n value : ℕ) :
    lowBits (n + 1) value = value.testBit 0 :: lowBits n (value / 2) := by
  rw [lowBits, List.range_succ_eq_map, List.map_cons, List.map_map]
  simp only [lowBits, Function.comp_def, Nat.succ_eq_add_one, Nat.testBit_succ]

/-- A bit of the message is added to the bit that falls out. -/
theorem feed_eq_bit (hw : 0 < w) (r : BitVec w) (value : ℕ) :
    feed poly r (value.testBit 0) = bit poly (r ^^^ BitVec.ofNat w (value % 2)) := by
  have hlow : (r ^^^ BitVec.ofNat w (value % 2)).getLsbD 0 = (r.getLsbD 0 ^^ value.testBit 0) := by
    rw [BitVec.getLsbD_xor, BitVec.getLsbD_ofNat, decide_eq_true hw, Bool.true_and,
      Nat.testBit_zero, Nat.testBit_zero, Nat.mod_mod]
  have hmoved : (r ^^^ BitVec.ofNat w (value % 2)) >>> 1 = r >>> 1 := by
    have hzero : BitVec.ofNat w (value % 2) >>> 1 = 0#w := by
      apply BitVec.eq_of_toNat_eq
      rw [BitVec.toNat_ushiftRight, BitVec.toNat_ofNat, Nat.shiftRight_eq_div_pow, pow_one,
        BitVec.toNat_ofNat, Nat.zero_mod]
      exact Nat.div_eq_of_lt ((Nat.mod_le _ _).trans_lt (Nat.mod_lt _ Nat.zero_lt_two))
    rw [BitVec.ushiftRight_xor_distrib, hzero, BitVec.xor_zero]
  rw [feed, bit, hlow, hmoved]

/-- Bits that fit the register are taken in like one word. -/
theorem foldl_feed_lowBits (r : BitVec w) {n value : ℕ} (hn : n ≤ w) (hvalue : value < 2 ^ n) :
    (lowBits n value).foldl (feed poly) r = shift poly n (r ^^^ BitVec.ofNat w value) := by
  induction n generalizing r value with
  | zero =>
    obtain rfl : value = 0 := by simpa using hvalue
    simp [lowBits, shift]
  | succ n ih =>
    have hhalf : value / 2 < 2 ^ n := by
      rw [pow_succ] at hvalue
      omega
    have hfits : 2 * (value / 2) < 2 ^ w :=
      (Nat.mul_div_le value 2).trans_lt (hvalue.trans_le (Nat.pow_le_pow_right (by norm_num) hn))
    have hsplit : BitVec.ofNat w value =
        BitVec.ofNat w (value % 2) ^^^ BitVec.ofNat w (2 * (value / 2)) := by
      apply BitVec.eq_of_getLsbD_eq
      intro i hi
      rw [BitVec.getLsbD_xor, BitVec.getLsbD_ofNat, BitVec.getLsbD_ofNat, BitVec.getLsbD_ofNat,
        decide_eq_true hi, Bool.true_and, Bool.true_and, Bool.true_and]
      cases i with
      | zero => simp
      | succ i => simp [Nat.testBit_succ]
    have heven : bit poly (BitVec.ofNat w (2 * (value / 2))) = BitVec.ofNat w (value / 2) := by
      apply BitVec.eq_of_toNat_eq
      have hnat : (BitVec.ofNat w (2 * (value / 2))).toNat = 2 * (value / 2) := by
        rw [BitVec.toNat_ofNat, Nat.mod_eq_of_lt hfits]
      rw [bit_of_even poly ⟨_, hnat⟩, hnat, BitVec.toNat_ofNat, Nat.mod_eq_of_lt (by omega),
        Nat.mul_div_cancel_left _ Nat.zero_lt_two]
    rw [lowBits_succ, List.foldl_cons, ih _ (by omega) hhalf, feed_eq_bit poly (by omega), shift,
      shift, Function.iterate_succ_apply, hsplit, ← BitVec.xor_assoc, bit_xor poly (r ^^^ _),
      heven]

end Crc
