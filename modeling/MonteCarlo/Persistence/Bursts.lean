import MonteCarlo.Library.Crc
import MonteCarlo.Persistence.Envelope

/-!
# The checksum and burst detection

The stored checksum is appended with its low byte first, the order in which the register takes in
bytes.  So an envelope is accepted only if its checksum, run over the whole envelope, ends in one
fixed register, and a window of four bytes anywhere is a window of the checked string.

* `crc32cStep_toBitVec` — the table step of the code is a step of the register.
* `crc32c_eq_bitSerial` — the table computes the bit-serial definition.
* `envelope_residue` — the register after an envelope.
* `envelope_detects_bursts` — no burst of up to four bytes is accepted.
-/

namespace MonteCarlo

open Wire

/-- The reflected polynomial of CRC-32C. -/
def kCrc32cPolynomial : BitVec 32 := 0x82F63B78#32

theorem kCrc32cPolynomial_msb : kCrc32cPolynomial.msb = true := by decide

/-- The mask of the code selects the polynomial by the last bit. -/
theorem crc32cBit_eq (value : UInt32) :
    crc32cBit value =
      if value.toNat % 2 = 1 then value >>> 1 ^^^ 0x82F63B78 else value >>> 1 := by
  have hlow : (value &&& 1).toNat = value.toNat % 2 := by
    rw [UInt32.toNat_and, UInt32.toNat_one, Nat.and_one_is_mod]
  rcases Nat.mod_two_eq_zero_or_one value.toNat with hbit | hbit
  · have hzero : value &&& 1 = 0 := UInt32.toNat_inj.mp (hlow.trans hbit)
    rw [crc32cBit, hzero, if_neg (by omega), UInt32.sub_zero, UInt32.and_zero, UInt32.xor_zero]
  · have hone : value &&& 1 = 1 := UInt32.toNat_inj.mp (hlow.trans hbit)
    rw [crc32cBit, hone, if_pos hbit, show (0x82F63B78 : UInt32) &&& (0 - 1) = 0x82F63B78 from rfl]

theorem crc32cBit_toBitVec (value : UInt32) :
    (crc32cBit value).toBitVec = Crc.bit kCrc32cPolynomial value.toBitVec := by
  rw [crc32cBit_eq, Crc.bit, BitVec.getLsbD, Nat.testBit_zero]
  by_cases hbit : value.toNat % 2 = 1
  · rw [if_pos hbit, if_pos (by simpa using hbit)]
    rfl
  · rw [if_neg hbit, if_neg (by simpa using hbit)]
    rfl

theorem crc32cBit_iterate (n : ℕ) (value : UInt32) :
    (crc32cBit^[n] value).toBitVec = Crc.shift kCrc32cPolynomial n value.toBitVec := by
  induction n generalizing value with
  | zero => rfl
  | succ n ih =>
    rw [Function.iterate_succ_apply, ih, crc32cBit_toBitVec]
    rfl

/-- The table step of the code is a step of the register. -/
theorem crc32cStep_toBitVec (crc : UInt32) (byte : UInt8) :
    (crc32cStep crc byte).toBitVec = Crc.step kCrc32cPolynomial crc.toBitVec byte := by
  have hindex : (crc.toUInt8 ^^^ byte).toNat = crc.toNat % 2 ^ 8 ^^^ byte.toNat := by
    rw [UInt8.toNat_xor, UInt32.toNat_toUInt8]
  have hentry : kCrc32cTable.get ⟨(crc.toUInt8 ^^^ byte).toNat, UInt8.toNat_lt _⟩ =
      crc32cBit^[8] (UInt32.ofNat (crc.toUInt8 ^^^ byte).toNat) := by
    rw [kCrc32cTable, Vector.get_ofFn]
  rw [crc32cStep, hentry, UInt32.toBitVec_xor, crc32cBit_iterate, hindex, Crc.step_eq_table]
  rfl

theorem foldl_crc32cStep (bytes : Bytes) (crc : UInt32) :
    (bytes.foldl crc32cStep crc).toBitVec =
      bytes.foldl (Crc.step kCrc32cPolynomial) crc.toBitVec := by
  induction bytes generalizing crc with
  | nil => rfl
  | cons byte bytes ih => rw [List.foldl_cons, ih, crc32cStep_toBitVec, List.foldl_cons]

/-- The register after a string. -/
def crcRegister (bytes : Bytes) : BitVec 32 :=
  bytes.foldl (Crc.step kCrc32cPolynomial) (BitVec.allOnes 32)

theorem crc32c_toBitVec (bytes : Bytes) : (crc32c bytes).toBitVec = ~~~crcRegister bytes := by
  rw [crc32c, UInt32.toBitVec_not, foldl_crc32cStep]
  rfl

/-! ## The definition -/

/-- CRC-32C by its definition: the message one bit at a time, the lowest bit of each byte first,
into a register of ones that is inverted at the end. -/
def crc32cBitSerial (bytes : Bytes) : BitVec 32 :=
  (bytes.flatMap fun byte => Crc.lowBits 8 byte.toNat).foldl (Crc.feed kCrc32cPolynomial)
    0xFFFFFFFF#32 ^^^ 0xFFFFFFFF#32

theorem foldl_feed_flatMap (bytes : Bytes) (r : BitVec 32) :
    (bytes.flatMap fun byte => Crc.lowBits 8 byte.toNat).foldl (Crc.feed kCrc32cPolynomial) r =
      bytes.foldl (Crc.step kCrc32cPolynomial) r := by
  induction bytes generalizing r with
  | nil => rfl
  | cons byte bytes ih =>
    rw [List.flatMap_cons, List.foldl_append, ih, List.foldl_cons,
      Crc.foldl_feed_lowBits _ _ (by norm_num) byte.toNat_lt]
    rfl

/-- The table computes the definition. -/
theorem crc32c_eq_bitSerial (bytes : Bytes) : (crc32c bytes).toBitVec = crc32cBitSerial bytes := by
  rw [crc32c_toBitVec, crcRegister, crc32cBitSerial, foldl_feed_flatMap, ← BitVec.xor_allOnes]
  rfl

/-- The check value of CRC-32C. -/
example : crc32c [0x31, 0x32, 0x33, 0x34, 0x35, 0x36, 0x37, 0x38, 0x39] = 0xE3069283 := by
  decide +kernel

/-! ## Envelopes -/

/-- A string followed by its checksum ends in a register that does not depend on the string. -/
theorem crcRegister_append_crc32c (bytes : Bytes) :
    crcRegister (bytes ++ appendU32 (crc32c bytes)) =
      Crc.shift kCrc32cPolynomial 32 (BitVec.allOnes 32) := by
  have hword : Crc.word 32 (appendU32 (crc32c bytes)) = (crc32c bytes).toBitVec := by
    apply BitVec.eq_of_toNat_eq
    rw [Crc.word_toNat (by simp), appendU32, decodeLE_encodeLE 4 _ (by simpa using UInt32.toNat_lt _)]
    rfl
  rw [crcRegister, List.foldl_append, Crc.foldl_step_eq _ _ (by simp), hword, crc32c_toBitVec,
    length_appendU32, crcRegister, ← BitVec.xor_allOnes, ← BitVec.xor_assoc, BitVec.xor_self,
    BitVec.zero_xor]

theorem envelope_residue {bytes magic payload : Bytes} {maximumSize : UInt64}
    (h : openEnvelope bytes magic maximumSize = .ok payload) :
    crcRegister bytes = Crc.shift kCrc32cPolynomial 32 (BitVec.allOnes 32) := by
  rw [openEnvelope_eq_ok h]
  exact crcRegister_append_crc32c _

/-- Two strings with the same register that differ only in a window of four bytes are equal. -/
theorem eq_of_crcRegister_eq {bytes other : Bytes} (start : ℕ)
    (hlength : other.length = bytes.length)
    (hwindow : ∀ i, i < start ∨ start + 4 ≤ i → other[i]? = bytes[i]?)
    (h : crcRegister other = crcRegister bytes) : other = bytes := by
  have hbefore : other.take start = bytes.take start := by
    apply List.ext_getElem?
    intro i
    rw [List.getElem?_take, List.getElem?_take]
    split
    · rename_i hi
      exact hwindow i (Or.inl hi)
    · rfl
  have hafter : other.drop (start + 4) = bytes.drop (start + 4) := by
    apply List.ext_getElem?
    intro i
    rw [List.getElem?_drop, List.getElem?_drop]
    exact hwindow _ (Or.inr (by omega))
  have hsplit : ∀ l : Bytes, l = l.take start ++ ((l.drop start).take 4 ++ l.drop (start + 4)) := by
    intro l
    rw [← List.drop_drop, List.take_append_drop, List.take_append_drop]
  rw [hsplit other, hsplit bytes] at h
  simp only [crcRegister, List.foldl_append, hbefore, hafter] at h
  -- the bytes after the window keep registers apart, so the window itself left the same register
  have hsame := Crc.foldl_step_injective kCrc32cPolynomial_msb _ h
  have hmiddle := Crc.foldl_step_window _ kCrc32cPolynomial_msb
    (by simp [hlength]) (by simp; omega) hsame
  rw [hsplit other, hsplit bytes, hbefore, hafter, hmiddle]

/-- Whatever an envelope was opened with, a string of the same length that differs from it only in
a window of four bytes is rejected, for every magic and limit. -/
theorem envelope_detects_bursts (bytes other magic payload : Bytes) (maximumSize : UInt64)
    (start : ℕ) (h : openEnvelope bytes magic maximumSize = .ok payload) (hne : other ≠ bytes)
    (hlength : other.length = bytes.length)
    (hwindow : ∀ i, i < start ∨ start + 4 ≤ i → other[i]? = bytes[i]?)
    (magic' : Bytes) (maximumSize' : UInt64) :
    ∃ e, openEnvelope other magic' maximumSize' = .error e := by
  cases hother : openEnvelope other magic' maximumSize' with
  | error e => exact ⟨e, rfl⟩
  | ok payload' =>
    refine absurd (eq_of_crcRegister_eq start hlength hwindow ?_) hne
    rw [envelope_residue h, envelope_residue hother]

/-- An envelope of one byte, with that byte changed. -/
theorem envelope_detects_bursts_one_byte :
    ∃ e, openEnvelope ((makeEnvelope [1, 2, 3, 4, 5, 6, 7, 8] [7]).set 20 9)
      [1, 2, 3, 4, 5, 6, 7, 8] 4096 = .error e := by
  have hopens : openEnvelope (makeEnvelope [1, 2, 3, 4, 5, 6, 7, 8] [7])
      [1, 2, 3, 4, 5, 6, 7, 8] 4096 = .ok [7] :=
    openEnvelope_makeEnvelope [7] 4096 rfl (by rw [length_makeEnvelope rfl]; decide)
  refine envelope_detects_bursts _ _ _ _ _ 20 hopens (by decide +kernel) (by simp) ?_ _ _
  intro i hi
  rw [List.getElem?_set_ne (by omega)]

end MonteCarlo
