import MonteCarlo.Hash
import MonteCarlo.Library.Fips180

/-!
# One block of SHA-256

`transform` on bytes against `compress` of the standard on bits.

* `bitsOf` — the bits of a byte string.
* `scheduleTable_spec` — the table of the code holds the message schedule.
* `transform_registers` — one block.
-/

namespace MonteCarlo

open Fips180 (digits value messageWord)

/-! ## Bytes as bits -/

/-- The bits of a byte string, most significant first. -/
def bitsOf (bytes : Bytes) : List Bool := bytes.flatMap fun byte => digits 8 byte.toNat

theorem bitsOf_append (xs ys : Bytes) : bitsOf (xs ++ ys) = bitsOf xs ++ bitsOf ys :=
  List.flatMap_append

theorem bitsOf_cons (byte : UInt8) (bytes : Bytes) :
    bitsOf (byte :: bytes) = digits 8 byte.toNat ++ bitsOf bytes := List.flatMap_cons

@[simp] theorem length_bitsOf (bytes : Bytes) : (bitsOf bytes).length = 8 * bytes.length := by
  induction bytes with
  | nil => rfl
  | cons byte bytes ih =>
    rw [bitsOf_cons, List.length_append, Fips180.length_digits, ih, List.length_cons]
    ring

theorem bitsOf_drop (bytes : Bytes) (n : ℕ) : bitsOf (bytes.drop n) = (bitsOf bytes).drop (8 * n) := by
  induction n generalizing bytes with
  | zero => rfl
  | succ n ih =>
    cases bytes with
    | nil => simp [bitsOf]
    | cons byte bytes =>
      rw [List.drop_succ_cons, ih, bitsOf_cons, Nat.mul_add_one, Nat.add_comm, ← List.drop_drop,
        List.drop_left' (Fips180.length_digits 8 _)]

theorem bitsOf_take (bytes : Bytes) (n : ℕ) : bitsOf (bytes.take n) = (bitsOf bytes).take (8 * n) := by
  have hsplit := bitsOf_append (bytes.take n) (bytes.drop n)
  rw [List.take_append_drop] at hsplit
  by_cases h : n ≤ bytes.length
  · rw [hsplit, List.take_left']
    rw [length_bitsOf, List.length_take, Nat.min_eq_left h]
  · rw [List.take_of_length_le (by omega), List.take_of_length_le (by rw [length_bitsOf]; omega)]

theorem value_bitsOf_cons (byte : UInt8) (bytes : Bytes) :
    value (bitsOf (byte :: bytes)) =
      byte.toNat * 2 ^ (8 * bytes.length) + value (bitsOf bytes) := by
  have hbyte := byte.toNat_lt
  rw [bitsOf_cons, Fips180.value_append, Fips180.value_digits, length_bitsOf,
    Nat.mod_eq_of_lt (by omega)]

/-! ## Words -/

/-- The state as the registers of the standard. -/
def Sha256State.registers (s : Sha256State) : Fips180.Registers :=
  ⟨s.a.toBitVec, s.b.toBitVec, s.c.toBitVec, s.d.toBitVec, s.e.toBitVec, s.f.toBitVec,
    s.g.toBitVec, s.h.toBitVec⟩

theorem initial_registers : Sha256State.initial.registers = Fips180.initialHash := by
  decide +kernel

theorem kRoundConstants_toBitVec :
    kRoundConstants.map UInt32.toBitVec = Fips180.roundConstants := by
  decide +kernel

theorem round_registers (s : Sha256State) (constant word : UInt32) :
    (s.round constant word).registers =
      Fips180.round s.registers constant.toBitVec word.toBitVec := rfl

theorem addWords_registers (s t : Sha256State) :
    (s.addWords t).registers = Fips180.Registers.add t.registers s.registers := by
  simp only [Sha256State.registers, Sha256State.addWords, Fips180.Registers.add,
    UInt32.toBitVec_add, BitVec.add_comm]

theorem scheduleWord_toBitVec (words : List UInt32) (index : ℕ) :
    (scheduleWord words index).toBitVec =
      Fips180.smallSigma1 (words.getD (index - 2) 0).toBitVec
        + (words.getD (index - 7) 0).toBitVec
        + Fips180.smallSigma0 (words.getD (index - 15) 0).toBitVec
        + (words.getD (index - 16) 0).toBitVec := by
  have hadd : (scheduleWord words index).toBitVec =
      (words.getD (index - 16) 0).toBitVec
        + Fips180.smallSigma0 (words.getD (index - 15) 0).toBitVec
        + (words.getD (index - 7) 0).toBitVec
        + Fips180.smallSigma1 (words.getD (index - 2) 0).toBitVec := rfl
  rw [hadd]
  ac_rfl

theorem shiftLeft_byte (byte : UInt8) {count : UInt32} (h : count.toNat ≤ 24) :
    (byte.toUInt32 <<< count).toNat = byte.toNat * 2 ^ count.toNat := by
  have hbyte := byte.toNat_lt
  have hpow : 2 ^ count.toNat ≤ 2 ^ 24 := Nat.pow_le_pow_right (by norm_num) h
  rw [UInt32.toNat_shiftLeft, UInt8.toNat_toUInt32, Nat.mod_eq_of_lt (by omega : count.toNat < 32),
    Nat.shiftLeft_eq, Nat.mod_eq_of_lt (by nlinarith)]

/-- The bytes of a word do not overlap. -/
theorem or_bytes (b0 b1 b2 b3 : UInt8) :
    ((b0.toUInt32 <<< 24) ||| (b1.toUInt32 <<< 16) ||| (b2.toUInt32 <<< 8)
      ||| b3.toUInt32).toNat =
      b0.toNat * 2 ^ 24 + b1.toNat * 2 ^ 16 + b2.toNat * 2 ^ 8 + b3.toNat := by
  have h1 := b1.toNat_lt
  have h2 := b2.toNat_lt
  have h3 := b3.toNat_lt
  have h01 : b0.toNat * 2 ^ 24 ||| b1.toNat * 2 ^ 16 = (b0.toNat * 2 ^ 8 + b1.toNat) * 2 ^ 16 := by
    rw [Nat.mul_comm, ← Nat.two_pow_add_eq_or_of_lt (by omega)]
    ring
  have h012 : (b0.toNat * 2 ^ 8 + b1.toNat) * 2 ^ 16 ||| b2.toNat * 2 ^ 8 =
      (b0.toNat * 2 ^ 16 + b1.toNat * 2 ^ 8 + b2.toNat) * 2 ^ 8 := by
    rw [Nat.mul_comm, ← Nat.two_pow_add_eq_or_of_lt (by omega)]
    ring
  have h0123 : (b0.toNat * 2 ^ 16 + b1.toNat * 2 ^ 8 + b2.toNat) * 2 ^ 8 ||| b3.toNat =
      b0.toNat * 2 ^ 24 + b1.toNat * 2 ^ 16 + b2.toNat * 2 ^ 8 + b3.toNat := by
    rw [Nat.mul_comm, ← Nat.two_pow_add_eq_or_of_lt (by omega)]
    ring
  rw [UInt32.toNat_or, UInt32.toNat_or, UInt32.toNat_or, shiftLeft_byte b0 (by decide),
    shiftLeft_byte b1 (by decide), shiftLeft_byte b2 (by decide), UInt8.toNat_toUInt32]
  simp only [UInt32.reduceToNat]
  rw [h01, h012, h0123]

theorem value_four_bytes (b0 b1 b2 b3 : UInt8) :
    value (bitsOf [b0, b1, b2, b3]) =
      b0.toNat * 2 ^ 24 + b1.toNat * 2 ^ 16 + b2.toNat * 2 ^ 8 + b3.toNat := by
  have hnil : value (bitsOf []) = 0 := rfl
  simp only [value_bitsOf_cons, List.length_cons, List.length_nil, hnil]
  ring

/-- Four bytes of a block are a word of the message. -/
theorem bigEndianWord_toBitVec (bytes : Bytes) {offset : ℕ} (h : offset + 4 ≤ bytes.length) :
    (bigEndianWord bytes offset).toBitVec =
      BitVec.ofNat 32 (value (bitsOf ((bytes.drop offset).take 4))) := by
  obtain ⟨b0, b1, b2, b3, hfour⟩ : ∃ b0 b1 b2 b3, (bytes.drop offset).take 4 = [b0, b1, b2, b3] := by
    have hlength : ((bytes.drop offset).take 4).length = 4 := by
      rw [List.length_take, List.length_drop]
      omega
    match hl : (bytes.drop offset).take 4, hlength with
    | [b0, b1, b2, b3], _ => exact ⟨b0, b1, b2, b3, rfl⟩
  have hget : ∀ i < 4, bytes.getD (offset + i) 0 = [b0, b1, b2, b3].getD i 0 := by
    intro i hi
    rw [← hfour, List.getD_eq_getElem?_getD, List.getD_eq_getElem?_getD, List.getElem?_take,
      if_pos hi, List.getElem?_drop]
  have hzero := hget 0 (by omega)
  rw [Nat.add_zero] at hzero
  have hword : bigEndianWord bytes offset =
      (b0.toUInt32 <<< 24) ||| (b1.toUInt32 <<< 16) ||| (b2.toUInt32 <<< 8) ||| b3.toUInt32 := by
    rw [bigEndianWord, hzero, hget 1 (by omega), hget 2 (by omega), hget 3 (by omega)]
    rfl
  apply BitVec.eq_of_toNat_eq
  rw [hfour, value_four_bytes, ← or_bytes, ← hword, UInt32.toNat_toBitVec, BitVec.toNat_ofNat,
    Nat.mod_eq_of_lt (UInt32.toNat_lt _)]

/-- The table of the code after `n` further words. -/
def scheduleTable (block : Bytes) (n : ℕ) : List UInt32 :=
  (List.range n).foldl (fun words i => words ++ [scheduleWord words (16 + i)])
    ((List.range 16).map fun i => bigEndianWord block (4 * i))

theorem scheduleTable_spec (block : Bytes) (n : ℕ) :
    (scheduleTable block n).length = 16 + n ∧
      ∀ t < 16 + n, ((scheduleTable block n).getD t 0).toBitVec =
        Fips180.schedule (fun j => (bigEndianWord block (4 * j)).toBitVec) t := by
  induction n with
  | zero =>
    refine ⟨by simp [scheduleTable], ?_⟩
    intro t ht
    rw [Fips180.schedule, if_pos (by omega)]
    simp [scheduleTable, List.getD_eq_getElem?_getD, show t < 16 by omega]
  | succ n ih =>
    obtain ⟨hlength, hwords⟩ := ih
    have hsucc : scheduleTable block (n + 1) =
        scheduleTable block n ++ [scheduleWord (scheduleTable block n) (16 + n)] := by
      unfold scheduleTable
      rw [List.range_succ (n := n), List.foldl_append]
      rfl
    refine ⟨by rw [hsucc, List.length_append, hlength]; rfl, ?_⟩
    intro t ht
    rw [hsucc]
    by_cases hold : t < 16 + n
    · rw [List.getD_append _ _ _ _ (by omega)]
      exact hwords t hold
    · have hnew : t = 16 + n := by omega
      subst hnew
      rw [List.getD_append_right _ _ _ _ (by omega), hlength, Nat.sub_self, List.getD_cons_zero,
        scheduleWord_toBitVec, Fips180.schedule, if_neg (by omega), hwords _ (by omega),
        hwords _ (by omega), hwords _ (by omega), hwords _ (by omega)]

/-- A fold over two lists side by side, by position. -/
theorem foldl_zip_eq {A B S : Type} (f : S → A → B → S) (a : A) (b : B) :
    ∀ (xs : List A) (ys : List B) (s : S), xs.length = ys.length →
      (xs.zip ys).foldl (fun s pair => f s pair.1 pair.2) s =
        (List.range xs.length).foldl (fun s t => f s (xs.getD t a) (ys.getD t b)) s := by
  intro xs
  induction xs with
  | nil => intro ys s _; rfl
  | cons x xs ih =>
    intro ys s hlength
    cases ys with
    | nil => cases hlength
    | cons y ys =>
      rw [List.zip_cons_cons, List.foldl_cons, ih ys _ (Nat.succ.inj hlength), List.length_cons,
        List.range_succ_eq_map, List.foldl_cons, List.foldl_map]
      rfl

theorem roundConstants_getD (t : ℕ) :
    Fips180.roundConstants.getD t 0 = (kRoundConstants.getD t 0).toBitVec := by
  rw [← kRoundConstants_toBitVec, List.getD_eq_getElem?_getD, List.getElem?_map,
    List.getD_eq_getElem?_getD]
  cases kRoundConstants[t]? with
  | none => rfl
  | some constant => rfl

theorem foldl_round_registers (block : Bytes) {rounds : List ℕ} (h : ∀ t ∈ rounds, t < 64)
    (s : Sha256State) :
    (rounds.foldl (fun s t => s.round (kRoundConstants.getD t 0)
        ((scheduleTable block 48).getD t 0)) s).registers =
      rounds.foldl (fun r t => Fips180.round r (Fips180.roundConstants.getD t 0)
        (Fips180.schedule (fun j => (bigEndianWord block (4 * j)).toBitVec) t)) s.registers := by
  induction rounds generalizing s with
  | nil => rfl
  | cons t rounds ih =>
    rw [List.foldl_cons, List.foldl_cons, ih (fun t' ht' => h t' (by simp [ht'])), round_registers,
      (scheduleTable_spec block 48).2 t (h t (by simp)), roundConstants_getD]

/-- `transform` computes the next hash value. -/
theorem transform_registers (block : Bytes) (state : Sha256State) :
    (transform block state).registers =
      Fips180.compress state.registers fun j => (bigEndianWord block (4 * j)).toBitVec := by
  have hschedule : schedule block = scheduleTable block 48 := rfl
  have hconstants : kRoundConstants.length = 64 := rfl
  have hrounds := foldl_round_registers block (fun t => List.mem_range.mp) state
  rw [transform, addWords_registers, hschedule, foldl_zip_eq Sha256State.round 0 0, hconstants,
    hrounds, Fips180.compress]
  rw [(scheduleTable_spec block 48).1, hconstants]

end MonteCarlo
