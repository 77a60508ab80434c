import Mathlib

/-!
# SHA-256 as the standard defines it

FIPS 180-4 for messages of bits: the functions of section 4.1.2, the constants of 4.2.2 and 5.3.3
from the roots of the first primes, the padding of 5.1.1, the message schedule and the rounds of
6.2.2.

* `pad`, `messageWord` — the padded message and its 32-bit words.
* `schedule`, `compress` — one block.
* `hash` — the 256 bits of the digest.
* `digits`, `value` — binary numerals, most significant bit first, and the lemmas about them.
-/

namespace Fips180

/-! ## Binary numerals -/

/-- The last `n` binary digits, most significant first. -/
def digits : ℕ → ℕ → List Bool
  | 0, _ => []
  | n + 1, v => digits n (v / 2) ++ [decide (v % 2 = 1)]

/-- The number that binary digits stand for. -/
def value (bits : List Bool) : ℕ := bits.foldl (fun v bit => 2 * v + bit.toNat) 0

@[simp] theorem length_digits (n v : ℕ) : (digits n v).length = n := by
  induction n generalizing v with
  | zero => rfl
  | succ n ih => rw [digits, List.length_append, ih, List.length_singleton]

theorem digits_add (m n v : ℕ) : digits (m + n) v = digits m (v / 2 ^ n) ++ digits n v := by
  induction n generalizing v with
  | zero => simp [digits]
  | succ n ih =>
    rw [← Nat.add_assoc, digits, ih, digits, Nat.div_div_eq_div_mul, ← Nat.pow_succ',
      List.append_assoc]

theorem digits_mod (n v : ℕ) : digits n (v % 2 ^ n) = digits n v := by
  induction n generalizing v with
  | zero => rfl
  | succ n ih =>
    have hhalf : v % 2 ^ (n + 1) / 2 = v / 2 % 2 ^ n := by
      rw [pow_succ, Nat.mul_comm, Nat.mod_mul_right_div_self]
    have hlast : v % 2 ^ (n + 1) % 2 = v % 2 := Nat.mod_mod_of_dvd _ (dvd_pow_self 2 (by omega))
    rw [digits, digits, hhalf, ih, hlast]

theorem digits_zero (n : ℕ) : digits n 0 = List.replicate n false := by
  induction n with
  | zero => rfl
  | succ n ih => rw [digits, Nat.zero_div, ih, List.replicate_succ']; rfl

theorem foldl_value (v : ℕ) (bits : List Bool) :
    bits.foldl (fun v bit => 2 * v + bit.toNat) v = v * 2 ^ bits.length + value bits := by
  induction bits generalizing v with
  | nil => simp [value]
  | cons bit bits ih =>
    have hcons : value (bit :: bits) = (2 * 0 + bit.toNat) * 2 ^ bits.length + value bits := by
      rw [value, List.foldl_cons, ih]
    rw [List.foldl_cons, ih, hcons, List.length_cons, pow_succ]
    ring

theorem value_append (xs ys : List Bool) :
    value (xs ++ ys) = value xs * 2 ^ ys.length + value ys := by
  rw [value, List.foldl_append, foldl_value]
  rfl

theorem value_digits (n v : ℕ) : value (digits n v) = v % 2 ^ n := by
  induction n generalizing v with
  | zero => simp [digits, value, Nat.mod_one]
  | succ n ih =>
    have hbit : value [decide (v % 2 = 1)] = v % 2 := by
      rcases Nat.mod_two_eq_zero_or_one v with h | h
      · rw [h]
        rfl
      · rw [h]
        rfl
    rw [digits, value_append, ih, hbit, List.length_singleton, pow_one, pow_succ,
      Nat.mul_comm (2 ^ n) 2, Nat.mod_mul]
    ring

/-! ## Functions and constants -/

/-- `ROTR`. -/
def rotr (n : ℕ) (x : BitVec 32) : BitVec 32 := x >>> n ||| x <<< (32 - n)

def ch (x y z : BitVec 32) : BitVec 32 := (x &&& y) ^^^ (~~~x &&& z)

def maj (x y z : BitVec 32) : BitVec 32 := (x &&& y) ^^^ (x &&& z) ^^^ (y &&& z)

def bigSigma0 (x : BitVec 32) : BitVec 32 := rotr 2 x ^^^ rotr 13 x ^^^ rotr 22 x

def bigSigma1 (x : BitVec 32) : BitVec 32 := rotr 6 x ^^^ rotr 11 x ^^^ rotr 25 x

def smallSigma0 (x : BitVec 32) : BitVec 32 := rotr 7 x ^^^ rotr 18 x ^^^ x >>> 3

def smallSigma1 (x : BitVec 32) : BitVec 32 := rotr 17 x ^^^ rotr 19 x ^^^ x >>> 10

/-- The first 64 primes. -/
def primes : List ℕ :=
  [2, 3, 5, 7, 11, 13, 17, 19, 23, 29, 31, 37, 41, 43, 47, 53, 59, 61, 67, 71, 73, 79, 83, 89, 97,
   101, 103, 107, 109, 113, 127, 131, 137, 139, 149, 151, 157, 163, 167, 173, 179, 181, 191, 193,
   197, 199, 211, 223, 227, 229, 233, 239, 241, 251, 257, 263, 269, 271, 277, 281, 283, 293, 307,
   311]

/-- The first 32 bits of the fractional parts of the cube roots of the first 64 primes. -/
def roundConstants : List (BitVec 32) :=
  primes.map fun p => BitVec.ofNat 32 (Nat.nthRoot 3 (p * 2 ^ 96))

/-- The working variables, or the eight words of a hash value. -/
structure Registers where
  a : BitVec 32
  b : BitVec 32
  c : BitVec 32
  d : BitVec 32
  e : BitVec 32
  f : BitVec 32
  g : BitVec 32
  h : BitVec 32
  deriving DecidableEq

/-- The first 32 bits of the fractional part of a square root. -/
def squareRootFraction (p : ℕ) : BitVec 32 := BitVec.ofNat 32 (Nat.sqrt (p * 2 ^ 64))

/-- The initial hash value: the square roots of the first eight primes. -/
def initialHash : Registers :=
  ⟨squareRootFraction 2, squareRootFraction 3, squareRootFraction 5, squareRootFraction 7,
    squareRootFraction 11, squareRootFraction 13, squareRootFraction 17, squareRootFraction 19⟩

/-! ## Padding and parsing -/

/-- The zeros that are appended: the least number that leaves 448 modulo 512. -/
def zeros (length : ℕ) : ℕ := (448 + 512 - (length + 1) % 512) % 512

/-- The padded message. -/
def pad (message : List Bool) : List Bool :=
  message ++ [true] ++ List.replicate (zeros message.length) false ++ digits 64 message.length

/-- Word `j` of block `i` of the padded message. -/
def messageWord (padded : List Bool) (i j : ℕ) : BitVec 32 :=
  BitVec.ofNat 32 (value ((padded.drop (512 * i + 32 * j)).take 32))

/-! ## The computation -/

/-- The message schedule. -/
def schedule (words : ℕ → BitVec 32) (t : ℕ) : BitVec 32 :=
  if t < 16 then words t
  else smallSigma1 (schedule words (t - 2)) + schedule words (t - 7)
    + smallSigma0 (schedule words (t - 15)) + schedule words (t - 16)

/-- The schedule reads the sixteen words of the block. -/
theorem schedule_congr {words words' : ℕ → BitVec 32} (h : ∀ j < 16, words j = words' j) (t : ℕ) :
    schedule words t = schedule words' t := by
  induction t using Nat.strong_induction_on with
  | h t ih =>
    by_cases ht : t < 16
    · rw [schedule, if_pos ht, h t ht, eq_comm, schedule, if_pos ht]
    · rw [schedule, if_neg ht, ih _ (by omega), ih _ (by omega), ih _ (by omega),
        ih _ (by omega), eq_comm, schedule, if_neg ht]

/-- One round. -/
def round (r : Registers) (constant word : BitVec 32) : Registers :=
  let temp1 := r.h + bigSigma1 r.e + ch r.e r.f r.g + constant + word
  let temp2 := bigSigma0 r.a + maj r.a r.b r.c
  ⟨temp1 + temp2, r.a, r.b, r.c, r.d + temp1, r.e, r.f, r.g⟩

def Registers.add (x y : Registers) : Registers :=
  ⟨x.a + y.a, x.b + y.b, x.c + y.c, x.d + y.d, x.e + y.e, x.f + y.f, x.g + y.g, x.h + y.h⟩

/-- The next hash value, from the words of a block. -/
def compress (hash : Registers) (words : ℕ → BitVec 32) : Registers :=
  Registers.add ((List.range 64).foldl
    (fun r t => round r (roundConstants.getD t 0) (schedule words t)) hash) hash

theorem compress_congr {words words' : ℕ → BitVec 32} (h : ∀ j < 16, words j = words' j)
    (hash : Registers) : compress hash words = compress hash words' := by
  simp only [compress, schedule_congr h]

def Registers.bits (r : Registers) : List Bool :=
  digits 32 r.a.toNat ++ digits 32 r.b.toNat ++ digits 32 r.c.toNat ++ digits 32 r.d.toNat
    ++ digits 32 r.e.toNat ++ digits 32 r.f.toNat ++ digits 32 r.g.toNat ++ digits 32 r.h.toNat

/-- The hash value after `n` blocks of a padded message. -/
def hashBlocks (padded : List Bool) (n : ℕ) : Registers :=
  (List.range n).foldl (fun hash i => compress hash (messageWord padded i)) initialHash

/-- The digest of a message. -/
def hash (message : List Bool) : List Bool :=
  let padded := pad message
  (hashBlocks padded (padded.length / 512)).bits

end Fips180
