import Mathlib

/-!
# Numerals and the C++ conversions

Positional numerals in any base up to 36, as `std::ostream` prints them and `std::from_chars`
reads them: printing is without leading zeros and in lower case, reading takes the longest prefix
of digits, in either case, and reports a value that is too large.

* `print`, `pad` — printing, and filling up with zeros to a width.
* `fromChars` — reading.
* `fromChars_print`, `fromChars_pad` — reading undoes printing.
-/

namespace Numeral

/-- The character of a digit. -/
def digit (d : ℕ) : Char := Char.ofNat (if d < 10 then 48 + d else 87 + d)

/-- The value of a digit character. -/
def digitValue (c : Char) : Option ℕ :=
  if 48 ≤ c.toNat ∧ c.toNat ≤ 57 then some (c.toNat - 48)
  else if 97 ≤ c.toNat ∧ c.toNat ≤ 122 then some (c.toNat - 87)
  else if 65 ≤ c.toNat ∧ c.toNat ≤ 90 then some (c.toNat - 55)
  else none

/-- Whether a character is a digit of a base. -/
def isDigit (base : ℕ) (c : Char) : Bool := (digitValue c).any (· < base)

/-- The number that a string of digits stands for. -/
def value (base : ℕ) (text : List Char) : ℕ :=
  text.foldl (fun prior c => prior * base + (digitValue c).getD 0) 0

/-- The numeral of a number, without leading zeros. -/
def print (base n : ℕ) : List Char :=
  if n = 0 then [digit 0] else (Nat.digits base n).reverse.map digit

/-- A text filled up with zeros on the left. -/
def pad (width : ℕ) (text : List Char) : List Char :=
  List.replicate (width - text.length) '0' ++ text

/-- What `std::from_chars` reports. -/
inductive Error where
  | invalidArgument
  | resultOutOfRange
  deriving DecidableEq, Repr

/-- `std::from_chars` for an unsigned type with values below `bound`: the value of the longest
prefix of digits, and the text after it. -/
def fromChars (base bound : ℕ) (text : List Char) : Except Error (ℕ × List Char) :=
  let digits := text.takeWhile (isDigit base)
  if digits = [] then .error .invalidArgument
  else if bound ≤ value base digits then .error .resultOutOfRange
  else .ok (value base digits, text.dropWhile (isDigit base))

variable {base bound n width : ℕ}

theorem digitValue_digit {d : ℕ} (h : d < 36) : digitValue (digit d) = some d := by
  interval_cases d <;> rfl

theorem isDigit_digit {d : ℕ} (h : d < base) (hbase : base ≤ 36) : isDigit base (digit d) = true := by
  rw [isDigit, digitValue_digit (by omega), Option.any_some, decide_eq_true_eq]
  exact h

theorem value_append (xs : List Char) (c : Char) :
    value base (xs ++ [c]) = value base xs * base + (digitValue c).getD 0 := by
  rw [value, List.foldl_append]
  rfl

/-- Zeros in front do not count. -/
theorem value_replicate_zero (count : ℕ) (text : List Char) :
    value base (List.replicate count '0' ++ text) = value base text := by
  induction count with
  | zero => rfl
  | succ count ih =>
    rw [List.replicate_succ, List.cons_append, value, List.foldl_cons,
      show digitValue '0' = some 0 from rfl, Nat.zero_mul]
    exact ih

theorem value_digits (hbase : base ≤ 36) {ds : List ℕ} (hds : ∀ d ∈ ds, d < base) :
    value base (ds.reverse.map digit) = Nat.ofDigits base ds := by
  induction ds with
  | nil => rfl
  | cons d ds ih =>
    have hd : d < 36 := Nat.lt_of_lt_of_le (hds d List.mem_cons_self) hbase
    rw [List.reverse_cons, List.map_append, List.map_singleton, value_append,
      ih fun x hx => hds x (List.mem_cons_of_mem _ hx), digitValue_digit hd, Nat.ofDigits_cons,
      Option.getD_some]
    ring

theorem value_print (h : 2 ≤ base) (hbase : base ≤ 36) : value base (print base n) = n := by
  unfold print
  split
  · rename_i hzero
    rw [hzero, value, List.foldl_cons, List.foldl_nil, digitValue_digit (by omega), Nat.zero_mul]
    rfl
  · rw [value_digits hbase fun d hd => Nat.digits_lt_base (by omega) hd, Nat.ofDigits_digits]

theorem print_ne_nil : print base n ≠ [] := by
  unfold print
  split
  · simp
  · rename_i hne
    simpa [Nat.digits_eq_nil_iff_eq_zero] using hne

theorem isDigit_of_mem_print (h : 2 ≤ base) (hbase : base ≤ 36) {c : Char}
    (hc : c ∈ print base n) : isDigit base c = true := by
  unfold print at hc
  split at hc
  · rw [List.mem_singleton.mp hc]
    exact isDigit_digit (by omega) hbase
  · obtain ⟨d, hd, rfl⟩ := List.mem_map.mp hc
    exact isDigit_digit (Nat.digits_lt_base (by omega) (List.mem_reverse.mp hd)) hbase

/-- A number below `base ^ width` has at most `width` digits. -/
theorem length_print_le (h : 2 ≤ base) (hwidth : 1 ≤ width) (hn : n < base ^ width) :
    (print base n).length ≤ width := by
  unfold print
  split
  · exact hwidth
  · rw [List.length_map, List.length_reverse]
    exact (Nat.digits_length_le_iff (by omega) n).mpr hn

theorem length_pad {text : List Char} (h : text.length ≤ width) :
    (pad width text).length = width := by
  rw [pad, List.length_append, List.length_replicate]
  omega

theorem isDigit_of_mem_pad (h : 2 ≤ base) (hbase : base ≤ 36) {c : Char}
    (hc : c ∈ pad width (print base n)) : isDigit base c = true := by
  rcases List.mem_append.mp hc with hc | hc
  · rw [(List.mem_replicate.mp hc).2]
    exact isDigit_digit (d := 0) (by omega) hbase
  · exact isDigit_of_mem_print h hbase hc

/-- A digit is neither a sign nor a separator. -/
theorem isDigit_eq_false {c : Char} (h : c ∈ ['\n', '=', '-', '+', '.', '_']) :
    isDigit base c = false := by
  simp only [List.mem_cons, List.not_mem_nil, or_false] at h
  rcases h with rfl | rfl | rfl | rfl | rfl | rfl <;> rfl

/-- A text of digits is read to its end. -/
theorem fromChars_of_digits {text : List Char} (hne : text ≠ [])
    (hall : ∀ c ∈ text, isDigit base c = true) (hlt : value base text < bound) :
    fromChars base bound text = .ok (value base text, []) := by
  have htake : text.takeWhile (isDigit base) = text := List.takeWhile_eq_self_iff.mpr hall
  have hdrop : text.dropWhile (isDigit base) = [] := List.dropWhile_eq_nil_iff.mpr hall
  simp only [fromChars, htake, hdrop, hne, if_false, Nat.not_le.mpr hlt]

theorem fromChars_print (h : 2 ≤ base) (hbase : base ≤ 36) (hn : n < bound) :
    fromChars base bound (print base n) = .ok (n, []) := by
  have hvalue := value_print (n := n) h hbase
  rw [fromChars_of_digits print_ne_nil (fun c hc => isDigit_of_mem_print h hbase hc)
    (by rw [hvalue]; exact hn), hvalue]

theorem fromChars_pad (h : 2 ≤ base) (hbase : base ≤ 36) (hn : n < bound) :
    fromChars base bound (pad width (print base n)) = .ok (n, []) := by
  have hvalue : value base (pad width (print base n)) = n := by
    rw [pad, value_replicate_zero, value_print h hbase]
  have hne : pad width (print base n) ≠ [] := fun hnil =>
    print_ne_nil (List.append_eq_nil_iff.mp hnil).2
  rw [fromChars_of_digits hne (fun c hc => isDigit_of_mem_pad h hbase hc)
    (by rw [hvalue]; exact hn), hvalue]

end Numeral
