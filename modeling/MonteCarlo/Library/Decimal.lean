import Mathlib

/-!
# Fixed-width decimal numerals

`print width value` is the decimal numeral of `value`, filled up with zeros on
the left to exactly `width` digits; `parse` reads a string of digits.  On the
numbers that fit the width the two are inverse to each other
(`parse_print`, `print_of_parse`).
-/

namespace Decimal

/-- The character of a digit. -/
def digit (d : ℕ) : Char := Char.ofNat (48 + d)

/-- The value of a digit character. -/
def digitValue (c : Char) : Option ℕ :=
  if 48 ≤ c.toNat ∧ c.toNat ≤ 57 then some (c.toNat - 48) else none

/-- The `width` low decimal digits of `value`, most significant first. -/
def print : ℕ → ℕ → List Char
  | 0, _ => []
  | width + 1, value => print width (value / 10) ++ [digit (value % 10)]

/-- Read further digits after the number `prior`; anything but a digit is
refused. -/
def parseFrom (prior : ℕ) : List Char → Option ℕ
  | [] => some prior
  | c :: rest => (digitValue c).bind fun d => parseFrom (prior * 10 + d) rest

/-- The number that a string of digits stands for. -/
def parse (cs : List Char) : Option ℕ := parseFrom 0 cs

@[simp] theorem length_print (width value : ℕ) : (print width value).length = width := by
  induction width generalizing value with
  | zero => rfl
  | succ width ih => simp [print, ih]

theorem toNat_digit {d : ℕ} (h : d < 10) : (digit d).toNat = 48 + d := by
  interval_cases d <;> rfl

theorem digitValue_digit {d : ℕ} (h : d < 10) : digitValue (digit d) = some d := by
  rw [digitValue, toNat_digit h, if_pos (by omega), Nat.add_sub_cancel_left]

theorem digit_of_digitValue {c : Char} {d : ℕ} (h : digitValue c = some d) :
    d < 10 ∧ digit d = c := by
  unfold digitValue at h
  split at h
  · rename_i hc
    cases h
    refine ⟨by omega, ?_⟩
    rw [digit, show 48 + (c.toNat - 48) = c.toNat by omega, Char.ofNat_toNat]
  · cases h

theorem parseFrom_append (prior : ℕ) (xs ys : List Char) :
    parseFrom prior (xs ++ ys) = (parseFrom prior xs).bind fun p => parseFrom p ys := by
  induction xs generalizing prior with
  | nil => rfl
  | cons c rest ih =>
    cases hc : digitValue c with
    | none => simp [parseFrom, hc]
    | some d => simp [parseFrom, hc, ih]

/-- Reading undoes printing. -/
theorem parse_print {width value : ℕ} (h : value < 10 ^ width) :
    parse (print width value) = some value := by
  induction width generalizing value with
  | zero =>
    have hzero : value = 0 := by simpa using h
    rw [hzero]
    rfl
  | succ width ih =>
    have hdiv : value / 10 < 10 ^ width := by
      rw [Nat.div_lt_iff_lt_mul (by norm_num), ← pow_succ]
      exact h
    have hlast := digitValue_digit (Nat.mod_lt value (show 0 < 10 by norm_num))
    have hfirst := ih hdiv
    unfold parse at hfirst ⊢
    rw [print, parseFrom_append, hfirst, Option.bind_some, parseFrom, hlast, Option.bind_some,
      parseFrom]
    congr 1
    have := Nat.div_add_mod value 10
    omega

/-- A string of digits is the numeral of its value. -/
theorem print_of_parse {cs : List Char} {value : ℕ} (h : parse cs = some value) :
    print cs.length value = cs ∧ value < 10 ^ cs.length := by
  induction cs using List.reverseRecOn generalizing value with
  | nil => cases h; exact ⟨rfl, by norm_num⟩
  | append_singleton front c ih =>
    unfold parse at h ih
    rw [parseFrom_append] at h
    obtain ⟨p, hp, h⟩ := Option.bind_eq_some_iff.mp h
    obtain ⟨d, hd, h⟩ := Option.bind_eq_some_iff.mp h
    cases h
    obtain ⟨hlt, hdigit⟩ := digit_of_digitValue hd
    obtain ⟨hprint, hbound⟩ := ih hp
    have hdiv : (p * 10 + d) / 10 = p := by omega
    have hmod : (p * 10 + d) % 10 = d := by omega
    rw [List.length_append, List.length_singleton, print, hdiv, hmod, hprint, hdigit, pow_succ]
    exact ⟨rfl, by omega⟩

end Decimal
