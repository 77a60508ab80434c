import Mathlib

/-!
# IEEE-754 binary64

The runtime computes with `double` and requires `is_iec559`, so a `double` is
its 64-bit pattern and arithmetic is correctly rounded to nearest, ties to
even.  A finite pattern stands for an integer multiple of `2 ^ (-1074)`;
`Binary64.scaled` is that integer, sums and products of it are exact, and
`Binary64.roundMagnitude` is the one place where anything is rounded.

`FloatOps` collects the operations the aggregation code uses, so that the same
code can also be read in exact arithmetic.
-/

namespace MonteCarlo

/-- The floating-point operations used by `aggregate.cpp`. -/
class FloatOps (F : Type) where
  /-- `static_cast<double>` of an unsigned 64-bit integer. -/
  ofUInt64 : UInt64 → F
  /-- `64.0 * std::numeric_limits<double>::epsilon()`. -/
  toleranceUnit : F
  add : F → F → F
  sub : F → F → F
  mul : F → F → F
  div : F → F → F
  abs : F → F
  /-- The comparison `<`, false as soon as an operand is not a number. -/
  lt : F → F → Bool
  /-- The comparison `==`, false as soon as an operand is not a number. -/
  eq : F → F → Bool
  isFinite : F → Bool

/-- A `double`, given by its bit pattern. -/
structure Binary64 where
  bits : UInt64
  deriving DecidableEq, Repr

namespace Binary64

/-- The bit pattern without its sign. -/
def magnitude (x : Binary64) : ℕ := x.bits.toNat % 2 ^ 63

def isNegative (x : Binary64) : Bool := decide (2 ^ 63 ≤ x.bits.toNat)

/-- The magnitude of infinity; larger magnitudes are not numbers. -/
def infinityMagnitude : ℕ := 2047 * 2 ^ 52

def isFinite (x : Binary64) : Bool := decide (x.magnitude < infinityMagnitude)

def isNaN (x : Binary64) : Bool := decide (infinityMagnitude < x.magnitude)

def isZero (x : Binary64) : Bool := decide (x.magnitude = 0)

/-- A value from its sign and magnitude. -/
def ofSign (negative : Bool) (magnitude : ℕ) : Binary64 :=
  ⟨UInt64.ofNat (if negative then 2 ^ 63 + magnitude else magnitude)⟩

def quietNaN : Binary64 := ofSign false (2047 * 2 ^ 52 + 2 ^ 51)

/-- The magnitude of a finite value as a multiple of `2 ^ (-1074)`. -/
def scaledMagnitude (x : Binary64) : ℕ :=
  if x.magnitude < 2 ^ 52 then x.magnitude
  else (2 ^ 52 + x.magnitude % 2 ^ 52) * 2 ^ (x.magnitude / 2 ^ 52 - 1)

/-- A finite value as a multiple of `2 ^ (-1074)`. -/
def scaled (x : Binary64) : ℤ :=
  if x.isNegative then -(x.scaledMagnitude : ℤ) else x.scaledMagnitude

/-- The magnitude nearest to `numerator / denominator` times `2 ^ (-1074)`, ties
to even.  The shift selects the binade; a significand that rounds up to
`2 ^ 53` carries into the exponent by itself. -/
def roundMagnitude (numerator denominator : ℕ) : ℕ :=
  let shift := Nat.log 2 (numerator / denominator) - 52
  let unit := denominator * 2 ^ shift
  let significand := numerator / unit
  let twice := 2 * (numerator % unit)
  let up := if unit < twice ∨ (unit = twice ∧ significand % 2 = 1) then 1 else 0
  min (shift * 2 ^ 52 + significand + up) infinityMagnitude

/-- The value nearest to `numerator / denominator` times `2 ^ (-1074)`. -/
def round (numerator : ℤ) (denominator : ℕ) : Binary64 :=
  ofSign (decide (numerator < 0)) (roundMagnitude numerator.natAbs denominator)

def add (x y : Binary64) : Binary64 :=
  if x.isNaN || y.isNaN then quietNaN
  else if !x.isFinite then
    if !y.isFinite && x.isNegative != y.isNegative then quietNaN else x
  else if !y.isFinite then y
  else if x.scaled + y.scaled = 0 then ofSign (x.isNegative && y.isNegative) 0
  else round (x.scaled + y.scaled) 1

def neg (x : Binary64) : Binary64 := ofSign (!x.isNegative) x.magnitude

def sub (x y : Binary64) : Binary64 := add x (neg y)

def mul (x y : Binary64) : Binary64 :=
  let negative := x.isNegative != y.isNegative
  if x.isNaN || y.isNaN then quietNaN
  else if !x.isFinite || !y.isFinite then
    if x.isZero || y.isZero then quietNaN else ofSign negative infinityMagnitude
  else ofSign negative (roundMagnitude (x.scaledMagnitude * y.scaledMagnitude) (2 ^ 1074))

def div (x y : Binary64) : Binary64 :=
  let negative := x.isNegative != y.isNegative
  if x.isNaN || y.isNaN then quietNaN
  else if !x.isFinite then
    if !y.isFinite then quietNaN else ofSign negative infinityMagnitude
  else if !y.isFinite then ofSign negative 0
  else if y.isZero then
    if x.isZero then quietNaN else ofSign negative infinityMagnitude
  else ofSign negative (roundMagnitude (x.scaledMagnitude * 2 ^ 1074) y.scaledMagnitude)

def abs (x : Binary64) : Binary64 := ofSign false x.magnitude

/-- The order of the numbers, infinities included: both zeros are `0`. -/
def key (x : Binary64) : ℤ :=
  if x.isNegative then -(x.magnitude : ℤ) else x.magnitude

def lt (x y : Binary64) : Bool := !x.isNaN && !y.isNaN && decide (x.key < y.key)

def eq (x y : Binary64) : Bool := !x.isNaN && !y.isNaN && decide (x.key = y.key)

def ofUInt64 (n : UInt64) : Binary64 := round (n.toNat * 2 ^ 1074) 1

instance : FloatOps Binary64 where
  ofUInt64 := ofUInt64
  toleranceUnit := ofSign false ((1023 - 46) * 2 ^ 52)
  add := add
  sub := sub
  mul := mul
  div := div
  abs := abs
  lt := lt
  eq := eq
  isFinite := isFinite

instance : Zero Binary64 := ⟨⟨0⟩⟩

instance : One Binary64 := ⟨⟨0x3FF0000000000000⟩⟩

/-! ## Known values

`1 + 2 = 3`, `1 / 3` and a product that overflows, as binary64 patterns. -/

example : add ⟨0x3FF0000000000000⟩ ⟨0x4000000000000000⟩ = ⟨0x4008000000000000⟩ := by
  decide +kernel

example : div ⟨0x3FF0000000000000⟩ ⟨0x4008000000000000⟩ = ⟨0x3FD5555555555555⟩ := by
  decide +kernel

example : mul ⟨0x7FE0000000000000⟩ ⟨0x4000000000000000⟩ = ⟨0x7FF0000000000000⟩ := by
  decide +kernel

end Binary64
end MonteCarlo
