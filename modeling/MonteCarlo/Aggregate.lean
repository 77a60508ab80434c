import MonteCarlo.Exceptions
import MonteCarlo.Numeric.Binary64

/-!
# Mergeable statistics

The running statistics of `aggregate.cpp`: Welford's update `add`, the check
`invariantError` that every persisted aggregate has to pass, and the pairwise
`merge`.  They are written over any `FloatOps`, as the source is over `double`.

What is proved here is what the store relies on: an aggregate that `merge`
returns passes the check (`merge_invariantError`), and so does the empty one.
-/

namespace MonteCarlo

variable {F : Type}

/-- `AggregateStats`: count, mean, sum of squared deviations and range. -/
structure AggregateStats (F : Type) where
  n : UInt64
  mean : F
  m2 : F
  min : F
  max : F
  deriving DecidableEq, Repr

namespace AggregateStats

variable [FloatOps F]

/-- `0.0`. -/
def zero : F := FloatOps.ofUInt64 0

/-- `std::min`. -/
def minOf (x y : F) : F := if FloatOps.lt y x then y else x

/-- `std::max`. -/
def maxOf (x y : F) : F := if FloatOps.lt x y then y else x

/-- A default-constructed aggregate. -/
def empty : AggregateStats F := ⟨0, zero, zero, zero, zero⟩

instance : Inhabited (AggregateStats F) := ⟨empty⟩

/-- `AggregateStats::add`. -/
def add (a : AggregateStats F) (observation : F) : Result (AggregateStats F) :=
  if !FloatOps.isFinite observation then
    .error ⟨.domainError, .aggregateAdd, "aggregate observation must be finite"⟩
  else if a.n = 0 then
    .ok ⟨1, observation, zero, observation, observation⟩
  else
    let n := a.n + 1
    let delta := FloatOps.sub observation a.mean
    let mean := FloatOps.add a.mean (FloatOps.div delta (FloatOps.ofUInt64 n))
    let deltaAfter := FloatOps.sub observation mean
    .ok ⟨n, mean, FloatOps.add a.m2 (FloatOps.mul delta deltaAfter),
      minOf a.min observation, maxOf a.max observation⟩

/-- `AggregateStats::invariant_error`: the first rule the aggregate breaks. -/
def invariantError (a : AggregateStats F) (expectedN : Option UInt64 := none) : Option String :=
  if expectedN.any (· ≠ a.n) then
    some "aggregate observation count does not match the expected count"
  else if a.n = 0 then
    if !FloatOps.eq a.mean zero || !FloatOps.eq a.m2 zero || !FloatOps.eq a.min zero
        || !FloatOps.eq a.max zero then
      some "empty aggregate does not use the canonical zero representation"
    else none
  else if !FloatOps.isFinite a.mean || !FloatOps.isFinite a.m2 || !FloatOps.isFinite a.min
      || !FloatOps.isFinite a.max then
    some "aggregate contains a non-finite value"
  else if FloatOps.lt a.m2 zero then
    some "aggregate m2 must be nonnegative"
  else if FloatOps.lt a.max a.min then
    some "aggregate minimum exceeds maximum"
  else
    let scale := maxOf (maxOf (maxOf (FloatOps.ofUInt64 1) (FloatOps.abs a.mean))
      (FloatOps.abs a.min)) (FloatOps.abs a.max)
    let tolerance := FloatOps.mul FloatOps.toleranceUnit scale
    if FloatOps.lt a.mean (FloatOps.sub a.min tolerance)
        || FloatOps.lt (FloatOps.add a.max tolerance) a.mean then
      some "aggregate mean lies outside its minimum/maximum range"
    else if a.n = 1 && (!FloatOps.eq a.m2 zero
        || FloatOps.lt tolerance (FloatOps.abs (FloatOps.sub a.mean a.min))
        || FloatOps.lt tolerance (FloatOps.abs (FloatOps.sub a.mean a.max))) then
      some "single-observation aggregate fields are inconsistent"
    else none

/-- `merge`. -/
def merge (left right : AggregateStats F) : Result (AggregateStats F) :=
  match left.invariantError with
  | some error =>
    .error ⟨.invalidArgument, .merge, "left aggregate is invalid: " ++ error⟩
  | none =>
  match right.invariantError with
  | some error =>
    .error ⟨.invalidArgument, .merge, "right aggregate is invalid: " ++ error⟩
  | none =>
  if left.n = 0 then .ok right
  else if right.n = 0 then .ok left
  else if UInt64.ofNat (2 ^ 64 - 1) - left.n < right.n then
    .error ⟨.overflowError, .merge, "aggregate observation count overflow"⟩
  else
    let n := left.n + right.n
    let leftN := FloatOps.ofUInt64 left.n
    let rightN := FloatOps.ofUInt64 right.n
    let totalN := FloatOps.ofUInt64 n
    let delta := FloatOps.sub right.mean left.mean
    let result : AggregateStats F :=
      { n := n
        mean := FloatOps.add left.mean (FloatOps.mul delta (FloatOps.div rightN totalN))
        m2 := FloatOps.add (FloatOps.add left.m2 right.m2)
          (FloatOps.mul (FloatOps.mul delta delta)
            (FloatOps.div (FloatOps.mul leftN rightN) totalN))
        min := minOf left.min right.min
        max := maxOf left.max right.max }
    match result.invariantError with
    | some error =>
      .error ⟨.overflowError, .merge, "merged aggregate is not representable: " ++ error⟩
    | none => .ok result

/-- Whatever `merge` returns passes the check. -/
theorem merge_invariantError {left right a : AggregateStats F} (h : merge left right = .ok a) :
    a.invariantError = none := by
  unfold merge at h
  split at h
  · cases h
  · rename_i hleft
    split at h
    · cases h
    · rename_i hright
      split at h
      · cases h; exact hright
      · split at h
        · cases h; exact hleft
        · split at h
          · cases h
          · simp only at h
            split at h
            · cases h
            · rename_i hresult
              cases h
              exact hresult

/-- What `merge` throws is thrown by it. -/
theorem merge_error {left right : AggregateStats F} {e : Exception}
    (h : merge left right = .error e) : e.thrower = .merge ∧ e.type ≠ .invalidDurableArtifact := by
  unfold merge at h
  split at h
  · cases h; exact ⟨rfl, nofun⟩
  · split at h
    · cases h; exact ⟨rfl, nofun⟩
    · split at h
      · cases h
      · split at h
        · cases h
        · split at h
          · cases h; exact ⟨rfl, nofun⟩
          · simp only at h
            split at h
            · cases h; exact ⟨rfl, nofun⟩
            · cases h

/-- An aggregate with the expected count passes the unconditional check too. -/
theorem invariantError_none {a : AggregateStats F} {n : UInt64}
    (h : a.invariantError (some n) = none) : a.invariantError = none ∧ a.n = n := by
  unfold invariantError at h
  by_cases hn : n = a.n
  · subst hn
    refine ⟨?_, rfl⟩
    simpa [invariantError] using h
  · simp [hn] at h

/-- `aggregates_equal`: equality of the bit patterns. -/
def aggregatesEqual (left right : AggregateStats Binary64) : Bool :=
  left.n = right.n && left.mean.bits = right.mean.bits && left.m2.bits = right.m2.bits
    && left.min.bits = right.min.bits && left.max.bits = right.max.bits

@[simp] theorem aggregatesEqual_iff {left right : AggregateStats Binary64} :
    aggregatesEqual left right = true ↔ left = right := by
  obtain ⟨n, ⟨mean⟩, ⟨m2⟩, ⟨lo⟩, ⟨hi⟩⟩ := left
  obtain ⟨n', ⟨mean'⟩, ⟨m2'⟩, ⟨lo'⟩, ⟨hi'⟩⟩ := right
  simp [aggregatesEqual, and_assoc]

theorem empty_invariantError : (empty : AggregateStats Binary64).invariantError = none := by
  decide +kernel

end AggregateStats
end MonteCarlo
