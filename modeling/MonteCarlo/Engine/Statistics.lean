import MonteCarlo.Library.Statistics
import MonteCarlo.Engine.Reduction

/-!
# Block statistics in exact arithmetic

The aggregation code is written over `FloatOps`, so it can be read over the rationals.  There the
aggregate of a list of observations is determined by the list: `Summarizes`.  `add` and `merge` keep
that relation, hence a reduction of blocks is the fold over all observations, for any cut into
blocks.

* `Summarizes.add`, `Summarizes.merge` — the two operations.
* `Summarizes.invariantError` — what summarizes a list passes the check.
* `block_statistics_compose` — blocks, reduced, against the concatenation.
-/

namespace MonteCarlo

open Statistics

/-- Exact arithmetic.  The tolerance is the one of the source, `64 * 2 ^ (-52)`. -/
instance : FloatOps ℚ where
  ofUInt64 n := n.toNat
  toleranceUnit := 64 / 2 ^ 52
  add := (· + ·)
  sub := (· - ·)
  mul := (· * ·)
  div := (· / ·)
  abs := fun x => |x|
  lt x y := decide (x < y)
  eq x y := decide (x = y)
  isFinite _ := true

theorem zero_rat : (AggregateStats.zero : ℚ) = 0 := by
  show ((0 : UInt64).toNat : ℚ) = 0
  simp

theorem minOf_rat (x y : ℚ) : AggregateStats.minOf x y = min x y := by
  simp only [AggregateStats.minOf, FloatOps.lt, decide_eq_true_eq, min_def]
  split <;> split <;> linarith

theorem maxOf_rat (x y : ℚ) : AggregateStats.maxOf x y = max x y := by
  simp only [AggregateStats.maxOf, FloatOps.lt, decide_eq_true_eq, max_def]
  split <;> split <;> linarith

/-- The aggregate holds the count, the mean, the squared deviations and the range of the list. -/
structure Summarizes (a : AggregateStats ℚ) (xs : List ℚ) : Prop where
  n : a.n.toNat = xs.length
  mean : a.mean = Statistics.mean xs
  m2 : a.m2 = deviations xs
  min_nil : xs = [] → a.min = 0
  max_nil : xs = [] → a.max = 0
  min : xs ≠ [] → IsLeast {x | x ∈ xs} a.min
  max : xs ≠ [] → IsGreatest {x | x ∈ xs} a.max

namespace Summarizes

variable {a b : AggregateStats ℚ} {xs ys : List ℚ}

theorem n_eq_zero (h : Summarizes a xs) : a.n = 0 ↔ xs = [] := by
  rw [← List.length_eq_zero_iff, ← h.n]
  exact UInt64.toNat_inj.symm

/-- A list has one aggregate. -/
theorem unique (ha : Summarizes a xs) (hb : Summarizes b xs) : a = b := by
  have hrange : a.min = b.min ∧ a.max = b.max := by
    by_cases hxs : xs = []
    · rw [ha.min_nil hxs, ha.max_nil hxs, hb.min_nil hxs, hb.max_nil hxs]
      exact ⟨rfl, rfl⟩
    · exact ⟨(ha.min hxs).unique (hb.min hxs), (ha.max hxs).unique (hb.max hxs)⟩
  have hn : a.n = b.n := UInt64.toNat_inj.mp (ha.n.trans hb.n.symm)
  have hmean : a.mean = b.mean := ha.mean.trans hb.mean.symm
  have hm2 : a.m2 = b.m2 := ha.m2.trans hb.m2.symm
  cases a
  cases b
  simp only [AggregateStats.mk.injEq]
  exact ⟨hn, hmean, hm2, hrange.1, hrange.2⟩

theorem empty : Summarizes .empty [] where
  n := rfl
  mean := by rw [mean_nil]; exact zero_rat
  m2 := by rw [deviations_nil]; exact zero_rat
  min_nil _ := zero_rat
  max_nil _ := zero_rat
  min h := absurd rfl h
  max h := absurd rfl h

/-- What summarizes a list passes the check, without using the tolerance. -/
theorem invariantError (h : Summarizes a xs) : a.invariantError = none := by
  by_cases hxs : xs = []
  · have hempty : a = .empty := h.unique (hxs ▸ empty)
    rw [hempty]
    rfl
  · have hn : a.n ≠ 0 := fun hn => hxs (h.n_eq_zero.mp hn)
    have hm2 : 0 ≤ a.m2 := h.m2 ▸ deviations_nonneg
    have hlo : a.min ≤ a.mean := h.mean ▸ le_mean hxs fun x hx => (h.min hxs).2 hx
    have hhi : a.mean ≤ a.max := h.mean ▸ mean_le hxs fun x hx => (h.max hxs).2 hx
    have htolerance : 0 ≤ (64 / 2 ^ 52 : ℚ) * AggregateStats.maxOf (AggregateStats.maxOf
        (AggregateStats.maxOf ((1 : UInt64).toNat : ℚ) |a.mean|) |a.min|) |a.max| := by
      refine mul_nonneg (by norm_num) ?_
      simp only [maxOf_rat]
      exact le_max_of_le_right (abs_nonneg _)
    have hone : a.n = 1 → a.m2 = 0 ∧ a.mean = a.min ∧ a.mean = a.max := by
      intro hn
      obtain ⟨x, rfl⟩ : ∃ x, xs = [x] := List.length_eq_one_iff.mp (by rw [← h.n, hn]; rfl)
      have hmin : a.min = x := List.mem_singleton.mp (h.min hxs).1
      have hmax : a.max = x := List.mem_singleton.mp (h.max hxs).1
      rw [h.m2, h.mean, hmin, hmax, deviations_singleton, mean_singleton]
      exact ⟨rfl, rfl, rfl⟩
    unfold AggregateStats.invariantError
    simp only [FloatOps.isFinite, FloatOps.lt, FloatOps.eq, FloatOps.mul, FloatOps.sub,
      FloatOps.add, FloatOps.abs, FloatOps.ofUInt64, FloatOps.toleranceUnit, zero_rat]
    rw [if_neg (by simp), if_neg hn, if_neg (by simp), if_neg (by simpa using hm2),
      if_neg (by simpa using hlo.trans hhi), if_neg, if_neg]
    · simp only [Bool.and_eq_true, Bool.or_eq_true, decide_eq_true_eq, not_and]
      intro hn1
      obtain ⟨h0, hmin, hmax⟩ := hone hn1
      simp only [← hmin, ← hmax, sub_self, abs_zero] at htolerance ⊢
      simp only [h0, decide_true, Bool.not_true, Bool.false_eq_true, false_or, or_self, not_lt]
      exact htolerance
    · simp only [Bool.or_eq_true, decide_eq_true_eq, not_or, not_lt]
      exact ⟨by linarith, by linarith⟩

/-- The range of two lists together. -/
theorem range_append (ha : Summarizes a xs) (hb : Summarizes b ys) (hx : xs ≠ []) (hy : ys ≠ []) :
    IsLeast {x | x ∈ xs ++ ys} (Min.min a.min b.min) ∧
      IsGreatest {x | x ∈ xs ++ ys} (Max.max a.max b.max) := by
  have hset : {x | x ∈ xs ++ ys} = {x | x ∈ xs} ∪ {x | x ∈ ys} := by
    ext x
    simp
  rw [hset]
  exact ⟨(ha.min hx).union (hb.min hy), (ha.max hx).union (hb.max hy)⟩

/-- An observation more. -/
theorem add (h : Summarizes a xs) (hlength : xs.length + 1 < 2 ^ 64) (x : ℚ) :
    ∃ c, a.add x = .ok c ∧ Summarizes c (xs ++ [x]) := by
  unfold AggregateStats.add
  rw [if_neg (by simp [FloatOps.isFinite])]
  by_cases hxs : xs = []
  · rw [if_pos (h.n_eq_zero.mpr hxs), hxs, List.nil_append]
    refine ⟨_, rfl, ⟨rfl, (mean_singleton x).symm, ?_, nofun, nofun, fun _ => ?_, fun _ => ?_⟩⟩
    · rw [deviations_singleton]
      exact zero_rat
    · simp
    · simp
  · rw [if_neg fun hn => hxs (h.n_eq_zero.mp hn)]
    have hn : (a.n + 1).toNat = xs.length + 1 := by
      rw [UInt64.toNat_add, h.n]
      exact Nat.mod_eq_of_lt hlength
    have hmean : a.mean + (x - a.mean) / ((a.n + 1).toNat : ℚ) = Statistics.mean (xs ++ [x]) := by
      rw [mean_concat hxs, hn, h.mean, Nat.cast_add, Nat.cast_one]
    have hone : Summarizes ⟨1, x, 0, x, x⟩ [x] :=
      ⟨rfl, (mean_singleton x).symm, (deviations_singleton x).symm, nofun, nofun,
        fun _ => by simp, fun _ => by simp⟩
    obtain ⟨hmin, hmax⟩ := h.range_append hone hxs (by simp)
    refine ⟨_, rfl, ⟨?_, hmean, ?_, ?_, ?_, fun _ => ?_, fun _ => ?_⟩⟩
    · rw [List.length_append]
      exact hn
    · rw [deviations_concat hxs, ← hmean, ← h.m2, ← h.mean]
      rfl
    · simp
    · simp
    · rw [minOf_rat]
      exact hmin
    · rw [maxOf_rat]
      exact hmax

/-- Two lists together. -/
theorem merge (ha : Summarizes a xs) (hb : Summarizes b ys)
    (hlength : xs.length + ys.length < 2 ^ 64) :
    ∃ c, a.merge b = .ok c ∧ Summarizes c (xs ++ ys) := by
  unfold AggregateStats.merge
  rw [ha.invariantError, hb.invariantError]
  by_cases hx : xs = []
  · refine ⟨b, if_pos (ha.n_eq_zero.mpr hx), ?_⟩
    rw [hx, List.nil_append]
    exact hb
  by_cases hy : ys = []
  · refine ⟨a, ?_, ?_⟩
    · simp only
      rw [if_neg fun hn => hx (ha.n_eq_zero.mp hn), if_pos (hb.n_eq_zero.mpr hy)]
    · rw [hy, List.append_nil]
      exact ha
  have hn : (a.n + b.n).toNat = xs.length + ys.length := by
    rw [UInt64.toNat_add, ha.n, hb.n]
    exact Nat.mod_eq_of_lt hlength
  have hroom : ¬ UInt64.ofNat (2 ^ 64 - 1) - a.n < b.n := by
    have hle : a.n ≤ UInt64.ofNat (2 ^ 64 - 1) :=
      UInt64.le_iff_toNat_le.mpr (Nat.le_of_lt_succ a.n.toNat_lt)
    rw [UInt64.lt_iff_toNat_lt, UInt64.toNat_sub_of_le _ _ hle, ha.n, hb.n]
    simp only [UInt64.toNat_ofNat']
    omega
  obtain ⟨hmin, hmax⟩ := ha.range_append hb hx hy
  simp only
  rw [if_neg fun hn => hx (ha.n_eq_zero.mp hn), if_neg fun hn => hy (hb.n_eq_zero.mp hn),
    if_neg hroom]
  generalize hc : AggregateStats.mk (a.n + b.n) _ _ _ _ = c
  have hsum : Summarizes c (xs ++ ys) := by
    subst hc
    refine ⟨?_, ?_, ?_, ?_, ?_, fun _ => ?_, fun _ => ?_⟩
    · rw [List.length_append]
      exact hn
    · rw [mean_append hx hy, ← ha.mean, ← hb.mean]
      show a.mean + (b.mean - a.mean) * ((b.n.toNat : ℚ) / (a.n + b.n).toNat) = _
      rw [hn, hb.n, Nat.cast_add]
    · rw [deviations_append hx hy, ← ha.mean, ← hb.mean, ← ha.m2, ← hb.m2]
      show a.m2 + b.m2 + (b.mean - a.mean) * (b.mean - a.mean) *
        ((a.n.toNat : ℚ) * b.n.toNat / (a.n + b.n).toNat) = _
      rw [hn, ha.n, hb.n, Nat.cast_add]
    · simp [hx]
    · simp [hx]
    · rw [minOf_rat]
      exact hmin
    · rw [maxOf_rat]
      exact hmax
  refine ⟨c, ?_, hsum⟩
  rw [hsum.invariantError]

end Summarizes

/-- The aggregate of a block: `add` folded over its observations, as `compute_block` does. -/
def observe {F : Type} [FloatOps F] (observations : List F) : Result (AggregateStats F) :=
  observations.foldlM AggregateStats.add .empty

theorem Summarizes.foldlM {a : AggregateStats ℚ} {xs ys : List ℚ} (h : Summarizes a xs)
    (hlength : (xs ++ ys).length < 2 ^ 64) :
    ∃ c, ys.foldlM AggregateStats.add a = .ok c ∧ Summarizes c (xs ++ ys) := by
  induction ys generalizing a xs with
  | nil => exact ⟨a, rfl, by rwa [List.append_nil]⟩
  | cons y ys ih =>
    rw [List.length_append, List.length_cons] at hlength
    obtain ⟨b, hb, hsum⟩ := h.add (by omega) y
    obtain ⟨c, hc, hall⟩ := ih hsum (by simp only [List.length_append, List.length_singleton]; omega)
    rw [List.foldlM_cons, hb, List.append_cons]
    exact ⟨c, hc, hall⟩

theorem observe_summarizes {xs : List ℚ} (hlength : xs.length < 2 ^ 64) :
    ∃ a, observe xs = .ok a ∧ Summarizes a xs :=
  Summarizes.empty.foldlM hlength

theorem mapM_observe {blocks : List (List ℚ)} (hlength : blocks.flatten.length < 2 ^ 64) :
    ∃ leaves, blocks.mapM observe = .ok leaves ∧ List.Forall₂ Summarizes leaves blocks := by
  induction blocks with
  | nil => exact ⟨[], rfl, .nil⟩
  | cons block blocks ih =>
    rw [List.flatten_cons, List.length_append] at hlength
    obtain ⟨a, ha, hsum⟩ := observe_summarizes (show block.length < 2 ^ 64 by omega)
    obtain ⟨leaves, hleaves, hall⟩ := ih (by omega)
    refine ⟨a :: leaves, ?_, .cons hsum hall⟩
    rw [List.mapM_cons, ha, hleaves]
    rfl

/-! ## The reduction -/

/-- One level: the aggregates stand for longer runs of observations, the same altogether. -/
theorem reduceLevel_summarizes {level : List (AggregateStats ℚ)} {blocks : List (List ℚ)}
    (h : List.Forall₂ Summarizes level blocks) (hlength : blocks.flatten.length < 2 ^ 64) :
    ∃ next blocks', reduceLevel AggregateStats.merge level = .ok next ∧
      List.Forall₂ Summarizes next blocks' ∧ blocks'.flatten = blocks.flatten := by
  induction level using reduceLevel.induct generalizing blocks with
  | case1 a b rest ih =>
    obtain ⟨xs, _, ha, htail, rfl⟩ := List.forall₂_cons_left_iff.mp h
    obtain ⟨ys, blocks, hb, hrest, rfl⟩ := List.forall₂_cons_left_iff.mp htail
    simp only [List.flatten_cons, List.length_append] at hlength
    obtain ⟨c, hc, hsum⟩ := ha.merge hb (by omega)
    obtain ⟨next, blocks', hnext, hall, hflatten⟩ := ih hrest (by omega)
    refine ⟨c :: next, (xs ++ ys) :: blocks', ?_, .cons hsum hall, ?_⟩
    · rw [reduceLevel, hc, hnext]
      rfl
    · simp only [List.flatten_cons, hflatten, List.append_assoc]
  | case2 level hshort =>
    refine ⟨level, blocks, ?_, h, rfl⟩
    rcases level with _ | ⟨a, _ | ⟨b, rest⟩⟩
    · rfl
    · rfl
    · exact absurd rfl (hshort a b rest)

/-- Any number of levels. -/
theorem reduceLevels_summarizes {level : List (AggregateStats ℚ)} {blocks : List (List ℚ)}
    (h : List.Forall₂ Summarizes level blocks) (hlength : blocks.flatten.length < 2 ^ 64)
    (fuel : ℕ) :
    ∃ next blocks', reduceLevels AggregateStats.merge fuel level = .ok next ∧
      List.Forall₂ Summarizes next blocks' ∧ blocks'.flatten = blocks.flatten := by
  induction fuel generalizing level blocks with
  | zero => exact ⟨level, blocks, rfl, h, rfl⟩
  | succ fuel ih =>
    rw [reduceLevels]
    split
    · obtain ⟨next, blocks', hnext, hall, hflatten⟩ := reduceLevel_summarizes h hlength
      obtain ⟨last, blocks'', hlast, hall', hflatten'⟩ := ih hall (hflatten ▸ hlength)
      rw [hnext]
      exact ⟨last, blocks'', hlast, hall', hflatten'.trans hflatten⟩
    · exact ⟨level, blocks, rfl, h, rfl⟩

theorem reduceBlockResults_summarizes {leaves : List (AggregateStats ℚ)} {blocks : List (List ℚ)}
    (h : List.Forall₂ Summarizes leaves blocks) (hlength : blocks.flatten.length < 2 ^ 64) :
    ∃ total, reduceBlockResults leaves = .ok total ∧ Summarizes total blocks.flatten := by
  obtain ⟨last, blocks', hlast, hall, hflatten⟩ := reduceLevels_summarizes h hlength leaves.length
  rw [reduceBlockResults, hlast, ← hflatten]
  by_cases hne : leaves = []
  · subst hne
    cases hlast
    cases hall
    exact ⟨.empty, rfl, .empty⟩
  · -- one element is left, and one run of observations with it
    have hone : (reduceLevels AggregateStats.merge leaves.length leaves).toOption = _ :=
      reduceLevels_toOption hne le_rfl
    rw [hlast] at hone
    obtain ⟨total, -, htotal⟩ := Option.map_eq_some_iff.mp hone.symm
    subst htotal
    obtain ⟨xs, rfl⟩ : ∃ xs, blocks' = [xs] := List.length_eq_one_iff.mp hall.length_eq.symm
    obtain ⟨hsum, -⟩ := List.forall₂_cons.mp hall
    refine ⟨total, rfl, ?_⟩
    rwa [List.flatten_cons, List.flatten_nil, List.append_nil]

/-- In exact arithmetic the reduction of the blocks' aggregates is the aggregate of all
observations, with the true mean and squared deviations; on the way every aggregate passes the
check, in a block and on every level, and another cut of the same observations gives the same. -/
theorem block_statistics_compose (blocks : List (List ℚ))
    (hlength : blocks.flatten.length < 2 ^ 64) :
    ∃ leaves total, blocks.mapM observe = .ok leaves ∧
      reduceBlockResults leaves = .ok total ∧
      observe blocks.flatten = .ok total ∧
      total.n.toNat = blocks.flatten.length ∧
      total.mean = blocks.flatten.sum / blocks.flatten.length ∧
      total.m2 = (blocks.flatten.map fun x => (x - total.mean) ^ 2).sum ∧
      (∀ block ∈ blocks, ∀ observed, observed <+: block →
        ∃ a, observe observed = .ok a ∧ a.invariantError = none) ∧
      (∀ rounds, ∃ level, reduceLevels AggregateStats.merge rounds leaves = .ok level ∧
        ∀ a ∈ level, a.invariantError = none) ∧
      ∀ blocks' : List (List ℚ), blocks'.flatten = blocks.flatten →
        ∃ leaves', blocks'.mapM observe = .ok leaves' ∧ reduceBlockResults leaves' = .ok total := by
  obtain ⟨leaves, hleaves, hall⟩ := mapM_observe hlength
  obtain ⟨total, htotal, hsum⟩ := reduceBlockResults_summarizes hall hlength
  refine ⟨leaves, total, hleaves, htotal, ?_, hsum.n, hsum.mean, ?_, ?_, ?_, ?_⟩
  · obtain ⟨whole, hwhole, hsum'⟩ := observe_summarizes hlength
    rw [hwhole, hsum'.unique hsum]
  · rw [hsum.m2, hsum.mean, deviations]
  · intro block hblock observed hobserved
    have hle : observed.length ≤ blocks.flatten.length :=
      hobserved.length_le.trans (List.sublist_flatten_of_mem hblock).length_le
    obtain ⟨a, ha, hsum'⟩ := observe_summarizes (hle.trans_lt hlength)
    exact ⟨a, ha, hsum'.invariantError⟩
  · intro rounds
    obtain ⟨level, blocks', hlevel, hall', -⟩ := reduceLevels_summarizes hall hlength rounds
    have hchecked : List.Forall₂ (fun a xs => a.invariantError = none ∧ Summarizes a xs)
        level blocks' := hall'.imp fun a xs h => ⟨h.invariantError, h⟩
    exact ⟨level, hlevel, ((List.forall₂_and_left level blocks').mp hchecked).1⟩
  · intro blocks' hflatten
    obtain ⟨leaves', hleaves', hall'⟩ := mapM_observe (hflatten ▸ hlength)
    obtain ⟨total', htotal', hsum'⟩ := reduceBlockResults_summarizes hall' (hflatten ▸ hlength)
    refine ⟨leaves', hleaves', ?_⟩
    rw [htotal', hsum'.unique (hflatten ▸ hsum)]

/-- Three blocks, one of them empty: the reduction gives the mean of the five observations. -/
theorem block_statistics_compose_three :
    ∃ leaves total, [[1, 2], [], [3, 4, 10]].mapM observe = .ok leaves ∧
      reduceBlockResults leaves = .ok total ∧ total.mean = (4 : ℚ) := by
  obtain ⟨leaves, total, hleaves, htotal, -, -, hmean, -⟩ :=
    block_statistics_compose [[1, 2], [], [3, 4, 10]] (by simp)
  refine ⟨leaves, total, hleaves, htotal, ?_⟩
  rw [hmean]
  norm_num

end MonteCarlo
