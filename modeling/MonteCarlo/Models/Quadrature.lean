import MonteCarlo.Library.Requests
import MonteCarlo.Library.Tiling
import MonteCarlo.Models.Exact
import Mathlib.Analysis.SpecialFunctions.Trigonometric.Basic

/-!
# The adaptive quadrature

The integrator of the Heston reference price: Gauss and Kronrod's rule of fifteen points, bisection
to a limited depth, and segments short enough for the oscillation, under one budget of evaluations.

* `integratePhaseSafeSlab` — the integrator.
* `Meets` — the code keeps within the budget, and what it returns has a property.
* `Integrates` — sums of estimates over subintervals that tile the interval.
* `phase_safe_slab_tiles_within_budget` — every result is of that kind.
-/

namespace MonteCarlo

open Effects Program Tiling

/-! ## The code -/

/-- What the quadrature uses beyond the kernels. -/
class QuadratureOps (F : Type) extends KernelOps F where
  /-- A literal, by its digits and the number of them behind the point. -/
  ofDigits : ℕ → ℕ → F
  /-- `std::numeric_limits<Real>::epsilon()`. -/
  epsilon : F
  /-- `std::acos(-1.0L)`. -/
  pi : F
  ceil : F → F
  /-- `static_cast<Real>` of a size. -/
  ofSize : ℕ → F
  /-- `static_cast<std::size_t>`. -/
  toSize : F → ℕ

/-- `kMaximumAdaptiveDepth`. -/
def kMaximumAdaptiveDepth : ℕ := 20

/-- `kMaximumIntegrandEvaluations`. -/
def kMaximumIntegrandEvaluations : ℕ := 500000

/-- `IntegralEstimate`. -/
structure IntegralEstimate (F : Type) where
  value : F
  error : F

/-- The calls that the quadrature makes: of the integrand, and on `IntegrationBudget`. -/
inductive QuadratureOp (F : Type) where
  /-- `budget.evaluations`. -/
  | evaluations
  /-- `budget.evaluations += count`. -/
  | charge (count : ℕ)
  /-- `integrand(x)`, which can throw. -/
  | integrand (x : F)

abbrev QuadratureReply (F : Type) : QuadratureOp F → Type
  | .evaluations => ℕ
  | .charge _ => Unit
  | .integrand _ => Result F

/-- Code that calls the integrand and charges the budget. -/
abbrev Quadrature (F α : Type) : Type :=
  Program (QuadratureOp F) (QuadratureReply F) Exception α

section Code

variable {F : Type} [QuadratureOps F]

open FloatOps KernelOps QuadratureOps AggregateStats

/-- `integrand(x)`. -/
def Quadrature.integrand (x : F) : Quadrature F F := do
  let value ← Program.perform (.integrand x)
  Program.ofExcept value

/-- `if (condition) throw std::domain_error(what);` -/
def Quadrature.throwIf (condition : Bool) (what : String) : Quadrature F Unit :=
  Program.ofExcept (MonteCarlo.throwIf condition (kernelError .domainError what))

/-- `nodes` of `gauss_kronrod_15`. -/
def kronrodNodes : List F :=
  [ofDigits 991455371120812639206854697526329 33, ofDigits 949107912342758524526189684047851 33,
    ofDigits 864864423359769072789712788640926 33, ofDigits 741531185599394439863864773280788 33,
    ofDigits 586087235467691130294144838258730 33, ofDigits 405845151377397166906606412076961 33,
    ofDigits 207784955007898467600689403773245 33, zero]

/-- `kronrod_weights`. -/
def kronrodWeights : List F :=
  [ofDigits 022935322010529224963732008058970 33, ofDigits 063092092629978553290700663189204 33,
    ofDigits 104790010322250183839876322541518 33, ofDigits 140653259715525918745189590510238 33,
    ofDigits 169004726639267902826583426598550 33, ofDigits 190350578064785409913256402421014 33,
    ofDigits 204432940075298892414161999234649 33, ofDigits 209482141084727828012999174891714 33]

/-- `gauss_weights`. -/
def gaussWeights : List F :=
  [ofDigits 129484966168869693270611432679082 33, ofDigits 279705391489276667901467771423780 33,
    ofDigits 381830050505118944950369775488975 33, ofDigits 417959183673469387755102040816327 33]

/-- The body of the loop of `gauss_kronrod_15`: the sums are `kronrod` and `gauss`. -/
def kronrodPair (midpoint halfWidth : F) (sums : F × F) (index : ℕ) : Quadrature F (F × F) := do
  let offset := mul halfWidth (kronrodNodes.getD index zero)
  let below ← Quadrature.integrand (sub midpoint offset)
  let above ← Quadrature.integrand (add midpoint offset)
  let pair := add below above
  Quadrature.throwIf (!isFinite pair) "Heston analytic quadrature pair became non-finite"
  let kronrod := add sums.1 (mul (kronrodWeights.getD index zero) pair)
  let gauss := if index % 2 = 1 then
      add sums.2 (mul (gaussWeights.getD ((index - 1) / 2) zero) pair)
    else sums.2
  pure (kronrod, gauss)

/-- `gauss_kronrod_15` after the budget has been charged. -/
def kronrodSamples (lower upper : F) : Quadrature F (IntegralEstimate F) := do
  let midpoint := mul half (add lower upper)
  let halfWidth := mul half (sub upper lower)
  let center ← Quadrature.integrand midpoint
  Quadrature.throwIf (!isFinite center) "Heston analytic quadrature sample became non-finite"
  let sums ← (List.range 7).foldlM (kronrodPair midpoint halfWidth)
    (mul (kronrodWeights.getD 7 zero) center, mul (gaussWeights.getD 3 zero) center)
  let value := mul sums.1 halfWidth
  let gaussValue := mul sums.2 halfWidth
  Quadrature.throwIf (!isFinite value || !isFinite gaussValue)
    "Heston analytic quadrature estimate became non-finite"
  let roundingFloor := mul (mul (ofSize 50) epsilon) (FloatOps.abs value)
  pure ⟨value, maxOf (FloatOps.abs (sub value gaussValue)) roundingFloor⟩

/-- `gauss_kronrod_15`. -/
def gaussKronrod15 (lower upper : F) : Quadrature F (IntegralEstimate F) := do
  let evaluations : ℕ ← Program.perform QuadratureOp.evaluations
  Quadrature.throwIf (kMaximumIntegrandEvaluations - 15 < evaluations)
    "Heston analytic integration exceeded its evaluation budget"
  let _ ← Program.perform (.charge 15)
  kronrodSamples lower upper

/-- `integrate_adaptive`. -/
def integrateAdaptive (lower upper tolerance : F) (depth : ℕ) :
    Quadrature F (IntegralEstimate F) := do
  let whole ← gaussKronrod15 lower upper
  if le whole.error tolerance then pure whole
  else
    match depth with
    | 0 => pure whole
    | depth + 1 => do
      let midpoint := mul half (add lower upper)
      let left ← integrateAdaptive lower midpoint (mul half tolerance) depth
      let right ← integrateAdaptive midpoint upper (mul half tolerance) depth
      pure ⟨add left.value right.value, add left.error right.error⟩
termination_by structural depth

/-- The body of the loop of `integrate_phase_safe_slab`. -/
def integrateSegment (lower upper width tolerance : F) (segments : ℕ) (total : IntegralEstimate F)
    (segment : ℕ) : Quadrature F (IntegralEstimate F) := do
  let segmentLower := add lower (mul (ofSize segment) width)
  let segmentUpper := if segment + 1 = segments then upper else add segmentLower width
  let estimate ← integrateAdaptive segmentLower segmentUpper (div tolerance (ofSize segments))
    kMaximumAdaptiveDepth
  pure ⟨add total.value estimate.value, add total.error estimate.error⟩

/-- `integrate_phase_safe_slab`. -/
def integratePhaseSafeSlab (lower upper phaseRate tolerance : F) :
    Quadrature F (IntegralEstimate F) := do
  let phaseSpan := mul (sub upper lower) phaseRate
  let rawSegments := if lt pi phaseSpan then ceil (div phaseSpan pi) else ofSize 1
  Quadrature.throwIf (!isFinite rawSegments || lt rawSegments (ofSize 1)
      || lt (ofSize (kMaximumIntegrandEvaluations / 15)) rawSegments)
    "Heston analytic oscillation exceeds its evaluation budget"
  let segments := toSize rawSegments
  let width := div (sub upper lower) (ofSize segments)
  (List.range segments).foldlM (integrateSegment lower upper width tolerance segments)
    ⟨zero, zero⟩

end Code

/-! ## The budget -/

section Budget

variable {F : Type}

/-- The budget, and where the integrand has been called. -/
structure IntegrationState (F : Type) where
  evaluations : ℕ
  calls : List F

/-- The integrand and the budget behind the calls. -/
def integrationHandler (integrand : F → Result F) :
    Handler (QuadratureOp F) (QuadratureReply F) (IntegrationState F)
  | .evaluations, state => (state.evaluations, state)
  | .charge count, state => ((), { state with evaluations := state.evaluations + count })
  | .integrand x, state => (integrand x, { state with calls := state.calls ++ [x] })

/-- The replies under a budget that has not been used. -/
def freshReply (integrand : F → Result F) : (op : QuadratureOp F) → QuadratureReply F op
  | .evaluations => (0 : ℕ)
  | .charge _ => ()
  | .integrand x => integrand x

/-- The state after calls of the integrand alone. -/
def IntegrationState.after (state : IntegrationState F) (points : List F) : IntegrationState F :=
  { state with calls := state.calls ++ points }

/-- Code that only calls the integrand leaves the budget alone, and when it returns it has called it
everywhere. -/
theorem wp_of_asks {α : Type} {integrand : F → Result F} {p : Quadrature F α} {points : List F}
    (hp : Asks p (points.map .integrand)) (state : IntegrationState F) :
    Wp (integrationHandler integrand) (fun now => ∃ seen, seen <+: points ∧ now = state.after seen)
      (fun outcome now => ∀ a, outcome = .ok a → now = state.after points ∧
        eval (freshReply integrand) p = .ok a) p state := by
  induction p generalizing points state with
  | done a =>
    obtain rfl : points = [] := List.map_eq_nil_iff.mp hp
    have hstate : state = state.after [] := by simp [IntegrationState.after]
    refine wp_pure ⟨[], List.prefix_rfl, hstate⟩ fun b hb => ⟨hstate, hb⟩
  | fail e =>
    refine wp_throw ⟨[], List.nil_prefix, by simp [IntegrationState.after]⟩ nofun
  | call op next ih =>
    obtain ⟨rest, hops, hnext⟩ := hp
    obtain ⟨x, points, rfl, rfl, rfl⟩ := List.map_eq_cons_iff.mp hops
    have hrest := ih (integrand x) (hnext (integrand x)) (state.after [x])
    have happend : ∀ seen, (state.after [x]).after seen = state.after (x :: seen) := by
      intro seen
      simp [IntegrationState.after]
    constructor
    · rintro now (rfl | hv)
      · exact ⟨[], List.nil_prefix, by simp [IntegrationState.after]⟩
      · obtain ⟨seen, hseen, rfl⟩ := hrest.1 now hv
        exact ⟨x :: seen, (List.prefix_cons_inj x).mpr hseen, happend seen⟩
    · intro a ha
      obtain ⟨hnow, heval⟩ := hrest.2 a ha
      exact ⟨hnow.trans (happend points), heval⟩

theorem asks_integrand (x : F) : Asks (Quadrature.integrand x : Quadrature F F) [.integrand x] :=
  (asks_perform _).then_none fun value => asks_ofExcept value

/-- Since `start` the budget has been charged for every call of the integrand, and not beyond its
limit. -/
structure Charged (start now : IntegrationState F) : Prop where
  spent : start.evaluations ≤ now.evaluations
  bounded : now.evaluations ≤ max start.evaluations kMaximumIntegrandEvaluations
  covered : now.calls.length + start.evaluations ≤ start.calls.length + now.evaluations

/-- Since `start` the budget has been charged for the calls made and for nothing else. -/
structure Settled (start now : IntegrationState F) : Prop extends Charged start now where
  settled : now.calls.length + start.evaluations = start.calls.length + now.evaluations

theorem settled_refl (start : IntegrationState F) : Settled start start :=
  ⟨⟨le_rfl, le_max_left _ _, le_rfl⟩, rfl⟩

/-- The code keeps within the budget, and what it returns meets `P`. -/
def Meets {α : Type} (integrand : F → Result F) (start : IntegrationState F) (P : α → Prop)
    (p : Quadrature F α) (now : IntegrationState F) : Prop :=
  Wp (integrationHandler integrand) (Charged start)
    (fun outcome after => ∀ a, outcome = .ok a → Settled start after ∧ P a) p now

variable {integrand : F → Result F} {start now : IntegrationState F} {α β : Type}

theorem meets_pure {P : α → Prop} {a : α} (hnow : Settled start now) (ha : P a) :
    Meets integrand start P (pure a) now :=
  wp_pure hnow.toCharged fun b hb => by cases hb; exact ⟨hnow, ha⟩

theorem Meets.bind {P : α → Prop} {Q : β → Prop} {p : Quadrature F α} {f : α → Quadrature F β}
    (hp : Meets integrand start P p now)
    (hf : ∀ a after, Settled start after → P a → Meets integrand start Q (f a) after) :
    Meets integrand start Q (p >>= f) now := by
  refine wp_bind (Wp.mono hp (fun _ h => h) fun outcome after _ hpost => ?_)
  cases outcome with
  | ok a => exact hf a after (hpost a rfl).1 (hpost a rfl).2
  | error e => exact nofun

/-- An exception that the budget does not notice. -/
theorem meets_throwIf_bind {Q : α → Prop} {condition : Bool} {what : String}
    {f : Unit → Quadrature F α} (hnow : Settled start now)
    (hf : condition = false → Meets integrand start Q (f ()) now) :
    Meets integrand start Q (Quadrature.throwIf condition what >>= f) now := by
  cases condition with
  | false => exact hf rfl
  | true => exact wp_throw hnow.toCharged nofun

/-- A loop that counts: its body takes what holds after `k` rounds to what holds after `k + 1`. -/
theorem meets_foldlM_range {P : ℕ → β → Prop} {body : β → ℕ → Quadrature F β} {rounds : ℕ}
    (hbody : ∀ k b now, k < rounds → Settled start now → P k b →
      Meets integrand start (P (k + 1)) (body b k) now)
    {b : β} (hnow : Settled start now) (hb : P 0 b) :
    Meets integrand start (P rounds) ((List.range rounds).foldlM body b) now := by
  induction rounds with
  | zero => exact meets_pure hnow hb
  | succ rounds ih =>
    rw [List.range_succ, List.foldlM_append]
    refine Meets.bind (ih fun k b now hk => hbody k b now (hk.trans (Nat.lt_succ_self _))) ?_
    intro b after hafter hb
    rw [List.foldlM_cons]
    refine Meets.bind (hbody rounds b after (Nat.lt_succ_self _) hafter hb) ?_
    intro b after hafter hb
    exact meets_pure hafter hb

/-- A call, of the integrand or on the budget. -/
theorem meets_perform_bind {Q : α → Prop} (op : QuadratureOp F)
    {f : QuadratureReply F op → Quadrature F α} (hnow : Charged start now)
    (hafter : Charged start (integrationHandler integrand op now).2)
    (hf : Meets integrand start Q (f (integrationHandler integrand op now).1)
      (integrationHandler integrand op now).2) :
    Meets integrand start Q (Program.perform op >>= f) now :=
  wp_bind (wp_perform hnow hafter hf)

variable [QuadratureOps F]

open FloatOps KernelOps QuadratureOps AggregateStats

/-- Where `gauss_kronrod_15` calls the integrand. -/
def kronrodPoints (lower upper : F) : List F :=
  let midpoint := mul half (add lower upper)
  let halfWidth := mul half (sub upper lower)
  midpoint :: (List.range 7).flatMap fun index =>
    let offset := mul halfWidth (kronrodNodes.getD index zero)
    [sub midpoint offset, add midpoint offset]

theorem length_kronrodPoints (lower upper : F) : (kronrodPoints lower upper).length = 15 := rfl

theorem asks_kronrodPair (midpoint halfWidth : F) (sums : F × F) (index : ℕ) :
    Asks (kronrodPair midpoint halfWidth sums index)
      [.integrand (sub midpoint (mul halfWidth (kronrodNodes.getD index zero))),
        .integrand (add midpoint (mul halfWidth (kronrodNodes.getD index zero)))] := by
  refine (asks_integrand _).bind fun below => ?_
  refine (asks_integrand _).then_none fun above => ?_
  exact asks_skip (asks_ofExcept _) fun _ => asks_pure _

theorem asks_kronrodSamples (lower upper : F) :
    Asks (kronrodSamples lower upper) ((kronrodPoints lower upper).map .integrand) := by
  refine (asks_integrand _).bind fun center => ?_
  refine asks_skip (asks_ofExcept _) fun _ => ?_
  refine (Asks.foldlM (fun sums index => asks_kronrodPair _ _ sums index) _ _).then_none fun _ => ?_
  exact asks_skip (asks_ofExcept _) fun _ => asks_pure _

/-- What `gauss_kronrod_15` returns under a budget that has not been used. -/
def kronrodEstimate (integrand : F → Result F) (lower upper : F) : Result (IntegralEstimate F) :=
  eval (freshReply integrand) (gaussKronrod15 lower upper)

/-- `gauss_kronrod_15` charges the budget for the calls it makes. -/
theorem meets_gaussKronrod15 (lower upper : F) (hnow : Settled start now) :
    Meets integrand start (fun estimate => kronrodEstimate integrand lower upper = .ok estimate)
      (gaussKronrod15 lower upper) now := by
  obtain ⟨⟨hspent, hbounded, hcovered⟩, hsettled⟩ := hnow
  have hnow : Settled start now := ⟨⟨hspent, hbounded, hcovered⟩, hsettled⟩
  refine meets_perform_bind .evaluations hnow.toCharged hnow.toCharged ?_
  refine meets_throwIf_bind hnow fun hbudget => ?_
  have hroom : now.evaluations + 15 ≤ kMaximumIntegrandEvaluations := by
    have hfree : ¬ 500000 - 15 < now.evaluations := of_decide_eq_false hbudget
    simp only [kMaximumIntegrandEvaluations]
    omega
  let charged : IntegrationState F := { now with evaluations := now.evaluations + 15 }
  have hseen : ∀ seen : List F, seen.length ≤ 15 → Charged start (charged.after seen) := by
    intro seen hseen
    refine ⟨?_, ?_, ?_⟩
    · exact hspent.trans (Nat.le_add_right _ _)
    · exact hroom.trans (le_max_right _ _)
    · simp only [IntegrationState.after, charged, List.length_append]
      omega
  have hcharged : Charged start charged := by
    simpa [IntegrationState.after] using hseen [] (by simp)
  refine meets_perform_bind (.charge 15) hnow.toCharged hcharged ?_
  refine Wp.mono (wp_of_asks (asks_kronrodSamples lower upper) charged) ?_ ?_
  · rintro _ ⟨seen, hpart, rfl⟩
    exact hseen seen (hpart.length_le.trans (length_kronrodPoints lower upper).le)
  · rintro outcome after - hpost estimate hestimate
    obtain ⟨rfl, heval⟩ := hpost estimate hestimate
    refine ⟨⟨hseen _ (length_kronrodPoints lower upper).le, ?_⟩, heval⟩
    simp only [IntegrationState.after, charged, List.length_append, length_kronrodPoints]
    omega

end Budget

/-! ## The tiles -/

section Tiles

/-- Exact arithmetic. -/
noncomputable instance : QuadratureOps ℝ where
  ofDigits digits places := digits / 10 ^ places
  epsilon := 1 / (2 ^ 63 : ℕ)
  pi := Real.pi
  ceil x := ⌈x⌉
  ofSize n := n
  toSize x := ⌊x⌋₊

variable {integrand : ℝ → Result ℝ} {start now : IntegrationState ℝ}
variable {lower middle upper tolerance : ℝ} {left right estimate : IntegralEstimate ℝ}

/-- The estimate sums those of `gauss_kronrod_15` over the tiles. -/
def SumsOver (integrand : ℝ → Result ℝ) (tiles : List (ℝ × ℝ)) (estimate : IntegralEstimate ℝ) :
    Prop :=
  ∃ estimates : List (IntegralEstimate ℝ),
    List.Forall₂ (fun tile part => kronrodEstimate integrand tile.1 tile.2 = .ok part)
      tiles estimates ∧
    estimate.value = (estimates.map (·.value)).sum ∧
    estimate.error = (estimates.map (·.error)).sum

/-- The estimate sums those of `gauss_kronrod_15` over a tiling of the interval. -/
def Integrates (integrand : ℝ → Result ℝ) (lower upper : ℝ) (estimate : IntegralEstimate ℝ) :
    Prop :=
  ∃ tiles, Tiles lower upper tiles ∧ SumsOver integrand tiles estimate

theorem integrates_nothing (lower : ℝ) : Integrates integrand lower lower ⟨0, 0⟩ :=
  ⟨[], rfl, [], .nil, rfl, rfl⟩

theorem integrates_tile (hlt : lower < upper)
    (h : kronrodEstimate integrand lower upper = .ok estimate) :
    Integrates integrand lower upper estimate :=
  ⟨[(lower, upper)], tiles_single hlt, [estimate], .cons h .nil, by simp, by simp⟩

theorem Integrates.add (hleft : Integrates integrand lower middle left)
    (hright : Integrates integrand middle upper right) :
    Integrates integrand lower upper ⟨left.value + right.value, left.error + right.error⟩ := by
  obtain ⟨leftTiles, hleftTiles, leftParts, hleftParts, hleftValue, hleftError⟩ := hleft
  obtain ⟨rightTiles, hrightTiles, rightParts, hrightParts, hrightValue, hrightError⟩ := hright
  refine ⟨leftTiles ++ rightTiles, hleftTiles.append hrightTiles, leftParts ++ rightParts,
    List.rel_append hleftParts hrightParts, ?_, ?_⟩
  · simp only [List.map_append, List.sum_append, hleftValue, hrightValue]
  · simp only [List.map_append, List.sum_append, hleftError, hrightError]

/-- Bisection tiles the interval: the depth carries the induction, and the interval without a
further split is a tile of its own. -/
theorem meets_integrateAdaptive (depth : ℕ) (hlt : lower < upper) (hnow : Settled start now) :
    Meets integrand start (Integrates integrand lower upper)
      (integrateAdaptive lower upper tolerance depth) now := by
  induction depth generalizing lower upper tolerance now with
  | zero =>
    unfold integrateAdaptive
    refine Meets.bind (meets_gaussKronrod15 lower upper hnow) fun whole after hafter hwhole => ?_
    have htile := integrates_tile hlt hwhole
    split
    · exact meets_pure hafter htile
    · exact meets_pure hafter htile
  | succ depth ih =>
    unfold integrateAdaptive
    refine Meets.bind (meets_gaussKronrod15 lower upper hnow) fun whole after hafter hwhole => ?_
    split
    · exact meets_pure hafter (integrates_tile hlt hwhole)
    · have hleft : lower < 1 / 2 * (lower + upper) := by linarith
      have hright : 1 / 2 * (lower + upper) < upper := by linarith
      refine Meets.bind (ih hleft hafter) fun left after hafter hl => ?_
      refine Meets.bind (ih hright hafter) fun right after hafter hr => ?_
      exact meets_pure hafter (hl.add hr)

/-- Where the first segments end. -/
noncomputable def segmentEdge (lower upper : ℝ) (segments segment : ℕ) : ℝ :=
  if segment = segments then upper else lower + segment * ((upper - lower) / segments)

theorem segmentEdge_of_lt {segments segment : ℕ} (h : segment < segments) :
    segmentEdge lower upper segments segment =
      lower + segment * ((upper - lower) / segments) := if_neg h.ne

/-- The upper end that the loop computes. -/
theorem segmentEdge_succ {segments segment : ℕ} (h : segment < segments) :
    segmentEdge lower upper segments (segment + 1) =
      if segment + 1 = segments then upper
      else segmentEdge lower upper segments segment + (upper - lower) / segments := by
  rw [segmentEdge_of_lt h, segmentEdge]
  split
  · rfl
  · push_cast
    ring

theorem segmentEdge_lt_succ (hlt : lower < upper) {segments segment : ℕ} (h : segment < segments) :
    segmentEdge lower upper segments segment < segmentEdge lower upper segments (segment + 1) := by
  have hsegments : (0 : ℝ) < segments := by exact_mod_cast (Nat.zero_le _).trans_lt h
  have hwidth : 0 < (upper - lower) / segments := div_pos (sub_pos.mpr hlt) hsegments
  rw [segmentEdge_succ h]
  split
  case isTrue hlast =>
    -- The last segment ends at `upper`, which is one width further as well.
    have hcast : (segment : ℝ) + 1 = segments := by exact_mod_cast hlast
    have hwhole : (segment + 1) * ((upper - lower) / segments) = upper - lower := by
      rw [hcast]
      exact mul_div_cancel₀ _ hsegments.ne'
    rw [segmentEdge_of_lt h]
    linarith
  case isFalse => linarith

theorem meets_integrateSegment {segments segment : ℕ} (h : segment < segments) (hlt : lower < upper)
    (hnow : Settled start now)
    (hleft : Integrates integrand lower (segmentEdge lower upper segments segment) left) :
    Meets integrand start
      (Integrates integrand lower (segmentEdge lower upper segments (segment + 1)))
      (integrateSegment lower upper ((upper - lower) / segments) tolerance segments left segment)
      now := by
  have hedge := segmentEdge_lt_succ hlt h
  rw [segmentEdge_succ h] at hedge ⊢
  rw [segmentEdge_of_lt h] at hedge hleft ⊢
  refine Meets.bind (meets_integrateAdaptive kMaximumAdaptiveDepth hedge hnow) ?_
  intro right after hafter hright
  exact meets_pure hafter (hleft.add hright)

/-- The loop over the segments tiles the interval. -/
theorem meets_segments {segments : ℕ} (hsegments : 0 < segments) (hlt : lower < upper)
    (hnow : Settled start now) :
    Meets integrand start (Integrates integrand lower upper)
      ((List.range segments).foldlM
        (integrateSegment lower upper ((upper - lower) / segments) tolerance segments)
        ⟨AggregateStats.zero, AggregateStats.zero⟩) now := by
  let P (k : ℕ) := Integrates integrand lower (segmentEdge lower upper segments k)
  have hend : P segments = Integrates integrand lower upper := by
    simp only [P, segmentEdge, if_pos]
  have hstart : P 0 ⟨AggregateStats.zero, AggregateStats.zero⟩ := by
    have hedge : segmentEdge lower upper segments 0 = lower := by
      rw [segmentEdge_of_lt hsegments]
      simp
    simp only [P, hedge, zero_real]
    exact integrates_nothing lower
  rw [← hend]
  exact meets_foldlM_range (P := P) (fun k total now hk hnow htotal =>
    meets_integrateSegment hk hlt hnow htotal) hnow hstart

theorem meets_integratePhaseSafeSlab (phaseRate : ℝ) (hlt : lower < upper)
    (hnow : Settled start now) :
    Meets integrand start (Integrates integrand lower upper)
      (integratePhaseSafeSlab lower upper phaseRate tolerance) now := by
  refine meets_throwIf_bind hnow fun hraw => ?_
  refine meets_segments ?_ hlt hnow
  rw [Bool.or_eq_false_iff, Bool.or_eq_false_iff] at hraw
  have hone := of_decide_eq_false hraw.1.2
  exact Nat.floor_pos.mpr (by simpa [QuadratureOps.ofSize] using hone)

/-! ## An interval that is split -/

/-- With an integrand that never throws and enough budget `gauss_kronrod_15` returns. -/
theorem exists_run_gaussKronrod15 (f : ℝ → ℝ) (lower upper : ℝ) {spent : ℕ} (calls : List ℝ)
    (hspent : spent + 15 ≤ kMaximumIntegrandEvaluations) :
    ∃ estimate calls', run (integrationHandler fun x => .ok (f x)) (gaussKronrod15 lower upper)
        ⟨spent, calls⟩ = (.ok estimate, ⟨spent + 15, calls'⟩) ∧
      kronrodEstimate (fun x => .ok (f x)) lower upper = .ok estimate := by
  have hroom : decide (kMaximumIntegrandEvaluations - 15 < spent) = false := by
    rw [decide_eq_false_iff_not]
    omega
  have hasked : run (integrationHandler fun x => .ok (f x))
      (Program.perform QuadratureOp.evaluations : Quadrature ℝ ℕ) ⟨spent, calls⟩ =
        (.ok spent, ⟨spent, calls⟩) := rfl
  unfold gaussKronrod15
  rw [run_bind_ok hasked, hroom]
  exact ⟨_, _, rfl, rfl⟩

theorem eval_integrand (x : ℝ) :
    eval (freshReply integrand) (Quadrature.integrand x) = integrand x := by
  rw [Quadrature.integrand, eval_bind, eval_perform]
  exact eval_ofExcept _

/-- A pair of zeros leaves the sums alone. -/
theorem eval_kronrodPair_zero {midpoint halfWidth : ℝ} (sums : ℝ × ℝ) {index : ℕ}
    (hbelow : integrand (midpoint - halfWidth * kronrodNodes.getD index 0) = .ok 0)
    (habove : integrand (midpoint + halfWidth * kronrodNodes.getD index 0) = .ok 0) :
    eval (freshReply integrand) (kronrodPair midpoint halfWidth sums index) = .ok sums := by
  have heval : eval (freshReply integrand) (kronrodPair midpoint halfWidth sums index) =
      .ok (sums.1 + kronrodWeights.getD index 0 * (0 + 0), if index % 2 = 1
        then sums.2 + gaussWeights.getD ((index - 1) / 2) 0 * (0 + 0) else sums.2) := by
    simp only [kronrodPair, zero_real, eval_bind, eval_integrand, sub_real, add_real, mul_real,
      hbelow, habove, isFinite_real]
    rfl
  rw [heval]
  simp only [add_zero, mul_zero, ite_self]

/-- When the integrand vanishes at all points but the middle, only its weights count. -/
theorem kronrodEstimate_center (center : ℝ)
    (hcenter : integrand (1 / 2 * (lower + upper)) = .ok center)
    (hzero : ∀ index < 7,
      integrand (1 / 2 * (lower + upper) - 1 / 2 * (upper - lower) * kronrodNodes.getD index 0) =
          .ok 0 ∧
        integrand (1 / 2 * (lower + upper) + 1 / 2 * (upper - lower) * kronrodNodes.getD index 0) =
          .ok 0) :
    let kronrod := kronrodWeights.getD 7 0 * center * (1 / 2 * (upper - lower))
    let gauss := gaussWeights.getD 3 0 * center * (1 / 2 * (upper - lower))
    kronrodEstimate integrand lower upper =
      .ok ⟨kronrod, max |kronrod - gauss|
        (QuadratureOps.ofSize 50 * QuadratureOps.epsilon * |kronrod|)⟩ := by
  have hfold : ∀ sums : ℝ × ℝ, eval (freshReply integrand) ((List.range 7).foldlM
      (kronrodPair (1 / 2 * (lower + upper)) (1 / 2 * (upper - lower))) sums) = .ok sums := by
    intro sums
    rw [eval_foldlM]
    have hall : ∀ indices : List ℕ, (∀ index ∈ indices, index < 7) → indices.foldlM
        (fun sums index => eval (freshReply integrand)
          (kronrodPair (1 / 2 * (lower + upper)) (1 / 2 * (upper - lower)) sums index)) sums =
        .ok sums := by
      intro indices hindices
      induction indices with
      | nil => rfl
      | cons index rest ih =>
        obtain ⟨hbelow, habove⟩ := hzero index (hindices index List.mem_cons_self)
        rw [List.foldlM_cons, eval_kronrodPair_zero sums hbelow habove]
        exact ih fun other hother => hindices other (List.mem_cons_of_mem _ hother)
    exact hall _ fun index => List.mem_range.mp
  have hsamples : kronrodEstimate integrand lower upper =
      eval (freshReply integrand) (kronrodSamples lower upper) := rfl
  rw [hsamples]
  simp only [kronrodSamples, eval_bind, eval_integrand, half_real, add_real, sub_real, mul_real,
    zero_real, hcenter, isFinite_real, hfold, maxOf_real]
  rfl

theorem kronrodNodes_mem {index : ℕ} (h : index < 7) :
    0 < (kronrodNodes.getD index 0 : ℝ) ∧ (kronrodNodes.getD index 0 : ℝ) < 1 := by
  have hdigits : ∀ digits : ℕ, 0 < digits → digits < 10 ^ 33 →
      0 < (QuadratureOps.ofDigits digits 33 : ℝ) ∧ (QuadratureOps.ofDigits digits 33 : ℝ) < 1 := by
    intro digits hpos hlt
    have hscale : (0 : ℝ) < 10 ^ 33 := by positivity
    refine ⟨div_pos (Nat.cast_pos.mpr hpos) hscale, (div_lt_one hscale).mpr ?_⟩
    exact_mod_cast hlt
  interval_cases index <;> exact hdigits _ (by norm_num) (by norm_num)

/-- One at the middle of the unit interval, and zero elsewhere. -/
noncomputable def peak (x : ℝ) : ℝ := if x + x = 1 then 1 else 0

theorem peak_of_ne {x : ℝ} (h : x ≠ 1 / 2) : (.ok (peak x) : Result ℝ) = .ok 0 := by
  rw [peak, if_neg fun hx => h (by linarith)]

/-- The estimate over the whole interval misses the peak. -/
theorem kronrodEstimate_peak : ∃ estimate : IntegralEstimate ℝ,
    kronrodEstimate (fun x => .ok (peak x)) 0 1 = .ok estimate ∧ 0 < estimate.error := by
  have hmiddle : (1 / 2 * (0 + 1) : ℝ) = 1 / 2 := by norm_num
  refine ⟨_, kronrodEstimate_center 1 ?_ fun index hindex => ?_, ?_⟩
  · rw [hmiddle, peak, if_pos (by norm_num)]
  · obtain ⟨hpos, -⟩ := kronrodNodes_mem hindex
    rw [hmiddle]
    exact ⟨peak_of_ne (by linarith), peak_of_ne (by linarith)⟩
  · have hweights : (kronrodWeights.getD 7 0 : ℝ) * 1 * (1 / 2 * (1 - 0)) -
        gaussWeights.getD 3 0 * 1 * (1 / 2 * (1 - 0)) ≠ 0 := by
      show ((209482141084727828012999174891714 : ℕ) : ℝ) / 10 ^ 33 * 1 * (1 / 2 * (1 - 0)) -
        ((417959183673469387755102040816327 : ℕ) : ℝ) / 10 ^ 33 * 1 * (1 / 2 * (1 - 0)) ≠ 0
      norm_num
    exact lt_max_of_lt_left (abs_pos.mpr hweights)

/-- An interval without the peak inside is estimated exactly. -/
theorem kronrodEstimate_flat (hlt : lower < upper) (h : upper ≤ 1 / 2 ∨ 1 / 2 ≤ lower) :
    kronrodEstimate (fun x => .ok (peak x)) lower upper = .ok ⟨0, 0⟩ := by
  have hcenter : (1 / 2 * (lower + upper) : ℝ) ≠ 1 / 2 := by
    rcases h with h | h
    · exact ne_of_lt (by linarith)
    · exact ne_of_gt (by linarith)
  rw [kronrodEstimate_center 0 (peak_of_ne hcenter) fun index hindex => ?_]
  · simp
  · obtain ⟨hpos, hone⟩ := kronrodNodes_mem hindex
    have hoffset := mul_pos (half_pos (sub_pos.mpr hlt)) hpos
    have hinside := mul_lt_of_lt_one_right (half_pos (sub_pos.mpr hlt)) hone
    rw [div_eq_inv_mul, ← one_div] at hoffset hinside
    rcases h with h | h
    · exact ⟨peak_of_ne (ne_of_lt (by linarith)), peak_of_ne (ne_of_lt (by linarith))⟩
    · exact ⟨peak_of_ne (ne_of_gt (by linarith)), peak_of_ne (ne_of_gt (by linarith))⟩

/-- An estimate without error is accepted. -/
theorem run_integrateAdaptive_flat {tolerance : ℝ} {depth spent : ℕ} {calls : List ℝ}
    (hlt : lower < upper) (h : upper ≤ 1 / 2 ∨ 1 / 2 ≤ lower) (htolerance : 0 ≤ tolerance)
    (hspent : spent + 15 ≤ kMaximumIntegrandEvaluations) :
    ∃ calls', run (integrationHandler fun x => .ok (peak x))
        (integrateAdaptive lower upper tolerance depth) ⟨spent, calls⟩ =
      (.ok ⟨0, 0⟩, ⟨spent + 15, calls'⟩) := by
  obtain ⟨estimate, calls', hrun, hestimate⟩ :=
    exists_run_gaussKronrod15 peak lower upper calls hspent
  obtain rfl := Except.ok.inj ((kronrodEstimate_flat hlt h).symm.trans hestimate)
  refine ⟨calls', ?_⟩
  unfold integrateAdaptive
  rw [run_bind_ok hrun, if_pos (by rw [le_real]; exact decide_eq_true htolerance)]
  rfl

/-- The peak is met by the first estimate only: the interval is split once. -/
theorem run_integrateAdaptive_peak (depth : ℕ) :
    ∃ calls, run (integrationHandler fun x => .ok (peak x))
        (integrateAdaptive 0 1 0 (depth + 1)) ⟨0, []⟩ = (.ok ⟨0 + 0, 0 + 0⟩, ⟨45, calls⟩) := by
  obtain ⟨whole, calls, hrun, hwhole⟩ :=
    exists_run_gaussKronrod15 peak 0 1 [] (show 0 + 15 ≤ kMaximumIntegrandEvaluations by decide)
  obtain ⟨estimate, hestimate, herror⟩ := kronrodEstimate_peak
  obtain rfl := Except.ok.inj (hestimate.symm.trans hwhole)
  have hmiddle : (1 / 2 * (0 + 1) : ℝ) = 1 / 2 := by norm_num
  have hhalf : (0 : ℝ) < 1 / 2 * (0 + 1) ∧ (1 / 2 * (0 + 1) : ℝ) < 1 := by
    rw [hmiddle]
    norm_num
  have hzero : (0 : ℝ) ≤ 1 / 2 * 0 := by norm_num
  obtain ⟨left, hleft⟩ := @run_integrateAdaptive_flat 0 (1 / 2 * (0 + 1)) (1 / 2 * 0) depth 15
    calls hhalf.1 (Or.inl hmiddle.le) hzero (by decide)
  obtain ⟨right, hright⟩ := @run_integrateAdaptive_flat (1 / 2 * (0 + 1)) 1 (1 / 2 * 0) depth 30
    left hhalf.2 (Or.inr hmiddle.ge) hzero (by decide)
  refine ⟨right, ?_⟩
  unfold integrateAdaptive
  rw [run_bind_ok hrun, if_neg (by rw [le_real]; simpa using herror)]
  simp only [half_real, add_real, mul_real]
  rw [run_bind_ok hleft, run_bind_ok hright]
  rfl

/-- Without oscillation there is one segment. -/
theorem integratePhaseSafeSlab_flat (tolerance : ℝ) :
    integratePhaseSafeSlab 0 1 0 tolerance =
      integrateAdaptive 0 1 tolerance kMaximumAdaptiveDepth >>= fun estimate =>
        pure ⟨0 + estimate.value, 0 + estimate.error⟩ := by
  have hspan : FloatOps.lt (QuadratureOps.pi : ℝ) (FloatOps.mul (FloatOps.sub 1 0) 0) = false := by
    have hflat : ¬ Real.pi < (1 - 0) * 0 := by
      rw [mul_zero]
      exact not_lt.mpr Real.pi_pos.le
    exact decide_eq_false hflat
  have hone : (QuadratureOps.toSize (QuadratureOps.ofSize 1 : ℝ)) = 1 := Nat.floor_natCast 1
  have hchecked : FloatOps.lt (QuadratureOps.ofSize 1 : ℝ) (QuadratureOps.ofSize 1) = false :=
    decide_eq_false (lt_irrefl _)
  have hroom : FloatOps.lt (QuadratureOps.ofSize (kMaximumIntegrandEvaluations / 15) : ℝ)
      (QuadratureOps.ofSize 1) = false := by
    have hsizes : ¬ ((kMaximumIntegrandEvaluations / 15 : ℕ) : ℝ) < (1 : ℕ) := by
      rw [Nat.cast_lt]
      decide
    exact decide_eq_false hsizes
  have hsegment : integrateSegment 0 1 (FloatOps.div (FloatOps.sub 1 0) (QuadratureOps.ofSize 1))
      tolerance 1 ⟨AggregateStats.zero, AggregateStats.zero⟩ 0 =
        integrateAdaptive 0 1 tolerance kMaximumAdaptiveDepth >>= fun estimate =>
          pure ⟨0 + estimate.value, 0 + estimate.error⟩ := by
    have hlower : FloatOps.add (0 : ℝ) (FloatOps.mul (QuadratureOps.ofSize 0)
        (FloatOps.div (FloatOps.sub 1 0) (QuadratureOps.ofSize 1))) = 0 := by
      show 0 + ((0 : ℕ) : ℝ) * ((1 - 0) / ((1 : ℕ) : ℝ)) = 0
      simp
    have htolerance : FloatOps.div tolerance (QuadratureOps.ofSize 1) = tolerance := by
      show tolerance / ((1 : ℕ) : ℝ) = tolerance
      simp
    simp only [integrateSegment, hlower, htolerance, zero_real]
    rfl
  simp only [integratePhaseSafeSlab, hspan, Bool.false_eq_true, if_false, hone, hchecked, hroom]
  exact (bind_pure _).trans hsegment

/-! ## Every input -/

/-- The quadrature ends, and whatever the integrand does no visited state has been charged beyond
the limit or for less than the calls made. When it returns, it has been charged for the calls and
for nothing else, and the result sums the estimates of `gauss_kronrod_15` over subintervals that
tile the interval. -/
theorem phase_safe_slab_tiles_within_budget (integrand : ℝ → Result ℝ)
    (lower upper phaseRate tolerance : ℝ) (hlt : lower < upper) (spent : ℕ) :
    (∀ now, Visits (integrationHandler integrand)
        (integratePhaseSafeSlab lower upper phaseRate tolerance) ⟨spent, []⟩ now →
      now.evaluations ≤ max spent kMaximumIntegrandEvaluations ∧
      spent + now.calls.length ≤ now.evaluations) ∧
    ∀ estimate after, run (integrationHandler integrand)
        (integratePhaseSafeSlab lower upper phaseRate tolerance) ⟨spent, []⟩ =
          (.ok estimate, after) →
      spent + after.calls.length = after.evaluations ∧
      ∃ tiles, Tiles lower upper tiles ∧ SumsOver integrand tiles estimate ∧
        ∀ x, lower ≤ x → x < upper → ∃! tile, tile ∈ tiles ∧ tile.1 ≤ x ∧ x < tile.2 := by
  have hmeets : Meets integrand ⟨spent, []⟩ (Integrates integrand lower upper)
      (integratePhaseSafeSlab lower upper phaseRate tolerance) ⟨spent, []⟩ :=
    meets_integratePhaseSafeSlab phaseRate hlt (settled_refl _)
  constructor
  · intro now hvisits
    obtain ⟨-, hbounded, hcovered⟩ := hmeets.visits hvisits
    exact ⟨hbounded, by simpa [Nat.add_comm] using hcovered⟩
  · intro estimate after hrun
    have hpost := hmeets.post
    rw [hrun] at hpost
    obtain ⟨hsettled, tiles, htiles, hsums⟩ := hpost estimate rfl
    refine ⟨by simpa [Nat.add_comm] using hsettled.settled, tiles, htiles, hsums, ?_⟩
    intro x hle hlt
    exact htiles.existsUnique hle hlt

/-- The interval is split at the peak: three estimates, of which two are summed. -/
theorem phase_safe_slab_tiles_unit_interval :
    ∃ after, run (integrationHandler fun x => .ok (peak x)) (integratePhaseSafeSlab 0 1 0 0)
        ⟨0, []⟩ = (.ok ⟨0, 0⟩, after) ∧
      after.evaluations = 45 ∧ after.calls.length = 45 ∧
      ∃ tiles, Tiles 0 1 tiles ∧ SumsOver (fun x => .ok (peak x)) tiles ⟨0, 0⟩ ∧
        tiles ≠ [(0, 1)] := by
  obtain ⟨calls, hadaptive⟩ : ∃ calls, run (integrationHandler fun x => .ok (peak x))
      (integrateAdaptive 0 1 0 kMaximumAdaptiveDepth) ⟨0, []⟩ =
        (.ok ⟨0 + 0, 0 + 0⟩, ⟨45, calls⟩) := run_integrateAdaptive_peak 19
  have hrun : run (integrationHandler fun x => .ok (peak x)) (integratePhaseSafeSlab 0 1 0 0)
      ⟨0, []⟩ = (.ok ⟨0, 0⟩, ⟨45, calls⟩) := by
    rw [integratePhaseSafeSlab_flat, run_bind_ok hadaptive]
    simp only [add_zero]
    rfl
  obtain ⟨hcalls, tiles, htiles, hsums, -⟩ := (phase_safe_slab_tiles_within_budget
    (fun x => .ok (peak x)) 0 1 0 0 one_pos 0).2 _ _ hrun
  refine ⟨_, hrun, rfl, (Nat.zero_add _).symm.trans hcalls, tiles, htiles, hsums, ?_⟩
  rintro rfl
  obtain ⟨estimate, hestimate, herror⟩ := kronrodEstimate_peak
  obtain ⟨estimates, hparts, -, hsum⟩ := hsums
  obtain ⟨part, rest, hpart, hrest, rfl⟩ := List.forall₂_cons_left_iff.mp hparts
  obtain rfl := List.forall₂_nil_left_iff.mp hrest
  obtain rfl := Except.ok.inj (hestimate.symm.trans hpart)
  simp only [List.map_cons, List.map_nil, List.sum_cons, List.sum_nil, add_zero] at hsum
  exact herror.ne hsum

end Tiles

end MonteCarlo
