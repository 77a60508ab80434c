import MonteCarlo.Library.Program

/-!
# Two executions side by side

A relational counterpart of `Program.Wp`: two programs, each under its own handler, are compared
from related states.  `Matches S T V` relates two complete executions: both return, with values
related by `V` and states by `S`, or both throw, with states related by `T`.

* `Matches.bind` — the rule of sequencing.
* `Only.lockstep` — a program whose operations get the same replies on both sides does the same on
  both sides.
-/

namespace Effects
namespace Program

variable {Op : Type} {Reply : Op → Type} {ε α β γ δ σ τ : Type}
  {h : Handler Op Reply σ} {k : Handler Op Reply τ} {S S' T : σ → τ → Prop}
  {V : α → β → Prop} {W : γ → δ → Prop}

/-- Two complete executions that end alike. -/
inductive Matches (S T : σ → τ → Prop) (V : α → β → Prop) :
    Except ε α × σ → Except ε β × τ → Prop where
  | returns {a : α} {b : β} {s : σ} {t : τ} (hvalue : V a b) (hstate : S s t) :
      Matches S T V (.ok a, s) (.ok b, t)
  | throws {e e' : ε} {s : σ} {t : τ} (hstate : T s t) : Matches S T V (.error e, s) (.error e', t)

theorem matches_pure {a : α} {b : β} {s : σ} {t : τ} (hvalue : V a b) (hstate : S s t) :
    Matches S T V (run h (pure a : Program Op Reply ε α) s)
      (run k (pure b : Program Op Reply ε β) t) :=
  .returns hvalue hstate

theorem matches_throw {e e' : ε} {s : σ} {t : τ} (hstate : T s t) :
    Matches S T V (run h (throw e : Program Op Reply ε α) s)
      (run k (throw e' : Program Op Reply ε β) t) :=
  .throws hstate

/-- The rule of sequencing. -/
theorem Matches.bind {p : Program Op Reply ε α} {q : Program Op Reply ε β}
    {f : α → Program Op Reply ε γ} {g : β → Program Op Reply ε δ} {s : σ} {t : τ}
    (hpq : Matches S T V (run h p s) (run k q t))
    (hfg : ∀ a b s t, V a b → S s t → Matches S' T W (run h (f a) s) (run k (g b) t)) :
    Matches S' T W (run h (p >>= f) s) (run k (q >>= g) t) := by
  rw [run_bind, run_bind]
  rcases hp : run h p s with ⟨e | a, s'⟩
  · rcases hq : run k q t with ⟨e' | b, t'⟩
    · rw [hp, hq] at hpq
      cases hpq with
      | throws hstate => exact .throws hstate
    · rw [hp, hq] at hpq
      cases hpq
  · rcases hq : run k q t with ⟨e' | b, t'⟩
    · rw [hp, hq] at hpq
      cases hpq
    · rw [hp, hq] at hpq
      cases hpq with
      | returns hvalue hstate => exact hfg a b s' t' hvalue hstate

/-- The same computation without operations on both sides. -/
theorem matches_ofExcept (x : Except ε α) {s : σ} {t : τ} (hstate : S s t) (hthrows : T s t) :
    Matches S T Eq (run h (ofExcept x : Program Op Reply ε α) s)
      (run k (ofExcept x : Program Op Reply ε α) t) := by
  cases x with
  | ok a => exact .returns rfl hstate
  | error e => exact .throws hthrows

/-- Operations that get the same replies from related states and keep them related. -/
theorem Only.lockstep {P : Op → Prop} {p : Program Op Reply ε α} (hp : Only P p)
    (hstep : ∀ op s t, P op → S s t → (h op s).1 = (k op t).1 ∧ S (h op s).2 (k op t).2)
    {s : σ} {t : τ} (hstate : S s t) :
    (run h p s).1 = (run k p t).1 ∧ S (run h p s).2 (run k p t).2 := by
  induction p generalizing s t with
  | done a => exact ⟨rfl, hstate⟩
  | fail e => exact ⟨rfl, hstate⟩
  | call op next ih =>
    obtain ⟨hreply, hnext⟩ := hstep op s t hp.1 hstate
    rw [run, run, ← hreply]
    exact ih _ (hp.2 _) hnext

/-- Equal outcomes in related states match. -/
theorem matches_of_eq {p q : Program Op Reply ε α} {s : σ} {t : τ}
    (houtcome : (run h p s).1 = (run k q t).1) (hstate : S (run h p s).2 (run k q t).2)
    (hthrows : T (run h p s).2 (run k q t).2) : Matches S T Eq (run h p s) (run k q t) := by
  rcases hp : run h p s with ⟨e | a, s'⟩
  · rcases hq : run k q t with ⟨e' | b, t'⟩
    · rw [hp, hq] at hthrows
      exact .throws hthrows
    · rw [hp, hq] at houtcome
      cases houtcome
  · rcases hq : run k q t with ⟨e' | b, t'⟩
    · rw [hp, hq] at houtcome
      cases houtcome
    · rw [hp, hq] at houtcome hstate
      exact .returns (Except.ok.inj houtcome) hstate

end Program
end Effects
