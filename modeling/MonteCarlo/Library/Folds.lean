import MonteCarlo.Library.Program
import Mathlib.Data.List.Monad

/-!
# Loops that may fail

Facts about `foldlM` in `Except`: two loops that advance together, a loop that another one follows
through a map, and a loop that never fails.

* `foldlM_pair_eq_ok`, `foldlM_map_eq_ok` — two loops, one of them given by the other.
* `foldlM_returns` — an invariant under which every step succeeds.
* `Effects.Program.eval_foldlM` — a loop of a program.
-/

namespace Folds

variable {ε A B X : Type}

theorem bind_eq_ok {x : Except ε A} {f : A → Except ε B} {b : B} :
    (x >>= f) = .ok b ↔ ∃ a, x = .ok a ∧ f a = .ok b := by
  cases x with
  | ok a => exact ⟨fun h => ⟨a, rfl, h⟩, fun ⟨_, ha, h⟩ => by cases ha; exact h⟩
  | error e => exact ⟨nofun, fun ⟨_, ha, _⟩ => by cases ha⟩

/-- Two loops that advance together. -/
theorem foldlM_pair_eq_ok {pair : A × B → X → Except ε (A × B)}
    {first : A → X → Except ε A} {second : B → X → Except ε B}
    (hstep : ∀ a b x a' b', pair (a, b) x = .ok (a', b') ↔
      first a x = .ok a' ∧ second b x = .ok b')
    (xs : List X) (a : A) (b : B) (a' : A) (b' : B) :
    xs.foldlM pair (a, b) = .ok (a', b') ↔
      xs.foldlM first a = .ok a' ∧ xs.foldlM second b = .ok b' := by
  induction xs generalizing a b with
  | nil =>
    simp only [List.foldlM_nil]
    exact ⟨fun h => by cases h; exact ⟨rfl, rfl⟩, fun ⟨h, h'⟩ => by cases h; cases h'; rfl⟩
  | cons x xs ih =>
    simp only [List.foldlM_cons, bind_eq_ok]
    constructor
    · rintro ⟨⟨m, n⟩, hpair, hrest⟩
      obtain ⟨hm, hn⟩ := (hstep a b x m n).mp hpair
      obtain ⟨hm', hn'⟩ := (ih m n).mp hrest
      exact ⟨⟨m, hm, hm'⟩, n, hn, hn'⟩
    · rintro ⟨⟨m, hm, hm'⟩, n, hn, hn'⟩
      exact ⟨(m, n), (hstep a b x m n).mpr ⟨hm, hn⟩, (ih m n).mpr ⟨hm', hn'⟩⟩

/-- A loop that another one follows through a map. -/
theorem foldlM_map_eq_ok (φ : A → B) {f : A → X → Except ε A} {g : B → X → Except ε B}
    (hstep : ∀ a x b, g (φ a) x = .ok b ↔ ∃ a', f a x = .ok a' ∧ b = φ a') (xs : List X) (a : A)
    (b : B) : xs.foldlM g (φ a) = .ok b ↔ ∃ a', xs.foldlM f a = .ok a' ∧ b = φ a' := by
  induction xs generalizing a with
  | nil =>
    simp only [List.foldlM_nil, pure, Except.pure, Except.ok.injEq]
    exact ⟨fun h => ⟨a, rfl, h.symm⟩, fun ⟨a', ha, hb⟩ => by rw [hb, ha]⟩
  | cons x xs ih =>
    simp only [List.foldlM_cons, bind_eq_ok]
    constructor
    · rintro ⟨c, hc, hrest⟩
      obtain ⟨m, hm, rfl⟩ := (hstep a x c).mp hc
      obtain ⟨a', ha', rfl⟩ := (ih m).mp hrest
      exact ⟨a', ⟨m, hm, ha'⟩, rfl⟩
    · rintro ⟨a', ⟨m, hm, ha'⟩, rfl⟩
      exact ⟨φ m, (hstep a x _).mpr ⟨m, hm, rfl⟩, (ih m).mpr ⟨a', ha', rfl⟩⟩

/-- A loop whose steps succeed as long as an invariant holds, and keep it. -/
theorem foldlM_returns {P : A → Prop} {f : A → X → Except ε A}
    (hstep : ∀ a x, P a → ∃ a', f a x = .ok a' ∧ P a') (xs : List X) {a : A} (ha : P a) :
    ∃ a', xs.foldlM f a = .ok a' ∧ P a' := by
  induction xs generalizing a with
  | nil => exact ⟨a, rfl, ha⟩
  | cons x xs ih =>
    obtain ⟨next, hnext, hP⟩ := hstep a x ha
    obtain ⟨final, hfinal, hfinalP⟩ := ih hP
    exact ⟨final, by rw [List.foldlM_cons, hnext]; exact hfinal, hfinalP⟩

end Folds

namespace Effects.Program

variable {Op : Type} {Reply : Op → Type} {ε α X : Type} {reply : (op : Op) → Reply op}

/-- A loop of a program. -/
theorem eval_foldlM (f : α → X → Program Op Reply ε α) (xs : List X) (a : α) :
    eval reply (xs.foldlM f a) =
      xs.foldlM (fun a x => eval reply (f a x)) a := by
  induction xs generalizing a with
  | nil => rfl
  | cons x xs ih =>
    rw [List.foldlM_cons, List.foldlM_cons, eval_bind]
    exact congrArg _ (funext fun a => ih a)

end Effects.Program
