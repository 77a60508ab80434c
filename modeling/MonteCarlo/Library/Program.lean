import Mathlib

/-!
# Programs over an effect signature, with crashes

A `Program Op Reply ε α` is straight-line code that performs operations of a
signature `Op`, receives a reply of type `Reply op` for each, and finally
returns a value of type `α` or throws an exception of type `ε`.  Nothing about
the operations themselves is fixed here: a *handler* interprets them over some
state, and the same program text can be run under several handlers (one in
which every operation succeeds, one that injects errors, one in which
unsynchronised changes can be lost).

* `Program.run` — a complete execution under a handler.
* `Program.Visits` — the states between any two operations of an execution,
  the first and the last included.  These are the states a process that is
  killed can leave behind.
* `Program.Wp` — a weakest precondition with a crash condition: an invariant
  of every visited state together with a postcondition of the outcome.
* `Program.wp_bind`, `Program.wp_tryCatch`, `Program.wp_perform` — the rules by
  which larger programs are verified from their parts.
* `Program.Only` — a bound on the operations a program can perform.
* `Program.Returns`, `Program.Raises` — what a program returns or throws, whatever the replies.
* `Program.eval` — the meaning of a program whose operations only ask.
* `Program.Instruments` — handlers that keep more records than another one.
-/

namespace Effects

variable {Op : Type} {Reply : Op → Type} {ε α β σ : Type}

/-- Code that performs operations of the signature `Op`, then returns a value
or throws an exception. -/
inductive Program (Op : Type) (Reply : Op → Type) (ε α : Type) : Type where
  /-- Return a value. -/
  | done (a : α)
  /-- Throw an exception. -/
  | fail (e : ε)
  /-- Perform one operation and continue with its reply. -/
  | call (op : Op) (next : Reply op → Program Op Reply ε α)

/-- An interpretation of the operations over a state. -/
abbrev Handler (Op : Type) (Reply : Op → Type) (σ : Type) : Type :=
  (op : Op) → σ → Reply op × σ

namespace Program

/-- Sequencing: an exception of the first program skips the second. -/
def bind : Program Op Reply ε α → (α → Program Op Reply ε β) → Program Op Reply ε β
  | done a, f => f a
  | fail e, _ => fail e
  | call op next, f => call op fun r => (next r).bind f

/-- Run a handler program when the first program throws. -/
def tryCatch : Program Op Reply ε α → (ε → Program Op Reply ε α) → Program Op Reply ε α
  | done a, _ => done a
  | fail e, f => f e
  | call op next, f => call op fun r => (next r).tryCatch f

instance : Monad (Program Op Reply ε) where
  pure := done
  bind := bind

instance : MonadExceptOf ε (Program Op Reply ε) where
  throw := fail
  tryCatch := tryCatch

theorem bind_done (p : Program Op Reply ε α) : p.bind done = p := by
  induction p with
  | done a => rfl
  | fail e => rfl
  | call op next ih => exact congrArg (call op) (funext ih)

theorem bind_bind {γ : Type} (p : Program Op Reply ε α) (f : α → Program Op Reply ε β)
    (g : β → Program Op Reply ε γ) : (p.bind f).bind g = p.bind fun a => (f a).bind g := by
  induction p with
  | done a => rfl
  | fail e => rfl
  | call op next ih => exact congrArg (call op) (funext ih)

instance : LawfulMonad (Program Op Reply ε) :=
  LawfulMonad.mk' _ bind_done (fun _ _ => rfl) bind_bind

/-- The program that performs one operation and returns its reply. -/
def perform (op : Op) : Program Op Reply ε (Reply op) := call op done

/-- A computation without operations, as a program. -/
def ofExcept : Except ε α → Program Op Reply ε α
  | .ok a => done a
  | .error e => fail e

/-! ## Complete executions -/

/-- The outcome of a complete execution and the state it ends in. -/
def run (h : Handler Op Reply σ) : Program Op Reply ε α → σ → Except ε α × σ
  | done a, s => (.ok a, s)
  | fail e, s => (.error e, s)
  | call op next, s => (next (h op s).1).run h (h op s).2

@[simp] theorem run_pure (h : Handler Op Reply σ) (a : α) (s : σ) :
    run h (pure a : Program Op Reply ε α) s = (.ok a, s) := rfl

@[simp] theorem run_throw (h : Handler Op Reply σ) (e : ε) (s : σ) :
    run h (throw e : Program Op Reply ε α) s = (.error e, s) := rfl

@[simp] theorem run_perform (h : Handler Op Reply σ) (op : Op) (s : σ) :
    run h (perform op : Program Op Reply ε _) s = (.ok (h op s).1, (h op s).2) := rfl

@[simp] theorem run_ofExcept (h : Handler Op Reply σ) (x : Except ε α) (s : σ) :
    run h (ofExcept x : Program Op Reply ε α) s = (x, s) := by
  cases x <;> rfl

theorem run_bind (h : Handler Op Reply σ) (p : Program Op Reply ε α)
    (f : α → Program Op Reply ε β) (s : σ) :
    run h (p >>= f) s =
      match run h p s with
      | (.ok a, s') => run h (f a) s'
      | (.error e, s') => (.error e, s') := by
  induction p generalizing s with
  | done a => rfl
  | fail e => rfl
  | call op next ih => exact ih _ _

theorem run_tryCatch (h : Handler Op Reply σ) (p : Program Op Reply ε α)
    (f : ε → Program Op Reply ε α) (s : σ) :
    run h (MonadExcept.tryCatch p f) s =
      match run h p s with
      | (.ok a, s') => (.ok a, s')
      | (.error e, s') => run h (f e) s' := by
  change run h (p.tryCatch f) s = _
  induction p generalizing s with
  | done a => rfl
  | fail e => rfl
  | call op next ih => exact ih _ _

/-- Sequencing after a program that returns. -/
theorem run_bind_ok {h : Handler Op Reply σ} {p : Program Op Reply ε α} {s s' : σ} {a : α}
    (hp : run h p s = (.ok a, s')) (f : α → Program Op Reply ε β) :
    run h (p >>= f) s = run h (f a) s' := by
  rw [run_bind, hp]

/-- Sequencing after a program that throws. -/
theorem run_bind_error {h : Handler Op Reply σ} {p : Program Op Reply ε α} {s s' : σ} {e : ε}
    (hp : run h p s = (.error e, s')) (f : α → Program Op Reply ε β) :
    run h (p >>= f) s = (.error e, s') := by
  rw [run_bind, hp]

/-- A sequence returns only if both of its parts do. -/
theorem run_bind_eq_ok {h : Handler Op Reply σ} {p : Program Op Reply ε α}
    {f : α → Program Op Reply ε β} {s s' : σ} {b : β} (hr : run h (p >>= f) s = (.ok b, s')) :
    ∃ a t, run h p s = (.ok a, t) ∧ run h (f a) t = (.ok b, s') := by
  rw [run_bind] at hr
  rcases hp : run h p s with ⟨a | a, t⟩
  · rw [hp] at hr; simp at hr
  · rw [hp] at hr; exact ⟨a, t, rfl, hr⟩

/-- A computation without operations that has not thrown. -/
theorem run_ofExcept_bind_eq_ok {h : Handler Op Reply σ} {x : Except ε α}
    {f : α → Program Op Reply ε β} {s s' : σ} {b : β}
    (hr : run h (ofExcept x >>= f) s = (.ok b, s')) :
    ∃ a, x = .ok a ∧ run h (f a) s = (.ok b, s') := by
  obtain ⟨a, t, hx, hrest⟩ := run_bind_eq_ok hr
  rw [run_ofExcept, Prod.mk.injEq] at hx
  obtain ⟨hx, rfl⟩ := hx
  exact ⟨a, hx, hrest⟩

/-! ## The states a crash can leave -/

/-- `Visits h p s s'` : an execution of `p` from `s` is in state `s'` before its
first operation, between two operations, or after its last one. -/
def Visits (h : Handler Op Reply σ) : Program Op Reply ε α → σ → σ → Prop
  | done _, s, s' => s' = s
  | fail _, s, s' => s' = s
  | call op next, s, s' => s' = s ∨ (next (h op s).1).Visits h (h op s).2 s'

theorem visits_start (h : Handler Op Reply σ) (p : Program Op Reply ε α) (s : σ) :
    Visits h p s s := by
  cases p with
  | done a => exact rfl
  | fail e => exact rfl
  | call op next => exact Or.inl rfl

theorem visits_final (h : Handler Op Reply σ) (p : Program Op Reply ε α) (s : σ) :
    Visits h p s (run h p s).2 := by
  induction p generalizing s with
  | done a => exact rfl
  | fail e => exact rfl
  | call op next ih => exact Or.inr (ih _ _)

/-- The state after the first `count` operations, or the last one when there are fewer. -/
def stateAfter (h : Handler Op Reply σ) : Program Op Reply ε α → ℕ → σ → σ
  | done _, _, s => s
  | fail _, _, s => s
  | call _ _, 0, s => s
  | call op next, count + 1, s => (next (h op s).1).stateAfter h count (h op s).2

theorem visits_stateAfter (h : Handler Op Reply σ) (p : Program Op Reply ε α) (count : ℕ) (s : σ) :
    Visits h p s (stateAfter h p count s) := by
  induction p generalizing count s with
  | done a => exact rfl
  | fail e => exact rfl
  | call op next ih =>
    cases count with
    | zero => exact Or.inl rfl
    | succ count => exact Or.inr (ih _ _ _)

theorem visits_bind {h : Handler Op Reply σ} {p : Program Op Reply ε α}
    {f : α → Program Op Reply ε β} {s s' : σ} (hv : Visits h (p >>= f) s s') :
    Visits h p s s' ∨ ∃ a, (run h p s).1 = .ok a ∧ Visits h (f a) (run h p s).2 s' := by
  induction p generalizing s with
  | done a => exact Or.inr ⟨a, rfl, hv⟩
  | fail e => exact Or.inl hv
  | call op next ih =>
    rcases hv with hs | hv
    · exact Or.inl (Or.inl hs)
    · rcases ih _ hv with hp | hf
      · exact Or.inl (Or.inr hp)
      · exact Or.inr hf

theorem Visits.bind_left {h : Handler Op Reply σ} {p : Program Op Reply ε α} {s s' : σ}
    (hv : Visits h p s s') (f : α → Program Op Reply ε β) : Visits h (p >>= f) s s' := by
  induction p generalizing s with
  | done a => rw [show s' = s from hv]; exact visits_start h _ s
  | fail e => exact hv
  | call op next ih => exact hv.imp id fun hv => ih _ hv

theorem Visits.bind_right {h : Handler Op Reply σ} {p : Program Op Reply ε α} {s t s' : σ} {a : α}
    (hp : run h p s = (.ok a, t)) {f : α → Program Op Reply ε β} (hv : Visits h (f a) t s') :
    Visits h (p >>= f) s s' := by
  induction p generalizing s with
  | done b => cases hp; exact hv
  | fail e => cases hp
  | call op next ih => exact Or.inr (ih _ hp)

theorem visits_tryCatch {h : Handler Op Reply σ} {p : Program Op Reply ε α}
    {f : ε → Program Op Reply ε α} {s s' : σ}
    (hv : Visits h (MonadExcept.tryCatch p f) s s') :
    Visits h p s s' ∨ ∃ e, (run h p s).1 = .error e ∧ Visits h (f e) (run h p s).2 s' := by
  change Visits h (p.tryCatch f) s s' at hv
  induction p generalizing s with
  | done a => exact Or.inl hv
  | fail e => exact Or.inr ⟨e, rfl, hv⟩
  | call op next ih =>
    rcases hv with hs | hv
    · exact Or.inl (Or.inl hs)
    · rcases ih _ hv with hp | hf
      · exact Or.inl (Or.inr hp)
      · exact Or.inr hf

/-! ## Weakest preconditions with a crash condition -/

/-- `Wp h I Q p s` : every state visited by `p` from `s` satisfies the crash
condition `I`, and the outcome of the complete execution satisfies `Q`. -/
def Wp (h : Handler Op Reply σ) (I : σ → Prop) (Q : Except ε α → σ → Prop)
    (p : Program Op Reply ε α) (s : σ) : Prop :=
  (∀ s', Visits h p s s' → I s') ∧ Q (run h p s).1 (run h p s).2

variable {h : Handler Op Reply σ} {I J : σ → Prop} {Q R : Except ε α → σ → Prop}

theorem Wp.visits {p : Program Op Reply ε α} {s s' : σ} (hw : Wp h I Q p s)
    (hv : Visits h p s s') : I s' := hw.1 s' hv

theorem Wp.post {p : Program Op Reply ε α} {s : σ} (hw : Wp h I Q p s) :
    Q (run h p s).1 (run h p s).2 := hw.2

/-- The crash condition holds of the final state as well. -/
theorem Wp.final {p : Program Op Reply ε α} {s : σ} (hw : Wp h I Q p s) :
    I (run h p s).2 := hw.1 _ (visits_final h p s)

theorem Wp.mono {p : Program Op Reply ε α} {s : σ} (hw : Wp h I Q p s)
    (hI : ∀ s, I s → J s) (hQ : ∀ r s, I s → Q r s → R r s) : Wp h J R p s :=
  ⟨fun s' hv => hI s' (hw.1 s' hv), hQ _ _ hw.final hw.2⟩

theorem wp_pure {a : α} {s : σ} (hI : I s) (hQ : Q (.ok a) s) :
    Wp h I Q (pure a : Program Op Reply ε α) s := by
  refine ⟨?_, hQ⟩
  rintro s' rfl
  exact hI

theorem wp_throw {e : ε} {s : σ} (hI : I s) (hQ : Q (.error e) s) :
    Wp h I Q (throw e : Program Op Reply ε α) s := by
  refine ⟨?_, hQ⟩
  rintro s' rfl
  exact hI

theorem wp_ofExcept {x : Except ε α} {s : σ} (hI : I s) (hQ : Q x s) :
    Wp h I Q (ofExcept x : Program Op Reply ε α) s := by
  cases x with
  | ok a => exact wp_pure hI hQ
  | error e => exact wp_throw hI hQ

theorem wp_perform {op : Op} {Q : Except ε (Reply op) → σ → Prop} {s : σ} (hI : I s)
    (hI' : I (h op s).2) (hQ : Q (.ok (h op s).1) (h op s).2) :
    Wp h I Q (perform op : Program Op Reply ε (Reply op)) s := by
  refine ⟨?_, hQ⟩
  rintro s' (rfl | rfl)
  · exact hI
  · exact hI'

/-- The rule of sequencing. -/
theorem wp_bind {p : Program Op Reply ε α} {f : α → Program Op Reply ε β}
    {Q : Except ε β → σ → Prop} {s : σ}
    (hp : Wp h I (fun r s' => match r with
      | .ok a => Wp h I Q (f a) s'
      | .error e => Q (.error e) s') p s) : Wp h I Q (p >>= f) s := by
  obtain ⟨hv, hpost⟩ := hp
  rcases hrun : run h p s with ⟨e | a, t⟩
  · rw [hrun] at hpost
    refine ⟨fun s' hs' => ?_, by rw [run_bind, hrun]; exact hpost⟩
    rcases visits_bind hs' with hs' | ⟨a, ha, -⟩
    · exact hv s' hs'
    · rw [hrun] at ha; cases ha
  · rw [hrun] at hpost
    refine ⟨fun s' hs' => ?_, by rw [run_bind, hrun]; exact hpost.2⟩
    rcases visits_bind hs' with hs' | ⟨b, hb, hs'⟩
    · exact hv s' hs'
    · rw [hrun] at hb hs'
      cases hb
      exact hpost.1 s' hs'

/-- The rule of exception handling. -/
theorem wp_tryCatch {p : Program Op Reply ε α} {f : ε → Program Op Reply ε α} {s : σ}
    (hp : Wp h I (fun r s' => match r with
      | .ok a => Q (.ok a) s'
      | .error e => Wp h I Q (f e) s') p s) : Wp h I Q (MonadExcept.tryCatch p f) s := by
  obtain ⟨hv, hpost⟩ := hp
  rcases hrun : run h p s with ⟨e | a, t⟩
  · rw [hrun] at hpost
    refine ⟨fun s' hs' => ?_, by rw [run_tryCatch, hrun]; exact hpost.2⟩
    rcases visits_tryCatch hs' with hs' | ⟨e', he', hs'⟩
    · exact hv s' hs'
    · rw [hrun] at he' hs'
      cases he'
      exact hpost.1 s' hs'
  · rw [hrun] at hpost
    refine ⟨fun s' hs' => ?_, by rw [run_tryCatch, hrun]; exact hpost⟩
    rcases visits_tryCatch hs' with hs' | ⟨e', he', -⟩
    · exact hv s' hs'
    · rw [hrun] at he'; cases he'

/-! ## The operations a program performs -/

/-- `Only P p` : every operation that `p` can perform satisfies `P`. -/
def Only (P : Op → Prop) : Program Op Reply ε α → Prop
  | done _ => True
  | fail _ => True
  | call op next => P op ∧ ∀ r, (next r).Only P

section Only

variable {P P' : Op → Prop}

theorem only_pure (a : α) : Only P (pure a : Program Op Reply ε α) := trivial

theorem only_throw (e : ε) : Only P (throw e : Program Op Reply ε α) := trivial

theorem only_perform {op : Op} (h : P op) : Only P (perform op : Program Op Reply ε (Reply op)) :=
  ⟨h, fun _ => trivial⟩

theorem only_ofExcept (x : Except ε α) : Only P (ofExcept x : Program Op Reply ε α) := by
  cases x <;> trivial

theorem only_bind {p : Program Op Reply ε α} {f : α → Program Op Reply ε β} (hp : Only P p)
    (hf : ∀ a, Only P (f a)) : Only P (p >>= f) := by
  change Only P (p.bind f)
  induction p with
  | done a => exact hf a
  | fail e => trivial
  | call op next ih => exact ⟨hp.1, fun r => ih r (hp.2 r)⟩

theorem only_tryCatch {p : Program Op Reply ε α} {f : ε → Program Op Reply ε α} (hp : Only P p)
    (hf : ∀ e, Only P (f e)) : Only P (MonadExcept.tryCatch p f) := by
  change Only P (p.tryCatch f)
  induction p with
  | done a => trivial
  | fail e => exact hf e
  | call op next ih => exact ⟨hp.1, fun r => ih r (hp.2 r)⟩

theorem Only.mono {p : Program Op Reply ε α} (hp : Only P p) (h : ∀ op, P op → P' op) :
    Only P' p := by
  induction p with
  | done a => trivial
  | fail e => trivial
  | call op next ih => exact ⟨h op hp.1, fun r => ih r (hp.2 r)⟩

/-- A property that every performed operation preserves holds of every visited state. -/
theorem Only.visits {p : Program Op Reply ε α} {J : σ → Prop} (hp : Only P p)
    (hstep : ∀ op s, P op → J s → J (h op s).2) {s s' : σ} (hs : J s) (hv : Visits h p s s') :
    J s' := by
  induction p generalizing s with
  | done a => rw [show s' = s from hv]; exact hs
  | fail e => rw [show s' = s from hv]; exact hs
  | call op next ih =>
    rcases hv with rfl | hv
    · exact hs
    · exact ih _ (hp.2 _) (hstep op s hp.1 hs) hv

/-- The same as a weakest precondition without a postcondition of its own. -/
theorem Only.wp {p : Program Op Reply ε α} {J : σ → Prop} (hp : Only P p)
    (hstep : ∀ op s, P op → J s → J (h op s).2) {s : σ} (hs : J s) :
    Wp h J (fun _ => J) p s :=
  ⟨fun _ hv => hp.visits hstep hs hv, hp.visits hstep hs (visits_final h p s)⟩

end Only

/-! ## Outcomes under arbitrary replies -/

/-- `Returns P p` : whatever is replied to its operations, what `p` returns satisfies `P`. -/
def Returns (P : α → Prop) : Program Op Reply ε α → Prop
  | done a => P a
  | fail _ => True
  | call _ next => ∀ r, (next r).Returns P

/-- `Raises E p` : whatever is replied to its operations, what `p` throws satisfies `E`. -/
def Raises (E : ε → Prop) : Program Op Reply ε α → Prop
  | done _ => True
  | fail e => E e
  | call _ next => ∀ r, (next r).Raises E

section Outcomes

variable {P P' : α → Prop} {E E' : ε → Prop}

theorem returns_pure {a : α} (ha : P a) : Returns P (pure a : Program Op Reply ε α) := ha

theorem returns_throw (e : ε) : Returns P (throw e : Program Op Reply ε α) := trivial

theorem returns_ofExcept {x : Except ε α} (hx : ∀ a, x = .ok a → P a) :
    Returns P (ofExcept x : Program Op Reply ε α) := by
  cases x with
  | ok a => exact hx a rfl
  | error e => trivial

theorem returns_bind {p : Program Op Reply ε α} {f : α → Program Op Reply ε β} {Q : β → Prop}
    (hp : Returns P p) (hf : ∀ a, P a → Returns Q (f a)) : Returns Q (p >>= f) := by
  change Returns Q (p.bind f)
  induction p with
  | done a => exact hf a hp
  | fail e => trivial
  | call op next ih => exact fun r => ih r (hp r)

/-- A program about whose value nothing need be known. -/
theorem returns_skip (p : Program Op Reply ε α) {f : α → Program Op Reply ε β} {Q : β → Prop}
    (hf : ∀ a, Returns Q (f a)) : Returns Q (p >>= f) := by
  change Returns Q (p.bind f)
  induction p with
  | done a => exact hf a
  | fail e => trivial
  | call op next ih => exact fun r => ih r

theorem returns_tryCatch {p : Program Op Reply ε α} {f : ε → Program Op Reply ε α}
    (hp : Returns P p) (hf : ∀ e, Returns P (f e)) : Returns P (MonadExcept.tryCatch p f) := by
  change Returns P (p.tryCatch f)
  induction p with
  | done a => exact hp
  | fail e => exact hf e
  | call op next ih => exact fun r => ih r (hp r)

theorem Returns.mono {p : Program Op Reply ε α} (hp : Returns P p) (h : ∀ a, P a → P' a) :
    Returns P' p := by
  induction p with
  | done a => exact h a hp
  | fail e => trivial
  | call op next ih => exact fun r => ih r (hp r)

theorem Returns.run {p : Program Op Reply ε α} (hp : Returns P p) {s s' : σ} {a : α}
    (hrun : run h p s = (.ok a, s')) : P a := by
  induction p generalizing s with
  | done b => cases hrun; exact hp
  | fail e => cases hrun
  | call op next ih => exact ih _ (hp _) hrun

/-- What a program returns whatever is replied, it returns in any execution. -/
theorem Wp.returns {p : Program Op Reply ε α} {s : σ} (hw : Wp h I Q p s) (hp : Returns P p) :
    Wp h I (fun r s' => Q r s' ∧ ∀ a, r = .ok a → P a) p s := by
  refine ⟨hw.1, hw.2, fun a ha => ?_⟩
  exact hp.run (Prod.ext ha rfl)

theorem raises_pure (a : α) : Raises E (pure a : Program Op Reply ε α) := trivial

theorem raises_throw {e : ε} (he : E e) : Raises E (throw e : Program Op Reply ε α) := he

theorem raises_perform (op : Op) : Raises E (perform op : Program Op Reply ε (Reply op)) :=
  fun _ => trivial

theorem raises_ofExcept {x : Except ε α} (hx : ∀ e, x = .error e → E e) :
    Raises E (ofExcept x : Program Op Reply ε α) := by
  cases x with
  | ok a => trivial
  | error e => exact hx e rfl

theorem raises_bind {p : Program Op Reply ε α} {f : α → Program Op Reply ε β}
    (hp : Raises E p) (hf : ∀ a, Raises E (f a)) : Raises E (p >>= f) := by
  change Raises E (p.bind f)
  induction p with
  | done a => exact hf a
  | fail e => exact hp
  | call op next ih => exact fun r => ih r (hp r)

/-- Sequencing with what the first program returns. -/
theorem raises_bind_returns {p : Program Op Reply ε α} {f : α → Program Op Reply ε β}
    (hp : Raises E p) (hr : Returns P p) (hf : ∀ a, P a → Raises E (f a)) :
    Raises E (p >>= f) := by
  change Raises E (p.bind f)
  induction p with
  | done a => exact hf a hr
  | fail e => exact hp
  | call op next ih => exact fun r => ih r (hp r) (hr r)

theorem raises_tryCatch {p : Program Op Reply ε α} {f : ε → Program Op Reply ε α}
    (hp : Raises E p) (hf : ∀ e, E e → Raises E' (f e)) :
    Raises E' (MonadExcept.tryCatch p f) := by
  change Raises E' (p.tryCatch f)
  induction p with
  | done a => trivial
  | fail e => exact hf e hp
  | call op next ih => exact fun r => ih r (hp r)

theorem Raises.mono {p : Program Op Reply ε α} (hp : Raises E p) (h : ∀ e, E e → E' e) :
    Raises E' p := by
  induction p with
  | done b => trivial
  | fail e => exact h e hp
  | call op next ih => exact fun r => ih r (hp r)

theorem Raises.run {p : Program Op Reply ε α} (hp : Raises E p) {s s' : σ} {e : ε}
    (hrun : run h p s = (.error e, s')) : E e := by
  induction p generalizing s with
  | done b => cases hrun
  | fail e' => cases hrun; exact hp
  | call op next ih => exact ih _ (hp _) hrun

/-- `ThrowsOnly h E p s` : what `p` throws when it is run from `s` satisfies `E`. -/
def ThrowsOnly (h : Handler Op Reply σ) (E : ε → Prop) (p : Program Op Reply ε α) (s : σ) : Prop :=
  ∀ e s', run h p s = (.error e, s') → E e

theorem Raises.throwsOnly {p : Program Op Reply ε α} (hp : Raises E p) (s : σ) :
    ThrowsOnly h E p s := fun _ _ hrun => hp.run hrun

/-- The second part need only be considered where the first one ends. -/
theorem throwsOnly_bind {p : Program Op Reply ε α} {f : α → Program Op Reply ε β} {s : σ}
    (hp : ThrowsOnly h E p s)
    (hf : ∀ a s', run h p s = (.ok a, s') → ThrowsOnly h E (f a) s') :
    ThrowsOnly h E (p >>= f) s := by
  intro e s' hrun
  rw [run_bind] at hrun
  rcases hcase : run h p s with ⟨e' | a, t⟩
  · rw [hcase] at hrun
    cases hrun
    exact hp _ _ hcase
  · rw [hcase] at hrun
    exact hf a t hcase e s' hrun

end Outcomes

/-! ## Programs that only ask

When the replies do not depend on the state, a program is a computation without effects. -/

/-- The outcome of a program under fixed replies. -/
def eval (reply : (op : Op) → Reply op) : Program Op Reply ε α → Except ε α
  | done a => .ok a
  | fail e => .error e
  | call op next => (next (reply op)).eval reply

section Eval

variable {reply : (op : Op) → Reply op} {P : Op → Prop}

@[simp] theorem eval_pure (a : α) : eval reply (pure a : Program Op Reply ε α) = .ok a := rfl

@[simp] theorem eval_throw (e : ε) : eval reply (throw e : Program Op Reply ε α) = .error e := rfl

@[simp] theorem eval_perform (op : Op) :
    eval reply (perform op : Program Op Reply ε (Reply op)) = .ok (reply op) := rfl

@[simp] theorem eval_ofExcept (x : Except ε α) :
    eval reply (ofExcept x : Program Op Reply ε α) = x := by
  cases x <;> rfl

@[simp] theorem eval_bind (p : Program Op Reply ε α) (f : α → Program Op Reply ε β) :
    eval reply (p >>= f) = eval reply p >>= fun a => eval reply (f a) := by
  change eval reply (p.bind f) = _
  induction p with
  | done a => rfl
  | fail e => rfl
  | call op next ih => exact ih _

theorem eval_tryCatch (p : Program Op Reply ε α) (f : ε → Program Op Reply ε α) :
    eval reply (MonadExcept.tryCatch p f) =
      match eval reply p with
      | .ok a => .ok a
      | .error e => eval reply (f e) := by
  change eval reply (p.tryCatch f) = _
  induction p with
  | done a => rfl
  | fail e => rfl
  | call op next ih => exact ih _

/-- A program whose operations get fixed replies as long as `J` holds, and preserve `J`. -/
theorem Only.run_eq_eval {p : Program Op Reply ε α} {J : σ → Prop} (hp : Only P p)
    (hstep : ∀ op s, P op → J s → (h op s).1 = reply op ∧ J (h op s).2) {s : σ} (hs : J s) :
    (run h p s).1 = eval reply p ∧ J (run h p s).2 := by
  induction p generalizing s with
  | done a => exact ⟨rfl, hs⟩
  | fail e => exact ⟨rfl, hs⟩
  | call op next ih =>
    obtain ⟨hreply, hJ⟩ := hstep op s hp.1 hs
    rw [run, eval, hreply]
    exact ih _ (hp.2 _) hJ

end Eval

/-! ## Instrumented handlers -/

section Projection

variable {τ : Type} {k : Handler Op Reply τ} {view : τ → σ}

/-- A handler that keeps additional records about the state. -/
def Instruments (view : τ → σ) (k : Handler Op Reply τ) (h : Handler Op Reply σ) : Prop :=
  ∀ op t, (k op t).1 = (h op (view t)).1 ∧ view (k op t).2 = (h op (view t)).2

/-- An execution under the instrumented handler is an execution under the plain one. -/
theorem Instruments.run (hk : Instruments view k h) (p : Program Op Reply ε α) (t : τ) :
    run h p (view t) = ((Program.run k p t).1, view (Program.run k p t).2) := by
  induction p generalizing t with
  | done a => rfl
  | fail e => rfl
  | call op next ih =>
    obtain ⟨hreply, hview⟩ := hk op t
    rw [Program.run, Program.run, ← hreply, ← hview]
    exact ih _ _

/-- Every state that the plain execution visits is one the instrumented execution visits. -/
theorem Instruments.visits (hk : Instruments view k h) {p : Program Op Reply ε α} {t : τ} {s : σ}
    (hv : Visits h p (view t) s) : ∃ t', Visits k p t t' ∧ view t' = s := by
  induction p generalizing t with
  | done a => exact ⟨t, rfl, hv.symm⟩
  | fail e => exact ⟨t, rfl, hv.symm⟩
  | call op next ih =>
    obtain ⟨hreply, hview⟩ := hk op t
    rcases hv with rfl | hv
    · exact ⟨t, Or.inl rfl, rfl⟩
    · rw [← hreply, ← hview] at hv
      obtain ⟨t', ht', hs⟩ := ih _ hv
      exact ⟨t', Or.inr ht', hs⟩

/-- What holds of the instrumented execution holds of the plain one. -/
theorem Instruments.wp (hk : Instruments view k h) {I : σ → Prop} {Q : Except ε α → σ → Prop}
    {p : Program Op Reply ε α} {t : τ}
    (hw : Wp k (fun t => I (view t)) (fun r t => Q r (view t)) p t) : Wp h I Q p (view t) := by
  constructor
  · intro s hs
    obtain ⟨t', ht', rfl⟩ := hk.visits hs
    exact hw.visits ht'
  · rw [hk.run]
    exact hw.post

end Projection

end Program
end Effects
