import MonteCarlo.Library.Program

/-!
# Programs that keep records beside their work

A program over two signatures performs, between the operations of the first, operations of the
second one.  Where these only write a memory of their own, they can be erased: the rest is a program
over the first signature, and it does the same.

* `Program.embed` — a program that keeps no records.
* `Program.ensure` — a last action, however the program ends.
* `Program.beside` — handlers of the two signatures, over two memories.
* `Program.Erases` — a program without the second signature's operations, with one rule for each way
  of putting programs together.
* `Erases.run`, `Erases.visits` — it returns or throws the same and passes through the same states.
* `Erases.preserves` — what the erased operations preserve of their own memory.
-/

namespace Effects
namespace Program

variable {Op Note : Type} {Reply : Op → Type} {Answer : Note → Type} {ε α β σ μ : Type}

/-- Programs over two signatures. -/
abbrev Recorded (Reply : Op → Type) (Answer : Note → Type) (ε α : Type) : Type :=
  Program (Op ⊕ Note) (Sum.elim Reply Answer) ε α

/-- A program that performs no operation of the second signature. -/
def embed : Program Op Reply ε α → Recorded Reply Answer ε α
  | done a => done a
  | fail e => fail e
  | call op next => call (.inl op) fun r : Reply op => (next r).embed

/-- One operation of the second signature. -/
def note (n : Note) : Recorded Reply Answer ε (Answer n) :=
  call (.inr n) fun r : Answer n => done r

/-- Run `last` at the end of `p`, also when `p` throws. -/
def ensure (p : Program Op Reply ε α) (last : Program Op Reply ε Unit) : Program Op Reply ε α := do
  let result ← MonadExcept.tryCatch p fun e => do
    last
    throw e
  last
  pure result

/-- Two handlers, each with a memory of its own. -/
def beside (h : Handler Op Reply σ) (k : Handler Note Answer μ) :
    Handler (Op ⊕ Note) (Sum.elim Reply Answer) (σ × μ)
  | .inl op, s => ((h op s.1).1, ((h op s.1).2, s.2))
  | .inr n, s => ((k n s.2).1, (s.1, (k n s.2).2))

/-- `Erases P p q` : without its operations of the second signature, each of which satisfies `P`,
`p` is `q`. -/
inductive Erases (P : Note → Prop) :
    Recorded Reply Answer ε α → Program Op Reply ε α → Prop where
  | done (a : α) : Erases P (.done a) (.done a)
  | fail (e : ε) : Erases P (.fail e) (.fail e)
  | call (op : Op) {next : Reply op → Recorded Reply Answer ε α}
      {next' : Reply op → Program Op Reply ε α} (h : ∀ r, Erases P (next r) (next' r)) :
      Erases P (.call (.inl op) next) (.call op next')
  | note (n : Note) {next : Answer n → Recorded Reply Answer ε α} {q : Program Op Reply ε α}
      (hn : P n) (h : ∀ r, Erases P (next r) q) : Erases P (.call (.inr n) next) q

/-! ## Programs put together -/

section Rules

variable {P P' : Note → Prop}

theorem erases_pure (a : α) :
    Erases P (pure a : Recorded Reply Answer ε α) (pure a) := .done a

theorem erases_throw (e : ε) :
    Erases P (throw e : Recorded Reply Answer ε α) (throw e) := .fail e

theorem erases_ofExcept (x : Except ε α) :
    Erases P (ofExcept x : Recorded Reply Answer ε α) (ofExcept x) := by
  cases x with
  | ok a => exact .done a
  | error e => exact .fail e

theorem erases_embed (p : Program Op Reply ε α) :
    Erases P (embed p : Recorded Reply Answer ε α) p := by
  induction p with
  | done a => exact .done a
  | fail e => exact .fail e
  | call op next ih => exact .call op ih

/-- An operation of the second signature whose answer says nothing. -/
theorem erases_note {n : Note} (hn : P n) {a : Answer n} (hone : ∀ r, r = a) :
    Erases P (Program.note n : Recorded Reply Answer ε (Answer n)) (pure a) := by
  refine .note n hn fun r => ?_
  rw [hone r]
  exact .done a

theorem Erases.bind {p : Recorded Reply Answer ε α} {q : Program Op Reply ε α}
    {f : α → Recorded Reply Answer ε β} {g : α → Program Op Reply ε β} (hp : Erases P p q)
    (hf : ∀ a, Erases P (f a) (g a)) : Erases P (p >>= f) (q >>= g) := by
  induction hp with
  | done a => exact hf a
  | fail e => exact .fail e
  | call op _ ih => exact .call op ih
  | note n hn _ ih => exact .note n hn ih

/-- A program of which nothing remains. -/
theorem Erases.skip {p : Recorded Reply Answer ε α} {a : α} {f : α → Recorded Reply Answer ε β}
    {q : Program Op Reply ε β} (hp : Erases P p (pure a)) (hf : Erases P (f a) q) :
    Erases P (p >>= f) q := by
  generalize hpure : (pure a : Program Op Reply ε α) = rest at hp
  induction hp with
  | done b =>
    cases hpure
    exact hf
  | fail e => cases hpure
  | call op _ _ => cases hpure
  | note n hn _ ih => exact .note n hn fun r => ih r hpure

/-- An operation of the second signature whose answer is used by the others alone. -/
theorem Erases.note_bind {n : Note} (hn : P n) {f : Answer n → Recorded Reply Answer ε β}
    {q : Program Op Reply ε β} (hf : ∀ r, Erases P (f r) q) : Erases P (Program.note n >>= f) q :=
  .note n hn hf

theorem Erases.tryCatch {p : Recorded Reply Answer ε α} {q : Program Op Reply ε α}
    {f : ε → Recorded Reply Answer ε α} {g : ε → Program Op Reply ε α} (hp : Erases P p q)
    (hf : ∀ e, Erases P (f e) (g e)) :
    Erases P (MonadExcept.tryCatch p f) (MonadExcept.tryCatch q g) := by
  change Erases P (p.tryCatch f) (q.tryCatch g)
  induction hp with
  | done a => exact .done a
  | fail e => exact hf e
  | call op _ ih => exact .call op ih
  | note n hn _ ih => exact .note n hn ih

theorem tryCatch_throw (p : Program Op Reply ε α) :
    (MonadExcept.tryCatch p fun e => throw e) = p := by
  change (p.tryCatch fun e => throw e) = p
  induction p with
  | done a => rfl
  | fail e => rfl
  | call op next ih => exact congrArg (Program.call op) (funext ih)

/-- A last action of which nothing remains. -/
theorem Erases.ensure {p : Recorded Reply Answer ε α} {q : Program Op Reply ε α}
    {last : Recorded Reply Answer ε Unit} (hp : Erases P p q) (hlast : Erases P last (pure ())) :
    Erases P (Program.ensure p last) q := by
  have hq : q = (MonadExcept.tryCatch q fun e => throw e) >>= pure := by
    rw [tryCatch_throw, bind_pure]
  rw [hq]
  exact Erases.bind (hp.tryCatch fun e => hlast.skip (.fail e)) fun a => hlast.skip (.done a)

theorem Erases.mono {p : Recorded Reply Answer ε α} {q : Program Op Reply ε α}
    (hp : Erases P p q) (h : ∀ n, P n → P' n) : Erases P' p q := by
  induction hp with
  | done a => exact .done a
  | fail e => exact .fail e
  | call op _ ih => exact .call op ih
  | note n hn _ ih => exact .note n (h n hn) ih

end Rules

/-! ## What remains does the same -/

section Executions

variable {P : Note → Prop} {p : Recorded Reply Answer ε α} {q : Program Op Reply ε α}
  {h : Handler Op Reply σ} {k : Handler Note Answer μ}

/-- The same outcome, in the same state. -/
theorem Erases.run (hp : Erases P p q) (s : σ × μ) :
    Program.run h q s.1 =
      ((Program.run (beside h k) p s).1, (Program.run (beside h k) p s).2.1) := by
  induction hp generalizing s with
  | done a => rfl
  | fail e => rfl
  | call op _ ih => exact ih _ ((h op s.1).2, s.2)
  | note n _ _ ih => exact ih _ (s.1, (k n s.2).2)

/-- An execution of the remaining program, with some records beside it. -/
theorem Erases.exists_run (hp : Erases P p q) {s s' : σ} {r : Except ε α}
    (hrun : Program.run h q s = (r, s')) (m : μ) :
    ∃ m', Program.run (beside h k) p (s, m) = (r, s', m') := by
  have hsame := hp.run (h := h) (k := k) (s, m)
  rw [hrun] at hsame
  exact ⟨(Program.run (beside h k) p (s, m)).2.2, Prod.ext (congrArg Prod.fst hsame).symm
    (Prod.ext (congrArg Prod.snd hsame).symm rfl)⟩

/-- The same states on the way. -/
theorem Erases.visits (hp : Erases P p q) {s s' : σ × μ} (hv : Visits (beside h k) p s s') :
    Visits h q s.1 s'.1 := by
  induction hp generalizing s with
  | done a => exact congrArg Prod.fst hv
  | fail e => exact congrArg Prod.fst hv
  | call op _ ih =>
    rcases hv with rfl | hv
    · exact Or.inl rfl
    · exact Or.inr (ih _ hv)
  | note n _ _ ih =>
    rcases hv with rfl | hv
    · exact visits_start h _ _
    · exact ih _ (s := (s.1, (k n s.2).2)) hv

/-- A state that the remaining program passes through, with some records beside it. -/
theorem Erases.exists_visits (hp : Erases P p q) {s : σ × μ} {now : σ} (hv : Visits h q s.1 now) :
    ∃ m, Visits (beside h k) p s (now, m) := by
  induction hp generalizing s with
  | done a =>
    obtain rfl : now = s.1 := hv
    exact ⟨s.2, rfl⟩
  | fail e =>
    obtain rfl : now = s.1 := hv
    exact ⟨s.2, rfl⟩
  | call op _ ih =>
    rcases hv with rfl | hv
    · exact ⟨s.2, Or.inl rfl⟩
    · obtain ⟨m, hm⟩ := ih _ (s := ((h op s.1).2, s.2)) hv
      exact ⟨m, Or.inr hm⟩
  | note n _ _ ih =>
    obtain ⟨m, hm⟩ := ih _ (s := (s.1, (k n s.2).2)) hv
    exact ⟨m, Or.inr hm⟩

/-- What every erased operation preserves of its own memory, the program preserves. -/
theorem Erases.preserves {J : μ → Prop} (hp : Erases P p q)
    (hstep : ∀ n m, P n → J m → J (k n m).2) {s s' : σ × μ} {r : Except ε α}
    (hrun : Program.run (beside h k) p s = (r, s')) (hs : J s.2) : J s'.2 := by
  induction hp generalizing s with
  | done a =>
    cases hrun
    exact hs
  | fail e =>
    cases hrun
    exact hs
  | call op _ ih => exact ih _ (s := ((h op s.1).2, s.2)) hrun hs
  | note n hn _ ih => exact ih _ (s := (s.1, (k n s.2).2)) hrun (hstep n s.2 hn hs)

/-- A program with a last action returns only if both do. -/
theorem run_ensure_eq_ok {p : Program Op Reply ε α} {last : Program Op Reply ε Unit} {s s' : σ}
    {a : α} (hrun : Program.run h (ensure p last) s = (.ok a, s')) :
    ∃ t, Program.run h p s = (.ok a, t) ∧ Program.run h last t = (.ok (), s') := by
  obtain ⟨b, t, hbody, hrest⟩ := run_bind_eq_ok hrun
  obtain ⟨⟨⟩, t', hlast, hpure⟩ := run_bind_eq_ok hrest
  cases hpure
  rw [run_tryCatch] at hbody
  rcases hp : Program.run h p s with ⟨e | c, u⟩
  · rw [hp] at hbody
    obtain ⟨_, _, _, hthrow⟩ := run_bind_eq_ok (show Program.run h (last >>= fun _ => throw e) u =
      (.ok a, t) from hbody)
    cases hthrow
  · rw [hp] at hbody
    cases hbody
    exact ⟨_, rfl, hlast⟩

end Executions

end Program
end Effects
