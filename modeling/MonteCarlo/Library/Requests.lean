import MonteCarlo.Library.Program

/-!
# The requests of a program

Which operations a program performs, and in which order, when the order does not depend on the
replies: a program that is not cut short by an exception performs all of a fixed list, any other one
a first part of it.

* `Program.asked` — the operations performed under given replies.
* `Program.Asks` — the fixed list.
* `Program.Asks.bind`, `Program.Asks.foldlM` — sequences and loops.
* `Program.Asks.prefix_asked` — every run performs a first part of the list.
-/

namespace Effects.Program

variable {Op : Type} {Reply : Op → Type} {ε α β γ : Type}

/-- The operations performed under the given replies, in order. -/
def asked (reply : (op : Op) → Reply op) : Program Op Reply ε α → List Op
  | done _ => []
  | fail _ => []
  | call op next => op :: (next (reply op)).asked reply

/-- Whatever the replies, the program performs the operations of the list in order until it throws,
and all of them if it returns. -/
def Asks : Program Op Reply ε α → List Op → Prop
  | done _, ops => ops = []
  | fail _, _ => True
  | call op next, ops => ∃ rest, ops = op :: rest ∧ ∀ r, (next r).Asks rest

theorem asks_pure (a : α) : Asks (pure a : Program Op Reply ε α) [] := rfl

theorem asks_perform (op : Op) : Asks (perform op : Program Op Reply ε (Reply op)) [op] :=
  ⟨[], rfl, fun _ => rfl⟩

theorem asks_ofExcept (x : Except ε α) : Asks (ofExcept x : Program Op Reply ε α) [] := by
  cases x with
  | ok a => exact rfl
  | error e => trivial

theorem Asks.bind {p : Program Op Reply ε α} {f : α → Program Op Reply ε β} {ops ops' : List Op}
    (hp : Asks p ops) (hf : ∀ a, Asks (f a) ops') : Asks (p >>= f) (ops ++ ops') := by
  change Asks (p.bind f) (ops ++ ops')
  induction p generalizing ops with
  | done a =>
    rw [show ops = [] from hp]
    exact hf a
  | fail e => trivial
  | call op next ih =>
    obtain ⟨rest, rfl, hnext⟩ := hp
    exact ⟨rest ++ ops', rfl, fun r => ih r (hnext r)⟩

/-- After a computation without requests. -/
theorem asks_skip {x : Program Op Reply ε α} {f : α → Program Op Reply ε β} {ops : List Op}
    (hx : Asks x []) (hf : ∀ a, Asks (f a) ops) : Asks (x >>= f) ops := hx.bind hf

/-- Before a computation without requests. -/
theorem Asks.then_none {p : Program Op Reply ε α} {f : α → Program Op Reply ε β} {ops : List Op}
    (hp : Asks p ops) (hf : ∀ a, Asks (f a) []) : Asks (p >>= f) ops := by
  rw [← List.append_nil ops]
  exact hp.bind hf

/-- A loop whose body asks for a list that depends on the round alone. -/
theorem Asks.foldlM {body : β → γ → Program Op Reply ε β} {ops : γ → List Op}
    (hbody : ∀ b c, Asks (body b c) (ops c)) (rounds : List γ) (b : β) :
    Asks (rounds.foldlM body b) (rounds.flatMap ops) := by
  induction rounds generalizing b with
  | nil => exact rfl
  | cons c rounds ih =>
    rw [List.foldlM_cons, List.flatMap_cons]
    exact (hbody b c).bind ih

/-- A run performs a first part of the list. -/
theorem Asks.prefix_asked {p : Program Op Reply ε α} {ops : List Op} (h : Asks p ops)
    (reply : (op : Op) → Reply op) : asked reply p <+: ops := by
  induction p generalizing ops with
  | done a => exact List.nil_prefix
  | fail e => exact List.nil_prefix
  | call op next ih =>
    obtain ⟨rest, rfl, hnext⟩ := h
    exact (List.prefix_cons_inj op).mpr (ih _ (hnext _))

end Effects.Program
