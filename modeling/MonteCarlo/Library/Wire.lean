import Mathlib

/-!
# Reading binary formats

Little-endian words and a reader that consumes a byte string from the front,
failing with an exception of any type.  A format is correct when the reader
undoes the writer whatever follows in the input; `Reads` states exactly that,
and `Reads.bind` composes it field by field, so that the round trip of a record
is proved by walking through its fields in order.  `Accepts` goes the other way: what a reader
accepts satisfies the conditions it checks, and the bytes it has consumed are the ones the writer
would have produced.
-/

namespace Wire

variable {ε α β : Type}

/-! ## Little-endian words -/

/-- The `width` low bytes of `value`, least significant first. -/
def encodeLE : ℕ → ℕ → List UInt8
  | 0, _ => []
  | width + 1, value => UInt8.ofNat value :: encodeLE width (value / 256)

/-- The number that little-endian bytes stand for. -/
def decodeLE : List UInt8 → ℕ
  | [] => 0
  | b :: rest => b.toNat + 256 * decodeLE rest

@[simp] theorem length_encodeLE (width value : ℕ) : (encodeLE width value).length = width := by
  induction width generalizing value with
  | zero => rfl
  | succ width ih => simp [encodeLE, ih]

theorem decodeLE_encodeLE (width value : ℕ) (h : value < 256 ^ width) :
    decodeLE (encodeLE width value) = value := by
  induction width generalizing value with
  | zero => simp at h; simp [encodeLE, decodeLE, h]
  | succ width ih =>
    have hdiv : value / 256 < 256 ^ width := by
      rw [Nat.div_lt_iff_lt_mul (by norm_num), ← pow_succ]
      exact h
    rw [encodeLE, decodeLE, ih _ hdiv, UInt8.toNat_ofNat']
    have := Nat.mod_add_div value 256
    omega

theorem decodeLE_lt (bytes : List UInt8) : decodeLE bytes < 256 ^ bytes.length := by
  induction bytes with
  | nil => simp [decodeLE]
  | cons b rest ih =>
    have hb : b.toNat < 256 := b.toNat_lt
    rw [decodeLE, List.length_cons, pow_succ]
    omega

theorem encodeLE_decodeLE (bytes : List UInt8) :
    encodeLE bytes.length (decodeLE bytes) = bytes := by
  induction bytes with
  | nil => rfl
  | cons b rest ih =>
    have hb : b.toNat < 256 := b.toNat_lt
    have hfirst : UInt8.ofNat (b.toNat + 256 * decodeLE rest) = b := by
      apply UInt8.toNat_inj.mp
      rw [UInt8.toNat_ofNat']
      omega
    have hrest : (b.toNat + 256 * decodeLE rest) / 256 = decodeLE rest := by omega
    rw [decodeLE, List.length_cons, encodeLE, hfirst, hrest, ih]

/-! ## Readers -/

/-- A reader of tokens of any type: consumes a prefix of the input or throws. -/
abbrev TokenReader (τ ε α : Type) : Type := StateT (List τ) (Except ε) α

/-- A reader of bytes. -/
abbrev Reader (ε α : Type) : Type := TokenReader UInt8 ε α

namespace Reader

/-- The next `count` bytes; `short` is thrown when fewer remain. -/
def take (short : ε) (count : ℕ) : Reader ε (List UInt8) := fun input =>
  if count ≤ input.length then .ok (input.take count, input.drop count) else .error short

/-- The number of bytes not consumed yet. -/
def remaining : Reader ε ℕ := fun input => .ok (input.length, input)

/-- Throw unless the condition is met. -/
def require (condition : Bool) (error : ε) : Reader ε Unit := fun input =>
  if condition then .ok ((), input) else .error error

/-- A computation that reads nothing. -/
def ofExcept (x : Except ε α) : Reader ε α := fun input => x.map fun a => (a, input)

end Reader

/-- `Reads r bytes a` : in front of any further input, `r` consumes exactly
`bytes` and returns `a`. -/
def Reads {τ : Type} (r : TokenReader τ ε α) (bytes : List τ) (a : α) : Prop :=
  ∀ rest, r.run (bytes ++ rest) = .ok (a, rest)

section Reads

variable {τ : Type}

theorem Reads.run {r : TokenReader τ ε α} {bytes : List τ} {a : α} (h : Reads r bytes a) :
    r.run bytes = .ok (a, []) := by
  simpa using h []

theorem Reads.pure (a : α) : Reads (pure a : TokenReader τ ε α) [] a := fun _ => rfl

/-- Two readers in sequence read the concatenation. -/
theorem Reads.bind {r : TokenReader τ ε α} {f : α → TokenReader τ ε β} {first second : List τ} {a : α}
    {b : β} (hr : Reads r first a) (hf : Reads (f a) second b) : Reads (r >>= f) (first ++ second) b := by
  intro rest
  rw [StateT.run_bind, List.append_assoc, hr]
  exact hf rest

/-- A reader that consumes nothing, before another one. -/
theorem Reads.bind_nil {r : TokenReader τ ε α} {f : α → TokenReader τ ε β} {bytes : List τ} {a : α}
    {b : β} (hr : Reads r [] a) (hf : Reads (f a) bytes b) : Reads (r >>= f) bytes b :=
  Reads.bind hr hf

/-- A reader of one token, before another one. -/
theorem Reads.bind_cons {r : TokenReader τ ε α} {f : α → TokenReader τ ε β} {first : τ}
    {rest : List τ} {a : α} {b : β} (hr : Reads r [first] a) (hf : Reads (f a) rest b) :
    Reads (r >>= f) (first :: rest) b :=
  hr.bind hf

/-- A reader, before another one that consumes nothing. -/
theorem Reads.bind_done {r : TokenReader τ ε α} {f : α → TokenReader τ ε β} {bytes : List τ} {a : α}
    {b : β} (hr : Reads r bytes a) (hf : Reads (f a) [] b) : Reads (r >>= f) bytes b := by
  have hboth := hr.bind hf
  rwa [List.append_nil] at hboth

theorem Reads.map {r : TokenReader τ ε α} {bytes : List τ} {a : α} (f : α → β)
    (hr : Reads r bytes a) : Reads (f <$> r) bytes (f a) := by
  intro rest
  rw [StateT.run_map, hr]
  rfl

end Reads

theorem reads_take (short : ε) (bytes : List UInt8) :
    Reads (Reader.take short bytes.length) bytes bytes := by
  intro rest
  change Reader.take short bytes.length (bytes ++ rest) = _
  simp [Reader.take]

theorem reads_require {condition : Bool} (error : ε) (h : condition = true) :
    Reads (Reader.require condition error) [] () := by
  intro rest
  change Reader.require condition error ([] ++ rest) = _
  simp [Reader.require, h]

theorem reads_ofExcept {x : Except ε α} {a : α} (h : x = .ok a) :
    Reads (Reader.ofExcept x) [] a := by
  intro rest
  change Reader.ofExcept x ([] ++ rest) = _
  rw [h]
  rfl

/-! ## Whole inputs -/

/-- `ReadsAll r bytes a` : on the input `bytes`, and nothing after it, `r`
consumes everything and returns `a`. -/
def ReadsAll (r : Reader ε α) (bytes : List UInt8) (a : α) : Prop :=
  r.run bytes = .ok (a, [])

theorem ReadsAll.pure (a : α) : ReadsAll (pure a : Reader ε α) [] a := rfl

/-- A field, then the rest of the input. -/
theorem Reads.andThen {r : Reader ε α} {f : α → Reader ε β} {first rest : List UInt8} {a : α} {b : β}
    (hr : Reads r first a) (hf : ReadsAll (f a) rest b) : ReadsAll (r >>= f) (first ++ rest) b := by
  unfold ReadsAll
  rw [StateT.run_bind, hr]
  exact hf

/-- A check that consumes nothing, then the rest of the input. -/
theorem Reads.check {r : Reader ε α} {f : α → Reader ε β} {rest : List UInt8} {a : α} {b : β}
    (hr : Reads r [] a) (hf : ReadsAll (f a) rest b) : ReadsAll (r >>= f) rest b :=
  Reads.andThen hr hf

/-- The number of remaining bytes is the length of the rest of the input. -/
theorem ReadsAll.remaining {f : ℕ → Reader ε β} {rest : List UInt8} {b : β}
    (hf : ReadsAll (f rest.length) rest b) : ReadsAll (Reader.remaining >>= f) rest b := hf

/-- A little-endian word. -/
theorem reads_takeLE (short : ε) (width : ℕ) {value : ℕ} (h : value < 256 ^ width) :
    Reads (decodeLE <$> Reader.take short width) (encodeLE width value) value := by
  have hmap := Reads.map decodeLE (reads_take short (encodeLE width value))
  rwa [length_encodeLE, decodeLE_encodeLE width value h] at hmap

/-! ## What a reader accepts -/

/-- `Accepts r P` : whatever `r` returns, the bytes it has consumed and the value satisfy `P`. -/
def Accepts (r : Reader ε α) (P : List UInt8 → α → Prop) : Prop :=
  ∀ input a rest, r.run input = .ok (a, rest) → ∃ bytes, input = bytes ++ rest ∧ P bytes a

/-- `Drains r` : whatever `r` returns, it has consumed its whole input. -/
def Drains (r : Reader ε α) : Prop := ∀ input a rest, r.run input = .ok (a, rest) → rest = []

section Accepts

variable {R : List UInt8 → α → Prop} {S : List UInt8 → β → Prop}

/-- A sequence returns only if both of its parts do. -/
theorem run_bind_eq_ok {r : Reader ε α} {f : α → Reader ε β} {input rest : List UInt8} {b : β}
    (h : (r >>= f).run input = .ok (b, rest)) :
    ∃ a middle, r.run input = .ok (a, middle) ∧ (f a).run middle = .ok (b, rest) := by
  rw [StateT.run_bind] at h
  cases hfirst : r.run input with
  | error e => rw [hfirst] at h; cases h
  | ok pair => rw [hfirst] at h; exact ⟨pair.1, pair.2, rfl, h⟩

theorem Accepts.pure {a : α} (h : R [] a) : Accepts (pure a : Reader ε α) R := by
  intro input a' rest hrun
  cases hrun
  exact ⟨[], rfl, h⟩

theorem Accepts.bind {r : Reader ε α} {f : α → Reader ε β} (hr : Accepts r R)
    (hf : ∀ a first, R first a → Accepts (f a) fun second => S (first ++ second)) :
    Accepts (r >>= f) S := by
  intro input b rest hrun
  obtain ⟨a, middle, hfirst, hsecond⟩ := run_bind_eq_ok hrun
  obtain ⟨first, rfl, hR⟩ := hr input a middle hfirst
  obtain ⟨second, rfl, hS⟩ := hf a first hR middle b rest hsecond
  exact ⟨first ++ second, by rw [List.append_assoc], hS⟩

theorem Accepts.mono {r : Reader ε α} {T : List UInt8 → α → Prop} (hr : Accepts r R)
    (h : ∀ bytes a, R bytes a → T bytes a) : Accepts r T := by
  intro input a rest hrun
  obtain ⟨bytes, hinput, hR⟩ := hr input a rest hrun
  exact ⟨bytes, hinput, h bytes a hR⟩

theorem Accepts.map {r : Reader ε α} (g : α → β) (hr : Accepts r fun bytes a => S bytes (g a)) :
    Accepts (g <$> r) S := by
  intro input b rest hrun
  rw [StateT.run_map] at hrun
  cases hfirst : r.run input with
  | error e => rw [hfirst] at hrun; cases hrun
  | ok pair =>
    rw [hfirst] at hrun
    cases hrun
    exact hr input pair.1 pair.2 hfirst

theorem accepts_take (short : ε) (count : ℕ) :
    Accepts (Reader.take short count) fun bytes a => bytes = a ∧ a.length = count := by
  intro input a rest hrun
  change Reader.take short count input = _ at hrun
  unfold Reader.take at hrun
  split at hrun
  · rename_i hle
    cases hrun
    exact ⟨input.take count, (List.take_append_drop count input).symm, rfl,
      by rw [List.length_take, Nat.min_eq_left hle]⟩
  · cases hrun

theorem accepts_remaining : Accepts (Reader.remaining : Reader ε ℕ) fun bytes _ => bytes = [] := by
  intro input a rest hrun
  cases hrun
  exact ⟨[], rfl, rfl⟩

theorem accepts_require (condition : Bool) (error : ε) :
    Accepts (Reader.require condition error) fun bytes _ => bytes = [] ∧ condition = true := by
  intro input a rest hrun
  change Reader.require condition error input = _ at hrun
  unfold Reader.require at hrun
  split at hrun
  · cases hrun
    exact ⟨[], rfl, rfl, by assumption⟩
  · cases hrun

theorem accepts_ofExcept (x : Except ε α) :
    Accepts (Reader.ofExcept x) fun bytes a => bytes = [] ∧ x = .ok a := by
  intro input a rest hrun
  change Reader.ofExcept x input = _ at hrun
  cases x with
  | error e => cases hrun
  | ok a' => cases hrun; exact ⟨[], rfl, rfl, rfl⟩

/-- A little-endian word: its bytes are the ones it encodes to. -/
theorem accepts_takeLE (short : ε) (width : ℕ) :
    Accepts (decodeLE <$> Reader.take short width) fun bytes value =>
      bytes = encodeLE width value ∧ value < 256 ^ width := by
  refine Accepts.map decodeLE ((accepts_take short width).mono ?_)
  rintro bytes a ⟨rfl, hlength⟩
  rw [← hlength]
  exact ⟨(encodeLE_decodeLE bytes).symm, decodeLE_lt bytes⟩

theorem Drains.bind {r : Reader ε α} {f : α → Reader ε β} (hf : ∀ a, Drains (f a)) :
    Drains (r >>= f) := by
  intro input b rest hrun
  obtain ⟨a, middle, -, hsecond⟩ := run_bind_eq_ok hrun
  exact hf a middle b rest hsecond

/-- What a reader that drains its input accepts as a whole. -/
theorem Accepts.whole {r : Reader ε α} (hr : Accepts r R) (hd : Drains r)
    {input rest : List UInt8} {a : α} (h : r.run input = .ok (a, rest)) : R input a := by
  obtain ⟨bytes, hinput, hR⟩ := hr input a rest h
  rw [hd input a rest h, List.append_nil] at hinput
  rw [hinput]
  exact hR

end Accepts

end Wire
