import MonteCarlo.Hash.Compression

/-!
# Streaming SHA-256

`Sha256Hasher` keeps the state after all whole blocks and the bytes since the last one.  That
describes the message fed so far, whatever its cut into chunks was, and `finalize` absorbs what the
standard pads it with.

* `absorb` — the state after the whole blocks of a string.
* `Holds` — what the hasher knows of the message; `Holds.update` keeps it.
* `Holds.finalize` — the digest is the one of the standard.
* `streaming_sha256` — any sequence of calls.
-/

namespace MonteCarlo

open Fips180 (digits)

/-! ## Whole blocks -/

/-- The state after the whole blocks of `bytes`. -/
def absorb (state : Sha256State) (bytes : Bytes) : Sha256State :=
  (List.range (bytes.length / 64)).foldl
    (fun state i => transform ((bytes.drop (64 * i)).take 64) state) state

/-- The bytes after the last whole block. -/
def leftover (bytes : Bytes) : Bytes := bytes.drop (64 * (bytes.length / 64))

theorem length_leftover (bytes : Bytes) : (leftover bytes).length = bytes.length % 64 := by
  rw [leftover, List.length_drop]
  omega

theorem absorb_of_lt {bytes : Bytes} (h : bytes.length < 64) (state : Sha256State) :
    absorb state bytes = state := by
  rw [absorb, Nat.div_eq_of_lt h]
  rfl

theorem leftover_of_lt {bytes : Bytes} (h : bytes.length < 64) : leftover bytes = bytes := by
  rw [leftover, Nat.div_eq_of_lt h]
  rfl

/-- One block first. -/
theorem absorb_block {block : Bytes} (h : block.length = 64) (rest : Bytes) (state : Sha256State) :
    absorb state (block ++ rest) = absorb (transform block state) rest ∧
      leftover (block ++ rest) = leftover rest := by
  have hcount : (block ++ rest).length / 64 = rest.length / 64 + 1 := by
    rw [List.length_append]
    omega
  have hdrop : ∀ i, (block ++ rest).drop (64 * (i + 1)) = rest.drop (64 * i) := by
    intro i
    rw [Nat.mul_add_one, Nat.add_comm, ← List.drop_drop, List.drop_left' h]
  constructor
  · rw [absorb, hcount, List.range_succ_eq_map, List.foldl_cons, List.foldl_map, Nat.mul_zero,
      List.drop_zero, List.take_left' h]
    simp only [Nat.succ_eq_add_one, hdrop]
    rfl
  · rw [leftover, hcount, hdrop]
    rfl

/-- The whole blocks of the first part, then those of what remains. -/
theorem absorb_append (bytes rest : Bytes) (state : Sha256State) :
    absorb state (bytes ++ rest) = absorb (absorb state bytes) (leftover bytes ++ rest) ∧
      leftover (bytes ++ rest) = leftover (leftover bytes ++ rest) := by
  induction hn : bytes.length using Nat.strong_induction_on generalizing bytes state with
  | h n ih =>
    by_cases hshort : bytes.length < 64
    · rw [absorb_of_lt hshort, leftover_of_lt hshort]
      exact ⟨rfl, rfl⟩
    · have hblock : (bytes.take 64).length = 64 := by
        rw [List.length_take]
        omega
      have hsplit : bytes = bytes.take 64 ++ bytes.drop 64 := (List.take_append_drop 64 bytes).symm
      obtain ⟨habsorb, hleftover⟩ := ih (bytes.drop 64).length (by rw [List.length_drop]; omega)
        (bytes.drop 64) (transform (bytes.take 64) state) rfl
      obtain ⟨hfirst, hlast⟩ := absorb_block hblock (bytes.drop 64) state
      obtain ⟨hfirst', hlast'⟩ := absorb_block hblock (bytes.drop 64 ++ rest) state
      rw [← List.append_assoc, ← hsplit] at hfirst' hlast'
      rw [← hsplit] at hfirst hlast
      rw [hfirst', hlast', hfirst, hlast]
      exact ⟨habsorb, hleftover⟩

theorem absorbBlocks_eq {fuel : ℕ} {bytes : Bytes} (h : bytes.length / 64 ≤ fuel)
    (state : Sha256State) :
    Sha256Hasher.absorbBlocks fuel state bytes = (absorb state bytes, leftover bytes) := by
  induction fuel generalizing bytes state with
  | zero =>
    have hshort : bytes.length < 64 := by omega
    rw [absorb_of_lt hshort, leftover_of_lt hshort]
    rfl
  | succ fuel ih =>
    rw [Sha256Hasher.absorbBlocks]
    split
    · rename_i hlong
      have hblock : (bytes.take 64).length = 64 := by
        rw [List.length_take]
        omega
      obtain ⟨hfirst, hlast⟩ := absorb_block hblock (bytes.drop 64) state
      rw [List.take_append_drop] at hfirst hlast
      rw [ih (by rw [List.length_drop]; omega), hfirst, hlast]
    · rename_i hshort
      rw [absorb_of_lt (by omega), leftover_of_lt (by omega)]

/-! ## The hasher -/

/-- What the hasher holds after the message. -/
structure Holds (hasher : Sha256Hasher) (message : Bytes) : Prop where
  state : hasher.state = absorb .initial message
  buffered : hasher.buffered = leftover message
  totalBytes : hasher.totalBytes = UInt64.ofNat message.length

theorem holds_new : Holds .new [] := ⟨rfl, rfl, rfl⟩

/-- An update absorbs the whole blocks of the buffer and the new bytes together. -/
theorem Sha256Hasher.update_eq (hasher : Sha256Hasher) (bytes : Bytes)
    (h : hasher.buffered.length < 64) :
    hasher.update bytes =
      ⟨absorb hasher.state (hasher.buffered ++ bytes), leftover (hasher.buffered ++ bytes),
        hasher.totalBytes + UInt64.ofNat bytes.length⟩ := by
  unfold Sha256Hasher.update
  by_cases hempty : hasher.buffered = []
  · simp only [hempty, if_true, List.nil_append]
    rw [absorbBlocks_eq (Nat.div_le_self _ _)]
  · simp only [hempty, if_false]
    have hsplit : hasher.buffered ++ bytes =
        hasher.buffered ++ bytes.take (min (64 - hasher.buffered.length) bytes.length) ++
          bytes.drop (min (64 - hasher.buffered.length) bytes.length) := by
      rw [List.append_assoc, List.take_append_drop]
    split
    · rename_i hfull
      -- the buffer is completed to a block, and the rest goes on from there
      obtain ⟨hfirst, hlast⟩ := absorb_block hfull
        (bytes.drop (min (64 - hasher.buffered.length) bytes.length)) hasher.state
      rw [absorbBlocks_eq (Nat.div_le_self _ _), hsplit, hfirst, hlast]
      rfl
    · rename_i hpartial
      -- all bytes went into the buffer
      have hall : min (64 - hasher.buffered.length) bytes.length = bytes.length := by
        simp only [List.length_append, List.length_take] at hpartial
        omega
      have hshort : (hasher.buffered ++ bytes).length < 64 := by
        simp only [List.length_append, List.length_take] at hpartial ⊢
        omega
      rw [hall, List.take_length, List.drop_length, absorb_of_lt hshort, leftover_of_lt hshort]
      simp [Sha256Hasher.absorbBlocks]

theorem Holds.update {hasher : Sha256Hasher} {message : Bytes} (h : Holds hasher message)
    (bytes : Bytes) : Holds (hasher.update bytes) (message ++ bytes) := by
  have hshort : hasher.buffered.length < 64 := by
    rw [h.buffered, length_leftover]
    exact Nat.mod_lt _ (by norm_num)
  obtain ⟨habsorb, hleftover⟩ := absorb_append message bytes .initial
  rw [hasher.update_eq bytes hshort]
  refine ⟨?_, ?_, ?_⟩
  · rw [habsorb, ← h.state, ← h.buffered]
  · rw [hleftover, ← h.buffered]
  · rw [h.totalBytes, List.length_append, UInt64.ofNat_add]

theorem Holds.foldl_update {hasher : Sha256Hasher} {message : Bytes} (h : Holds hasher message)
    (chunks : List Bytes) :
    Holds (chunks.foldl Sha256Hasher.update hasher) (message ++ chunks.flatten) := by
  induction chunks generalizing hasher message with
  | nil => rwa [List.flatten_nil, List.append_nil]
  | cons chunk chunks ih =>
    rw [List.foldl_cons, List.flatten_cons, ← List.append_assoc]
    exact ih (h.update chunk)

/-! ## Padding -/

/-- The bytes that `finalize` appends to the message. -/
def padding (length : ℕ) : Bytes :=
  [0x80] ++ List.replicate ((if length % 64 < 56 then 64 else 128) - 9 - length % 64) 0
    ++ (List.range 8).map fun i =>
      ((UInt64.ofNat length * 8) >>> UInt64.ofNat (8 * (7 - i))).toUInt8

theorem Holds.paddedTail {hasher : Sha256Hasher} {message : Bytes} (h : Holds hasher message) :
    hasher.paddedTail = leftover message ++ padding message.length := by
  simp only [Sha256Hasher.paddedTail, padding, h.buffered, h.totalBytes, length_leftover,
    List.append_assoc]

theorem length_padding (length : ℕ) :
    length % 64 + (padding length).length = if length % 64 < 56 then 64 else 128 := by
  simp only [padding, List.length_append, List.length_replicate, List.length_map, List.length_range,
    List.length_singleton]
  split <;> omega

/-- A byte holds eight binary digits of the length. -/
theorem digits_shiftRight_toUInt8 (v : UInt64) {k : ℕ} (h : k < 64) :
    digits 8 (v >>> UInt64.ofNat k).toUInt8.toNat = digits 8 (v.toNat / 2 ^ k) := by
  rw [UInt64.toNat_toUInt8, Fips180.digits_mod, UInt64.toNat_shiftRight, Nat.shiftRight_eq_div_pow,
    UInt64.toNat_ofNat', Nat.mod_mod_of_dvd _ (by norm_num), Nat.mod_eq_of_lt h]

theorem bitsOf_replicate_zero (n : ℕ) :
    bitsOf (List.replicate n 0) = List.replicate (8 * n) false := by
  induction n with
  | zero => rfl
  | succ n ih =>
    rw [List.replicate_succ, bitsOf_cons, ih, UInt8.toNat_zero, Fips180.digits_zero,
      List.replicate_append_replicate, Nat.mul_add_one, Nat.add_comm]

/-- Eight bytes hold the 64 binary digits of a word. -/
theorem bitsOf_wordBytes (v : UInt64) :
    bitsOf ((List.range 8).map fun i => (v >>> UInt64.ofNat (8 * (7 - i))).toUInt8) =
      digits 64 v.toNat := by
  have hdigits : digits 64 v.toNat = (List.range 8).flatMap
      fun i => digits 8 (v.toNat / 2 ^ (8 * (7 - i))) := by
    rw [show 64 = 8 + 56 by rfl, Fips180.digits_add, show 56 = 8 + 48 by rfl, Fips180.digits_add,
      show 48 = 8 + 40 by rfl, Fips180.digits_add, show 40 = 8 + 32 by rfl, Fips180.digits_add,
      show 32 = 8 + 24 by rfl, Fips180.digits_add, show 24 = 8 + 16 by rfl, Fips180.digits_add,
      show 16 = 8 + 8 by rfl, Fips180.digits_add]
    simp [List.range_succ]
  rw [hdigits, bitsOf, List.flatMap_map]
  apply List.flatMap_congr
  intro i _
  exact digits_shiftRight_toUInt8 v (by omega)

/-- On bits, the padding of the code is the padding of the standard. -/
theorem bitsOf_padding {message : Bytes} (h : message.length < 2 ^ 61) :
    bitsOf (message ++ padding message.length) = Fips180.pad (bitsOf message) := by
  have hlength : (UInt64.ofNat message.length * 8).toNat = 8 * message.length := by
    rw [UInt64.toNat_mul, UInt64.toNat_ofNat']
    simp only [UInt64.reduceToNat]
    omega
  have hmark : bitsOf [0x80] = [true] ++ List.replicate 7 false := by decide
  have hzeros : 7 + 8 * ((if message.length % 64 < 56 then 64 else 128) - 9 - message.length % 64) =
      Fips180.zeros (8 * message.length) := by
    rw [Fips180.zeros]
    split <;> omega
  rw [bitsOf_append, padding, bitsOf_append, bitsOf_append, hmark, bitsOf_replicate_zero,
    bitsOf_wordBytes, hlength, Fips180.pad, length_bitsOf, ← hzeros,
    ← List.replicate_append_replicate]
  simp only [List.append_assoc]

/-! ## The digest -/

/-- The words of a block are those of the message. -/
theorem block_words {padded : Bytes} {n : ℕ} (hn : n < padded.length / 64) {j : ℕ} (hj : j < 16) :
    (bigEndianWord ((padded.drop (64 * n)).take 64) (4 * j)).toBitVec =
      Fips180.messageWord (bitsOf padded) n j := by
  have hblock : ((padded.drop (64 * n)).take 64).length = 64 := by
    rw [List.length_take, List.length_drop]
    omega
  have hfour : (((padded.drop (64 * n)).take 64).drop (4 * j)).take 4 =
      (padded.drop (64 * n + 4 * j)).take 4 := by
    rw [List.drop_take, List.take_take, List.drop_drop, Nat.min_eq_left (by omega)]
  rw [bigEndianWord_toBitVec _ (by omega), hfour, bitsOf_take, bitsOf_drop, Fips180.messageWord,
    show 8 * (64 * n + 4 * j) = 512 * n + 32 * j by ring]

/-- The hash value after some blocks, by induction on their number. -/
theorem foldl_transform_registers (padded : Bytes) {n : ℕ} (hn : n ≤ padded.length / 64) :
    ((List.range n).foldl (fun state i => transform ((padded.drop (64 * i)).take 64) state)
      .initial).registers = Fips180.hashBlocks (bitsOf padded) n := by
  induction n with
  | zero => exact initial_registers
  | succ n ih =>
    have hsucc : Fips180.hashBlocks (bitsOf padded) (n + 1) =
        Fips180.compress (Fips180.hashBlocks (bitsOf padded) n)
          (Fips180.messageWord (bitsOf padded) n) := by
      rw [Fips180.hashBlocks, List.range_succ, List.foldl_append]
      rfl
    rw [hsucc, List.range_succ, List.foldl_append, List.foldl_cons, List.foldl_nil,
      transform_registers, ih (by omega)]
    exact Fips180.compress_congr (fun j hj => block_words (by omega) hj) _

theorem absorb_registers (padded : Bytes) :
    (absorb .initial padded).registers =
      Fips180.hashBlocks (bitsOf padded) (padded.length / 64) :=
  foldl_transform_registers padded le_rfl

/-- The digest bytes of a word. -/
def wordBytes (word : UInt32) : Bytes :=
  [(word >>> 24).toUInt8, (word >>> 16).toUInt8, (word >>> 8).toUInt8, (word >>> 0).toUInt8]

theorem digits_shiftRight_toUInt8_word (v : UInt32) (k : UInt32) (h : k.toNat < 32) :
    digits 8 (v >>> k).toUInt8.toNat = digits 8 (v.toNat / 2 ^ k.toNat) := by
  rw [UInt32.toNat_toUInt8, Fips180.digits_mod, UInt32.toNat_shiftRight,
    Nat.shiftRight_eq_div_pow, Nat.mod_eq_of_lt h]

theorem bitsOf_wordBytes32 (word : UInt32) : bitsOf (wordBytes word) = digits 32 word.toNat := by
  have hdigits : digits 32 word.toNat = digits 8 (word.toNat / 2 ^ 24)
      ++ digits 8 (word.toNat / 2 ^ 16) ++ digits 8 (word.toNat / 2 ^ 8)
      ++ digits 8 (word.toNat / 2 ^ 0) := by
    rw [show 32 = 8 + 24 by rfl, Fips180.digits_add, show 24 = 8 + 16 by rfl, Fips180.digits_add,
      show 16 = 8 + 8 by rfl, Fips180.digits_add]
    simp
  have hnil : bitsOf [] = [] := rfl
  simp only [wordBytes, bitsOf_cons, hnil]
  rw [digits_shiftRight_toUInt8_word word 24 (by decide),
    digits_shiftRight_toUInt8_word word 16 (by decide),
    digits_shiftRight_toUInt8_word word 8 (by decide),
    digits_shiftRight_toUInt8_word word 0 (by decide), hdigits]
  simp only [UInt32.reduceToNat, List.append_assoc, List.append_nil]

/-- The digest that `finalize` writes for a final state. -/
def digestOfState (state : Sha256State) : Sha256Digest :=
  Vector.ofFn fun i =>
    (state.toWords.getD (i.val / 4) 0 >>> UInt32.ofNat (8 * (3 - i.val % 4))).toUInt8

theorem digestOfState_toList (state : Sha256State) :
    (digestOfState state).toList = state.toWords.flatMap wordBytes := by
  rw [digestOfState, Vector.toList_ofFn]
  simp only [List.ofFn_succ, List.ofFn_zero, Sha256State.toWords, List.flatMap_cons, List.flatMap_nil, wordBytes,
    List.cons_append, List.nil_append]
  rfl

theorem bitsOf_digestOfState (state : Sha256State) :
    bitsOf (digestOfState state).toList = state.registers.bits := by
  have hflat : bitsOf (state.toWords.flatMap wordBytes) =
      state.toWords.flatMap fun word => digits 32 word.toNat := by
    rw [bitsOf, List.flatMap_assoc]
    exact List.flatMap_congr fun word _ => bitsOf_wordBytes32 word
  rw [digestOfState_toList, hflat]
  simp only [Sha256State.toWords, List.flatMap_cons, List.flatMap_nil, List.append_nil,
    Fips180.Registers.bits, List.append_assoc]
  rfl

/-- `finalize` absorbs the rest of the padded message, one block or two. -/
theorem Holds.finalize_eq {hasher : Sha256Hasher} {message : Bytes} (h : Holds hasher message) :
    hasher.finalize = digestOfState (absorb .initial (message ++ padding message.length)) := by
  have hlength := length_padding message.length
  have htail : hasher.paddedTail.length = if message.length % 64 < 56 then 64 else 128 := by
    rw [h.paddedTail, List.length_append, length_leftover, hlength]
  have hstate : absorb .initial (message ++ padding message.length) =
      absorb hasher.state hasher.paddedTail := by
    rw [(absorb_append message _ _).1, ← h.state, h.paddedTail]
  have hrest : absorb hasher.state hasher.paddedTail =
      if hasher.paddedTail.length = 128 then
        transform (hasher.paddedTail.drop 64) (transform (hasher.paddedTail.take 64) hasher.state)
      else transform (hasher.paddedTail.take 64) hasher.state := by
    have hblock : (hasher.paddedTail.take 64).length = 64 := by
      rw [List.length_take]
      split at htail <;> omega
    have hfirst := (absorb_block hblock (hasher.paddedTail.drop 64) hasher.state).1
    rw [List.take_append_drop] at hfirst
    rw [hfirst]
    split
    · rename_i hlong
      have hsecond : (hasher.paddedTail.drop 64).length = 64 := by
        rw [List.length_drop]
        omega
      have hlast := (absorb_block hsecond [] (transform (hasher.paddedTail.take 64) hasher.state)).1
      rw [List.append_nil] at hlast
      rw [hlast]
      exact absorb_of_lt (by simp) _
    · rename_i hshort
      refine absorb_of_lt ?_ _
      rw [List.length_drop]
      split at htail <;> omega
  rw [hstate, hrest]
  rfl

/-- The digest is the one of the standard. -/
theorem Holds.finalize {hasher : Sha256Hasher} {message : Bytes} (h : Holds hasher message)
    (hlength : message.length < 2 ^ 61) :
    bitsOf hasher.finalize.toList = Fips180.hash (bitsOf message) := by
  have hblocks : (message ++ padding message.length).length / 64 =
      (Fips180.pad (bitsOf message)).length / 512 := by
    rw [← bitsOf_padding hlength, length_bitsOf]
    omega
  rw [h.finalize_eq, bitsOf_digestOfState, absorb_registers, hblocks, bitsOf_padding hlength]
  rfl

/-! ## Sequences of calls -/

/-- A call of the hasher's interface. -/
inductive HasherCall where
  | update (bytes : Bytes)
  | finalize

/-- The digests that a sequence of calls returns. -/
def digests : Sha256Hasher → List HasherCall → List Sha256Digest
  | _, [] => []
  | hasher, .update bytes :: calls => digests (hasher.update bytes) calls
  | hasher, .finalize :: calls => hasher.finalize :: digests hasher calls

/-- The message fed before each `finalize`. -/
def messages : Bytes → List HasherCall → List Bytes
  | _, [] => []
  | message, .update bytes :: calls => messages (message ++ bytes) calls
  | message, .finalize :: calls => message :: messages message calls

/-- All bytes fed by a sequence of calls. -/
def fed : List HasherCall → Bytes
  | [] => []
  | .update bytes :: calls => bytes ++ fed calls
  | .finalize :: calls => fed calls

theorem holds_sha256 (message : Bytes) : Holds (Sha256Hasher.new.update message) message :=
  holds_new.update message

/-- Two hashers that hold the same message return the same digest. -/
theorem Holds.finalize_eq_sha256 {hasher : Sha256Hasher} {message : Bytes}
    (h : Holds hasher message) : hasher.finalize = sha256 message := by
  rw [sha256, h.finalize_eq, (holds_sha256 message).finalize_eq]

example : (sha256 (ascii "abc")).toList =
    [0xBA, 0x78, 0x16, 0xBF, 0x8F, 0x01, 0xCF, 0xEA, 0x41, 0x41, 0x40, 0xDE, 0x5D, 0xAE, 0x22, 0x23,
     0xB0, 0x03, 0x61, 0xA3, 0x96, 0x17, 0x7A, 0x9C, 0xB4, 0x10, 0xFF, 0x61, 0xF2, 0x00, 0x15,
     0xAD] := by decide +kernel

theorem Holds.digests {hasher : Sha256Hasher} {message : Bytes} (h : Holds hasher message)
    {calls : List HasherCall} (hlength : (message ++ fed calls).length < 2 ^ 61) :
    (digests hasher calls).map (fun d => bitsOf d.toList) =
        (messages message calls).map (fun m => Fips180.hash (bitsOf m)) ∧
      MonteCarlo.digests hasher calls = (messages message calls).map sha256 := by
  induction calls generalizing hasher message with
  | nil => exact ⟨rfl, rfl⟩
  | cons call calls ih =>
    cases call with
    | update bytes =>
      rw [fed, ← List.append_assoc] at hlength
      exact ih (h.update bytes) hlength
    | finalize =>
      obtain ⟨hstandard, hsha⟩ := ih h hlength
      rw [List.length_append] at hlength
      rw [MonteCarlo.digests, messages, List.map_cons, List.map_cons, List.map_cons, hstandard, hsha,
        h.finalize (by omega), h.finalize_eq_sha256]
      exact ⟨rfl, rfl⟩

/-- Whatever the calls are, as long as fewer than `2 ^ 61` bytes are fed: every `finalize` returns
the SHA-256 of the bytes fed before it, as the standard defines it and as `sha256` computes it.  In
particular for the updates with a list of chunks and one `finalize`. -/
theorem streaming_sha256 (calls : List HasherCall) (hlength : (fed calls).length < 2 ^ 61) :
    (digests .new calls).map (fun d => bitsOf d.toList) =
        (messages [] calls).map (fun m => Fips180.hash (bitsOf m)) ∧
      digests .new calls = (messages [] calls).map sha256 ∧
      ∀ chunks : List Bytes, chunks.flatten.length < 2 ^ 61 →
        bitsOf (chunks.foldl Sha256Hasher.update .new).finalize.toList =
            Fips180.hash (bitsOf chunks.flatten) ∧
          (chunks.foldl Sha256Hasher.update .new).finalize = sha256 chunks.flatten := by
  obtain ⟨hstandard, hsha⟩ := holds_new.digests (by simpa using hlength)
  refine ⟨hstandard, hsha, ?_⟩
  intro chunks hchunks
  have h := holds_new.foldl_update chunks
  rw [List.nil_append] at h
  exact ⟨h.finalize hchunks, h.finalize_eq_sha256⟩

/-- Two chunks with a digest in between. -/
theorem streaming_sha256_abc :
    digests .new [.update [0x61], .finalize, .update [0x62, 0x63], .finalize] =
      [sha256 [0x61], sha256 [0x61, 0x62, 0x63]] :=
  (streaming_sha256 [.update [0x61], .finalize, .update [0x62, 0x63], .finalize] (by decide)).2.1

end MonteCarlo
