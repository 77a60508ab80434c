import MonteCarlo.Codec

/-!
# The durable envelope

The checksum, the reader and the envelope of `persistence_codec.cpp`:

    8-byte magic | storage schema | payload length | payload | CRC-32C

`openEnvelope_makeEnvelope` says that an envelope opens to its payload, and the
`reads_` lemmas that each field reader undoes the field writer of `codec.cpp`.
-/

namespace MonteCarlo

open Wire

def kStorageSchemaVersion : UInt32 := 1

/-! ## CRC-32C -/

/-- One bit of `make_crc32c_table`. -/
def crc32cBit (value : UInt32) : UInt32 :=
  (value >>> 1) ^^^ (0x82F63B78 &&& (0 - (value &&& 1)))

/-- `make_crc32c_table`. -/
def kCrc32cTable : Vector UInt32 256 :=
  Vector.ofFn fun index => crc32cBit^[8] (UInt32.ofNat index.val)

/-- One step of `crc32c_range`. -/
def crc32cStep (crc : UInt32) (byte : UInt8) : UInt32 :=
  kCrc32cTable.get ⟨(crc.toUInt8 ^^^ byte).toNat, UInt8.toNat_lt _⟩ ^^^ (crc >>> 8)

/-- `crc32c`.  Proofs about the store never look inside it. -/
@[irreducible] def crc32c (bytes : Bytes) : UInt32 :=
  ~~~(bytes.foldl crc32cStep 0xFFFFFFFF)

/-! ## The reader -/

/-- `Reader`. -/
abbrev Reader (α : Type) : Type := Wire.Reader Exception α

namespace Reader

def truncated : Exception := ⟨.runtimeError, .reader, "durable payload is truncated"⟩

/-- `Reader::byte_vector`. -/
def byteVector (size : ℕ) : Reader Bytes := Wire.Reader.take truncated size

/-- `Reader::u8`. -/
def u8 : Reader UInt8 := (fun value => UInt8.ofNat value) <$> (decodeLE <$> byteVector 1)

/-- `Reader::u32`. -/
def u32 : Reader UInt32 := (fun value => UInt32.ofNat value) <$> (decodeLE <$> byteVector 4)

/-- `Reader::u64`. -/
def u64 : Reader UInt64 := (fun value => UInt64.ofNat value) <$> (decodeLE <$> byteVector 8)

/-- `Reader::binary64`. -/
def binary64 : Reader Binary64 := Binary64.mk <$> u64

/-- The digest stored in 32 bytes. -/
def digestOf (bytes : Bytes) : Sha256Digest := Vector.ofFn fun i => bytes.getD i.val 0

/-- `Reader::digest`. -/
def digest : Reader Sha256Digest := digestOf <$> byteVector 32

/-- `Reader::string`. -/
def string (maximumSize : UInt32) : Reader Bytes := do
  let size ← u32
  Wire.Reader.require (size ≤ maximumSize)
    ⟨.runtimeError, .reader, "durable string exceeds its schema limit"⟩
  byteVector size.toNat

/-- `Reader::finish`. -/
def finish : Reader Unit := do
  let remaining ← Wire.Reader.remaining
  Wire.Reader.require (remaining = 0)
    ⟨.runtimeError, .reader, "durable payload has trailing bytes"⟩

/-- Run a reader over a whole payload. -/
def decode {α : Type} (reader : Reader α) (bytes : Bytes) : Result α :=
  Prod.fst <$> reader.run bytes

theorem reads_byteVector (bytes : Bytes) : Reads (byteVector bytes.length) bytes bytes :=
  reads_take _ bytes

theorem reads_u8 (v : UInt8) : Reads u8 (appendU8 v) v := by
  have h := Reads.map (fun value => UInt8.ofNat value) (Reads.map decodeLE (reads_byteVector [v]))
  have hv : UInt8.ofNat (decodeLE [v]) = v := by simp [decodeLE]
  rw [hv] at h
  exact h

theorem reads_u32 (v : UInt32) : Reads u32 (appendU32 v) v := by
  have h := Reads.map (fun value => UInt32.ofNat value)
    (reads_takeLE truncated 4 (show v.toNat < 256 ^ 4 by simpa using v.toNat_lt))
  rwa [UInt32.ofNat_toNat] at h

theorem reads_u64 (v : UInt64) : Reads u64 (appendU64 v) v := by
  have h := Reads.map (fun value => UInt64.ofNat value)
    (reads_takeLE truncated 8 (show v.toNat < 256 ^ 8 by simpa using v.toNat_lt))
  rwa [UInt64.ofNat_toNat] at h

theorem reads_binary64 (v : Binary64) : Reads binary64 (appendDouble v) v :=
  Reads.map Binary64.mk (reads_u64 v.bits)

theorem digestOf_toList (d : Sha256Digest) : digestOf d.toList = d := by
  apply Vector.ext
  intro i hi
  simp [digestOf]

theorem reads_digest (d : Sha256Digest) : Reads digest (appendDigest d) d := by
  have h := Reads.map digestOf (reads_byteVector d.toList)
  rw [digestOf_toList] at h
  simpa [appendDigest, digest] using h

/-- The end of the payload. -/
theorem readsAll_finish {β : Type} {r : Reader β} {b : β} (hr : ReadsAll r [] b) :
    ReadsAll (finish >>= fun _ => r) [] b := hr

theorem decode_of_readsAll {α : Type} {r : Reader α} {bytes : Bytes} {a : α}
    (hr : ReadsAll r bytes a) : decode r bytes = .ok a := by
  unfold decode
  rw [hr]
  rfl

theorem accepts_byteVector (size : ℕ) :
    Accepts (byteVector size) fun bytes value => bytes = value ∧ value.length = size :=
  accepts_take _ size

theorem accepts_u8 : Accepts u8 fun bytes value => bytes = appendU8 value := by
  refine Accepts.map _ ((accepts_takeLE truncated 1).mono ?_)
  rintro bytes value ⟨rfl, -⟩
  simp [encodeLE, appendU8]

theorem accepts_u32 : Accepts u32 fun bytes value => bytes = appendU32 value := by
  refine Accepts.map _ ((accepts_takeLE truncated 4).mono ?_)
  rintro bytes value ⟨rfl, hlt⟩
  rw [appendU32, UInt32.toNat_ofNat', Nat.mod_eq_of_lt (by omega)]

theorem accepts_u64 : Accepts u64 fun bytes value => bytes = appendU64 value := by
  refine Accepts.map _ ((accepts_takeLE truncated 8).mono ?_)
  rintro bytes value ⟨rfl, hlt⟩
  rw [appendU64, UInt64.toNat_ofNat', Nat.mod_eq_of_lt (by omega)]

theorem accepts_binary64 : Accepts binary64 fun bytes value => bytes = appendDouble value :=
  Accepts.map Binary64.mk (accepts_u64.mono fun _ _ h => h)

theorem toList_digestOf {bytes : Bytes} (h : bytes.length = 32) : (digestOf bytes).toList = bytes := by
  apply List.ext_getElem
  · simp [h]
  · intro i _ hi
    simp [digestOf, List.getElem?_eq_getElem hi]

theorem accepts_digest : Accepts digest fun bytes value => bytes = appendDigest value := by
  refine Accepts.map _ ((accepts_byteVector 32).mono ?_)
  rintro bytes value ⟨rfl, hlength⟩
  exact (toList_digestOf hlength).symm

theorem accepts_finish : Accepts finish fun bytes _ => bytes = [] := by
  refine accepts_remaining.bind ?_
  rintro remaining _ rfl
  exact (accepts_require _ _).mono fun _ _ h => h.1

/-- Nothing is left after `finish`. -/
theorem drains_finish {α : Type} (a : α) : Drains (finish >>= fun _ => pure a) := by
  intro input b rest hrun
  obtain ⟨⟨⟩, middle, hfinish, hpure⟩ := run_bind_eq_ok hrun
  cases hpure
  obtain ⟨remaining, _, hremaining, hrequire⟩ := run_bind_eq_ok hfinish
  cases hremaining
  change Wire.Reader.require _ _ input = _ at hrequire
  unfold Wire.Reader.require at hrequire
  split at hrequire
  · rename_i hzero
    cases hrequire
    simpa using hzero
  · cases hrequire

theorem accepts_of_decode {α : Type} {r : Reader α} {P : Bytes → α → Prop} {bytes : Bytes} {a : α}
    (hr : Accepts r P) (hd : Drains r) (h : decode r bytes = .ok a) : P bytes a := by
  unfold decode at h
  cases hrun : r.run bytes with
  | error e => rw [hrun] at h; cases h
  | ok pair =>
    rw [hrun] at h
    cases h
    exact hr.whole hd hrun

end Reader

/-! ## Strings -/

/-- `append_string`. -/
def appendString (value : Bytes) (maximumSize : UInt32) : Result Bytes :=
  if maximumSize.toNat < value.length then
    .error ⟨.lengthError, .appendString, "durable string exceeds its schema limit"⟩
  else .ok (appendU32 (UInt32.ofNat value.length) ++ value)

theorem appendString_eq_ok {value bytes : Bytes} {maximumSize : UInt32}
    (h : appendString value maximumSize = .ok bytes) :
    value.length ≤ maximumSize.toNat ∧
      bytes = appendU32 (UInt32.ofNat value.length) ++ value := by
  unfold appendString at h
  split at h
  · cases h
  · rename_i hle
    cases h
    exact ⟨by omega, rfl⟩

theorem reads_string {value bytes : Bytes} {maximumSize : UInt32}
    (h : appendString value maximumSize = .ok bytes) :
    Reads (Reader.string maximumSize) bytes value := by
  obtain ⟨hle, rfl⟩ := appendString_eq_ok h
  have hlen : (UInt32.ofNat value.length).toNat = value.length := by
    rw [UInt32.toNat_ofNat']
    exact Nat.mod_eq_of_lt (lt_of_le_of_lt hle maximumSize.toNat_lt)
  refine Reads.bind (Reader.reads_u32 _) (Reads.bind_nil (reads_require _ ?_) ?_)
  · simpa [UInt32.le_iff_toNat_le, hlen] using hle
  · rw [hlen]
    exact Reader.reads_byteVector value

theorem accepts_string (maximumSize : UInt32) :
    Accepts (Reader.string maximumSize) fun bytes value =>
      appendString value maximumSize = .ok bytes := by
  refine Reader.accepts_u32.bind ?_
  rintro size _ rfl
  refine (accepts_require _ _).bind ?_
  rintro - _ ⟨rfl, hle⟩
  refine (Reader.accepts_byteVector _).mono ?_
  rintro bytes value ⟨rfl, hlength⟩
  have hfits : ¬ maximumSize.toNat < bytes.length := by
    rw [hlength, not_lt]
    exact UInt32.le_iff_toNat_le.mp (of_decide_eq_true hle)
  rw [appendString, if_neg hfits, hlength, UInt32.ofNat_toNat]
  rfl

/-! ## Envelopes -/

/-- `make_envelope`. -/
def makeEnvelope (magic payload : Bytes) : Bytes :=
  let bytes := magic ++ appendU32 kStorageSchemaVersion
    ++ appendU64 (UInt64.ofNat payload.length) ++ payload
  bytes ++ appendU32 (crc32c bytes)

/-- An exception of `open_envelope`. -/
def envelopeError (what : String) : Exception := ⟨.runtimeError, .openEnvelope, what⟩

/-- The overhead of an envelope in bytes. -/
def envelopeOverhead : ℕ := 8 + 4 + 8 + 4

/-- The reads of `open_envelope` after the magic has been compared. -/
def readEnvelope (size : ℕ) (maximumSize : UInt64) : Reader (Bytes × UInt32) := do
  let _ ← Reader.byteVector 8
  let schema ← Reader.u32
  Wire.Reader.require (schema = kStorageSchemaVersion)
    (envelopeError "unsupported durable storage schema version")
  let payloadSize ← Reader.u64
  Wire.Reader.require
    (payloadSize ≤ maximumSize && payloadSize.toNat = size - envelopeOverhead)
    (envelopeError "durable envelope payload length mismatch")
  let payload ← Reader.byteVector payloadSize.toNat
  let storedCrc ← Reader.u32
  Reader.finish
  pure (payload, storedCrc)

/-- `open_envelope`. -/
def openEnvelope (bytes expectedMagic : Bytes) (maximumSize : UInt64) : Result Bytes := do
  throwIf (bytes.length < envelopeOverhead || maximumSize.toNat < bytes.length)
    (envelopeError "durable envelope size is invalid")
  throwIf (bytes.take 8 ≠ expectedMagic) (envelopeError "durable envelope magic mismatch")
  let (payload, storedCrc) ← Reader.decode (readEnvelope bytes.length maximumSize) bytes
  throwIf (storedCrc ≠ crc32c (bytes.take (bytes.length - 4)))
    (envelopeError "durable envelope CRC32C mismatch")
  pure payload

theorem length_makeEnvelope {magic : Bytes} (hmagic : magic.length = 8) (payload : Bytes) :
    (makeEnvelope magic payload).length = payload.length + envelopeOverhead := by
  simp only [makeEnvelope, List.length_append, length_appendU32, length_appendU64, hmagic,
    envelopeOverhead]
  omega

theorem readsAll_readEnvelope {magic payload : Bytes} {maximumSize : UInt64} (crc : UInt32)
    (hmagic : magic.length = 8) (hmax : payload.length ≤ maximumSize.toNat) :
    ReadsAll (readEnvelope (payload.length + envelopeOverhead) maximumSize)
      (magic ++ appendU32 kStorageSchemaVersion ++ appendU64 (UInt64.ofNat payload.length)
        ++ payload ++ appendU32 crc) (payload, crc) := by
  have hsize : (UInt64.ofNat payload.length).toNat = payload.length := by
    rw [UInt64.toNat_ofNat']
    exact Nat.mod_eq_of_lt (lt_of_le_of_lt hmax maximumSize.toNat_lt)
  have hskip : Reads (Reader.byteVector 8) magic magic := by
    rw [← hmagic]; exact Reader.reads_byteVector magic
  have hpayload : Reads (Reader.byteVector (UInt64.ofNat payload.length).toNat) payload payload := by
    rw [hsize]; exact Reader.reads_byteVector payload
  rw [← List.append_nil (appendU32 crc)]
  simp only [List.append_assoc]
  refine hskip.andThen ((Reader.reads_u32 _).andThen ?_)
  refine (reads_require _ (by simp)).check ((Reader.reads_u64 _).andThen ?_)
  refine (reads_require _ ?_).check (hpayload.andThen ((Reader.reads_u32 _).andThen ?_))
  · simp [UInt64.le_iff_toNat_le, hsize, hmax]
  · exact Reader.readsAll_finish (ReadsAll.pure _)

/-- An envelope opens to its payload. -/
theorem openEnvelope_makeEnvelope {magic : Bytes} (payload : Bytes) (maximumSize : UInt64)
    (hmagic : magic.length = 8)
    (hmax : (makeEnvelope magic payload).length ≤ maximumSize.toNat) :
    openEnvelope (makeEnvelope magic payload) magic maximumSize = .ok payload := by
  have hlen := length_makeEnvelope hmagic payload
  have hpayload : payload.length ≤ maximumSize.toNat := by omega
  set body := magic ++ appendU32 kStorageSchemaVersion
    ++ appendU64 (UInt64.ofNat payload.length) ++ payload with hbody
  have henv : makeEnvelope magic payload = body ++ appendU32 (crc32c body) := rfl
  have hread : Reader.decode (readEnvelope (makeEnvelope magic payload).length maximumSize)
      (makeEnvelope magic payload) = .ok (payload, crc32c body) := by
    rw [hlen, henv, hbody]
    exact Reader.decode_of_readsAll (readsAll_readEnvelope _ hmagic hpayload)
  have htake : (makeEnvelope magic payload).take 8 = magic := by
    rw [henv, hbody, ← hmagic]
    simp [List.append_assoc]
  have hcrc : (makeEnvelope magic payload).take ((makeEnvelope magic payload).length - 4) = body := by
    rw [henv, List.length_append, length_appendU32, Nat.add_sub_cancel, List.take_left]
  have hshort : ¬ (makeEnvelope magic payload).length < envelopeOverhead := by omega
  have hlong : ¬ maximumSize.toNat < (makeEnvelope magic payload).length := by omega
  simp only [openEnvelope, hshort, hlong, htake, hread, hcrc, decide_false, Bool.or_self,
    throwIf_false, Result.ok_bind, ne_eq, not_true_eq_false]
  rfl

theorem accepts_readEnvelope (size : ℕ) (maximumSize : UInt64) :
    Accepts (readEnvelope size maximumSize) fun bytes result =>
      ∃ magic : Bytes, magic.length = 8 ∧
        bytes = magic ++ appendU32 kStorageSchemaVersion
          ++ appendU64 (UInt64.ofNat result.1.length) ++ result.1 ++ appendU32 result.2 := by
  refine (Reader.accepts_byteVector 8).bind ?_
  rintro _ magic ⟨rfl, hmagic⟩
  refine Reader.accepts_u32.bind ?_
  rintro schema _ rfl
  refine (accepts_require _ _).bind ?_
  rintro - _ ⟨rfl, hschema⟩
  obtain rfl := of_decide_eq_true hschema
  refine Reader.accepts_u64.bind ?_
  rintro payloadSize _ rfl
  refine (accepts_require _ _).bind ?_
  rintro - _ ⟨rfl, -⟩
  refine (Reader.accepts_byteVector _).bind ?_
  rintro _ payload ⟨rfl, hlength⟩
  refine Reader.accepts_u32.bind ?_
  rintro storedCrc _ rfl
  refine Reader.accepts_finish.bind ?_
  rintro - _ rfl
  refine Accepts.pure ⟨magic, hmagic, ?_⟩
  rw [hlength, UInt64.ofNat_toNat]
  simp only [List.append_assoc, List.nil_append, List.append_nil]

theorem drains_readEnvelope (size : ℕ) (maximumSize : UInt64) :
    Drains (readEnvelope size maximumSize) := by
  refine Drains.bind fun _ => Drains.bind fun _ => Drains.bind fun _ => Drains.bind fun _ => ?_
  exact Drains.bind fun _ => Drains.bind fun _ => Drains.bind fun _ => Reader.drains_finish _

/-- Only the envelope of a payload opens to it. -/
theorem openEnvelope_eq_ok {bytes magic payload : Bytes} {maximumSize : UInt64}
    (h : openEnvelope bytes magic maximumSize = .ok payload) :
    bytes = makeEnvelope magic payload := by
  obtain ⟨⟨⟩, -, h⟩ := Result.bind_eq_ok.mp h
  obtain ⟨⟨⟩, hmagic, h⟩ := Result.bind_eq_ok.mp h
  obtain ⟨⟨payload', storedCrc⟩, hread, h⟩ := Result.bind_eq_ok.mp h
  obtain ⟨⟨⟩, hcrc, h⟩ := Result.bind_eq_ok.mp h
  cases h
  obtain ⟨magic', hlength, hbytes⟩ := Reader.accepts_of_decode (accepts_readEnvelope _ _)
    (drains_readEnvelope _ _) hread
  simp only [throwIf_eq_ok, decide_eq_false_iff_not, ne_eq, not_not] at hmagic hcrc
  have htake : magic' = magic := by
    rw [← hmagic, hbytes, ← hlength]
    simp only [List.append_assoc, List.take_left]
  have hbody : bytes.take (bytes.length - 4) = magic ++ appendU32 kStorageSchemaVersion
      ++ appendU64 (UInt64.ofNat payload.length) ++ payload := by
    rw [hbytes, List.length_append, length_appendU32, Nat.add_sub_cancel, List.take_left, htake]
  rw [hbody] at hcrc
  rw [hbytes, hcrc, htake]
  rfl

end MonteCarlo
