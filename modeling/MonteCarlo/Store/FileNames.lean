import MonteCarlo.Engine.Blocks
import MonteCarlo.Library.Decimal
import MonteCarlo.Library.Paths

/-!
# File names of a run directory

The directory layout of `run_store.cpp` and the names of manifests and block
results, with the parsers that recognise them:

    run_spec.bin
    .run.lock
    manifests/manifest_<20 digits>.bin
    block_results/block_<20 digits>_inc_<20 digits>_epoch_<20 digits>.bin
    tmp/<final name>.tmp.<pid>.<nonce>

* `parseManifestSequence_iff` — the parser of manifest names accepts exactly the
  printed names, and returns their sequence number.
* `parseBlockResultFilename_iff` — likewise for block results.
-/

namespace MonteCarlo

/-- The run directory and its subdirectories. -/
inductive Dir where
  | root
  | manifests
  | blockResults
  | tmp
  deriving DecidableEq, Repr

/-- `directory / name`, as it is printed. -/
def joinPath (directory name : String) : String :=
  if directory = "" ∨ directory.endsWith "/" then directory ++ name else directory ++ "/" ++ name

/-- The path of a directory as the messages print it. -/
def Dir.text (runDirectory : String) : Dir → String
  | root => runDirectory
  | manifests => joinPath runDirectory "manifests"
  | blockResults => joinPath runDirectory "block_results"
  | tmp => joinPath runDirectory "tmp"

/-- The path of a directory, behind the run directory as it was written. -/
def Dir.spelling (runDirectory : String) : Dir → Paths.Spelling
  | root => .ofText runDirectory
  | manifests => (Paths.Spelling.ofText runDirectory).append "manifests"
  | blockResults => (Paths.Spelling.ofText runDirectory).append "block_results"
  | tmp => (Paths.Spelling.ofText runDirectory).append "tmp"

/-- A file name, character by character. -/
abbrev FileName : Type := List Char

/-- A file of the run directory. -/
structure Path where
  dir : Dir
  name : FileName
  deriving DecidableEq, Repr

/-- The path as the messages print it. -/
def Path.text (runDirectory : String) (path : Path) : String :=
  joinPath (path.dir.text runDirectory) (String.ofList path.name)

/-- The path of a file as a directory iterator yields it. -/
def Path.spelling (runDirectory : String) (path : Path) : Paths.Spelling :=
  (path.dir.spelling runDirectory).append (String.ofList path.name)

def kRunSpecFilename : FileName := "run_spec.bin".toList
def kLockFilename : FileName := ".run.lock".toList

/-- `config.run_directory / kRunSpecFilename`. -/
def metadataPath : Path := ⟨.root, kRunSpecFilename⟩

/-- `config.run_directory / kLockFilename`. -/
def lockPath : Path := ⟨.root, kLockFilename⟩

/-- `padded_number`: `std::setw(20)` filled with `0`.  A 64-bit number never has
more than 20 digits. -/
def paddedNumber (value : UInt64) : FileName := Decimal.print 20 value.toNat

/-- `std::from_chars` over a whole field: digits only, and a value that fits
into 64 bits. -/
def parseField (field : FileName) : Option UInt64 :=
  (Decimal.parse field).bind fun value =>
    if value < 2 ^ 64 then some (UInt64.ofNat value) else none

/-! ## Manifests -/

def manifestStem : FileName := "manifest_".toList
def binSuffix : FileName := ".bin".toList

def manifestName (sequence : UInt64) : FileName :=
  manifestStem ++ (paddedNumber sequence ++ binSuffix)

/-- `manifest_path_for`. -/
def manifestPathFor (sequence : UInt64) : Path := ⟨.manifests, manifestName sequence⟩

/-- `parse_manifest_sequence`. -/
def parseManifestSequence (name : FileName) : Option UInt64 :=
  if name.length ≠ 9 + 20 + 4 ∨ name.take 9 ≠ manifestStem
      ∨ (name.drop (9 + 20)).take 4 ≠ binSuffix then none
  else parseField ((name.drop 9).take 20)

/-! ## Block results -/

def blockStem : FileName := "block_".toList
def incarnationSeparator : FileName := "_inc_".toList
def epochSeparator : FileName := "_epoch_".toList

def blockName (block : ScenarioBlock) : FileName :=
  blockStem ++ (paddedNumber block.blockId ++ (incarnationSeparator
    ++ (paddedNumber block.runIncarnation ++ (epochSeparator
    ++ (paddedNumber block.leaseEpoch ++ binSuffix)))))

/-- `block_path_for`. -/
def blockPathFor (block : ScenarioBlock) : Path := ⟨.blockResults, blockName block⟩

/-- `parse_block_result_filename`. -/
def parseBlockResultFilename (name : FileName) : Option ScenarioBlock :=
  let incarnationOffset := 6 + 20
  let incarnationDigits := incarnationOffset + 5
  let epochOffset := incarnationDigits + 20
  let epochDigits := epochOffset + 7
  let suffixOffset := epochDigits + 20
  if name.length ≠ suffixOffset + 4 ∨ name.take 6 ≠ blockStem
      ∨ (name.drop incarnationOffset).take 5 ≠ incarnationSeparator
      ∨ (name.drop epochOffset).take 7 ≠ epochSeparator
      ∨ (name.drop suffixOffset).take 4 ≠ binSuffix then none
  else do
    let blockId ← parseField ((name.drop 6).take 20)
    let incarnation ← parseField ((name.drop incarnationDigits).take 20)
    let epoch ← parseField ((name.drop epochDigits).take 20)
    pure ⟨blockId, 0, 0, incarnation, epoch⟩

/-! ## Temporary files -/

/-- `final_path.filename().string() + ".tmp." + pid + "." + nonce`. -/
def temporaryName (finalName : FileName) (pid nonce : ℕ) : FileName :=
  finalName ++ ".tmp.".toList ++ (toString pid).toList ++ ".".toList ++ (toString nonce).toList

/-- `name.find(".bin.tmp.") != npos || name.find("run_spec.bin.tmp.") != npos`. -/
def isStaleTemporary (name : FileName) : Bool :=
  decide (".bin.tmp.".toList <:+: name) || decide ("run_spec.bin.tmp.".toList <:+: name)

/-! ## Printing and parsing -/

theorem paddedNumber_lt (value : UInt64) : value.toNat < 10 ^ 20 :=
  lt_trans value.toNat_lt (by norm_num)

@[simp] theorem length_paddedNumber (value : UInt64) : (paddedNumber value).length = 20 :=
  Decimal.length_print _ _

theorem parseField_paddedNumber (value : UInt64) : parseField (paddedNumber value) = some value := by
  rw [parseField, paddedNumber, Decimal.parse_print (paddedNumber_lt value), Option.bind_some,
    if_pos value.toNat_lt, UInt64.ofNat_toNat]

theorem paddedNumber_of_parseField {field : FileName} {value : UInt64}
    (h : parseField field = some value) (hlen : field.length = 20) : paddedNumber value = field := by
  obtain ⟨n, hn, h⟩ := Option.bind_eq_some_iff.mp h
  split at h
  · rename_i hlt
    cases h
    have hprint := (Decimal.print_of_parse hn).1
    rw [paddedNumber, UInt64.toNat_ofNat', Nat.mod_eq_of_lt hlt, ← hlen]
    exact hprint
  · cases h

theorem length_manifestStem : manifestStem.length = 9 := by decide
theorem length_binSuffix : binSuffix.length = 4 := by decide
theorem length_blockStem : blockStem.length = 6 := by decide
theorem length_incarnationSeparator : incarnationSeparator.length = 5 := by decide
theorem length_epochSeparator : epochSeparator.length = 7 := by decide

/-- A field at a known offset: skip what is before it, keep its length. -/
theorem take_drop_append (before after : FileName) {field name : FileName} {offset width : ℕ}
    (hname : name = before ++ (field ++ after)) (hbefore : before.length = offset)
    (hfield : field.length = width) : (name.drop offset).take width = field := by
  rw [hname, List.drop_left' hbefore, List.take_left' hfield]

theorem take_append_drop_take {name : FileName} (offset width : ℕ) :
    name.drop offset = (name.drop offset).take width ++ name.drop (offset + width) := by
  rw [← List.drop_drop, List.take_append_drop]

/-- The parser of manifest names accepts exactly the printed names. -/
theorem parseManifestSequence_iff {name : FileName} {sequence : UInt64} :
    parseManifestSequence name = some sequence ↔ name = manifestName sequence := by
  constructor
  · intro h
    unfold parseManifestSequence at h
    split at h
    · cases h
    · rename_i hshape
      simp only [ne_eq, not_or, not_not] at hshape
      obtain ⟨hlen, hfirst, hlast⟩ := hshape
      have hfield : ((name.drop 9).take 20).length = 20 := by
        rw [List.length_take, List.length_drop, hlen]
        rfl
      have hend : name.drop (9 + 20) = binSuffix := by
        rw [← hlast, List.take_of_length_le (by rw [List.length_drop, hlen])]
      calc name = name.take 9 ++ name.drop 9 := (List.take_append_drop 9 name).symm
        _ = manifestStem ++ (paddedNumber sequence ++ binSuffix) := by
          rw [hfirst, take_append_drop_take 9 20, hend, paddedNumber_of_parseField h hfield]
  · rintro rfl
    have hlen : (manifestName sequence).length = 9 + 20 + 4 := by
      rw [manifestName, List.length_append, List.length_append, length_manifestStem,
        length_paddedNumber, length_binSuffix]
    have hfirst : (manifestName sequence).take 9 = manifestStem :=
      List.take_left' length_manifestStem
    have hfield := take_drop_append _ _ (rfl : manifestName sequence = _) length_manifestStem
      (length_paddedNumber sequence)
    have hlast : ((manifestName sequence).drop (9 + 20)).take 4 = binSuffix := by
      refine take_drop_append (manifestStem ++ paddedNumber sequence) [] ?_ ?_
        length_binSuffix
      · rw [List.append_nil, List.append_assoc]; rfl
      · rw [List.length_append, length_manifestStem, length_paddedNumber]
    rw [parseManifestSequence, if_neg, hfield, parseField_paddedNumber]
    rw [hlen, hfirst, hlast]
    simp only [ne_eq, not_true_eq_false, or_self, not_false_eq_true]

theorem manifestName_injective {a b : UInt64} (h : manifestName a = manifestName b) : a = b := by
  have ha := parseManifestSequence_iff.mpr h
  rw [parseManifestSequence_iff.mpr rfl] at ha
  exact Option.some.inj ha

/-- What the name of a block result records of a block. -/
def ScenarioBlock.attempt (block : ScenarioBlock) : ScenarioBlock :=
  { block with startScenario := 0, endScenario := 0 }

/-- The parser of block-result names accepts exactly the printed names. -/
theorem parseBlockResultFilename_iff {name : FileName} {block : ScenarioBlock} :
    parseBlockResultFilename name = some block ↔
      name = blockName block ∧ block.attempt = block := by
  constructor
  · intro h
    simp only [parseBlockResultFilename] at h
    split at h
    · cases h
    · rename_i hshape
      simp only [ne_eq, not_or, not_not] at hshape
      obtain ⟨hlen, hstem, hinc, hepoch, hlast⟩ := hshape
      obtain ⟨id, hid, h⟩ := Option.bind_eq_some_iff.mp h
      obtain ⟨inc, hincField, h⟩ := Option.bind_eq_some_iff.mp h
      obtain ⟨epoch, hepochField, h⟩ := Option.bind_eq_some_iff.mp h
      cases h
      refine ⟨?_, rfl⟩
      have hwidth : ∀ offset, offset + 20 ≤ 82 → ((name.drop offset).take 20).length = 20 := by
        intro offset ho
        rw [List.length_take, List.length_drop, hlen]
        omega
      have hend : name.drop (6 + 20 + 5 + 20 + 7 + 20) = binSuffix := by
        rw [← hlast, List.take_of_length_le (by rw [List.length_drop, hlen])]
      calc name = name.take 6 ++ name.drop 6 := (List.take_append_drop 6 name).symm
        _ = _ := by
          rw [hstem, take_append_drop_take 6 20, take_append_drop_take (6 + 20) 5, hinc,
            take_append_drop_take (6 + 20 + 5) 20, take_append_drop_take (6 + 20 + 5 + 20) 7, hepoch,
            take_append_drop_take (6 + 20 + 5 + 20 + 7) 20, hend,
            ← paddedNumber_of_parseField hid (hwidth 6 (by norm_num)),
            ← paddedNumber_of_parseField hincField (hwidth _ (by norm_num)),
            ← paddedNumber_of_parseField hepochField (hwidth _ (by norm_num))]
          rfl
  · rintro ⟨rfl, hattempt⟩
    have hlen : (blockName block).length = 6 + 20 + 5 + 20 + 7 + 20 + 4 := by
      simp only [blockName, List.length_append, length_blockStem, length_paddedNumber,
        length_incarnationSeparator, length_epochSeparator, length_binSuffix]
    have hstem : (blockName block).take 6 = blockStem := List.take_left' length_blockStem
    have hid := take_drop_append _ _ (rfl : blockName block = _) length_blockStem
      (length_paddedNumber block.blockId)
    have hinc : ((blockName block).drop (6 + 20)).take 5 = incarnationSeparator := by
      refine take_drop_append (blockStem ++ paddedNumber block.blockId)
        (paddedNumber block.runIncarnation ++ (epochSeparator
          ++ (paddedNumber block.leaseEpoch ++ binSuffix))) ?_ ?_ length_incarnationSeparator
      · simp only [blockName, List.append_assoc]
      · simp only [List.length_append, length_blockStem, length_paddedNumber]
    have hincField : ((blockName block).drop (6 + 20 + 5)).take 20
        = paddedNumber block.runIncarnation := by
      refine take_drop_append (blockStem ++ (paddedNumber block.blockId
        ++ incarnationSeparator)) (epochSeparator
          ++ (paddedNumber block.leaseEpoch ++ binSuffix)) ?_ ?_ (length_paddedNumber _)
      · simp only [blockName, List.append_assoc]
      · simp only [List.length_append, length_blockStem, length_paddedNumber,
          length_incarnationSeparator]
    have hepoch : ((blockName block).drop (6 + 20 + 5 + 20)).take 7 = epochSeparator := by
      refine take_drop_append (blockStem ++ (paddedNumber block.blockId
        ++ (incarnationSeparator ++ paddedNumber block.runIncarnation)))
        (paddedNumber block.leaseEpoch ++ binSuffix) ?_ ?_ length_epochSeparator
      · simp only [blockName, List.append_assoc]
      · simp only [List.length_append, length_blockStem, length_paddedNumber,
          length_incarnationSeparator]
    have hepochField : ((blockName block).drop (6 + 20 + 5 + 20 + 7)).take 20
        = paddedNumber block.leaseEpoch := by
      refine take_drop_append (blockStem ++ (paddedNumber block.blockId
        ++ (incarnationSeparator ++ (paddedNumber block.runIncarnation ++ epochSeparator))))
        (binSuffix) ?_ ?_ (length_paddedNumber _)
      · simp only [blockName, List.append_assoc]
      · simp only [List.length_append, length_blockStem, length_paddedNumber,
          length_incarnationSeparator, length_epochSeparator]
    have hlast : ((blockName block).drop (6 + 20 + 5 + 20 + 7 + 20)).take 4 = binSuffix := by
      refine take_drop_append (blockStem ++ (paddedNumber block.blockId
        ++ (incarnationSeparator ++ (paddedNumber block.runIncarnation ++ (epochSeparator
        ++ paddedNumber block.leaseEpoch))))) [] ?_ ?_ length_binSuffix
      · simp only [blockName, List.append_assoc, List.append_nil]
      · simp only [List.length_append, length_blockStem, length_paddedNumber,
          length_incarnationSeparator, length_epochSeparator]
    simp only [parseBlockResultFilename]
    rw [if_neg, hid, hincField, hepochField, parseField_paddedNumber, parseField_paddedNumber,
      parseField_paddedNumber]
    · exact congrArg some hattempt
    · rw [hlen, hstem, hinc, hepoch, hlast]
      simp only [ne_eq, not_true_eq_false, or_self, not_false_eq_true]

/-- A block-result name determines block, incarnation and lease. -/
theorem blockName_injective {a b : ScenarioBlock} (h : blockName a = blockName b) :
    a.attempt = b.attempt := by
  have hparse : ∀ c : ScenarioBlock, parseBlockResultFilename (blockName c) = some c.attempt :=
    fun c => parseBlockResultFilename_iff.mpr ⟨rfl, rfl⟩
  have ha := hparse a
  rw [h, hparse b] at ha
  exact (Option.some.inj ha).symm

end MonteCarlo
