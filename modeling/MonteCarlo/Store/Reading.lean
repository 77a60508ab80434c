import MonteCarlo.Persistence.Accepted
import MonteCarlo.Store.RunStore

/-!
# What the store reads

The reading half of the store changes nothing: its operations answer from the files alone
(`Op.Reads`, `Disk.reply`), so a program made of them is a function of the disk
(`run_reads`).  The functions that select a manifest are described here by what they find:

* `Disk.contents`, `eval_readFile` — `read_file`;
* `ResultOf`, `CommittedResults` — the block results that a manifest names, as they are on
  disk; `eval_loadEntries` says that the entry loop returns exactly those;
* `Qualifies` — the rules a manifest file has to meet to be recovered from;
* `eval_loadCandidate_ok`, `eval_loadCandidate_error` — the loader accepts exactly the
  qualifying files, and refuses every other one with `InvalidDurableArtifact`, except one whose
  reduction throws.
-/

namespace MonteCarlo

open Effects Effects.Program

/-! ## Asking operations -/

/-- The operations that answer from the files and change nothing. -/
def Op.Reads : Op → Prop
  | .isRegularFile _ | .entryFileSize _ | .exists_ _ | .fileSize _ | .openRead _ | .read _ => True
  | _ => False

/-- An environment in which every call succeeds, listings are in the order of the disk and
writes are whole. -/
def Environment.idle : Environment where
  ioError := fun _ _ => none
  order := fun _ paths => ⟨paths, .refl _⟩
  writeCount := fun _ => 2 ^ 64
  available := fun _ => maxWord
  device := fun _ => 0
  processId := 0

/-- No call reports an error, and a `write` accepts at least one byte. -/
structure Environment.Faultless (env : Environment) : Prop where
  ioError : ∀ time op, env.ioError time op = none
  writeCount : ∀ time, 0 < env.writeCount time

theorem Environment.idle_faultless : Environment.idle.Faultless :=
  ⟨fun _ _ => rfl, fun _ => by simp [idle]⟩

/-- What the files answer. -/
def Disk.reply (disk : Disk) (op : Op) : Reply op := Environment.idle.answer ⟨disk, 0, 0⟩ op

/-- Two worlds that differ at most in time. -/
def World.SameFiles (before after : World) : Prop :=
  after.disk = before.disk ∧ after.nonce = before.nonce

theorem World.SameFiles.refl (world : World) : world.SameFiles world := ⟨rfl, rfl⟩

theorem World.SameFiles.trans {first second third : World} (h : first.SameFiles second)
    (h' : second.SameFiles third) : first.SameFiles third :=
  ⟨h'.1.trans h.1, h'.2.trans h.2⟩

/-- An asking operation that does not fail. -/
theorem Environment.handle_reads {env : Environment} {world : World} {op : Op} (h : op.Reads)
    (hquiet : env.ioError world.clock op = none) :
    env.handle op world = (world.disk.reply op, { world with clock := world.clock + 1 }) := by
  unfold handle
  rw [hquiet]
  cases op <;> first | rfl | exact absurd h id

/-- An asking operation changes nothing, whether it fails or not. -/
theorem Environment.sameFiles_reads (env : Environment) (world : World) {op : Op} (h : op.Reads) :
    world.SameFiles (env.handle op world).2 := by
  unfold handle
  split
  · exact ⟨rfl, rfl⟩
  · cases op <;> first | exact ⟨rfl, rfl⟩ | exact absurd h id

section Asking

variable {env : Environment} {α : Type} {p : Prog α} {world world' : World}

theorem visits_reads (hp : Only Op.Reads p) (hv : Visits env.handle p world world') :
    world.SameFiles world' :=
  hp.visits (J := world.SameFiles) (fun _ now hop hnow => hnow.trans (env.sameFiles_reads now hop))
    (.refl world) hv

/-- A program of asking operations is a function of the files, as long as none of its calls
fails. -/
theorem run_reads (hp : Only Op.Reads p)
    (hquiet : ∀ time op, op.Reads → env.ioError time op = none) :
    (run env.handle p world).1 = eval world.disk.reply p := by
  refine (hp.run_eq_eval (J := world.SameFiles) ?_ (.refl world)).1
  intro op now hop hnow
  rw [Environment.handle_reads hop (hquiet _ _ hop)]
  exact ⟨by rw [hnow.1], hnow.1, hnow.2⟩

end Asking

/-! ## Files -/

theorem only_callOr {P : Op → Prop} {op : Op} (h : P op) (error : Errno → Exception) :
    Only P (callOr op error) := by
  refine only_bind (only_perform h) fun reply => ?_
  cases reply with
  | ok answer => exact only_pure _
  | error e => exact only_throw _

@[simp] theorem eval_callOr (reply : (op : Op) → Reply op) (op : Op) (error : Errno → Exception) :
    eval reply (callOr op error) =
      match reply op with
      | .ok answer => .ok answer
      | .error e => .error (error e) := by
  rw [callOr, eval_bind, call, eval_perform]
  change eval reply (match reply op with
    | .ok answer => pure answer
    | .error e => throw (error e)) = _
  cases reply op <;> rfl

theorem only_readFile (config : RunStoreConfig) (path : Path) (maximumSize : UInt64)
    (kind : SizeLimitKind) : Only Op.Reads (readFile config path maximumSize kind) := by
  refine only_bind (only_callOr trivial _) fun size => ?_
  split
  · exact only_throw _
  · refine only_bind (only_callOr trivial _) fun _ => ?_
    refine only_bind (only_callOr trivial _) fun bytes => ?_
    split
    · exact only_throw _
    · exact only_pure _

/-- `read_file`, as a function of the files. -/
def Disk.contents (disk : Disk) (config : RunStoreConfig) (path : Path) (maximumSize : UInt64)
    (kind : SizeLimitKind) : Result Bytes :=
  let text := path.text config.runDirectory
  match disk.lookup path with
  | none => .error (statError text .noEntry)
  | some .special => .error (statError text .notRegular)
  | some (.regular bytes) =>
    if maximumSize.toNat < bytes.length then .error (sizeLimitError kind text) else .ok bytes

theorem eval_readFile (disk : Disk) (config : RunStoreConfig) (path : Path) (maximumSize : UInt64)
    (kind : SizeLimitKind) :
    eval disk.reply (readFile config path maximumSize kind) =
      disk.contents config path maximumSize kind := by
  have hsize := eval_callOr disk.reply (.fileSize path) (statError (path.text config.runDirectory))
  have hopen := eval_callOr disk.reply (.openRead path) fun _ => ⟨.runtimeError, .readFile,
    "cannot open durable file for reading: " ++ path.text config.runDirectory⟩
  have hread := eval_callOr disk.reply (.read path) fun _ => invalidArtifact .readFile
    ("short or changing durable file read: " ++ path.text config.runDirectory)
  simp only [readFile, eval_bind]
  rw [hsize]
  simp only [Disk.reply, Environment.answer, Disk.size, Disk.contents] at hopen hread ⊢
  cases hlookup : disk.lookup path with
  | none => rfl
  | some node =>
    cases node with
    | special => rfl
    | regular bytes =>
      rw [hlookup] at hopen hread
      simp only [Result.ok_bind]
      split
      · rfl
      · rw [eval_bind]
        rw [hopen]
        simp only [Option.isSome_some, ↓reduceIte, Result.ok_bind]
        rw [eval_bind]
        rw [hread]
        simp

/-- What a successful read has found. -/
theorem Disk.contents_eq_ok {disk : Disk} {config : RunStoreConfig} {path : Path}
    {maximumSize : UInt64} {kind : SizeLimitKind} {bytes : Bytes} :
    disk.contents config path maximumSize kind = .ok bytes ↔
      disk.file path = some bytes ∧ bytes.length ≤ maximumSize.toNat := by
  unfold contents file
  cases disk.lookup path with
  | none => simp
  | some node =>
    cases node with
    | special => simp
    | regular found =>
      by_cases hlong : maximumSize.toNat < found.length
      · simp only [hlong, ↓reduceIte, reduceCtorEq, Option.some.injEq, false_iff, not_and, not_le]
        rintro rfl
        exact hlong
      · simp only [hlong, ↓reduceIte, Except.ok.injEq, Option.some.injEq]
        constructor
        · rintro rfl
          exact ⟨rfl, not_lt.mp hlong⟩
        · exact fun h => h.1

/-! ## Block results that a manifest names -/

section Snapshot

variable {engineConfig : EngineConfig} {config : RunStoreConfig} {metadata : RunMetadata}
  {manifest : RunManifest} {canonical : List ScenarioBlock} {disk : Disk}

theorem only_readEntryRecord (config : RunStoreConfig) (path : Path) :
    Only Op.Reads (readEntryRecord config path) := by
  refine only_tryCatch (only_bind (only_readFile _ _ _ _) fun _ => only_ofExcept _) fun e => ?_
  split
  · exact only_throw _
  · exact only_throw _

/-- The record of an entry is read and decoded. -/
theorem eval_readEntryRecord_ok {path : Path} {record : DurableBlockRecord} :
    eval disk.reply (readEntryRecord config path) = .ok record ↔
      ∃ bytes, disk.file path = some bytes ∧ bytes.length ≤ 4096 ∧
        decodeBlockRecord bytes = .ok record := by
  rw [readEntryRecord, eval_tryCatch, eval_bind, eval_readFile]
  constructor
  · intro h
    split at h
    · rename_i found hfound
      cases h
      obtain ⟨bytes, hbytes, hdecode⟩ := Result.bind_eq_ok.mp hfound
      obtain ⟨hfile, hlength⟩ := Disk.contents_eq_ok.mp hbytes
      exact ⟨bytes, hfile, hlength, by simpa using hdecode⟩
    · split at h <;> cases h
  · rintro ⟨bytes, hfile, hlength, hdecode⟩
    have hcontents : disk.contents config path 4096 .schema = .ok bytes :=
      Disk.contents_eq_ok.mpr ⟨hfile, hlength⟩
    rw [hcontents, Result.ok_bind, eval_ofExcept, hdecode]

/-- Whatever goes wrong with the file of an entry makes the manifest invalid. -/
theorem eval_readEntryRecord_error {path : Path} {e : Exception}
    (h : eval disk.reply (readEntryRecord config path) = .error e) :
    e.type = .invalidDurableArtifact := by
  rw [readEntryRecord, eval_tryCatch] at h
  split at h
  · cases h
  · split at h
    · cases h; assumption
    · cases h; rfl

/-- `result` is the result that `entry` names, as it is on disk. -/
def ResultOf (disk : Disk) (metadata : RunMetadata) (canonical : List ScenarioBlock)
    (manifest : RunManifest) (entry : ManifestEntry) (result : BlockResult) : Prop :=
  let block := canonical.getD entry.blockId.toNat .default
  ∃ bytes record, disk.file (entryPath block entry) = some bytes ∧ bytes.length ≤ 4096 ∧
    decodeBlockRecord bytes = .ok record ∧
    checkEntryRecord manifest metadata block entry record = .ok () ∧ result = record.result

theorem ResultOf.unique {entry : ManifestEntry} {first second : BlockResult}
    (h : ResultOf disk metadata canonical manifest entry first)
    (h' : ResultOf disk metadata canonical manifest entry second) : first = second := by
  obtain ⟨bytes, record, hfile, -, hdecode, -, rfl⟩ := h
  obtain ⟨bytes', record', hfile', -, hdecode', -, rfl⟩ := h'
  rw [hfile] at hfile'
  cases hfile'
  rw [hdecode] at hdecode'
  cases hdecode'
  rfl

/-- The results at the positions of their entries. -/
def placeResults (results : List (Option BlockResult)) :
    List ManifestEntry → List BlockResult → List (Option BlockResult)
  | entry :: entries, result :: rest =>
    placeResults (results.set entry.blockId.toNat (some result)) entries rest
  | _, _ => results

/-- The entry loop loads the result of every entry, in order. -/
theorem eval_loadEntries_ok {entries : List ManifestEntry}
    {results loaded : List (Option BlockResult)} :
    eval disk.reply (loadEntries config manifest metadata canonical entries results) = .ok loaded ↔
      ∃ found, List.Forall₂ (ResultOf disk metadata canonical manifest) entries found ∧
        loaded = placeResults results entries found := by
  induction entries generalizing results with
  | nil =>
    rw [loadEntries, eval_pure]
    constructor
    · intro h
      cases h
      exact ⟨[], .nil, rfl⟩
    · rintro ⟨found, hfound, rfl⟩
      cases hfound
      rfl
  | cons entry entries ih =>
    rw [loadEntries, eval_bind]
    constructor
    · intro h
      obtain ⟨record, hrecord, h⟩ := Result.bind_eq_ok.mp h
      rw [eval_bind, eval_ofExcept] at h
      obtain ⟨⟨⟩, hcheck, h⟩ := Result.bind_eq_ok.mp h
      obtain ⟨bytes, hfile, hlength, hdecode⟩ := eval_readEntryRecord_ok.mp hrecord
      obtain ⟨found, hfound, rfl⟩ := ih.mp h
      exact ⟨record.result :: found,
        .cons ⟨bytes, record, hfile, hlength, hdecode, hcheck, rfl⟩ hfound, rfl⟩
    · rintro ⟨found, hfound, rfl⟩
      cases hfound with
      | cons hhead htail =>
        obtain ⟨bytes, record, hfile, hlength, hdecode, hcheck, rfl⟩ := hhead
        rw [eval_readEntryRecord_ok.mpr ⟨bytes, hfile, hlength, hdecode⟩, Result.ok_bind, eval_bind,
          eval_ofExcept, hcheck, Result.ok_bind]
        exact ih.mpr ⟨_, htail, rfl⟩

theorem checkEntryRecord_error {block : ScenarioBlock} {entry : ManifestEntry}
    {record : DurableBlockRecord} {e : Exception}
    (h : checkEntryRecord manifest metadata block entry record = .error e) :
    e.type = .invalidDurableArtifact := by
  rcases Result.bind_eq_error.mp h with h | ⟨_, -, h⟩
  · rw [(throwIf_eq_error.mp h).2]
    rfl
  · rcases Result.bind_eq_error.mp h with h | ⟨_, -, h⟩
    · rw [(throwIf_eq_error.mp h).2]
      rfl
    · split at h
      · cases h; rfl
      · cases h

/-- Whatever the entry loop throws makes the manifest invalid. -/
theorem eval_loadEntries_error {entries : List ManifestEntry}
    {results : List (Option BlockResult)} {e : Exception}
    (h : eval disk.reply (loadEntries config manifest metadata canonical entries results) =
      .error e) : e.type = .invalidDurableArtifact := by
  induction entries generalizing results with
  | nil => cases h
  | cons entry entries ih =>
    rw [loadEntries, eval_bind] at h
    rcases Result.bind_eq_error.mp h with h | ⟨record, -, h⟩
    · exact eval_readEntryRecord_error h
    · rw [eval_bind, eval_ofExcept] at h
      rcases Result.bind_eq_error.mp h with h | ⟨_, -, h⟩
      · exact checkEntryRecord_error h
      · exact ih h

/-- Distinct entries keep their results in place. -/
theorem placeResults_spec {entries : List ManifestEntry} {found : List BlockResult}
    {R : ManifestEntry → BlockResult → Prop} (hfound : List.Forall₂ R entries found) :
    ∀ (results : List (Option BlockResult)),
      entries.Pairwise (fun x y => x.blockId.toNat ≠ y.blockId.toNat) →
      (∀ entry ∈ entries, entry.blockId.toNat < results.length) →
      (placeResults results entries found).length = results.length ∧
      (∀ entry ∈ entries, ∃ result, (placeResults results entries found)[entry.blockId.toNat]? =
        some (some result) ∧ R entry result) ∧
      ∀ i : ℕ, (∀ entry ∈ entries, entry.blockId.toNat ≠ i) →
        (placeResults results entries found)[i]? = results[i]? := by
  induction hfound with
  | nil => intro results _ _; simp [placeResults]
  | @cons entry result entries found hhead htail ih =>
    intro results hpairwise hbound
    obtain ⟨hne, hpairwise⟩ := List.pairwise_cons.mp hpairwise
    obtain ⟨hlength, hplaced, hother⟩ := ih (results.set entry.blockId.toNat (some result)) hpairwise
      (by simpa using fun e he => hbound e (List.mem_cons_of_mem _ he))
    rw [placeResults]
    refine ⟨by simpa using hlength, ?_, ?_⟩
    · intro e he
      rcases List.mem_cons.mp he with rfl | he
      · refine ⟨result, ?_, hhead⟩
        rw [hother e.blockId.toNat (fun other hmem => (hne other hmem).symm),
          List.getElem?_set_self (hbound e List.mem_cons_self)]
      · exact hplaced e he
    · intro i hi
      rw [hother i (fun e he => hi e (List.mem_cons_of_mem _ he)),
        List.getElem?_set_ne (hi entry List.mem_cons_self)]

/-- The committed results of a manifest as they are on disk: one for each entry, at the
position of its block, and none elsewhere. -/
structure CommittedResults (disk : Disk) (metadata : RunMetadata) (canonical : List ScenarioBlock)
    (manifest : RunManifest) (results : List (Option BlockResult)) : Prop where
  length_eq : results.length = canonical.length
  committed : ∀ entry ∈ manifest.committedBlocks, ∃ result,
    results[entry.blockId.toNat]? = some (some result) ∧
      ResultOf disk metadata canonical manifest entry result
  missing : ∀ i < canonical.length,
    (∀ entry ∈ manifest.committedBlocks, entry.blockId.toNat ≠ i) → results[i]? = some none

theorem CommittedResults.unique {first second : List (Option BlockResult)}
    (h : CommittedResults disk metadata canonical manifest first)
    (h' : CommittedResults disk metadata canonical manifest second) : first = second := by
  apply List.ext_getElem?
  intro i
  by_cases hentry : ∃ entry ∈ manifest.committedBlocks, entry.blockId.toNat = i
  · obtain ⟨entry, hmem, rfl⟩ := hentry
    obtain ⟨result, hget, hresult⟩ := h.committed entry hmem
    obtain ⟨result', hget', hresult'⟩ := h'.committed entry hmem
    rw [hget, hget', hresult.unique hresult']
  · push Not at hentry
    by_cases hi : i < canonical.length
    · rw [h.missing i hi hentry, h'.missing i hi hentry]
    · rw [List.getElem?_eq_none (by rw [h.length_eq]; omega),
        List.getElem?_eq_none (by rw [h'.length_eq]; omega)]

theorem forall₂_of_forall {A B : Type} {R : A → B → Prop} {l : List A}
    (h : ∀ a ∈ l, ∃ b, R a b) : ∃ found, List.Forall₂ R l found := by
  induction l with
  | nil => exact ⟨[], .nil⟩
  | cons a l ih =>
    obtain ⟨b, hb⟩ := h a List.mem_cons_self
    obtain ⟨found, hfound⟩ := ih fun x hx => h x (List.mem_cons_of_mem _ hx)
    exact ⟨b :: found, .cons hb hfound⟩

/-- The entry loop of a well-formed manifest returns exactly its committed results. -/
theorem eval_loadEntries (hm : AcceptedManifest manifest)
    (hcount : canonical.length = manifest.blockCount.toNat)
    {results : List (Option BlockResult)} :
    eval disk.reply (loadEntries config manifest metadata canonical manifest.committedBlocks
        (List.replicate canonical.length none)) = .ok results ↔
      CommittedResults disk metadata canonical manifest results := by
  obtain ⟨-, hpairwise, hbound⟩ := checkEntries_pairwise hm.entries
  have hdistinct : manifest.committedBlocks.Pairwise
      (fun x y => x.blockId.toNat ≠ y.blockId.toNat) :=
    hpairwise.imp fun hlt => (UInt64.lt_iff_toNat_lt.mp hlt).ne
  have hinside : ∀ entry ∈ manifest.committedBlocks, entry.blockId.toNat <
      (List.replicate canonical.length (none : Option BlockResult)).length := by
    intro entry hentry
    rw [List.length_replicate, hcount]
    exact UInt64.lt_iff_toNat_lt.mp (hbound entry hentry)
  have hplaced : ∀ {found : List BlockResult},
      List.Forall₂ (ResultOf disk metadata canonical manifest) manifest.committedBlocks found →
      CommittedResults disk metadata canonical manifest
        (placeResults (List.replicate canonical.length none) manifest.committedBlocks found) := by
    intro found hfound
    obtain ⟨hlength, hcommitted, hother⟩ := placeResults_spec hfound _ hdistinct hinside
    refine ⟨by simpa using hlength, hcommitted, ?_⟩
    intro i hi hnot
    rw [hother i hnot, List.getElem?_replicate, if_pos hi]
  rw [eval_loadEntries_ok]
  constructor
  · rintro ⟨found, hfound, rfl⟩
    exact hplaced hfound
  · intro hresults
    obtain ⟨found, hfound⟩ := forall₂_of_forall fun entry hentry =>
      (hresults.committed entry hentry).imp fun _ h => h.2
    exact ⟨found, hfound, hresults.unique (hplaced hfound)⟩

/-! ## Manifest files -/

/-- Everything the loader checks of the manifest file with a sequence number, up to the
reduction of its results. -/
structure Loadable (disk : Disk) (config : RunStoreConfig) (metadata : RunMetadata)
    (canonical : List ScenarioBlock) (sequence : UInt64) (snapshot : LoadedManifest) : Prop where
  file : ∃ bytes, disk.file (manifestPathFor sequence) = some bytes ∧
    bytes.length ≤ config.maxManifestBytes.toNat ∧
    decodeManifest bytes config.maxManifestBytes = .ok snapshot.manifest
  sequence_eq : snapshot.manifest.sequence = sequence
  identity : checkIdentity snapshot.manifest metadata = .ok ()
  results : CommittedResults disk metadata canonical snapshot.manifest snapshot.results

/-- The file decodes, carries its sequence number, matches the metadata, names only results
that decode and match, and its aggregate is their reduction, bit by bit. -/
structure Qualifies (disk : Disk) (config : RunStoreConfig) (metadata : RunMetadata)
    (canonical : List ScenarioBlock) (sequence : UInt64) (snapshot : LoadedManifest) : Prop
    extends Loadable disk config metadata canonical sequence snapshot where
  reduction : reduceBlockResults (leavesOf snapshot.results) =
    .ok snapshot.manifest.committedAggregate

/-- The file passes every check up to a reduction that throws. -/
def ReductionThrows (disk : Disk) (config : RunStoreConfig) (metadata : RunMetadata)
    (canonical : List ScenarioBlock) (sequence : UInt64) : Prop :=
  ∃ snapshot, Loadable disk config metadata canonical sequence snapshot ∧
    ∃ e, reduceBlockResults (leavesOf snapshot.results) = .error e

theorem Loadable.unique {sequence : UInt64} {first second : LoadedManifest}
    (h : Loadable disk config metadata canonical sequence first)
    (h' : Loadable disk config metadata canonical sequence second) : first = second := by
  obtain ⟨manifest, results⟩ := first
  obtain ⟨manifest', results'⟩ := second
  obtain ⟨bytes, hfile, -, hdecode⟩ := h.file
  obtain ⟨bytes', hfile', -, hdecode'⟩ := h'.file
  rw [hfile] at hfile'
  cases hfile'
  rw [hdecode] at hdecode'
  cases hdecode'
  rw [LoadedManifest.mk.injEq]
  exact ⟨rfl, h.results.unique h'.results⟩

/-- The block count of a manifest that matches the metadata. -/
theorem blockCount_of_checkIdentity (h : checkIdentity manifest metadata = .ok ()) :
    manifest.blockCount = metadata.blockCount := by
  simp only [checkIdentity, throwIf_eq_ok, Bool.or_eq_false_iff, decide_eq_false_iff_not, ne_eq,
    not_not] at h
  exact h.2

/-- A well-formed complete manifest has a result for every block. -/
theorem CommittedResults.complete {results : List (Option BlockResult)}
    (h : CommittedResults disk metadata canonical manifest results)
    (hm : AcceptedManifest manifest) (hcount : canonical.length = manifest.blockCount.toNat)
    (hstatus : manifest.status = .complete) : results.any (·.isNone) = false := by
  obtain ⟨-, hpairwise, hbound⟩ := checkEntries_pairwise hm.entries
  have hnodup : (manifest.committedBlocks.map fun e => e.blockId.toNat).Nodup := by
    rw [List.Nodup, List.pairwise_map]
    exact hpairwise.imp fun hlt => (UInt64.lt_iff_toNat_lt.mp hlt).ne
  have hsub : (manifest.committedBlocks.map fun e => e.blockId.toNat) ⊆
      List.range manifest.blockCount.toNat := by
    intro i hi
    obtain ⟨e, he, rfl⟩ := List.mem_map.mp hi
    exact List.mem_range.mpr (UInt64.lt_iff_toNat_lt.mp (hbound e he))
  -- as many distinct block numbers below the count as there are blocks: all of them
  have hperm : (manifest.committedBlocks.map fun e => e.blockId.toNat).Perm
      (List.range manifest.blockCount.toNat) :=
    (hnodup.subperm hsub).perm_of_length_le (by simp [hm.complete hstatus])
  rw [List.any_eq_false]
  intro result hresult
  obtain ⟨i, hi, rfl⟩ := List.mem_iff_getElem.mp hresult
  have hmem : i ∈ manifest.committedBlocks.map fun e => e.blockId.toNat := by
    rw [hperm.mem_iff, List.mem_range, ← hcount, ← h.length_eq]
    exact hi
  obtain ⟨entry, hentry, rfl⟩ := List.mem_map.mp hmem
  obtain ⟨found, hget, -⟩ := h.committed entry hentry
  rw [List.getElem?_eq_getElem hi] at hget
  simp [Option.some.inj hget]

theorem decodeCandidate_eq_ok {sequence : UInt64} {bytes : Bytes} :
    decodeCandidate config sequence bytes = .ok manifest ↔
      decodeManifest bytes config.maxManifestBytes = .ok manifest ∧
        manifest.sequence = sequence := by
  unfold decodeCandidate
  cases decodeManifest bytes config.maxManifestBytes with
  | error e => simp [Result.mapError]
  | ok decoded =>
    by_cases hsequence : decoded.sequence = sequence
    · simp only [Result.mapError, hsequence, ne_eq, not_true_eq_false, decide_false, throwIf_false,
        Result.ok_bind]
      constructor
      · intro h
        cases h
        exact ⟨rfl, hsequence⟩
      · rintro ⟨h, -⟩
        cases h
        rfl
    · simp only [Result.mapError, hsequence, ne_eq, not_false_eq_true, decide_true, throwIf_true,
        Result.ok_bind, Result.error_bind, reduceCtorEq, Except.ok.injEq, false_iff, not_and]
      rintro rfl
      exact hsequence

theorem decodeCandidate_error {sequence : UInt64} {bytes : Bytes} {e : Exception}
    (h : decodeCandidate config sequence bytes = .error e) : e.type = .invalidDurableArtifact := by
  unfold decodeCandidate at h
  rcases Result.bind_eq_error.mp h with h | ⟨_, -, h⟩
  · cases hdecode : decodeManifest bytes config.maxManifestBytes with
    | ok decoded => rw [hdecode] at h; cases h
    | error e' => rw [hdecode] at h; cases h; rfl
  · rcases Result.bind_eq_error.mp h with h | ⟨_, -, h⟩
    · rw [(throwIf_eq_error.mp h).2]
      rfl
    · cases h

section Candidate

variable (hblocks : makeBlocks metadata.spec engineConfig = .ok canonical)
  (hcount : canonical.length = metadata.blockCount.toNat)
include hblocks hcount

/-- `validate_manifest_snapshot` accepts a well-formed manifest whose results reduce to its
aggregate, and returns those results. -/
theorem eval_validateManifestSnapshot_ok (hm : AcceptedManifest manifest)
    {snapshot : LoadedManifest} :
    eval disk.reply (validateManifestSnapshot engineConfig config manifest metadata) =
        .ok snapshot ↔
      snapshot.manifest = manifest ∧ checkIdentity manifest metadata = .ok () ∧
        CommittedResults disk metadata canonical manifest snapshot.results ∧
        reduceBlockResults (leavesOf snapshot.results) = .ok manifest.committedAggregate := by
  rw [validateManifestSnapshot, eval_bind, eval_ofExcept]
  constructor
  · intro h
    obtain ⟨⟨⟩, hidentity, h⟩ := Result.bind_eq_ok.mp h
    have hlength := hcount.trans
      (congrArg UInt64.toNat (blockCount_of_checkIdentity hidentity)).symm
    rw [eval_bind, eval_ofExcept, hblocks, Result.ok_bind, eval_bind] at h
    obtain ⟨results, hresults, h⟩ := Result.bind_eq_ok.mp h
    rw [eval_bind, eval_ofExcept] at h
    obtain ⟨⟨⟩, hreduction, h⟩ := Result.bind_eq_ok.mp h
    cases h
    obtain ⟨reduced, hreduced, hreduction⟩ := Result.bind_eq_ok.mp hreduction
    obtain ⟨⟨⟩, hequal, -⟩ := Result.bind_eq_ok.mp hreduction
    rw [throwIf_eq_ok, Bool.not_eq_false', AggregateStats.aggregatesEqual_iff] at hequal
    exact ⟨rfl, hidentity, (eval_loadEntries hm hlength).mp hresults, hequal ▸ hreduced⟩
  · rintro ⟨rfl, hidentity, hresults, hreduction⟩
    have hlength := hcount.trans
      (congrArg UInt64.toNat (blockCount_of_checkIdentity hidentity)).symm
    have hequal : AggregateStats.aggregatesEqual snapshot.manifest.committedAggregate
        snapshot.manifest.committedAggregate = true := by simp
    have hcomplete : (decide (snapshot.manifest.status = .complete)
        && snapshot.results.any (·.isNone)) = false := by
      by_cases hstatus : snapshot.manifest.status = .complete
      · rw [hresults.complete hm hlength hstatus, Bool.and_false]
      · simp [hstatus]
    rw [hidentity, Result.ok_bind, eval_bind, eval_ofExcept, hblocks, Result.ok_bind, eval_bind,
      (eval_loadEntries hm hlength).mpr hresults, Result.ok_bind, eval_bind, eval_ofExcept,
      checkReduction, hreduction, Result.ok_bind, hequal, Bool.not_true, throwIf_false,
      Result.ok_bind, hcomplete]
    rfl

/-- What `validate_manifest_snapshot` throws is `InvalidDurableArtifact`, unless a reduction
throws. -/
theorem eval_validateManifestSnapshot_error (hm : AcceptedManifest manifest) {e : Exception}
    (h : eval disk.reply (validateManifestSnapshot engineConfig config manifest metadata) =
      .error e) :
    e.type = .invalidDurableArtifact ∨
      checkIdentity manifest metadata = .ok () ∧ ∃ results,
        CommittedResults disk metadata canonical manifest results ∧
        reduceBlockResults (leavesOf results) = .error e := by
  rw [validateManifestSnapshot, eval_bind, eval_ofExcept] at h
  rcases Result.bind_eq_error.mp h with h | ⟨⟨⟩, hidentity, h⟩
  · rw [(throwIf_eq_error.mp h).2]
    exact Or.inl rfl
  have hlength := hcount.trans
    (congrArg UInt64.toNat (blockCount_of_checkIdentity hidentity)).symm
  rw [eval_bind, eval_ofExcept, hblocks, Result.ok_bind, eval_bind] at h
  rcases Result.bind_eq_error.mp h with h | ⟨results, hresults, h⟩
  · exact Or.inl (eval_loadEntries_error h)
  rw [eval_bind, eval_ofExcept] at h
  rcases Result.bind_eq_error.mp h with h | ⟨_, -, h⟩
  · rcases Result.bind_eq_error.mp h with h | ⟨reduced, -, h⟩
    · exact Or.inr ⟨hidentity, results, (eval_loadEntries hm hlength).mp hresults, h⟩
    · left
      rcases Result.bind_eq_error.mp h with h | ⟨_, -, h⟩
      · rw [(throwIf_eq_error.mp h).2]
        rfl
      · rw [(throwIf_eq_error.mp h).2]
        rfl
  · cases h

/-- The loader accepts exactly the qualifying files. -/
theorem eval_loadCandidate_ok {sequence : UInt64} {snapshot : LoadedManifest} :
    eval disk.reply (loadCandidate engineConfig config metadata
        (sequence, manifestPathFor sequence)) = .ok snapshot ↔
      Qualifies disk config metadata canonical sequence snapshot := by
  rw [loadCandidate, eval_bind, eval_readFile]
  constructor
  · intro h
    obtain ⟨bytes, hbytes, h⟩ := Result.bind_eq_ok.mp h
    rw [eval_bind, eval_ofExcept] at h
    obtain ⟨manifest, hmanifest, h⟩ := Result.bind_eq_ok.mp h
    obtain ⟨hdecode, hsequence⟩ := decodeCandidate_eq_ok.mp hmanifest
    obtain ⟨hfile, hlength⟩ := Disk.contents_eq_ok.mp hbytes
    obtain ⟨rfl, hidentity, hresults, hreduction⟩ :=
      (eval_validateManifestSnapshot_ok hblocks hcount (decodeManifest_accepted hdecode)).mp h
    exact ⟨⟨⟨bytes, hfile, hlength, hdecode⟩, hsequence, hidentity, hresults⟩, hreduction⟩
  · rintro ⟨⟨⟨bytes, hfile, hlength, hdecode⟩, hsequence, hidentity, hresults⟩, hreduction⟩
    have hcontents : disk.contents config (manifestPathFor sequence) config.maxManifestBytes
        .operatorPolicy = .ok bytes := Disk.contents_eq_ok.mpr ⟨hfile, hlength⟩
    have hmanifest : decodeCandidate config sequence bytes = .ok snapshot.manifest :=
      decodeCandidate_eq_ok.mpr ⟨hdecode, hsequence⟩
    rw [hcontents, Result.ok_bind, eval_bind, eval_ofExcept, hmanifest, Result.ok_bind]
    exact (eval_validateManifestSnapshot_ok hblocks hcount (decodeManifest_accepted hdecode)).mpr
      ⟨rfl, hidentity, hresults, hreduction⟩

/-- A file of admissible size that the loader refuses: it is invalid, or its reduction throws. -/
theorem eval_loadCandidate_error {sequence : UInt64} {bytes : Bytes} {e : Exception}
    (hfile : disk.file (manifestPathFor sequence) = some bytes)
    (hlength : bytes.length ≤ config.maxManifestBytes.toNat)
    (h : eval disk.reply (loadCandidate engineConfig config metadata
      (sequence, manifestPathFor sequence)) = .error e) :
    e.type = .invalidDurableArtifact ∨
      e.type ≠ .invalidDurableArtifact ∧
        ReductionThrows disk config metadata canonical sequence := by
  have hcontents : disk.contents config (manifestPathFor sequence) config.maxManifestBytes
      .operatorPolicy = .ok bytes := Disk.contents_eq_ok.mpr ⟨hfile, hlength⟩
  rw [loadCandidate, eval_bind, eval_readFile, hcontents, Result.ok_bind, eval_bind,
    eval_ofExcept] at h
  rcases Result.bind_eq_error.mp h with h | ⟨manifest, hmanifest, h⟩
  · exact Or.inl (decodeCandidate_error h)
  · obtain ⟨hdecode, hsequence⟩ := decodeCandidate_eq_ok.mp hmanifest
    rcases eval_validateManifestSnapshot_error hblocks hcount (decodeManifest_accepted hdecode) h
      with htype | ⟨hidentity, results, hresults, hreduction⟩
    · exact Or.inl htype
    · exact Or.inr ⟨(reduceBlockResults_error hreduction).2, ⟨manifest, results⟩,
        ⟨⟨bytes, hfile, hlength, hdecode⟩, hsequence, hidentity, hresults⟩, e, hreduction⟩

end Candidate

end Snapshot

end MonteCarlo
