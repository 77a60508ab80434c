import MonteCarlo.Store.Directory

/-!
# Loading in an arbitrary environment

`load_latest_valid_manifest` skips a candidate it finds invalid, and a listing can be cut short.
Whatever the environment does, a manifest that is loaded is on disk with all its results.

* `Strict` — programs that cannot return after a call has failed.
* `Strict.eval` — what a strict program returns is what the files hold.
* `Scanned` — what can be said of the candidates, however the listing ends.
* `Loads` — what can be said of the loaded manifest and of the highest sequence number seen.
* `wp_loadLatestValidManifest` — the loader.
-/

namespace MonteCarlo

open Effects Effects.Program

/-! ## Strict programs -/

/-- A program that throws whenever one of its calls reports an error. -/
def Strict {α : Type} : Prog α → Prop
  | .done _ => True
  | .fail _ => True
  | .call _ next => (∀ e, Returns (fun _ => False) (next (.error e))) ∧ ∀ reply, Strict (next reply)

section Strict

variable {α β : Type}

theorem strict_pure (a : α) : Strict (pure a : Prog α) := trivial

theorem strict_throw (e : Exception) : Strict (throw e : Prog α) := trivial

theorem strict_ofExcept (x : Result α) : Strict (Program.ofExcept x : Prog α) := by
  cases x <;> trivial

theorem Strict.bind {p : Prog α} {f : α → Prog β} (hp : Strict p) (hf : ∀ a, Strict (f a)) :
    Strict (p >>= f) := by
  induction p with
  | done a => exact hf a
  | fail e => trivial
  | call op next ih =>
    exact ⟨fun e => returns_bind (hp.1 e) fun _ h => h.elim, fun reply => ih reply (hp.2 reply)⟩

/-- A handler that throws again. -/
theorem Strict.tryCatch {p : Prog α} {f : Exception → Prog α} (hp : Strict p)
    (hf : ∀ e, Strict (f e) ∧ Returns (fun _ => False) (f e)) :
    Strict (MonadExcept.tryCatch p f) := by
  induction p with
  | done a => trivial
  | fail e => exact (hf e).1
  | call op next ih =>
    exact ⟨fun e => returns_tryCatch (hp.1 e) fun e => (hf e).2, fun reply => ih reply (hp.2 reply)⟩

theorem strict_callOr (op : Op) (error : Errno → Exception) : Strict (callOr op error) := by
  refine ⟨fun e => trivial, fun reply => ?_⟩
  cases reply <;> trivial

/-- What it returns is what the files hold. -/
theorem Strict.eval {env : Environment} {p : Prog α} (hp : Strict p) (honly : Only Op.Reads p)
    {world after : World} {a : α} (hrun : run env.handle p world = (.ok a, after)) :
    Program.eval world.disk.reply p = .ok a := by
  induction p generalizing world with
  | done b => exact congrArg Prod.fst hrun
  | fail e => cases hrun
  | call op next ih =>
    change run env.handle (next (env.handle op world).1) (env.handle op world).2 = _ at hrun
    cases herror : env.ioError world.clock op with
    | some e =>
      have hreply : (env.handle op world).1 = .error e := by
        simp only [Environment.handle, herror]
      rw [hreply] at hrun
      exact ((hp.1 e).run hrun).elim
    | none =>
      rw [Environment.handle_reads honly.1 herror] at hrun
      have hnext := ih _ (hp.2 _) (honly.2 _) hrun
      exact hnext

theorem strict_readFile (config : RunStoreConfig) (path : Path) (maximumSize : UInt64)
    (kind : SizeLimitKind) : Strict (readFile config path maximumSize kind) := by
  refine (strict_callOr _ _).bind fun size => ?_
  split
  · exact strict_throw _
  · refine (strict_callOr _ _).bind fun _ => (strict_callOr _ _).bind fun bytes => ?_
    split
    · exact strict_throw _
    · exact strict_pure _

theorem strict_readEntryRecord (config : RunStoreConfig) (path : Path) :
    Strict (readEntryRecord config path) := by
  refine ((strict_readFile _ _ _ _).bind fun _ => strict_ofExcept _).tryCatch fun e => ?_
  split
  · exact ⟨strict_throw _, returns_throw _⟩
  · exact ⟨strict_throw _, returns_throw _⟩

theorem strict_loadEntries (config : RunStoreConfig) (manifest : RunManifest)
    (metadata : RunMetadata) (canonical : List ScenarioBlock) (entries : List ManifestEntry)
    (results : List (Option BlockResult)) :
    Strict (loadEntries config manifest metadata canonical entries results) := by
  induction entries generalizing results with
  | nil => exact strict_pure _
  | cons entry rest ih =>
    exact (strict_readEntryRecord _ _).bind fun _ => (strict_ofExcept _).bind fun _ => ih _

theorem strict_loadCandidate (engineConfig : EngineConfig) (config : RunStoreConfig)
    (metadata : RunMetadata) (candidate : UInt64 × Path) :
    Strict (loadCandidate engineConfig config metadata candidate) := by
  refine (strict_readFile _ _ _ _).bind fun bytes => (strict_ofExcept _).bind fun manifest => ?_
  refine (strict_ofExcept _).bind fun _ => (strict_ofExcept _).bind fun canonical => ?_
  refine (strict_loadEntries _ _ _ _ _ _).bind fun results => ?_
  exact (strict_ofExcept _).bind fun _ => strict_pure _

end Strict

/-! ## The candidates -/

section Load

variable {env : Environment} {engineConfig : EngineConfig} {config : RunStoreConfig}
  {metadata : RunMetadata} {canonical : List ScenarioBlock}

/-- The scan of the manifest directory: the candidates of what it has seen. -/
theorem wp_scanManifests {world : World} :
    Wp env.handle (fun now => now.disk = world.disk) (fun outcome _ => ∀ candidates,
        outcome = .ok candidates → ∃ seen : List Path,
          candidates = seen.foldl world.disk.addCandidate ⟨false, 0, []⟩ ∧
          (∀ path ∈ seen, path ∈ world.disk.entries .manifests) ∧
          (env.ListsAll .manifests → seen.Perm (world.disk.entries .manifests)))
      scanManifests world := by
  refine (wp_scan (R := fun seen acc now => now.disk = world.disk ∧
      acc = seen.foldl world.disk.addCandidate ⟨false, 0, []⟩) (D := fun _ _ => False)
    (fun _ _ _ h => h.1) (fun seen acc path now hlists hnow => ?_)
    (fun _ _ _ next hdisk h => ⟨hdisk.trans h.1, h.2⟩) ⟨false, 0, []⟩ ⟨rfl, rfl⟩).mono
    (fun _ h => h) fun outcome after _ hends candidates hcandidates => ?_
  · obtain ⟨hdisk, rfl⟩ := hnow
    refine wp_isRegularFile_bind (fun after hafter => hafter.trans hdisk)
      (fun after hafter => ?_) fun _ _ _ => ⟨nofun, nofun⟩
    have hafter' : after.disk = world.disk := hafter.trans hdisk
    have hyield : ∀ {acc : Candidates}, acc = world.disk.addCandidate
        (seen.foldl world.disk.addCandidate ⟨false, 0, []⟩) path →
        Wp env.handle (fun now => now.disk = world.disk) (AfterBody (fun acc now =>
            now.disk = world.disk ∧
              acc = (seen ++ [path]).foldl world.disk.addCandidate ⟨false, 0, []⟩) fun _ _ => False)
          (pure (.yield acc)) after := by
      rintro acc rfl
      refine wp_pure hafter' ⟨fun acc hacc => ⟨hafter', ?_⟩, nofun⟩
      cases hacc
      rw [List.foldl_append]
      rfl
    rw [hdisk]
    cases hregular : (world.disk.file path).isSome with
    | false =>
      refine hyield ?_
      simp only [Disk.addCandidate, Disk.candidate, hregular]
      rfl
    | true =>
      cases hparse : parseManifestSequence path.name with
      | none =>
        refine hyield ?_
        simp only [Disk.addCandidate, Disk.candidate, hregular, hparse]
        rfl
      | some sequence =>
        refine hyield ?_
        simp only [Disk.addCandidate, Disk.candidate, hregular, hparse]
        rfl
  · rcases hends candidates hcandidates with hdone | ⟨seen, ⟨-, hseen⟩, hmem, hperm⟩
    · exact hdone.elim
    · exact ⟨seen, hseen, hmem, hperm⟩

/-- A candidate that is loaded is on disk with all its results. -/
theorem run_tryCandidates_ok {files : List (UInt64 × Path)} {lastError message : String}
    {world after : World} {snapshot : LoadedManifest}
    (hrun : run env.handle (tryCandidates engineConfig config metadata files lastError) world =
      (.ok (some snapshot, message), after)) :
    ∃ candidate ∈ files, eval world.disk.reply
      (loadCandidate engineConfig config metadata candidate) = .ok snapshot := by
  induction files generalizing lastError world with
  | nil => cases hrun
  | cons candidate rest ih =>
    obtain ⟨outcome, tried, htry, hrun⟩ := run_bind_eq_ok hrun
    have hdisk : tried.disk = world.disk := by
      have hsame := visits_reads (only_tryCandidate engineConfig config metadata candidate)
        (visits_final env.handle _ world)
      rw [htry] at hsame
      exact hsame.1
    cases outcome with
    | skipped text =>
      obtain ⟨other, hother, heval⟩ := ih hrun
      rw [hdisk] at heval
      exact ⟨other, List.mem_cons_of_mem _ hother, heval⟩
    | loaded found =>
      obtain rfl : found = snapshot :=
        Option.some.inj (Prod.mk.inj (Except.ok.inj (Prod.mk.inj hrun).1)).1
      refine ⟨candidate, List.mem_cons_self, ?_⟩
      rw [tryCandidate, run_tryCatch, run_bind] at htry
      rcases hload : run env.handle (loadCandidate engineConfig config metadata candidate) world
        with ⟨e | result, last⟩
      · rw [hload] at htry
        dsimp only at htry
        split at htry
        · cases htry
        · cases htry
      · rw [hload] at htry
        obtain rfl : result = found := by
          simpa using (Prod.mk.inj htry).1
        exact (strict_loadCandidate _ _ _ _).eval (only_loadCandidate _ _ _ _) hload

/-- The maximum of the scan is one of the numbers, and no smaller than any. -/
theorem foldl_maxOfWords_spec (words : List UInt64) (first : UInt64) :
    (words.foldl maxOfWords first = first ∨ words.foldl maxOfWords first ∈ words) ∧
      first ≤ words.foldl maxOfWords first ∧
      ∀ word ∈ words, word ≤ words.foldl maxOfWords first := by
  induction words generalizing first with
  | nil => exact ⟨Or.inl rfl, UInt64.le_refl _, nofun⟩
  | cons word rest ih =>
    rw [List.foldl_cons]
    obtain ⟨hmem, hfirst, hrest⟩ := ih (maxOfWords first word)
    have hmax := maxOfWords_toNat first word
    simp only [UInt64.le_iff_toNat_le] at hfirst hrest ⊢
    refine ⟨?_, by omega, fun other hother => ?_⟩
    · rcases hmem with hmem | hmem
      · rw [hmem]
        unfold maxOfWords
        split
        · exact Or.inr List.mem_cons_self
        · exact Or.inl rfl
      · exact Or.inr (List.mem_cons_of_mem _ hmem)
    · rcases List.mem_cons.mp hother with rfl | hother
      · omega
      · exact hrest other hother

/-- The maximum of some numbers is one of them. -/
theorem foldl_maxOfWords_mem {words : List UInt64} (hne : words ≠ []) :
    words.foldl maxOfWords 0 ∈ words := by
  obtain ⟨hmem, -, hle⟩ := foldl_maxOfWords_spec words 0
  rcases hmem with hzero | hmem
  · obtain ⟨word, hword⟩ := List.exists_mem_of_ne_nil _ hne
    have hle' := hle word hword
    rw [hzero, UInt64.le_iff_toNat_le] at hle'
    have hword0 : word = 0 := UInt64.toNat_inj.mp (Nat.le_zero.mp hle')
    rw [hzero, ← hword0]
    exact hword
  · exact hmem

/-- What a scan of the manifest directory comes by. -/
structure Scanned (env : Environment) (disk : Disk) (candidates : Candidates) : Prop where
  /-- A candidate is a manifest under its own name. -/
  named : ∀ c ∈ candidates.files, c.2 = manifestPathFor c.1 ∧
    (disk.file (manifestPathFor c.1)).isSome
  /-- None is above the highest sequence number. -/
  le : ∀ c ∈ candidates.files, c.1 ≤ candidates.highestSequenceSeen
  /-- A complete listing shows every manifest. -/
  complete : env.ListsAll .manifests → ∀ sequence, (disk.file (manifestPathFor sequence)).isSome →
    candidates.sawManifestFile = true ∧ (sequence, manifestPathFor sequence) ∈ candidates.files
  /-- The highest sequence number is that of a candidate. -/
  highest : candidates.sawManifestFile = true →
    ∃ c ∈ candidates.files, c.1 = candidates.highestSequenceSeen

/-- The candidates of a part of the listing. -/
theorem scanned_of_seen {disk : Disk} {seen : List Path}
    (hlisted : ∀ path ∈ seen, path ∈ disk.entries .manifests)
    (hperm : env.ListsAll .manifests → seen.Perm (disk.entries .manifests)) :
    Scanned env disk (seen.foldl disk.addCandidate ⟨false, 0, []⟩) := by
  rw [foldl_addCandidate]
  simp only [Bool.false_or, List.nil_append]
  refine ⟨fun c hc => ?_, fun c hc => ?_, fun hall sequence hsome => ?_, fun hsaw => ?_⟩
  · obtain ⟨path, hpath, hsome⟩ := List.mem_filterMap.mp hc
    obtain ⟨hfile, hpath', hname⟩ := Disk.candidate_eq_some.mp hsome
    have hdir : path.dir = .manifests :=
      of_decide_eq_true (Disk.mem_entries.mp (hlisted path hpath)).2
    have heq : path = manifestPathFor c.1 := by
      obtain ⟨dir, name⟩ := path
      obtain rfl : dir = .manifests := hdir
      obtain rfl : name = manifestName c.1 := hname
      rfl
    exact ⟨hpath'.trans heq, heq ▸ hfile⟩
  · exact (foldl_maxOfWords_spec _ 0).2.2 _ (List.mem_map_of_mem hc)
  · have hmem : (sequence, manifestPathFor sequence) ∈ seen.filterMap disk.candidate :=
      List.mem_filterMap.mpr ⟨manifestPathFor sequence,
        (hperm hall).mem_iff.mpr (Disk.mem_entries.mpr ⟨Disk.isSome_lookup hsome, rfl⟩),
        Disk.candidate_eq_some.mpr ⟨hsome, rfl, rfl⟩⟩
    exact ⟨by simpa using List.ne_nil_of_mem hmem, hmem⟩
  · have hne : (seen.filterMap disk.candidate).map (·.1) ≠ [] := by
      simpa using hsaw
    exact List.mem_map.mp (foldl_maxOfWords_mem hne)

/-- The scan, in an arbitrary environment. -/
theorem scanned_of_run {world scanned : World} {candidates : Candidates}
    (h : run env.handle scanManifests world = (.ok candidates, scanned)) :
    scanned.disk = world.disk ∧ Scanned env world.disk candidates := by
  have hwp := @wp_scanManifests env world
  have hfinal := hwp.final
  have hpost := hwp.post
  rw [h] at hfinal hpost
  obtain ⟨seen, rfl, hlisted, hperm⟩ := hpost candidates rfl
  exact ⟨hfinal, scanned_of_seen hlisted hperm⟩

/-- What can be said of a loaded manifest. -/
structure Loads (env : Environment) (config : RunStoreConfig) (metadata : RunMetadata)
    (canonical : List ScenarioBlock) (disk : Disk) (load : LoadResult) : Prop where
  /-- It is on disk, with its results, and its reduction agrees. -/
  qualifies : ∀ snapshot ∈ load.loaded, snapshot.manifest.sequence ≤ load.highestSequenceSeen ∧
    Qualifies disk config metadata canonical snapshot.manifest.sequence snapshot
  /-- A complete listing shows every manifest. -/
  seen : env.ListsAll .manifests → ∀ sequence, (disk.file (manifestPathFor sequence)).isSome →
    load.sawManifestFile = true ∧ sequence ≤ load.highestSequenceSeen
  /-- The highest sequence number is that of a manifest. -/
  shown : load.sawManifestFile = true →
    (disk.file (manifestPathFor load.highestSequenceSeen)).isSome
  /-- When no call fails, the loaded manifest is the highest one that qualifies. -/
  highest : env.Quiet → ∀ sequence snapshot,
    Qualifies disk config metadata canonical sequence snapshot →
      ∃ top ∈ load.loaded, sequence ≤ top.manifest.sequence
  /-- When no call fails, the manifests from the loaded one on are within the limit. -/
  admits : env.Quiet → ∀ sequence bytes, disk.file (manifestPathFor sequence) = some bytes →
    (∀ top ∈ load.loaded, top.manifest.sequence ≤ sequence) →
      bytes.length ≤ config.maxManifestBytes.toNat

/-- Entries name lasting files. -/
theorem lasting_entryPath (block : ScenarioBlock) (entry : ManifestEntry) :
    (entryPath block entry).Lasting :=
  lasting_blockPathFor _

theorem Qualifies.of_same {disk now : Disk} (hsame : disk.Same now) {sequence : UInt64}
    {snapshot : LoadedManifest} (h : Qualifies now config metadata canonical sequence snapshot) :
    Qualifies disk config metadata canonical sequence snapshot := by
  refine ⟨⟨?_, h.sequence_eq, h.identity, h.results.length_eq, fun entry hentry => ?_,
    h.results.missing⟩, h.reduction⟩
  · rw [← hsame.file (lasting_manifestPathFor _)]
    exact h.file
  · obtain ⟨result, hresult, bytes, record, hfile, hrecord⟩ := h.results.committed entry hentry
    rw [hsame.file (lasting_entryPath _ _)] at hfile
    exact ⟨result, hresult, bytes, record, hfile, hrecord⟩

theorem Loads.of_same {disk now : Disk} (hsame : disk.Same now) {load : LoadResult}
    (h : Loads env config metadata canonical now load) :
    Loads env config metadata canonical disk load where
  qualifies snapshot hsnapshot :=
    ⟨(h.qualifies snapshot hsnapshot).1, (h.qualifies snapshot hsnapshot).2.of_same hsame⟩
  seen hall sequence hsome := by
    rw [← hsame.file (lasting_manifestPathFor _)] at hsome
    exact h.seen hall sequence hsome
  shown hsaw := by
    rw [← hsame.file (lasting_manifestPathFor _)]
    exact h.shown hsaw
  highest hquiet sequence snapshot hqualifies :=
    h.highest hquiet sequence snapshot (hqualifies.of_same hsame.symm)
  admits hquiet sequence bytes hfile hle := by
    rw [← hsame.file (lasting_manifestPathFor _)] at hfile
    exact h.admits hquiet sequence bytes hfile hle

/-- A candidate that does not end the loop is within the limit for manifests: the error of a larger
file is not caught. -/
theorem length_of_tryCandidate {disk : Disk} {sequence : UInt64} {bytes : Bytes}
    {outcome : CandidateOutcome}
    (h : eval disk.reply (tryCandidate engineConfig config metadata
      (sequence, manifestPathFor sequence)) = .ok outcome)
    (hfile : disk.file (manifestPathFor sequence) = some bytes) :
    bytes.length ≤ config.maxManifestBytes.toNat := by
  by_contra hlarge
  have hcontents : disk.contents config (manifestPathFor sequence) config.maxManifestBytes
      .operatorPolicy = .error (sizeLimitError .operatorPolicy
        ((manifestPathFor sequence).text config.runDirectory)) := by
    unfold Disk.file at hfile
    unfold Disk.contents
    split at hfile
    · rename_i found hlookup
      cases hfile
      rw [hlookup]
      exact if_pos (Nat.not_le.mp hlarge)
    · cases hfile
  rw [tryCandidate, eval_tryCatch, eval_bind, loadCandidate, eval_bind, eval_readFile,
    hcontents] at h
  cases h

variable (hblocks : makeBlocks metadata.spec engineConfig = .ok canonical)
  (hcount : canonical.length = metadata.blockCount.toNat)
include hblocks hcount

/-- A candidate that is skipped when no call fails is invalid. -/
theorem invalid_of_skipped {disk : Disk} {candidate : UInt64 × Path} {message : String}
    (hpath : candidate.2 = manifestPathFor candidate.1)
    (h : eval disk.reply (tryCandidate engineConfig config metadata candidate) =
      .ok (.skipped message)) (snapshot : LoadedManifest) :
    ¬ Qualifies disk config metadata canonical candidate.1 snapshot := by
  intro hqualifies
  obtain ⟨sequence, path⟩ := candidate
  obtain rfl : path = manifestPathFor sequence := hpath
  rw [tryCandidate, eval_tryCatch, eval_bind,
    (eval_loadCandidate_ok hblocks hcount).mpr hqualifies] at h
  cases h

/-- A candidate that is loaded when no call fails carries its number. -/
theorem sequence_of_tryCandidate {disk : Disk} {sequence : UInt64} {found : LoadedManifest}
    (h : eval disk.reply (tryCandidate engineConfig config metadata
      (sequence, manifestPathFor sequence)) = .ok (.loaded found)) :
    found.manifest.sequence = sequence := by
  rw [tryCandidate, eval_tryCatch, eval_bind] at h
  rcases hload : eval disk.reply (loadCandidate engineConfig config metadata
    (sequence, manifestPathFor sequence)) with e | result
  · rw [hload, Result.error_bind] at h
    dsimp only at h
    split at h
    · cases h
    · cases h
  · rw [hload, Result.ok_bind] at h
    cases h
    exact ((eval_loadCandidate_ok hblocks hcount).mp hload).sequence_eq

/-- Without failing calls, nothing above the loaded candidate qualifies. -/
theorem eval_tryCandidates_highest {disk : Disk} {files : List (UInt64 × Path)}
    {lastError message : String} {loaded : Option LoadedManifest}
    (hpaths : ∀ c ∈ files, c.2 = manifestPathFor c.1)
    (hsorted : files.Pairwise fun left right => right.1 < left.1)
    (h : eval disk.reply (tryCandidates engineConfig config metadata files lastError) =
      .ok (loaded, message)) {c : UInt64 × Path} (hc : c ∈ files) {snapshot : LoadedManifest}
    (hqualifies : Qualifies disk config metadata canonical c.1 snapshot) :
    ∃ top ∈ loaded, c.1 ≤ top.manifest.sequence := by
  induction files generalizing lastError with
  | nil => cases hc
  | cons first rest ih =>
    rw [tryCandidates, eval_bind] at h
    obtain ⟨outcome, htry, h⟩ := Result.bind_eq_ok.mp h
    cases outcome with
    | skipped text =>
      rcases List.mem_cons.mp hc with rfl | hc
      · exact absurd hqualifies
          (invalid_of_skipped hblocks hcount (hpaths _ List.mem_cons_self) htry snapshot)
      · exact ih (fun c hc => hpaths c (List.mem_cons_of_mem _ hc)) hsorted.of_cons h hc
    | loaded found =>
      obtain rfl : loaded = some found := (Prod.mk.inj (Except.ok.inj h)).1.symm
      obtain ⟨sequence, path⟩ := first
      obtain rfl : path = manifestPathFor sequence := hpaths _ List.mem_cons_self
      refine ⟨found, rfl, ?_⟩
      rw [sequence_of_tryCandidate hblocks hcount htry]
      rcases List.mem_cons.mp hc with rfl | hc
      · exact UInt64.le_refl _
      · exact UInt64.le_of_lt ((List.pairwise_cons.mp hsorted).1 c hc)

/-- Without failing calls, everything from the loaded candidate on is within the limit. -/
theorem eval_tryCandidates_admits {disk : Disk} {files : List (UInt64 × Path)}
    {lastError message : String} {loaded : Option LoadedManifest}
    (hpaths : ∀ c ∈ files, c.2 = manifestPathFor c.1)
    (hsorted : files.Pairwise fun left right => right.1 < left.1)
    (h : eval disk.reply (tryCandidates engineConfig config metadata files lastError) =
      .ok (loaded, message)) {c : UInt64 × Path} (hc : c ∈ files) {bytes : Bytes}
    (hfile : disk.file (manifestPathFor c.1) = some bytes)
    (hle : ∀ top ∈ loaded, top.manifest.sequence ≤ c.1) :
    bytes.length ≤ config.maxManifestBytes.toNat := by
  induction files generalizing lastError with
  | nil => cases hc
  | cons first rest ih =>
    obtain ⟨sequence, path⟩ := first
    obtain rfl : path = manifestPathFor sequence := hpaths _ List.mem_cons_self
    rw [tryCandidates, eval_bind] at h
    obtain ⟨outcome, htry, h⟩ := Result.bind_eq_ok.mp h
    rcases List.mem_cons.mp hc with rfl | hrest
    · exact length_of_tryCandidate htry hfile
    · cases outcome with
      | skipped text =>
        exact ih (fun c hc => hpaths c (List.mem_cons_of_mem _ hc)) hsorted.of_cons h hrest
      | loaded found =>
        obtain rfl : loaded = some found := (Prod.mk.inj (Except.ok.inj h)).1.symm
        have hfound := (sequence_of_tryCandidate hblocks hcount htry).symm ▸ hle found rfl
        exact absurd ((List.pairwise_cons.mp hsorted).1 c hrest) (UInt64.not_lt.mpr hfound)

/-- The loader. -/
theorem wp_loadLatestValidManifest {world : World} :
    Wp env.handle (fun now => now.disk = world.disk)
      (fun outcome _ => ∀ load, outcome = .ok load →
        Loads env config metadata canonical world.disk load)
      (loadLatestValidManifest engineConfig config metadata) world := by
  have hkeeps : Only Op.Keeps (loadLatestValidManifest engineConfig config metadata) :=
    only_loadLatestValidManifest trivial trivial (fun op hop => by cases op <;> trivial) _ _ _
  refine ⟨fun now hnow => (preserves_keeps hkeeps world.disk world rfl).visits hnow,
    fun load hload => ?_⟩
  have hrun : run env.handle (loadLatestValidManifest engineConfig config metadata) world =
      (.ok load, (run env.handle (loadLatestValidManifest engineConfig config metadata) world).2) :=
    Prod.ext hload rfl
  obtain ⟨candidates, scanned, hscan, hrest⟩ := run_bind_eq_ok hrun
  obtain ⟨⟨loaded, message⟩, tried, htry, hpure⟩ := run_bind_eq_ok hrest
  obtain rfl : load = ⟨loaded, candidates.sawManifestFile, candidates.highestSequenceSeen, message⟩ :=
    (Except.ok.inj (Prod.mk.inj hpure).1).symm
  obtain ⟨hdisk, hscanned⟩ := scanned_of_run hscan
  -- when no call fails, the candidates are those of the disk
  have heval : env.Quiet → ∃ text, eval world.disk.reply
      (tryCandidates engineConfig config metadata world.disk.candidates "") = .ok (loaded, text) := by
    intro hquiet
    have hresult := (run_loadLatestValidManifest hquiet engineConfig config metadata world).1
    rw [hload] at hresult
    obtain ⟨⟨found, text⟩, hfound, hpure⟩ := Result.bind_eq_ok.mp hresult.symm
    obtain rfl : found = loaded := congrArg LoadResult.loaded (Except.ok.inj hpure)
    exact ⟨text, hfound⟩
  have hpaths : ∀ c ∈ world.disk.candidates, c.2 = manifestPathFor c.1 := fun c hc =>
    (Disk.mem_candidates.mp hc).1
  refine ⟨fun snapshot hsnapshot => ?_, fun hall sequence hsome => ?_, fun hsaw => ?_,
    fun hquiet sequence snapshot hqualifies => ?_, fun hquiet sequence bytes hfile hle => ?_⟩
  · obtain rfl : loaded = some snapshot := hsnapshot
    obtain ⟨c, hc, heval⟩ := run_tryCandidates_ok htry
    have hmem := (List.perm_insertionSort _ _).mem_iff.mp hc
    rw [hdisk] at heval
    have hle := hscanned.le c hmem
    obtain ⟨number, path⟩ := c
    obtain rfl : path = manifestPathFor number := (hscanned.named _ hmem).1
    have hqualifies := (eval_loadCandidate_ok hblocks hcount).mp heval
    rw [hqualifies.sequence_eq]
    exact ⟨hle, hqualifies⟩
  · obtain ⟨hsaw, hmem⟩ := hscanned.complete hall sequence hsome
    exact ⟨hsaw, hscanned.le _ hmem⟩
  · obtain ⟨c, hc, hsequence⟩ := hscanned.highest hsaw
    rw [← hsequence]
    exact (hscanned.named c hc).2
  · obtain ⟨text, htext⟩ := heval hquiet
    exact eval_tryCandidates_highest hblocks hcount hpaths world.disk.candidates_pairwise htext
      hqualifies.toLoadable.mem_candidates hqualifies
  · obtain ⟨text, htext⟩ := heval hquiet
    have hmem : (sequence, manifestPathFor sequence) ∈ world.disk.candidates :=
      Disk.mem_candidates.mpr ⟨rfl, by rw [hfile]; rfl⟩
    exact eval_tryCandidates_admits hblocks hcount hpaths world.disk.candidates_pairwise htext hmem
      hfile hle

end Load

end MonteCarlo
