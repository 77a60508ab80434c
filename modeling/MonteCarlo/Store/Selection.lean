import MonteCarlo.Engine.Run
import MonteCarlo.Store.Snapshots

/-!
# Which manifest is selected

`load_latest_valid_manifest` as a function of the files.  The scan of the manifest directory
collects the files whose names are manifest names; whatever the order of the listing, they are
then tried from the highest sequence number down (`run_scanManifests`, `Disk.candidates`).

* `MetadataOf` — the metadata that `DurableRunStore::open` passes to the loader.
* `eval_tryCandidates` — the candidate loop: the first file that does not turn out to be invalid
  decides.
* `selectsHighest_iff` — the loader selects the highest qualifying manifest, and never throws,
  exactly when no manifest with a reduction that throws stands above every qualifying one.
-/

namespace MonteCarlo

open Effects Effects.Program

/-! ## Scans -/

/-- No call of the reading half fails: neither a listing nor a question about a file. -/
structure Environment.Quiet (env : Environment) : Prop where
  openScan : ∀ time site, env.ioError time (.openScan site) = none
  nextEntry : ∀ time site, env.ioError time (.nextEntry site) = none
  reads : ∀ time op, op.Reads → env.ioError time op = none

theorem Environment.Faultless.quiet {env : Environment} (h : env.Faultless) : env.Quiet :=
  ⟨fun _ _ => h.ioError _ _, fun _ _ => h.ioError _ _, fun _ _ _ => h.ioError _ _⟩

section Scan

variable {env : Environment} {α : Type} {site : ScanSite} {scanError : Errno → Exception}
  {body : α → Path → Prog (ForInStep α)} {f : α → Path → α} {world : World}

/-- A loop whose body only asks is a fold over the listing. -/
theorem run_scanFrom (hquiet : env.Quiet) (hbody : ∀ acc path, Only Op.Reads (body acc path))
    (hf : ∀ acc path, eval world.disk.reply (body acc path) = .ok (.yield (f acc path)))
    (entries : List Path) (acc : α) {now : World} (hnow : world.SameFiles now) :
    (run env.handle (scanFrom site scanError body none entries acc) now).1 =
        .ok (entries.foldl f acc) ∧
      world.SameFiles (run env.handle (scanFrom site scanError body none entries acc) now).2 := by
  induction entries generalizing acc now with
  | nil => exact ⟨rfl, hnow⟩
  | cons path rest ih =>
    have hreads : (run env.handle (body acc path) now).1 = .ok (.yield (f acc path)) := by
      rw [run_reads (hbody acc path) hquiet.reads, hnow.1, hf]
    have hsame := hnow.trans (visits_reads (hbody acc path) (visits_final env.handle _ now))
    rw [scanFrom, run_bind]
    generalize run env.handle (body acc path) now = outcome at hreads hsame
    obtain ⟨reply, after⟩ := outcome
    obtain rfl := hreads
    have hnext : run env.handle (call (.nextEntry site)) after =
        (.ok (.ok ()), { after with clock := after.clock + 1 }) := by
      rw [call, run_perform, Environment.handle, hquiet.nextEntry]
      rfl
    simp only [run_bind, hnext, List.foldl_cons]
    exact ih (f acc path) (hsame.trans ⟨rfl, rfl⟩)

theorem run_scan (site : ScanSite) (scanError : Errno → Exception) (hquiet : env.Quiet)
    (hbody : ∀ acc path, Only Op.Reads (body acc path))
    (hf : ∀ acc path, eval world.disk.reply (body acc path) = .ok (.yield (f acc path))) (acc : α) :
    ∃ listing : List Path, listing.Perm (world.disk.entries site) ∧
      (run env.handle (scan site scanError body acc) world).1 = .ok (listing.foldl f acc) ∧
      world.SameFiles (run env.handle (scan site scanError body acc) world).2 := by
  refine ⟨_, (env.order world.clock (world.disk.entries site)).property, ?_⟩
  have hopen : run env.handle (call (.openScan site)) world =
      (.ok (.ok (env.order world.clock (world.disk.entries site)).val),
        { world with clock := world.clock + 1 }) := by
    rw [call, run_perform, Environment.handle, hquiet.openScan]
    rfl
  rw [scan, run_bind, hopen]
  exact run_scanFrom hquiet hbody hf _ acc ⟨rfl, rfl⟩

end Scan

/-! ## Candidates -/

/-- The candidate that a path is, if it is one: a regular file with a manifest name. -/
def Disk.candidate (disk : Disk) (path : Path) : Option (UInt64 × Path) :=
  if (disk.file path).isSome then (parseManifestSequence path.name).map (·, path) else none

/-- The candidates of a disk, from the highest sequence number down. -/
def Disk.candidates (disk : Disk) : List (UInt64 × Path) :=
  sortCandidates ((disk.entries .manifests).filterMap disk.candidate)

/-- The loop body of the scan, without the calls. -/
def Disk.addCandidate (disk : Disk) (candidates : Candidates) (path : Path) : Candidates :=
  match disk.candidate path with
  | none => candidates
  | some (sequence, path) =>
    { sawManifestFile := true
      highestSequenceSeen := maxOfWords candidates.highestSequenceSeen sequence
      files := candidates.files ++ [(sequence, path)] }

theorem only_addCandidate (candidates : Candidates) (path : Path) :
    Only Op.Reads (addCandidate candidates path) := by
  refine only_bind (only_callOr trivial _) fun regular => ?_
  split
  · exact only_pure _
  · split <;> exact only_pure _

theorem eval_addCandidate (disk : Disk) (candidates : Candidates) (path : Path) :
    eval disk.reply (addCandidate candidates path) = .ok (.yield (disk.addCandidate candidates path)) := by
  have hregular := eval_callOr disk.reply (.isRegularFile path)
    (filesystemError .loadLatestValidManifest)
  rw [addCandidate, eval_bind, isRegularFile, hregular]
  simp only [Disk.reply, Environment.answer, Result.ok_bind, Disk.addCandidate, Disk.candidate]
  cases (disk.file path).isSome with
  | false => rfl
  | true => cases parseManifestSequence path.name <;> rfl

/-- What a scan collects: the candidates of the listing in their order, and their maximum. -/
theorem foldl_addCandidate (disk : Disk) (listing : List Path) (candidates : Candidates) :
    listing.foldl disk.addCandidate candidates =
      { sawManifestFile := candidates.sawManifestFile || !(listing.filterMap disk.candidate).isEmpty
        highestSequenceSeen := ((listing.filterMap disk.candidate).map (·.1)).foldl maxOfWords
          candidates.highestSequenceSeen
        files := candidates.files ++ listing.filterMap disk.candidate } := by
  induction listing generalizing candidates with
  | nil => simp
  | cons path rest ih =>
    rw [List.foldl_cons, ih]
    cases h : disk.candidate path with
    | none => simp [Disk.addCandidate, h]
    | some candidate => simp [Disk.addCandidate, h]

theorem Disk.candidate_eq_some {disk : Disk} {path : Path} {candidate : UInt64 × Path} :
    disk.candidate path = some candidate ↔
      (disk.file path).isSome ∧ candidate.2 = path ∧ path.name = manifestName candidate.1 := by
  obtain ⟨sequence, file⟩ := candidate
  unfold candidate
  split
  · rename_i hfile
    simp only [Option.map_eq_some_iff, Prod.mk.injEq, hfile, true_and]
    constructor
    · rintro ⟨found, hparse, rfl, rfl⟩
      exact ⟨rfl, parseManifestSequence_iff.mp hparse⟩
    · rintro ⟨rfl, hname⟩
      exact ⟨sequence, parseManifestSequence_iff.mpr hname, rfl, rfl⟩
  · simp_all

theorem Disk.mem_entries {disk : Disk} {site : ScanSite} {path : Path} :
    path ∈ disk.entries site ↔ (disk.lookup path).isSome ∧ site.lists path = true := by
  rw [entries, List.mem_filter, ← AList.mem_keys, AList.lookup_isSome]

theorem Disk.isSome_lookup {disk : Disk} {path : Path} (h : (disk.file path).isSome) :
    (disk.lookup path).isSome := by
  unfold file at h
  cases hlookup : disk.lookup path with
  | none => simp [hlookup] at h
  | some node => rfl

/-- The candidates are the manifest files. -/
theorem Disk.mem_candidates {disk : Disk} {candidate : UInt64 × Path} :
    candidate ∈ disk.candidates ↔
      candidate.2 = manifestPathFor candidate.1 ∧ (disk.file (manifestPathFor candidate.1)).isSome := by
  rw [candidates, sortCandidates, List.mem_insertionSort, List.mem_filterMap]
  constructor
  · rintro ⟨path, hmem, hcandidate⟩
    obtain ⟨hfile, rfl, hname⟩ := candidate_eq_some.mp hcandidate
    have hdir : candidate.2.dir = .manifests := by
      simpa [ScanSite.lists] using (mem_entries.mp hmem).2
    have hpath : candidate.2 = manifestPathFor candidate.1 := by
      rw [manifestPathFor, ← hname, ← hdir]
    exact ⟨hpath, hpath ▸ hfile⟩
  · rintro ⟨hpath, hfile⟩
    refine ⟨manifestPathFor candidate.1, mem_entries.mpr ⟨isSome_lookup hfile, by
      simp [ScanSite.lists, manifestPathFor]⟩, candidate_eq_some.mpr ⟨hfile, hpath, rfl⟩⟩

theorem pairwise_sortCandidates (files : List (UInt64 × Path)) :
    (sortCandidates files).Pairwise fun left right => right.1 ≤ left.1 := by
  have : Std.Total fun left right : UInt64 × Path => right.1 ≤ left.1 :=
    ⟨fun left right => UInt64.le_total right.1 left.1⟩
  have : IsTrans (UInt64 × Path) fun left right => right.1 ≤ left.1 :=
    ⟨fun _ _ _ h h' => UInt64.le_trans h' h⟩
  exact List.pairwise_insertionSort _ files

/-- Two candidates with the same number are the same. -/
theorem Disk.candidates_injective {disk : Disk} {left right : UInt64 × Path}
    (hleft : left ∈ disk.candidates) (hright : right ∈ disk.candidates) (h : left.1 = right.1) :
    left = right := by
  refine Prod.ext h ?_
  rw [(mem_candidates.mp hleft).1, (mem_candidates.mp hright).1, h]

/-- The order of the listing does not matter. -/
theorem Disk.sortCandidates_listing {disk : Disk} {listing : List Path}
    (h : listing.Perm (disk.entries .manifests)) :
    sortCandidates (listing.filterMap disk.candidate) = disk.candidates := by
  have hperm : (sortCandidates (listing.filterMap disk.candidate)).Perm disk.candidates :=
    (List.perm_insertionSort _ _).trans
      ((h.filterMap _).trans (List.perm_insertionSort _ _).symm)
  refine hperm.eq_of_pairwise ?_ (pairwise_sortCandidates _) (pairwise_sortCandidates _)
  intro left right hleft hright hle hge
  exact candidates_injective (hperm.mem_iff.mp hleft) hright (UInt64.le_antisymm hge hle)

/-- The candidates stand in strictly descending order. -/
theorem Disk.candidates_pairwise (disk : Disk) :
    disk.candidates.Pairwise fun left right => right.1 < left.1 := by
  have hnodup : disk.candidates.Nodup := by
    refine (List.perm_insertionSort _ _).nodup_iff.mpr ?_
    refine List.Nodup.filterMap ?_ (disk.nodupKeys.filter _)
    intro path path' candidate hpath hpath'
    rw [← (candidate_eq_some.mp hpath).2.1, (candidate_eq_some.mp hpath').2.1]
  have hsorted : disk.candidates.Pairwise fun left right => right.1 ≤ left.1 :=
    pairwise_sortCandidates _
  refine (hsorted.and hnodup).imp_of_mem ?_
  rintro left right hleft hright ⟨hle, hne⟩
  refine UInt64.lt_of_le_of_ne hle fun heq => hne ?_
  exact candidates_injective hleft hright heq.symm

/-- `highest_sequence_seen`. -/
def Disk.highestSequence (disk : Disk) : UInt64 := (disk.candidates.head?.map (·.1)).getD 0

theorem maxOfWords_toNat (x y : UInt64) : (maxOfWords x y).toNat = max x.toNat y.toNat := by
  unfold maxOfWords
  split
  · rename_i h
    rw [max_eq_right (UInt64.lt_iff_toNat_lt.mp h).le]
  · rename_i h
    rw [max_eq_left (UInt64.le_iff_toNat_le.mp (UInt64.not_lt.mp h))]

theorem foldl_maxOfWords_toNat (words : List UInt64) (first : UInt64) :
    (words.foldl maxOfWords first).toNat = (words.map UInt64.toNat).foldl max first.toNat := by
  induction words generalizing first with
  | nil => rfl
  | cons word rest ih => rw [List.foldl_cons, ih, maxOfWords_toNat, List.map_cons, List.foldl_cons]

/-- The maximum of the scan is the number of the first candidate. -/
theorem Disk.foldl_maxOfWords_listing {disk : Disk} {listing : List Path}
    (h : listing.Perm (disk.entries .manifests)) :
    ((listing.filterMap disk.candidate).map (·.1)).foldl maxOfWords 0 = disk.highestSequence := by
  have hperm : (listing.filterMap disk.candidate).Perm disk.candidates :=
    (h.filterMap _).trans (List.perm_insertionSort _ _).symm
  have hfold : ((listing.filterMap disk.candidate).map (·.1)).foldl maxOfWords 0 =
      (disk.candidates.map (·.1)).foldl maxOfWords 0 := by
    apply UInt64.toNat_inj.mp
    rw [foldl_maxOfWords_toNat, foldl_maxOfWords_toNat]
    exact (((hperm.map _).map _).foldl_eq _)
  have hrest : ∀ (rest : List (UInt64 × Path)) (top : UInt64), (∀ c ∈ rest, c.1 < top) →
      (rest.map (·.1)).foldl maxOfWords top = top := by
    intro rest
    induction rest with
    | nil => intro top _; rfl
    | cons c rest ih =>
      intro top htop
      have hc : maxOfWords top c.1 = top :=
        if_neg (UInt64.not_lt.mpr (UInt64.le_of_lt (htop c List.mem_cons_self)))
      rw [List.map_cons, List.foldl_cons, hc]
      exact ih top fun c hc => htop c (List.mem_cons_of_mem _ hc)
  have hsorted := disk.candidates_pairwise
  rw [hfold, highestSequence]
  cases hcandidates : disk.candidates with
  | nil => rfl
  | cons first rest =>
    rw [hcandidates] at hsorted
    have hzero : maxOfWords 0 first.1 = first.1 := by
      apply UInt64.toNat_inj.mp
      rw [maxOfWords_toNat]
      simp
    rw [List.map_cons, List.foldl_cons, hzero]
    exact hrest rest first.1 (List.pairwise_cons.mp hsorted).1

/-- What the scan of the manifest directory collects, as a function of the files. -/
theorem run_scanManifests {env : Environment} (hquiet : env.Quiet) (world : World) :
    ∃ candidates, (run env.handle scanManifests world).1 = .ok candidates ∧
      world.SameFiles (run env.handle scanManifests world).2 ∧
      sortCandidates candidates.files = world.disk.candidates ∧
      candidates.sawManifestFile = !world.disk.candidates.isEmpty ∧
      candidates.highestSequenceSeen = world.disk.highestSequence := by
  obtain ⟨listing, hperm, hrun, hsame⟩ := run_scan .manifests _ hquiet only_addCandidate
    (eval_addCandidate world.disk) ⟨false, 0, []⟩
  refine ⟨_, hrun, hsame, ?_⟩
  rw [foldl_addCandidate]
  refine ⟨?_, ?_, ?_⟩
  · simpa using Disk.sortCandidates_listing hperm
  · have hcandidates : (listing.filterMap world.disk.candidate).Perm world.disk.candidates :=
      (hperm.filterMap _).trans (List.perm_insertionSort _ _).symm
    simp only [Bool.false_or]
    rw [hcandidates.isEmpty_eq]
  · exact Disk.foldl_maxOfWords_listing hperm

/-! ## The metadata of the caller -/

/-- The metadata that `open` works with: what it expects, or what it found on disk and checked
against that. -/
inductive MetadataOf (build : BuildIdentity) (spec : RunSpec) (engineConfig : EngineConfig)
    (metadata : RunMetadata) : Prop where
  | installed (h : expectedMetadata build spec engineConfig = .ok metadata)
  | found {expected : RunMetadata} {bytes : Bytes}
      (hexpected : expectedMetadata build spec engineConfig = .ok expected)
      (hdecode : decodeRunMetadata bytes = .ok metadata)
      (hcompatible : requireCompatible metadata expected = .ok ())

theorem expectedMetadata_eq_ok {build : BuildIdentity} {spec : RunSpec} {config : EngineConfig}
    {metadata : RunMetadata} (h : expectedMetadata build spec config = .ok metadata) :
    spec.validate = .ok () ∧ config.validate spec = .ok () ∧
      blockCount spec config.blockSize ≤ config.maxMaterializedBlocks ∧
      runSpecHash spec = .ok metadata.runSpecHash ∧
      executionLayoutHash spec config = .ok metadata.executionLayoutHash ∧
      metadata = ⟨durableRunId metadata.runSpecHash metadata.executionLayoutHash, spec,
        config.blockSize, blockCount spec config.blockSize, metadata.runSpecHash,
        metadata.executionLayoutHash, build.hash, build.description⟩ := by
  obtain ⟨⟨⟩, hspec, h⟩ := Result.bind_eq_ok.mp h
  obtain ⟨⟨⟩, hconfig, h⟩ := Result.bind_eq_ok.mp h
  obtain ⟨⟨⟩, hlimit, h⟩ := Result.bind_eq_ok.mp h
  obtain ⟨specHash, hspecHash, h⟩ := Result.bind_eq_ok.mp h
  obtain ⟨layoutHash, hlayoutHash, h⟩ := Result.bind_eq_ok.mp h
  cases h
  rw [throwIf_eq_ok, decide_eq_false_iff_not, UInt64.not_lt] at hlimit
  exact ⟨hspec, hconfig, hlimit, hspecHash, hlayoutHash, rfl⟩

theorem makeBlocks_of_validate {spec : RunSpec} {config : EngineConfig}
    (hspec : spec.validate = .ok ()) (hconfig : config.validate spec = .ok ())
    (hlimit : blockCount spec config.blockSize ≤ config.maxMaterializedBlocks) :
    ∃ blocks, makeBlocks spec config = .ok blocks ∧
      blocks.length = (blockCount spec config.blockSize).toNat := by
  exact ⟨_, makeBlocks_of_le hspec hconfig hlimit, by simp⟩

theorem requireCompatible_eq_ok {persisted expected : RunMetadata}
    (h : requireCompatible persisted expected = .ok ()) :
    persisted.runSpecHash = expected.runSpecHash ∧
      persisted.executionLayoutHash = expected.executionLayoutHash ∧
      persisted.blockSize = expected.blockSize ∧ persisted.blockCount = expected.blockCount ∧
      persisted.buildFingerprint = expected.buildFingerprint ∧
      persisted.buildDescription = expected.buildDescription ∧
      persisted.runId = expected.runId := by
  simp only [requireCompatible, Result.bind_eq_ok, throwIf_eq_ok, exists_const,
    Bool.or_eq_false_iff, decide_eq_false_iff_not, ne_eq, not_not] at h
  obtain ⟨hspec, ⟨⟨hlayout, hsize⟩, hcount⟩, ⟨hbuild, hdescription⟩, hid⟩ := h
  exact ⟨hspec, hlayout, hsize, hcount, hbuild, hdescription, hid⟩

/-- The loader can lay out the blocks of the metadata it is called with. -/
theorem MetadataOf.makeBlocks {build : BuildIdentity} {spec : RunSpec}
    {engineConfig : EngineConfig} {metadata : RunMetadata}
    (h : MetadataOf build spec engineConfig metadata) :
    ∃ canonical, MonteCarlo.makeBlocks metadata.spec engineConfig = .ok canonical ∧
      canonical.length = metadata.blockCount.toNat := by
  cases h with
  | installed h =>
    obtain ⟨hspec, hconfig, hlimit, -, -, heq⟩ := expectedMetadata_eq_ok h
    obtain ⟨blocks, hblocks, hlength⟩ := makeBlocks_of_validate hspec hconfig hlimit
    rw [heq]
    exact ⟨blocks, hblocks, hlength⟩
  | @found expected bytes hexpected hdecode hcompatible =>
    obtain ⟨-, hconfig, hlimit, -, -, heq⟩ := expectedMetadata_eq_ok hexpected
    obtain ⟨-, -, hsize, hcount, -⟩ := requireCompatible_eq_ok hcompatible
    have haccepted := decodeRunMetadata_accepted hdecode
    rw [heq] at hsize hcount
    simp only at hsize hcount
    -- the two specifications may differ, but not in what the layout checks look at
    have hconfig' : engineConfig.validate metadata.spec = .ok () := by
      have hlayout := haccepted.layout
      simp only [EngineConfig.validate, layoutConfig, Result.bind_eq_ok, throwIf_eq_ok,
        exists_const, hsize] at hconfig hlayout ⊢
      exact ⟨hconfig.1, hconfig.2.1, hconfig.2.2.1, hlayout.2.2.2.1, hconfig.2.2.2.2⟩
    have hblockCount : blockCount metadata.spec engineConfig.blockSize = metadata.blockCount := by
      rw [haccepted.blockCount, hsize]
    obtain ⟨blocks, hblocks, hlength⟩ := makeBlocks_of_validate haccepted.spec hconfig'
      (by rw [hblockCount, hcount]; exact hlimit)
    exact ⟨blocks, hblocks, by rw [hlength, hblockCount]⟩

/-! ## The candidate loop -/

theorem only_loadEntries (config : RunStoreConfig) (manifest : RunManifest)
    (metadata : RunMetadata) (canonical : List ScenarioBlock) (entries : List ManifestEntry)
    (results : List (Option BlockResult)) :
    Only Op.Reads (loadEntries config manifest metadata canonical entries results) := by
  induction entries generalizing results with
  | nil => exact only_pure _
  | cons entry rest ih =>
    refine only_bind (only_readEntryRecord _ _) fun record => ?_
    exact only_bind (only_ofExcept _) fun _ => ih _

theorem only_loadCandidate (engineConfig : EngineConfig) (config : RunStoreConfig)
    (metadata : RunMetadata) (candidate : UInt64 × Path) :
    Only Op.Reads (loadCandidate engineConfig config metadata candidate) := by
  refine only_bind (only_readFile _ _ _ _) fun bytes => only_bind (only_ofExcept _) fun manifest => ?_
  refine only_bind (only_ofExcept _) fun _ => only_bind (only_ofExcept _) fun canonical => ?_
  refine only_bind (only_loadEntries _ _ _ _ _ _) fun results => ?_
  exact only_bind (only_ofExcept _) fun _ => only_pure _

theorem only_tryCandidate (engineConfig : EngineConfig) (config : RunStoreConfig)
    (metadata : RunMetadata) (candidate : UInt64 × Path) :
    Only Op.Reads (tryCandidate engineConfig config metadata candidate) := by
  refine only_tryCatch (only_bind (only_loadCandidate _ _ _ _) fun _ => only_pure _) fun e => ?_
  split
  · exact only_pure _
  · exact only_throw _

theorem only_tryCandidates (engineConfig : EngineConfig) (config : RunStoreConfig)
    (metadata : RunMetadata) (candidates : List (UInt64 × Path)) (lastError : String) :
    Only Op.Reads (tryCandidates engineConfig config metadata candidates lastError) := by
  induction candidates generalizing lastError with
  | nil => exact only_pure _
  | cons candidate rest ih =>
    refine only_bind (only_tryCandidate _ _ _ _) fun outcome => ?_
    cases outcome with
    | loaded snapshot => exact only_pure _
    | skipped message => exact ih message

/-- The loader, as a function of the files. -/
theorem run_loadLatestValidManifest {env : Environment} (hquiet : env.Quiet)
    (engineConfig : EngineConfig) (config : RunStoreConfig) (metadata : RunMetadata)
    (world : World) :
    (run env.handle (loadLatestValidManifest engineConfig config metadata) world).1 =
        (do
          let (loaded, lastError) ← eval world.disk.reply
            (tryCandidates engineConfig config metadata world.disk.candidates "")
          pure ⟨loaded, !world.disk.candidates.isEmpty, world.disk.highestSequence, lastError⟩) ∧
      world.SameFiles
        (run env.handle (loadLatestValidManifest engineConfig config metadata) world).2 := by
  obtain ⟨candidates, hrun, hsame, hsorted, hsaw, hhighest⟩ := run_scanManifests hquiet world
  have honly := only_tryCandidates engineConfig config metadata world.disk.candidates ""
  rw [loadLatestValidManifest, run_bind]
  generalize run env.handle scanManifests world = outcome at hrun hsame
  obtain ⟨reply, after⟩ := outcome
  obtain rfl := hrun
  have hreads : (run env.handle (tryCandidates engineConfig config metadata
      world.disk.candidates "") after).1 = _ := run_reads honly hquiet.reads
  have hafter := hsame.trans (visits_reads honly (visits_final env.handle _ after))
  rw [hsame.1] at hreads
  simp only [hsorted, run_bind, hsaw, hhighest]
  generalize run env.handle (tryCandidates engineConfig config metadata world.disk.candidates "")
    after = outcome at hreads hafter
  obtain ⟨reply, final⟩ := outcome
  simp only at hreads
  rw [← hreads]
  cases reply with
  | error e => exact ⟨rfl, hafter⟩
  | ok loaded => exact ⟨rfl, hafter⟩

section Candidates

variable {engineConfig : EngineConfig} {config : RunStoreConfig} {metadata : RunMetadata}
  {canonical : List ScenarioBlock} {disk : Disk}

/-- A file that is refused for good: it does not qualify, and not because its reduction throws. -/
def Invalid (disk : Disk) (config : RunStoreConfig) (metadata : RunMetadata)
    (canonical : List ScenarioBlock) (sequence : UInt64) : Prop :=
  ¬ ReductionThrows disk config metadata canonical sequence ∧
    ∀ snapshot, ¬ Qualifies disk config metadata canonical sequence snapshot

theorem Qualifies.not_reductionThrows {sequence : UInt64} {snapshot : LoadedManifest}
    (h : Qualifies disk config metadata canonical sequence snapshot) :
    ¬ ReductionThrows disk config metadata canonical sequence := by
  rintro ⟨other, hother, e, he⟩
  rw [← h.toLoadable.unique hother, h.reduction] at he
  cases he

theorem Loadable.isSome_file {sequence : UInt64} {snapshot : LoadedManifest}
    (h : Loadable disk config metadata canonical sequence snapshot) :
    (disk.file (manifestPathFor sequence)).isSome := by
  obtain ⟨bytes, hfile, -⟩ := h.file
  rw [hfile]
  rfl

section Loading

variable (hblocks : makeBlocks metadata.spec engineConfig = .ok canonical)
  (hcount : canonical.length = metadata.blockCount.toNat)
include hblocks hcount

/-- What a reduction throws is what the loader throws. -/
theorem eval_loadCandidate_reduction {sequence : UInt64} {snapshot : LoadedManifest}
    {e : Exception} (h : Loadable disk config metadata canonical sequence snapshot)
    (he : reduceBlockResults (leavesOf snapshot.results) = .error e) :
    eval disk.reply (loadCandidate engineConfig config metadata
      (sequence, manifestPathFor sequence)) = .error e := by
  obtain ⟨bytes, hfile, hlength, hdecode⟩ := h.file
  have hcontents : disk.contents config (manifestPathFor sequence) config.maxManifestBytes
      .operatorPolicy = .ok bytes := Disk.contents_eq_ok.mpr ⟨hfile, hlength⟩
  have hmanifest : decodeCandidate config sequence bytes = .ok snapshot.manifest :=
    decodeCandidate_eq_ok.mpr ⟨hdecode, h.sequence_eq⟩
  have hlength' := hcount.trans
    (congrArg UInt64.toNat (blockCount_of_checkIdentity h.identity)).symm
  have hentries : eval disk.reply (loadEntries config snapshot.manifest metadata canonical
      snapshot.manifest.committedBlocks (List.replicate canonical.length none)) =
        .ok snapshot.results :=
    (eval_loadEntries (decodeManifest_accepted hdecode) hlength').mpr h.results
  rw [loadCandidate, eval_bind, eval_readFile, hcontents, Result.ok_bind, eval_bind, eval_ofExcept,
    hmanifest, Result.ok_bind, validateManifestSnapshot, eval_bind, eval_ofExcept, h.identity,
    Result.ok_bind, eval_bind, eval_ofExcept, hblocks, Result.ok_bind, eval_bind, hentries,
    Result.ok_bind, eval_bind, eval_ofExcept, checkReduction, he]
  rfl

/-- One candidate of admissible size: loaded, thrown, or skipped. -/
theorem eval_tryCandidate {sequence : UInt64} {bytes : Bytes}
    (hfile : disk.file (manifestPathFor sequence) = some bytes)
    (hlength : bytes.length ≤ config.maxManifestBytes.toNat) :
    (∃ snapshot, Qualifies disk config metadata canonical sequence snapshot ∧
      eval disk.reply (tryCandidate engineConfig config metadata
        (sequence, manifestPathFor sequence)) = .ok (.loaded snapshot)) ∨
    (ReductionThrows disk config metadata canonical sequence ∧ ∃ e,
      eval disk.reply (tryCandidate engineConfig config metadata
        (sequence, manifestPathFor sequence)) = .error e) ∨
    (Invalid disk config metadata canonical sequence ∧ ∃ message,
      eval disk.reply (tryCandidate engineConfig config metadata
        (sequence, manifestPathFor sequence)) = .ok (.skipped message)) := by
  rw [tryCandidate, eval_tryCatch, eval_bind]
  cases hload : eval disk.reply (loadCandidate engineConfig config metadata
      (sequence, manifestPathFor sequence)) with
  | ok snapshot =>
    exact Or.inl ⟨snapshot, (eval_loadCandidate_ok hblocks hcount).mp hload, rfl⟩
  | error e =>
    have hnot : ∀ snapshot, ¬ Qualifies disk config metadata canonical sequence snapshot := by
      intro snapshot hqualifies
      rw [(eval_loadCandidate_ok hblocks hcount).mpr hqualifies] at hload
      cases hload
    simp only [Result.error_bind]
    by_cases hthrows : ReductionThrows disk config metadata canonical sequence
    · refine Or.inr (Or.inl ⟨hthrows, e, ?_⟩)
      obtain ⟨snapshot, hloadable, e', he'⟩ := hthrows
      rw [eval_loadCandidate_reduction hblocks hcount hloadable he'] at hload
      cases hload
      rw [if_neg (reduceBlockResults_error he').2]
      rfl
    · refine Or.inr (Or.inr ⟨⟨hthrows, hnot⟩, ?_⟩)
      rcases eval_loadCandidate_error hblocks hcount hfile hlength hload with htype | ⟨-, h⟩
      · rw [if_pos htype]
        exact ⟨_, rfl⟩
      · exact absurd h hthrows

/-- The candidate loop: the first file that is not refused for good decides. -/
theorem eval_tryCandidates {candidates : List (UInt64 × Path)}
    (hcandidates : ∀ c ∈ candidates, c.2 = manifestPathFor c.1 ∧ ∃ bytes,
      disk.file (manifestPathFor c.1) = some bytes ∧
        bytes.length ≤ config.maxManifestBytes.toNat) (lastError : String) :
    (∃ before c after snapshot message, candidates = before ++ c :: after ∧
      (∀ b ∈ before, Invalid disk config metadata canonical b.1) ∧
      Qualifies disk config metadata canonical c.1 snapshot ∧
      eval disk.reply (tryCandidates engineConfig config metadata candidates lastError) =
        .ok (some snapshot, message)) ∨
    (∃ before c after e, candidates = before ++ c :: after ∧
      (∀ b ∈ before, Invalid disk config metadata canonical b.1) ∧
      ReductionThrows disk config metadata canonical c.1 ∧
      eval disk.reply (tryCandidates engineConfig config metadata candidates lastError) =
        .error e) ∨
    ((∀ b ∈ candidates, Invalid disk config metadata canonical b.1) ∧ ∃ message,
      eval disk.reply (tryCandidates engineConfig config metadata candidates lastError) =
        .ok (none, message)) := by
  induction candidates generalizing lastError with
  | nil => exact Or.inr (Or.inr ⟨by simp, lastError, rfl⟩)
  | cons c rest ih =>
    obtain ⟨sequence, path⟩ := c
    obtain ⟨hpath, bytes, hfile, hlength⟩ := hcandidates _ List.mem_cons_self
    obtain rfl : path = manifestPathFor sequence := hpath
    rw [tryCandidates, eval_bind]
    rcases eval_tryCandidate hblocks hcount hfile hlength with
      ⟨snapshot, hqualifies, heval⟩ | ⟨hthrows, e, heval⟩ | ⟨hinvalid, message, heval⟩
    · rw [heval]
      exact Or.inl ⟨[], _, rest, snapshot, lastError, rfl, by simp, hqualifies, rfl⟩
    · rw [heval]
      exact Or.inr (Or.inl ⟨[], _, rest, e, rfl, by simp, hthrows, rfl⟩)
    · rw [heval, Result.ok_bind]
      have hextend : ∀ before : List (UInt64 × Path),
          (∀ b ∈ before, Invalid disk config metadata canonical b.1) →
          ∀ b ∈ (sequence, manifestPathFor sequence) :: before,
            Invalid disk config metadata canonical b.1 := by
        intro before hbefore b hb
        rcases List.mem_cons.mp hb with rfl | hb
        · exact hinvalid
        · exact hbefore b hb
      rcases ih (fun c hc => hcandidates c (List.mem_cons_of_mem _ hc)) message with
        ⟨before, c, after, snapshot, text, rfl, hbefore, hqualifies, heval⟩ |
        ⟨before, c, after, e, rfl, hbefore, hthrows, heval⟩ | ⟨hall, text, heval⟩
      · exact Or.inl ⟨_ :: before, c, after, snapshot, text, rfl, hextend before hbefore,
          hqualifies, heval⟩
      · exact Or.inr (Or.inl ⟨_ :: before, c, after, e, rfl, hextend before hbefore, hthrows,
          heval⟩)
      · exact Or.inr (Or.inr ⟨hextend rest hall, text, heval⟩)

end Loading

/-- The outcome that recovery relies on: nothing is thrown, and the snapshot of the greatest
qualifying sequence number is returned, or nothing when no file qualifies. -/
def SelectsHighest (disk : Disk) (config : RunStoreConfig) (metadata : RunMetadata)
    (canonical : List ScenarioBlock) (outcome : Result LoadResult) : Prop :=
  ∃ load, outcome = .ok load ∧
    ((∃ sequence snapshot, load.loaded = some snapshot ∧
        Qualifies disk config metadata canonical sequence snapshot ∧
        ∀ other snapshot', Qualifies disk config metadata canonical other snapshot' →
          other ≤ sequence) ∨
      load.loaded = none ∧
        ∀ sequence snapshot, ¬ Qualifies disk config metadata canonical sequence snapshot)

/-- A file that decodes is among the candidates. -/
theorem Loadable.mem_candidates {sequence : UInt64} {snapshot : LoadedManifest}
    (h : Loadable disk config metadata canonical sequence snapshot) :
    (sequence, manifestPathFor sequence) ∈ disk.candidates :=
  Disk.mem_candidates.mpr ⟨rfl, h.isSome_file⟩

/-- A candidate in front of, at, or behind a position of the descending list. -/
theorem candidate_position {before after : List (UInt64 × Path)} {c : UInt64 × Path}
    (hsplit : disk.candidates = before ++ c :: after) {sequence : UInt64}
    (h : (sequence, manifestPathFor sequence) ∈ disk.candidates) :
    (∃ b ∈ before, b.1 = sequence ∧ c.1 < sequence) ∨ sequence = c.1 ∨ sequence < c.1 := by
  have hsorted := disk.candidates_pairwise
  rw [hsplit] at h hsorted
  obtain ⟨-, htail, hcross⟩ := List.pairwise_append.mp hsorted
  rcases List.mem_append.mp h with hbefore | hrest
  · exact Or.inl ⟨_, hbefore, rfl, hcross _ hbefore c List.mem_cons_self⟩
  · rcases List.mem_cons.mp hrest with heq | hafter
    · exact Or.inr (Or.inl (congrArg Prod.fst heq))
    · exact Or.inr (Or.inr ((List.pairwise_cons.mp htail).1 _ hafter))

theorem selectsHighest_iff {env : Environment} (hquiet : env.Quiet)
    (hblocks : makeBlocks metadata.spec engineConfig = .ok canonical)
    (hcount : canonical.length = metadata.blockCount.toNat) (world : World)
    (hsize : ∀ sequence bytes, world.disk.file (manifestPathFor sequence) = some bytes →
      bytes.length ≤ config.maxManifestBytes.toNat) :
    SelectsHighest world.disk config metadata canonical
        (run env.handle (loadLatestValidManifest engineConfig config metadata) world).1 ↔
      ∀ sequence, ReductionThrows world.disk config metadata canonical sequence →
        ∃ higher snapshot, sequence < higher ∧
          Qualifies world.disk config metadata canonical higher snapshot := by
  have hcandidates : ∀ c ∈ world.disk.candidates, c.2 = manifestPathFor c.1 ∧ ∃ bytes,
      world.disk.file (manifestPathFor c.1) = some bytes ∧
        bytes.length ≤ config.maxManifestBytes.toNat := by
    intro c hc
    obtain ⟨hpath, hfile⟩ := Disk.mem_candidates.mp hc
    obtain ⟨bytes, hbytes⟩ := Option.isSome_iff_exists.mp hfile
    exact ⟨hpath, bytes, hbytes, hsize _ _ hbytes⟩
  rw [(run_loadLatestValidManifest hquiet engineConfig config metadata world).1]
  rcases eval_tryCandidates hblocks hcount hcandidates "" with
    ⟨before, c, after, snapshot, text, hsplit, hbefore, hqualifies, heval⟩ |
    ⟨before, c, after, e, hsplit, hbefore, hthrows, heval⟩ | ⟨hall, text, heval⟩
  · rw [heval]
    constructor
    · intro _ sequence hthrows
      obtain ⟨found, hfound, -⟩ := id hthrows
      rcases candidate_position hsplit hfound.mem_candidates with ⟨b, hb, rfl, -⟩ | rfl | hlt
      · exact absurd hthrows (hbefore b hb).1
      · exact absurd hthrows hqualifies.not_reductionThrows
      · exact ⟨c.1, snapshot, hlt, hqualifies⟩
    · intro _
      refine ⟨_, rfl, Or.inl ⟨c.1, snapshot, rfl, hqualifies, ?_⟩⟩
      intro other snapshot' hother
      rcases candidate_position hsplit hother.toLoadable.mem_candidates with
        ⟨b, hb, rfl, -⟩ | rfl | hlt
      · exact absurd hother ((hbefore b hb).2 snapshot')
      · exact UInt64.le_refl _
      · exact UInt64.le_of_lt hlt
  · rw [heval]
    constructor
    · rintro ⟨load, hload, -⟩
      cases hload
    · intro h
      obtain ⟨higher, snapshot, hlt, hhigher⟩ := h c.1 hthrows
      rcases candidate_position hsplit hhigher.toLoadable.mem_candidates with
        ⟨b, hb, rfl, -⟩ | heq | hlt'
      · exact absurd hhigher ((hbefore b hb).2 snapshot)
      · exact absurd (heq ▸ hlt) (UInt64.lt_irrefl _)
      · exact absurd (UInt64.lt_trans hlt hlt') (UInt64.lt_irrefl _)
  · rw [heval]
    have hnone : ∀ sequence snapshot,
        Loadable world.disk config metadata canonical sequence snapshot →
        Invalid world.disk config metadata canonical sequence :=
      fun sequence snapshot h => hall _ h.mem_candidates
    constructor
    · intro _ sequence hthrows
      obtain ⟨snapshot, hloadable, -⟩ := id hthrows
      exact absurd hthrows (hnone sequence snapshot hloadable).1
    · intro _
      refine ⟨_, rfl, Or.inr ⟨rfl, fun sequence snapshot h => ?_⟩⟩
      exact (hnone sequence snapshot h.toLoadable).2 snapshot h

end Candidates

/-- The loader selects the highest valid manifest exactly when no manifest whose reduction
throws stands above every qualifying one. -/
theorem loadLatestValidManifest_selects_highest_iff {build : BuildIdentity} {spec : RunSpec}
    {engineConfig : EngineConfig} {metadata : RunMetadata}
    (hmetadata : MetadataOf build spec engineConfig metadata) {config : RunStoreConfig}
    {env : Environment} (hquiet : env.Quiet) (world : World)
    (hsize : ∀ sequence bytes, world.disk.file (manifestPathFor sequence) = some bytes →
      bytes.length ≤ config.maxManifestBytes.toNat) :
    ∃ canonical, makeBlocks metadata.spec engineConfig = .ok canonical ∧
      (SelectsHighest world.disk config metadata canonical
          (run env.handle (loadLatestValidManifest engineConfig config metadata) world).1 ↔
        ∀ sequence, ReductionThrows world.disk config metadata canonical sequence →
          ∃ higher snapshot, sequence < higher ∧
            Qualifies world.disk config metadata canonical higher snapshot) := by
  obtain ⟨canonical, hblocks, hcount⟩ := hmetadata.makeBlocks
  exact ⟨canonical, hblocks, selectsHighest_iff hquiet hblocks hcount world hsize⟩

theorem expectedMetadata_of_makeBlocks (build : BuildIdentity) {spec : RunSpec}
    {config : EngineConfig} {blocks : List ScenarioBlock} (h : makeBlocks spec config = .ok blocks) :
    ∃ metadata, expectedMetadata build spec config = .ok metadata := by
  obtain ⟨hspec, hconfig, -, hlimit, -⟩ := makeBlocks_eq_ok h
  obtain ⟨layoutHash, hlayout⟩ := executionLayoutHash_of_makeBlocks h
  have hlt : decide (config.maxMaterializedBlocks < blockCount spec config.blockSize) = false :=
    decide_eq_false (UInt64.not_lt.mpr hlimit)
  simp only [expectedMetadata, hspec, hconfig, hlt, runSpecHash_of_validate hspec, hlayout,
    throwIf_false, Result.ok_bind]
  exact ⟨_, rfl⟩

/-- Two scenarios in blocks of one. -/
def twoScenarios : RunSpec := { RunSpec.defaults with totalScenarios := 2 }

def singleBlocks : EngineConfig := { EngineConfig.defaults with blockSize := 1 }

theorem makeBlocks_twoScenarios :
    makeBlocks twoScenarios singleBlocks = .ok [⟨0, 0, 1, 0, 1⟩, ⟨1, 1, 2, 0, 1⟩] := by
  decide +kernel

/-- The manifest with which the run of two blocks starts. -/
def startedManifest (metadata : RunMetadata) : RunManifest where
  runId := metadata.runId
  runSpecHash := metadata.runSpecHash
  executionLayoutHash := metadata.executionLayoutHash
  buildFingerprint := metadata.buildFingerprint
  sequence := 0
  status := .running
  runIncarnation := 1
  rngVersion := metadata.spec.rngVersion
  statsSchemaVersion := metadata.spec.statsSchemaVersion
  blockCount := metadata.blockCount
  leaseEpochs := [1, 1]
  committedBlocks := []
  committedAggregate := .empty
  failure := none

/-- A manifest under the number 0, and a damaged file under the number 1. -/
def damagedDisk (manifest : Bytes) : Disk :=
  (AList.insert (manifestPathFor 1) (.regular [0]) ∅).insert (manifestPathFor 0) (.regular manifest)

theorem damagedDisk_manifests (manifest : Bytes) (sequence : UInt64) :
    (damagedDisk manifest).file (manifestPathFor sequence) =
      if sequence = 0 then some manifest else if sequence = 1 then some [0] else none := by
  have hne : ∀ other, sequence ≠ other → manifestPathFor sequence ≠ manifestPathFor other :=
    fun other h heq => h (manifestName_injective (congrArg Path.name heq))
  rw [Disk.file, damagedDisk]
  by_cases hzero : sequence = 0
  · rw [hzero, AList.lookup_insert, if_pos rfl]
  · rw [AList.lookup_insert_ne (hne 0 hzero), if_neg hzero]
    by_cases hone : sequence = 1
    · rw [hone, AList.lookup_insert, if_pos rfl]
    · rw [AList.lookup_insert_ne (hne 1 hone), if_neg hone]
      rfl

/-- The lower manifest is valid, and the only one. -/
theorem damagedDisk_qualifies {metadata : RunMetadata} (hspec : metadata.spec = twoScenarios)
    (hcount : metadata.blockCount = 2) :
    ∃ bytes : Bytes, bytes.length ≤ (RunStoreConfig.defaults "run").maxManifestBytes.toNat ∧
      Qualifies (damagedDisk bytes) (.defaults "run") metadata
        [⟨0, 0, 1, 0, 1⟩, ⟨1, 1, 2, 0, 1⟩] 0 ⟨startedManifest metadata, [none, none]⟩ ∧
      ∀ sequence snapshot, Loadable (damagedDisk bytes) (.defaults "run") metadata
        [⟨0, 0, 1, 0, 1⟩, ⟨1, 1, 2, 0, 1⟩] sequence snapshot → sequence = 0 := by
  have hnone : ∀ (i : ℕ) (result : BlockResult),
      ([none, none] : List (Option BlockResult))[i]? ≠ some (some result) := by
    rintro (_ | _ | i) result h
    · cases h
    · cases h
    · cases h
  have hsound : SoundResults metadata [⟨0, 0, 1, 0, 1⟩, ⟨1, 1, 2, 0, 1⟩] 1 [1, 1] [none, none] :=
    ⟨rfl, rfl, by simp, by simp, fun i result h => absurd h (hnone i result),
      fun i result h => absurd h (hnone i result)⟩
  have hmanifest : ManifestOf metadata [1, 1] [none, none] (startedManifest metadata) :=
    ⟨rfl, rfl, rfl, rfl, rfl, rfl, rfl, rfl, rfl⟩
  have hencodable : EncodableManifest (startedManifest metadata) :=
    encodableManifest_of_sound hsound hmanifest (by rw [hcount]; rfl) (by simp)
      (by rw [hspec]; rfl) (by exact AggregateStats.empty_invariantError)
      (by simp [startedManifest]) (by simp [startedManifest]) (by simp [startedManifest])
  obtain ⟨bytes, hencode⟩ : ∃ bytes, encodeManifest (startedManifest metadata) = .ok bytes :=
    ⟨_, encodeManifest_eq_ok.mpr ⟨hencodable, _, rfl, rfl⟩⟩
  have hlimit : 512 ≤ (RunStoreConfig.defaults "run").maxManifestBytes.toNat := by decide
  have hlength : bytes.length = 285 := length_encodeManifest hencode rfl
  refine ⟨bytes, ?_, ⟨loadable_of_stored hsound hmanifest (fun i result h => absurd h (hnone i result))
    ?_ hencode rfl (le_trans (by norm_num) hlimit) ?_, ?_⟩, fun sequence snapshot h => ?_⟩
  · rw [hlength]
    exact le_trans (by norm_num) hlimit
  · rw [damagedDisk_manifests, if_pos rfl]
  · rw [hlength]
    exact le_trans (by norm_num) hlimit
  · exact reduceBlockResults_empty 2
  · obtain ⟨found, hfound, -, hdecode⟩ := h.file
    rw [damagedDisk_manifests] at hfound
    split at hfound
    · assumption
    · split at hfound
      · cases hfound
        have hrefused : (decodeManifest [0]
            (RunStoreConfig.defaults "run").maxManifestBytes).toOption = none := rfl
        rw [hdecode] at hrefused
        cases hrefused
      · cases hfound

/-- A damaged manifest above a valid one: the valid one is selected. -/
theorem loadLatestValidManifest_selects_highest_below_damage :
    ∃ metadata canonical world load snapshot,
      expectedMetadata ⟨[66]⟩ twoScenarios singleBlocks = .ok metadata ∧
      (world.disk.file (manifestPathFor 1)).isSome ∧
      SelectsHighest world.disk (.defaults "run") metadata canonical
        (run Environment.idle.handle
          (loadLatestValidManifest singleBlocks (.defaults "run") metadata) world).1 ∧
      (run Environment.idle.handle
        (loadLatestValidManifest singleBlocks (.defaults "run") metadata) world).1 = .ok load ∧
      load.loaded = some snapshot ∧ snapshot.manifest.sequence = 0 := by
  obtain ⟨metadata, hmetadata⟩ := expectedMetadata_of_makeBlocks ⟨[66]⟩ makeBlocks_twoScenarios
  obtain ⟨-, -, -, -, -, heq⟩ := expectedMetadata_eq_ok hmetadata
  have hspec : metadata.spec = twoScenarios := by rw [heq]
  have hcount : metadata.blockCount = 2 := by
    rw [heq]
    exact (rfl : blockCount twoScenarios singleBlocks.blockSize = 2)
  obtain ⟨bytes, hlength, hvalid, honly⟩ := damagedDisk_qualifies hspec hcount
  have hsize : ∀ sequence found,
      (damagedDisk bytes).file (manifestPathFor sequence) = some found →
      found.length ≤ (RunStoreConfig.defaults "run").maxManifestBytes.toNat := by
    intro sequence found h
    rw [damagedDisk_manifests] at h
    split at h
    · cases h
      exact hlength
    · split at h
      · cases h
        decide
      · cases h
  obtain ⟨canonical, hblocks, hiff⟩ := loadLatestValidManifest_selects_highest_iff
    (MetadataOf.installed hmetadata) Environment.idle_faultless.quiet ⟨damagedDisk bytes, 0, 0⟩ hsize
  obtain rfl : canonical = [⟨0, 0, 1, 0, 1⟩, ⟨1, 1, 2, 0, 1⟩] := by
    rw [hspec, makeBlocks_twoScenarios] at hblocks
    exact (Except.ok.inj hblocks).symm
  have hselects := hiff.mpr fun sequence hthrows => by
    obtain ⟨snapshot, hloadable, -⟩ := id hthrows
    obtain rfl := honly sequence snapshot hloadable
    exact absurd hthrows hvalid.not_reductionThrows
  obtain ⟨load, hload, ⟨sequence, snapshot, hloaded, hqualifies, -⟩ | ⟨-, hno⟩⟩ := id hselects
  · refine ⟨metadata, _, _, load, snapshot, hmetadata, ?_, hselects, hload, hloaded, ?_⟩
    · rw [damagedDisk_manifests]
      rfl
    · rw [hqualifies.sequence_eq]
      exact honly sequence snapshot hqualifies.toLoadable
  · exact absurd hvalid (hno 0 _)

/-- The result of a block with one scenario that pays `payoff`. -/
def singleResult (metadata : RunMetadata) (block : ScenarioBlock) (payoff : Binary64) :
    BlockResult where
  block := block
  aggregate := ⟨1, payoff, 0, payoff, payoff⟩
  runSpecHash := metadata.runSpecHash
  executionLayoutHash := metadata.executionLayoutHash
  buildFingerprint := metadata.buildFingerprint
  payloadChecksum := sha256 (aggregateBytes ⟨1, payoff, 0, payoff, payoff⟩ kStatsSchemaVersion)
  rngVersion := metadata.spec.rngVersion
  statsSchemaVersion := kStatsSchemaVersion
  workerId := 0

/-- Payoffs `2 ^ 1023` and `-2 ^ 1023`: each is fine, their difference is not representable. -/
def overflowingResults (metadata : RunMetadata) : List (Option BlockResult) :=
  [some (singleResult metadata ⟨0, 0, 1, 1, 1⟩ ⟨0x7FE0000000000000⟩),
    some (singleResult metadata ⟨1, 1, 2, 1, 1⟩ ⟨0xFFE0000000000000⟩)]

/-- A running manifest that names both results. -/
def overflowingManifest (metadata : RunMetadata) : RunManifest where
  runId := metadata.runId
  runSpecHash := metadata.runSpecHash
  executionLayoutHash := metadata.executionLayoutHash
  buildFingerprint := metadata.buildFingerprint
  sequence := 0
  status := .running
  runIncarnation := 1
  rngVersion := metadata.spec.rngVersion
  statsSchemaVersion := metadata.spec.statsSchemaVersion
  blockCount := metadata.blockCount
  leaseEpochs := [1, 1]
  committedBlocks := entriesOf (overflowingResults metadata)
  committedAggregate := .empty
  failure := none

/-- The manifest file and the two files it names. -/
def overflowingDisk (metadata : RunMetadata) (manifest : Bytes) : Disk :=
  let first := singleResult metadata ⟨0, 0, 1, 1, 1⟩ ⟨0x7FE0000000000000⟩
  let second := singleResult metadata ⟨1, 1, 2, 1, 1⟩ ⟨0xFFE0000000000000⟩
  ((AList.insert (manifestPathFor 0) (.regular manifest) ∅).insert
    (blockPathFor ⟨0, 0, 1, 1, 1⟩) (.regular (first.fileBytes metadata))).insert
    (blockPathFor ⟨1, 1, 2, 1, 1⟩) (.regular (second.fileBytes metadata))

theorem overflowingDisk_manifests (metadata : RunMetadata) (manifest : Bytes) (sequence : UInt64) :
    (overflowingDisk metadata manifest).file (manifestPathFor sequence) =
      if sequence = 0 then some manifest else none := by
  have hblock : ∀ block, manifestPathFor sequence ≠ blockPathFor block := by
    intro block h
    simp [manifestPathFor, blockPathFor] at h
  rw [Disk.file, overflowingDisk, AList.lookup_insert_ne (hblock _),
    AList.lookup_insert_ne (hblock _)]
  by_cases h : sequence = 0
  · rw [h, AList.lookup_insert, if_pos rfl]
  · have hne : manifestPathFor sequence ≠ manifestPathFor 0 := by
      intro heq
      exact h (manifestName_injective (congrArg Path.name heq))
    rw [AList.lookup_insert_ne hne, if_neg h]
    rfl

theorem singleResult_valid {metadata : RunMetadata} {canonical : List ScenarioBlock}
    {block : ScenarioBlock} {payoff : Binary64} (hspec : metadata.spec = twoScenarios)
    (hvalid : (⟨1, payoff, 0, payoff, payoff⟩ : AggregateStats Binary64).invariantError = none)
    (hscenarios : expectedObservations false block = 1) (hlease : block.leaseEpoch ≠ 0)
    (hblock : ∃ b, canonical[block.blockId.toNat]? = some b ∧
      block = b.leased block.runIncarnation block.leaseEpoch) :
    ValidResult metadata canonical (singleResult metadata block payoff) where
  runSpecHash := rfl
  executionLayoutHash := rfl
  buildFingerprint := rfl
  rngVersion := rfl
  statsSchemaVersion := by rw [hspec]; rfl
  block := hblock
  aggregate := by
    rw [hspec]
    exact AggregateStats.invariantError_some hvalid hscenarios.symm
  leaseEpoch := hlease
  checksum := aggregatePayloadHash_eq_ok.mpr ⟨rfl, hvalid, rfl⟩

theorem overflowingResults_sound {metadata : RunMetadata} (hspec : metadata.spec = twoScenarios) :
    SoundResults metadata [⟨0, 0, 1, 0, 1⟩, ⟨1, 1, 2, 0, 1⟩] 1 [1, 1]
      (overflowingResults metadata) := by
  have hfirst : ValidResult metadata [⟨0, 0, 1, 0, 1⟩, ⟨1, 1, 2, 0, 1⟩]
      (singleResult metadata ⟨0, 0, 1, 1, 1⟩ ⟨0x7FE0000000000000⟩) :=
    singleResult_valid hspec (by decide +kernel) (by decide) (by decide) ⟨_, rfl, rfl⟩
  have hsecond : ValidResult metadata [⟨0, 0, 1, 0, 1⟩, ⟨1, 1, 2, 0, 1⟩]
      (singleResult metadata ⟨1, 1, 2, 1, 1⟩ ⟨0xFFE0000000000000⟩) :=
    singleResult_valid hspec (by decide +kernel) (by decide) (by decide) ⟨_, rfl, rfl⟩
  have hcases : ∀ (i : ℕ) result, (overflowingResults metadata)[i]? = some (some result) →
      i = 0 ∧ result = singleResult metadata ⟨0, 0, 1, 1, 1⟩ ⟨0x7FE0000000000000⟩ ∨
      i = 1 ∧ result = singleResult metadata ⟨1, 1, 2, 1, 1⟩ ⟨0xFFE0000000000000⟩ := by
    rintro (_ | _ | i) result h
    · exact Or.inl ⟨rfl, (Option.some.inj (Option.some.inj h)).symm⟩
    · exact Or.inr ⟨rfl, (Option.some.inj (Option.some.inj h)).symm⟩
    · simp [overflowingResults] at h
  refine ⟨rfl, rfl, by simp, by simp, ?_, ?_⟩
  · intro i result h
    rcases hcases i result h with ⟨rfl, rfl⟩ | ⟨rfl, rfl⟩
    · exact ⟨rfl, hfirst⟩
    · exact ⟨rfl, hsecond⟩
  · intro i result h
    have hone : (1 : UInt64) ≠ 0 := by decide
    rcases hcases i result h with ⟨rfl, rfl⟩ | ⟨rfl, rfl⟩
    · exact ⟨hone, UInt64.le_refl 1, UInt64.le_refl 1, fun _ => rfl⟩
    · exact ⟨hone, UInt64.le_refl 1, UInt64.le_refl 1, fun _ => rfl⟩

theorem overflowingDisk_stored (metadata : RunMetadata) (manifest : Bytes) :
    ∀ (i : ℕ) result, (overflowingResults metadata)[i]? = some (some result) →
      Stored (overflowingDisk metadata manifest) metadata result := by
  have hne : blockPathFor ⟨0, 0, 1, 1, 1⟩ ≠ blockPathFor ⟨1, 1, 2, 1, 1⟩ := by
    intro h
    have := blockName_injective (congrArg Path.name h)
    simp [ScenarioBlock.attempt] at this
  have hfirst : (overflowingDisk metadata manifest).lookup (blockPathFor ⟨0, 0, 1, 1, 1⟩) =
      some (.regular ((singleResult metadata ⟨0, 0, 1, 1, 1⟩ ⟨0x7FE0000000000000⟩).fileBytes
        metadata)) := by
    rw [overflowingDisk, AList.lookup_insert_ne hne, AList.lookup_insert]
  have hsecond : (overflowingDisk metadata manifest).lookup (blockPathFor ⟨1, 1, 2, 1, 1⟩) =
      some (.regular ((singleResult metadata ⟨1, 1, 2, 1, 1⟩ ⟨0xFFE0000000000000⟩).fileBytes
        metadata)) := by
    rw [overflowingDisk, AList.lookup_insert]
  rintro (_ | _ | i) result h
  · obtain rfl := Option.some.inj (Option.some.inj h)
    change Disk.file _ (blockPathFor ⟨0, 0, 1, 1, 1⟩) = _
    rw [Disk.file, hfirst]
  · obtain rfl := Option.some.inj (Option.some.inj h)
    change Disk.file _ (blockPathFor ⟨1, 1, 2, 1, 1⟩) = _
    rw [Disk.file, hsecond]
  · simp [overflowingResults] at h

/-- The encoder accepts the manifest. -/
theorem overflowingManifest_encodes {metadata : RunMetadata} (hspec : metadata.spec = twoScenarios)
    (hcount : metadata.blockCount = 2) :
    ∃ bytes, encodeManifest (overflowingManifest metadata) = .ok bytes ∧ bytes.length = 397 := by
  have hencodable : EncodableManifest (overflowingManifest metadata) :=
    encodableManifest_of_sound (overflowingResults_sound hspec)
      ⟨rfl, rfl, rfl, rfl, rfl, rfl, rfl, rfl, rfl⟩ (by rw [hcount]; rfl) (by simp)
      (by rw [hspec]; rfl) (by exact AggregateStats.empty_invariantError)
      (by simp [overflowingManifest]) (by simp [overflowingManifest])
      (by simp [overflowingManifest])
  refine ⟨_, encodeManifest_eq_ok.mpr ⟨hencodable, _, rfl, rfl⟩, ?_⟩
  exact length_encodeManifest (encodeManifest_eq_ok.mpr ⟨hencodable, _, rfl, rfl⟩) rfl

/-- Merging the two results throws. -/
theorem overflowingResults_reduce (metadata : RunMetadata) :
    reduceBlockResults (leavesOf (overflowingResults metadata)) = .error ⟨.overflowError, .merge,
      "merged aggregate is not representable: aggregate contains a non-finite value"⟩ := by
  have hleaves : leavesOf (overflowingResults metadata) =
      [⟨1, ⟨0x7FE0000000000000⟩, 0, ⟨0x7FE0000000000000⟩, ⟨0x7FE0000000000000⟩⟩,
        ⟨1, ⟨0xFFE0000000000000⟩, 0, ⟨0xFFE0000000000000⟩, ⟨0xFFE0000000000000⟩⟩] := rfl
  rw [hleaves]
  decide +kernel

/-- Both files are valid on their own, and merging them throws; the loader throws as well. -/
theorem loadLatestValidManifest_throws_on_overflow :
    ∃ metadata canonical world,
      expectedMetadata ⟨[66]⟩ twoScenarios singleBlocks = .ok metadata ∧
      makeBlocks metadata.spec singleBlocks = .ok canonical ∧
      (∀ sequence bytes, world.disk.file (manifestPathFor sequence) = some bytes →
        bytes.length ≤ (RunStoreConfig.defaults "run").maxManifestBytes.toNat) ∧
      ¬ SelectsHighest world.disk (.defaults "run") metadata canonical
        (run Environment.idle.handle
          (loadLatestValidManifest singleBlocks (.defaults "run") metadata) world).1 := by
  obtain ⟨metadata, hmetadata⟩ := expectedMetadata_of_makeBlocks ⟨[66]⟩ makeBlocks_twoScenarios
  obtain ⟨-, -, -, -, -, heq⟩ := expectedMetadata_eq_ok hmetadata
  have hspec : metadata.spec = twoScenarios := by rw [heq]
  have hcount : metadata.blockCount = 2 := by
    rw [heq]
    exact (rfl : blockCount twoScenarios singleBlocks.blockSize = 2)
  have hblocks : makeBlocks metadata.spec singleBlocks =
      .ok [⟨0, 0, 1, 0, 1⟩, ⟨1, 1, 2, 0, 1⟩] := by rw [hspec]; exact makeBlocks_twoScenarios
  obtain ⟨bytes, hencode, hlength⟩ := overflowingManifest_encodes hspec hcount
  have hlimit : 397 ≤ (RunStoreConfig.defaults "run").maxManifestBytes.toNat := by decide
  have hsize : ∀ sequence found,
      (overflowingDisk metadata bytes).file (manifestPathFor sequence) = some found →
      found.length ≤ (RunStoreConfig.defaults "run").maxManifestBytes.toNat := by
    intro sequence found h
    rw [overflowingDisk_manifests] at h
    split at h
    · cases h
      rw [hlength]
      exact hlimit
    · cases h
  refine ⟨metadata, _, ⟨overflowingDisk metadata bytes, 0, 0⟩, hmetadata, hblocks, hsize, ?_⟩
  have hiff := selectsHighest_iff Environment.idle_faultless.quiet hblocks (by rw [hcount]; rfl)
    ⟨overflowingDisk metadata bytes, 0, 0⟩ hsize
  intro hselects
  have hfile : (overflowingDisk metadata bytes).file (manifestPathFor 0) = some bytes := by
    rw [overflowingDisk_manifests, if_pos rfl]
  have hloadable : Loadable (overflowingDisk metadata bytes) (.defaults "run") metadata _ 0 _ :=
    loadable_of_stored (overflowingResults_sound hspec)
      ⟨rfl, rfl, rfl, rfl, rfl, rfl, rfl, rfl, rfl⟩ (overflowingDisk_stored metadata bytes) hfile
      hencode rfl (le_trans (by norm_num) hlimit) (by rw [hlength]; exact hlimit)
  have hthrows : ReductionThrows (overflowingDisk metadata bytes) (.defaults "run") metadata _ 0 :=
    ⟨_, hloadable, _, overflowingResults_reduce metadata⟩
  obtain ⟨higher, snapshot, hlt, hhigher⟩ := hiff.mp hselects 0 hthrows
  have hsome := hhigher.toLoadable.isSome_file
  rw [overflowingDisk_manifests] at hsome
  split at hsome
  · rename_i hzero
    rw [hzero] at hlt
    exact absurd hlt (UInt64.lt_irrefl 0)
  · cases hsome

end MonteCarlo
