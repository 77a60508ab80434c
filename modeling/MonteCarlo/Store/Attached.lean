import MonteCarlo.Store.Checkpoints

/-!
# Stores and their directories

What a store in memory and its directory have to do with each other, from `open` on through any
calls of `record_result` and `checkpoint`, in an arbitrary environment.

* `Attached` — the invariant: the store serves the run of its directory, and every durable result
  in memory is on disk.
* `Opens.attached` — `open` establishes it.
* `Records.attached`, `Checkpoints.attached` — the mutators preserve it.
* `Topmost` — no manifest is numbered above the next one of the store.
-/

namespace MonteCarlo

open Effects Effects.Program

/-- The store serves the run of its directory, and its durable results are on disk. -/
structure Attached (expected : RunMetadata) (canonical : List ScenarioBlock) (args : OpenArguments)
    (store : DurableRunStore) (disk : Disk) : Prop where
  config : store.config = args.config
  spec : store.spec = args.spec
  engineConfig : store.engineConfig = args.engineConfig
  metadata : store.metadata.Alike expected
  file : ∃ bytes, disk.file metadataPath = some bytes ∧ encodeRunMetadata expected = .ok bytes
  leased : ∃ leases, store.recovery.blocks = leaseAll store.recovery.runIncarnation canonical leases ∧
    SoundResults expected canonical store.recovery.runIncarnation leases store.durableResults
  stored : ∀ (i : ℕ) result, store.durableResults[i]? = some (some result) →
    Stored disk expected result
  committed : ∀ (i : ℕ) result, store.recovery.committedResults[i]? = some (some result) →
    store.durableResults[i]? = some (some result)

/-- As long as the run goes on, no manifest is numbered above the next one of the store.  A
checkpoint that throws may leave that one. -/
def Topmost (store : DurableRunStore) (disk : Disk) : Prop :=
  store.recovery.status = .running → ∀ sequence, (disk.file (manifestPathFor sequence)).isSome →
    sequence.toNat ≤ store.recovery.manifestSequence.toNat + 1

section Opening

variable {env : Environment} {expected : RunMetadata} {canonical : List ScenarioBlock}
  {args : OpenArguments} {disk next : Disk} {trail : Trail} {store : DurableRunStore}

theorem RunOf.positioned (hrun : RunOf expected canonical args) : Positioned canonical :=
  (canonicalBlocks_of_makeBlocks hrun.canonical).positioned

/-- What the execution has come by, in an owned directory. -/
theorem Trail.Of.owned (h : trail.Of env args disk) (hrun : RunOf expected canonical args)
    (howned : Owned expected disk) :
    trail.canonical = canonical ∧ trail.blocks = canonical ∧ trail.metadata.Alike expected ∧
      ∃ bytes, trail.registered.file metadataPath = some bytes ∧
        encodeRunMetadata expected = .ok bytes := by
  have hexpected : trail.expected = expected := by
    have hboth := h.expected
    rw [hrun.expected] at hboth
    exact (Except.ok.inj hboth).symm
  have hregisters := h.registers
  rw [hexpected] at hregisters
  obtain ⟨halike, hfile⟩ := hregisters.owned hrun howned
  have hspec : expected.spec = args.spec := hrun.expected_spec
  have hcanonical := h.canonical
  rw [halike.makeBlocks, hspec, hrun.canonical] at hcanonical
  have hblocks := h.blocks
  rw [hrun.canonical] at hblocks
  exact ⟨(Except.ok.inj hcanonical).symm, (Except.ok.inj hblocks).symm, halike, hfile⟩

theorem Trail.Of.runOf (h : trail.Of env args disk) : RunOf trail.expected trail.blocks args :=
  ⟨h.expected, h.blocks⟩

theorem Opens.exists_trail (h : Opens env args disk store next) : ∃ trail : Trail, trail.Of env args disk := by
  cases h with
  | intro htrail hcleans horphans => exact ⟨_, htrail⟩

/-- The loaded manifest and its results. -/
theorem Trail.Of.loaded (h : trail.Of env args disk) (hrun : RunOf expected canonical args)
    (howned : Owned expected disk) {snapshot : LoadedManifest}
    (hsnapshot : snapshot ∈ trail.load.loaded) :
    Qualifies trail.registered args.config expected canonical snapshot.manifest.sequence snapshot ∧
      SoundResults expected canonical snapshot.manifest.runIncarnation
        snapshot.manifest.leaseEpochs snapshot.results ∧
      ∀ (i : ℕ) result, snapshot.results[i]? = some (some result) →
        Stored trail.registered expected result := by
  obtain ⟨hcanonical, -, halike, -⟩ := h.owned hrun howned
  have hqualifies := (h.loads.qualifies snapshot hsnapshot).2.alike halike
  rw [hcanonical] at hqualifies
  obtain ⟨hsound, -⟩ := hqualifies.toLoadable.sound hrun.positioned hrun.length
  exact ⟨hqualifies, hsound, fun i result hi =>
    hqualifies.toLoadable.stored hrun.positioned hrun.length hi⟩

/-- What is recovered. -/
theorem Trail.Of.recovered (h : trail.Of env args disk) (hrun : RunOf expected canonical args)
    (howned : Owned expected disk) :
    ∃ leases, Recovered expected canonical trail.recovery leases ∧
      ((trail.recovery.status = .running ∧ ∃ manifest, ManifestFor expected leases
          trail.recovery.committedResults trail.recovery.manifestSequence
          trail.recovery.runIncarnation .running manifest ∧
          InstallsManifest trail.registered manifest trail.recovered) ∨
        trail.recovery.status ≠ .running ∧ trail.recovered = trail.registered) := by
  obtain ⟨hcanonical, hblocks, halike, -⟩ := h.owned hrun howned
  have hrecovers := h.recovers
  rw [hblocks] at hrecovers
  obtain ⟨leases, ⟨hleased, hsound⟩, hmanifest⟩ := hrecovers.recovered fun snapshot hsnapshot =>
    (h.loaded hrun howned hsnapshot).2.1.alike halike.symm
  refine ⟨leases, ⟨hleased, hsound.alike halike⟩, hmanifest.imp_left ?_⟩
  rintro ⟨hstatus, manifest, hmanifest, hinstalls⟩
  exact ⟨hstatus, manifest, hmanifest.alike halike, hinstalls⟩

/-- Installing a manifest keeps the files of results. -/
theorem Stored.installs {path : Path} {bytes : Bytes} {metadata : RunMetadata}
    {result : BlockResult} (h : Stored disk metadata result)
    (hinstalls : Installs disk path bytes next) : Stored next metadata result :=
  hinstalls.keeps h

theorem Stored.same {metadata : RunMetadata} {result : BlockResult}
    (h : Stored disk metadata result) (hsame : disk.Same next) : Stored next metadata result := by
  unfold Stored
  rwa [hsame.file (lasting_blockPathFor _)]

/-- The recovered results are on disk. -/
theorem Trail.Of.stored (h : trail.Of env args disk) (hrun : RunOf expected canonical args)
    (howned : Owned expected disk) {i : ℕ} {result : BlockResult}
    (hi : trail.recovery.committedResults[i]? = some (some result)) :
    Stored trail.recovered expected result := by
  have hrecovers := h.recovers
  generalize trail.recovery = recovery at hi hrecovers
  generalize trail.recovered = recovered at hrecovers ⊢
  cases hrecovers with
  | started hnone hmanifest hinstalls =>
    rw [List.getElem?_replicate] at hi
    split at hi <;> cases hi
  | resumed hsome hstatus hincarnation hsequence hmanifest hinstalls =>
    obtain ⟨bytes, -, hinstalls⟩ := hinstalls
    exact ((h.loaded hrun howned hsome).2.2 i result hi).installs hinstalls
  | ended hsome hstatus => exact (h.loaded hrun howned hsome).2.2 i result hi

/-- The clean-up keeps the files of committed results. -/
theorem Disk.Cleans.stored {committed : List (Option BlockResult)} {incarnation : UInt64}
    {leases : List UInt64} (h : disk.Cleans committed next)
    (hsound : SoundResults expected canonical incarnation leases committed) {i : ℕ}
    {result : BlockResult} (hi : committed[i]? = some (some result))
    (hstored : Stored disk expected result) : Stored next expected result := by
  rcases h _ (lasting_blockPathFor result.block) with hsame | ⟨horphan, -⟩
  · rw [Stored, Disk.file, hsame]
    exact hstored
  · refine absurd ?_ horphan.2.2.2
    exact ⟨result.block, result, by rw [(hsound.valid i result hi).1]; exact hi, rfl, rfl, rfl⟩

/-- The clean-up keeps every other file. -/
theorem Disk.Cleans.file {committed : List (Option BlockResult)} {path : Path}
    (h : disk.Cleans committed next) (hpath : path.Lasting) (hdir : path.dir ≠ .blockResults) :
    next.file path = disk.file path := by
  unfold Disk.file
  rcases h path hpath with hsame | ⟨horphan, -⟩
  · rw [hsame]
  · exact absurd horphan.1 hdir

/-- The metadata stays. -/
theorem Trail.Of.file (h : trail.Of env args disk) (hrun : RunOf expected canonical args)
    (howned : Owned expected disk) :
    ∃ bytes, trail.recovered.file metadataPath = some bytes ∧
      encodeRunMetadata expected = .ok bytes := by
  obtain ⟨-, -, -, bytes, hfile, hencode⟩ := h.owned hrun howned
  refine ⟨bytes, ?_, hencode⟩
  have hrecovers := h.recovers
  generalize trail.recovery = recovery at hrecovers
  generalize trail.recovered = recovered at hrecovers ⊢
  cases hrecovers with
  | started hnone hmanifest hinstalls =>
    obtain ⟨_, -, hinstalls⟩ := hinstalls
    exact hinstalls.keeps hfile
  | resumed hsome hstatus hincarnation hsequence hmanifest hinstalls =>
    obtain ⟨_, -, hinstalls⟩ := hinstalls
    exact hinstalls.keeps hfile
  | ended hsome hstatus => exact hfile

/-- An opened store is attached to its directory. -/
theorem Opens.attached (h : Opens env args disk store next) (hrun : RunOf expected canonical args)
    (howned : Owned expected disk) : Attached expected canonical args store next := by
  cases h with
  | @intro trail usage _ htrail hcleans horphans =>
    obtain ⟨-, -, halike, -⟩ := htrail.owned hrun howned
    obtain ⟨leases, ⟨hleased, hsound⟩, -⟩ := htrail.recovered hrun howned
    obtain ⟨bytes, hfile, hencode⟩ := htrail.file hrun howned
    refine ⟨rfl, rfl, rfl, halike, ⟨bytes, ?_, hencode⟩, ⟨leases, hleased, hsound⟩,
      fun i result hi => ?_, fun i result hi => hi⟩
    · rw [hcleans.file lasting_metadataPath nofun]
      exact hfile
    · exact hcleans.stored hsound hi (htrail.stored hrun howned hi)

/-- When the manifests are listed to the end, the store continues after the highest one. -/
theorem Opens.topmost (h : Opens env args disk store next) (hall : env.ListsAll .manifests) :
    Topmost store next := by
  cases h with
  | @intro trail usage _ htrail hcleans horphans =>
    intro hrunning sequence hsome
    rw [hcleans.file (lasting_manifestPathFor _) nofun] at hsome
    have hseen := htrail.loads.seen hall sequence
    have hnone := htrail.seen
    have hrecovers := htrail.recovers
    change trail.recovery.status = .running at hrunning
    change sequence.toNat ≤ trail.recovery.manifestSequence.toNat + 1
    generalize trail.recovery = recovery at hrunning hrecovers ⊢
    generalize trail.recovered = recovered at hsome hrecovers
    -- a manifest that was there before, or the new one
    have hcases : ∀ {manifest : RunManifest}, InstallsManifest trail.registered manifest recovered →
        sequence = manifest.sequence ∨
          (trail.registered.file (manifestPathFor sequence)).isSome := by
      rintro manifest ⟨bytes, -, hinstalls⟩
      by_cases hpath : manifestPathFor sequence = manifestPathFor manifest.sequence
      · exact Or.inl (manifestName_injective (congrArg Path.name hpath))
      · rw [hinstalls.file_ne hpath] at hsome
        exact Or.inr hsome
    cases hrecovers with
    | @started manifest _ hload hmanifest hinstalls =>
      rcases hcases hinstalls with rfl | hold
      · rw [(makeManifestFromResults_eq_ok hmanifest).sequence]
        exact Nat.zero_le _
      · rw [(hseen hold).1] at hnone
        cases hnone hload
    | @resumed snapshot renewed manifest _ hload hstatus hincarnation hsequence hmanifest hinstalls =>
      rcases hcases hinstalls with rfl | hold
      · exact Nat.le_succ _
      · have hle := UInt64.le_iff_toNat_le.mp (hseen hold).2
        have hnew : manifest.sequence = trail.load.highestSequenceSeen + 1 := by
          obtain ⟨renewed', -, hmanifest⟩ := Result.bind_eq_ok.mp hmanifest
          obtain ⟨made, hmade, hmanifest⟩ := Result.bind_eq_ok.mp hmanifest
          cases hmanifest
          exact (makeManifestFromResults_eq_ok hmade).sequence
        change sequence.toNat ≤ manifest.sequence.toNat + 1
        rw [hnew, toNat_add_one hsequence]
        omega
    | ended hload hstatus => exact absurd hrunning hstatus

end Opening

/-! ## The mutators -/

section Mutators

variable {env : Environment} {expected : RunMetadata} {canonical : List ScenarioBlock}
  {args : OpenArguments} {store store' : DurableRunStore} {disk next : Disk} {world after : World}

theorem Attached.same (h : Attached expected canonical args store disk) (hsame : disk.Same next) :
    Attached expected canonical args store next :=
  { h with
    file := by
      obtain ⟨bytes, hfile, hencode⟩ := h.file
      exact ⟨bytes, by rw [hsame.file lasting_metadataPath]; exact hfile, hencode⟩
    stored := fun i result hi => (h.stored i result hi).same hsame }

/-- A file more does no harm. -/
theorem Attached.installs (h : Attached expected canonical args store disk) {path : Path}
    {bytes : Bytes} (hinstalls : Installs disk path bytes next) :
    Attached expected canonical args store next :=
  { h with
    file := by
      obtain ⟨bytes, hfile, hencode⟩ := h.file
      exact ⟨bytes, hinstalls.keeps hfile, hencode⟩
    stored := fun i result hi => (h.stored i result hi).installs hinstalls }

theorem leaseAll_getElem? {incarnation : UInt64} {blocks : List ScenarioBlock}
    {leases : List UInt64} {i : ℕ} {block : ScenarioBlock}
    (h : (leaseAll incarnation blocks leases)[i]? = some block) :
    ∃ canonical, blocks[i]? = some canonical ∧ i < leases.length ∧
      block = canonical.leased incarnation (leases.getD i 0) := by
  obtain ⟨canonical, epoch, hblock, hepoch, rfl⟩ := List.getElem?_zipWith_eq_some.mp h
  obtain ⟨hi, rfl⟩ := List.getElem?_eq_some_iff.mp hepoch
  exact ⟨canonical, hblock, hi, by rw [List.getD_eq_getElem _ _ hi]⟩

theorem Attached.length (h : Attached expected canonical args store disk)
    (hrun : RunOf expected canonical args) :
    store.durableResults.length = store.metadata.blockCount.toNat := by
  obtain ⟨leases, -, hsound⟩ := h.leased
  rw [hsound.length_eq, hrun.length, h.metadata.blockCount]

/-- What `record_result` has checked: a valid result of the current attempt at its block. -/
theorem Attached.valid (h : Attached expected canonical args store disk)
    (hrun : RunOf expected canonical args) {leases : List UInt64}
    (hleased : store.recovery.blocks = leaseAll store.recovery.runIncarnation canonical leases)
    (hne : ∀ epoch ∈ leases, epoch ≠ 0) {result : BlockResult}
    (hcheck : checkRecord store result = .ok ()) :
    store.recovery.status = .running ∧ result.block.blockId.toNat < canonical.length ∧
      ValidResult expected canonical result ∧
      result.block.runIncarnation = store.recovery.runIncarnation ∧
      result.block.leaseEpoch = leases.getD result.block.blockId.toNat 0 := by
  obtain ⟨⟨⟩, hstatus, hcheck⟩ := Result.bind_eq_ok.mp hcheck
  rw [throwIf_eq_ok, decide_eq_false_iff_not, not_not] at hstatus
  split at hcheck
  · cases hcheck
  · rename_i block hblock
    rw [hleased] at hblock
    obtain ⟨canonicalBlock, hcanonical, hi, rfl⟩ := leaseAll_getElem? hblock
    obtain ⟨⟨⟩, hfields, hcheck⟩ := Result.bind_eq_ok.mp hcheck
    obtain ⟨checksum, hchecksum, hcheck⟩ := Result.bind_eq_ok.mp hcheck
    obtain ⟨⟨⟩, hpayload, hcheck⟩ := Result.bind_eq_ok.mp hcheck
    simp only [throwIf_eq_ok, Bool.or_eq_false_iff, decide_eq_false_iff_not, ne_eq, not_not]
      at hfields hpayload
    obtain ⟨⟨⟨⟨⟨⟨⟨⟨hspec, hlayout⟩, hbuild⟩, hrng⟩, hstats⟩, hstart⟩, hend⟩, hincarnation⟩, hlease⟩ :=
      hfields
    obtain ⟨hlt, hcanonical'⟩ := List.getElem?_eq_some_iff.mp hcanonical
    have hspec' : store.spec = expected.spec := h.spec.trans hrun.expected_spec.symm
    have hid : canonicalBlock.blockId = result.block.blockId := by
      rw [← hcanonical']
      exact UInt64.toNat_inj.mp (hrun.positioned _ hlt)
    have haggregate : result.aggregate.invariantError
        (some (expectedObservations expected.spec.antithetic result.block)) = none := by
      rw [← hspec', expectedObservations, hstart, hend]
      split at hcheck
      · cases hcheck
      · assumption
    refine ⟨hstatus, hlt, ?_, hincarnation, hlease⟩
    refine ⟨?_, ?_, ?_, by rw [hrng, hspec'], by rw [hstats, hspec'],
      ⟨canonicalBlock, hcanonical, ?_⟩, haggregate, ?_, by rw [hpayload]; exact hchecksum⟩
    · exact hspec.trans h.metadata.hashes.1
    · exact hlayout.trans h.metadata.hashes.2.1
    · exact hbuild.trans h.metadata.hashes.2.2
    · rw [ScenarioBlock.leased, hid]
      simp only [ScenarioBlock.leased] at hstart hend
      rw [← hstart, ← hend]
    · rw [hlease]
      simp only [ScenarioBlock.leased]
      rw [List.getD_eq_getElem _ _ hi]
      exact hne _ (List.getElem_mem hi)

/-- One more result of the current attempt. -/
theorem SoundResults.set {incarnation : UInt64} {leases : List UInt64}
    {results : List (Option BlockResult)}
    (h : SoundResults expected canonical incarnation leases results) {result : BlockResult}
    (hvalid : ValidResult expected canonical result)
    (hincarnation : result.block.runIncarnation = incarnation)
    (hlease : result.block.leaseEpoch = leases.getD result.block.blockId.toNat 0) :
    SoundResults expected canonical incarnation leases
      (results.set result.block.blockId.toNat (some result)) := by
  have hcases : ∀ (i : ℕ) other,
      (results.set result.block.blockId.toNat (some result))[i]? = some (some other) →
        (i = result.block.blockId.toNat ∧ other = result) ∨ results[i]? = some (some other) := by
    intro i other hi
    by_cases hindex : i = result.block.blockId.toNat
    · subst hindex
      rw [List.getElem?_set_self'] at hi
      obtain ⟨_, -, hsome⟩ := Option.map_eq_some_iff.mp hi
      exact Or.inl ⟨rfl, (Option.some.inj hsome).symm⟩
    · rw [List.getElem?_set_ne (Ne.symm hindex)] at hi
      exact Or.inr hi
  refine { h with length_eq := ?_, valid := fun i other hi => ?_, fenced := fun i other hi => ?_ }
  · rw [List.length_set, h.length_eq]
  · rcases hcases i other hi with ⟨rfl, rfl⟩ | hi
    · exact ⟨rfl, hvalid⟩
    · exact h.valid i other hi
  · rcases hcases i other hi with ⟨rfl, rfl⟩ | hi
    · rw [hincarnation, hlease]
      exact ⟨h.incarnation_ne, UInt64.le_refl _, UInt64.le_refl _, fun _ => rfl⟩
    · exact h.fenced i other hi

theorem Records.attached {result : BlockResult} (h : Records store result disk store' next)
    (hrun : RunOf expected canonical args) (hattached : Attached expected canonical args store disk) :
    Attached expected canonical args store' next := by
  cases h with
  | repeated hcheck hearlier hattempt => exact hattached
  | @written bytes usage _ hcheck hnew hencode hinstalls =>
    obtain ⟨leases, hleased, hsound⟩ := hattached.leased
    obtain ⟨-, hlt, hvalid, hincarnation, hlease⟩ :=
      hattached.valid hrun hleased hsound.leases_ne hcheck
    have hnext := hattached.installs hinstalls
    have hrunId : store.metadata.runId = expected.runId := hattached.metadata.runId
    have hbytes : bytes = result.fileBytes expected := by
      rw [(encodeBlockRecord_eq_ok.mp hencode).2.2, hrunId]
      rfl
    refine { hnext with
      leased := ⟨leases, hleased, hsound.set hvalid hincarnation hlease⟩
      stored := fun i other hi => ?_
      committed := fun i other hi => ?_ }
    · by_cases hindex : i = result.block.blockId.toNat
      · subst hindex
        change (store.durableResults.set _ (some result))[_]? = _ at hi
        rw [List.getElem?_set_self'] at hi
        obtain ⟨_, -, hsome⟩ := Option.map_eq_some_iff.mp hi
        obtain rfl : result = other := Option.some.inj hsome
        rw [Stored, ← hbytes]
        exact hinstalls.file
      · change (store.durableResults.set _ (some result))[_]? = _ at hi
        rw [List.getElem?_set_ne (Ne.symm hindex)] at hi
        exact hnext.stored i other hi
    · have hold := hattached.committed i other hi
      have hindex : i ≠ result.block.blockId.toNat := by
        rintro rfl
        rw [hold] at hnew
        cases hnew
      change (store.durableResults.set _ (some result))[_]? = _
      rw [List.getElem?_set_ne (Ne.symm hindex)]
      exact hold

theorem Checkpoints.attached {coordinator : CoordinatorState}
    {leaves : List (AggregateStats Binary64)} {received : List Bool} {status : DurableRunStatus}
    {failure : Option FailureRecord}
    (h : Checkpoints store coordinator leaves received status failure disk store' next)
    (hattached : Attached expected canonical args store disk) :
    Attached expected canonical args store' next := by
  cases h with
  | @intro manifest bytes usage _ hmanifest hencode hlimit hinstalls =>
    refine { hattached.installs hinstalls with committed := fun i result hi => ?_ }
    change (commitReceived store.recovery.committedResults store.durableResults received)[i]? = _
      at hi
    obtain ⟨old, ⟨durable, flag⟩, hold, hnew, hresult⟩ := List.getElem?_zipWith_eq_some.mp hi
    obtain ⟨hdurable, -⟩ := List.getElem?_zip_eq_some.mp hnew
    split at hresult
    · rw [← hresult]
      exact hdurable
    · rw [hresult] at hold
      exact hattached.committed i result hold

/-- The outcome of a program that stays within some disks. -/
theorem wp_within {α : Type} {P : α → Disk → Prop} {p : Prog α} {outcome : Except Exception α}
    (h : Wp env.handle (Within disk fun next => ∃ a, P a next) (Leaves P) p world)
    (hrun : run env.handle p world = (outcome, after)) :
    (∃ a next, outcome = .ok a ∧ P a next ∧ next.Same after.disk) ∨
      ∃ e, outcome = .error e ∧
        (disk.Same after.disk ∨ ∃ a next, P a next ∧ next.Same after.disk) := by
  have hpost := h.post
  have hfinal := h.final
  rw [hrun] at hpost hfinal
  cases outcome with
  | ok a =>
    obtain ⟨next, hnext, hsame⟩ := hpost a rfl
    exact Or.inl ⟨a, next, rfl, hnext, hsame⟩
  | error e =>
    refine Or.inr ⟨e, rfl, hfinal.imp id ?_⟩
    rintro ⟨next, ⟨a, hnext⟩, hsame⟩
    exact ⟨a, next, hnext, hsame⟩

theorem Topmost.same (h : Topmost store disk) (hsame : disk.Same next) : Topmost store next := by
  intro hrunning sequence hsome
  rw [hsame.file (lasting_manifestPathFor _)] at hsome
  exact h hrunning sequence hsome

/-- A block result is no manifest. -/
theorem Topmost.installs_block (h : Topmost store disk) {block : ScenarioBlock} {bytes : Bytes}
    (hinstalls : Installs disk (blockPathFor block) bytes next) : Topmost store next := by
  intro hrunning sequence hsome
  rw [hinstalls.file_ne (by simp [manifestPathFor, blockPathFor])] at hsome
  exact h hrunning sequence hsome

/-- The next manifest of the store. -/
theorem Topmost.installs_manifest (h : Topmost store disk) {sequence : UInt64} {bytes : Bytes}
    (hle : sequence.toNat ≤ store.recovery.manifestSequence.toNat + 1)
    (hinstalls : Installs disk (manifestPathFor sequence) bytes next) : Topmost store next := by
  intro hrunning other hsome
  by_cases hpath : manifestPathFor other = manifestPathFor sequence
  · rw [manifestName_injective (congrArg Path.name hpath)]
    exact hle
  · rw [hinstalls.file_ne hpath] at hsome
    exact h hrunning other hsome

/-- One file more, whether or not `record_result` returns. -/
theorem Records.kept {result : BlockResult} (h : Records store result disk store' next)
    (hattached : Attached expected canonical args store disk) :
    Attached expected canonical args store next := by
  cases h with
  | repeated hcheck hearlier hattempt => exact hattached
  | written hcheck hnew hencode hinstalls => exact hattached.installs hinstalls

theorem Records.topmost {result : BlockResult} (h : Records store result disk store' next)
    (htop : Topmost store disk) : Topmost store' next ∧ Topmost store next := by
  cases h with
  | repeated hcheck hearlier hattempt => exact ⟨htop, htop⟩
  | written hcheck hnew hencode hinstalls =>
    have hnext := htop.installs_block hinstalls
    exact ⟨hnext, hnext⟩

theorem Checkpoints.kept {coordinator : CoordinatorState}
    {leaves : List (AggregateStats Binary64)} {received : List Bool} {status : DurableRunStatus}
    {failure : Option FailureRecord}
    (h : Checkpoints store coordinator leaves received status failure disk store' next)
    (hattached : Attached expected canonical args store disk) :
    Attached expected canonical args store next := by
  cases h with
  | intro hmanifest hencode hlimit hinstalls => exact hattached.installs hinstalls

theorem Checkpoints.topmost {coordinator : CoordinatorState}
    {leaves : List (AggregateStats Binary64)} {received : List Bool} {status : DurableRunStatus}
    {failure : Option FailureRecord}
    (h : Checkpoints store coordinator leaves received status failure disk store' next)
    (hlength : store.durableResults.length = store.metadata.blockCount.toNat)
    (htop : Topmost store disk) : Topmost store' next ∧ Topmost store next := by
  cases h with
  | @intro manifest bytes usage _ hmanifest hencode hlimit hinstalls =>
    have hof := checkpointManifest_eq_ok hlength hmanifest
    have hsequence : manifest.sequence.toNat = store.recovery.manifestSequence.toNat + 1 := by
      rw [hof.sequence, toNat_add_one hof.sequence_ne]
    have hnext := htop.installs_manifest hsequence.le hinstalls
    refine ⟨fun _ other hsome => ?_, hnext⟩
    have hle := hnext hof.running other hsome
    change other.toNat ≤ manifest.sequence.toNat + 1
    omega

end Mutators

end MonteCarlo
