import MonteCarlo.Engine.Recovery
import MonteCarlo.Store.Leading

/-!
# Committed work is kept

In a directory that nobody damages, a durable run continues the chain of manifests at every moment,
wherever the process dies.  What a manifest has named once stays named and stays in place.

* `Continuing` — what an execution has between two results.
* `Life` — the directories that opens, durable runs and deaths lead to.
* `committed_work_kept` — an entry of a manifest is in every later manifest, its file stays as it
  is, and every later `open` returns its result.
-/

namespace MonteCarlo

open Effects Effects.Program

/-! ## One invocation -/

/-- What an execution has between two results. -/
structure Continuing (expected : RunMetadata) (canonical : List ScenarioBlock) (inv : Invocation)
    (start : Disk) (memory : DurableMemory) (disk : Disk) : Prop where
  tracks : Tracks expected canonical inv memory disk
  leads : Leads expected canonical inv.arguments memory.store disk
  follows : Follows expected canonical start disk

/-- A result that agrees with a manifest. -/
structure Reports (snapshot : LoadedManifest) (result : DurableRunResult) : Prop where
  aggregate : result.run.aggregate = snapshot.manifest.committedAggregate
  manifestSequence : result.manifestSequence = snapshot.manifest.sequence
  runIncarnation : result.runIncarnation = snapshot.manifest.runIncarnation

section Invocations

variable {expected : RunMetadata} {canonical : List ScenarioBlock} {inv : Invocation}
  {env : Environment} {start disk next : Disk} {world now : World} {memory : DurableMemory}
  {store : DurableRunStore}

/-- What `open` leaves, and the room that it has found. -/
theorem opens_of_openStore (args : OpenArguments)
    (hopen : run env.handle args.openStore world = (.ok store, now)) :
    ∃ next, Opens env args world.disk store next ∧ next.Same now.disk ∧
      (args.Fits ∨ world.disk.SameManifests next ∧ store.recovery.status ≠ .running) := by
  have hpost := (@wp_openStore env args world).post
  rw [hopen] at hpost
  obtain ⟨next, hopens, hsame⟩ := hpost store rfl
  refine ⟨next, hopens, hsame, ?_⟩
  by_cases hfits : args.Fits
  · exact Or.inl hfits
  · have hwp : Wp env.handle _ _ args.openStore world := wp_openStore_budgeted hfits
    have hmanifests := hwp.final
    have hstatus := hwp.post
    rw [hopen] at hmanifests hstatus
    refine Or.inr ⟨fun sequence => ?_, hstatus store rfl⟩
    rw [← hsame.file (lasting_manifestPathFor sequence)]
    exact hmanifests sequence

/-- A store with which an execution begins is running. -/
theorem Opens.running (hopens : Opens env inv.arguments disk store next)
    (hrun : RunOf expected canonical inv.arguments) (howned : Owned expected disk)
    (hbegin : beginRun inv.build inv.spec inv.engineConfig store = .ok memory)
    (hstatus : store.recovery.status ≠ .complete) :
    memory.store = store ∧ store.recovery.status = .running := by
  obtain ⟨hfailed, coordinator, rfl⟩ := hopens.beginRun_eq hrun howned hbegin
  refine ⟨rfl, ?_⟩
  cases hcase : store.recovery.status with
  | running => rfl
  | complete => exact absurd hcase hstatus
  | failed => exact absurd hcase hfailed

/-- The checkpoint with which a run ends. -/
theorem Continuing.ends (h : Continuing expected canonical inv start memory disk)
    (hrun : RunOf expected canonical inv.arguments) {status : DurableRunStatus}
    {failure : Option FailureRecord} (hreason : ∀ record ∈ failure, record.reason.length ≤ 147)
    (hcheckpoints : Checkpoints memory.store memory.coordinator memory.leaves memory.received
      status failure disk store next) :
    Follows expected canonical start next ∧ ∃ snapshot,
      Sealed expected canonical next store.recovery.manifestSequence snapshot ∧
        snapshot.manifest.status = status ∧
        snapshot.manifest.runIncarnation = store.recovery.runIncarnation ∧
        snapshot.results = memory.store.durableResults := by
  obtain ⟨snapshot, hsealed, hstatus, hincarnation, hresults⟩ := hcheckpoints.sealed
    h.tracks.attached h.leads hrun h.tracks.leaves h.tracks.received hreason
  obtain ⟨-, -, hfollows⟩ := hcheckpoints.follows h.tracks.attached h.leads hrun hsealed
    hincarnation hresults
  obtain @⟨manifest, bytes, usage, next, hmanifest, hencode, hlimit, hinstalls⟩ := hcheckpoints
  refine ⟨h.follows.trans hfollows, snapshot, ?_, hstatus, hincarnation, hresults⟩
  change Sealed expected canonical next manifest.sequence snapshot
  rwa [(checkpointManifest_sequence hmanifest).2]

/-- An invocation with room for the largest manifest continues the chain. -/
theorem keeps_continuing (hrun : RunOf expected canonical inv.arguments) (hquiet : env.Quiet)
    (hfits : inv.arguments.Fits) (h : Follows expected canonical start disk) :
    inv.Keeps env disk (Continuing expected canonical inv start)
      (Follows expected canonical start) where
  opening next hstage := h.trans (h.toConsistent.opening hrun hquiet hstage (Or.inl hfits))
  begins store memory next hopened hopens hbegin hstatus := by
    obtain ⟨hstore, hrunning⟩ := hopens.running hrun h.owned hbegin hstatus
    have hleads := hopens.leads h.toConsistent hrun hquiet (Or.inl hfits) hrunning
    rw [← hstore] at hleads
    exact ⟨hopens.tracks hrun h.owned hopened hbegin hstatus, hleads,
      h.trans (hopens.covers h.toConsistent hrun hquiet (Or.inl hfits)).1⟩
  holds memory now h := h.follows
  records memory now completed store next h haccepted _ hrecords := by
    obtain ⟨-, -, htracks⟩ := h.tracks.records hrun haccepted hrecords
    obtain ⟨hfollows, hleads⟩ := hrecords.leads h.tracks.attached h.leads hrun
    exact ⟨htracks, hleads, h.follows.trans hfollows⟩
  checkpoints memory now store next h hcheckpoints := by
    obtain ⟨hfollows, hleads⟩ :=
      hcheckpoints.leads h.tracks.attached h.leads hrun h.tracks.leaves h.tracks.received
    exact ⟨h.tracks.checkpoints hcheckpoints, hleads, h.follows.trans hfollows⟩
  fails memory now failure store next h hreason hcheckpoints := by
    refine (h.ends hrun ?_ hcheckpoints).1
    rintro record hrecord
    obtain rfl := Option.some.inj hrecord
    exact hreason
  finishes memory now store next h hcheckpoints := by
    refine (h.ends hrun ?_ hcheckpoints).1
    nofun

/-- An execution has that room. -/
theorem Invocation.Begins.fits {opened : World} (hb : inv.Begins env.handle world opened memory)
    (hrun : RunOf expected canonical inv.arguments) (howned : Owned expected world.disk) :
    inv.arguments.Fits := by
  obtain ⟨store, hopen, hbegin, hstatus⟩ := hb.opened
  obtain ⟨next, hopens, -, hfits | ⟨-, hnot⟩⟩ := opens_of_openStore inv.arguments hopen
  · exact hfits
  · exact absurd (hopens.running hrun howned hbegin hstatus).2 hnot

/-- Every moment of `open`. -/
theorem Consistent.visits_open (h : Consistent expected canonical world.disk)
    {args : OpenArguments} (hrun : RunOf expected canonical args) (hquiet : env.Quiet)
    (hvisits : Visits env.handle args.openStore world now) :
    Follows expected canonical world.disk now.disk ∧
      (args.Fits ∨ world.disk.SameManifests now.disk) := by
  have hbudget : args.Fits ∨ world.disk.SameManifests now.disk := by
    by_cases hfits : args.Fits
    · exact Or.inl hfits
    · exact Or.inr ((wp_openStore_budgeted hfits).visits hvisits)
  obtain ⟨next, hstage, hsame⟩ := (wp_openStore args world).visits hvisits
  have hfollows := h.opening hrun hquiet hstage (hbudget.imp_right fun hmanifests sequence => by
    rw [← hsame.file (lasting_manifestPathFor sequence)]
    exact hmanifests sequence)
  exact ⟨hfollows.trans (hfollows.toConsistent.same hrun.positioned hrun.length hsame), hbudget⟩

/-- Every moment of an invocation. -/
theorem Consistent.visits (h : Consistent expected canonical world.disk)
    (hrun : RunOf expected canonical inv.arguments) (hquiet : env.Quiet)
    (hvisits : inv.DurableVisits env.handle world now) :
    Follows expected canonical world.disk now.disk ∧
      (inv.arguments.Fits ∨ world.disk.SameManifests now.disk) := by
  by_cases hfits : inv.arguments.Fits
  · obtain ⟨next, hnext, hsame⟩ := (keeps_continuing hrun hquiet hfits h.follows).visits hvisits
    exact ⟨hnext.trans (hnext.toConsistent.same hrun.positioned hrun.length hsame), Or.inl hfits⟩
  · refine h.visits_open hrun hquiet ?_
    cases hvisits with
    | opening hvisits => exact hvisits
    | executing hb => exact absurd (hb.fits hrun h.owned) hfits
    | consuming hb => exact absurd (hb.fits hrun h.owned) hfits
    | finishing hb => exact absurd (hb.fits hrun h.owned) hfits

/-- What a run returns is what the last manifest says. -/
theorem reports_of_durableResult {workers : ℕ} {result : DurableRunResult}
    {sequence : UInt64} {snapshot : LoadedManifest}
    (hresult : durableResult inv.spec memory workers = .ok result)
    (hleaves : memory.leaves = leavesOf snapshot.results)
    (hsequence : memory.store.recovery.manifestSequence = sequence)
    (hincarnation : snapshot.manifest.runIncarnation = memory.store.recovery.runIncarnation)
    (hsealed : Sealed expected canonical disk sequence snapshot) : Reports snapshot result := by
  obtain ⟨config, -, hvalid⟩ := hsealed.valid
  obtain ⟨aggregate, haggregate, hpure⟩ := Result.bind_eq_ok.mp hresult
  rw [hleaves, hvalid.reduction] at haggregate
  cases haggregate
  cases hpure
  exact ⟨rfl, hsequence.trans hsealed.sequence_eq.symm, hincarnation.symm⟩

/-- A run that returns leaves a last manifest that is complete, and returns what it says. -/
theorem Consistent.returns (h : Consistent expected canonical world.disk)
    (hrun : RunOf expected canonical inv.arguments) (hquiet : env.Quiet) {result : DurableRunResult}
    (hruns : inv.RunParallelDurable env.handle world (.ok result) now) :
    Follows expected canonical world.disk now.disk ∧ ∃ snapshot,
      Sealed expected canonical now.disk result.manifestSequence snapshot ∧
        snapshot.manifest.status = .complete ∧ Reports snapshot result := by
  refine ⟨(h.visits hrun hquiet hruns.visits).1, ?_⟩
  have hlast : ∀ {next : Disk} {sequence : UInt64} {snapshot : LoadedManifest},
      Consistent expected canonical next → next.Same now.disk →
      Sealed expected canonical next sequence snapshot → Reports snapshot result →
      Sealed expected canonical now.disk result.manifestSequence snapshot := by
    intro next sequence snapshot hnext hsame hsealed hreports
    rw [hreports.manifestSequence, hsealed.sequence_eq]
    exact (hnext.same hrun.positioned hrun.length hsame).keeps _ _ hsealed
  obtain ⟨outcome, houtcome⟩ : ∃ outcome : Result DurableRunResult, outcome = .ok result :=
    ⟨_, rfl⟩
  rw [← houtcome] at hruns
  cases hruns with
  | openThrows hopen => cases houtcome
  | beginThrows hopen hbegin => cases houtcome
  | complete hopen hbegin hstatus =>
    obtain ⟨next, hopens, hsame, hbudget⟩ := opens_of_openStore inv.arguments hopen
    replace hbudget := hbudget.imp_right And.left
    obtain ⟨snapshot, hsealed, heq, hincarnation, hresults⟩ :=
      hopens.last h hrun hquiet hbudget (by rw [hstatus]; nofun)
    obtain ⟨-, coordinator, rfl⟩ := hopens.beginRun_eq hrun h.owned hbegin
    have hreports := reports_of_durableResult houtcome (by rw [hresults]) rfl hincarnation hsealed
    exact ⟨snapshot, hlast (hopens.covers h hrun hquiet hbudget).1.toConsistent hsame hsealed
      hreports, heq.trans hstatus, hreports⟩
  | executionThrows hb hexecutes herror => cases houtcome
  | finishes hb hexecutes hworkers =>
    have hkeeps : inv.Keeps env world.disk _ _ :=
      keeps_continuing hrun hquiet (hb.fits hrun h.owned) h.follows
    obtain ⟨hd, hconsumed⟩ := Invocation.executes_sequential_ok hb hexecutes hworkers
    obtain ⟨middle, hI, hmiddle⟩ := hkeeps.consumed hb hd hconsumed
    obtain ⟨next, ⟨memory, before, store, workers, hcontinuing, -, hcheckpoints, hresult⟩, hsame⟩ :=
      (hkeeps.finish hI hmiddle _).post result houtcome
    obtain ⟨hfollows, snapshot, hsealed, hstatus, hincarnation, hresults⟩ :=
      hcontinuing.ends hrun (by nofun) hcheckpoints
    have hreports := reports_of_durableResult hresult
      (by rw [hresults]; exact hcontinuing.tracks.leaves) rfl hincarnation hsealed
    exact ⟨snapshot, hlast hfollows.toConsistent hsame hsealed hreports, hstatus, hreports⟩

end Invocations

/-! ## Histories without damage -/

/-- Arguments of the run: the same build, specification and block size. -/
structure OpenArguments.Of (build : BuildIdentity) (spec : RunSpec) (blockSize : UInt64)
    (args : OpenArguments) : Prop where
  build : args.build = build
  spec : args.spec = spec
  blockSize : args.engineConfig.blockSize = blockSize

/-- The directories that opens, durable runs and deaths at any moment lead to from `start`, with the
arguments of the run used so far.  Their limits may differ.  Others may come with arguments that
`open` refuses.  No call of the reading half fails for the former, and nothing is damaged. -/
inductive Life (build : BuildIdentity) (spec : RunSpec) (blockSize : UInt64) (start : Disk) :
    List OpenArguments → Disk → Prop where
  | start : Life build spec blockSize start [] start
  | opening {past : List OpenArguments} {args : OpenArguments} {env : Environment}
      {world now : World} (hlife : Life build spec blockSize start past world.disk)
      (hof : args.Of build spec blockSize) (hquiet : env.Quiet)
      (hvisits : Visits env.handle args.openStore world now) :
      Life build spec blockSize start (args :: past) now.disk
  | running {past : List OpenArguments} {inv : Invocation} {env : Environment}
      {world now : World} (hlife : Life build spec blockSize start past world.disk)
      (hof : inv.arguments.Of build spec blockSize) (hquiet : env.Quiet)
      (hvisits : inv.DurableVisits env.handle world now) :
      Life build spec blockSize start (inv.arguments :: past) now.disk
  | refused {past : List OpenArguments} {args : OpenArguments} {env : Environment}
      {world now : World} (hlife : Life build spec blockSize start past world.disk)
      (hrefused : args.Refused world.disk) (hvisits : Visits env.handle args.openStore world now) :
      Life build spec blockSize start past now.disk
  | runRefused {past : List OpenArguments} {inv : Invocation} {env : Environment}
      {world now : World} (hlife : Life build spec blockSize start past world.disk)
      (hrefused : inv.arguments.Refused world.disk)
      (hvisits : inv.DurableVisits env.handle world now) : Life build spec blockSize start past now.disk

section Lives

variable {build : BuildIdentity} {spec : RunSpec} {blockSize : UInt64} {start disk : Disk}
  {past : List OpenArguments} {args other : OpenArguments} {expected expected' : RunMetadata}
  {canonical canonical' : List ScenarioBlock} {env : Environment} {world now : World}

/-- The run has one metadata and one list of blocks. -/
theorem RunOf.unique (hrun : RunOf expected canonical args) (hof : args.Of build spec blockSize)
    (hrun' : RunOf expected' canonical' other) (hof' : other.Of build spec blockSize) :
    expected = expected' ∧ canonical = canonical' := by
  obtain ⟨rfl, rfl, rfl⟩ := hof
  obtain ⟨hbuild, hspec, hsize⟩ := hof'
  have hexpected := hrun'.expected
  have hcanonical := hrun'.canonical
  rw [hbuild, hspec] at hexpected
  rw [hspec] at hcanonical
  refine ⟨expectedMetadata_unique hsize.symm hrun.expected hexpected, ?_⟩
  obtain ⟨-, -, -, -, rfl⟩ := makeBlocks_eq_ok hrun.canonical
  obtain ⟨-, -, -, -, rfl⟩ := makeBlocks_eq_ok hcanonical
  rw [hsize]

/-- Arguments that are refused leave the files as they are. -/
theorem OpenArguments.Refused.same_of_visits (h : args.Refused world.disk)
    (hvisits : Visits env.handle args.openStore world now) : world.disk.Same now.disk := by
  obtain ⟨next, hstage, hsame⟩ := (wp_openStore args world).visits hvisits
  rwa [hstage.eq_of_refused h] at hsame

theorem OpenArguments.Refused.same_of_run {inv : Invocation} (h : inv.arguments.Refused world.disk)
    (hvisits : inv.DurableVisits env.handle world now) : world.disk.Same now.disk := by
  obtain ⟨next, rfl, hsame⟩ := (Invocation.keeps_of_refused h).visits hvisits
  exact hsame

/-- A life continues the chain. -/
theorem Life.follows (hlife : Life build spec blockSize start past disk)
    (hof : args.Of build spec blockSize) (hrun : RunOf expected canonical args)
    (h : Consistent expected canonical start) : Follows expected canonical start disk := by
  have hsame : ∀ {next last : Disk}, Follows expected canonical start next → next.Same last →
      Follows expected canonical start last := fun hfollows hsame =>
    hfollows.trans (hfollows.toConsistent.same hrun.positioned hrun.length hsame)
  induction hlife with
  | start => exact h.follows
  | @opening past other env world now hlife hother hquiet hvisits ih =>
    cases hcase : expectedMetadata other.build other.spec other.engineConfig with
    | error e => exact hsame ih ((OpenArguments.refused_of_error hcase).same_of_visits hvisits)
    | ok metadata =>
      obtain ⟨blocks, hrun'⟩ := RunOf.of_expected other hcase
      obtain ⟨rfl, rfl⟩ := hrun.unique hof hrun' hother
      exact ih.trans (ih.toConsistent.visits_open hrun' hquiet hvisits).1
  | @running past inv env world now hlife hother hquiet hvisits ih =>
    cases hcase : expectedMetadata inv.build inv.spec inv.engineConfig with
    | error e => exact hsame ih ((OpenArguments.refused_of_error hcase).same_of_run hvisits)
    | ok metadata =>
      obtain ⟨blocks, hrun'⟩ := RunOf.of_expected inv.arguments hcase
      obtain ⟨rfl, rfl⟩ := hrun.unique hof hrun' hother
      exact ih.trans (ih.toConsistent.visits hrun' hquiet hvisits).1
  | refused hlife hrefused hvisits ih => exact hsame ih (hrefused.same_of_visits hvisits)
  | runRefused hlife hrefused hvisits ih => exact hsame ih (hrefused.same_of_run hvisits)

/-- A manifest was installed by someone with room for the largest one. -/
theorem Life.fits (hlife : Life build spec blockSize ∅ past disk) {sequence : UInt64}
    (hsome : (disk.file (manifestPathFor sequence)).isSome) :
    ∃ args ∈ past, args.Of build spec blockSize ∧ args.Fits ∧
      ∃ expected canonical, RunOf expected canonical args := by
  induction hlife with
  | start => cases hsome
  | @opening past args env world now hlife hof hquiet hvisits ih =>
    have hstep : (args.Fits ∧ ∃ expected canonical, RunOf expected canonical args) ∨
        world.disk.SameManifests now.disk := by
      cases hcase : expectedMetadata args.build args.spec args.engineConfig with
      | error e =>
        exact Or.inr ((OpenArguments.refused_of_error hcase).same_of_visits hvisits).sameManifests
      | ok metadata =>
        obtain ⟨blocks, hrun⟩ := RunOf.of_expected args hcase
        have h := (hlife.follows hof hrun consistent_empty).toConsistent
        exact (h.visits_open hrun hquiet hvisits).2.imp_left fun hfits => ⟨hfits, _, _, hrun⟩
    rcases hstep with hfits | hsame
    · exact ⟨args, List.mem_cons_self, hof, hfits⟩
    · rw [hsame] at hsome
      obtain ⟨earlier, hearlier, hrest⟩ := ih hsome
      exact ⟨earlier, List.mem_cons_of_mem _ hearlier, hrest⟩
  | @running past inv env world now hlife hof hquiet hvisits ih =>
    have hstep : (inv.arguments.Fits ∧ ∃ expected canonical, RunOf expected canonical inv.arguments)
        ∨ world.disk.SameManifests now.disk := by
      cases hcase : expectedMetadata inv.build inv.spec inv.engineConfig with
      | error e =>
        exact Or.inr ((OpenArguments.refused_of_error hcase).same_of_run hvisits).sameManifests
      | ok metadata =>
        obtain ⟨blocks, hrun⟩ := RunOf.of_expected inv.arguments hcase
        have h := (hlife.follows hof hrun consistent_empty).toConsistent
        exact (h.visits hrun hquiet hvisits).2.imp_left fun hfits => ⟨hfits, _, _, hrun⟩
    rcases hstep with hfits | hsame
    · exact ⟨inv.arguments, List.mem_cons_self, hof, hfits⟩
    · rw [hsame] at hsome
      obtain ⟨earlier, hearlier, hrest⟩ := ih hsome
      exact ⟨earlier, List.mem_cons_of_mem _ hearlier, hrest⟩
  | refused hlife hrefused hvisits ih =>
    rw [(hrefused.same_of_visits hvisits).sameManifests] at hsome
    exact ih hsome
  | runRefused hlife hrefused hvisits ih =>
    rw [(hrefused.same_of_run hvisits).sameManifests] at hsome
    exact ih hsome

/-- A manifest that decodes is the one that everyone reads back. -/
theorem Sealed.of_decode {sequence : UInt64} {snapshot : LoadedManifest} {bytes : Bytes}
    {limit : UInt64} {manifest : RunManifest}
    (h : Sealed expected canonical disk sequence snapshot)
    (hfile : disk.file (manifestPathFor sequence) = some bytes)
    (hdecode : decodeManifest bytes limit = .ok manifest) : snapshot.manifest = manifest := by
  obtain ⟨config, -, hvalid⟩ := h.valid
  obtain ⟨found, hfound, hle, hmanifest⟩ := hvalid.file
  rw [hfile] at hfound
  obtain rfl := Option.some.inj hfound
  have hsame := decodeManifest_limit hdecode (limit_of_decodeManifest hmanifest) hle
  exact Except.ok.inj (hmanifest.symm.trans hsame)

/-- A sealed manifest decodes. -/
theorem Sealed.decode {sequence : UInt64} {snapshot : LoadedManifest} {bytes : Bytes}
    (h : Sealed expected canonical disk sequence snapshot)
    (hfile : disk.file (manifestPathFor sequence) = some bytes) :
    decodeManifest bytes maxWord = .ok snapshot.manifest := by
  obtain ⟨config, -, hvalid⟩ := h.valid
  obtain ⟨found, hfound, hle, hmanifest⟩ := hvalid.file
  rw [hfile] at hfound
  obtain rfl := Option.some.inj hfound
  refine decodeManifest_limit hmanifest (by decide) ?_
  exact hle.trans (Nat.le_of_lt_succ (UInt64.toNat_lt _))

/-- What `open` returns has the results of every manifest. -/
theorem Consistent.open_covers (h : Consistent expected canonical world.disk)
    (hof : args.Of build spec blockSize) (hrun : RunOf expected canonical args)
    (hother : other.Of build spec blockSize) (hquiet : env.Quiet) {store : DurableRunStore}
    (hopen : run env.handle other.openStore world = (.ok store, now)) {sequence : UInt64}
    {snapshot : LoadedManifest}
    (hsealed : Sealed expected canonical world.disk sequence snapshot) :
    Extends snapshot.results store.recovery.committedResults := by
  obtain ⟨next, hopens, -, hbudget⟩ := opens_of_openStore other hopen
  obtain ⟨trail, htrail⟩ := hopens.exists_trail
  have hrun' := htrail.runOf
  obtain ⟨hexpected, hcanonical⟩ := hrun.unique hof hrun' hother
  rw [← hexpected, ← hcanonical] at hrun'
  exact (hopens.covers h hrun' hquiet (hbudget.imp_right And.left)).2 _ _ hsealed

/-- An invocation that returns has got past its arguments. -/
theorem Invocation.RunParallelDurable.runOf {inv : Invocation} {result : DurableRunResult}
    (hruns : inv.RunParallelDurable env.handle world (.ok result) now) :
    ∃ expected canonical, RunOf expected canonical inv.arguments := by
  cases hcase : expectedMetadata inv.build inv.spec inv.engineConfig with
  | ok expected => exact ⟨expected, RunOf.of_expected inv.arguments hcase⟩
  | error e =>
    have hrefused : inv.arguments.Refused world.disk := OpenArguments.refused_of_error hcase
    rcases (Invocation.keeps_of_refused hrefused).returns hruns with
      ⟨store, memory, next, -, hopens, -⟩ | ⟨next, ⟨memory, now, store, workers, h, -⟩, -⟩
    · exact absurd hopens hrefused.not_opens
    · exact absurd h id

end Lives

/-- Committed work is never lost or rewritten: what a manifest names, every manifest with a higher
sequence number names, the file of the block result stays as it is, and every later `open` of the
run that returns has the result.  In between other runs may come, which `open` refuses.  The run's
own opens must be free of failing reads (`Quiet`): a listing or a read that fails makes the loader
fall back. -/
theorem committed_work_kept {build : BuildIdentity} {spec : RunSpec} {blockSize : UInt64}
    {past later : List OpenArguments} {disk next : Disk} {sequence limit : UInt64} {bytes : Bytes}
    {manifest : RunManifest} {entry : ManifestEntry}
    (hlife : Life build spec blockSize ∅ past disk)
    (hfile : disk.file (manifestPathFor sequence) = some bytes)
    (hdecode : decodeManifest bytes limit = .ok manifest) (hentry : entry ∈ manifest.committedBlocks)
    (hlater : Life build spec blockSize disk later next) :
    (∀ higher found, sequence ≤ higher → next.file (manifestPathFor higher) = some found →
        ∃ manifest', decodeManifest found maxWord = .ok manifest' ∧
          entry ∈ manifest'.committedBlocks) ∧
      ∃ (result : BlockResult) (record : Bytes), result.entry = entry ∧
        disk.file (blockPathFor result.block) = some record ∧
        next.file (blockPathFor result.block) = some record ∧
        ∀ (args : OpenArguments) (env : Environment) (world after : World) (store : DurableRunStore),
          args.Of build spec blockSize → env.Quiet → world.disk = next →
          run env.handle args.openStore world = (.ok store, after) →
            store.recovery.committedResults[entry.blockId.toNat]? = some (some result) := by
  obtain ⟨args, -, hof, hfits, expected, canonical, hrun⟩ := hlife.fits (by rw [hfile]; rfl)
  have hdisk := (hlife.follows hof hrun consistent_empty).toConsistent
  have hnext := hlater.follows hof hrun hdisk
  obtain ⟨snapshot, hsealed⟩ := hdisk.sealed sequence (by rw [hfile]; rfl)
  obtain rfl := hsealed.of_decode hfile hdecode
  obtain ⟨hsound, hentries⟩ := hsealed.sound hrun.positioned hrun.length
  obtain ⟨i, result, hi, rfl⟩ := (hentries entry).mp hentry
  obtain ⟨hid, -⟩ := hsound.valid i result hi
  have hkept := hnext.keeps _ _ hsealed
  refine ⟨fun higher found hle hfound => ?_, result, result.fileBytes expected, rfl,
    hsealed.stored hrun.positioned hrun.length hi, hkept.stored hrun.positioned hrun.length hi, ?_⟩
  · obtain ⟨top, htop⟩ := hnext.sealed higher (by rw [hfound]; rfl)
    refine ⟨top.manifest, htop.decode hfound, ?_⟩
    obtain ⟨hextends, -⟩ := hnext.extends_of_le hkept htop hle
    exact ((htop.sound hrun.positioned hrun.length).2 _).mpr ⟨i, result, hextends i result hi, rfl⟩
  · rintro other env world after store hother hquiet rfl hopen
    rw [show result.entry.blockId.toNat = i from hid]
    exact hnext.open_covers hof hrun hother hquiet hopen hkept i result hi

/-- After a death a run returns and leaves a complete manifest. -/
theorem completed_twoScenarios : ∃ past after expected canonical sequence snapshot,
    Life ⟨[66]⟩ twoScenarios 1 ∅ past (World.disk after) ∧
      (∀ args ∈ past, args = twoScenariosRun.arguments) ∧
      RunOf expected canonical twoScenariosRun.arguments ∧
      Consistent expected canonical after.disk ∧
      Sealed expected canonical after.disk sequence snapshot ∧
      snapshot.manifest.status = .complete := by
  obtain ⟨result, after, -, hruns, -⟩ := returned_twoScenarios
  obtain ⟨expected, canonical, hrun⟩ := hruns.runOf
  have hof : twoScenariosRun.arguments.Of ⟨[66]⟩ twoScenarios 1 := ⟨rfl, rfl, rfl⟩
  have hquiet := Environment.idle_faultless.quiet
  have hdied : Life ⟨[66]⟩ twoScenarios 1 ∅ [twoScenariosRun.arguments] diedWorld.disk :=
    .opening .start hof hquiet visits_diedWorld
  have hconsistent := (hdied.follows hof hrun consistent_empty).toConsistent
  obtain ⟨hfollows, snapshot, hsealed, hstatus, -⟩ := hconsistent.returns hrun hquiet hruns
  exact ⟨_, after, expected, canonical, _, snapshot, .running hdied hof hquiet hruns.visits,
    by simp, hrun, hfollows.toConsistent, hsealed, hstatus⟩

/-- The directory of a run that has returned, opened again. -/
theorem committed_work_kept_two_scenarios :
    ∃ past disk sequence bytes manifest entry later next,
      Life ⟨[66]⟩ twoScenarios 1 ∅ past disk ∧ disk.file (manifestPathFor sequence) = some bytes ∧
        decodeManifest bytes maxWord = .ok manifest ∧ entry ∈ manifest.committedBlocks ∧
        Life ⟨[66]⟩ twoScenarios 1 disk later next ∧
        ∃ (result : BlockResult) (record : Bytes), result.entry = entry ∧
          disk.file (blockPathFor result.block) = some record ∧
          next.file (blockPathFor result.block) = some record := by
  obtain ⟨past, after, expected, canonical, sequence, snapshot, hlife, -, hrun, -, hsealed,
    hstatus⟩ := completed_twoScenarios
  have hof : twoScenariosRun.arguments.Of ⟨[66]⟩ twoScenarios 1 := ⟨rfl, rfl, rfl⟩
  have hlater : Life ⟨[66]⟩ twoScenarios 1 after.disk _ _ :=
    .opening .start hof Environment.idle_faultless.quiet
      (visits_final Environment.idle.handle _ after)
  obtain ⟨bytes, hfile⟩ := Option.isSome_iff_exists.mp hsealed.isSome_file
  obtain ⟨hsound, hentries⟩ := hsealed.sound hrun.positioned hrun.length
  have hpos : 0 < snapshot.results.length := by
    rw [hsound.length_eq]
    exact List.length_pos_iff.mpr (makeBlocks_ne_nil hrun.canonical)
  obtain ⟨first, hfirst⟩ : ∃ first, snapshot.results[0]? = some (some first) := by
    have hnone := List.any_eq_false.mp (hsealed.complete hrun.length hstatus) _
      (List.getElem_mem hpos)
    rw [List.getElem?_eq_getElem hpos]
    cases hget : snapshot.results[0] with
    | none => exact absurd (by rw [hget]; rfl) hnone
    | some first => exact ⟨first, rfl⟩
  have hentry := (hentries first.entry).mpr ⟨0, first, hfirst, rfl⟩
  obtain ⟨-, result, record, heq, hbefore, hafter, -⟩ :=
    committed_work_kept hlife hfile (hsealed.decode hfile) hentry hlater
  exact ⟨_, _, _, bytes, _, _, _, _, hlife, hfile, hsealed.decode hfile, hentry, hlater, result,
    record, heq, hbefore, hafter⟩

end MonteCarlo
