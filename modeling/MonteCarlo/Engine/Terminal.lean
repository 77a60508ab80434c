import MonteCarlo.Engine.Continuity

/-!
# Runs that have ended

The highest valid manifest of a directory says that its run is complete or has failed.  From then
on nothing is installed in the directory, whoever opens it and however often.

* `Ended` — the highest valid manifest is that of a run that has ended.
* `Opener` — who comes to the directory: the run itself, also with a lower limit for manifests, or
  someone whom `open` refuses.
* `Session` — opens, calls on the opened store, durable runs and deaths, in any order.
* `terminal_states_absorbing` — a session in such a directory installs nothing, and every durable
  run returns what the manifest says.
-/

namespace MonteCarlo

open Effects Effects.Program

/-! ## The directory of a run that has ended -/

/-- The arguments name the run with this metadata, or are refused. -/
def OpenArguments.For (args : OpenArguments) (expected : RunMetadata) : Prop :=
  ∀ other, expectedMetadata args.build args.spec args.engineConfig = .ok other → other = expected

/-- Whoever opens the directory opens the same run, and finds that its highest valid manifest is
that of a run that has ended. -/
structure Ended (opens : OpenArguments → Prop) (expected : RunMetadata) (snapshot : LoadedManifest)
    (disk : Disk) : Prop where
  names : ∀ args, opens args → args.For expected
  owned : Owned expected disk
  status : snapshot.manifest.status ≠ .running
  valid : ∀ args canonical, opens args → RunOf expected canonical args →
    Qualifies disk args.config expected canonical snapshot.manifest.sequence snapshot
  highest : ∀ args canonical sequence other, opens args → RunOf expected canonical args →
    Qualifies disk args.config expected canonical sequence other →
      sequence ≤ snapshot.manifest.sequence

/-- The same build, specification and layout, and no higher limit for manifests. -/
structure OpenArguments.Lowers (args other : OpenArguments) : Prop where
  build : args.build = other.build
  spec : args.spec = other.spec
  engineConfig : args.engineConfig = other.engineConfig
  limit : args.storeConfig.maxManifestBytes ≤ other.storeConfig.maxManifestBytes

/-- Arguments of `opens`, but perhaps for the limit. -/
def Lowered (opens : OpenArguments → Prop) (args : OpenArguments) : Prop :=
  ∃ other, opens other ∧ args.Lowers other

/-- Whoever opens the directory: with arguments of `opens`, with a lower limit, or with arguments
that are refused. -/
inductive Opener (opens : OpenArguments → Prop) (disk : Disk) (args : OpenArguments) : Prop
  | lowered (hlowered : Lowered opens args)
  | refused (hrefused : args.Refused disk)

section Openers

variable {opens : OpenArguments → Prop} {args other : OpenArguments} {expected : RunMetadata}
  {canonical : List ScenarioBlock} {disk : Disk} {sequence : UInt64} {snapshot : LoadedManifest}

theorem Lowered.of (h : opens args) : Lowered opens args :=
  ⟨args, h, rfl, rfl, rfl, UInt64.le_refl _⟩

/-- The limit is no part of the run. -/
theorem OpenArguments.Lowers.runOf (h : args.Lowers other) (hrun : RunOf expected canonical args) :
    RunOf expected canonical other := by
  obtain ⟨hexpected, hcanonical⟩ := hrun
  rw [h.build, h.spec, h.engineConfig] at hexpected
  rw [h.spec, h.engineConfig] at hcanonical
  exact ⟨hexpected, hcanonical⟩

theorem OpenArguments.Lowers.for (h : args.Lowers other) (hfor : other.For expected) :
    args.For expected := by
  intro metadata hmetadata
  rw [h.build, h.spec, h.engineConfig] at hmetadata
  exact hfor metadata hmetadata

/-- What is valid under a lower limit is valid under a higher one. -/
theorem OpenArguments.Lowers.qualifies (h : args.Lowers other)
    (hvalid : Qualifies disk args.config expected canonical sequence snapshot) :
    Qualifies disk other.config expected canonical sequence snapshot := by
  have hle := UInt64.le_iff_toNat_le.mp h.limit
  obtain ⟨bytes, hfile, hlength, hdecode⟩ := hvalid.file
  have hmin := limit_of_decodeManifest hdecode
  rw [OpenArguments.maxManifestBytes_config] at hlength hmin
  refine hvalid.of_limit ?_ fun found hfound => ?_
  · rw [OpenArguments.maxManifestBytes_config]
    exact hmin.trans hle
  · rw [Option.mem_def, hfile] at hfound
    obtain rfl := Option.some.inj hfound
    rw [OpenArguments.maxManifestBytes_config]
    exact hlength.trans hle

end Openers

section Ended

variable {opens : OpenArguments → Prop} {expected : RunMetadata} {snapshot : LoadedManifest}
  {disk next : Disk} {env : Environment} {args : OpenArguments} {trail : Trail}
  {store : DurableRunStore}

/-- Removing other block results changes nothing. -/
theorem Ended.cleans (h : Ended opens expected snapshot disk)
    (hcleans : disk.Cleans snapshot.results next) : Ended opens expected snapshot next where
  names := h.names
  owned bytes hfile := h.owned bytes (hcleans.retains.file lasting_metadataPath hfile)
  status := h.status
  valid args canonical hopens hrun :=
    (h.valid args canonical hopens hrun).cleans hrun.positioned hrun.length hcleans
  highest args canonical sequence other hopens hrun hother :=
    h.highest args canonical sequence other hopens hrun (hother.of_retains hcleans.retains)

theorem Ended.same (h : Ended opens expected snapshot disk) (hsame : disk.Same next) :
    Ended opens expected snapshot next :=
  h.cleans fun path hpath => Or.inl (hsame path hpath)

theorem Ended.names_lowered (h : Ended opens expected snapshot disk) (hopens : Lowered opens args) :
    args.For expected := by
  obtain ⟨other, hother, hlowers⟩ := hopens
  exact hlowers.for (h.names other hother)

theorem Ended.isSome_file (h : Ended opens expected snapshot disk) (hopens : Lowered opens args)
    {canonical : List ScenarioBlock} (hrun : RunOf expected canonical args) :
    (disk.file (manifestPathFor snapshot.manifest.sequence)).isSome := by
  obtain ⟨other, hother, hlowers⟩ := hopens
  exact (h.valid other canonical hother (hlowers.runOf hrun)).toLoadable.isSome_file

/-- There is a manifest, so metadata is not installed. -/
theorem Ended.registers (h : Ended opens expected snapshot disk) (hopens : Lowered opens args)
    (hquiet : env.Quiet) {canonical : List ScenarioBlock} (hrun : RunOf expected canonical args)
    {metadata : RunMetadata} {existed : Bool}
    (hregisters : Registers env expected disk metadata existed next) : next = disk := by
  cases hregisters with
  | found => rfl
  | installed hfree hbare =>
    have hnone := hbare (fun _ => ⟨hquiet.openScan _ _, hquiet.nextEntry _ _⟩) _
      (lasting_manifestPathFor snapshot.manifest.sequence)
    have hsome := h.isSome_file hopens hrun
    rw [hnone] at hsome
    cases hsome

theorem Ended.runOf (h : Ended opens expected snapshot disk) (hopens : Lowered opens args)
    (htrail : trail.Of env args disk) : RunOf expected trail.blocks args := by
  obtain rfl := h.names_lowered hopens _ htrail.expected
  exact htrail.runOf

/-- What the loader returns is the manifest of the run that has ended: a limit that does not admit
it makes `open` throw. -/
theorem Ended.loads (h : Ended opens expected snapshot disk) (hopens : Lowered opens args)
    (hquiet : env.Quiet) (htrail : trail.Of env args disk) (hregistered : trail.registered = disk) :
    trail.load.loaded = some snapshot := by
  have hrun := h.runOf hopens htrail
  obtain ⟨hcanonical, -, halike, -⟩ := htrail.owned hrun h.owned
  obtain ⟨other, hother, hlowers⟩ := hopens
  have hvalid := h.valid other _ hother (hlowers.runOf hrun)
  have hle : ∀ top ∈ trail.load.loaded, top.manifest.sequence ≤ snapshot.manifest.sequence := by
    intro top htop
    obtain ⟨htop', -⟩ := htrail.loaded hrun h.owned htop
    rw [hregistered] at htop'
    exact h.highest other _ _ _ hother (hlowers.runOf hrun) (hlowers.qualifies htop')
  have hlowered : Qualifies disk args.config expected trail.blocks snapshot.manifest.sequence
      snapshot := by
    refine hvalid.of_limit (OpenArguments.config_min htrail.valid) fun bytes hfile => ?_
    rw [← hregistered] at hfile
    exact htrail.loads.admits hquiet _ _ hfile hle
  have hvalid' : Qualifies trail.registered args.config trail.metadata trail.canonical
      snapshot.manifest.sequence snapshot := by
    rw [hregistered, hcanonical]
    exact hlowered.alike halike.symm
  obtain ⟨top, htop, hge⟩ := htrail.loads.highest hquiet _ _ hvalid'
  obtain ⟨htop', -⟩ := htrail.loaded hrun h.owned htop
  rw [hregistered, UInt64.le_antisymm (hle top htop) hge] at htop'
  rw [← htop'.toLoadable.unique hlowered.toLoadable]
  exact htop

/-- `open` recovers the manifest and installs nothing. -/
theorem Ended.recovers (h : Ended opens expected snapshot disk) (hopens : Lowered opens args)
    (hquiet : env.Quiet) (htrail : trail.Of env args disk) :
    trail.recovered = disk ∧ trail.recovery.manifestSequence = snapshot.manifest.sequence ∧
      trail.recovery.runIncarnation = snapshot.manifest.runIncarnation ∧
      trail.recovery.status = snapshot.manifest.status ∧
      trail.recovery.committedResults = snapshot.results := by
  have hregistered : trail.registered = disk := by
    have hregisters := htrail.registers
    rw [h.names_lowered hopens _ htrail.expected] at hregisters
    exact h.registers hopens hquiet (h.runOf hopens htrail) hregisters
  have hloaded := h.loads hopens hquiet htrail hregistered
  have hrecovers := htrail.recovers
  rw [← hregistered]
  generalize trail.recovery = recovery at hrecovers ⊢
  generalize trail.recovered = recovered at hrecovers ⊢
  cases hrecovers with
  | started hnone =>
    rw [hnone] at hloaded
    cases hloaded
  | resumed hsome hrunning =>
    rw [hsome] at hloaded
    rw [Option.some.inj hloaded] at hrunning
    exact absurd hrunning h.status
  | ended hsome hended =>
    rw [hsome] at hloaded
    rw [Option.some.inj hloaded]
    exact ⟨rfl, rfl, rfl, rfl, rfl⟩

/-- Every moment of `open`. -/
theorem Ended.opening (h : Ended opens expected snapshot disk) (hopens : Lowered opens args)
    (hquiet : env.Quiet) (hstage : OpenStage env args disk next) :
    Retains disk next ∧ Ended opens expected snapshot next := by
  cases hstage with
  | untouched => exact ⟨.refl disk, h⟩
  | registered hexpected hregisters =>
    obtain rfl := h.names_lowered hopens _ hexpected
    obtain ⟨canonical, hrun⟩ := RunOf.of_expected args hexpected
    rw [h.registers hopens hquiet hrun hregisters]
    exact ⟨.refl disk, h⟩
  | recovered htrail =>
    rw [(h.recovers hopens hquiet htrail).1]
    exact ⟨.refl disk, h⟩
  | cleaning htrail hcleans =>
    obtain ⟨hdisk, -, -, -, hresults⟩ := h.recovers hopens hquiet htrail
    rw [hdisk, hresults] at hcleans
    exact ⟨hcleans.retains, h.cleans hcleans⟩

/-- The store that `open` returns. -/
theorem Ended.opened (h : Ended opens expected snapshot disk) (hopens : Lowered opens args)
    (hquiet : env.Quiet) (hopened : Opens env args disk store next) :
    store.recovery.manifestSequence = snapshot.manifest.sequence ∧
      store.recovery.runIncarnation = snapshot.manifest.runIncarnation ∧
      store.recovery.status = snapshot.manifest.status ∧
      store.durableResults = snapshot.results := by
  cases hopened with
  | intro htrail =>
    obtain ⟨-, hsequence, hincarnation, hstatus, hresults⟩ := h.recovers hopens hquiet htrail
    exact ⟨hsequence, hincarnation, hstatus, hresults⟩

/-- In an undamaged directory, a manifest of a run that has ended is the highest valid one. -/
theorem Consistent.ended {build : BuildIdentity} {spec : RunSpec} {blockSize : UInt64}
    {canonical : List ScenarioBlock} {sequence : UInt64} (h : Consistent expected canonical disk)
    (hof : args.Of build spec blockSize) (hrun : RunOf expected canonical args)
    (hsealed : Sealed expected canonical disk sequence snapshot)
    (hstatus : snapshot.manifest.status ≠ .running) :
    Ended (fun other => other.Of build spec blockSize ∧ other.Fits) expected snapshot disk where
  names other hother metadata hmetadata := by
    obtain ⟨blocks, hrun'⟩ := RunOf.of_expected other hmetadata
    exact (hrun.unique hof hrun' hother.1).1.symm
  owned := h.owned
  status := hstatus
  valid other blocks hother hrun' := by
    obtain ⟨-, rfl⟩ := hrun.unique hof hrun' hother.1
    rw [hsealed.sequence_eq]
    exact hsealed.qualifies (hrun'.fits_iff.mpr hother.2)
  highest other blocks later top hother hrun' hvalid := by
    rw [hsealed.sequence_eq]
    exact h.last_of_ended hsealed hstatus hvalid.toLoadable.isSome_file

end Ended

/-! ## Sessions -/

/-- What can happen in a directory: someone opens it, the opened store is called, a durable run is
invoked, and the process dies at any moment.  No call of the reading half fails.  A session has its
directory and the store that the process holds. -/
inductive Session (opens : OpenArguments → Prop) (start : Disk) :
    Disk → Option DurableRunStore → Prop where
  | start : Session opens start start none
  | opening {args : OpenArguments} {env : Environment} {world now : World}
      {held : Option DurableRunStore} (h : Session opens start world.disk held)
      (hopener : Opener opens world.disk args) (hquiet : env.Quiet)
      (hvisits : Visits env.handle args.openStore world now) : Session opens start now.disk none
  | opened {args : OpenArguments} {env : Environment} {world after : World}
      {held : Option DurableRunStore} {store : DurableRunStore}
      (h : Session opens start world.disk held) (hopener : Opener opens world.disk args)
      (hquiet : env.Quiet) (hopen : run env.handle args.openStore world = (.ok store, after)) :
      Session opens start after.disk (some store)
  | calling {env : Environment} {world now : World} {store : DurableRunStore}
      (h : Session opens start world.disk (some store)) (call : StoreCall)
      (hvisits : Visits env.handle (call.program store) world now) :
      Session opens start now.disk none
  | called {env : Environment} {world after : World} {store : DurableRunStore}
      {outcome : Except Exception DurableRunStore}
      (h : Session opens start world.disk (some store)) (call : StoreCall)
      (hcall : run env.handle (call.program store) world = (outcome, after)) :
      Session opens start after.disk (some (storeAfter store outcome))
  | running {inv : Invocation} {env : Environment} {world now : World}
      {held : Option DurableRunStore} (h : Session opens start world.disk held)
      (hopener : Opener opens world.disk inv.arguments) (hquiet : env.Quiet)
      (hvisits : inv.DurableVisits env.handle world now) : Session opens start now.disk none

section Sessions

variable {opens : OpenArguments → Prop} {expected : RunMetadata} {snapshot : LoadedManifest}
  {start disk next : Disk} {env : Environment} {world now after : World} {store : DurableRunStore}
  {held : Option DurableRunStore} {inv : Invocation} {args : OpenArguments}

/-- A store that is not running is not written to. -/
theorem StoreCall.same_of_ended (hstatus : store.recovery.status ≠ .running) (call : StoreCall) :
    Wp env.handle (fun now => world.disk.Same now.disk)
      (fun outcome _ => ∃ e, outcome = .error e) (call.program store) world := by
  cases call with
  | recordResult result =>
    have hnever : ∀ {store' next}, ¬ Records store result world.disk store' next := by
      intro store' next hrecords
      have hcheck : checkRecord store result = .ok () := by
        cases hrecords <;> assumption
      obtain ⟨⟨⟩, hrunning, -⟩ := Result.bind_eq_ok.mp hcheck
      rw [throwIf_eq_ok, decide_eq_false_iff_not, not_not] at hrunning
      exact hstatus hrunning
    refine (wp_recordResult result (.refl world.disk)).mono ?_ ?_
    · rintro now (hsame | ⟨next, ⟨store', hrecords⟩, -⟩)
      · exact hsame
      · exact absurd hrecords hnever
    · intro outcome after _ hleaves
      cases outcome with
      | error e => exact ⟨e, rfl⟩
      | ok store' =>
        obtain ⟨next, hrecords, -⟩ := hleaves store' rfl
        exact absurd hrecords hnever
  | checkpoint coordinator leaves received status failure =>
    have hnever : ∀ {store' next}, ¬ Checkpoints store coordinator leaves received status failure
        world.disk store' next := by
      rintro store' next ⟨hmanifest, -, -, -⟩
      obtain ⟨⟨⟩, hrunning, -⟩ := Result.bind_eq_ok.mp hmanifest
      rw [throwIf_eq_ok, decide_eq_false_iff_not, not_not] at hrunning
      exact hstatus hrunning
    refine (wp_checkpoint coordinator leaves received status failure (.refl world.disk)).mono ?_ ?_
    · rintro now (hsame | ⟨next, ⟨store', hcheckpoints⟩, -⟩)
      · exact hsame
      · exact absurd hcheckpoints hnever
    · intro outcome after _ hleaves
      cases outcome with
      | error e => exact ⟨e, rfl⟩
      | ok store' =>
        obtain ⟨next, hcheckpoints, -⟩ := hleaves store' rfl
        exact absurd hcheckpoints hnever

/-- A durable run installs nothing. -/
theorem Ended.keeps (h : Ended opens expected snapshot disk) (hopens : Lowered opens inv.arguments)
    (hquiet : env.Quiet) :
    inv.Keeps env disk (fun _ _ => False)
      (fun next => Retains disk next ∧ Ended opens expected snapshot next) where
  opening next hstage := h.opening hopens hquiet hstage
  begins store memory next _ hopened hbegin hstatus := by
    obtain ⟨-, -, hsnapshot, -⟩ := h.opened hopens hquiet hopened
    obtain ⟨trail, htrail⟩ := hopened.exists_trail
    obtain ⟨hfailed, -⟩ := hopened.beginRun_eq (h.runOf hopens htrail) h.owned hbegin
    have hended := h.status
    rw [← hsnapshot] at hended
    cases hcase : store.recovery.status with
    | running => exact hended hcase
    | complete => exact hstatus hcase
    | failed => exact hfailed hcase
  holds _ _ h := h.elim
  records _ _ _ _ _ h := h.elim
  checkpoints _ _ _ _ h := h.elim
  fails _ _ _ _ _ h := h.elim
  finishes _ _ _ _ h := h.elim

/-- Every moment of an `open`, also of one that is refused. -/
theorem Ended.visits_open (h : Ended opens expected snapshot world.disk)
    (hopener : Opener opens world.disk args) (hquiet : env.Quiet)
    (hvisits : Visits env.handle args.openStore world now) :
    Retains world.disk now.disk ∧ Ended opens expected snapshot now.disk := by
  cases hopener with
  | refused hrefused =>
    have hsame := hrefused.same_of_visits hvisits
    exact ⟨hsame.retains, h.same hsame⟩
  | lowered hlowered =>
    obtain ⟨next, hstage, hsame⟩ := (wp_openStore args world).visits hvisits
    obtain ⟨hretains, hended⟩ := h.opening hlowered hquiet hstage
    exact ⟨hretains.trans hsame.retains, hended.same hsame⟩

/-- An `open` that returns was not refused. -/
theorem Ended.returned_open (h : Ended opens expected snapshot world.disk)
    (hopener : Opener opens world.disk args) (hquiet : env.Quiet)
    (hopen : run env.handle args.openStore world = (.ok store, after)) :
    Retains world.disk after.disk ∧ Ended opens expected snapshot after.disk ∧
      store.recovery.status = snapshot.manifest.status := by
  have hwp := @wp_openStore env args world
  have hpost := hwp.post
  have hfinal := hwp.final
  rw [hopen] at hpost hfinal
  obtain ⟨next, hopened, -⟩ := hpost store rfl
  cases hopener with
  | refused hrefused => exact absurd hopened hrefused.not_opens
  | lowered hlowered =>
    obtain ⟨last, hstage, hsame⟩ := hfinal
    obtain ⟨hretains, hended⟩ := h.opening hlowered hquiet hstage
    exact ⟨hretains.trans hsame.retains, hended.same hsame,
      (h.opened hlowered hquiet hopened).2.2.1⟩

/-- Every moment of a durable run, also of one that is refused. -/
theorem Ended.visits_run (h : Ended opens expected snapshot world.disk)
    (hopener : Opener opens world.disk inv.arguments) (hquiet : env.Quiet)
    (hvisits : inv.DurableVisits env.handle world now) :
    Retains world.disk now.disk ∧ Ended opens expected snapshot now.disk := by
  cases hopener with
  | refused hrefused =>
    have hsame := hrefused.same_of_run hvisits
    exact ⟨hsame.retains, h.same hsame⟩
  | lowered hlowered =>
    have hkeeps : inv.Keeps env world.disk _ _ := h.keeps hlowered hquiet
    obtain ⟨next, ⟨hretains, hended⟩, hsame⟩ := hkeeps.visits hvisits
    exact ⟨hretains.trans hsame.retains, hended.same hsame⟩

/-- What holds at every moment of a session. -/
theorem Session.ended (hsession : Session opens start disk held)
    (h : Ended opens expected snapshot start) :
    Retains start disk ∧ Ended opens expected snapshot disk ∧
      ∀ store ∈ held, store.recovery.status = snapshot.manifest.status := by
  have hnobody : ∀ store ∈ (none : Option DurableRunStore),
      store.recovery.status = snapshot.manifest.status :=
    fun store hstore => absurd hstore (Option.not_mem_none store)
  induction hsession with
  | start => exact ⟨.refl start, h, hnobody⟩
  | @opening args env world now held hsession hopener hquiet hvisits ih =>
    obtain ⟨hretains, hended, -⟩ := ih
    obtain ⟨hretains', hended'⟩ := hended.visits_open hopener hquiet hvisits
    exact ⟨hretains.trans hretains', hended', hnobody⟩
  | @opened args env world after held store hsession hopener hquiet hopen ih =>
    obtain ⟨hretains, hended, -⟩ := ih
    obtain ⟨hretains', hended', hstatus⟩ := hended.returned_open hopener hquiet hopen
    refine ⟨hretains.trans hretains', hended', fun found hfound => ?_⟩
    obtain rfl : store = found := Option.some.inj hfound
    exact hstatus
  | @calling env world now store hsession call hvisits ih =>
    obtain ⟨hretains, hended, hheld⟩ := ih
    have hstatus : store.recovery.status ≠ .running := by
      rw [hheld store rfl]
      exact h.status
    have hsame := (call.same_of_ended hstatus).visits hvisits
    exact ⟨hretains.trans (Disk.Same.retains hsame), hended.same hsame, hnobody⟩
  | @called env world after store outcome hsession call hcall ih =>
    obtain ⟨hretains, hended, hheld⟩ := ih
    have hstatus : store.recovery.status ≠ .running := by
      rw [hheld store rfl]
      exact h.status
    have hwp := @StoreCall.same_of_ended env world store hstatus call
    have hsame := hwp.final
    have hpost := hwp.post
    rw [hcall] at hsame hpost
    obtain ⟨e, rfl⟩ := hpost
    exact ⟨hretains.trans (Disk.Same.retains hsame), hended.same hsame, hheld⟩
  | @running inv env world now held hsession hopener hquiet hvisits ih =>
    obtain ⟨hretains, hended, -⟩ := ih
    obtain ⟨hretains', hended'⟩ := hended.visits_run hopener hquiet hvisits
    exact ⟨hretains.trans hretains', hended', hnobody⟩

/-- A result that repeats a manifest. -/
structure Repeats (snapshot : LoadedManifest) (result : DurableRunResult) : Prop
    extends Reports snapshot result where
  computedBlocks : result.computedBlocks = 0

/-- What a durable run of a complete store returns. -/
theorem Ended.repeats (h : Ended opens expected snapshot disk) (hopens : Lowered opens inv.arguments)
    (hquiet : env.Quiet) (hopened : Opens env inv.arguments disk store next) {memory : DurableMemory}
    (hbegin : beginRun inv.build inv.spec inv.engineConfig store = .ok memory) :
    ∃ result, durableResult inv.spec memory 0 = .ok result ∧ Repeats snapshot result := by
  obtain ⟨hsequence, hincarnation, -, hresults⟩ := h.opened hopens hquiet hopened
  obtain ⟨trail, htrail⟩ := hopened.exists_trail
  have hrun := h.runOf hopens htrail
  obtain ⟨-, coordinator, rfl⟩ := hopened.beginRun_eq hrun h.owned hbegin
  obtain ⟨other, hother, hlowers⟩ := hopens
  have hreduction := (h.valid other _ hother (hlowers.runOf hrun)).reduction
  rw [← hresults] at hreduction
  rw [durableResult, hreduction, Result.ok_bind]
  exact ⟨_, rfl, ⟨rfl, hsequence, hincarnation⟩, rfl⟩

/-- A durable run that is refused throws in `open`. -/
theorem OpenArguments.Refused.runs (h : inv.arguments.Refused world.disk)
    {outcome : Result DurableRunResult}
    (hruns : inv.RunParallelDurable env.handle world outcome after) :
    ∃ e, run env.handle inv.openStore world = (.error e, after) ∧ outcome = .error e := by
  have hnever : ∀ {store opened}, run env.handle inv.openStore world ≠ (.ok store, opened) := by
    intro store opened hopen
    obtain ⟨-, next, hopened, -⟩ := Invocation.opens_of_run hopen
    exact h.not_opens hopened
  have hbegins : ∀ {opened memory}, ¬ inv.Begins env.handle world opened memory := by
    rintro opened memory ⟨store, hopen, -⟩
    exact hnever hopen
  cases hruns with
  | openThrows hopen => exact ⟨_, hopen, rfl⟩
  | beginThrows hopen hbegin => exact absurd hopen hnever
  | complete hopen hbegin hcomplete => exact absurd hopen hnever
  | executionThrows hb hexecutes houtcome => exact absurd hb hbegins
  | finishes hb hexecutes houtcome => exact absurd hb hbegins

/-- A durable run that does not throw in `open` throws in a directory of a failed run, and only
there. -/
theorem Ended.runs (h : Ended opens expected snapshot world.disk)
    (hopener : Opener opens world.disk inv.arguments) (hquiet : env.Quiet)
    {outcome : Result DurableRunResult}
    (hruns : inv.RunParallelDurable env.handle world outcome after) :
    (∃ e, run env.handle inv.openStore world = (.error e, after) ∧ outcome = .error e) ∨
      (snapshot.manifest.status = .failed ∧ ∃ e, outcome = .error e) ∨
      snapshot.manifest.status = .complete ∧ ∃ store memory,
        run env.handle inv.openStore world = (.ok store, after) ∧
          beginRun inv.build inv.spec inv.engineConfig store = .ok memory ∧
          outcome = durableResult inv.spec memory 0 := by
  rcases hopener with hopens | hrefused
  case refused => exact Or.inl (hrefused.runs hruns)
  have hstatus : ∀ {store opened}, run env.handle inv.openStore world = (.ok store, opened) →
      Opened inv.build inv.spec inv.engineConfig inv.storeConfig store ∧
        store.recovery.status = snapshot.manifest.status := by
    intro store opened hopen
    obtain ⟨hchecked, next, hopened, -⟩ := Invocation.opens_of_run hopen
    exact ⟨hchecked, (h.opened hopens hquiet hopened).2.2.1⟩
  have hnever : ∀ {opened memory}, ¬ inv.Begins env.handle world opened memory := by
    intro opened memory hb
    obtain ⟨next, hfalse, -⟩ := (h.keeps hopens hquiet).begun hb
    exact hfalse
  cases hruns with
  | openThrows hopen => exact Or.inl ⟨_, hopen, rfl⟩
  | @beginThrows store e _ hopen hbegin =>
    obtain ⟨hchecked, heq⟩ := hstatus hopen
    refine Or.inr (Or.inl ⟨?_, e, rfl⟩)
    rw [← heq]
    by_contra hfailed
    obtain ⟨memory, hok⟩ := inv.beginRun_of_opened hchecked hfailed
    rw [hok] at hbegin
    cases hbegin
  | complete hopen hbegin hcomplete =>
    rw [(hstatus hopen).2] at hcomplete
    exact Or.inr (Or.inr ⟨hcomplete, _, _, hopen, hbegin, rfl⟩)
  | executionThrows hb hexecutes houtcome => exact absurd hb hnever
  | finishes hb hexecutes houtcome => exact absurd hb hnever

end Sessions

section Repeating

variable {build : BuildIdentity} {spec : RunSpec} {blockSize : UInt64} {expected : RunMetadata}
  {canonical : List ScenarioBlock} {snapshot : LoadedManifest} {sequence : UInt64}
  {env : Environment} {world after : World} {inv : Invocation} {args : OpenArguments}
  {result : DurableRunResult}

/-- A durable run that returns in the undamaged directory of a complete run computes nothing, and
returns what the manifest says. -/
theorem Consistent.repeats (h : Consistent expected canonical world.disk)
    (hof : inv.arguments.Of build spec blockSize) (hrun : RunOf expected canonical inv.arguments)
    (hquiet : env.Quiet) (hsealed : Sealed expected canonical world.disk sequence snapshot)
    (hcomplete : snapshot.manifest.status = .complete)
    (hruns : inv.RunParallelDurable env.handle world (.ok result) after) :
    Repeats snapshot result := by
  have hstatus : snapshot.manifest.status ≠ .running := by
    rw [hcomplete]
    nofun
  obtain ⟨hfollows, top, htop, htopComplete, hreports⟩ := h.returns hrun hquiet hruns
  have hkept := hfollows.keeps _ _ hsealed
  obtain rfl : sequence = result.manifestSequence := by
    refine UInt64.le_antisymm (hfollows.last_of_ended htop ?_ hkept.isSome_file)
      (hfollows.last_of_ended hkept hstatus htop.isSome_file)
    rw [htopComplete]
    nofun
  obtain ⟨config, -, hvalid⟩ := htop.valid
  rw [← hkept.unique hvalid] at hreports
  refine ⟨hreports, ?_⟩
  obtain ⟨outcome, houtcome⟩ : ∃ outcome : Result DurableRunResult, outcome = .ok result :=
    ⟨_, rfl⟩
  rw [← houtcome] at hruns
  have hnever : ∀ {opened memory}, ¬ inv.Begins env.handle world opened memory := by
    intro opened memory hb
    have hended := h.ended hof hrun hsealed hstatus
    obtain ⟨next, hfalse, -⟩ :=
      (hended.keeps (Lowered.of ⟨hof, hb.fits hrun h.owned⟩) hquiet).begun hb
    exact hfalse
  cases hruns with
  | openThrows hopen => cases houtcome
  | beginThrows hopen hbegin => cases houtcome
  | complete hopen hbegin _ =>
    obtain ⟨-, next, hopens, -⟩ := Invocation.opens_of_run hopen
    obtain ⟨-, coordinator, rfl⟩ := hopens.beginRun_eq hrun h.owned hbegin
    obtain ⟨aggregate, -, hpure⟩ := Result.bind_eq_ok.mp houtcome
    cases hpure
    rfl
  | executionThrows hb => exact absurd hb hnever
  | finishes hb => exact absurd hb hnever

end Repeating

/-- Terminal states are absorbing: a session in the directory of a run that has ended installs no
file, a durable run of a complete store returns what the manifest has, and one of a failed store
throws.  The environments are `Quiet`: a manifest that cannot be read would be passed over.  Who
comes for another run, or with a limit that does not admit the manifest, is refused by `open`. -/
theorem terminal_states_absorbing {opens : OpenArguments → Prop} {expected : RunMetadata}
    {snapshot : LoadedManifest} {start disk : Disk} {held : Option DurableRunStore}
    (hended : Ended opens expected snapshot start) (hsession : Session opens start disk held) :
    Retains start disk ∧
      ∀ (inv : Invocation) (env : Environment) (world : World),
        Opener opens world.disk inv.arguments → env.Quiet → world.disk = disk →
        (snapshot.manifest.status = .complete → ∀ store opened,
          run env.handle inv.openStore world = (.ok store, opened) →
            ∃ result, Repeats snapshot result ∧
              inv.RunParallelDurable env.handle world (.ok result) opened ∧
              ∀ outcome after, inv.RunParallelDurable env.handle world outcome after →
                outcome = .ok result) ∧
        (snapshot.manifest.status = .failed → ∀ outcome after,
          inv.RunParallelDurable env.handle world outcome after → ∃ e, outcome = .error e) := by
  obtain ⟨hretains, hnow, -⟩ := hsession.ended hended
  refine ⟨hretains, ?_⟩
  rintro inv env world hopener hquiet rfl
  refine ⟨fun hcomplete store opened hopen => ?_, fun hfailed outcome after hruns => ?_⟩
  · obtain ⟨hchecked, next, hopened, -⟩ := Invocation.opens_of_run hopen
    have hopens : Lowered opens inv.arguments := by
      cases hopener with
      | lowered hlowered => exact hlowered
      | refused hrefused => exact absurd hopened hrefused.not_opens
    have hstatus := (hnow.opened hopens hquiet hopened).2.2.1
    rw [hcomplete] at hstatus
    obtain ⟨memory, hbegin⟩ := inv.beginRun_of_opened hchecked (by rw [hstatus]; nofun)
    obtain ⟨result, hresult, hrepeats⟩ := hnow.repeats hopens hquiet hopened hbegin
    refine ⟨result, hrepeats, ?_, fun outcome after hruns => ?_⟩
    · rw [← hresult]
      exact .complete hopen hbegin hstatus
    · rcases hnow.runs (.lowered hopens) hquiet hruns with
        ⟨e, herror, -⟩ | ⟨hfailed, -⟩ | ⟨-, store', memory', hopen', hbegin', houtcome⟩
      · rw [hopen] at herror
        cases herror
      · rw [hcomplete] at hfailed
        cases hfailed
      · rw [hopen] at hopen'
        cases hopen'
        rw [hbegin] at hbegin'
        cases hbegin'
        rw [houtcome, hresult]
  · rcases hnow.runs hopener hquiet hruns with
      ⟨e, -, houtcome⟩ | ⟨-, herror⟩ | ⟨hcomplete, -⟩
    · exact ⟨e, houtcome⟩
    · exact herror
    · rw [hfailed] at hcomplete
      cases hcomplete

/-- The directory of a run that has returned, opened again until the process dies. -/
theorem terminal_states_absorbing_two_scenarios :
    ∃ opens expected snapshot start disk held,
      Ended opens expected snapshot start ∧ snapshot.manifest.status = .complete ∧
        opens twoScenariosRun.arguments ∧ Session opens start disk held ∧ Retains start disk := by
  obtain ⟨past, after, expected, canonical, sequence, snapshot, hlife, hpast, hrun, hconsistent,
    hsealed, hstatus⟩ := completed_twoScenarios
  have hof : twoScenariosRun.arguments.Of ⟨[66]⟩ twoScenarios 1 := ⟨rfl, rfl, rfl⟩
  have hquiet := Environment.idle_faultless.quiet
  obtain ⟨args, hargs, -, hfits, -⟩ := hlife.fits hsealed.isSome_file
  obtain rfl := hpast args hargs
  have hended := hconsistent.ended hof hrun hsealed (by rw [hstatus]; nofun)
  have hsession : Session (fun other => other.Of ⟨[66]⟩ twoScenarios 1 ∧ other.Fits) after.disk
      (run Environment.idle.handle twoScenariosRun.openStore after).2.disk none :=
    .opening .start (.lowered (.of ⟨hof, hfits⟩)) hquiet (visits_final _ _ after)
  exact ⟨_, expected, snapshot, after.disk, _, none, hended, hstatus, ⟨hof, hfits⟩, hsession,
    (terminal_states_absorbing hended hsession).1⟩

end MonteCarlo
