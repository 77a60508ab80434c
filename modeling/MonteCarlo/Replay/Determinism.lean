import MonteCarlo.Engine.Determinism
import MonteCarlo.Engine.Fulfilled
import MonteCarlo.Engine.MeteredRun
import MonteCarlo.Engine.Validators
import MonteCarlo.Replay.Readable

/-!
# Crash traces of runs with one worker

Two executions of `run_parallel_durable` with one worker that start from equal run directories pass
the same failure points, whatever the interleavings of their threads and the capacities of their
queues, and whether they keep metrics or not.  A replay therefore stops where the original run
stopped.

* `SameStart` — what the two executions have in common.
* `CrashTracesAgree` — what follows for the failure points that they pass, and for the injectors that
  watch them.
* `crash_traces_agree` — it does follow.
-/

namespace MonteCarlo

open Effects Effects.Program

/-! ## Traces grow -/

section Growth

variable {env : Environment} {α : Type} {p : Prog α} {s s' : World × Trace}

theorem Op.record_prefix (op : Op) (trace : Trace) : trace <+: op.record trace := by
  cases op with
  | hit point context => exact List.prefix_append _ _
  | _ => exact List.prefix_rfl

theorem trace_prefix_run (env : Environment) (p : Prog α) (s : World × Trace) :
    s.2 <+: (run env.traced p s).2.2 := by
  induction p generalizing s with
  | done a => exact List.prefix_rfl
  | fail e => exact List.prefix_rfl
  | call op next ih => exact (op.record_prefix s.2).trans (ih _ (env.traced op s).2)

/-- The failure points passed so far are the first ones of the whole execution. -/
theorem trace_prefix_of_visits (hv : Visits env.traced p s s') :
    s'.2 <+: (run env.traced p s).2.2 := by
  induction p generalizing s with
  | done a =>
    obtain rfl : s' = s := hv
    exact List.prefix_rfl
  | fail e =>
    obtain rfl : s' = s := hv
    exact List.prefix_rfl
  | call op next ih =>
    rcases hv with rfl | hv
    · exact trace_prefix_run env (.call op next) s'
    · exact ih _ hv

end Growth

/-! ## Injectors that watch equal traces -/

/-- Two injectors that select the same occurrence and have seen the same. -/
structure FailureInjector.Alike (injector injector' : FailureInjector) : Prop where
  enabled : injector.enabled = injector'.enabled
  traceHasher : injector.traceHasher = injector'.traceHasher
  selectedHits : injector.selectedHits = injector'.selectedHits
  point : injector.descriptor.injection.selectedPoint =
    injector'.descriptor.injection.selectedPoint
  occurrence : injector.descriptor.injection.selectedOccurrence =
    injector'.descriptor.injection.selectedOccurrence
  events : injector.descriptor.observedTraceEvents = injector'.descriptor.observedTraceEvents

/-- What a descriptor says about the trace. -/
def ReplayDescriptor.observed (descriptor : ReplayDescriptor) :
    Sha256Digest × UInt64 × UInt64 × UInt64 × UInt64 :=
  (descriptor.observedTraceHash, descriptor.observedTraceEvents, descriptor.runIncarnation,
    descriptor.blockId, descriptor.checkpointSequence)

/-- Both processes stop, with the same records of the trace, or neither does. -/
inductive HitOutcome.Agree : HitOutcome → HitOutcome → Prop where
  | continues {injector injector' : FailureInjector} (h : injector.Alike injector') :
      Agree (.continues injector) (.continues injector')
  | crashes {descriptor descriptor' : ReplayDescriptor}
      (h : descriptor.observed = descriptor'.observed) :
      Agree (.crashes descriptor) (.crashes descriptor')

namespace FailureInjector

variable {injector injector' : FailureInjector}

theorem Alike.hit (h : injector.Alike injector') (point : FailurePoint)
    (context : FailureContext) :
    (injector.hit point context).Agree (injector'.hit point context) := by
  obtain ⟨henabled, hhasher, hhits, hpoint, hoccurrence, hevents⟩ := h
  unfold FailureInjector.hit
  simp only [henabled, hhasher, hhits, hpoint, hoccurrence, hevents]
  split
  · exact .continues ⟨henabled, hhasher, hhits, hpoint, hoccurrence, hevents⟩
  · split
    · exact .continues ⟨rfl, rfl, rfl, hpoint, hoccurrence, rfl⟩
    · split
      · exact .continues ⟨rfl, rfl, rfl, hpoint, hoccurrence, rfl⟩
      · exact .crashes rfl

theorem Alike.hitAll (h : injector.Alike injector') (hits : Trace) :
    (injector.hitAll hits).Agree (injector'.hitAll hits) := by
  induction hits generalizing injector injector' with
  | nil => exact .continues h
  | cons hit rest ih =>
    obtain ⟨point, context⟩ := hit
    have hstep := h.hit point context
    rw [FailureInjector.hitAll, FailureInjector.hitAll]
    generalize injector.hit point context = outcome at hstep
    generalize injector'.hit point context = outcome' at hstep
    cases hstep with
    | continues hnext => exact ih hnext
    | crashes hobserved => exact .crashes hobserved

/-- What happens after the process has stopped does not matter. -/
theorem hitAll_append {hits : Trace} {descriptor : ReplayDescriptor}
    (h : injector.hitAll hits = .crashes descriptor) (later : Trace) :
    injector.hitAll (hits ++ later) = .crashes descriptor := by
  induction hits generalizing injector with
  | nil => cases h
  | cons hit rest ih =>
    obtain ⟨point, context⟩ := hit
    rw [List.cons_append, FailureInjector.hitAll]
    rw [FailureInjector.hitAll] at h
    cases hhit : injector.hit point context with
    | continues next =>
      rw [hhit] at h
      exact ih h
    | crashes found =>
      rw [hhit] at h
      exact h

theorem hitAll_of_prefix {hits later : Trace} {descriptor : ReplayDescriptor}
    (hinitial : hits <+: later) (h : injector.hitAll hits = .crashes descriptor) :
    injector.hitAll later = .crashes descriptor := by
  obtain ⟨rest, rfl⟩ := hinitial
  exact hitAll_append h rest

/-- The point and the occurrence at which a process is to stop. -/
def selection (injection : Option FailureInjectionConfig) : Option (FailurePoint × UInt64) :=
  injection.map fun config => (config.selectedPoint, config.selectedOccurrence)

/-- Injectors that are made for the same selection are alike at first. -/
theorem alike_new {build build' : BuildIdentity} {spec spec' : RunSpec}
    {engineConfig engineConfig' : EngineConfig} {storeConfig storeConfig' : RunStoreConfig}
    {injection injection' : Option FailureInjectionConfig} {paths paths' : PathInspection}
    (hselection : selection injection = selection injection')
    (hnew : FailureInjector.new build spec engineConfig storeConfig injection paths = .ok injector)
    (hnew' : FailureInjector.new build' spec' engineConfig' storeConfig' injection' paths' =
      .ok injector') : injector.Alike injector' := by
  cases injection with
  | none =>
    cases injection' with
    | none =>
      obtain rfl := Except.ok.inj hnew
      obtain rfl := Except.ok.inj hnew'
      exact ⟨rfl, rfl, rfl, rfl, rfl, rfl⟩
    | some config' => cases hselection
  | some config =>
    cases injection' with
    | none => cases hselection
    | some config' =>
      simp only [new, Result.bind_eq_ok, throwIf_eq_ok, exists_const] at hnew hnew'
      obtain ⟨-, ⟨⟩, -, -, -, -, -, -, -, specHash, -, hinjector⟩ := hnew
      obtain ⟨-, ⟨⟩, -, -, -, -, -, -, -, specHash', -, hinjector'⟩ := hnew'
      obtain rfl := Except.ok.inj hinjector
      obtain rfl := Except.ok.inj hinjector'
      simp only [selection, Option.map_some, Option.some.injEq, Prod.mk.injEq] at hselection
      exact ⟨rfl, rfl, rfl, hselection.1, hselection.2, rfl⟩

end FailureInjector

/-! ## Two executions -/

/-- How two executions can start from equal run directories. -/
inductive SameStart (env env' : Environment) (limit : ℕ) (s t : World × Trace) : Prop where
  /-- No call fails; the machines may differ in all that the file system leaves open. -/
  | faultless (henv : env.Comparable env' limit) (halike : Alike env env' Node.Special s t)
  /-- Calls may fail, but the same ones in the same way. -/
  | replayed (henv : env = env') (hstate : s = t)

/-- The machine with the failure points it has passed, and the metrics of the process. -/
abbrev MeteredState : Type := (World × Trace) × Meter

/-- The failure points passed so far. -/
def MeteredState.hits (s : MeteredState) : Trace := s.1.2

/-- The traces of an execution of `inv` on `env` from `s` and of one of `inv'` on `env'` from `t`, and
the injectors that watch them. -/
structure CrashTracesAgree (inv inv' : Invocation) (env env' : Environment) (meters meters' : Meters)
    (s t : MeteredState) (injector injector' : FailureInjector) : Prop where
  /-- At any two moments, one execution has passed the first failure points of the other. -/
  comparable : ∀ s' t' : MeteredState, inv.MeteredVisits env.traced meters s s' →
    inv'.MeteredVisits env'.traced meters' t t' → s'.hits <+: t'.hits ∨ t'.hits <+: s'.hits
  /-- Executions that come to their end have passed the same failure points. -/
  ends : ∀ outcome outcome' (s' t' : MeteredState),
    inv.MeteredEnds env.traced meters s outcome s' →
    inv'.MeteredEnds env'.traced meters' t outcome' t' → s'.hits = t'.hits
  /-- Both stop at the selected occurrence, with equal records of the trace, or neither does. -/
  outcomes : ∀ outcome outcome' (s' t' : MeteredState),
    inv.MeteredEnds env.traced meters s outcome s' →
    inv'.MeteredEnds env'.traced meters' t outcome' t' →
      (injector.hitAll s'.hits).Agree (injector'.hitAll t'.hits)
  /-- Whenever both have stopped, their records of the trace are equal. -/
  records : ∀ (s' t' : MeteredState) descriptor descriptor',
    inv.MeteredVisits env.traced meters s s' → inv'.MeteredVisits env'.traced meters' t t' →
    injector.hitAll s'.hits = .crashes descriptor →
    injector'.hitAll t'.hits = .crashes descriptor' → descriptor.observed = descriptor'.observed
  /-- When one has stopped, the other does not end without stopping. -/
  reached : ∀ outcome' (s' t' : MeteredState) descriptor,
    inv.MeteredVisits env.traced meters s s' → injector.hitAll s'.hits = .crashes descriptor →
    inv'.MeteredEnds env'.traced meters' t outcome' t' →
      ∃ descriptor', injector'.hitAll t'.hits = .crashes descriptor' ∧
        descriptor.observed = descriptor'.observed
  reached' : ∀ outcome (s' t' : MeteredState) descriptor',
    inv'.MeteredVisits env'.traced meters' t t' → injector'.hitAll t'.hits = .crashes descriptor' →
    inv.MeteredEnds env.traced meters s outcome s' →
      ∃ descriptor, injector.hitAll s'.hits = .crashes descriptor ∧
        descriptor.observed = descriptor'.observed

theorem HitOutcome.Agree.observed {injector injector' : FailureInjector} {hits : Trace}
    {descriptor : ReplayDescriptor}
    (h : (injector.hitAll hits).Agree (injector'.hitAll hits))
    (hcrash : injector.hitAll hits = .crashes descriptor) :
    ∃ descriptor', injector'.hitAll hits = .crashes descriptor' ∧
      descriptor.observed = descriptor'.observed := by
  rw [hcrash] at h
  generalize injector'.hitAll hits = outcome at h
  cases h with
  | crashes hobserved => exact ⟨_, rfl, hobserved⟩

theorem HitOutcome.Agree.symm {first second : HitOutcome} (h : first.Agree second) :
    second.Agree first := by
  cases h with
  | continues halike =>
    obtain ⟨henabled, hhasher, hhits, hpoint, hoccurrence, hevents⟩ := halike
    exact .continues ⟨henabled.symm, hhasher.symm, hhits.symm, hpoint.symm, hoccurrence.symm,
      hevents.symm⟩
  | crashes hobserved => exact .crashes hobserved.symm

section Executions

variable {inv : Invocation} {env env' : Environment} {s t : World × Trace}

theorem SameStart.trace_run (h : SameStart env env' inv.storeConfig.spaceLimit s t) :
    (run env.traced inv.singleProgram s).2.2 = (run env'.traced inv.singleProgram t).2.2 := by
  cases h with
  | faultless henv halike =>
    have hmatches := Invocation.agrees_singleProgram henv s t halike
    generalize run env.traced inv.singleProgram s = final at hmatches
    generalize run env'.traced inv.singleProgram t = final' at hmatches
    cases hmatches with
    | returns _ hstate => exact hstate.trace
    | throws hstate => exact hstate
  | replayed henv hstate => rw [henv, hstate]

variable {meters : Meters} {state state' : MeteredState}

/-- An execution passes the failure points of the program without threads, one after the other. -/
theorem visited_hits (hone : inv.engineConfig.workerCount = 1)
    (hv : inv.MeteredVisits env.traced meters state state') :
    state'.hits <+: (run env.traced inv.singleProgram state.1).2.2 :=
  trace_prefix_of_visits (hv.plain.single hone)

/-- An execution that comes to its end passes all of them. -/
theorem hits_of_ends (hone : inv.engineConfig.workerCount = 1) {outcome : Result DurableRunResult}
    (he : inv.MeteredEnds env.traced meters state outcome state') :
    state'.hits = (run env.traced inv.singleProgram state.1).2.2 := by
  rw [MeteredState.hits, he.plain.single hone]

end Executions

/-- Two executions with one worker from equal run directories, under any interleavings, with any
capacities of the queues, with metrics or without, pass the same failure points and stop at the same
one. -/
theorem crash_traces_agree {inv : Invocation} {assignment completion : ℕ} {env env' : Environment}
    {meters meters' : Meters} {s t : MeteredState} {storeConfig storeConfig' : RunStoreConfig}
    {injection injection' : Option FailureInjectionConfig} {paths paths' : PathInspection}
    {injector injector' : FailureInjector} (hone : inv.engineConfig.workerCount = 1)
    (hstart : SameStart env env' inv.storeConfig.spaceLimit s.1 t.1)
    (hselection : FailureInjector.selection injection = FailureInjector.selection injection')
    (hnew : FailureInjector.new inv.build inv.spec inv.engineConfig storeConfig injection paths =
      .ok injector)
    (hnew' : FailureInjector.new inv.build inv.spec
      (inv.engineConfig.withQueues assignment completion) storeConfig' injection' paths' =
        .ok injector') :
    CrashTracesAgree inv (inv.withQueues assignment completion) env env' meters meters' s t injector
      injector' := by
  have htraces := hstart.trace_run
  have hone' : (inv.withQueues assignment completion).engineConfig.workerCount = 1 := hone
  have hprogram : (inv.withQueues assignment completion).singleProgram = inv.singleProgram :=
    inv.singleProgram_withQueues
  have halike := FailureInjector.alike_new hselection hnew hnew'
  have hvisits : ∀ t' : MeteredState,
      (inv.withQueues assignment completion).MeteredVisits env'.traced meters' t t' →
        t'.hits <+: (run env.traced inv.singleProgram s.1).2.2 := by
    intro t' hv
    have hinitial := visited_hits hone' hv
    rwa [hprogram, ← htraces] at hinitial
  have hends : ∀ outcome (t' : MeteredState),
      (inv.withQueues assignment completion).MeteredEnds env'.traced meters' t outcome t' →
        t'.hits = (run env.traced inv.singleProgram s.1).2.2 := by
    intro outcome t' he
    rw [hits_of_ends hone' he, hprogram, ← htraces]
  refine ⟨fun s' t' hv hv' => ?_, fun _ _ s' t' he he' => ?_, fun _ _ s' t' he he' => ?_,
    fun s' t' descriptor descriptor' hv hv' hcrash hcrash' => ?_,
    fun _ s' t' descriptor hv hcrash he' => ?_, fun _ s' t' descriptor' hv' hcrash' he => ?_⟩
  · exact List.prefix_or_prefix_of_prefix (visited_hits hone hv) (hvisits t' hv')
  · exact (hits_of_ends hone he).trans (hends _ t' he').symm
  · rw [hits_of_ends hone he, hends _ t' he']
    exact halike.hitAll _
  · have hwhole := FailureInjector.hitAll_of_prefix (visited_hits hone hv) hcrash
    have hwhole' := FailureInjector.hitAll_of_prefix (hvisits t' hv') hcrash'
    obtain ⟨found, hfound, hobserved⟩ := (halike.hitAll _).observed hwhole
    rw [hwhole'] at hfound
    cases hfound
    exact hobserved
  · have hwhole := FailureInjector.hitAll_of_prefix (visited_hits hone hv) hcrash
    rw [hends _ t' he']
    exact (halike.hitAll _).observed hwhole
  · have hwhole := FailureInjector.hitAll_of_prefix (hvisits t' hv') hcrash'
    obtain ⟨found, hfound, hobserved⟩ := (halike.hitAll _).symm.observed hwhole
    rw [hits_of_ends hone he]
    exact ⟨found, hfound, hobserved.symm⟩

/-- A machine that lists directories backwards and writes one byte at a time. -/
def Environment.slow : Environment :=
  { Environment.idle with
    order := fun _ paths => ⟨paths.reverse, paths.reverse_perm⟩
    writeCount := fun _ => 1
    available := fun _ => 2 ^ 40
    processId := 7 }

/-- Two scenarios, with a checkpoint after each block. -/
def checkpointedRun : Invocation :=
  { twoScenariosRun with
    storeConfig := { twoScenariosRun.storeConfig with checkpointIntervalBlocks := 1 } }

theorem comparable_slow :
    Environment.idle.Comparable .slow checkpointedRun.storeConfig.spaceLimit where
  first := Environment.idle_faultless
  second := ⟨fun _ _ => rfl, fun _ => Nat.one_pos⟩
  device := rfl
  space := by
    intro time time' required hrequired
    have hlimit : checkpointedRun.storeConfig.spaceLimit < 2 ^ 40 := by decide
    have hidle : (Environment.idle.available time).toNat = 2 ^ 64 - 1 :=
      show maxWord.toNat = _ by decide
    have hslow : (Environment.slow.available time').toNat = 2 ^ 40 :=
      show (2 ^ 40 : UInt64).toNat = _ by decide
    rw [UInt64.lt_iff_toNat_lt, UInt64.lt_iff_toNat_lt]
    omega

/-- It comes to its end on every machine on which no call fails and there is enough space. -/
theorem exists_ends_checkpointedRun (assignment completion : ℕ) {env : Environment}
    (henv : env.Supports (2 ^ 27)) (clock nonce : ℕ) :
    ∃ outcome final, (checkpointedRun.withQueues assignment completion).EndsUndisturbed env.traced
      (⟨∅, clock, nonce⟩, []) outcome final := by
  have hwell : checkpointedRun.computesWell [⟨0, 0, 1, 0, 1⟩, ⟨1, 1, 2, 0, 1⟩] = true := by
    decide +kernel
  have hspec : checkpointedRun.spec.validate = .ok () := by decide +kernel
  have hengine : checkpointedRun.engineConfig.validate checkpointedRun.spec = .ok () := rfl
  have hstore : checkpointedRun.storeConfig.validate = .ok () := rfl
  have hcount : (blockCount checkpointedRun.spec checkpointedRun.engineConfig.blockSize).toNat = 2 ∧
      blockCount checkpointedRun.spec checkpointedRun.engineConfig.blockSize ≤
        checkpointedRun.engineConfig.maxMaterializedBlocks ∧ checkpointedRun.arguments.Fits := by
    unfold OpenArguments.Fits RunStoreConfig.Fits
    decide
  obtain ⟨hblocks, hmaterialized, hfits⟩ := hcount
  have hroom : checkpointedRun.arguments.config.manifestRoom 2 = 4 ∧
      2 ^ 21 ≤ checkpointedRun.arguments.config.maxStorageBytes.toNat ∧
      8 ≤ checkpointedRun.arguments.config.maxStorageFiles.toNat ∧
      checkpointedRun.arguments.config.minFreeSpaceBytes.toNat = 2 ^ 26 := by
    decide
  obtain ⟨hmanifests, hbytes, hfiles, hfree⟩ := hroom
  obtain ⟨expected, canonical, bytes, total, hadmitted, htotal⟩ := @OpenArguments.exists_admitted
    (checkpointedRun.withQueues assignment completion).arguments hspec hengine hstore hmaterialized
    (show checkpointedRun.build.description ≠ [] by decide)
    (show checkpointedRun.build.description.length ≤ _ by decide) hfits (2 ^ 21) 2 hblocks
    (by
      change 512 * 2 + checkpointedRun.arguments.config.manifestRoom 2 * _ + _ ≤ _
      rw [hmanifests]
      omega)
    hbytes
    (by
      change 2 + 2 + checkpointedRun.arguments.config.manifestRoom 2 ≤ _
      rw [hmanifests]
      exact hfiles)
  obtain rfl : canonical = [⟨0, 0, 1, 0, 1⟩, ⟨1, 1, 2, 0, 1⟩] :=
    Except.ok.inj (hadmitted.run.canonical.symm.trans makeBlocks_twoScenarios)
  obtain ⟨aggregates, hcomputes⟩ :=
    @Invocation.exists_computes (checkpointedRun.withQueues assignment completion) _ hwell
  have hneeds : (checkpointedRun.withQueues assignment completion).arguments.needs total ≤
      2 ^ 27 := by
    change total.toNat + checkpointedRun.arguments.config.minFreeSpaceBytes.toNat ≤ _
    rw [hfree]
    omega
  have hinterval : checkpointedRun.storeConfig.checkpointIntervalBlocks ≠ 0 := by decide
  obtain ⟨result, final, hends⟩ := @Invocation.exists_fulfilled
    (checkpointedRun.withQueues assignment completion) env expected _ bytes total aggregates rfl
    hinterval hadmitted hcomputes (henv.mono hneeds)
    (show ¬ (Paths.Spelling.ofText checkpointedRun.storeConfig.runDirectory).EndsInSeparator by
      decide) clock nonce
  exact ⟨_, final, hends⟩

theorem Environment.slow_supports : Environment.slow.Supports (2 ^ 27) :=
  ⟨⟨fun _ _ => rfl, fun _ => Nat.one_pos⟩, fun _ => rfl, fun _ => by
    show 2 ^ 27 ≤ (2 ^ 40 : UInt64).toNat
    decide⟩

/-- The selection of the second installation of a manifest, with the descriptor at a given path. -/
def secondManifest (path : String) : Option FailureInjectionConfig :=
  some ⟨.manifestAfterRename, 2, 7, 0, path⟩

/-- The injector of such a run. -/
def replayInjector (engineConfig : EngineConfig) (path : String) : Result FailureInjector :=
  FailureInjector.new checkpointedRun.build checkpointedRun.spec engineConfig
    checkpointedRun.storeConfig (secondManifest path) ⟨.ok false, .ok false⟩

/-- A clock that ticks once a microsecond and one that stands still. -/
def tickingMeters : Meters := ⟨fun tick => 1000 * tick, fun count => ⟨count, le_rfl⟩⟩

def stoppedMeters : Meters := ⟨fun _ => 0, fun count => ⟨count + 1, Nat.le_succ count⟩⟩

/-- An execution with metrics in an empty directory and a later one without: both come to their ends
and have passed the same failure points. -/
theorem crash_traces_agree_two_scenarios :
    ∃ injector injector' outcome outcome' s' t',
      replayInjector checkpointedRun.engineConfig "first" = .ok injector ∧
      replayInjector (checkpointedRun.engineConfig.withQueues 1 3) "second" = .ok injector' ∧
      checkpointedRun.MeteredEnds Environment.idle.traced tickingMeters
        ((⟨∅, 0, 0⟩, []), ⟨some {}, 0⟩) outcome s' ∧
      (checkpointedRun.withQueues 1 3).MeteredEnds Environment.slow.traced stoppedMeters
        ((⟨∅, 5, 2⟩, []), ⟨none, 0⟩) outcome' t' ∧
      MeteredState.hits s' = MeteredState.hits t' ∧
      (injector.hitAll (MeteredState.hits s')).Agree (injector'.hitAll (MeteredState.hits t')) := by
  have hok : (replayInjector checkpointedRun.engineConfig "first").isOk ∧
      (replayInjector (checkpointedRun.engineConfig.withQueues 1 3) "second").isOk := by
    decide +kernel
  obtain ⟨hfirst, hsecond⟩ := hok
  cases hnew : replayInjector checkpointedRun.engineConfig "first" with
  | error e => rw [hnew] at hfirst; cases hfirst
  | ok injector =>
    cases hnew' : replayInjector (checkpointedRun.engineConfig.withQueues 1 3) "second" with
    | error e => rw [hnew'] at hsecond; cases hsecond
    | ok injector' =>
      have hselection : FailureInjector.selection (secondManifest "first") =
          FailureInjector.selection (secondManifest "second") := rfl
      have hagree : CrashTracesAgree checkpointedRun (checkpointedRun.withQueues 1 3) .idle .slow
          tickingMeters stoppedMeters ((⟨∅, 0, 0⟩, []), ⟨some {}, 0⟩) ((⟨∅, 5, 2⟩, []), ⟨none, 0⟩)
          injector injector' := by
        refine crash_traces_agree rfl (.faultless comparable_slow ⟨rfl, rfl, Or.inr ?_⟩) hselection
          hnew hnew'
        intro path node hlookup
        cases hlookup
      obtain ⟨outcome, final, hends⟩ := exists_ends_checkpointedRun 0 0
        (Environment.idle_supports (2 ^ 27)) 0 0
      obtain ⟨outcome', final', hends'⟩ := exists_ends_checkpointedRun 1 3
        Environment.slow_supports 5 2
      obtain ⟨meter, hmetered⟩ := Invocation.meteredEnds_iff.mpr hends
      obtain ⟨meter', hmetered'⟩ := Invocation.meteredEnds_iff.mpr hends'
      exact ⟨injector, injector', outcome, outcome', _, _, rfl, rfl, hmetered, hmetered',
        hagree.ends _ _ _ _ hmetered hmetered', hagree.outcomes _ _ _ _ hmetered hmetered'⟩

end MonteCarlo
