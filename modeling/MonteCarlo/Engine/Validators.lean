import MonteCarlo.Engine.Durable
import MonteCarlo.Store.Opening

/-!
# Three validators

In a durable run a result is judged three times, by code that does not know of each other:
`validate_result` against the coordinator, `record_result` against the store, and `commit_result`
against the coordinator again.

* `Corresponds` — how the coordinator and the store of one run hang together.
* `Invocation.Memory` — the variables of `run_parallel_durable` at any time, in any run.
* `validators_agree` — a result that the first validator accepts, the other two accept.
-/

namespace MonteCarlo

open Effects Effects.Program

/-! ## Coordinator and store -/

/-- The coordinator of a running store: the same run, the same blocks, and durable evidence only
for blocks that are committed. -/
structure Corresponds (spec : RunSpec) (store : DurableRunStore) (coordinator : CoordinatorState) :
    Prop where
  running : store.recovery.status = .running
  spec_eq : store.spec = spec
  stats : spec.statsSchemaVersion = kStatsSchemaVersion
  serves : coordinator.Serves spec
  runSpecHash : coordinator.runSpecHash = store.metadata.runSpecHash
  executionLayoutHash : coordinator.executionLayoutHash = store.metadata.executionLayoutHash
  buildFingerprint : coordinator.buildFingerprint = store.metadata.buildFingerprint
  blocks : coordinator.blocks = store.recovery.blocks
  leases : ∀ block ∈ store.recovery.blocks, block.leaseEpoch ≠ 0
  length : coordinator.committedPayloads.length = coordinator.blocks.length
  evidence : ∀ i : ℕ, (coordinator.committedPayloads[i]?).join = none →
    (store.durableResults[i]?).join = none

namespace Corresponds

variable {spec : RunSpec} {store : DurableRunStore} {coordinator : CoordinatorState}
  {result : BlockResult}

/-- What `validate_result` accepts passes every check of `record_result`. -/
theorem checkRecord (h : Corresponds spec store coordinator)
    (haccepted : AcceptedBy coordinator result) : checkRecord store result = .ok () := by
  obtain ⟨block, hblock, hstart, hend, hlease, hvalid⟩ := haccepted.expected
  have hincarnation : result.block.runIncarnation = block.runIncarnation := by
    rw [haccepted.runIncarnation, h.serves.incarnation block (List.mem_of_getElem? hblock)]
  rw [h.blocks] at hblock
  rw [h.serves.antithetic] at hvalid
  have hchecksum := haccepted.checksum
  rw [haccepted.statsSchemaVersion, h.serves.statsSchemaVersion] at hchecksum
  simp only [MonteCarlo.checkRecord, h.running, hblock, h.spec_eq, haccepted.runSpecHash,
    h.runSpecHash, haccepted.executionLayoutHash, h.executionLayoutHash,
    haccepted.buildFingerprint, h.buildFingerprint, haccepted.rngVersion, h.serves.rngVersion,
    hstart, hend, hincarnation, hlease, hchecksum, hvalid, ne_eq, not_true_eq_false,
    decide_false, Bool.or_self, throwIf_false, Result.ok_bind, haccepted.statsSchemaVersion,
    h.serves.statsSchemaVersion]
  rfl

/-- No durable result is in its way. -/
theorem fresh (h : Corresponds spec store coordinator) (haccepted : AcceptedBy coordinator result) :
    (store.durableResults[result.block.blockId.toNat]?).join = none :=
  h.evidence _ haccepted.fresh

/-- And it can be encoded. -/
theorem encodeBlockRecord (h : Corresponds spec store coordinator)
    (haccepted : AcceptedBy coordinator result) :
    ∃ bytes, encodeBlockRecord ⟨store.metadata.runId, result⟩ = .ok bytes := by
  obtain ⟨block, hblock, -, -, hlease, -⟩ := haccepted.expected
  rw [h.blocks] at hblock
  refine ⟨_, encodeBlockRecord_eq_ok.mpr ⟨?_, haccepted.checksum, rfl⟩⟩
  rw [hlease]
  exact h.leases block (List.mem_of_getElem? hblock)

/-- Both sides take note of a result. -/
theorem commit (h : Corresponds spec store coordinator) (haccepted : AcceptedBy coordinator result)
    (usage : StorageUsage) :
    Corresponds spec
      { store with
        durableResults := store.durableResults.set result.block.blockId.toNat (some result)
        usage := usage }
      (coordinator.commit result) where
  running := h.running
  spec_eq := h.spec_eq
  stats := h.stats
  serves := ⟨h.serves.rngVersion, h.serves.statsSchemaVersion, h.serves.antithetic,
    h.serves.positioned, h.serves.incarnation⟩
  runSpecHash := h.runSpecHash
  executionLayoutHash := h.executionLayoutHash
  buildFingerprint := h.buildFingerprint
  blocks := h.blocks
  leases := h.leases
  length := by
    rw [CoordinatorState.commit, List.length_set]
    exact h.length
  evidence := by
    intro i hi
    obtain ⟨block, hblock, -⟩ := haccepted.expected
    have hlt : result.block.blockId.toNat < coordinator.committedPayloads.length := by
      rw [h.length]
      exact (List.getElem?_eq_some_iff.mp hblock).1
    have hne : result.block.blockId.toNat ≠ i := by
      rintro rfl
      rw [CoordinatorState.commit, List.getElem?_set_self hlt] at hi
      cases hi
    rw [CoordinatorState.commit, List.getElem?_set_ne hne] at hi
    rw [List.getElem?_set_ne hne]
    exact h.evidence i hi

/-- A checkpoint of a running store. -/
theorem checkpoint (h : Corresponds spec store coordinator) (sequence : UInt64)
    (committed : List (Option BlockResult)) (usage : StorageUsage) :
    Corresponds spec
      { store with
        recovery := { store.recovery with
          manifestSequence := sequence, status := .running, committedResults := committed }
        usage := usage }
      coordinator where
  running := rfl
  spec_eq := h.spec_eq
  stats := h.stats
  serves := h.serves
  runSpecHash := h.runSpecHash
  executionLayoutHash := h.executionLayoutHash
  buildFingerprint := h.buildFingerprint
  blocks := h.blocks
  leases := h.leases
  length := h.length
  evidence := h.evidence

end Corresponds

/-! ## What the mutators return and throw -/

section Mutators

variable {store : DurableRunStore} {coordinator : CoordinatorState} {result : BlockResult}

/-- `record_result` adds the result, or had it already. -/
theorem returns_recordResult (hfresh :
      (store.durableResults[result.block.blockId.toNat]?).join = none) :
    Returns (fun next => ∃ usage, next =
        { store with
          durableResults := store.durableResults.set result.block.blockId.toNat (some result)
          usage := usage })
      (recordResult store result) := by
  refine returns_skip _ fun _ => ?_
  simp only [hfresh]
  exact returns_skip _ fun bytes => returns_skip _ fun usage => returns_pure ⟨usage, rfl⟩

/-- `checkpoint` changes the recovery state and the storage counters. -/
theorem returns_checkpoint (leaves : List (AggregateStats Binary64)) (received : List Bool)
    (status : DurableRunStatus) (failure : Option FailureRecord) :
    Returns (fun next => ∃ sequence committed usage, next =
        { store with
          recovery := { store.recovery with
            manifestSequence := sequence, status := status, committedResults := committed }
          usage := usage })
      (checkpoint store coordinator leaves received status failure) := by
  refine returns_skip _ fun manifest => returns_skip _ fun bytes => returns_skip _ fun _ => ?_
  exact returns_skip _ fun usage => returns_skip _ fun _ => returns_pure ⟨_, _, usage, rfl⟩

/-- Neither an error of `record_result` nor the `std::logic_error` of `run_parallel_durable`. -/
def Foreign (e : Exception) : Prop :=
  e.thrower ≠ .recordResult ∧ (e.thrower = .runParallelDurable → e.type ≠ .logicError)

theorem raises_callOr {op : Op} {error : Errno → Exception} (h : ∀ e, Foreign (error e)) :
    Raises Foreign (callOr op error) := by
  refine raises_bind (raises_perform op) fun reply => ?_
  split
  · exact raises_pure _
  · exact raises_throw (h _)

theorem raises_callIgnored (op : Op) : Raises Foreign (callIgnored op) :=
  raises_bind (raises_perform op) fun _ => raises_pure _

theorem raises_throwIf {condition : Bool} {error : Exception} (h : Foreign error) :
    Raises Foreign (Program.ofExcept (throwIf condition error) : Prog Unit) :=
  raises_ofExcept fun _ he => (throwIf_eq_error.mp he).2 ▸ h

theorem raises_syncDirectory (config : RunStoreConfig) (dir : Dir) :
    Raises Foreign (syncDirectory config dir) := by
  refine raises_bind (raises_callOr fun e => ⟨nofun, nofun⟩) fun _ => ?_
  refine raises_bind (raises_perform _) fun reply => ?_
  split
  · exact raises_bind (raises_callIgnored _) fun _ => raises_throw ⟨nofun, nofun⟩
  · exact raises_bind (raises_callOr fun e => ⟨nofun, nofun⟩) fun _ => raises_pure _

theorem raises_readFile (config : RunStoreConfig) (path : Path) (maximumSize : UInt64) :
    Raises Foreign (readFile config path maximumSize) := by
  refine raises_bind (raises_callOr fun e => ?_) fun size => ?_
  · unfold statError
    split <;> exact ⟨nofun, nofun⟩
  · split
    · exact raises_throw ⟨nofun, nofun⟩
    · refine raises_bind (raises_callOr fun e => ⟨nofun, nofun⟩) fun _ => ?_
      refine raises_bind (raises_callOr fun e => ⟨nofun, nofun⟩) fun bytes => ?_
      split
      · exact raises_throw ⟨nofun, nofun⟩
      · exact raises_pure _

theorem raises_hitWriteFailure (context : WriteContext) (first second : FailurePoint) :
    Raises Foreign (hitWriteFailure context first second) := by
  cases context with
  | metadata => exact raises_pure _
  | blockResult failure => exact raises_callIgnored _
  | manifest failure => exact raises_callIgnored _

theorem raises_writeAll (text : String) (path : Path) (fuel : ℕ) (bytes : Bytes) :
    Raises Foreign (writeAll text path fuel bytes) := by
  induction fuel generalizing bytes with
  | zero => cases bytes <;> exact raises_pure _
  | succ fuel ih =>
    cases bytes with
    | nil => exact raises_pure _
    | cons byte rest =>
      refine raises_bind (raises_callOr fun e => ⟨nofun, nofun⟩) fun written => ?_
      split
      · exact raises_throw ⟨nofun, nofun⟩
      · exact ih _

theorem raises_installTemporary (config : RunStoreConfig) (temporary finalPath : Path)
    (context : WriteContext) :
    Raises Foreign (installTemporary config temporary finalPath context) := by
  refine raises_bind (raises_callOr fun e => ⟨nofun, nofun⟩) fun _ => ?_
  refine raises_bind (raises_hitWriteFailure _ _ _) fun _ => ?_
  refine raises_bind (raises_callOr fun e => ⟨nofun, nofun⟩) fun _ => ?_
  refine raises_bind (raises_hitWriteFailure _ _ _) fun _ => ?_
  refine raises_bind (raises_syncDirectory _ _) fun _ => ?_
  split
  · exact raises_syncDirectory _ _
  · exact raises_pure _

theorem raises_writeTemporary (config : RunStoreConfig) (temporary : Path) (bytes : Bytes)
    (context : WriteContext) : Raises Foreign (writeTemporary config temporary bytes context) := by
  refine raises_bind (raises_writeAll _ _ _ _) fun _ => ?_
  refine raises_bind (raises_hitWriteFailure _ _ _) fun _ => ?_
  refine raises_bind (raises_callOr fun e => ⟨nofun, nofun⟩) fun _ => ?_
  exact raises_hitWriteFailure _ _ _

theorem raises_preflightWrite (config : RunStoreConfig) (usage : StorageUsage) (size : ℕ) :
    Raises Foreign (preflightWrite config usage size) := by
  refine raises_bind (raises_throwIf ⟨nofun, nofun⟩) fun _ => ?_
  refine raises_bind (raises_throwIf ⟨nofun, nofun⟩) fun _ => ?_
  refine raises_bind (raises_throwIf ⟨nofun, nofun⟩) fun _ => ?_
  refine raises_bind (raises_callOr fun e => ⟨nofun, nofun⟩) fun _ => ?_
  exact raises_throwIf ⟨nofun, nofun⟩

theorem raises_atomicWrite (config : RunStoreConfig) (finalPath : Path) (bytes : Bytes)
    (usage : StorageUsage) (context : WriteContext) :
    Raises Foreign (atomicWrite config finalPath bytes usage context) := by
  refine raises_bind (raises_callOr fun e => ⟨nofun, nofun⟩) fun present => ?_
  split
  · refine raises_bind (raises_readFile _ _ _) fun existing => ?_
    split
    · exact raises_pure _
    · exact raises_throw ⟨nofun, nofun⟩
  · refine raises_bind (raises_preflightWrite _ _ _) fun _ => ?_
    refine raises_bind (raises_callOr fun e => ⟨nofun, nofun⟩) fun pid => ?_
    refine raises_bind (raises_callOr fun e => ⟨nofun, nofun⟩) fun nonce => ?_
    refine raises_bind (raises_callOr fun e => ⟨nofun, nofun⟩) fun _ => ?_
    refine raises_bind (raises_tryCatch (raises_writeTemporary _ _ _ _) fun e he => ?_) fun _ => ?_
    · refine raises_bind (raises_callIgnored _) fun _ => ?_
      exact raises_bind (raises_callIgnored _) fun _ => raises_throw he
    · refine raises_bind (raises_tryCatch (raises_installTemporary _ _ _ _) fun e he => ?_)
        fun _ => raises_pure _
      exact raises_bind (raises_callIgnored _) fun _ => raises_throw he

theorem foreign_of_thrower {e : Exception} (thrower : Thrower) (he : e.thrower = thrower)
    (h : thrower ≠ .recordResult) (hrun : thrower ≠ .runParallelDurable) : Foreign e :=
  ⟨he ▸ h, fun hother => absurd (he.symm.trans hother) hrun⟩

theorem foreign_encodeManifestError (what : String) : Foreign (encodeManifestError what) :=
  foreign_of_thrower .encodeManifest rfl (by decide) (by decide)

theorem foreign_encodeAggregatePayload (what : String) :
    Foreign ⟨.invalidArgument, .encodeAggregatePayload, what⟩ :=
  foreign_of_thrower .encodeAggregatePayload rfl (by decide) (by decide)

theorem checkEntries_error {blockCount incarnation : UInt64} {leases : List UInt64}
    {entries : List ManifestEntry} {e : Exception} : ∀ {previous : Option UInt64},
    checkEntries blockCount incarnation leases previous entries = .error e → Foreign e := by
  induction entries with
  | nil => intro previous h; cases h
  | cons entry rest ih =>
    intro previous h
    rcases Result.bind_eq_error.mp h with h | ⟨_, -, h⟩
    · exact (throwIf_eq_error.mp h).2 ▸ foreign_encodeManifestError _
    · exact ih h

theorem encodeManifest_error {manifest : RunManifest} {e : Exception}
    (h : encodeManifest manifest = .error e) : Foreign e := by
  rcases Result.bind_eq_error.mp h with h | ⟨_, -, h⟩
  · exact (throwIf_eq_error.mp h).2 ▸ foreign_encodeManifestError _
  rcases Result.bind_eq_error.mp h with h | ⟨_, -, h⟩
  · exact (throwIf_eq_error.mp h).2 ▸ foreign_encodeManifestError _
  rcases Result.bind_eq_error.mp h with h | ⟨_, -, h⟩
  · exact (throwIf_eq_error.mp h).2 ▸ foreign_encodeManifestError _
  rcases Result.bind_eq_error.mp h with h | ⟨_, -, h⟩
  · exact (throwIf_eq_error.mp h).2 ▸ foreign_encodeManifestError _
  rcases Result.bind_eq_error.mp h with h | ⟨_, -, h⟩
  · exact (throwIf_eq_error.mp h).2 ▸ foreign_encodeManifestError _
  rcases Result.bind_eq_error.mp h with h | ⟨_, -, h⟩
  · exact checkEntries_error h
  split at h
  · cases h
    exact foreign_encodeManifestError _
  rcases Result.bind_eq_error.mp h with h | ⟨_, -, h⟩
  · rcases Result.bind_eq_error.mp h with h | ⟨_, -, h⟩
    · exact (throwIf_eq_error.mp h).2 ▸ foreign_encodeAggregatePayload _
    · split at h
      · cases h
        exact foreign_encodeAggregatePayload _
      · cases h
  rcases Result.bind_eq_error.mp h with h | ⟨_, -, h⟩
  · unfold failureBytes at h
    split at h
    · cases h
    · rcases Result.bind_eq_error.mp h with h | ⟨_, -, h⟩
      · unfold appendString at h
        split at h
        · cases h
          exact foreign_of_thrower .appendString rfl (by decide) (by decide)
        · cases h
      · cases h
  · cases h

theorem checkpointEntries_error {leaves : List (AggregateStats Binary64)} {e : Exception} :
    ∀ {received : List Bool} {index : ℕ},
      checkpointEntries store coordinator leaves index received = .error e → Foreign e := by
  intro received
  induction received with
  | nil => intro index h; cases h
  | cons flag rest ih =>
    intro index h
    cases flag with
    | false => exact ih h
    | true =>
      unfold checkpointEntries at h
      simp only at h
      split at h
      · cases h
        exact ⟨nofun, nofun⟩
      · rcases Result.bind_eq_error.mp h with h | ⟨_, -, h⟩
        · exact (throwIf_eq_error.mp h).2 ▸ ⟨nofun, nofun⟩
        rcases Result.bind_eq_error.mp h with h | ⟨_, -, h⟩
        · exact ih h
        · cases h

theorem checkpointManifest_error {leaves : List (AggregateStats Binary64)} {received : List Bool}
    {status : DurableRunStatus} {failure : Option FailureRecord} {e : Exception}
    (h : checkpointManifest store coordinator leaves received status failure = .error e) :
    Foreign e := by
  rcases Result.bind_eq_error.mp h with h | ⟨_, -, h⟩
  · exact (throwIf_eq_error.mp h).2 ▸ ⟨nofun, nofun⟩
  rcases Result.bind_eq_error.mp h with h | ⟨_, -, h⟩
  · exact (throwIf_eq_error.mp h).2 ▸ ⟨nofun, nofun⟩
  rcases Result.bind_eq_error.mp h with h | ⟨_, -, h⟩
  · exact (throwIf_eq_error.mp h).2 ▸ ⟨nofun, nofun⟩
  rcases Result.bind_eq_error.mp h with h | ⟨_, -, h⟩
  · exact (throwIf_eq_error.mp h).2 ▸ ⟨nofun, nofun⟩
  rcases Result.bind_eq_error.mp h with h | ⟨_, -, h⟩
  · exact checkpointEntries_error h
  rcases Result.bind_eq_error.mp h with h | ⟨_, -, h⟩
  · exact (throwIf_eq_error.mp h).2 ▸ ⟨nofun, nofun⟩
  rcases Result.bind_eq_error.mp h with h | ⟨_, -, h⟩
  · obtain ⟨hthrower, -⟩ := reduceBlockResults_error h
    refine ⟨?_, ?_⟩ <;> rw [hthrower] <;> nofun
  · cases h

theorem raises_checkpoint (leaves : List (AggregateStats Binary64)) (received : List Bool)
    (status : DurableRunStatus) (failure : Option FailureRecord) :
    Raises Foreign (checkpoint store coordinator leaves received status failure) := by
  refine raises_bind (raises_ofExcept fun e h => checkpointManifest_error h) fun manifest => ?_
  refine raises_bind (raises_ofExcept fun e h => encodeManifest_error h) fun bytes => ?_
  refine raises_bind (raises_throwIf ⟨nofun, nofun⟩) fun _ => ?_
  refine raises_bind (raises_atomicWrite _ _ _ _ _) fun usage => ?_
  exact raises_bind (raises_callIgnored _) fun _ => raises_pure _

end Mutators

/-! ## One result of a durable run -/

section Consuming

variable {spec : RunSpec} {memory : DurableMemory}

/-- The verdicts on a result that the coordinator accepts. -/
theorem commitResult_of_validateResult {coordinator : CoordinatorState} {result : BlockResult}
    {validation : Validation}
    (hvalidate : validateResult result coordinator = .ok validation)
    (haccepted : validation.status = .accepted) :
    AcceptedBy coordinator result ∧
      commitResult result coordinator = .ok (validation, coordinator.commit result) := by
  have hby := validateResult_accepted hvalidate haccepted
  rw [validateResult_of_valid hby] at hvalidate
  cases hvalidate
  exact ⟨hby, commitResult_of_valid hby⟩

/-- One call of `consume_result` keeps coordinator and store in step. -/
theorem returns_consumeDurable (h : Corresponds spec memory.store memory.coordinator)
    (completed : BlockResult) :
    Returns (fun next : DurableMemory => Corresponds spec next.store next.coordinator)
      (consumeDurable completed memory) := by
  refine returns_bind (P := fun validation =>
      validateResult completed memory.coordinator = .ok validation)
    (returns_ofExcept fun _ h => h) fun validation hvalidate => ?_
  split
  · exact returns_pure h
  split
  · exact returns_skip _ fun _ => returns_throw _
  rename_i hstatus
  obtain ⟨hby, hcommit⟩ := commitResult_of_validateResult hvalidate (not_not.mp hstatus)
  refine returns_bind (returns_recordResult (h.fresh hby)) ?_
  rintro store ⟨usage, rfl⟩
  refine returns_bind (P := fun pair => commitResult completed memory.coordinator = .ok pair)
    (returns_ofExcept fun _ h => h) ?_
  rintro ⟨committed, coordinator⟩ hcommitted
  rw [hcommit] at hcommitted
  cases hcommitted
  refine returns_skip _ fun _ => ?_
  have hnext := h.commit hby usage
  dsimp only
  split
  · refine returns_bind (returns_checkpoint _ _ _ _) ?_
    rintro store ⟨sequence, results, usage', rfl⟩
    exact returns_pure (hnext.checkpoint sequence results usage')
  · exact returns_pure hnext

/-- What it throws is neither an error of `record_result` nor a changed classification. -/
theorem raises_consumeDurable (h : Corresponds spec memory.store memory.coordinator)
    (completed : BlockResult) : Raises Foreign (consumeDurable completed memory) := by
  obtain ⟨validation, hvalidate⟩ := validateResult_total completed
    (h.serves.statsSchemaVersion.trans h.stats)
  rw [consumeDurable, hvalidate]
  change Raises Foreign (if isBenignRejection validation.status then pure memory else _)
  split
  · exact raises_pure _
  split
  · refine raises_bind (raises_checkpoint _ _ _ _) fun _ => raises_throw ⟨nofun, ?_⟩
    exact fun _ => nofun
  rename_i hstatus
  obtain ⟨hby, hcommit⟩ := commitResult_of_validateResult hvalidate (not_not.mp hstatus)
  obtain ⟨bytes, hbytes⟩ := h.encodeBlockRecord hby
  refine raises_bind ?_ fun store => ?_
  · rw [recordResult, h.checkRecord hby, hbytes]
    refine raises_bind (raises_pure _) fun _ => ?_
    simp only [h.fresh hby]
    refine raises_bind (raises_pure _) fun _ => ?_
    exact raises_bind (raises_atomicWrite _ _ _ _ _) fun _ => raises_pure _
  · rw [hcommit]
    refine raises_bind_returns
      (P := fun pair => pair = (validation, memory.coordinator.commit completed))
      (raises_pure _) (returns_pure rfl) ?_
    rintro _ rfl
    refine raises_bind (raises_ofExcept fun e he => ?_) fun _ => ?_
    · obtain ⟨hchanged, -⟩ := throwIf_eq_error.mp he
      exact absurd (of_decide_eq_true hchanged) hstatus
    · dsimp only
      split
      · exact raises_bind (raises_checkpoint _ _ _ _) fun _ => raises_pure _
      · exact raises_pure _

end Consuming

/-! ## Any durable run -/

namespace Invocation

/-- The variables of `run_parallel_durable` in some run: an opened store that is running, then
results of any origin, one after the other.  Every call may be answered in any way. -/
inductive Memory (inv : Invocation) : DurableMemory → Prop where
  | begins {σ : Type} {h : Handler Op Reply σ} {s s' : σ} {store : DurableRunStore}
      {memory : DurableMemory} (hopen : run h inv.openStore s = (.ok store, s'))
      (hrunning : store.recovery.status = .running)
      (hbegin : beginRun inv.build inv.spec inv.engineConfig store = .ok memory) :
      Memory inv memory
  | consumes {σ : Type} {h : Handler Op Reply σ} {s s' : σ} {memory next : DurableMemory}
      {completed : BlockResult} (hmemory : Memory inv memory)
      (hconsume : run h (consumeDurable completed memory) s = (.ok next, s')) :
      Memory inv next

variable {inv : Invocation} {store : DurableRunStore} {memory : DurableMemory}

/-- Coordinator and store are in step when the execution begins. -/
theorem corresponds_of_beginRun
    (hopened : Opened inv.build inv.spec inv.engineConfig inv.storeConfig store)
    (hrunning : store.recovery.status = .running)
    (hbegin : beginRun inv.build inv.spec inv.engineConfig store = .ok memory) :
    Corresponds inv.spec memory.store memory.coordinator := by
  obtain ⟨canonical, blocks, -, -, hlength, hrecovered⟩ := hopened.recovered
  obtain ⟨leases, hleases, hblocks, hsound⟩ := hrecovered.leased
  have hresults : store.recovery.committedResults.length = store.recovery.blocks.length := by
    rw [hblocks, length_leaseAll hleases, hsound.length_eq, hlength]
  obtain ⟨-, coordinator, hcoordinator, rfl⟩ := beginRun_eq_ok hbegin hresults
  obtain ⟨hspec, -, hserves, hcblocks, -, hspecHash, hlayoutHash, hbuild⟩ :=
    makeCoordinatorState_eq_ok hcoordinator
  obtain ⟨hspecHash', hlayoutHash', hbuild', -⟩ := hopened.metadata.identity
  refine
    { running := hrunning
      spec_eq := hopened.spec_eq
      stats := (RunSpec.accepted_of_validate hspec).stats
      serves := ⟨hserves.rngVersion, hserves.statsSchemaVersion, hserves.antithetic,
        hserves.positioned, hserves.incarnation⟩
      runSpecHash := Except.ok.inj (hspecHash.symm.trans hspecHash')
      executionLayoutHash := Except.ok.inj (hlayoutHash.symm.trans hlayoutHash')
      buildFingerprint := hbuild.trans hbuild'.symm
      blocks := hcblocks
      leases := ?_
      length := by rw [List.length_map, hresults]; exact congrArg List.length hcblocks.symm
      evidence := ?_ }
  · intro block hblock
    have hepoch : block.leaseEpoch ∈ leases := by
      rw [← map_leaseEpoch_leaseAll store.recovery.runIncarnation hleases,
        ← hblocks]
      exact List.mem_map_of_mem hblock
    exact hsound.leases_ne _ hepoch
  · intro i hi
    rw [List.getElem?_map] at hi
    rw [hopened.durable]
    cases hget : store.recovery.committedResults[i]? with
    | none => rfl
    | some result =>
      cases result with
      | none => rfl
      | some result => rw [hget] at hi; cases hi

/-- The execution of an opened store that has not failed begins. -/
theorem beginRun_of_opened
    (hopened : Opened inv.build inv.spec inv.engineConfig inv.storeConfig store)
    (hstatus : store.recovery.status ≠ .failed) :
    ∃ memory, beginRun inv.build inv.spec inv.engineConfig store = .ok memory := by
  obtain ⟨canonical, blocks, -, hblocks, hlength, hrecovered⟩ := hopened.recovered
  obtain ⟨leases, hleases, heq, hsound⟩ := hrecovered.leased
  obtain ⟨hspec, hconfig, -⟩ := makeBlocks_eq_ok hblocks
  obtain ⟨hspecHash, hlayoutHash, -⟩ := hopened.metadata.identity
  have hcanonical := (canonicalBlocks_of_makeBlocks hblocks).leaseAll
    store.recovery.runIncarnation hleases hsound.leases_ne
  rw [← heq] at hcanonical
  obtain ⟨coordinator, hcoordinator⟩ : ∃ coordinator, makeCoordinatorState inv.build inv.spec
      inv.engineConfig store.recovery.blocks = .ok coordinator :=
    ⟨_, makeCoordinatorState_of_canonical hspec hconfig hcanonical hspecHash hlayoutHash⟩
  simp only [beginRun, hstatus, decide_false, throwIf_false, Result.ok_bind, hcoordinator]
  exact ⟨_, rfl⟩

/-- And at every later time. -/
theorem Memory.corresponds (hmemory : inv.Memory memory) :
    Corresponds inv.spec memory.store memory.coordinator := by
  induction hmemory with
  | begins hopen hrunning hbegin =>
    exact corresponds_of_beginRun ((returns_openStore _ _ _ _).run hopen) hrunning hbegin
  | consumes hmemory hconsume ih => exact (returns_consumeDurable ih _).run hconsume

end Invocation

/-- **The validators of the durable path agree.**  Against the variables of any durable run,
`validate_result` returns a verdict on every result.  If it is `Accepted`, the result passes every
check of `record_result` and `commit_result` accepts it, and whatever `consume_result` throws, it
is neither an error of `record_result` nor a changed classification. -/
theorem validators_agree (inv : Invocation) {memory : DurableMemory} (hmemory : inv.Memory memory)
    (result : BlockResult) :
    (∃ validation, validateResult result memory.coordinator = .ok validation ∧
      (validation.status = .accepted →
        checkRecord memory.store result = .ok () ∧
        (memory.store.durableResults[result.block.blockId.toNat]?).join = none ∧
        (∃ bytes, encodeBlockRecord ⟨memory.store.metadata.runId, result⟩ = .ok bytes) ∧
        ∃ verdict next, commitResult result memory.coordinator = .ok (verdict, next) ∧
          verdict.status = .accepted)) ∧
    ∀ (σ : Type) (h : Handler Op Reply σ) (s s' : σ) (e : Exception),
      run h (consumeDurable result memory) s = (.error e, s') →
        e.thrower ≠ .recordResult ∧ (e.thrower = .runParallelDurable → e.type ≠ .logicError) := by
  have hcorresponds := hmemory.corresponds
  obtain ⟨validation, hvalidate⟩ := validateResult_total result
    (hcorresponds.serves.statsSchemaVersion.trans hcorresponds.stats)
  refine ⟨⟨validation, hvalidate, fun haccepted => ?_⟩, fun σ h s s' e hrun => ?_⟩
  · obtain ⟨hby, hcommit⟩ := commitResult_of_validateResult hvalidate haccepted
    exact ⟨hcorresponds.checkRecord hby, hcorresponds.fresh hby,
      hcorresponds.encodeBlockRecord hby, validation, _, hcommit, haccepted⟩
  · exact (raises_consumeDurable hcorresponds result).run hrun

/-- The run of two scenarios, one in each block, in a directory of its own. -/
def twoScenariosRun : Invocation :=
  ⟨fun _ => .ok unitKernel, ⟨[66]⟩, twoScenarios, singleBlocks, .defaults "run"⟩

/-- The result of a block of `twoScenariosRun` that pays one. -/
def unitResult (store : DurableRunStore) (block : ScenarioBlock) : BlockResult :=
  singleResult store.metadata block ⟨0x3FF0000000000000⟩

/-- The first block has been consumed, and the result of the second one is accepted. -/
theorem validators_agree_second_block :
    ∃ memory completed result validation verdict next, twoScenariosRun.Memory memory ∧
      memory.store.durableResults = [some completed, none] ∧
      validateResult result memory.coordinator = .ok validation ∧ validation.status = .accepted ∧
      checkRecord memory.store result = .ok () ∧
      commitResult result memory.coordinator = .ok (verdict, next) ∧ verdict.status = .accepted := by
  let first (store : DurableRunStore) := unitResult store ⟨0, 0, 1, 1, 1⟩
  let second (store : DurableRunStore) := unitResult store ⟨1, 1, 2, 1, 1⟩
  have htest : returnedPassing (fun store world => decide (store.recovery.status = .running) &&
      (beginRun ⟨[66]⟩ twoScenarios singleBlocks store).toOption.any fun memory =>
        returnedPassing (fun memory _ =>
            decide (memory.store.durableResults = [some (first store), none]) &&
              (validateResult (second store) memory.coordinator).toOption.any fun validation =>
                decide (validation.status = .accepted))
          (run Environment.idle.handle (consumeDurable (first store) memory) world))
      (run Environment.idle.handle twoScenariosRun.openStore ⟨∅, 0, 0⟩) = true := by decide +kernel
  obtain ⟨store, world, hopen, hthen⟩ := exists_of_returnedPassing htest
  obtain ⟨hrunning, hbegins⟩ := Bool.and_eq_true_iff.mp hthen
  obtain ⟨begun, hbegin, hconsumes⟩ := exists_of_toOption_any hbegins
  obtain ⟨memory, after, hconsume, hchecks⟩ := exists_of_returnedPassing hconsumes
  obtain ⟨hdurable, hverdict⟩ := Bool.and_eq_true_iff.mp hchecks
  obtain ⟨validation, hvalidate, haccepted⟩ := exists_of_toOption_any hverdict
  have hmemory : twoScenariosRun.Memory memory :=
    .consumes (.begins hopen (of_decide_eq_true hrunning) hbegin) hconsume
  obtain ⟨⟨found, hfound, haccepts⟩, -⟩ := validators_agree twoScenariosRun hmemory (second store)
  obtain rfl := Except.ok.inj (hvalidate.symm.trans hfound)
  obtain ⟨hrecord, -, -, verdict, next, hcommit, hstatus⟩ :=
    haccepts (of_decide_eq_true haccepted)
  exact ⟨memory, first store, second store, validation, verdict, next, hmemory,
    of_decide_eq_true hdurable, hvalidate, of_decide_eq_true haccepted, hrecord, hcommit, hstatus⟩

end MonteCarlo
