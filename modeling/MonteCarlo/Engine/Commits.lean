import MonteCarlo.Engine.Run

/-!
# Committing block results

The coordinator as a state machine: `commit_result` for one result after the other, of any origin.
Only a verdict `Accepted` changes the state, and it does so at most once for a block, so deliveries
may be repeated, late, corrupt or conflicting.

* `commitResult_cases` — the two things that one call can do.
* `Derived` — what every state keeps of the initial one.
* `commits_exactly_once` — the whole run: verdicts, payloads, and independence of the order.
-/

namespace MonteCarlo

section Universe

variable {build : BuildIdentity} {spec : RunSpec} {config : EngineConfig}
  {blocks : List ScenarioBlock} {coordinator : CoordinatorState}

/-- A universe that passes the check is numbered and carries one incarnation. -/
theorem checkUniverse_spec {blockSize incarnation : UInt64} :
    ∀ {blocks : List ScenarioBlock} {index : ℕ} {start covered : UInt64},
      checkUniverse spec blockSize incarnation index start blocks = .ok covered →
      ∀ i (hi : i < blocks.length), blocks[i].blockId.toNat = index + i ∧
        blocks[i].runIncarnation = incarnation := by
  intro blocks
  induction blocks with
  | nil => intro index start covered _ i hi; cases hi
  | cons block rest ih =>
    intro index start covered h i hi
    obtain ⟨⟨⟩, hrange, h⟩ := Result.bind_eq_ok.mp h
    obtain ⟨⟨⟩, hlease, h⟩ := Result.bind_eq_ok.mp h
    obtain ⟨⟨⟩, -, h⟩ := Result.bind_eq_ok.mp h
    simp only [throwIf_eq_ok, Bool.or_eq_false_iff, decide_eq_false_iff_not, ne_eq, not_not]
      at hrange hlease
    cases i with
    | zero => exact ⟨hrange.1.1.1, hlease.1⟩
    | succ i =>
      obtain ⟨hid, hinc⟩ := ih h i (Nat.lt_of_succ_lt_succ hi)
      exact ⟨by rw [List.getElem_cons_succ, hid]; omega, hinc⟩

/-- What `make_coordinator_state` has checked, and what it returns. -/
theorem makeCoordinatorState_eq_ok
    (h : makeCoordinatorState build spec config blocks = .ok coordinator) :
    spec.validate = .ok () ∧ config.validate spec = .ok () ∧ coordinator.Serves spec ∧
      coordinator.blocks = blocks ∧
      coordinator.committedPayloads = List.replicate blocks.length none ∧
      runSpecHash spec = .ok coordinator.runSpecHash ∧
      executionLayoutHash spec config = .ok coordinator.executionLayoutHash ∧
      coordinator.buildFingerprint = build.hash := by
  obtain ⟨⟨⟩, hspec, h⟩ := Result.bind_eq_ok.mp h
  obtain ⟨⟨⟩, hconfig, h⟩ := Result.bind_eq_ok.mp h
  obtain ⟨⟨⟩, -, h⟩ := Result.bind_eq_ok.mp h
  cases blocks with
  | nil => cases h
  | cons first rest =>
    obtain ⟨covered, huniverse, h⟩ := Result.bind_eq_ok.mp h
    obtain ⟨⟨⟩, -, h⟩ := Result.bind_eq_ok.mp h
    obtain ⟨specHash, hspecHash, h⟩ := Result.bind_eq_ok.mp h
    obtain ⟨layoutHash, hlayoutHash, h⟩ := Result.bind_eq_ok.mp h
    cases h
    have hblocks := checkUniverse_spec huniverse
    refine ⟨hspec, hconfig, ⟨rfl, rfl, rfl, ?_, ?_⟩, rfl, rfl, hspecHash, hlayoutHash, rfl⟩
    · intro i hi
      rw [(hblocks i hi).1, Nat.zero_add]
    · intro block hblock
      obtain ⟨i, hi, rfl⟩ := List.mem_iff_getElem.mp hblock
      exact (hblocks i hi).2

end Universe

/-! ## One result -/

section Step

variable {initial state : CoordinatorState} {result : BlockResult}

/-- The state with nothing committed. -/
def CoordinatorState.blank (state : CoordinatorState) : CoordinatorState :=
  { state with committedPayloads := [] }

/-- The checks of `validate_result` that do not look at what has been committed. -/
def Admissible (initial : CoordinatorState) (result : BlockResult) : Prop :=
  AcceptedBy initial.blank result

theorem acceptedBy_iff :
    AcceptedBy state result ↔
      Admissible state result ∧ (state.committedPayloads[result.block.blockId.toNat]?).join = none := by
  constructor
  · intro h
    exact ⟨{ h with fresh := rfl }, h.fresh⟩
  · rintro ⟨h, hfresh⟩
    exact { h with fresh := hfresh }

/-- The state after `result` has been committed. -/
def CoordinatorState.commit (state : CoordinatorState) (result : BlockResult) : CoordinatorState :=
  { state with committedPayloads :=
      state.committedPayloads.set result.block.blockId.toNat (some result.payloadChecksum) }

/-- `validate_result` never throws against the statistics schema of this build. -/
theorem validateResult_total (result : BlockResult)
    (hstats : state.statsSchemaVersion = kStatsSchemaVersion) :
    ∃ validation, validateResult result state = .ok validation := by
  unfold validateResult
  by_cases h1 : result.runSpecHash ≠ state.runSpecHash
  · exact ⟨_, if_pos h1⟩
  by_cases h2 : result.executionLayoutHash ≠ state.executionLayoutHash
  · exact ⟨_, by rw [if_neg h1, if_pos h2]⟩
  by_cases h3 : result.buildFingerprint ≠ state.buildFingerprint
  · exact ⟨_, by rw [if_neg h1, if_neg h2, if_pos h3]⟩
  by_cases h4 : result.block.runIncarnation ≠ state.runIncarnation
  · exact ⟨_, by rw [if_neg h1, if_neg h2, if_neg h3, if_pos h4]⟩
  by_cases h5 : result.rngVersion ≠ state.rngVersion
  · exact ⟨_, by rw [if_neg h1, if_neg h2, if_neg h3, if_neg h4, if_pos h5]⟩
  by_cases h6 : result.statsSchemaVersion ≠ state.statsSchemaVersion
  · exact ⟨_, by rw [if_neg h1, if_neg h2, if_neg h3, if_neg h4, if_neg h5, if_pos h6]⟩
  rw [if_neg h1, if_neg h2, if_neg h3, if_neg h4, if_neg h5, if_neg h6]
  cases hblock : state.blocks[result.block.blockId.toNat]? with
  | none => exact ⟨_, rfl⟩
  | some expected =>
    simp only
    split
    · exact ⟨_, rfl⟩
    · split
      · exact ⟨_, rfl⟩
      · rename_i hvalid
        -- the aggregate has passed its check, so hashing it cannot fail
        have hhash := aggregatePayloadHash_eq_ok.mpr
          ⟨(not_not.mp h6).trans hstats, (AggregateStats.invariantError_none hvalid).1, rfl⟩
        rw [hhash, Result.ok_bind]
        split
        · exact ⟨_, rfl⟩
        · exact ⟨_, rfl⟩

/-- One call of `commit_result`: the verdict is `Accepted` and the checksum is written, or the
state stays as it is. -/
theorem commitResult_cases (hstats : state.statsSchemaVersion = kStatsSchemaVersion)
    (result : BlockResult) :
    ∃ verdict next, commitResult result state = .ok (verdict, next) ∧
      ((verdict.status = .accepted ∧ AcceptedBy state result ∧ next = state.commit result) ∨
        (verdict.status ≠ .accepted ∧ ¬ AcceptedBy state result ∧ next = state)) := by
  obtain ⟨verdict, hverdict⟩ := validateResult_total result hstats
  by_cases haccepted : verdict.status = .accepted
  · refine ⟨verdict, state.commit result, ?_,
      Or.inl ⟨haccepted, validateResult_accepted hverdict haccepted, rfl⟩⟩
    rw [commitResult, hverdict, Result.ok_bind, if_pos haccepted]
    rfl
  · refine ⟨verdict, state, ?_, Or.inr ⟨haccepted, fun h => ?_, rfl⟩⟩
    · rw [commitResult, hverdict, Result.ok_bind, if_neg haccepted]
      rfl
    · rw [validateResult_of_valid h] at hverdict
      cases hverdict
      exact haccepted rfl

/-- What every state of a run keeps of the initial one: all but the commits, which are of
admissible results. -/
structure Derived (initial state : CoordinatorState) : Prop where
  frame : state.blank = initial.blank
  length : state.committedPayloads.length = initial.blocks.length
  payload : ∀ b checksum, state.committedPayloads[b]? = some (some checksum) →
    initial.committedPayloads[b]? = some (some checksum) ∨
      ∃ result, Admissible initial result ∧ result.block.blockId.toNat = b ∧
        result.payloadChecksum = checksum

theorem Derived.admissible_iff (hd : Derived initial state) :
    Admissible state result ↔ Admissible initial result := by
  rw [Admissible, hd.frame, Admissible]

theorem Derived.stats (hd : Derived initial state) :
    state.statsSchemaVersion = initial.statsSchemaVersion := by
  have h := congrArg CoordinatorState.statsSchemaVersion hd.frame
  exact h

theorem Admissible.lt_length (h : Admissible initial result) :
    result.block.blockId.toNat < initial.blocks.length := by
  obtain ⟨block, hblock, -⟩ := h.expected
  exact (List.getElem?_eq_some_iff.mp hblock).1

theorem Derived.commit (hd : Derived initial state) (h : Admissible initial result) :
    Derived initial (state.commit result) := by
  refine ⟨hd.frame, by rw [CoordinatorState.commit, List.length_set]; exact hd.length, ?_⟩
  intro b checksum hb
  by_cases hself : result.block.blockId.toNat = b
  · have hlt : result.block.blockId.toNat < state.committedPayloads.length := by
      rw [hd.length]
      exact h.lt_length
    rw [CoordinatorState.commit, ← hself, List.getElem?_set_self hlt] at hb
    exact Or.inr ⟨result, h, hself, Option.some.inj (Option.some.inj hb)⟩
  · rw [CoordinatorState.commit, List.getElem?_set_ne hself] at hb
    exact hd.payload b checksum hb

end Step

/-! ## Sequences of results -/

/-- `commit_result` for one result after the other: the verdicts and the last state. -/
def commitAll : List BlockResult → CoordinatorState → Result (List Validation × CoordinatorState)
  | [], state => pure ([], state)
  | result :: rest, state => do
    let (verdict, next) ← commitResult result state
    let (verdicts, final) ← commitAll rest next
    pure (verdict :: verdicts, final)

section Run

variable {initial state final : CoordinatorState} {results : List BlockResult}
  {verdicts : List Validation}

/-- What a run of commits, from a state on, leaves behind. -/
structure CommitRun (initial state : CoordinatorState) (results : List BlockResult)
    (verdicts : List Validation) (final : CoordinatorState) : Prop where
  run : commitAll results state = .ok (verdicts, final)
  derived : Derived initial final
  stable : ∀ (b : ℕ) checksum, state.committedPayloads[b]? = some (some checksum) →
    final.committedPayloads[b]? = some (some checksum)
  origin : ∀ (b : ℕ) checksum, final.committedPayloads[b]? = some (some checksum) →
    state.committedPayloads[b]? = some (some checksum) ∨
      ∃ result ∈ results, Admissible initial result ∧ result.block.blockId.toNat = b ∧
        result.payloadChecksum = checksum
  committed : ∀ result ∈ results, Admissible initial result →
    ∃ checksum, final.committedPayloads[result.block.blockId.toNat]? = some (some checksum)
  once : ∀ block, ((results.zip verdicts).countP fun entry =>
    decide (entry.1.block.blockId = block ∧ entry.2.status = .accepted)) ≤
      if (state.committedPayloads[block.toNat]?).join.isSome then 0 else 1

/-- In a derived state an admissible result is committed already, or accepted now. -/
theorem Derived.committed_or_accepted {result : BlockResult} (hd : Derived initial state)
    (h : Admissible initial result) :
    (∃ checksum, state.committedPayloads[result.block.blockId.toNat]? = some (some checksum)) ∨
      AcceptedBy state result := by
  have hlt : result.block.blockId.toNat < state.committedPayloads.length := by
    rw [hd.length]
    exact h.lt_length
  rw [acceptedBy_iff, hd.admissible_iff, List.getElem?_eq_getElem hlt]
  cases hget : state.committedPayloads[result.block.blockId.toNat] with
  | none => exact Or.inr ⟨h, rfl⟩
  | some checksum => exact Or.inl ⟨checksum, rfl⟩

theorem commitAll_append {before after : List BlockResult} {middle : CoordinatorState}
    {earlier later : List Validation} (hbefore : commitAll before state = .ok (earlier, middle))
    (hafter : commitAll after middle = .ok (later, final)) :
    commitAll (before ++ after) state = .ok (earlier ++ later, final) := by
  induction before generalizing state earlier with
  | nil =>
    cases hbefore
    exact hafter
  | cons result rest ih =>
    obtain ⟨⟨verdict, next⟩, hcommit, h⟩ := Result.bind_eq_ok.mp hbefore
    obtain ⟨⟨verdicts, last⟩, hrest, h⟩ := Result.bind_eq_ok.mp h
    cases h
    simp only [List.cons_append, commitAll, hcommit, ih hrest, Result.ok_bind]
    rfl

/-- A run exists from every derived state. -/
theorem Derived.commitRun (hstats : initial.statsSchemaVersion = kStatsSchemaVersion)
    (results : List BlockResult) (hd : Derived initial state) :
    ∃ verdicts final, CommitRun initial state results verdicts final := by
  induction results generalizing state with
  | nil =>
    refine ⟨[], state, rfl, hd, fun _ _ h => h, fun _ _ h => Or.inl h, by simp, ?_⟩
    intro block
    simp
  | cons result rest ih =>
    obtain ⟨verdict, next, hcommit, hcases⟩ := commitResult_cases (hd.stats.trans hstats) result
    rcases hcases with ⟨haccepted, hby, rfl⟩ | ⟨hrejected, hnot, rfl⟩
    · obtain ⟨hadmissible, hfresh⟩ := acceptedBy_iff.mp hby
      rw [hd.admissible_iff] at hadmissible
      have hlt : result.block.blockId.toNat < state.committedPayloads.length := by
        rw [hd.length]
        exact hadmissible.lt_length
      have hself : (state.commit result).committedPayloads[result.block.blockId.toNat]? =
          some (some result.payloadChecksum) := List.getElem?_set_self hlt
      obtain ⟨verdicts, final, hrun⟩ := ih (hd.commit hadmissible)
      refine ⟨verdict :: verdicts, final, ?_, hrun.derived, ?_, ?_, ?_, ?_⟩
      · simp only [commitAll, hcommit, hrun.run, Result.ok_bind]
        rfl
      · intro b checksum hb
        refine hrun.stable b checksum ?_
        have hne : result.block.blockId.toNat ≠ b := by
          rintro rfl
          rw [hb] at hfresh
          cases hfresh
        rw [CoordinatorState.commit, List.getElem?_set_ne hne]
        exact hb
      · intro b checksum hb
        rcases hrun.origin b checksum hb with hnext | ⟨other, hother, h⟩
        · by_cases hb' : result.block.blockId.toNat = b
          · rw [← hb', hself] at hnext
            exact Or.inr ⟨result, List.mem_cons_self, hadmissible, hb',
              Option.some.inj (Option.some.inj hnext)⟩
          · rw [CoordinatorState.commit, List.getElem?_set_ne hb'] at hnext
            exact Or.inl hnext
        · exact Or.inr ⟨other, List.mem_cons_of_mem _ hother, h⟩
      · intro other hother hadm
        rcases List.mem_cons.mp hother with rfl | hother
        · exact ⟨_, hrun.stable _ _ hself⟩
        · exact hrun.committed other hother hadm
      · intro block
        have honce := hrun.once block
        by_cases hblock : result.block.blockId = block
        · subst hblock
          rw [hself] at honce
          rw [List.zip_cons_cons, List.countP_cons_of_pos (by simp [haccepted]), hfresh]
          simpa using honce
        · have hne : result.block.blockId.toNat ≠ block.toNat :=
            fun h => hblock (UInt64.toNat_inj.mp h)
          rw [CoordinatorState.commit, List.getElem?_set_ne hne] at honce
          rw [List.zip_cons_cons, List.countP_cons_of_neg (by simp [hblock])]
          exact honce
    · obtain ⟨verdicts, final, hrun⟩ := ih hd
      refine ⟨verdict :: verdicts, final, ?_, hrun.derived, hrun.stable, ?_, ?_, ?_⟩
      · simp only [commitAll, hcommit, hrun.run, Result.ok_bind]
        rfl
      · intro b checksum hb
        refine (hrun.origin b checksum hb).imp id ?_
        rintro ⟨other, hother, h⟩
        exact ⟨other, List.mem_cons_of_mem _ hother, h⟩
      · intro other hother hadm
        rcases List.mem_cons.mp hother with rfl | hother
        · obtain ⟨checksum, hchecksum⟩ := (hd.committed_or_accepted hadm).resolve_right hnot
          exact ⟨checksum, hrun.stable _ _ hchecksum⟩
        · exact hrun.committed other hother hadm
      · intro block
        rw [List.zip_cons_cons, List.countP_cons_of_neg (by simp [hrejected])]
        exact hrun.once block

end Run

/-! ## The state machine -/

/-- The state would accept the result. -/
def WouldAccept (state : CoordinatorState) (result : BlockResult) : Prop :=
  ∃ verdict, validateResult result state = .ok verdict ∧ verdict.status = .accepted

theorem wouldAccept_iff {state : CoordinatorState} {result : BlockResult} :
    WouldAccept state result ↔ AcceptedBy state result :=
  ⟨fun ⟨_, hverdict, haccepted⟩ => validateResult_accepted hverdict haccepted,
    fun h => ⟨_, validateResult_of_valid h, rfl⟩⟩

/-- What holds of the verdicts and the last state when `results` are committed one after the
other. -/
structure CommitsOnce (initial : CoordinatorState) (results : List BlockResult)
    (verdicts : List Validation) (final : CoordinatorState) : Prop where
  /-- Every result gets a verdict, and every block is accepted at most once. -/
  once : verdicts.length = results.length ∧ ∀ block, ((results.zip verdicts).countP fun entry =>
    decide (entry.1.block.blockId = block ∧ entry.2.status = .accepted)) ≤ 1
  /-- A payload that is set does not change any more. -/
  stable : ∀ before after, results = before ++ after → ∃ earlier middle,
    commitAll before initial = .ok (earlier, middle) ∧
    ∀ (b : ℕ) checksum, middle.committedPayloads[b]? = some (some checksum) →
      final.committedPayloads[b]? = some (some checksum)
  /-- It is the hash of an aggregate with as many observations as the block must have. -/
  payload : ∀ (b : ℕ) checksum, final.committedPayloads[b]? = some (some checksum) →
    ∃ block aggregate bytes, initial.blocks[b]? = some block ∧
      aggregate.n = expectedObservations initial.antithetic block ∧
      encodeAggregatePayload aggregate initial.statsSchemaVersion = .ok bytes ∧
      checksum = sha256 bytes
  /-- Every other verdict leaves the state as it is. -/
  unchanged : ∀ before result after, results = before ++ result :: after →
    ∃ earlier middle verdict next, commitAll before initial = .ok (earlier, middle) ∧
      commitResult result middle = .ok (verdict, next) ∧
      (verdict.status ≠ .accepted → next = middle)
  /-- Neither the order of the results matters nor how often each is delivered, when those that
  the initial state accepts agree. -/
  confluent : (∀ a ∈ results, ∀ b ∈ results, WouldAccept initial a → WouldAccept initial b →
      a.block.blockId = b.block.blockId → a.payloadChecksum = b.payloadChecksum) →
    ∀ other : List BlockResult, (∀ result, result ∈ other ↔ result ∈ results) →
      ∃ verdicts, commitAll other initial = .ok (verdicts, final)

section Machine

variable {initial final final' : CoordinatorState} {results other : List BlockResult}
  {verdicts verdicts' : List Validation}

theorem length_commitAll {state : CoordinatorState} (h : commitAll results state = .ok (verdicts, final)) :
    verdicts.length = results.length := by
  induction results generalizing state verdicts with
  | nil =>
    cases h
    rfl
  | cons result rest ih =>
    obtain ⟨⟨verdict, next⟩, -, h⟩ := Result.bind_eq_ok.mp h
    obtain ⟨⟨verdicts, last⟩, hrest, h⟩ := Result.bind_eq_ok.mp h
    cases h
    rw [List.length_cons, List.length_cons, ih hrest]

/-- The hash that an admissible result carries. -/
theorem Admissible.payload {result : BlockResult} (h : Admissible initial result) :
    ∃ block aggregate bytes, initial.blocks[result.block.blockId.toNat]? = some block ∧
      aggregate.n = expectedObservations initial.antithetic block ∧
      encodeAggregatePayload aggregate initial.statsSchemaVersion = .ok bytes ∧
      result.payloadChecksum = sha256 bytes := by
  obtain ⟨block, hblock, -, -, -, hvalid⟩ := h.expected
  obtain ⟨hstats, hinvariant, hchecksum⟩ := aggregatePayloadHash_eq_ok.mp h.checksum
  have hversion : result.statsSchemaVersion = initial.statsSchemaVersion := h.statsSchemaVersion
  refine ⟨block, result.aggregate, _, hblock, (AggregateStats.invariantError_none hvalid).2,
    encodeAggregatePayload_eq_ok.mpr ⟨hversion ▸ hstats, hinvariant, rfl⟩, ?_⟩
  rw [← hversion, hchecksum]

/-- Two runs over the same results, which agree where they are accepted, end in one state. -/
theorem CommitRun.unique (hnone : ∀ (b : ℕ) checksum,
      initial.committedPayloads[b]? ≠ some (some checksum))
    (hrun : CommitRun initial initial results verdicts final)
    (hother : CommitRun initial initial other verdicts' final')
    (hsame : ∀ result, result ∈ other ↔ result ∈ results)
    (hagree : ∀ a ∈ results, ∀ b ∈ results, Admissible initial a → Admissible initial b →
      a.block.blockId = b.block.blockId → a.payloadChecksum = b.payloadChecksum) :
    final' = final := by
  have hset : ∀ (b : ℕ) checksum, final'.committedPayloads[b]? = some (some checksum) →
      final.committedPayloads[b]? = some (some checksum) := by
    intro b checksum hb
    obtain ⟨a, ha, hadm, hid, hchecksum⟩ := (hother.origin b checksum hb).resolve_left
      (hnone b checksum)
    obtain ⟨found, hfound⟩ := hrun.committed a ((hsame a).mp ha) hadm
    rw [hid] at hfound
    obtain ⟨a', ha', hadm', hid', hchecksum'⟩ := (hrun.origin b found hfound).resolve_left
      (hnone b found)
    have hequal := hagree a' ha' a ((hsame a).mp ha) hadm' hadm
      (UInt64.toNat_inj.mp (hid'.trans hid.symm))
    rw [hfound, ← hchecksum', hequal, hchecksum]
  have hunset : ∀ (b : ℕ) checksum, final.committedPayloads[b]? = some (some checksum) →
      final'.committedPayloads[b]? = some (some checksum) := by
    intro b checksum hb
    obtain ⟨a, ha, hadm, hid, -⟩ := (hrun.origin b checksum hb).resolve_left (hnone b checksum)
    obtain ⟨found, hfound⟩ := hother.committed a ((hsame a).mpr ha) hadm
    rw [hid] at hfound
    rw [hfound, ← hset b found hfound, hb]
  have hpayloads : final'.committedPayloads = final.committedPayloads := by
    apply List.ext_getElem
    · rw [hother.derived.length, hrun.derived.length]
    · intro b hb hb'
      cases h : final.committedPayloads[b] with
      | some checksum =>
        have := hunset b checksum (by rw [List.getElem?_eq_getElem hb', h])
        rw [List.getElem?_eq_getElem hb] at this
        exact Option.some.inj this
      | none =>
        cases h' : final'.committedPayloads[b] with
        | none => rfl
        | some checksum =>
          have := hset b checksum (by rw [List.getElem?_eq_getElem hb, h'])
          rw [List.getElem?_eq_getElem hb', h] at this
          cases this
  have hframe := hother.derived.frame.trans hrun.derived.frame.symm
  simp only [CoordinatorState.blank, CoordinatorState.mk.injEq] at hframe
  obtain ⟨h1, h2, h3, h4, h5, h6, h7, h8, -⟩ := hframe
  cases final
  cases final'
  simp_all

/-- Every sequence of results, committed against a state of `make_coordinator_state`, gets its
verdicts, and they are those of a state machine that commits every block at most once. -/
theorem commits_exactly_once {build : BuildIdentity} {spec : RunSpec} {config : EngineConfig}
    {blocks : List ScenarioBlock}
    (h : makeCoordinatorState build spec config blocks = .ok initial)
    (results : List BlockResult) :
    ∃ verdicts final, commitAll results initial = .ok (verdicts, final) ∧
      CommitsOnce initial results verdicts final := by
  obtain ⟨hspec, -, hserves, hblocks, hpayloads, -⟩ := makeCoordinatorState_eq_ok h
  have hstats : initial.statsSchemaVersion = kStatsSchemaVersion :=
    hserves.statsSchemaVersion.trans (RunSpec.accepted_of_validate hspec).stats
  have hderived : Derived initial initial :=
    ⟨rfl, by rw [hpayloads, hblocks, List.length_replicate], fun _ _ hb => Or.inl hb⟩
  have hnone : ∀ (b : ℕ) checksum, initial.committedPayloads[b]? ≠ some (some checksum) := by
    intro b checksum hb
    rw [hpayloads, List.getElem?_replicate] at hb
    split at hb <;> cases hb
  have hinitial : ∀ result, Admissible initial result ↔ AcceptedBy initial result := by
    intro result
    rw [acceptedBy_iff, hpayloads]
    refine ⟨fun hadm => ⟨hadm, ?_⟩, fun hby => hby.1⟩
    rw [List.getElem?_replicate]
    split <;> rfl
  obtain ⟨verdicts, final, hrun⟩ := hderived.commitRun hstats results
  refine ⟨verdicts, final, hrun.run, ⟨length_commitAll hrun.run, ?_⟩, ?_, ?_, ?_, ?_⟩
  · intro block
    refine (hrun.once block).trans ?_
    split <;> omega
  · rintro before after rfl
    obtain ⟨earlier, middle, hbefore⟩ := hderived.commitRun hstats before
    obtain ⟨later, last, hafter⟩ := hbefore.derived.commitRun hstats after
    have happend : commitAll (before ++ after) initial = .ok (earlier ++ later, last) :=
      commitAll_append hbefore.run hafter.run
    have hlast : last = final := by
      rw [hrun.run] at happend
      exact (congrArg Prod.snd (Except.ok.inj happend)).symm
    exact ⟨earlier, middle, hbefore.run, hlast ▸ hafter.stable⟩
  · intro b checksum hb
    obtain ⟨result, -, hadm, hid, hchecksum⟩ := (hrun.origin b checksum hb).resolve_left
      (hnone b checksum)
    obtain ⟨block, aggregate, bytes, hblock, hcount, hbytes, hhash⟩ := hadm.payload
    exact ⟨block, aggregate, bytes, hid ▸ hblock, hcount, hbytes, hchecksum ▸ hhash⟩
  · intro before result after _
    obtain ⟨earlier, middle, hbefore⟩ := hderived.commitRun hstats before
    obtain ⟨verdict, next, hcommit, hcases⟩ :=
      commitResult_cases (hbefore.derived.stats.trans hstats) result
    refine ⟨earlier, middle, verdict, next, hbefore.run, hcommit, fun hrejected => ?_⟩
    rcases hcases with ⟨haccepted, -⟩ | ⟨-, -, hnext⟩
    · exact absurd haccepted hrejected
    · exact hnext
  · intro hagree other hsame
    obtain ⟨verdicts', final', hother⟩ := hderived.commitRun hstats other
    refine ⟨verdicts', ?_⟩
    rw [hother.run, hrun.unique hnone hother hsame]
    intro a ha b hb hadmA hadmB
    exact hagree a ha b hb (wouldAccept_iff.mpr ((hinitial a).mp hadmA))
      (wouldAccept_iff.mpr ((hinitial b).mp hadmB))

end Machine

/-- The result of the last block of three scenarios that all pay one. -/
def lastResult (coordinator : CoordinatorState) : BlockResult where
  block := ⟨1, 2, 3, coordinator.runIncarnation, 1⟩
  aggregate := ⟨1, 1, 0, 1, 1⟩
  runSpecHash := coordinator.runSpecHash
  executionLayoutHash := coordinator.executionLayoutHash
  buildFingerprint := coordinator.buildFingerprint
  payloadChecksum := sha256 (aggregateBytes ⟨1, 1, 0, 1, 1⟩ kStatsSchemaVersion)
  rngVersion := coordinator.rngVersion
  statsSchemaVersion := kStatsSchemaVersion
  workerId := 0

/-- That result, delivered twice. -/
theorem commits_exactly_once_three_scenarios :
    ∃ initial verdicts final,
      makeCoordinatorState ⟨[]⟩ threeScenarios twoWorkers [⟨0, 0, 2, 0, 1⟩, ⟨1, 2, 3, 0, 1⟩]
        = .ok initial ∧
      WouldAccept initial (lastResult initial) ∧
      commitAll [lastResult initial, lastResult initial] initial = .ok (verdicts, final) ∧
      CommitsOnce initial [lastResult initial, lastResult initial] verdicts final := by
  obtain ⟨initial, hinitial, hserves, hblocks, hpayloads⟩ :=
    makeCoordinatorState_of_makeBlocks ⟨[]⟩ makeBlocks_threeScenarios
  have hvalid : (⟨1, 1, 0, 1, 1⟩ : AggregateStats Binary64).invariantError = none := by
    decide +kernel
  have hexpected : (⟨1, 1, 0, 1, 1⟩ : AggregateStats Binary64).invariantError
      (some (expectedObservations initial.antithetic ⟨1, 2, 3, 0, 1⟩)) = none := by
    rw [hserves.antithetic]
    decide +kernel
  have haccepted : AcceptedBy initial (lastResult initial) :=
    { runSpecHash := rfl
      executionLayoutHash := rfl
      buildFingerprint := rfl
      runIncarnation := rfl
      rngVersion := rfl
      statsSchemaVersion := hserves.statsSchemaVersion.symm
      expected := ⟨⟨1, 2, 3, 0, 1⟩, by rw [hblocks]; rfl, rfl, rfl, rfl, hexpected⟩
      checksum := aggregatePayloadHash_eq_ok.mpr ⟨rfl, hvalid, rfl⟩
      fresh := by rw [hpayloads]; rfl }
  obtain ⟨verdicts, final, hrun, honce⟩ := commits_exactly_once hinitial
    [lastResult initial, lastResult initial]
  exact ⟨initial, verdicts, final, hinitial, wouldAccept_iff.mpr haccepted, hrun, honce⟩

end MonteCarlo
