import MonteCarlo.Store.Tracing

/-!
# Writing under errors

`atomic_write` in an arbitrary environment: any call may fail, at any time.

The handler `Environment.tracked` also records what has been synchronised: the contents of a
file by `fsync` on it, the entry of a file by `fsync` on its directory.

* `WriteStage` — the files at any moment of a write.
* `WriteOutcome` — how a write ends.
* `wp_atomicWrite`, `atomicWrite_outcome` — every execution of `atomic_write`.
-/

namespace MonteCarlo

open Effects Effects.Program

/-! ## What has been synchronised -/

/-- The files whose contents, and those whose directory entries, have been synchronised since
they last changed. -/
structure Flushed where
  contents : Path → Bool
  entries : Path → Bool

/-- The same after an operation that succeeds. -/
def Op.flush (flushed : Flushed) : Op → Flushed
  | .openLock => ⟨Function.update flushed.contents lockPath false,
      Function.update flushed.entries lockPath false⟩
  | .create path => ⟨Function.update flushed.contents path false,
      Function.update flushed.entries path false⟩
  | .write path _ => { flushed with contents := Function.update flushed.contents path false }
  | .fsync path => { flushed with contents := Function.update flushed.contents path true }
  | .remove path => { flushed with entries := Function.update flushed.entries path false }
  | .rename source destination =>
    -- the file keeps its contents under the new name; neither entry is synchronised
    ⟨Function.update flushed.contents destination (flushed.contents source),
      Function.update (Function.update flushed.entries source false) destination false⟩
  | .fsyncDirectory dir =>
    { flushed with entries := fun path => if path.dir = dir then true else flushed.entries path }
  | _ => flushed

/-- The calls of `sync_directory`. -/
def Op.syncsDirectory : Op → Bool
  | .openDirectory _ | .fsyncDirectory _ | .closeDirectory _ => true
  | _ => false

/-- The state of the machine with a record of what has been synchronised, and of how many calls
of `sync_directory` have reported an error. -/
structure Tracked where
  world : World
  flushed : Flushed
  failures : ℕ

/-- The handler that keeps this record. -/
def Environment.tracked (env : Environment) : Handler Op Reply Tracked := fun op state =>
  ((env.handle op state.world).1,
    match (env.handle op state.world).1 with
    | .ok _ => ⟨(env.handle op state.world).2, op.flush state.flushed, state.failures⟩
    | .error _ => ⟨(env.handle op state.world).2, state.flushed,
        state.failures + if op.syncsDirectory then 1 else 0⟩)

theorem Environment.tracked_instruments (env : Environment) :
    Instruments Tracked.world env.tracked env.handle := by
  intro op state
  refine ⟨rfl, ?_⟩
  unfold tracked
  split <;> rfl

/-- Two states with the same files, synchronised alike. -/
structure Tracked.Same (before after : Tracked) : Prop where
  disk : after.world.disk = before.world.disk
  flushed : after.flushed = before.flushed
  failures : after.failures = before.failures

theorem Tracked.Same.refl (state : Tracked) : state.Same state := ⟨rfl, rfl, rfl⟩

theorem Tracked.Same.trans {first second third : Tracked} (h : first.Same second)
    (h' : second.Same third) : first.Same third :=
  ⟨h'.disk.trans h.disk, h'.flushed.trans h.flushed, h'.failures.trans h.failures⟩

section Tracked

variable {env : Environment} {op : Op} {state : Tracked}

/-- A call without effect on the files. -/
theorem Environment.disk_handle (env : Environment) (world : World)
    (h : env.effect world op = world.disk) : (env.handle op world).2.disk = world.disk := by
  unfold handle
  split
  · rfl
  · exact h

/-- The operations without effect on the files. -/
def Op.Keeps : Op → Prop
  | .openLock | .remove _ | .create _ | .write _ _ | .rename _ _ => False
  | _ => True

theorem Op.Keeps.disk (h : op.Keeps) (env : Environment) (world : World) :
    (env.handle op world).2.disk = world.disk := by
  refine env.disk_handle world ?_
  cases op <;> first | rfl | exact h.elim

theorem only_syncDirectory (config : RunStoreConfig) (dir : Dir) :
    Only Op.Keeps (syncDirectory config dir) := by
  refine only_bind (only_callOr trivial _) fun _ => ?_
  refine only_bind (only_perform trivial) fun reply => ?_
  cases reply with
  | error e =>
    refine only_bind (only_bind (only_perform trivial) fun _ => only_pure _) fun _ => ?_
    exact only_throw _
  | ok _ => exact only_bind (only_callOr trivial _) fun _ => only_pure _

/-- An operation that succeeds. -/
theorem Environment.tracked_ok {answer : Answer op}
    (h : (env.tracked op state).1 = .ok answer) :
    env.answer state.world op = .ok answer ∧
      (env.tracked op state).2.world.disk = env.effect state.world op ∧
      (env.tracked op state).2.flushed = op.flush state.flushed ∧
      (env.tracked op state).2.failures = state.failures := by
  have hhandle : (env.handle op state.world).1 = .ok answer := h
  cases herror : env.ioError state.world.clock op with
  | some e => simp only [handle, herror, reduceCtorEq] at hhandle
  | none =>
    simp only [tracked, hhandle]
    simp only [handle, herror] at hhandle ⊢
    exact ⟨hhandle, trivial, trivial, trivial⟩

/-- An operation that reports an error leaves the files alone. -/
theorem Environment.disk_of_error {e : Errno} {world : World}
    (h : (env.handle op world).1 = .error e) : (env.handle op world).2.disk = world.disk := by
  cases herror : env.ioError world.clock op with
  | some e => simp only [handle, herror]
  | none =>
    simp only [handle, herror] at h ⊢
    cases op with
    | create path =>
      simp only [answer, effect] at h ⊢
      split at h
      · rw [if_pos (by assumption)]
      · cases h
    | rename source destination =>
      simp only [answer, effect] at h ⊢
      split at h
      · cases h
      · rename_i hnone
        rw [Option.not_isSome_iff_eq_none.mp hnone]
    | openLock => simp only [answer, reduceCtorEq] at h
    | remove path => simp only [answer, reduceCtorEq] at h
    | write path bytes => simp only [answer, reduceCtorEq] at h
    | _ => rfl

theorem Environment.tracked_error {e : Errno} (h : (env.tracked op state).1 = .error e) :
    (env.tracked op state).2.world.disk = state.world.disk ∧
      (env.tracked op state).2.flushed = state.flushed ∧
      (env.tracked op state).2.failures =
        state.failures + if op.syncsDirectory then 1 else 0 := by
  have hhandle : (env.handle op state.world).1 = .error e := h
  simp only [tracked, hhandle]
  exact ⟨disk_of_error hhandle, trivial, trivial⟩

theorem Environment.disk_tracked (env : Environment) (op : Op) (state : Tracked)
    (h : env.effect state.world op = state.world.disk) :
    (env.tracked op state).2.world.disk = state.world.disk := by
  rw [(env.tracked_instruments op state).2]
  exact env.disk_handle state.world h

theorem Environment.failures_le_tracked (env : Environment) (op : Op) (state : Tracked) :
    state.failures ≤ (env.tracked op state).2.failures := by
  cases hreply : (env.tracked op state).1 with
  | error e => exact (tracked_error hreply).2.2.symm ▸ Nat.le_add_right _ _
  | ok answer => exact (tracked_ok hreply).2.2.2.ge

theorem failures_le_run {α : Type} (env : Environment) (p : Prog α) (state : Tracked) :
    state.failures ≤ (run env.tracked p state).2.failures := by
  induction p generalizing state with
  | done a => exact le_rfl
  | fail e => exact le_rfl
  | call op next ih => exact (env.failures_le_tracked op state).trans (ih _ _)

/-- The operations that change neither files nor the record. -/
def Op.Idle : Op → Prop
  | .openLock | .remove _ | .create _ | .write _ _ | .fsync _ | .rename _ _
  | .openDirectory _ | .fsyncDirectory _ | .closeDirectory _ => False
  | _ => True

theorem Op.Reads.idle (h : op.Reads) : op.Idle := by
  cases op <;> first | exact trivial | exact h.elim

theorem Environment.tracked_idle (env : Environment) (state : Tracked) (h : op.Idle) :
    state.Same (env.tracked op state).2 := by
  cases hreply : (env.tracked op state).1 with
  | error e =>
    obtain ⟨hdisk, hflushed, hfailures⟩ := tracked_error hreply
    refine ⟨hdisk, hflushed, hfailures.trans ?_⟩
    cases op <;> first | rfl | exact h.elim
  | ok answer =>
    obtain ⟨-, hdisk, hflushed, hfailures⟩ := tracked_ok hreply
    refine ⟨hdisk.trans ?_, hflushed.trans ?_, hfailures⟩
    · cases op <;> first | rfl | exact h.elim
    · cases op <;> first | rfl | exact h.elim

end Tracked

/-! ## Rules for programs of the store -/

section Rules

variable {σ α β : Type} {handler : Handler Op Reply σ} {I : σ → Prop}

theorem wp_callOr {op : Op} {error : Errno → Exception} {Q : Except Exception (Answer op) → σ → Prop}
    {state : σ} (hI : I state) (hI' : I (handler op state).2)
    (hok : ∀ answer, (handler op state).1 = .ok answer → Q (.ok answer) (handler op state).2)
    (herror : ∀ e, (handler op state).1 = .error e → Q (.error (error e)) (handler op state).2) :
    Wp handler I Q (callOr op error) state := by
  refine wp_bind (wp_perform hI hI' ?_)
  cases hreply : (handler op state).1 with
  | ok answer => exact wp_pure hI' (hok answer hreply)
  | error e => exact wp_throw hI' (herror e hreply)

theorem wp_callIgnored {op : Op} {Q : Except Exception Unit → σ → Prop} {state : σ}
    (hI : I state) (hI' : I (handler op state).2) (hQ : Q (.ok ()) (handler op state).2) :
    Wp handler I Q (callIgnored op) state :=
  wp_bind (wp_perform hI hI' (wp_pure hI' hQ))

end Rules

section IdleRules

variable {env : Environment} {α β : Type} {I : Disk → Prop} {state : Tracked}

/-- One operation, with a crash condition on the files. -/
theorem wp_tracked (op : Op) {error : Errno → Exception}
    {Q : Except Exception (Answer op) → Tracked → Prop} (hI : I state.world.disk)
    (hok : ∀ answer, (env.tracked op state).1 = .ok answer →
      I (env.tracked op state).2.world.disk ∧ Q (.ok answer) (env.tracked op state).2)
    (herror : ∀ e, (env.tracked op state).1 = .error e →
      Q (.error (error e)) (env.tracked op state).2) :
    Wp env.tracked (fun now => I now.world.disk) Q (callOr op error) state := by
  refine wp_callOr hI ?_ (fun answer hreply => (hok answer hreply).2) herror
  cases hreply : (env.tracked op state).1 with
  | ok answer => exact (hok answer hreply).1
  | error e =>
    rw [(Environment.tracked_error hreply).1]
    exact hI

/-- A program of idle operations. -/
theorem wp_idle {p : Prog α} (hp : Only Op.Idle p) :
    Wp env.tracked state.Same (fun _ => state.Same) p state :=
  hp.wp (fun _ now hop hnow => hnow.trans (env.tracked_idle now hop)) (.refl state)

/-- A step of a larger program that changes nothing. -/
theorem wp_idle_bind {p : Prog α} (hp : Only Op.Idle p) {f : α → Prog β}
    {Q : Except Exception β → Tracked → Prop} (hI : I state.world.disk)
    (hok : ∀ a after, state.Same after → Wp env.tracked (fun now => I now.world.disk) Q (f a) after)
    (herror : ∀ e after, state.Same after → Q (.error e) after) :
    Wp env.tracked (fun now => I now.world.disk) Q (p >>= f) state := by
  refine wp_bind ((wp_idle hp).mono (fun now hsame => ?_) fun outcome now hsame _ => ?_)
  · simpa only [hsame.disk] using hI
  · cases outcome with
    | ok a => exact hok a now hsame
    | error e => exact herror e now hsame

end IdleRules

/-! ## The moments of a write -/

/-- A name that `atomic_write` gives to its temporary file. -/
def TemporaryOf (finalPath temporary : Path) : Prop :=
  ∃ pid nonce, temporary = ⟨.tmp, temporaryName finalPath.name pid nonce⟩

theorem TemporaryOf.ne {finalPath temporary : Path} (h : TemporaryOf finalPath temporary) :
    temporary ≠ finalPath := by
  obtain ⟨pid, nonce, rfl⟩ := h
  intro heq
  have hlength := congrArg (fun path : Path => path.name.length) heq
  simp only [temporaryName, List.length_append] at hlength
  have hmark : ".tmp.".toList.length = 5 := by decide
  omega

theorem Disk.file_insert {disk : Disk} {path : Path} {bytes : Bytes} :
    Disk.file (disk.insert path (.regular bytes)) path = some bytes := by
  unfold Disk.file
  rw [AList.lookup_insert]

/-- The files with a temporary file that holds the beginning of what is to be written. -/
def Disk.Holding (disk : Disk) (temporary : Path) (bytes : Bytes) (now : Disk) : Prop :=
  ∃ written, written <+: bytes ∧ now = disk.insert temporary (.regular written)

/-- The files at any moment of a write of `bytes` that starts with the files `disk`. -/
inductive WriteStage (disk : Disk) (finalPath : Path) (bytes : Bytes) : Disk → Prop
  | untouched : WriteStage disk finalPath bytes disk
  | writing {temporary : Path} {now : Disk} (htemporary : TemporaryOf finalPath temporary)
      (hfree : disk.lookup temporary = none) (hholding : disk.Holding temporary bytes now) :
      WriteStage disk finalPath bytes now
  | installed (hfree : disk.lookup finalPath = none) :
      WriteStage disk finalPath bytes (disk.insert finalPath (.regular bytes))

section Steps

variable {env : Environment} {I : Disk → Prop} {state : Tracked}

theorem wp_hitWriteFailure (context : WriteContext) (resultPoint manifestPoint : FailurePoint) :
    Wp env.tracked state.Same (fun outcome after => outcome = .ok () ∧ state.Same after)
      (hitWriteFailure context resultPoint manifestPoint) state := by
  have hhit : ∀ point failure, state.Same (env.tracked (.hit point failure) state).2 :=
    fun point failure => env.tracked_idle state trivial
  cases context with
  | metadata => exact wp_pure (.refl state) ⟨rfl, .refl state⟩
  | blockResult failure => exact wp_callIgnored (.refl state) (hhit _ _) ⟨rfl, hhit _ _⟩
  | manifest failure => exact wp_callIgnored (.refl state) (hhit _ _) ⟨rfl, hhit _ _⟩

/-- A hook on the way. -/
theorem wp_hit_bind {α : Type} {context : WriteContext} {resultPoint manifestPoint : FailurePoint}
    {f : Unit → Prog α} {Q : Except Exception α → Tracked → Prop} (hI : I state.world.disk)
    (h : ∀ after, state.Same after → Wp env.tracked (fun now => I now.world.disk) Q (f ()) after) :
    Wp env.tracked (fun now => I now.world.disk) Q
      (hitWriteFailure context resultPoint manifestPoint >>= f) state := by
  refine wp_bind ((wp_hitWriteFailure context _ _).mono (fun now hsame => ?_)
    fun outcome now _ hpost => ?_)
  · simpa only [hsame.disk] using hI
  · obtain ⟨rfl, hsame⟩ := hpost
    exact h now hsame

/-- `sync_directory`: it returns only after the entries of the directory were synchronised. -/
theorem wp_syncDirectory (config : RunStoreConfig) (dir : Dir) (hI : I state.world.disk) :
    Wp env.tracked (fun now => I now.world.disk) (fun outcome after =>
        after.world.disk = state.world.disk ∧
          match outcome with
          | .ok _ => after.flushed = (Op.fsyncDirectory dir).flush state.flushed ∧
              after.failures = state.failures
          | .error _ => state.failures < after.failures)
      (syncDirectory config dir) state := by
  have hopened := env.disk_tracked (.openDirectory dir) state rfl
  have hI' : I (env.tracked (.openDirectory dir) state).2.world.disk := by rwa [hopened]
  refine wp_bind (wp_callOr hI hI' (fun answer hreply => ?_) fun e hreply => ?_)
  · obtain ⟨-, -, hflushed, hfailures⟩ := Environment.tracked_ok hreply
    generalize (env.tracked (.openDirectory dir) state).2 = opened at *
    have hsynced := env.disk_tracked (.fsyncDirectory dir) opened rfl
    have hI'' : I (env.tracked (.fsyncDirectory dir) opened).2.world.disk := by rwa [hsynced]
    refine wp_bind (wp_perform hI' hI'' ?_)
    cases hreply' : (env.tracked (.fsyncDirectory dir) opened).1 with
    | error e =>
      obtain ⟨-, -, hfailed⟩ := Environment.tracked_error hreply'
      generalize (env.tracked (.fsyncDirectory dir) opened).2 = synced at *
      have hclosed := env.disk_tracked (.closeDirectory dir) synced rfl
      have hI₃ : I (env.tracked (.closeDirectory dir) synced).2.world.disk := by rwa [hclosed]
      refine wp_bind (wp_callIgnored hI'' hI₃ (wp_throw hI₃ ⟨?_, ?_⟩))
      · rw [hclosed, hsynced, hopened]
      · have hmono := env.failures_le_tracked (.closeDirectory dir) synced
        simp only [Op.syncsDirectory, if_true] at hfailed
        omega
    | ok answer =>
      obtain ⟨-, -, hflushed', hfailures'⟩ := Environment.tracked_ok hreply'
      generalize (env.tracked (.fsyncDirectory dir) opened).2 = synced at *
      have hclosed := env.disk_tracked (.closeDirectory dir) synced rfl
      have hI₃ : I (env.tracked (.closeDirectory dir) synced).2.world.disk := by rwa [hclosed]
      have hdisk : (env.tracked (.closeDirectory dir) synced).2.world.disk = state.world.disk := by
        rw [hclosed, hsynced, hopened]
      refine wp_bind (wp_callOr hI'' hI₃ (fun answer hreply'' => wp_pure hI₃ ⟨hdisk, ?_, ?_⟩)
        fun e hreply'' => ⟨hdisk, ?_⟩)
      · rw [(Environment.tracked_ok hreply'').2.2.1, Op.flush, hflushed', hflushed]
        rfl
      · rw [(Environment.tracked_ok hreply'').2.2.2, hfailures', hfailures]
      · have hfailed := (Environment.tracked_error hreply'').2.2
        simp only [Op.syncsDirectory, if_true] at hfailed
        omega
  · obtain ⟨hdisk, -, hfailures⟩ := Environment.tracked_error hreply
    exact ⟨hdisk, by rw [hfailures]; exact Nat.lt_succ_self _⟩

/-- `write_all`: it returns only after everything was written. -/
theorem wp_writeAll (text : String) {temporary : Path} {disk : Disk} {total : Bytes} (fuel : ℕ)
    (rest written : Bytes) (hfuel : rest.length ≤ fuel) (htotal : written ++ rest = total)
    (hstate : state.world.disk = disk.insert temporary (.regular written)) :
    Wp env.tracked (fun now => disk.Holding temporary total now.world.disk)
      (fun outcome after => after.failures = state.failures ∧
        ∀ a, outcome = .ok a → after.world.disk = disk.insert temporary (.regular total))
      (writeAll text temporary fuel rest) state := by
  induction fuel generalizing rest written state with
  | zero =>
    obtain rfl := List.length_eq_zero_iff.mp (Nat.le_zero.mp hfuel)
    rw [List.append_nil] at htotal
    subst htotal
    exact wp_pure ⟨written, List.prefix_rfl, hstate⟩ ⟨rfl, fun _ _ => hstate⟩
  | succ fuel ih =>
    cases rest with
    | nil =>
      rw [List.append_nil] at htotal
      subst htotal
      exact wp_pure ⟨written, List.prefix_rfl, hstate⟩ ⟨rfl, fun _ _ => hstate⟩
    | cons byte rest =>
      have hnow : disk.Holding temporary total state.world.disk :=
        ⟨written, ⟨byte :: rest, htotal⟩, hstate⟩
      rw [writeAll]
      refine wp_bind (wp_tracked (.write temporary (byte :: rest)) hnow (fun count hreply => ?_) fun e hreply => ?_)
      · obtain ⟨hanswer, hdisk, -, hfailures⟩ := Environment.tracked_ok hreply
        have hwritten : (env.tracked (.write temporary (byte :: rest)) state).2.world.disk =
            disk.insert temporary (.regular (written ++ (byte :: rest).take count)) := by
          have hlookup : state.world.disk.lookup temporary = some (.regular written) := by
            rw [hstate, AList.lookup_insert]
          have htake : (byte :: rest).take count =
              (byte :: rest).take (env.writeCount state.world.clock) := by
            rw [← Except.ok.inj hanswer, Nat.min_comm, ← List.take_take, List.take_length]
          rw [hdisk, htake]
          simp only [Environment.effect, hlookup]
          rw [hstate, AList.insert_insert]
        have hsplit : (written ++ (byte :: rest).take count) ++ (byte :: rest).drop count = total := by
          rw [List.append_assoc, List.take_append_drop, htotal]
        have hafter : disk.Holding temporary total
            (env.tracked (.write temporary (byte :: rest)) state).2.world.disk :=
          ⟨_, ⟨_, hsplit⟩, hwritten⟩
        refine ⟨hafter, ?_⟩
        dsimp only
        split
        · exact wp_throw hafter ⟨hfailures, (by intro _ h; cases h)⟩
        · have hshort : ((byte :: rest).drop count).length ≤ fuel := by
            rw [List.length_drop]
            simp only [List.length_cons] at hfuel ⊢
            omega
          refine (ih _ _ hshort hsplit hwritten).mono (fun _ h => h) fun outcome after _ hpost => ?_
          exact ⟨hpost.1.trans hfailures, hpost.2⟩
      · exact ⟨(Environment.tracked_error hreply).2.2, (by intro _ h; cases h)⟩

/-- Everything is written and synchronised under the temporary name. -/
theorem wp_writeTemporary (config : RunStoreConfig) {temporary : Path} {disk : Disk}
    {bytes : Bytes} (context : WriteContext)
    (hstate : state.world.disk = disk.insert temporary (.regular [])) :
    Wp env.tracked (fun now => disk.Holding temporary bytes now.world.disk)
      (fun outcome after => after.failures = state.failures ∧
        ∀ a, outcome = .ok a → after.world.disk = disk.insert temporary (.regular bytes) ∧
          after.flushed.contents temporary = true)
      (writeTemporary config temporary bytes context) state := by
  refine wp_bind ((wp_writeAll _ _ bytes [] le_rfl (List.nil_append _) hstate).mono (fun _ h => h)
    fun outcome written hholding hpost => ?_)
  cases outcome with
  | error e => exact ⟨hpost.1, nofun⟩
  | ok _ =>
    have hwritten := hpost.2 () rfl
    refine wp_hit_bind hholding fun next hnext => ?_
    have hnow : disk.Holding temporary bytes next.world.disk := by rwa [hnext.disk]
    refine wp_bind (wp_tracked (.fsync temporary) hnow (fun _ hreply => ?_) fun e hreply => ?_)
    · obtain ⟨-, -, hflushed, hfailures⟩ := Environment.tracked_ok hreply
      have hdisk' : (env.tracked (.fsync temporary) next).2.world.disk =
          disk.insert temporary (.regular bytes) := by
        rw [env.disk_tracked (.fsync temporary) next rfl, hnext.disk, hwritten]
      refine ⟨⟨bytes, List.prefix_rfl, hdisk'⟩, ?_⟩
      refine (wp_hitWriteFailure context _ _).mono (fun now hsame => ?_)
        fun outcome now hsame _ => ⟨?_, fun _ _ => ⟨hsame.disk.trans hdisk', ?_⟩⟩
      · exact ⟨bytes, List.prefix_rfl, hsame.disk.trans hdisk'⟩
      · rw [hsame.failures, hfailures, hnext.failures, hpost.1]
      · rw [hsame.flushed, hflushed]
        exact Function.update_self ..
    · refine ⟨?_, nofun⟩
      rw [(Environment.tracked_error hreply).2.2, hnext.failures, hpost.1]
      rfl

/-- Both directories are synchronised after the file has its final name. -/
theorem wp_syncInstalled (config : RunStoreConfig) {temporary finalPath : Path} {disk : Disk}
    {bytes : Bytes} (context : WriteContext) {failures : ℕ}
    (hfree : disk.lookup finalPath = none)
    (hstate : state.world.disk = disk.insert finalPath (.regular bytes))
    (hcontents : state.flushed.contents finalPath = true) (hfailures : state.failures = failures) :
    Wp env.tracked (fun now => WriteStage disk finalPath bytes now.world.disk)
      (fun outcome after =>
        match outcome with
        | .ok _ => after.world.disk = disk.insert finalPath (.regular bytes) ∧
            after.flushed.contents finalPath = true ∧ after.flushed.entries finalPath = true ∧
            after.failures = failures
        | .error _ => disk.Holding temporary bytes after.world.disk ∧ after.failures = failures ∨
            after.world.disk = disk.insert finalPath (.regular bytes) ∧ failures < after.failures)
      (do
        hitWriteFailure context .resultAfterRename .manifestAfterRename
        syncDirectory config finalPath.dir
        if finalPath.dir ≠ temporary.dir then syncDirectory config temporary.dir else pure ())
      state := by
  have hstage : WriteStage disk finalPath bytes state.world.disk := by
    rw [hstate]
    exact .installed hfree
  refine wp_hit_bind hstage fun ready hready => ?_
  have hstage' : WriteStage disk finalPath bytes ready.world.disk := by rwa [hready.disk]
  refine wp_bind ((wp_syncDirectory config _ hstage').mono (fun _ h => h)
    fun outcome synced hstage'' hpost => ?_)
  have hdisk : synced.world.disk = disk.insert finalPath (.regular bytes) := by
    rw [hpost.1, hready.disk, hstate]
  cases outcome with
  | error e =>
    refine Or.inr ⟨hdisk, ?_⟩
    rw [← hfailures, ← hready.failures]
    exact hpost.2
  | ok _ =>
    obtain ⟨-, hflushed, hsame⟩ := hpost
    have hentries : synced.flushed.entries finalPath = true := by
      rw [hflushed]
      exact if_pos rfl
    have hcontents' : synced.flushed.contents finalPath = true := by
      rw [hflushed, hready.flushed]
      exact hcontents
    rw [hready.failures, hfailures] at hsame
    dsimp only
    split
    · refine (wp_syncDirectory config _ hstage'').mono (fun _ h => h) fun outcome after _ hpost => ?_
      cases outcome with
      | error e => exact Or.inr ⟨hpost.1.trans hdisk, by rw [← hsame]; exact hpost.2⟩
      | ok _ =>
        refine ⟨hpost.1.trans hdisk, ?_, ?_, hpost.2.2.trans hsame⟩
        · rw [hpost.2.1]
          exact hcontents'
        · rw [hpost.2.1]
          simp only [Op.flush, hentries, ite_self]
    · exact wp_pure hstage'' ⟨hdisk, hcontents', hentries, hsame⟩

/-- The temporary file takes its final name, and both directories are synchronised. -/
theorem wp_installTemporary (config : RunStoreConfig) {temporary finalPath : Path} {disk : Disk}
    {bytes : Bytes} (context : WriteContext) (htemporary : TemporaryOf finalPath temporary)
    (hfresh : disk.lookup temporary = none) (hfree : disk.lookup finalPath = none)
    (hstate : state.world.disk = disk.insert temporary (.regular bytes))
    (hcontents : state.flushed.contents temporary = true) :
    Wp env.tracked (fun now => WriteStage disk finalPath bytes now.world.disk)
      (fun outcome after =>
        match outcome with
        | .ok _ => after.world.disk = disk.insert finalPath (.regular bytes) ∧
            after.flushed.contents finalPath = true ∧ after.flushed.entries finalPath = true ∧
            after.failures = state.failures
        | .error _ => disk.Holding temporary bytes after.world.disk ∧
              after.failures = state.failures ∨
            after.world.disk = disk.insert finalPath (.regular bytes) ∧
              state.failures < after.failures)
      (installTemporary config temporary finalPath context) state := by
  have hstage : WriteStage disk finalPath bytes state.world.disk :=
    .writing htemporary hfresh ⟨bytes, List.prefix_rfl, hstate⟩
  refine wp_idle_bind (only_callOr trivial _) hstage (fun _ closed hclosed => ?_)
    fun e closed hclosed => Or.inl ⟨⟨bytes, List.prefix_rfl, hclosed.disk.trans hstate⟩,
      hclosed.failures⟩
  have hstage' : WriteStage disk finalPath bytes closed.world.disk := by rwa [hclosed.disk]
  refine wp_hit_bind hstage' fun ready hready => ?_
  have hsame := hclosed.trans hready
  have hstage'' : WriteStage disk finalPath bytes ready.world.disk := by rwa [hsame.disk]
  refine wp_bind (wp_tracked (.rename temporary finalPath) hstage'' (fun _ hreply => ?_)
    fun e hreply => ?_)
  · obtain ⟨-, hdisk, hflushed, hfailures⟩ := Environment.tracked_ok hreply
    have hinstalled : (env.tracked (.rename temporary finalPath) ready).2.world.disk =
        disk.insert finalPath (.regular bytes) := by
      have hlookup : ready.world.disk.lookup temporary = some (.regular bytes) := by
        rw [hsame.disk, hstate, AList.lookup_insert]
      rw [hdisk]
      simp only [Environment.effect, hlookup]
      rw [hsame.disk, hstate, erase_insert hfresh]
    have hsecured : (env.tracked (.rename temporary finalPath) ready).2.flushed.contents finalPath =
        true := by
      rw [hflushed, hsame.flushed]
      exact (Function.update_self ..).trans hcontents
    rw [hsame.failures] at hfailures
    generalize (env.tracked (.rename temporary finalPath) ready).2 = renamed at *
    have hstage₃ : WriteStage disk finalPath bytes renamed.world.disk := by
      rw [hinstalled]
      exact .installed hfree
    refine ⟨hstage₃, ?_⟩
    exact wp_syncInstalled config context hfree hinstalled hsecured hfailures
  · refine Or.inl ⟨⟨bytes, List.prefix_rfl, ?_⟩, ?_⟩
    · rw [(Environment.tracked_error hreply).1, hsame.disk, hstate]
    · rw [(Environment.tracked_error hreply).2.2, hsame.failures]
      rfl

/-! ## The whole write -/

/-- The next file keeps the store within its limits. -/
structure WriteFits (config : RunStoreConfig) (usage : StorageUsage) (nextBytes : ℕ) : Prop where
  bytes : usage.bytes.toNat + nextBytes ≤ config.maxStorageBytes.toNat
  files : usage.files.toNat < config.maxStorageFiles.toNat

/-- The counters after the next file. -/
def StorageUsage.add (usage : StorageUsage) (nextBytes : ℕ) : StorageUsage :=
  ⟨usage.bytes + UInt64.ofNat nextBytes, usage.files + 1⟩

theorem WriteFits.add {config : RunStoreConfig} {usage : StorageUsage} {nextBytes : ℕ}
    (h : WriteFits config usage nextBytes) :
    (usage.add nextBytes).bytes.toNat = usage.bytes.toNat + nextBytes ∧
      (usage.add nextBytes).files.toNat = usage.files.toNat + 1 := by
  have hbytes := h.bytes
  have hfiles := h.files
  have hlimit := config.maxStorageBytes.toNat_lt
  have hlimit' := config.maxStorageFiles.toNat_lt
  simp only [StorageUsage.add, UInt64.toNat_add, UInt64.toNat_ofNat']
  rw [Nat.mod_eq_of_lt (a := nextBytes) (by omega), Nat.mod_eq_of_lt (by omega),
    Nat.mod_eq_of_lt (by simp; omega)]
  exact ⟨rfl, rfl⟩

theorem only_preflightWrite (config : RunStoreConfig) (usage : StorageUsage) (nextBytes : ℕ) :
    Only Op.Idle (preflightWrite config usage nextBytes) := by
  refine only_bind (only_ofExcept _) fun _ => only_bind (only_ofExcept _) fun _ => ?_
  refine only_bind (only_ofExcept _) fun _ => only_bind (only_callOr trivial _) fun _ => ?_
  exact only_ofExcept _

/-- `preflight_write` lets only such a file through. -/
theorem returns_preflightWrite (config : RunStoreConfig) (usage : StorageUsage) (nextBytes : ℕ) :
    Returns (fun _ => WriteFits config usage nextBytes) (preflightWrite config usage nextBytes) := by
  have hword : maxWord.toNat = 2 ^ 64 - 1 := by decide
  refine returns_bind (P := fun _ => nextBytes ≤ maxWord.toNat) ?_ fun _ hnext => ?_
  · refine returns_ofExcept fun _ h => ?_
    rw [throwIf_eq_ok, decide_eq_false_iff_not] at h
    exact not_lt.mp h
  have hnat : (UInt64.ofNat nextBytes).toNat = nextBytes := by
    rw [UInt64.toNat_ofNat', Nat.mod_eq_of_lt (by omega)]
  refine returns_bind (P := fun _ =>
    usage.bytes.toNat + nextBytes ≤ config.maxStorageBytes.toNat) ?_ fun _ hbytes => ?_
  · refine returns_ofExcept fun _ h => ?_
    simp only [throwIf_eq_ok, Bool.or_eq_false_iff, decide_eq_false_iff_not, UInt64.not_lt] at h
    obtain ⟨hle, hroom⟩ := h
    have hsub := UInt64.toNat_sub_of_le _ _ hle
    rw [UInt64.le_iff_toNat_le] at hle hroom
    omega
  refine returns_bind (P := fun _ => usage.files.toNat < config.maxStorageFiles.toNat) ?_
    fun _ hfiles => returns_skip _ fun _ => returns_ofExcept fun _ _ => ⟨hbytes, hfiles⟩
  refine returns_ofExcept fun _ h => ?_
  simp only [throwIf_eq_ok, decide_eq_false_iff_not, UInt64.not_le] at h
  exact UInt64.lt_iff_toNat_lt.mp h

end Steps

/-- How a write of `bytes` ends that starts in the state `before`. -/
inductive WriteOutcome (env : Environment) (config : RunStoreConfig) (finalPath : Path)
    (bytes : Bytes) (usage : StorageUsage) (before : Tracked) :
    Except Exception StorageUsage → Tracked → Prop
  /-- The file was there. -/
  | present {after : Tracked} (hfile : before.world.disk.file finalPath = some bytes)
      (hsame : before.Same after) :
      WriteOutcome env config finalPath bytes usage before (.ok usage) after
  | installed {after : Tracked} (hfree : before.world.disk.lookup finalPath = none)
      (hfits : WriteFits config usage bytes.length)
      (hdisk : after.world.disk = before.world.disk.insert finalPath (.regular bytes))
      (hcontents : after.flushed.contents finalPath = true)
      (hentries : after.flushed.entries finalPath = true)
      (hfailures : after.failures = before.failures) :
      WriteOutcome env config finalPath bytes usage before (.ok (usage.add bytes.length)) after
  | unchanged {e : Exception} {after : Tracked} (hdisk : after.world.disk = before.world.disk)
      (hfailures : after.failures = before.failures) :
      WriteOutcome env config finalPath bytes usage before (.error e) after
  /-- The temporary file could not be removed. -/
  | leftover {e : Exception} {after : Tracked} {temporary : Path} {time : ℕ}
      (htemporary : TemporaryOf finalPath temporary)
      (hfree : before.world.disk.lookup temporary = none)
      (hholding : before.world.disk.Holding temporary bytes after.world.disk)
      (hstuck : env.ioError time (.remove temporary) ≠ none)
      (hfailures : after.failures = before.failures) :
      WriteOutcome env config finalPath bytes usage before (.error e) after
  /-- The file was renamed, but a directory could not be synchronised. -/
  | unsynced {e : Exception} {after : Tracked} (hfree : before.world.disk.lookup finalPath = none)
      (hfits : WriteFits config usage bytes.length)
      (hdisk : after.world.disk = before.world.disk.insert finalPath (.regular bytes))
      (hfailures : before.failures < after.failures) :
      WriteOutcome env config finalPath bytes usage before (.error e) after

section Write

variable {env : Environment} {config : RunStoreConfig} {finalPath : Path} {bytes : Bytes}
  {usage : StorageUsage} {context : WriteContext} {before : Tracked}

/-- `read_file` returns what the file holds. -/
theorem file_of_readFile {path : Path} {maximumSize : UInt64} {kind : SizeLimitKind}
    {world after : World} {found : Bytes}
    (h : run env.handle (readFile config path maximumSize kind) world = (.ok found, after)) :
    world.disk.file path = some found := by
  obtain ⟨size, sized, hsize, h⟩ := run_bind_eq_ok h
  split at h
  · cases h
  obtain ⟨_, opened, hopen, h⟩ := run_bind_eq_ok h
  obtain ⟨contents, last, hread, h⟩ := run_bind_eq_ok h
  have hsized : world.SameFiles sized :=
    (run_callOr_eq_ok hsize).2.2 ▸ env.sameFiles_reads world trivial
  have hopened : sized.SameFiles opened :=
    (run_callOr_eq_ok hopen).2.2 ▸ env.sameFiles_reads sized trivial
  have hdisk : opened.disk = world.disk := (hsized.trans hopened).1
  have hanswer : env.answer opened (.read path) = .ok contents := (run_callOr_eq_ok hread).2.1
  unfold Environment.answer at hanswer
  dsimp only at hanswer
  rw [hdisk] at hanswer
  unfold Disk.file
  rcases hlookup : world.disk.lookup path with _ | bytes | _
  · rw [hlookup] at hanswer
    cases hanswer
  · rw [hlookup] at hanswer
    split at h
    · cases h
    · obtain rfl : bytes = contents := Except.ok.inj hanswer
      exact congrArg some (Except.ok.inj (congrArg Prod.fst h))
  · rw [hlookup] at hanswer
    cases hanswer

theorem wp_readFile (config : RunStoreConfig) (path : Path) (maximumSize : UInt64)
    (kind : SizeLimitKind) {state : Tracked} :
    Wp env.tracked state.Same
      (fun outcome _ => ∀ found, outcome = .ok found → state.world.disk.file path = some found)
      (readFile config path maximumSize kind) state := by
  have hidle := (only_readFile config path maximumSize kind).mono fun _ => Op.Reads.idle
  refine ⟨fun now hnow => (wp_idle hidle).visits hnow, fun found hfound => ?_⟩
  have hrun := env.tracked_instruments.run (readFile config path maximumSize kind) state
  rw [hfound] at hrun
  exact file_of_readFile hrun

/-- Removing the temporary file on the way out. -/
theorem wp_removeTemporary {α : Type} {I : Disk → Prop} {state : Tracked} {temporary : Path}
    {e : Exception} {Q : Except Exception α → Tracked → Prop} (hI : I state.world.disk)
    (hremoved : ∀ after : Tracked, after.world.disk = state.world.disk.erase temporary →
      after.failures = state.failures → I after.world.disk ∧ Q (.error e) after)
    (hstuck : ∀ (after : Tracked) (time : ℕ), after.world.disk = state.world.disk →
      after.failures = state.failures → env.ioError time (.remove temporary) ≠ none →
      Q (.error e) after) :
    Wp env.tracked (fun now => I now.world.disk) Q
      (do
        callIgnored (.remove temporary)
        throw e) state := by
  cases hreply : (env.tracked (.remove temporary) state).1 with
  | ok answer =>
    obtain ⟨-, hdisk, -, hfailures⟩ := Environment.tracked_ok hreply
    obtain ⟨hI', hQ⟩ := hremoved _ hdisk hfailures
    exact wp_bind (wp_callIgnored hI hI' (wp_throw hI' hQ))
  | error errno =>
    obtain ⟨hdisk, -, hfailures⟩ := Environment.tracked_error hreply
    have hI' : I (env.tracked (.remove temporary) state).2.world.disk := by rwa [hdisk]
    have herror : env.ioError state.world.clock (.remove temporary) ≠ none := by
      intro hnone
      have hhandle : (env.handle (.remove temporary) state.world).1 = .error errno := hreply
      simp only [Environment.handle, hnone, Environment.answer, reduceCtorEq] at hhandle
    exact wp_bind (wp_callIgnored hI hI' (wp_throw hI' (hstuck _ _ hdisk hfailures herror)))

theorem erase_of_lookup {disk : Disk} {path : Path} (h : disk.lookup path = none) :
    disk.erase path = disk := by
  apply AList.ext
  refine List.kerase_of_notMem_keys ?_
  change path ∉ disk
  rw [← AList.lookup_isSome, h]
  exact nofun

/-- The write from the creation of the temporary file on. -/
theorem wp_writeCreated {temporary : Path} {state : Tracked}
    (htemporary : TemporaryOf finalPath temporary)
    (hfresh : before.world.disk.lookup temporary = none)
    (hfree : before.world.disk.lookup finalPath = none)
    (hfits : WriteFits config usage bytes.length)
    (hstate : state.world.disk = before.world.disk.insert temporary (.regular []))
    (hfailures : state.failures = before.failures) :
    Wp env.tracked
      (fun now => WriteStage before.world.disk finalPath bytes now.world.disk)
      (WriteOutcome env config finalPath bytes usage before)
      (do
        MonadExcept.tryCatch (writeTemporary config temporary bytes context) fun e => do
          callIgnored (.close temporary)
          callIgnored (.remove temporary)
          throw e
        MonadExcept.tryCatch (installTemporary config temporary finalPath context) fun e => do
          callIgnored (.remove temporary)
          throw e
        pure (usage.add bytes.length)) state := by
  have hwriting : ∀ {now : Disk}, before.world.disk.Holding temporary bytes now →
      WriteStage before.world.disk finalPath bytes now := fun h => .writing htemporary hfresh h
  -- what becomes of the temporary file when anything fails before the rename
  have hcleanup : ∀ {α : Type} {e : Exception} {Q : Except Exception α → Tracked → Prop}
      {now : Tracked}, before.world.disk.Holding temporary bytes now.world.disk →
      now.failures = before.failures →
      (∀ after, WriteOutcome env config finalPath bytes usage before (.error e) after →
        Q (.error e) after) →
      Wp env.tracked (fun now => WriteStage before.world.disk finalPath bytes now.world.disk) Q
        (do
          callIgnored (.remove temporary)
          throw e) now := by
    intro α e Q now hholding hsame hQ
    have herase : now.world.disk.erase temporary = before.world.disk := by
      obtain ⟨written, -, hnow⟩ := hholding
      rw [hnow, erase_insert hfresh]
    refine wp_removeTemporary (hwriting hholding) (fun after hdisk hafter => ?_)
      fun after time hdisk hafter hstuck => ?_
    · rw [herase] at hdisk
      refine ⟨hdisk ▸ .untouched, hQ after (.unchanged hdisk (hafter.trans hsame))⟩
    · refine hQ after (.leftover htemporary hfresh ?_ hstuck (hafter.trans hsame))
      rwa [hdisk]
  refine wp_bind (wp_tryCatch ((wp_writeTemporary config context hstate).mono
    (fun _ h => hwriting h) fun outcome written hholding hpost => ?_))
  have hsame : written.failures = before.failures := hpost.1.trans hfailures
  cases outcome with
  | error e =>
    have hclose : written.Same (env.tracked (.close temporary) written).2 :=
      env.tracked_idle written trivial
    have hholding' : before.world.disk.Holding temporary bytes
        (env.tracked (.close temporary) written).2.world.disk := by rwa [hclose.disk]
    exact wp_bind (wp_callIgnored (hwriting hholding) (hwriting hholding')
      (hcleanup hholding' (hclose.failures.trans hsame) fun after h => h))
  | ok _ =>
    obtain ⟨hdisk, hcontents⟩ := hpost.2 () rfl
    refine wp_bind (wp_tryCatch ((wp_installTemporary config context htemporary hfresh hfree hdisk
      hcontents).mono (fun _ h => h) fun outcome installed hstage hpost => ?_))
    rw [hsame] at hpost
    cases outcome with
    | ok _ =>
      obtain ⟨hinstalled, hsecured, hentries, hfailures'⟩ := hpost
      exact wp_pure hstage (.installed hfree hfits hinstalled hsecured hentries hfailures')
    | error e =>
      rcases hpost with ⟨hholding', hsame'⟩ | ⟨hinstalled, hfailures'⟩
      · exact hcleanup hholding' hsame' fun after h => h
      · have herase : installed.world.disk.erase temporary =
            before.world.disk.insert finalPath (.regular bytes) := by
          rw [hinstalled, erase_of_lookup]
          rw [AList.lookup_insert_ne htemporary.ne, hfresh]
        refine wp_removeTemporary hstage (fun after hdisk' hafter => ?_)
          fun after time hdisk' hafter hstuck => ?_
        · rw [herase] at hdisk'
          exact ⟨hdisk' ▸ .installed hfree, .unsynced hfree hfits hdisk' (hafter ▸ hfailures')⟩
        · exact .unsynced hfree hfits (hdisk'.trans hinstalled) (hafter ▸ hfailures')

theorem wp_writeNewFile {start : Tracked} (hstart : before.Same start)
    (hfree : before.world.disk.lookup finalPath = none) :
    Wp env.tracked
      (fun now => WriteStage before.world.disk finalPath bytes now.world.disk)
      (WriteOutcome env config finalPath bytes usage before)
      (writeNewFile config finalPath bytes usage context) start := by
  have hstage : ∀ {now : Tracked}, before.Same now →
      WriteStage before.world.disk finalPath bytes now.world.disk := fun hsame => by
    rw [hsame.disk]
    exact .untouched
  refine wp_bind (((wp_idle (only_preflightWrite config usage _)).returns
    (returns_preflightWrite config usage _)).mono (fun _ hsame => hstage (hstart.trans hsame))
    fun outcome checked hsame hpost => ?_)
  replace hsame := hstart.trans hsame
  cases outcome with
  | error e => exact .unchanged hsame.disk hsame.failures
  | ok _ =>
    have hfits := hpost.2 () rfl
    refine wp_idle_bind (only_callOr trivial _) (hstage hsame) (fun pid asked hasked => ?_)
      fun e asked hasked => .unchanged (hsame.trans hasked).disk (hsame.trans hasked).failures
    replace hasked := hsame.trans hasked
    refine wp_idle_bind (only_callOr trivial _) (hstage hasked) (fun nonce named hnamed => ?_)
      fun e named hnamed => .unchanged (hasked.trans hnamed).disk (hasked.trans hnamed).failures
    replace hnamed := hasked.trans hnamed
    have htemporary : TemporaryOf finalPath ⟨.tmp, temporaryName finalPath.name pid nonce⟩ :=
      ⟨pid, nonce, rfl⟩
    generalize (⟨.tmp, temporaryName finalPath.name pid nonce⟩ : Path) = temporary at htemporary ⊢
    refine wp_bind (wp_tracked (.create temporary) (hstage hnamed) (fun _ hreply => ?_)
      fun e hreply => ?_)
    · obtain ⟨hanswer, hdisk, -, hfailures⟩ := Environment.tracked_ok hreply
      have hfresh : before.world.disk.lookup temporary = none := by
        simp only [Environment.answer, hnamed.disk] at hanswer
        split at hanswer
        · cases hanswer
        · exact Option.not_isSome_iff_eq_none.mp (by assumption)
      have hcreated : (env.tracked (.create temporary) named).2.world.disk =
          before.world.disk.insert temporary (.regular []) := by
        rw [hdisk]
        simp only [Environment.effect, hnamed.disk, hfresh]
        rfl
      rw [hnamed.failures] at hfailures
      generalize (env.tracked (.create temporary) named).2 = created at *
      refine ⟨.writing htemporary hfresh ⟨[], List.nil_prefix, hcreated⟩, ?_⟩
      exact wp_writeCreated htemporary hfresh hfree hfits hcreated hfailures
    · obtain ⟨hdisk, -, hfailures⟩ := Environment.tracked_error hreply
      exact .unchanged (hdisk.trans hnamed.disk) (hfailures.trans hnamed.failures)

/-- Every execution of `atomic_write`. -/
theorem wp_atomicWrite :
    Wp env.tracked
      (fun now => WriteStage before.world.disk finalPath bytes now.world.disk)
      (WriteOutcome env config finalPath bytes usage before)
      (atomicWrite config finalPath bytes usage context) before := by
  refine wp_bind (wp_tracked (.exists_ finalPath) .untouched (fun present hreply => ?_)
    fun e hreply => ?_)
  · have hsame : before.Same (env.tracked (.exists_ finalPath) before).2 :=
      env.tracked_idle before trivial
    have hpresent : present = (before.world.disk.lookup finalPath).isSome :=
      (Except.ok.inj (Environment.tracked_ok hreply).1).symm
    generalize (env.tracked (.exists_ finalPath) before).2 = asked at *
    have hstage : WriteStage before.world.disk finalPath bytes asked.world.disk := by
      rw [hsame.disk]
      exact .untouched
    refine ⟨hstage, ?_⟩
    cases present with
    | false =>
      exact wp_writeNewFile hsame (Option.isNone_iff_eq_none.mp (by simpa using hpresent.symm))
    | true =>
      refine wp_bind ((wp_readFile config finalPath _ _).mono (fun now hnow => ?_)
        fun outcome read hnow hfile => ?_)
      · rwa [hnow.disk]
      · have hall := hsame.trans hnow
        have hstage' : WriteStage before.world.disk finalPath bytes read.world.disk := by
          rwa [hnow.disk]
        cases outcome with
        | error e => exact .unchanged hall.disk hall.failures
        | ok found =>
          have hfound := hfile found rfl
          rw [hsame.disk] at hfound
          dsimp only
          split
          · rename_i heq
            exact wp_pure hstage' (.present (heq ▸ hfound) hall)
          · exact wp_throw hstage' (.unchanged hall.disk hall.failures)
  · obtain ⟨hdisk, -, hfailures⟩ := Environment.tracked_error hreply
    exact .unchanged hdisk hfailures

theorem atomicWrite_outcome {outcome : Except Exception StorageUsage} {after : Tracked}
    (h : run env.tracked (atomicWrite config finalPath bytes usage context) before =
      (outcome, after)) : WriteOutcome env config finalPath bytes usage before outcome after := by
  have hpost : WriteOutcome env config finalPath bytes usage before
      (run env.tracked (atomicWrite config finalPath bytes usage context) before).1
      (run env.tracked (atomicWrite config finalPath bytes usage context) before).2 :=
    wp_atomicWrite.post
  rwa [h] at hpost

end Write

end MonteCarlo
