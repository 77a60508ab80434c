import MonteCarlo.Store.Usage

/-!
# Runs in which no call fails

`Environment.traced` also records the failure points that a program passes.  When no call fails,
every function of the store that writes is an equation on the disk:

* `settles_writeFresh` — the part of `atomic_write` after its preflight installs the file, passes
  the four failure points of its context and leaves nothing else behind;
* `settles_removeScan` — a scan that removes what it finds removes all of it, in any order.
-/

namespace MonteCarlo

open Effects Effects.Program

/-- Failure points, in the order in which they were passed. -/
abbrev Trace : Type := List (FailurePoint × FailureContext)

/-- The trace after an operation. -/
def Op.record (trace : Trace) : Op → Trace
  | .hit point context => trace ++ [(point, context)]
  | _ => trace

/-- `Environment.handle` with a record of the failure points. -/
def Environment.traced (env : Environment) : Handler Op Reply (World × Trace) := fun op state =>
  ((env.handle op state.1).1, ((env.handle op state.1).2, op.record state.2))

theorem Environment.traced_instruments (env : Environment) :
    Instruments Prod.fst env.traced env.handle := fun _ _ => ⟨rfl, rfl⟩

/-- The world after an operation that does not fail. -/
def Environment.after (env : Environment) (op : Op) (world : World) : World :=
  { disk := env.effect world op
    clock := world.clock + 1
    nonce := op.nonceAfter world.nonce }

variable {env : Environment} {world : World} {trace : Trace}

theorem Environment.Faultless.traced (hf : env.Faultless) (op : Op) (world : World)
    (trace : Trace) :
    env.traced op (world, trace) = (env.answer world op, (env.after op world, op.record trace)) := by
  simp only [Environment.traced, Environment.handle, hf.ioError]
  rfl

theorem run_callOr (hf : env.Faultless) {op : Op} {error : Errno → Exception} {answer : Answer op}
    (h : env.answer world op = .ok answer) :
    run env.traced (callOr op error) (world, trace) =
      (.ok answer, (env.after op world, op.record trace)) := by
  rw [callOr, run_bind, call, run_perform, hf.traced, h]
  rfl

theorem run_callOr_error (hf : env.Faultless) {op : Op} {error : Errno → Exception} {e : Errno}
    (h : env.answer world op = .error e) :
    run env.traced (callOr op error) (world, trace) =
      (.error (error e), (env.after op world, op.record trace)) := by
  rw [callOr, run_bind, call, run_perform, hf.traced, h]
  rfl

theorem run_callIgnored (hf : env.Faultless) (op : Op) :
    run env.traced (callIgnored op) (world, trace) =
      (.ok (), (env.after op world, op.record trace)) := by
  rw [callIgnored, run_bind, call, run_perform, hf.traced]
  rfl

/-! ## Installing a file -/

/-- The failure points of a hook. -/
def WriteContext.hits (context : WriteContext) (resultPoint manifestPoint : FailurePoint) : Trace :=
  match context with
  | .metadata => []
  | .blockResult failure => [(resultPoint, failure)]
  | .manifest failure => [(manifestPoint, failure)]

/-- The failure points of one `atomic_write`. -/
def WriteContext.allHits (context : WriteContext) : Trace :=
  context.hits .resultBeforeFileFsync .manifestBeforeFileFsync
    ++ context.hits .resultAfterFileFsync .manifestAfterFileFsync
    ++ context.hits .resultBeforeRename .manifestBeforeRename
    ++ context.hits .resultAfterRename .manifestAfterRename

/-- A state, up to the time. -/
def Stands (disk : Disk) (nonce : ℕ) (trace : Trace) (state : World × Trace) : Prop :=
  state.1.disk = disk ∧ state.1.nonce = nonce ∧ state.2 = trace

/-- `p` returns `a` and leaves such a state. -/
def Settles {α : Type} (env : Environment) (p : Prog α) (state : World × Trace) (a : α)
    (disk : Disk) (nonce : ℕ) (trace : Trace) : Prop :=
  ∃ final, run env.traced p state = (.ok a, final) ∧ Stands disk nonce trace final

variable {disk : Disk} {nonce : ℕ} {state : World × Trace}

/-- Sequencing. -/
theorem Settles.bind {α β : Type} {p : Prog α} {f : α → Prog β} {a : α} {b : β}
    {disk' : Disk} {nonce' : ℕ} {trace' : Trace}
    (hp : Settles env p state a disk nonce trace)
    (hf : ∀ next, Stands disk nonce trace next → Settles env (f a) next b disk' nonce' trace') :
    Settles env (p >>= f) state b disk' nonce' trace' := by
  obtain ⟨middle, hrun, hstands⟩ := hp
  obtain ⟨final, hrun', hstands'⟩ := hf middle hstands
  exact ⟨final, by rw [run_bind_ok hrun, hrun'], hstands'⟩

theorem Settles.tryCatch {α : Type} {p : Prog α} {f : Exception → Prog α} {a : α}
    (hp : Settles env p state a disk nonce trace) :
    Settles env (MonadExcept.tryCatch p f) state a disk nonce trace := by
  obtain ⟨final, hrun, hstands⟩ := hp
  exact ⟨final, by rw [run_tryCatch, hrun], hstands⟩

theorem settles_pure {α : Type} (a : α) (hstands : Stands disk nonce trace state) :
    Settles env (pure a) state a disk nonce trace :=
  ⟨state, rfl, hstands⟩

/-- An operation that leaves the disk and the nonce alone and always succeeds. -/
theorem settles_callOr (hf : env.Faultless) {op : Op} {error : Errno → Exception}
    {answer : Answer op} (hstands : Stands disk nonce trace state)
    (hanswer : ∀ world : World, world.disk = disk → world.nonce = nonce →
      env.answer world op = .ok answer)
    {disk' : Disk} {nonce' : ℕ} (hdisk : ∀ world : World, world.disk = disk →
      env.effect world op = disk')
    (hnonce : op.nonceAfter nonce = nonce') :
    Settles env (callOr op error) state answer disk' nonce' (op.record trace) := by
  obtain ⟨world, past⟩ := state
  obtain ⟨hd, hn, ht⟩ := hstands
  refine ⟨_, run_callOr hf (hanswer world hd hn), hdisk world hd, ?_, ?_⟩
  · rw [← hnonce, ← hn]
    rfl
  · change op.record past = _
    rw [show past = trace from ht]

theorem settles_hit (hf : env.Faultless) (hstands : Stands disk nonce trace state)
    (point : FailurePoint) (context : FailureContext) :
    Settles env (callIgnored (.hit point context)) state () disk nonce
      (trace ++ [(point, context)]) := by
  obtain ⟨world, past⟩ := state
  obtain ⟨rfl, rfl, rfl⟩ := hstands
  exact ⟨_, run_callIgnored hf _, rfl, rfl, rfl⟩

theorem settles_hitWriteFailure (hf : env.Faultless) (hstands : Stands disk nonce trace state)
    (context : WriteContext) (resultPoint manifestPoint : FailurePoint) :
    Settles env (hitWriteFailure context resultPoint manifestPoint) state () disk nonce
      (trace ++ context.hits resultPoint manifestPoint) := by
  cases context with
  | metadata =>
    rw [WriteContext.hits, List.append_nil]
    exact settles_pure () hstands
  | blockResult failure => exact settles_hit hf hstands _ _
  | manifest failure => exact settles_hit hf hstands _ _

/-- Operations that always succeed and change nothing the store looks at. -/
def Op.Formal : Op → Prop
  | .createDirectories _ | .flock | .nextEntry _ | .fsync _ | .close _ | .openDirectory _
  | .fsyncDirectory _ | .closeDirectory _ => True
  | _ => False

/-- The reply of such an operation. -/
theorem settles_formal (hf : env.Faultless) {op : Op} (hop : op.Formal)
    (hstands : Stands disk nonce trace state) :
    ∃ answer, Settles env (call op) state (.ok answer) disk nonce trace := by
  obtain ⟨world, past⟩ := state
  obtain ⟨rfl, rfl, rfl⟩ := hstands
  have hrun : run env.traced (call op) (world, past) =
      (.ok (env.answer world op), (env.after op world, op.record past)) := by
    rw [call, run_perform, hf.traced]
  cases op with
  | createDirectories dir => exact ⟨(), _, hrun, rfl, rfl, rfl⟩
  | flock => exact ⟨(), _, hrun, rfl, rfl, rfl⟩
  | nextEntry site => exact ⟨(), _, hrun, rfl, rfl, rfl⟩
  | fsync path => exact ⟨(), _, hrun, rfl, rfl, rfl⟩
  | close path => exact ⟨(), _, hrun, rfl, rfl, rfl⟩
  | openDirectory dir => exact ⟨(), _, hrun, rfl, rfl, rfl⟩
  | fsyncDirectory dir => exact ⟨(), _, hrun, rfl, rfl, rfl⟩
  | closeDirectory dir => exact ⟨(), _, hrun, rfl, rfl, rfl⟩
  | _ => exact hop.elim

theorem settles_formal_callOr (hf : env.Faultless) {op : Op} (hop : op.Formal)
    (error : Errno → Exception) (hstands : Stands disk nonce trace state) :
    ∃ answer, Settles env (callOr op error) state answer disk nonce trace := by
  obtain ⟨answer, hcall⟩ := settles_formal hf hop hstands
  exact ⟨answer, hcall.bind fun next hn => settles_pure answer hn⟩

theorem settles_syncDirectory (hf : env.Faultless) (config : RunStoreConfig) (dir : Dir)
    (hstands : Stands disk nonce trace state) :
    Settles env (syncDirectory config dir) state () disk nonce trace := by
  obtain ⟨_, hopen⟩ := settles_formal_callOr hf (show (Op.openDirectory dir).Formal from trivial)
    _ hstands
  refine hopen.bind fun next hn => ?_
  obtain ⟨_, hsync⟩ := settles_formal hf (show (Op.fsyncDirectory dir).Formal from trivial) hn
  refine hsync.bind fun next hn => ?_
  obtain ⟨_, hclose⟩ := settles_formal_callOr hf (show (Op.closeDirectory dir).Formal from trivial)
    _ hn
  exact hclose.bind fun next hn => settles_pure () hn

/-- `write_all`, whatever the sizes of its parts. -/
theorem settles_writeAll (hf : env.Faultless) (text : String) (path : Path) (fuel : ℕ)
    (written bytes : Bytes) (hfuel : bytes.length ≤ fuel)
    (hstands : Stands (disk.insert path (.regular written)) nonce trace state) :
    Settles env (writeAll text path fuel bytes) state ()
      (disk.insert path (.regular (written ++ bytes))) nonce trace := by
  induction fuel generalizing written bytes state with
  | zero =>
    obtain rfl := List.length_eq_zero_iff.mp (Nat.le_zero.mp hfuel)
    rw [List.append_nil]
    exact settles_pure () hstands
  | succ fuel ih =>
    cases bytes with
    | nil =>
      rw [List.append_nil]
      exact settles_pure () hstands
    | cons byte rest =>
      obtain ⟨world, past⟩ := state
      obtain ⟨hd, hn, ht⟩ := hstands
      have hpos := hf.writeCount world.clock
      have hcount : min (byte :: rest).length (env.writeCount world.clock) ≠ 0 := by
        rw [List.length_cons]
        omega
      have hdisk : (env.after (.write path (byte :: rest)) world).disk =
          disk.insert path (.regular (written ++ (byte :: rest).take
            (min (byte :: rest).length (env.writeCount world.clock)))) := by
        have hlookup : world.disk.lookup path = some (.regular written) := by
          rw [show world.disk = disk.insert path (.regular written) from hd, AList.lookup_insert]
        have htake : (byte :: rest).take (min (byte :: rest).length (env.writeCount world.clock)) =
            (byte :: rest).take (env.writeCount world.clock) := by
          rw [Nat.min_comm, ← List.take_take, List.take_length]
        rw [htake, Environment.after]
        simp only [Environment.effect, hlookup]
        rw [show world.disk = disk.insert path (.regular written) from hd, AList.insert_insert]
      rw [writeAll]
      refine Settles.bind ⟨_, run_callOr hf rfl, hdisk, hn, ht⟩ fun next hnext => ?_
      rw [if_neg hcount]
      have hrest := ih _ ((byte :: rest).drop
        (min (byte :: rest).length (env.writeCount world.clock))) (by
          rw [List.length_drop, List.length_cons]
          rw [List.length_cons] at hfuel hcount
          omega) hnext
      rwa [List.append_assoc, List.take_append_drop] at hrest

theorem settles_writeTemporary (hf : env.Faultless) (config : RunStoreConfig) (temporary : Path)
    (bytes : Bytes) (context : WriteContext)
    (hstands : Stands (disk.insert temporary (.regular [])) nonce trace state) :
    Settles env (writeTemporary config temporary bytes context) state ()
      (disk.insert temporary (.regular bytes)) nonce
      (trace ++ context.hits .resultBeforeFileFsync .manifestBeforeFileFsync
        ++ context.hits .resultAfterFileFsync .manifestAfterFileFsync) := by
  refine (settles_writeAll hf _ temporary _ [] bytes le_rfl hstands).bind fun next hn => ?_
  refine (settles_hitWriteFailure hf hn context _ _).bind fun next hn => ?_
  obtain ⟨_, hsync⟩ := settles_formal_callOr hf (show (Op.fsync temporary).Formal from trivial) _ hn
  refine hsync.bind fun next hn => ?_
  exact settles_hitWriteFailure hf hn context _ _

/-- A file that was not there leaves no trace when it is removed. -/
theorem erase_insert {path : Path} {node : Node} (h : disk.lookup path = none) :
    (disk.insert path node).erase path = disk := by
  have hmem : path ∉ disk := by
    rw [← AList.lookup_isSome, h]
    exact nofun
  apply AList.ext
  change List.kerase path (AList.insert path node disk).entries = _
  rw [AList.entries_insert_of_notMem hmem]
  exact List.kerase_cons_eq rfl

theorem settles_installTemporary (hf : env.Faultless) (config : RunStoreConfig)
    {temporary finalPath : Path} (bytes : Bytes) (context : WriteContext)
    (hfresh : disk.lookup temporary = none)
    (hstands : Stands (disk.insert temporary (.regular bytes)) nonce trace state) :
    Settles env (installTemporary config temporary finalPath context) state ()
      (disk.insert finalPath (.regular bytes)) nonce
      (trace ++ context.hits .resultBeforeRename .manifestBeforeRename
        ++ context.hits .resultAfterRename .manifestAfterRename) := by
  obtain ⟨_, hclose⟩ := settles_formal_callOr hf (show (Op.close temporary).Formal from trivial)
    _ hstands
  refine hclose.bind fun next hn => ?_
  refine (settles_hitWriteFailure hf hn context _ _).bind fun next hn => ?_
  obtain ⟨world, past⟩ := next
  obtain ⟨hd, hm, ht⟩ := hn
  have hlookup : world.disk.lookup temporary = some (.regular bytes) := by
    rw [show world.disk = disk.insert temporary (.regular bytes) from hd, AList.lookup_insert]
  have hrename : run env.traced (callOr (.rename temporary finalPath)
      (systemError .atomicWrite "cannot atomically install durable file"
        (finalPath.text config.runDirectory))) (world, past) =
      (.ok (), (env.after (.rename temporary finalPath) world, past)) := by
    refine run_callOr hf ?_
    simp only [Environment.answer, hlookup]
    rfl
  have hdisk : (env.after (.rename temporary finalPath) world).disk =
      disk.insert finalPath (.regular bytes) := by
    simp only [Environment.after, Environment.effect, hlookup]
    rw [show world.disk = disk.insert temporary (.regular bytes) from hd, erase_insert hfresh]
  refine Settles.bind ⟨_, hrename, hdisk, hm, ht⟩ fun next hn => ?_
  refine (settles_hitWriteFailure hf hn context _ _).bind fun next hn => ?_
  refine (settles_syncDirectory hf config _ hn).bind fun next hn => ?_
  split
  · exact settles_syncDirectory hf config _ hn
  · exact settles_pure () hn

/-- `atomic_write` after its preflight. -/
def writeFresh (config : RunStoreConfig) (finalPath : Path) (bytes : Bytes) (usage : StorageUsage)
    (context : WriteContext) : Prog StorageUsage := do
  let pid : ℕ ← callOr .getpid (filesystemError .atomicWrite)
  let nonce : ℕ ← callOr .fetchNonce (filesystemError .atomicWrite)
  let temporary : Path := ⟨.tmp, temporaryName finalPath.name pid nonce⟩
  let _ ← callOr (.create temporary) (systemError .atomicWrite
    "cannot create durable temporary file" (temporary.text config.runDirectory))
  MonadExcept.tryCatch (writeTemporary config temporary bytes context) fun e => do
    callIgnored (.close temporary)
    callIgnored (.remove temporary)
    throw e
  MonadExcept.tryCatch (installTemporary config temporary finalPath context) fun e => do
    callIgnored (.remove temporary)
    throw e
  pure ⟨usage.bytes + UInt64.ofNat bytes.length, usage.files + 1⟩

theorem writeNewFile_eq (config : RunStoreConfig) (finalPath : Path) (bytes : Bytes)
    (usage : StorageUsage) (context : WriteContext) :
    writeNewFile config finalPath bytes usage context = (do
      preflightWrite config usage bytes.length
      writeFresh config finalPath bytes usage context) := rfl

section Fresh

variable {config : RunStoreConfig} {finalPath : Path} {bytes : Bytes} {usage : StorageUsage}
  {context : WriteContext}

/-- The temporary file of the next write. -/
def Environment.temporary (env : Environment) (finalPath : Path) (nonce : ℕ) : Path :=
  ⟨.tmp, temporaryName finalPath.name env.processId nonce⟩

/-- The name of the temporary file. -/
theorem settles_getpid (hf : env.Faultless) (error : Errno → Exception)
    (hstands : Stands disk nonce trace state) :
    Settles env (callOr .getpid error) state env.processId disk nonce trace :=
  settles_callOr hf hstands (fun _ _ _ => rfl) (fun _ hd => hd) rfl

theorem settles_fetchNonce (hf : env.Faultless) (error : Errno → Exception)
    (hstands : Stands disk nonce trace state) :
    Settles env (callOr .fetchNonce error) state nonce disk (nonce + 1) trace :=
  settles_callOr hf hstands (fun _ _ hn => by rw [← hn]; rfl) (fun _ hd => hd) rfl

theorem settles_create (hf : env.Faultless) {path : Path} (error : Errno → Exception)
    (hfresh : disk.lookup path = none) (hstands : Stands disk nonce trace state) :
    Settles env (callOr (.create path) error) state () (disk.insert path (.regular [])) nonce
      trace := by
  refine settles_callOr hf hstands (fun world hd _ => ?_) (fun world hd => ?_) rfl
  · simp only [Environment.answer, hd, hfresh]
    rfl
  · simp only [Environment.effect, hd, hfresh]
    rfl

/-- A file is installed, and nothing else is left behind. -/
theorem settles_writeFresh (hf : env.Faultless) (hstands : Stands disk nonce trace state)
    (hfresh : disk.lookup (env.temporary finalPath nonce) = none) :
    Settles env (writeFresh config finalPath bytes usage context) state
      ⟨usage.bytes + UInt64.ofNat bytes.length, usage.files + 1⟩
      (disk.insert finalPath (.regular bytes)) (nonce + 1) (trace ++ context.allHits) := by
  refine (settles_getpid hf _ hstands).bind fun next hn => ?_
  refine (settles_fetchNonce hf _ hn).bind fun next hn => ?_
  refine (settles_create hf _ hfresh hn).bind fun next hn => ?_
  refine (settles_writeTemporary hf config _ bytes context hn).tryCatch.bind fun next hn => ?_
  refine (settles_installTemporary hf config bytes context hfresh hn).tryCatch.bind
    fun next hn => ?_
  refine settles_pure _ ?_
  simpa only [WriteContext.allHits, List.append_assoc] using hn

/-- An entry in the place of the temporary file is not overwritten. -/
theorem run_writeFresh_error (hf : env.Faultless) (hstands : Stands disk nonce trace state)
    (hpresent : (disk.lookup (env.temporary finalPath nonce)).isSome) :
    ∃ e final, run env.traced (writeFresh config finalPath bytes usage context) state =
      (.error e, final) ∧ Stands disk (nonce + 1) trace final := by
  obtain ⟨first, hpid, hfirst⟩ := settles_getpid hf (filesystemError .atomicWrite) hstands
  obtain ⟨⟨world, past⟩, hnonce, hd, hn, ht⟩ :=
    settles_fetchNonce hf (filesystemError .atomicWrite) hfirst
  refine ⟨systemError .atomicWrite "cannot create durable temporary file"
    ((env.temporary finalPath nonce).text config.runDirectory) .entryExists,
    (env.after (.create (env.temporary finalPath nonce)) world, past), ?_, ?_, hn, ht⟩
  · rw [writeFresh, run_bind_ok hpid, run_bind_ok hnonce]
    refine run_bind_error (run_callOr_error hf ?_) _
    change (if (world.disk.lookup (env.temporary finalPath nonce)).isSome then _ else _) = _
    rw [hd, if_pos hpresent]
  · change (if (world.disk.lookup (env.temporary finalPath nonce)).isSome then _ else _) = _
    rw [hd, if_pos hpresent]

end Fresh

/-! ## Scans -/

theorem settles_isRegularFile (hf : env.Faultless) (path : Path) (error : Errno → Exception)
    (hstands : Stands disk nonce trace state) :
    Settles env (isRegularFile path error) state (disk.file path).isSome disk nonce trace :=
  settles_callOr hf hstands (fun _ hd _ => by rw [← hd]; rfl) (fun _ hd => hd) rfl

/-- A scan is its loop over some listing of the directory. -/
theorem settles_scan {α : Type} (hf : env.Faultless) {site : ScanSite}
    {scanError : Errno → Exception} {body : α → Path → Prog (ForInStep α)} {acc value : α}
    {disk' : Disk} (hstands : Stands disk nonce trace state)
    (hloop : ∀ (listing : List Path) (next : World × Trace), listing.Perm (disk.entries site) →
      Stands disk nonce trace next →
      Settles env (scanFrom site scanError body none listing acc) next value disk' nonce trace) :
    Settles env (scan site scanError body acc) state value disk' nonce trace := by
  obtain ⟨world, past⟩ := state
  obtain ⟨rfl, rfl, rfl⟩ := hstands
  have hrun : run env.traced (call (.openScan site)) (world, past) =
      (.ok (.ok (env.order world.clock (world.disk.entries site)).val),
        (env.after (.openScan site) world, past)) := by
    rw [call, run_perform, hf.traced]
    rfl
  exact Settles.bind ⟨_, hrun, rfl, rfl, rfl⟩ fun next hn =>
    hloop _ next (env.order world.clock (world.disk.entries site)).property hn

/-- One round of a loop that goes on. -/
theorem settles_scanFrom_cons {α : Type} (hf : env.Faultless) {site : ScanSite}
    {scanError : Errno → Exception} {body : α → Path → Prog (ForInStep α)} {acc next value : α}
    {path : Path} {rest : List Path} {disk' disk'' : Disk}
    (hbody : Settles env (body acc path) state (.yield next) disk' nonce trace)
    (hrest : ∀ state, Stands disk' nonce trace state →
      Settles env (scanFrom site scanError body none rest next) state value disk'' nonce trace) :
    Settles env (scanFrom site scanError body none (path :: rest) acc) state value disk'' nonce
      trace := by
  rw [scanFrom]
  refine hbody.bind fun state hn => ?_
  obtain ⟨_, hnext⟩ := settles_formal hf (show (Op.nextEntry site).Formal from trivial) hn
  exact hnext.bind fun state hn => hrest state hn

/-- The last round of a loop. -/
theorem settles_scanFrom_done {α : Type} {site : ScanSite} {scanError : Errno → Exception}
    {body : α → Path → Prog (ForInStep α)} {acc value : α} {path : Path} {rest : List Path}
    (hbody : Settles env (body acc path) state (.done value) disk nonce trace) :
    Settles env (scanFrom site scanError body none (path :: rest) acc) state value disk nonce
      trace := by
  rw [scanFrom]
  exact hbody.bind fun state hn => settles_pure value hn

/-! ### Scans that remove files -/

/-- The files that a scan removes. -/
def Disk.dooms (disk : Disk) (doomed : Path → Bool) (path : Path) : Bool :=
  doomed path && (disk.file path).isSome

/-- The files without some of them. -/
def Disk.eraseAll (disk : Disk) (paths : List Path) : Disk :=
  paths.foldl (fun disk path => disk.erase path) disk

theorem Disk.eraseAll_perm {paths paths' : List Path} (h : paths.Perm paths') (disk : Disk) :
    disk.eraseAll paths = disk.eraseAll paths' :=
  h.foldl_eq' (fun _ _ _ _ disk => AList.erase_erase _ _ disk) disk

theorem Disk.lookup_eraseAll {paths : List Path} {path : Path} (disk : Disk) :
    (disk.eraseAll paths).lookup path = if path ∈ paths then none else disk.lookup path := by
  induction paths generalizing disk with
  | nil => rfl
  | cons first rest ih =>
    change AList.lookup path (Disk.eraseAll (disk.erase first) rest) = _
    rw [ih]
    by_cases hrest : path ∈ rest
    · rw [if_pos hrest, if_pos (List.mem_cons_of_mem _ hrest)]
    · rw [if_neg hrest]
      by_cases hfirst : path = first
      · rw [if_pos (List.mem_cons.mpr (Or.inl hfirst)), hfirst, AList.lookup_erase]
      · rw [if_neg (by simp [hfirst, hrest]), AList.lookup_erase_ne hfirst]

theorem Disk.file_erase_ne (disk : Disk) {path other : Path} (h : path ≠ other) :
    Disk.file (disk.erase other) path = disk.file path := by
  unfold Disk.file
  rw [AList.lookup_erase_ne h]

/-- The body of such a scan. -/
def Removes (env : Environment) (doomed : Path → Bool) (nonce : ℕ) (trace : Trace)
    (body : Bool → Path → Prog (ForInStep Bool)) : Prop :=
  ∀ (removed : Bool) (path : Path) (disk : Disk) (state : World × Trace),
    Stands disk nonce trace state → Settles env (body removed path) state
      (.yield (removed || disk.dooms doomed path))
      (if disk.dooms doomed path then disk.erase path else disk) nonce trace

theorem settles_removeLoop (hf : env.Faultless) {site : ScanSite} {scanError : Errno → Exception}
    {body : Bool → Path → Prog (ForInStep Bool)} {doomed : Path → Bool}
    (hbody : Removes env doomed nonce trace body) (listing : List Path) (hnodup : listing.Nodup)
    (removed : Bool) (hstands : Stands disk nonce trace state) :
    Settles env (scanFrom site scanError body none listing removed) state
      (removed || listing.any (disk.dooms doomed))
      (disk.eraseAll (listing.filter (disk.dooms doomed))) nonce trace := by
  induction listing generalizing removed disk state with
  | nil =>
    rw [List.any_nil, Bool.or_false]
    exact settles_pure removed hstands
  | cons path rest ih =>
    obtain ⟨hpath, hrest⟩ := List.nodup_cons.mp hnodup
    refine settles_scanFrom_cons hf (hbody removed path disk state hstands) fun next hn => ?_
    have hloop := ih hrest (removed || disk.dooms doomed path) hn
    rw [List.any_cons, ← Bool.or_assoc]
    cases hdooms : disk.dooms doomed path with
    | false =>
      rw [List.filter_cons_of_neg (by rw [hdooms]; exact nofun)]
      simpa only [hdooms, Bool.false_eq_true, if_false] using hloop
    | true =>
      have hsame : ∀ other ∈ rest, (Disk.dooms (disk.erase path) doomed other) =
          disk.dooms doomed other := by
        intro other hother
        unfold Disk.dooms
        rw [disk.file_erase_ne (ne_of_mem_of_not_mem hother hpath)]
      rw [List.filter_cons_of_pos hdooms]
      simp only [hdooms, if_true] at hloop
      have hany : rest.any (Disk.dooms (disk.erase path) doomed) = rest.any (disk.dooms doomed) := by
        rw [Bool.eq_iff_iff, List.any_eq_true, List.any_eq_true]
        exact exists_congr fun other => and_congr_right fun hother => by rw [hsame other hother]
      rw [List.filter_congr hsame, hany] at hloop
      exact hloop

theorem Disk.nodup_entries (disk : Disk) (site : ScanSite) : (disk.entries site).Nodup :=
  disk.keys_nodup.filter _

/-- The files after a scan that removes what it finds. -/
def Disk.purge (disk : Disk) (site : ScanSite) (doomed : Path → Bool) : Disk :=
  disk.eraseAll ((disk.entries site).filter (disk.dooms doomed))

/-- A scan that removes what it finds removes all of it, in any order. -/
theorem settles_removeScan (hf : env.Faultless) {site : ScanSite} {scanError : Errno → Exception}
    {body : Bool → Path → Prog (ForInStep Bool)} (doomed : Path → Bool)
    (hbody : Removes env doomed nonce trace body) (hstands : Stands disk nonce trace state) :
    Settles env (scan site scanError body false) state
      ((disk.entries site).any (disk.dooms doomed)) (disk.purge site doomed) nonce trace := by
  refine settles_scan hf hstands fun listing next hperm hn => ?_
  have hloop : Settles env (scanFrom site scanError body none listing false) next _ _ nonce trace :=
    settles_removeLoop hf hbody listing (hperm.nodup_iff.mpr (disk.nodup_entries site)) false hn
  rw [Bool.false_or, Disk.eraseAll_perm (hperm.filter _)] at hloop
  have hany : listing.any (disk.dooms doomed) = (disk.entries site).any (disk.dooms doomed) := by
    rw [Bool.eq_iff_iff, List.any_eq_true, List.any_eq_true]
    exact exists_congr fun path => by rw [hperm.mem_iff]
  rwa [hany] at hloop

theorem settles_removeOrThrow (hf : env.Faultless) {path : Path} (thrower : Thrower)
    (what : String) (hpresent : (disk.lookup path).isSome) (hstands : Stands disk nonce trace state) :
    Settles env (removeOrThrow path thrower what) state () (disk.erase path) nonce trace := by
  obtain ⟨world, past⟩ := state
  obtain ⟨rfl, rfl, rfl⟩ := hstands
  have hrun : run env.traced (call (.remove path)) (world, past) =
      (.ok (.ok true), (env.after (.remove path) world, past)) := by
    rw [call, run_perform, hf.traced]
    simp only [Environment.answer, hpresent]
    rfl
  exact Settles.bind ⟨_, hrun, rfl, rfl, rfl⟩ fun next hn => settles_pure () hn

/-- Leftovers of `atomic_write`. -/
def staleTemporary (path : Path) : Bool := isStaleTemporary path.name

theorem settles_removeStaleTemporaryFiles (hf : env.Faultless) (config : RunStoreConfig)
    (hstands : Stands disk nonce trace state) :
    Settles env (removeStaleTemporaryFiles config) state () (disk.purge .temporary staleTemporary)
      nonce trace := by
  refine (settles_removeScan hf staleTemporary ?_ hstands).bind fun next hn => ?_
  · intro removed path disk state hstands
    unfold Disk.dooms staleTemporary
    beta_reduce
    cases hstale : isStaleTemporary path.name with
    | false =>
      rw [Bool.false_and, Bool.or_false]
      exact settles_pure _ hstands
    | true =>
      refine (settles_isRegularFile hf path _ hstands).bind fun next hn => ?_
      cases hregular : (disk.file path).isSome with
      | false =>
        rw [Bool.and_false, Bool.or_false]
        exact settles_pure _ hn
      | true =>
        rw [Bool.true_and, Bool.or_true]
        exact (settles_removeOrThrow hf _ _ (Disk.isSome_lookup hregular) hn).bind
          fun next hn => settles_pure _ hn
  · split
    · exact settles_syncDirectory hf config _ hn
    · exact settles_pure () hn

/-- Block results that no committed result refers to. -/
def orphan (committedResults : List (Option BlockResult)) (path : Path) : Bool :=
  match parseBlockResultFilename path.name with
  | none => false
  | some named => !isReferenced committedResults named

theorem settles_removeOrphanBlockResults (hf : env.Faultless) (config : RunStoreConfig)
    (committedResults : List (Option BlockResult)) (hstands : Stands disk nonce trace state) :
    Settles env (removeOrphanBlockResults config committedResults) state ()
      (disk.purge .blockResults (orphan committedResults)) nonce trace := by
  refine (settles_removeScan hf (orphan committedResults) ?_ hstands).bind fun next hn => ?_
  · intro removed path disk state hstands
    refine (settles_isRegularFile hf path _ hstands).bind fun next hn => ?_
    unfold Disk.dooms orphan
    cases hregular : (disk.file path).isSome with
    | false =>
      rw [Bool.and_false, Bool.or_false]
      exact settles_pure _ hn
    | true =>
      rw [Bool.and_true]
      cases hparse : parseBlockResultFilename path.name with
      | none =>
        rw [Bool.or_false]
        exact settles_pure _ hn
      | some named =>
        cases hreferenced : isReferenced committedResults named with
        | true =>
          simp only [hreferenced, Bool.not_true, Bool.or_false]
          exact settles_pure _ hn
        | false =>
          simp only [hreferenced, Bool.not_false, Bool.or_true]
          exact (settles_removeOrThrow hf _ _ (Disk.isSome_lookup hregular) hn).bind
            fun next hn => settles_pure _ hn
  · split
    · exact settles_syncDirectory hf config _ hn
    · exact settles_pure () hn

/-! ### Scans that only ask -/

/-- Whether a path is payload of a run. -/
def Disk.payload (disk : Disk) (config : RunStoreConfig) (path : Path) : Bool :=
  (disk.file path).isSome && !isLockEntry config path

theorem settles_hasExistingRunPayload (hf : env.Faultless) (config : RunStoreConfig)
    (hstands : Stands disk nonce trace state) :
    Settles env (hasExistingRunPayload config) state
      ((disk.entries .payload).any (disk.payload config)) disk nonce trace := by
  refine settles_scan hf hstands fun listing next hperm hn => ?_
  have hany : (disk.entries .payload).any (disk.payload config) =
      listing.any (disk.payload config) := by
    rw [Bool.eq_iff_iff, List.any_eq_true, List.any_eq_true]
    exact exists_congr fun path => by rw [hperm.mem_iff]
  rw [hany]
  clear hperm hany
  induction listing generalizing next with
  | nil => exact settles_pure false hn
  | cons path rest ih =>
    rw [List.any_cons]
    cases hpayload : disk.payload config path with
    | true =>
      obtain ⟨hregular, hlock⟩ := Bool.and_eq_true_iff.mp hpayload
      rw [Bool.true_or]
      refine settles_scanFrom_done ((settles_isRegularFile hf path _ hn).bind fun next hn => ?_)
      rw [hregular, if_neg (by simpa using hlock)]
      exact settles_pure _ hn
    | false =>
      rw [Bool.false_or]
      refine settles_scanFrom_cons hf ((settles_isRegularFile hf path _ hn).bind
        fun next hn => ?_) fun state hn => ih state hn
      rw [if_pos]
      · exact settles_pure _ hn
      · unfold Disk.payload at hpayload
        rw [Bool.and_eq_false_iff] at hpayload
        rcases hpayload with hregular | hlock
        · rw [hregular]
          rfl
        · simpa using Or.inr hlock

theorem settles_addUsage_other (hf : env.Faultless) {path : Path} (usage : StorageUsage)
    (hfile : disk.file path = none) (hstands : Stands disk nonce trace state) :
    Settles env (addUsage usage path) state (.yield usage) disk nonce trace := by
  refine (settles_isRegularFile hf path _ hstands).bind fun next hn => ?_
  rw [hfile]
  exact settles_pure _ hn

theorem settles_addUsage (hf : env.Faultless) {path : Path} {usage : StorageUsage} {bytes : Bytes}
    (hfile : disk.file path = some bytes)
    (hbytes : usage.bytes.toNat + bytes.length ≤ maxWord.toNat) (hfiles : usage.files ≠ maxWord)
    (hstands : Stands disk nonce trace state) :
    Settles env (addUsage usage path) state
      (.yield ⟨usage.bytes + UInt64.ofNat bytes.length, usage.files + 1⟩) disk nonce trace := by
  refine (settles_isRegularFile hf path _ hstands).bind fun next hn => ?_
  rw [hfile]
  have hsize : Settles env (callOr (.entryFileSize path) fun _ => ⟨.runtimeError, .storageUsage,
      "run-store size cannot be represented safely"⟩) next bytes.length disk nonce trace :=
    settles_callOr hf hn (fun world hd _ => by rw [← Disk.size_of_file hfile, ← hd]; rfl)
      (fun _ hd => hd) rfl
  refine hsize.bind fun next hn => ?_
  rw [if_neg (by simp; omega), if_neg hfiles]
  exact settles_pure _ hn

/-- The scan of `storage_usage` succeeds when the sums can be represented. -/
theorem settles_usageLoop (hf : env.Faultless) (scanError : Errno → Exception)
    (listing : List Path) (usage : StorageUsage)
    (hbytes : usage.bytes.toNat + disk.bytesOf listing ≤ maxWord.toNat)
    (hfiles : usage.files.toNat + disk.filesOf listing ≤ maxWord.toNat)
    (hstands : Stands disk nonce trace state) :
    Settles env (scanFrom .usage scanError addUsage none listing usage) state
      ⟨usage.bytes + UInt64.ofNat (disk.bytesOf listing),
        usage.files + UInt64.ofNat (disk.filesOf listing)⟩ disk nonce trace := by
  have hword : maxWord.toNat = 2 ^ 64 - 1 := by decide
  induction listing generalizing usage state with
  | nil =>
    change Settles env (pure usage) state
      ⟨usage.bytes + UInt64.ofNat 0, usage.files + UInt64.ofNat 0⟩ disk nonce trace
    rw [show UInt64.ofNat 0 = 0 from rfl, UInt64.add_zero, UInt64.add_zero]
    exact settles_pure usage hstands
  | cons path rest ih =>
    rw [Disk.bytesOf_cons] at hbytes ⊢
    rw [Disk.filesOf_cons] at hfiles ⊢
    cases hfile : disk.file path with
    | none =>
      simp only [hfile, Option.map_none, Option.getD_none, Nat.zero_add, Option.isSome_none,
        Bool.false_eq_true, if_false, Nat.add_zero] at hbytes hfiles ⊢
      exact settles_scanFrom_cons hf (settles_addUsage_other hf usage hfile hstands)
        fun state hn => ih usage hbytes hfiles hn
    | some bytes =>
      simp only [hfile, Option.map_some, Option.getD_some, Option.isSome_some, if_true]
        at hbytes hfiles ⊢
      have hadd : (usage.bytes + UInt64.ofNat bytes.length).toNat =
          usage.bytes.toNat + bytes.length := by
        rw [UInt64.toNat_add, UInt64.toNat_ofNat', Nat.mod_eq_of_lt (a := bytes.length) (by omega),
          Nat.mod_eq_of_lt (by omega)]
      have hone : (usage.files + 1).toNat = usage.files.toNat + 1 := by
        rw [UInt64.toNat_add, show (1 : UInt64).toNat = 1 from rfl, Nat.mod_eq_of_lt (by omega)]
      have hne : usage.files ≠ maxWord := by
        intro h
        rw [h] at hfiles
        omega
      refine settles_scanFrom_cons hf (settles_addUsage hf hfile (by omega) hne hstands)
        fun state hn => ?_
      have hrest := ih ⟨usage.bytes + UInt64.ofNat bytes.length, usage.files + 1⟩
        (by rw [hadd]; omega) (by rw [hone]; omega) hn
      rw [Nat.add_comm (disk.filesOf rest), UInt64.ofNat_add, UInt64.ofNat_add, ← UInt64.add_assoc,
        ← UInt64.add_assoc]
      exact hrest

theorem settles_storageUsage (hf : env.Faultless) (hbytes : disk.bytes ≤ maxWord.toNat)
    (hfiles : disk.files ≤ maxWord.toNat) (hstands : Stands disk nonce trace state) :
    Settles env storageUsage state ⟨UInt64.ofNat disk.bytes, UInt64.ofNat disk.files⟩ disk nonce
      trace := by
  obtain ⟨world, past⟩ := state
  obtain ⟨rfl, rfl, rfl⟩ := hstands
  refine Settles.bind ⟨_, run_callOr hf rfl, rfl, rfl, rfl⟩ fun next hn => ?_
  have hperm := (env.order world.clock (world.disk.entries .usage)).property
  rw [Disk.entries_usage] at hperm ⊢
  have hb := world.disk.bytesOf_perm hperm
  have hc := world.disk.filesOf_perm hperm
  change Stands world.disk world.nonce past next at hn
  change world.disk.bytesOf world.disk.keys ≤ _ at hbytes
  change world.disk.filesOf world.disk.keys ≤ _ at hfiles
  have hloop := settles_usageLoop hf (fun e => ⟨.runtimeError, .storageUsage,
      "cannot scan run directory: " ++ e.message⟩)
    (env.order world.clock world.disk.keys).val ⟨0, 0⟩ (by
      rw [hb]
      simpa using hbytes) (by
      rw [hc]
      simpa using hfiles) hn
  rw [hb, hc, UInt64.zero_add, UInt64.zero_add] at hloop
  exact hloop

/-! ## Programs that pass no failure point -/

/-- Every operation but the failure points. -/
def Op.Silent : Op → Prop
  | .hit _ _ => False
  | _ => True

theorem Op.Silent.record {op : Op} (h : op.Silent) (trace : Trace) : op.record trace = trace := by
  cases op with
  | hit point context => exact h.elim
  | _ => rfl

theorem Op.Reads.silent {op : Op} (h : op.Reads) : op.Silent := by
  cases op with
  | hit point context => exact h.elim
  | _ => trivial

theorem run_silent {α : Type} {p : Prog α} (hp : Only Op.Silent p) :
    run env.traced p (world, trace) =
      ((run env.handle p world).1, ((run env.handle p world).2, trace)) := by
  have hview := env.traced_instruments.run p (world, trace)
  have htrace : (run env.traced p (world, trace)).2.2 = trace :=
    hp.visits (J := fun state : World × Trace => state.2 = trace)
      (fun op state hop hstate => by
        change op.record state.2 = trace
        rw [hop.record, hstate])
      rfl (visits_final _ _ _)
  rcases hrun : run env.traced p (world, trace) with ⟨outcome, after, past⟩
  rw [hrun] at hview htrace
  obtain rfl : past = trace := htrace
  change run env.handle p world = (outcome, after) at hview
  rw [hview]

section OnlyScan

variable {α : Type} {P : Op → Prop} {site : ScanSite} {scanError : Errno → Exception}
  {body : α → Path → Prog (ForInStep α)}

theorem only_scanFrom (hnext : P (.nextEntry site)) (hbody : ∀ acc path, Only P (body acc path))
    (error : Option Errno) (listing : List Path) (acc : α) :
    Only P (scanFrom site scanError body error listing acc) := by
  induction listing generalizing error acc with
  | nil => exact only_pure acc
  | cons path rest ih =>
    cases error with
    | some e => exact only_throw _
    | none =>
      refine only_bind (hbody acc path) fun step => ?_
      cases step with
      | done acc => exact only_pure acc
      | yield acc =>
        refine only_bind (only_perform hnext) fun reply => ?_
        cases reply with
        | ok _ => exact ih none acc
        | error e => exact only_pure acc

theorem only_scan (hopen : P (.openScan site)) (hnext : P (.nextEntry site))
    (hbody : ∀ acc path, Only P (body acc path)) (acc : α) :
    Only P (scan site scanError body acc) := by
  refine only_bind (only_perform hopen) fun reply => ?_
  cases reply with
  | ok entries => exact only_scanFrom hnext hbody none entries acc
  | error e => exact only_scanFrom hnext hbody (some e) [] acc

end OnlyScan

theorem only_storageUsage {P : Op → Prop} (hopen : P (.openScan .usage))
    (hnext : P (.nextEntry .usage)) (hregular : ∀ path, P (.isRegularFile path))
    (hsize : ∀ path, P (.entryFileSize path)) : Only P storageUsage := by
  refine only_bind (only_callOr hopen _) fun entries => ?_
  have hbody : ∀ usage path, Only P (addUsage usage path) := by
    intro usage path
    refine only_bind (only_callOr (hregular path) _) fun regular => ?_
    split
    · exact only_pure _
    · refine only_bind (only_callOr (hsize path) _) fun size => ?_
      split
      · exact only_throw _
      · split
        · exact only_throw _
        · exact only_pure _
  exact only_scanFrom hnext hbody none entries _

theorem only_loadLatestValidManifest {P : Op → Prop} (hopen : P (.openScan .manifests))
    (hnext : P (.nextEntry .manifests)) (hreads : ∀ op, op.Reads → P op)
    (engineConfig : EngineConfig) (config : RunStoreConfig) (metadata : RunMetadata) :
    Only P (loadLatestValidManifest engineConfig config metadata) := by
  refine only_bind (only_scan hopen hnext (fun acc path =>
    (only_addCandidate acc path).mono hreads) _) fun found => ?_
  refine only_bind ((only_tryCandidates _ _ _ _ _).mono hreads) fun loaded => ?_
  exact only_pure _

/-- The loader, as a function of the files. -/
theorem run_load (hf : env.Faultless) (engineConfig : EngineConfig) (config : RunStoreConfig)
    (metadata : RunMetadata) (hstands : Stands disk nonce trace state) :
    (run env.traced (loadLatestValidManifest engineConfig config metadata) state).1 = (do
        let (loaded, lastError) ← eval disk.reply
          (tryCandidates engineConfig config metadata disk.candidates "")
        pure ⟨loaded, !disk.candidates.isEmpty, disk.highestSequence, lastError⟩) ∧
      Stands disk nonce trace
        (run env.traced (loadLatestValidManifest engineConfig config metadata) state).2 := by
  obtain ⟨world, past⟩ := state
  obtain ⟨rfl, rfl, rfl⟩ := hstands
  have honly : Only Op.Silent (loadLatestValidManifest engineConfig config metadata) :=
    only_loadLatestValidManifest trivial trivial (fun _ => Op.Reads.silent) _ _ _
  obtain ⟨houtcome, hsame⟩ := run_loadLatestValidManifest hf.quiet engineConfig config metadata world
  rw [run_silent honly]
  exact ⟨houtcome, hsame.1, hsame.2, rfl⟩

end MonteCarlo
