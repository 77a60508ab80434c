import MonteCarlo.Store.Writing

/-!
# What a normal return promises

`atomic_write` returns at once when the final path already holds the bytes, without looking at
what has been synchronised.  A call that threw between its rename and the `fsync` of the
destination directory leaves exactly such a file.

* `Tracked.Durable` — the file is there, and neither its contents nor its entry can be lost.
* `atomicWrite_durable_iff` — when a normal return means just that.
-/

namespace MonteCarlo

open Effects Effects.Program

/-- The file holds these bytes, its contents have been synchronised, and so has its entry. -/
structure Tracked.Durable (state : Tracked) (path : Path) (bytes : Bytes) : Prop where
  file : state.world.disk.file path = some bytes
  contents : state.flushed.contents path = true
  entries : state.flushed.entries path = true

theorem Tracked.Durable.of_same {state after : Tracked} {path : Path} {bytes : Bytes}
    (h : state.Durable path bytes) (hsame : state.Same after) : after.Durable path bytes :=
  ⟨by rw [hsame.disk]; exact h.file, by rw [hsame.flushed]; exact h.contents,
    by rw [hsame.flushed]; exact h.entries⟩

section Durability

variable {env : Environment} {config : RunStoreConfig} {finalPath : Path} {bytes : Bytes}
  {usage : StorageUsage} {context : WriteContext} {before : Tracked}

/-- A file that is already there is left as it is. -/
theorem WriteOutcome.same_of_file {outcome : Except Exception StorageUsage} {after : Tracked}
    (h : WriteOutcome env config finalPath bytes usage before outcome after)
    (hfile : before.world.disk.file finalPath = some bytes) {usage' : StorageUsage}
    (hok : outcome = .ok usage') : before.Same after := by
  cases h with
  | present _ hsame => exact hsame
  | installed hfree => simp only [Disk.file, hfree, reduceCtorEq] at hfile
  | unchanged => cases hok
  | leftover => cases hok
  | unsynced => cases hok

/-- In a faultless environment a file that is already there is not written again. -/
theorem run_atomicWrite_present (hf : env.Faultless) (hsize : bytes.length < maxWord.toNat)
    (hfile : before.world.disk.file finalPath = some bytes) :
    (run env.tracked (atomicWrite config finalPath bytes usage context) before).1 = .ok usage := by
  have hword : maxWord.toNat = 2 ^ 64 - 1 := by decide
  have hlookup : (before.world.disk.lookup finalPath).isSome :=
    Disk.isSome_lookup (Option.isSome_of_eq_some hfile)
  have hlimit : (UInt64.ofNat bytes.length + 1).toNat = bytes.length + 1 := by
    rw [UInt64.toNat_add, UInt64.toNat_ofNat', show (1 : UInt64).toNat = 1 from rfl,
      Nat.mod_eq_of_lt (a := bytes.length) (by omega), Nat.mod_eq_of_lt (by omega)]
  have hexists : run env.handle (callOr (.exists_ finalPath) (filesystemError .atomicWrite))
      before.world = (.ok true, { before.world with clock := before.world.clock + 1 }) := by
    rw [callOr, run_bind, call, run_perform,
      Environment.handle_reads (show (Op.exists_ finalPath).Reads from trivial) (hf.ioError _ _)]
    simp only [Disk.reply, Environment.answer, hlookup]
    rfl
  have hread : (run env.handle (readFile config finalPath (UInt64.ofNat bytes.length + 1))
      { before.world with clock := before.world.clock + 1 }).1 = .ok bytes := by
    rw [run_reads (only_readFile _ _ _ _) fun time op _ => hf.ioError time op, eval_readFile,
      Disk.contents_eq_ok, hlimit]
    exact ⟨hfile, by omega⟩
  have hrun : (run env.handle (atomicWrite config finalPath bytes usage context) before.world).1 =
      .ok usage := by
    rw [atomicWrite, run_bind_ok hexists, if_pos rfl, run_bind_ok (Prod.ext hread rfl), if_pos rfl]
    rfl
  rwa [env.tracked_instruments.run] at hrun

/-- A normal return of `atomic_write` means that the file is durable, unless the final path
already holds the bytes and they are not. -/
theorem atomicWrite_durable_iff (config : RunStoreConfig) (finalPath : Path) (bytes : Bytes)
    (usage : StorageUsage) (context : WriteContext) (before : Tracked)
    (hsize : bytes.length < maxWord.toNat) :
    (∀ (env : Environment) (usage' : StorageUsage) (after : Tracked),
        run env.tracked (atomicWrite config finalPath bytes usage context) before =
          (.ok usage', after) → after.Durable finalPath bytes) ↔
      (before.world.disk.file finalPath = some bytes → before.Durable finalPath bytes) := by
  constructor
  · intro h hfile
    have hok : (run Environment.idle.tracked (atomicWrite config finalPath bytes usage context)
        before).1 = .ok usage := run_atomicWrite_present Environment.idle_faultless hsize hfile
    have hdurable := h Environment.idle usage _ (Prod.ext hok rfl)
    have hsame := (atomicWrite_outcome rfl).same_of_file hfile hok
    exact ⟨hfile, by rw [← hsame.flushed]; exact hdurable.contents,
      by rw [← hsame.flushed]; exact hdurable.entries⟩
  · intro h env usage' after hrun
    cases atomicWrite_outcome hrun with
    | present hfile hsame => exact (h hfile).of_same hsame
    | installed hfree hfits hdisk hcontents hentries hfailures =>
      refine ⟨?_, hcontents, hentries⟩
      rw [hdisk]
      exact Disk.file_insert

/-- A machine with an empty run directory. -/
def Tracked.empty : Tracked := ⟨⟨∅, 0, 0⟩, ⟨fun _ => false, fun _ => false⟩, 0⟩

/-- The first write into an empty directory returns and is durable, and so is every later write of
the same bytes that returns. -/
theorem atomicWrite_durable_iff_first_write :
    let write := atomicWrite (.defaults "run") (manifestPathFor 1) [1] ⟨0, 0⟩ .metadata
    ∃ usage after, run Environment.idle.tracked write .empty = (.ok usage, after) ∧
      after.Durable (manifestPathFor 1) [1] ∧
      ∀ (env : Environment) (usage' : StorageUsage) (last : Tracked),
        run env.tracked write after = (.ok usage', last) → last.Durable (manifestPathFor 1) [1] := by
  intro write
  have hok : (run Environment.idle.tracked write .empty).1.isOk = true := by decide
  rcases hrun : run Environment.idle.tracked write .empty with ⟨e | usage, after⟩
  · rw [hrun] at hok
    cases hok
  · have hdurable := (atomicWrite_durable_iff (.defaults "run") (manifestPathFor 1) [1] ⟨0, 0⟩
      .metadata .empty (by decide)).mpr (fun hfile => by cases hfile) Environment.idle usage after
      hrun
    exact ⟨usage, after, rfl, hdurable, (atomicWrite_durable_iff (.defaults "run")
      (manifestPathFor 1) [1] ⟨0, 0⟩ .metadata after (by decide)).mpr fun _ => hdurable⟩

/-- An environment in which the manifest directory cannot be synchronised. -/
def Environment.brokenSync : Environment :=
  { Environment.idle with
    ioError := fun _ op => if op = .fsyncDirectory .manifests then some .deviceError else none }

/-- A first call throws after its rename; the second one returns, and nothing has synchronised
the entry. -/
theorem atomicWrite_retry_not_durable :
    let write := atomicWrite (.defaults "run") (manifestPathFor 1) [1] ⟨0, 0⟩ .metadata
    let first := run Environment.brokenSync.tracked write .empty
    first.1.isOk = false ∧
      ∃ after, run Environment.brokenSync.tracked write first.2 = (.ok ⟨0, 0⟩, after) ∧
        ¬ after.Durable (manifestPathFor 1) [1] := by
  intro write first
  have hfirst : first.1.isOk = false := by decide
  have hsecond : (run Environment.brokenSync.tracked write first.2).1 = .ok ⟨0, 0⟩ := by
    decide
  have hentry : (run Environment.brokenSync.tracked write first.2).2.flushed.entries
      (manifestPathFor 1) = false := by decide
  refine ⟨hfirst, (run Environment.brokenSync.tracked write first.2).2, Prod.ext hsecond rfl,
    fun hdurable => ?_⟩
  exact Bool.false_ne_true (hentry.symm.trans hdurable.entries)

end Durability

end MonteCarlo
