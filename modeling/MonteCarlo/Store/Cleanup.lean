import MonteCarlo.Store.Writing

/-!
# Orphan block results

`remove_orphan_block_results` deletes files, so it has to recognise exactly the names that the
store itself gives.  Here it runs in an arbitrary environment.

* `CommittedName` — the name of the file of a committed result.
* `Disk.Orphan` — the files that are to go.
* `Cleaned` — the invariant of the scan: whatever is gone was an orphan.
* `orphan_cleanup_exact` — names are unambiguous, and the orphans are what is removed.
-/

namespace MonteCarlo

open Effects Effects.Program

/-! ## Names -/

/-- A name that `block_path_for` gives. -/
def CanonicalName (name : FileName) : Prop := ∃ block, name = (blockPathFor block).name

/-- The name of the file of a committed result.  The vector is indexed by block id. -/
def CommittedName (committed : List (Option BlockResult)) (name : FileName) : Prop :=
  ∃ block result, committed[block.blockId.toNat]? = some (some result) ∧
    result.block.runIncarnation = block.runIncarnation ∧
    result.block.leaseEpoch = block.leaseEpoch ∧ name = (blockPathFor block).name

/-- A regular file with the name of a block result that is not committed. -/
def Disk.Orphan (disk : Disk) (committed : List (Option BlockResult)) (path : Path) : Prop :=
  path.dir = .blockResults ∧ (disk.file path).isSome ∧ CanonicalName path.name ∧
    ¬ CommittedName committed path.name

/-- The identity that a name records is the whole identity of the attempt. -/
theorem committedName_blockName {committed : List (Option BlockResult)} {block : ScenarioBlock} :
    CommittedName committed (blockName block) ↔ isReferenced committed block = true := by
  unfold isReferenced
  constructor
  · rintro ⟨other, result, hresult, hincarnation, hepoch, hname⟩
    have hsame : block.attempt = other.attempt := blockName_injective hname
    simp only [ScenarioBlock.attempt, ScenarioBlock.mk.injEq] at hsame
    obtain ⟨hid, -, -, hinc, hep⟩ := hsame
    rw [hid, hresult]
    simp [hincarnation, hepoch, hinc, hep]
  · intro h
    split at h
    · cases h
    · rename_i result hresult
      simp only [Bool.and_eq_true, decide_eq_true_eq] at h
      refine ⟨block, result, ?_, h.1, h.2, rfl⟩
      rw [Option.join_eq_some_iff] at hresult
      exact hresult

/-! ## The scan -/

/-- The directory is listed to its end. -/
def Environment.ListsAll (env : Environment) (site : ScanSite) : Prop :=
  ∀ time, env.ioError time (.openScan site) = none ∧ env.ioError time (.nextEntry site) = none

/-- Whatever is gone was an orphan. -/
def Cleaned (committed : List (Option BlockResult)) (world now : World) : Prop :=
  ∀ path, now.disk.lookup path = world.disk.lookup path ∨
    world.disk.Orphan committed path ∧ now.disk.lookup path = none

/-- Nothing has come back. -/
def Shrinks (before after : World) : Prop :=
  ∀ path, before.disk.lookup path = none → after.disk.lookup path = none

section Scan

variable {env : Environment} {committed : List (Option BlockResult)} {world : World}

theorem Cleaned.of_disk {now next : World} (h : Cleaned committed world now)
    (hdisk : next.disk = now.disk) : Cleaned committed world next := by
  unfold Cleaned
  rwa [hdisk]

/-- A regular file is still the one it was. -/
theorem Cleaned.file {now : World} (h : Cleaned committed world now) {path : Path}
    (hfile : (now.disk.file path).isSome) : (world.disk.file path).isSome := by
  rcases h path with hsame | ⟨-, hgone⟩
  · unfold Disk.file at hfile ⊢
    rwa [hsame] at hfile
  · rw [Disk.file, hgone] at hfile
    cases hfile

/-- Removing an orphan. -/
theorem Cleaned.erase {now next : World} (h : Cleaned committed world now) {path : Path}
    (horphan : world.disk.Orphan committed path) (hdisk : next.disk = now.disk.erase path) :
    Cleaned committed world next := by
  intro other
  rw [hdisk]
  by_cases hother : other = path
  · rw [hother, AList.lookup_erase]
    exact Or.inr ⟨horphan, rfl⟩
  · rw [AList.lookup_erase_ne hother]
    exact h other

/-- `remove`, or an exception. -/
theorem wp_removeOrThrow {path : Path} {thrower : Thrower} {what : String} {now : World}
    (hnow : Cleaned committed world now) (horphan : world.disk.Orphan committed path) :
    Wp env.handle (Cleaned committed world) (fun outcome after => Shrinks now after ∧
        ∀ a, outcome = .ok a → after.disk.lookup path = none)
      (removeOrThrow path thrower what) now := by
  have hafter : Cleaned committed world (env.handle (.remove path) now).2 ∧
      Shrinks now (env.handle (.remove path) now).2 ∧
      ∀ answer, (env.handle (.remove path) now).1 = .ok answer →
        (env.handle (.remove path) now).2.disk.lookup path = none := by
    unfold Environment.handle
    split
    · exact ⟨hnow.of_disk rfl, fun _ h => h, nofun⟩
    · refine ⟨hnow.erase horphan rfl, fun other hother => ?_, fun _ _ => AList.lookup_erase _ _⟩
      by_cases hpath : other = path
      · rw [hpath]
        exact AList.lookup_erase _ _
      · exact (AList.lookup_erase_ne hpath).trans hother
  obtain ⟨hcleaned, hshrinks, hgone⟩ := hafter
  refine wp_bind (wp_perform hnow hcleaned ?_)
  cases hreply : (env.handle (.remove path) now).1 with
  | error e => exact wp_throw hcleaned ⟨hshrinks, nofun⟩
  | ok answer =>
    cases answer with
    | false => exact wp_throw hcleaned ⟨hshrinks, nofun⟩
    | true => exact wp_pure hcleaned ⟨hshrinks, fun _ _ => hgone true hreply⟩

/-- The loop body of `remove_orphan_block_results`. -/
def removeOrphan (committed : List (Option BlockResult)) (removed : Bool) (path : Path) :
    Prog (ForInStep Bool) := do
  let regular ← isRegularFile path fun e =>
    ⟨.runtimeError, .removeOrphanBlockResults, "cannot inspect block-result file: " ++ e.message⟩
  if !regular then pure (.yield removed)
  else
    match parseBlockResultFilename path.name with
    | none => pure (.yield removed)
    | some named =>
      if isReferenced committed named then pure (.yield removed)
      else do
        removeOrThrow path .removeOrphanBlockResults "cannot remove orphan block result: "
        pure (.yield true)

theorem removeOrphanBlockResults_eq (config : RunStoreConfig)
    (committed : List (Option BlockResult)) :
    removeOrphanBlockResults config committed = (do
      let removed ← scan .blockResults
        (fun e => ⟨.runtimeError, .removeOrphanBlockResults,
          "cannot scan block-result directory: " ++ e.message⟩) (removeOrphan committed) false
      if removed then syncDirectory config .blockResults else pure ()) := rfl

/-- One entry: only an orphan is removed, and an orphan is not left behind. -/
theorem wp_removeOrphan {path : Path} {now : World} (hdir : path.dir = .blockResults)
    (removed : Bool) (hnow : Cleaned committed world now) :
    Wp env.handle (Cleaned committed world) (fun outcome after => Shrinks now after ∧
        ∀ step, outcome = .ok step → (∃ next, step = .yield next) ∧
          (world.disk.Orphan committed path → after.disk.lookup path = none))
      (removeOrphan committed removed path) now := by
  have hdisk : (env.handle (.isRegularFile path) now).2.disk = now.disk := env.disk_handle now rfl
  have hasked := hnow.of_disk hdisk
  have hshrinks : Shrinks now (env.handle (.isRegularFile path) now).2 := by
    unfold Shrinks
    rw [hdisk]
    exact fun _ h => h
  -- an orphan that is not regular any more has been removed before
  have hgone : ∀ {after : World}, after.disk = now.disk → (now.disk.file path).isSome = false →
      world.disk.Orphan committed path → after.disk.lookup path = none := by
    intro after hsame hregular horphan
    rw [hsame]
    rcases hnow path with h | h
    · have hfile := horphan.2.1
      unfold Disk.file at hfile hregular
      rw [h] at hregular
      rw [hregular] at hfile
      cases hfile
    · exact h.2
  refine wp_bind (wp_callOr hnow hasked (fun regular hreply => ?_)
    fun e _ => ⟨hshrinks, nofun⟩)
  have hregular : regular = (now.disk.file path).isSome := by
    unfold Environment.handle at hreply
    split at hreply
    · cases hreply
    · exact (Except.ok.inj hreply).symm
  cases regular with
  | false =>
    exact wp_pure hasked ⟨hshrinks, fun step hstep => ⟨⟨removed, (Except.ok.inj hstep).symm⟩,
      hgone hdisk hregular.symm⟩⟩
  | true =>
    have hkept : ¬ world.disk.Orphan committed path →
        Wp env.handle (Cleaned committed world) (fun outcome after => Shrinks now after ∧
            ∀ step, outcome = .ok step → (∃ next, step = .yield next) ∧
              (world.disk.Orphan committed path → after.disk.lookup path = none))
          (pure (.yield removed) : Prog (ForInStep Bool)) (env.handle (.isRegularFile path) now).2 :=
      fun hnot =>
      wp_pure hasked ⟨hshrinks, fun step hstep => ⟨⟨removed, (Except.ok.inj hstep).symm⟩,
        fun horphan => absurd horphan hnot⟩⟩
    dsimp only
    rw [if_neg (by decide)]
    cases hparse : parseBlockResultFilename path.name with
    | none =>
      refine hkept fun horphan => ?_
      obtain ⟨-, -, ⟨block, hname⟩, -⟩ := horphan
      have hblock : parseBlockResultFilename path.name = some block.attempt :=
        parseBlockResultFilename_iff.mpr ⟨hname, rfl⟩
      rw [hparse] at hblock
      cases hblock
    | some named =>
      obtain ⟨hname, -⟩ := parseBlockResultFilename_iff.mp hparse
      have hcommitted : CommittedName committed path.name ↔ isReferenced committed named = true := by
        rw [hname]
        exact committedName_blockName
      dsimp only
      split
      · rename_i hreferenced
        exact hkept fun horphan => horphan.2.2.2 (hcommitted.mpr hreferenced)
      · rename_i hreferenced
        have horphan : world.disk.Orphan committed path :=
          ⟨hdir, hnow.file hregular.symm, ⟨named, hname⟩, fun h => hreferenced (hcommitted.mp h)⟩
        refine wp_bind ((wp_removeOrThrow hasked horphan).mono (fun _ h => h)
          fun outcome after hcleaned hpost => ?_)
        have hshrinks' : Shrinks now after := fun other hother => hpost.1 other (hshrinks other hother)
        cases outcome with
        | error e => exact ⟨hshrinks', nofun⟩
        | ok _ => exact wp_pure hcleaned ⟨hshrinks', fun step hstep =>
            ⟨⟨true, (Except.ok.inj hstep).symm⟩, fun _ => hpost.2 () rfl⟩⟩

/-- The loop. -/
theorem wp_removeOrphans {scanError : Errno → Exception} (listing : List Path)
    (hlisting : ∀ path ∈ listing, path.dir = .blockResults) (removed : Bool) {now : World}
    (hnow : Cleaned committed world now) :
    Wp env.handle (Cleaned committed world) (fun outcome after => Shrinks now after ∧
        ∀ a, outcome = .ok a → env.ListsAll .blockResults →
          ∀ path ∈ listing, world.disk.Orphan committed path → after.disk.lookup path = none)
      (scanFrom .blockResults scanError (removeOrphan committed) none listing removed) now := by
  induction listing generalizing removed now with
  | nil => exact wp_pure hnow ⟨fun _ h => h, fun _ _ _ _ hother => absurd hother List.not_mem_nil⟩
  | cons path rest ih =>
    rw [scanFrom]
    refine wp_bind ((wp_removeOrphan (hlisting path List.mem_cons_self) removed hnow).mono
      (fun _ h => h) fun outcome visited hvisited hpost => ?_)
    obtain ⟨hshrinks, hstep⟩ := hpost
    cases outcome with
    | error e => exact ⟨hshrinks, (by intro _ h; cases h)⟩
    | ok step =>
      obtain ⟨⟨next, rfl⟩, hgone⟩ := hstep step rfl
      have hdisk : (env.handle (.nextEntry .blockResults) visited).2.disk = visited.disk :=
        env.disk_handle visited rfl
      have hadvanced := hvisited.of_disk hdisk
      have hshrinks' : Shrinks now (env.handle (.nextEntry .blockResults) visited).2 := by
        intro other hother
        rw [hdisk]
        exact hshrinks other hother
      refine wp_bind (wp_perform hvisited hadvanced ?_)
      cases hreply : (env.handle (.nextEntry .blockResults) visited).1 with
      | error e =>
        refine wp_pure hadvanced ⟨hshrinks', fun _ _ hall => ?_⟩
        -- the listing ends here, although there may be more entries
        simp only [Environment.handle, (hall visited.clock).2] at hreply
        cases hreply
      | ok _ =>
        refine (ih (fun other hother => hlisting other (List.mem_cons_of_mem _ hother)) next
          hadvanced).mono (fun _ h => h) fun outcome after _ hpost => ⟨?_, ?_⟩
        · exact fun other hother => hpost.1 other (hshrinks' other hother)
        · intro a ha hall other hother horphan
          rcases List.mem_cons.mp hother with rfl | hother
          · refine hpost.1 other ?_
            rw [hdisk]
            exact hgone horphan
          · exact hpost.2 a ha hall other hother horphan

/-- The whole function. -/
theorem wp_removeOrphanBlockResults (config : RunStoreConfig) :
    Wp env.handle (Cleaned committed world) (fun outcome after =>
        ∀ a, outcome = .ok a → env.ListsAll .blockResults →
          ∀ path, world.disk.Orphan committed path → after.disk.lookup path = none)
      (removeOrphanBlockResults config committed) world := by
  have hstart : Cleaned committed world world := fun _ => Or.inl rfl
  have hdisk : (env.handle (.openScan .blockResults) world).2.disk = world.disk :=
    env.disk_handle world rfl
  have hopened := hstart.of_disk hdisk
  rw [removeOrphanBlockResults_eq]
  refine wp_bind (Wp.mono (Q := fun outcome after => ∀ a, outcome = .ok a →
    env.ListsAll .blockResults → ∀ path, world.disk.Orphan committed path →
      after.disk.lookup path = none) (wp_bind (wp_perform hstart hopened ?_)) (fun _ h => h)
    fun outcome scanned hscanned hgone => ?_)
  · cases hreply : (env.handle (.openScan .blockResults) world).1 with
    | error e =>
      refine wp_pure hopened fun _ _ hall => ?_
      simp only [Environment.handle, (hall world.clock).1] at hreply
      cases hreply
    | ok listing =>
      have hperm : listing.Perm (world.disk.entries .blockResults) := by
        unfold Environment.handle at hreply
        split at hreply
        · cases hreply
        · rw [← Except.ok.inj hreply]
          exact (env.order _ _).property
      have hlisting : ∀ path ∈ listing, path.dir = .blockResults := fun path hpath =>
        of_decide_eq_true (Disk.mem_entries.mp (hperm.mem_iff.mp hpath)).2
      refine (wp_removeOrphans listing hlisting false hopened).mono (fun _ h => h)
        fun outcome after _ hpost a ha hall path horphan => ?_
      refine hpost.2 a ha hall path (hperm.mem_iff.mpr (Disk.mem_entries.mpr ⟨?_, ?_⟩)) horphan
      · exact Disk.isSome_lookup horphan.2.1
      · exact decide_eq_true horphan.1
  · cases outcome with
    | error e =>
      intro a ha
      cases ha
    | ok removed =>
      dsimp only
      split
      · have hsync : Wp env.handle (fun now => now.disk = scanned.disk)
            (fun _ now => now.disk = scanned.disk) (syncDirectory config .blockResults) scanned :=
          (only_syncDirectory config _).wp
            (fun op now hop hnow => (hop.disk env now).trans hnow) rfl
        refine hsync.mono (fun now hnow => hscanned.of_disk hnow)
          fun outcome now hnow _ a _ hall path horphan => ?_
        rw [hnow]
        exact hgone removed rfl hall path horphan
      · exact wp_pure hscanned fun _ _ => hgone removed rfl

end Scan

/-! ## The result -/

/-- Every printed name parses to what was printed, every name that parses is the printed one, and
the clean-up removes no other file than the orphans: at no moment, whatever fails, and all of
them when the directory is listed to its end and the function returns, as it does when nothing
fails.  Only a regular file is an orphan; an entry of another kind stays, whatever its name. -/
theorem orphan_cleanup_exact (config : RunStoreConfig) (committed : List (Option BlockResult)) :
    (∀ sequence, parseManifestSequence (manifestPathFor sequence).name = some sequence) ∧
    (∀ name sequence, parseManifestSequence name = some sequence →
      name = (manifestPathFor sequence).name) ∧
    (∀ block, parseBlockResultFilename (blockPathFor block).name =
      some ⟨block.blockId, 0, 0, block.runIncarnation, block.leaseEpoch⟩) ∧
    (∀ name block, parseBlockResultFilename name = some block →
      name = (blockPathFor block).name) ∧
    ∀ (env : Environment) (world : World),
      (∀ now, Visits env.handle (removeOrphanBlockResults config committed) world now →
        ∀ path, ¬ world.disk.Orphan committed path →
          now.disk.lookup path = world.disk.lookup path) ∧
      (∀ after, env.ListsAll .blockResults →
        run env.handle (removeOrphanBlockResults config committed) world = (.ok (), after) →
        ∀ path, world.disk.Orphan committed path → after.disk.lookup path = none) ∧
      (env.Faultless → env.ListsAll .blockResults ∧
        (run env.handle (removeOrphanBlockResults config committed) world).1 = .ok ()) := by
  refine ⟨fun sequence => parseManifestSequence_iff.mpr rfl,
    fun name sequence => parseManifestSequence_iff.mp,
    fun block => parseBlockResultFilename_iff.mpr ⟨rfl, rfl⟩,
    fun name block h => (parseBlockResultFilename_iff.mp h).1, fun env world => ?_⟩
  have hwp : Wp env.handle (Cleaned committed world) _ (removeOrphanBlockResults config committed)
    world := wp_removeOrphanBlockResults config
  refine ⟨fun now hnow path hpath => ?_, fun after hall hrun => ?_, fun hf => ⟨?_, ?_⟩⟩
  · rcases hwp.visits hnow path with hsame | ⟨horphan, -⟩
    · exact hsame
    · exact absurd horphan hpath
  · have hpost := hwp.post
    rw [hrun] at hpost
    exact hpost () rfl hall
  · exact fun time => ⟨hf.ioError _ _, hf.ioError _ _⟩
  · obtain ⟨final, hrun, -⟩ := settles_removeOrphanBlockResults hf config committed
      (show Stands world.disk world.nonce [] (world, []) from ⟨rfl, rfl, rfl⟩)
    have hplain := env.traced_instruments.run (removeOrphanBlockResults config committed)
      (world, [])
    rw [hrun] at hplain
    exact congrArg Prod.fst hplain

/-- A leftover result of block 3 is removed, since nothing is committed. -/
theorem orphan_cleanup_exact_one_orphan :
    ∀ after, run Environment.idle.handle (removeOrphanBlockResults (.defaults "run") [])
        ⟨AList.singleton (blockPathFor ⟨3, 0, 0, 1, 1⟩) (.regular []), 0, 0⟩ = (.ok (), after) →
      after.disk.lookup (blockPathFor ⟨3, 0, 0, 1, 1⟩) = none := by
  intro after hrun
  obtain ⟨-, -, -, -, h⟩ := orphan_cleanup_exact (.defaults "run") []
  obtain ⟨-, hexact, hfaultless⟩ := h Environment.idle
    ⟨AList.singleton (blockPathFor ⟨3, 0, 0, 1, 1⟩) (.regular []), 0, 0⟩
  refine hexact after (hfaultless Environment.idle_faultless).1 hrun _ ⟨rfl, ?_, ⟨_, rfl⟩, ?_⟩
  · decide
  · rintro ⟨block, result, hresult, -⟩
    simp at hresult

end MonteCarlo
