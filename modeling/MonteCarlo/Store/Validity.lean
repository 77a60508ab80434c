import MonteCarlo.Store.Recoverable

/-!
# Manifests that stay valid

A manifest is valid as long as its file and those of the results that it names are in place.
Installing a file and removing orphans keep the manifest that was recovered from, and neither makes
another manifest valid.

* `Qualifies.of_stored` — the files that a valid manifest rests on.
* `Retains` — nothing was installed, and only block results have gone.
-/

namespace MonteCarlo

open Effects Effects.Program

section Validity

variable {disk next : Disk} {config : RunStoreConfig} {metadata : RunMetadata}
  {canonical : List ScenarioBlock} {sequence : UInt64} {snapshot : LoadedManifest}

/-- A manifest stays valid while its file and those of its results stay. -/
theorem Qualifies.of_stored (h : Qualifies disk config metadata canonical sequence snapshot)
    (hpositioned : Positioned canonical) (hcount : canonical.length = metadata.blockCount.toNat)
    (hfile : next.file (manifestPathFor sequence) = disk.file (manifestPathFor sequence))
    (hstored : ∀ (i : ℕ) result, snapshot.results[i]? = some (some result) →
      Stored next metadata result) :
    Qualifies next config metadata canonical sequence snapshot := by
  obtain ⟨hsound, hentries⟩ := h.toLoadable.sound hpositioned hcount
  refine ⟨⟨?_, h.sequence_eq, h.identity, h.results.length_eq, fun entry hentry => ?_,
    h.results.missing⟩, h.reduction⟩
  · rw [hfile]
    exact h.file
  · obtain ⟨i, result, hi, rfl⟩ := (hentries entry).mp hentry
    obtain ⟨rfl, hvalid⟩ := hsound.valid i result hi
    obtain ⟨other, hother, bytes, record, hbytes, hrecord⟩ := h.results.committed _ hentry
    refine ⟨other, hother, bytes, record, ?_, hrecord⟩
    have hpath := hvalid.entryPath
    change disk.file (entryPath (canonical.getD result.block.blockId.toNat .default) _) = _ at hbytes
    change next.file (entryPath (canonical.getD result.block.blockId.toNat .default) _) = _
    rw [hpath] at hbytes ⊢
    have hbefore := h.toLoadable.stored hpositioned hcount hi
    rw [Stored, hbytes] at hbefore
    rw [hstored _ result hi, hbefore]

/-- Installing a file keeps a manifest valid. -/
theorem Qualifies.installs (h : Qualifies disk config metadata canonical sequence snapshot)
    (hpositioned : Positioned canonical) (hcount : canonical.length = metadata.blockCount.toNat)
    {path : Path} {bytes : Bytes} (hinstalls : Installs disk path bytes next) :
    Qualifies next config metadata canonical sequence snapshot := by
  refine h.of_stored hpositioned hcount ?_ fun i result hi =>
    (h.toLoadable.stored hpositioned hcount hi).installs hinstalls
  obtain ⟨found, hfound, -⟩ := h.file
  rw [hfound, hinstalls.keeps hfound]

/-- Removing the files of other results keeps a manifest valid. -/
theorem Qualifies.cleans (h : Qualifies disk config metadata canonical sequence snapshot)
    (hpositioned : Positioned canonical) (hcount : canonical.length = metadata.blockCount.toNat)
    (hcleans : disk.Cleans snapshot.results next) :
    Qualifies next config metadata canonical sequence snapshot :=
  h.of_stored hpositioned hcount (hcleans.file (lasting_manifestPathFor _) nofun) fun _ _ hi =>
    hcleans.stored (h.toLoadable.sound hpositioned hcount).1 hi
      (h.toLoadable.stored hpositioned hcount hi)

/-! ## Directories in which nothing is installed -/

/-- A lasting file is as it was, or it was a block result and is gone. -/
def Retains (disk next : Disk) : Prop :=
  ∀ path, path.Lasting → next.lookup path = disk.lookup path ∨
    path.dir = .blockResults ∧ next.lookup path = none

theorem Retains.refl (disk : Disk) : Retains disk disk := fun _ _ => Or.inl rfl

theorem Retains.trans {last : Disk} (h : Retains disk next) (h' : Retains next last) :
    Retains disk last := by
  intro path hpath
  rcases h' path hpath with hsame | hgone
  · rw [hsame]
    exact h path hpath
  · exact Or.inr hgone

theorem Disk.Same.retains (h : disk.Same next) : Retains disk next :=
  fun path hpath => Or.inl (h path hpath)

theorem Disk.Cleans.retains {committed : List (Option BlockResult)}
    (h : disk.Cleans committed next) : Retains disk next :=
  fun path hpath => (h path hpath).imp id fun hgone => ⟨hgone.1.1, hgone.2⟩

/-- What is there was there before. -/
theorem Retains.file (h : Retains disk next) {path : Path} {bytes : Bytes} (hpath : path.Lasting)
    (hfile : next.file path = some bytes) : disk.file path = some bytes := by
  rcases h path hpath with hsame | ⟨-, hnone⟩
  · rw [Disk.file, ← hsame]
    exact hfile
  · rw [Disk.file, hnone] at hfile
    cases hfile

/-- No manifest becomes valid. -/
theorem Qualifies.of_retains (hretains : Retains disk next)
    (h : Qualifies next config metadata canonical sequence snapshot) :
    Qualifies disk config metadata canonical sequence snapshot := by
  refine ⟨⟨?_, h.sequence_eq, h.identity, h.results.length_eq, fun entry hentry => ?_,
    h.results.missing⟩, h.reduction⟩
  · obtain ⟨bytes, hfile, hrest⟩ := h.file
    exact ⟨bytes, hretains.file (lasting_manifestPathFor _) hfile, hrest⟩
  · obtain ⟨result, hresult, bytes, record, hfile, hrecord⟩ := h.results.committed entry hentry
    exact ⟨result, hresult, bytes, record, hretains.file (lasting_entryPath _ _) hfile, hrecord⟩

end Validity

end MonteCarlo
