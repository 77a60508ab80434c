import MonteCarlo.Store.Budget

/-!
# The chain of manifests

In a directory that nobody has damaged, every manifest is valid, and each one has the results of
those before it.

* `Sealed` — a manifest that everyone with enough room reads back.
* `Consistent` — every manifest is sealed, later ones extend earlier ones, and only the last one can
  say that the run has ended.
* `Follows` — a consistent directory in which every sealed manifest of another one is still sealed.
-/

namespace MonteCarlo

open Effects Effects.Program

/-! ## Sealed manifests -/

/-- The result of a block stays. -/
def Extends (results later : List (Option BlockResult)) : Prop :=
  ∀ (i : ℕ) result, results[i]? = some (some result) → later[i]? = some (some result)

theorem Extends.refl (results : List (Option BlockResult)) : Extends results results :=
  fun _ _ h => h

theorem Extends.trans {first second third : List (Option BlockResult)} (h : Extends first second)
    (h' : Extends second third) : Extends first third :=
  fun i result hi => h' i result (h i result hi)

/-- A manifest that everyone whose limit admits the manifests of the run reads back. -/
structure Sealed (expected : RunMetadata) (canonical : List ScenarioBlock) (disk : Disk)
    (sequence : UInt64) (snapshot : LoadedManifest) : Prop where
  valid : ∃ config : RunStoreConfig, config.Fits expected.blockCount ∧
    Qualifies disk config expected canonical sequence snapshot
  size : ∀ bytes ∈ disk.file (manifestPathFor sequence),
    bytes.length ≤ 512 + 64 * expected.blockCount.toNat

section Sealed

variable {expected : RunMetadata} {canonical : List ScenarioBlock} {disk next : Disk}
  {sequence : UInt64} {snapshot other : LoadedManifest} {config config' : RunStoreConfig}

/-- What is decoded does not depend on the limit. -/
theorem decodeManifest_limit {bytes : Bytes} {limit limit' : UInt64} {manifest : RunManifest}
    (h : decodeManifest bytes limit = .ok manifest) (hmin : 256 ≤ limit'.toNat)
    (hmax : bytes.length ≤ limit'.toNat) : decodeManifest bytes limit' = .ok manifest := by
  obtain ⟨hm, failure, hfailure, rfl⟩ := decodeManifest_eq_ok h
  exact decodeManifest_manifestPayload hm hfailure hmin hmax

theorem limit_of_decodeManifest {bytes : Bytes} {limit : UInt64} {manifest : RunManifest}
    (h : decodeManifest bytes limit = .ok manifest) : 256 ≤ limit.toNat := by
  obtain ⟨⟨⟩, hmin, -⟩ := Result.bind_eq_ok.mp h
  rw [throwIf_eq_ok, decide_eq_false_iff_not, UInt64.not_lt, UInt64.le_iff_toNat_le] at hmin
  exact hmin

/-- A valid manifest is valid for everyone whose limit admits it. -/
theorem Qualifies.of_limit (h : Qualifies disk config expected canonical sequence snapshot)
    (hmin : 256 ≤ config'.maxManifestBytes.toNat)
    (hmax : ∀ bytes ∈ disk.file (manifestPathFor sequence),
      bytes.length ≤ config'.maxManifestBytes.toNat) :
    Qualifies disk config' expected canonical sequence snapshot := by
  obtain ⟨bytes, hfile, -, hdecode⟩ := h.file
  have hlimit := hmax bytes hfile
  exact ⟨⟨⟨bytes, hfile, hlimit, decodeManifest_limit hdecode hmin hlimit⟩, h.sequence_eq,
    h.identity, h.results⟩, h.reduction⟩

/-- What is read back does not depend on the limit. -/
theorem Qualifies.unique (h : Qualifies disk config expected canonical sequence snapshot)
    (h' : Qualifies disk config' expected canonical sequence other) : snapshot = other := by
  obtain ⟨bytes, hfile, hlimit, hdecode⟩ := h'.file
  have hmax : ∀ found ∈ disk.file (manifestPathFor sequence),
      found.length ≤ config'.maxManifestBytes.toNat := by
    intro found hfound
    rw [Option.mem_def, hfile] at hfound
    rw [← Option.some.inj hfound]
    exact hlimit
  exact (h.of_limit (limit_of_decodeManifest hdecode) hmax).toLoadable.unique h'.toLoadable

theorem Sealed.qualifies (h : Sealed expected canonical disk sequence snapshot)
    (hfits : config.Fits expected.blockCount) :
    Qualifies disk config expected canonical sequence snapshot := by
  obtain ⟨config', -, hvalid⟩ := h.valid
  unfold RunStoreConfig.Fits at hfits
  refine hvalid.of_limit (by omega) fun bytes hbytes => ?_
  have hsize := h.size bytes hbytes
  omega

theorem Sealed.unique (h : Sealed expected canonical disk sequence snapshot)
    (h' : Qualifies disk config expected canonical sequence other) : snapshot = other := by
  obtain ⟨config', -, hvalid⟩ := h.valid
  exact hvalid.unique h'

theorem Sealed.isSome_file (h : Sealed expected canonical disk sequence snapshot) :
    (disk.file (manifestPathFor sequence)).isSome := by
  obtain ⟨config', -, hvalid⟩ := h.valid
  exact hvalid.toLoadable.isSome_file

theorem Sealed.sequence_eq (h : Sealed expected canonical disk sequence snapshot) :
    snapshot.manifest.sequence = sequence := by
  obtain ⟨config', -, hvalid⟩ := h.valid
  exact hvalid.sequence_eq

/-- A complete manifest has a result for every block. -/
theorem Sealed.complete (hcount : canonical.length = expected.blockCount.toNat)
    (h : Sealed expected canonical disk sequence snapshot)
    (hstatus : snapshot.manifest.status = .complete) : snapshot.results.any (·.isNone) = false := by
  obtain ⟨config', -, hvalid⟩ := h.valid
  obtain ⟨bytes, -, -, hdecode⟩ := hvalid.file
  refine hvalid.results.complete (decodeManifest_accepted hdecode) ?_ hstatus
  rw [hcount, blockCount_of_checkIdentity hvalid.identity]

section Files

variable (hpositioned : Positioned canonical)
  (hcount : canonical.length = expected.blockCount.toNat)

include hpositioned hcount

theorem Sealed.sound (h : Sealed expected canonical disk sequence snapshot) :
    SoundResults expected canonical snapshot.manifest.runIncarnation snapshot.manifest.leaseEpochs
        snapshot.results ∧
      ∀ entry, entry ∈ snapshot.manifest.committedBlocks ↔ ∃ (i : ℕ) (result : BlockResult),
        snapshot.results[i]? = some (some result) ∧ result.entry = entry := by
  obtain ⟨config', -, hvalid⟩ := h.valid
  exact hvalid.toLoadable.sound hpositioned hcount

theorem Sealed.stored (h : Sealed expected canonical disk sequence snapshot) {i : ℕ}
    {result : BlockResult} (hi : snapshot.results[i]? = some (some result)) :
    Stored disk expected result := by
  obtain ⟨config', -, hvalid⟩ := h.valid
  exact hvalid.toLoadable.stored hpositioned hcount hi

/-- A manifest stays sealed while its file and those of its results stay. -/
theorem Sealed.of_stored (h : Sealed expected canonical disk sequence snapshot)
    (hfile : next.file (manifestPathFor sequence) = disk.file (manifestPathFor sequence))
    (hstored : ∀ (i : ℕ) result, snapshot.results[i]? = some (some result) →
      Stored next expected result) : Sealed expected canonical next sequence snapshot := by
  obtain ⟨config', hfits, hvalid⟩ := h.valid
  refine ⟨⟨config', hfits, hvalid.of_stored hpositioned hcount hfile hstored⟩, ?_⟩
  rw [hfile]
  exact h.size

theorem Sealed.installs (h : Sealed expected canonical disk sequence snapshot) {path : Path}
    {bytes : Bytes} (hinstalls : Installs disk path bytes next) :
    Sealed expected canonical next sequence snapshot := by
  refine h.of_stored hpositioned hcount ?_ fun i result hi =>
    (h.stored hpositioned hcount hi).installs hinstalls
  obtain ⟨found, hfound⟩ := Option.isSome_iff_exists.mp h.isSome_file
  rw [hfound, hinstalls.keeps hfound]

end Files

end Sealed

/-! ## Consistent directories -/

theorem manifestPathFor_injective {sequence other : UInt64}
    (h : manifestPathFor sequence = manifestPathFor other) : sequence = other :=
  manifestName_injective (congrArg Path.name h)

/-- Every manifest is sealed, later ones extend earlier ones, only the last one can have ended, and
no block result is of an incarnation without a manifest. -/
structure Consistent (expected : RunMetadata) (canonical : List ScenarioBlock) (disk : Disk) :
    Prop where
  owned : Owned expected disk
  sealed : ∀ sequence, (disk.file (manifestPathFor sequence)).isSome →
    ∃ snapshot, Sealed expected canonical disk sequence snapshot
  ordered : ∀ sequence later snapshot top, Sealed expected canonical disk sequence snapshot →
    Sealed expected canonical disk later top → sequence < later →
      snapshot.manifest.status = .running ∧ Extends snapshot.results top.results ∧
        snapshot.manifest.runIncarnation ≤ top.manifest.runIncarnation
  stamped : ∀ block, (disk.file (blockPathFor block)).isSome → ∃ sequence snapshot,
    Sealed expected canonical disk sequence snapshot ∧
      block.runIncarnation ≤ snapshot.manifest.runIncarnation

/-- A consistent directory that comes after another one. -/
structure Follows (expected : RunMetadata) (canonical : List ScenarioBlock) (disk next : Disk) :
    Prop extends Consistent expected canonical next where
  keeps : ∀ sequence snapshot, Sealed expected canonical disk sequence snapshot →
    Sealed expected canonical next sequence snapshot

section Consistent

variable {expected : RunMetadata} {canonical : List ScenarioBlock} {disk next last : Disk}
  {sequence : UInt64} {snapshot : LoadedManifest}

theorem Consistent.follows (h : Consistent expected canonical disk) :
    Follows expected canonical disk disk := ⟨h, fun _ _ h => h⟩

theorem Follows.trans (h : Follows expected canonical disk next)
    (h' : Follows expected canonical next last) : Follows expected canonical disk last :=
  ⟨h'.toConsistent, fun _ _ hsealed => h'.keeps _ _ (h.keeps _ _ hsealed)⟩

theorem consistent_empty : Consistent expected canonical ∅ :=
  ⟨owned_empty expected, nofun, fun _ _ _ _ h => absurd h.isSome_file nofun, nofun⟩

/-- An earlier or the same manifest has no other results. -/
theorem Consistent.extends_of_le (h : Consistent expected canonical disk) {later : UInt64}
    {top : LoadedManifest} (hsealed : Sealed expected canonical disk sequence snapshot)
    (htop : Sealed expected canonical disk later top) (hle : sequence ≤ later) :
    Extends snapshot.results top.results ∧
      snapshot.manifest.runIncarnation ≤ top.manifest.runIncarnation := by
  rcases UInt64.lt_or_eq_of_le hle with hlt | rfl
  · exact (h.ordered _ _ _ _ hsealed htop hlt).2
  · obtain ⟨config', -, hvalid⟩ := htop.valid
    rw [hsealed.unique hvalid]
    exact ⟨.refl _, UInt64.le_refl _⟩

/-- A manifest that has ended is the last one. -/
theorem Consistent.last_of_ended (h : Consistent expected canonical disk)
    (hsealed : Sealed expected canonical disk sequence snapshot)
    (hended : snapshot.manifest.status ≠ .running) {other : UInt64}
    (hother : (disk.file (manifestPathFor other)).isSome) : other ≤ sequence := by
  by_contra hlt
  obtain ⟨top, htop⟩ := h.sealed other hother
  exact hended (h.ordered _ _ _ _ hsealed htop (UInt64.not_le.mp hlt)).1

section Steps

variable (hpositioned : Positioned canonical)
  (hcount : canonical.length = expected.blockCount.toNat)

include hpositioned hcount

/-- No manifest is touched, and the results of the sealed ones stay. -/
theorem Consistent.of_stored (h : Consistent expected canonical disk) (howned : Owned expected next)
    (hmanifests : disk.SameManifests next)
    (hstored : ∀ sequence snapshot, Sealed expected canonical disk sequence snapshot →
      ∀ (i : ℕ) result, snapshot.results[i]? = some (some result) → Stored next expected result)
    (hstamped : ∀ block, (next.file (blockPathFor block)).isSome → ∃ sequence snapshot,
      Sealed expected canonical disk sequence snapshot ∧
        block.runIncarnation ≤ snapshot.manifest.runIncarnation) :
    Follows expected canonical disk next := by
  have hkeeps : ∀ sequence snapshot, Sealed expected canonical disk sequence snapshot →
      Sealed expected canonical next sequence snapshot := fun sequence snapshot hsealed =>
    hsealed.of_stored hpositioned hcount (hmanifests sequence) (hstored sequence snapshot hsealed)
  have hback : ∀ sequence snapshot, Sealed expected canonical next sequence snapshot →
      Sealed expected canonical disk sequence snapshot := by
    intro sequence snapshot hsealed
    obtain ⟨found, hfound⟩ := h.sealed sequence (by rw [← hmanifests]; exact hsealed.isSome_file)
    obtain ⟨config', -, hvalid⟩ := hsealed.valid
    rwa [(hkeeps sequence found hfound).unique hvalid] at hfound
  refine ⟨⟨howned, fun sequence hsome => ?_, fun s l snap top hs hl => ?_, fun block hblock => ?_⟩,
    hkeeps⟩
  · obtain ⟨snapshot, hsealed⟩ := h.sealed sequence (by rw [← hmanifests]; exact hsome)
    exact ⟨snapshot, hkeeps sequence snapshot hsealed⟩
  · exact h.ordered s l snap top (hback _ _ hs) (hback _ _ hl)
  · obtain ⟨sequence, snapshot, hsealed, hle⟩ := hstamped block hblock
    exact ⟨sequence, snapshot, hkeeps _ _ hsealed, hle⟩

theorem Consistent.same (h : Consistent expected canonical disk) (hsame : disk.Same next) :
    Follows expected canonical disk next := by
  refine h.of_stored hpositioned hcount ?_ hsame.sameManifests
    (fun _ _ hsealed i result hi => (hsealed.stored hpositioned hcount hi).same hsame) ?_
  · intro bytes hfile
    rw [hsame.file lasting_metadataPath] at hfile
    exact h.owned bytes hfile
  · intro block hblock
    rw [hsame.file (lasting_blockPathFor block)] at hblock
    exact h.stamped block hblock

/-- Orphans are removed. -/
theorem Consistent.cleans (h : Consistent expected canonical disk)
    {committed : List (Option BlockResult)} {incarnation : UInt64} {leases : List UInt64}
    (hsound : SoundResults expected canonical incarnation leases committed)
    (hcleans : disk.Cleans committed next)
    (hcovers : ∀ sequence snapshot, Sealed expected canonical disk sequence snapshot →
      Extends snapshot.results committed) : Follows expected canonical disk next := by
  refine h.of_stored hpositioned hcount ?_ ?_ ?_ ?_
  · intro bytes hfile
    exact h.owned bytes (hcleans.retains.file lasting_metadataPath hfile)
  · exact fun _ => hcleans.file (lasting_manifestPathFor _) nofun
  · intro sequence snapshot hsealed i result hi
    exact hcleans.stored hsound (hcovers _ _ hsealed i result hi)
      (hsealed.stored hpositioned hcount hi)
  · intro block hblock
    obtain ⟨bytes, hbytes⟩ := Option.isSome_iff_exists.mp hblock
    refine h.stamped block ?_
    rw [hcleans.retains.file (lasting_blockPathFor block) hbytes]
    rfl

/-- A block result is installed. -/
theorem Consistent.installs_block (h : Consistent expected canonical disk) {block : ScenarioBlock}
    {bytes : Bytes} (hinstalls : Installs disk (blockPathFor block) bytes next)
    (hsealed : Sealed expected canonical disk sequence snapshot)
    (hle : block.runIncarnation ≤ snapshot.manifest.runIncarnation) :
    Follows expected canonical disk next := by
  refine h.of_stored hpositioned hcount ?_ ?_ ?_ ?_
  · intro found hfile
    rw [hinstalls.file_ne (by intro hpath; cases hpath)] at hfile
    exact h.owned found hfile
  · exact fun _ => hinstalls.file_ne (by intro hpath; cases hpath)
  · exact fun _ _ hsealed i result hi =>
      (hsealed.stored hpositioned hcount hi).installs hinstalls
  · intro other hother
    by_cases hpath : blockPathFor other = blockPathFor block
    · have hattempt : other.attempt = block.attempt :=
        blockName_injective (congrArg Path.name hpath)
      have hincarnation : other.runIncarnation = block.runIncarnation := by
        simp only [ScenarioBlock.attempt, ScenarioBlock.mk.injEq] at hattempt
        exact hattempt.2.2.2.1
      exact ⟨sequence, snapshot, hsealed, hincarnation ▸ hle⟩
    · rw [hinstalls.file_ne hpath] at hother
      exact h.stamped other hother

/-- A manifest is installed after all others. -/
theorem Consistent.installs_manifest (h : Consistent expected canonical disk) {bytes : Bytes}
    (hinstalls : Installs disk (manifestPathFor sequence) bytes next)
    (hsealed : Sealed expected canonical next sequence snapshot)
    (hlast : ∀ other, (disk.file (manifestPathFor other)).isSome → other < sequence)
    (hextends : ∀ other earlier, Sealed expected canonical disk other earlier →
      earlier.manifest.status = .running ∧ Extends earlier.results snapshot.results ∧
        earlier.manifest.runIncarnation ≤ snapshot.manifest.runIncarnation) :
    Follows expected canonical disk next := by
  have hkeeps : ∀ other earlier, Sealed expected canonical disk other earlier →
      Sealed expected canonical next other earlier := fun other earlier hother =>
    hother.installs hpositioned hcount hinstalls
  have hback : ∀ other earlier, Sealed expected canonical next other earlier →
      other = sequence ∧ earlier = snapshot ∨ Sealed expected canonical disk other earlier := by
    intro other earlier hother
    obtain ⟨config', -, hvalid⟩ := hother.valid
    by_cases heq : other = sequence
    · subst heq
      exact Or.inl ⟨rfl, (hsealed.unique hvalid).symm⟩
    · right
      have hsome := hother.isSome_file
      rw [hinstalls.file_ne (fun hpath => heq (manifestPathFor_injective hpath))] at hsome
      obtain ⟨found, hfound⟩ := h.sealed other hsome
      rwa [(hkeeps other found hfound).unique hvalid] at hfound
  refine ⟨⟨?_, fun other hother => ?_, fun s l snap top hs hl hlt => ?_, fun block hblock => ?_⟩,
    hkeeps⟩
  · intro found hfile
    rw [hinstalls.file_ne (by intro hpath; cases hpath)] at hfile
    exact h.owned found hfile
  · by_cases heq : other = sequence
    · exact ⟨snapshot, heq ▸ hsealed⟩
    · rw [hinstalls.file_ne (fun hpath => heq (manifestPathFor_injective hpath))] at hother
      obtain ⟨found, hfound⟩ := h.sealed other hother
      exact ⟨found, hkeeps other found hfound⟩
  · rcases hback l top hl with ⟨rfl, rfl⟩ | hl'
    · rcases hback s snap hs with ⟨rfl, -⟩ | hs'
      · exact absurd hlt (UInt64.lt_irrefl _)
      · exact hextends s snap hs'
    · rcases hback s snap hs with ⟨rfl, -⟩ | hs'
      · exact absurd (hlast l hl'.isSome_file) (UInt64.not_lt.mpr (UInt64.le_of_lt hlt))
      · exact h.ordered s l snap top hs' hl' hlt
  · rw [hinstalls.file_ne (by intro hpath; cases hpath)] at hblock
    obtain ⟨other, earlier, hother, hle⟩ := h.stamped block hblock
    exact ⟨other, earlier, hkeeps _ _ hother, hle⟩

end Steps

end Consistent

end MonteCarlo
