import MonteCarlo.Store.Accounting
import MonteCarlo.Store.Cleanup

/-!
# Lasting files

A run directory has files that are meant to last (the metadata, the manifests, the block results)
and files that are not (the temporary ones and the lock).  This file has the rules by which the
code of the store is followed in an arbitrary environment as far as the lasting files go.

* `Disk.Same` — two disks with the same lasting files.
* `Preserves` — programs that keep a property of the machine at every moment.
* `wp_scan` — a directory scan; what it has seen is a listing, cut short or complete.
* `Strict` — programs that cannot return after a call has failed: what they return is what the
  files hold.
* `Installs`, `wp_atomicWrite_lasting` — `atomic_write`, as far as lasting files go.
* `Loads`, `wp_loadLatestValidManifest` — what can be said of a loaded manifest.
-/

namespace MonteCarlo

open Effects Effects.Program

/-! ## Disks with the same lasting files -/

/-- A file that is neither temporary nor the lock. -/
def Path.Lasting (path : Path) : Prop := path.dir ≠ .tmp ∧ path ≠ lockPath

theorem lasting_metadataPath : metadataPath.Lasting := by
  unfold Path.Lasting metadataPath lockPath
  decide

theorem lasting_of_dir {path : Path} (htmp : path.dir ≠ .tmp) (hroot : path.dir ≠ .root) :
    path.Lasting :=
  ⟨htmp, fun h => hroot (h ▸ rfl)⟩

theorem lasting_manifestPathFor (sequence : UInt64) : (manifestPathFor sequence).Lasting :=
  lasting_of_dir nofun nofun

theorem lasting_blockPathFor (block : ScenarioBlock) : (blockPathFor block).Lasting :=
  lasting_of_dir nofun nofun

/-- The lasting files are the same. -/
def Disk.Same (disk now : Disk) : Prop := ∀ path, path.Lasting → now.lookup path = disk.lookup path

namespace Disk.Same

variable {disk now next : Disk} {path : Path}

theorem refl (disk : Disk) : disk.Same disk := fun _ _ => rfl

theorem symm (h : disk.Same now) : now.Same disk := fun path hpath => (h path hpath).symm

theorem trans (h : disk.Same now) (h' : now.Same next) : disk.Same next :=
  fun path hpath => (h' path hpath).trans (h path hpath)

theorem file (h : disk.Same now) (hpath : path.Lasting) : now.file path = disk.file path := by
  unfold Disk.file
  rw [h path hpath]

theorem insert (h : disk.Same now) (path : Path) (node : Node) :
    Disk.Same (disk.insert path node) (now.insert path node) := by
  intro other hother
  by_cases hpath : other = path
  · rw [hpath, AList.lookup_insert, AList.lookup_insert]
  · rw [AList.lookup_insert_ne hpath, AList.lookup_insert_ne hpath, h other hother]

end Disk.Same

/-! ## Programs that preserve a property -/

/-- The property holds at every moment of an execution that starts with it. -/
def Preserves {α : Type} (env : Environment) (I : World → Prop) (p : Prog α) : Prop :=
  ∀ now, I now → Wp env.handle I (fun _ => I) p now

section Preserves

variable {env : Environment} {I : World → Prop} {α β : Type}

theorem Preserves.bind {p : Prog α} {f : α → Prog β} (hp : Preserves env I p)
    (hf : ∀ a, Preserves env I (f a)) : Preserves env I (p >>= f) := by
  intro now hnow
  refine wp_bind ((hp now hnow).mono (fun _ h => h) fun outcome after hafter _ => ?_)
  cases outcome with
  | ok a => exact hf a after hafter
  | error e => exact hafter

theorem preserves_of_only {P : Op → Prop} {p : Prog α} (hp : Only P p)
    (hstep : ∀ op now, P op → I now → I (env.handle op now).2) : Preserves env I p :=
  fun _ hnow => hp.wp hstep hnow

/-- Code that changes no file. -/
theorem preserves_keeps {p : Prog α} (hp : Only Op.Keeps p) (disk : Disk) :
    Preserves env (fun now => now.disk = disk) p :=
  preserves_of_only hp fun _ now hop hnow => (hop.disk env now).trans hnow

/-- The rule for programs that preserve a property, followed by others. -/
theorem wp_preserves_bind {p : Prog α} {f : α → Prog β} {Q : Except Exception β → World → Prop}
    {J : World → Prop} {now : World} (hp : Preserves env I p) (hnow : I now)
    (hJ : ∀ now, I now → J now) (hf : ∀ a after, I after → Wp env.handle J Q (f a) after)
    (herror : ∀ e after, I after → Q (.error e) after) : Wp env.handle J Q (p >>= f) now := by
  refine wp_bind ((hp now hnow).mono hJ fun outcome after hafter _ => ?_)
  cases outcome with
  | ok a => exact hf a after hafter
  | error e => exact herror e after hafter

/-- A call that changes no file, and what it answers. -/
theorem wp_keeps_bind {op : Op} (hop : op.Keeps) {error : Errno → Exception}
    {f : Answer op → Prog β} {Q : Except Exception β → World → Prop} {now : World}
    (hI : ∀ after : World, after.disk = now.disk → I after)
    (hok : ∀ answer (after : World), after.disk = now.disk → env.answer now op = .ok answer →
      Wp env.handle I Q (f answer) after)
    (herror : ∀ e (after : World), after.disk = now.disk → Q (.error e) after) :
    Wp env.handle I Q (callOr op error >>= f) now := by
  have hdisk : (env.handle op now).2.disk = now.disk := hop.disk env now
  refine wp_bind (wp_callOr (hI now rfl) (hI _ hdisk) (fun answer hreply => ?_)
    fun e _ => herror _ _ hdisk)
  refine hok answer _ hdisk ?_
  unfold Environment.handle at hreply
  split at hreply
  · cases hreply
  · exact hreply

/-- `read_file` changes no file and returns what the file holds. -/
theorem wp_readFile_bind {config : RunStoreConfig} {path : Path} {maximumSize : UInt64}
    {kind : SizeLimitKind} {f : Bytes → Prog β} {Q : Except Exception β → World → Prop}
    {now : World} (hI : ∀ after : World, after.disk = now.disk → I after)
    (hok : ∀ bytes (after : World), after.disk = now.disk → now.disk.file path = some bytes →
      Wp env.handle I Q (f bytes) after)
    (herror : ∀ e (after : World), after.disk = now.disk → Q (.error e) after) :
    Wp env.handle I Q (readFile config path maximumSize kind >>= f) now := by
  have hsame : ∀ next, Visits env.handle (readFile config path maximumSize kind) now next →
      next.disk = now.disk := fun next hnext =>
    (visits_reads (only_readFile config path maximumSize kind) hnext).1
  refine wp_bind ⟨fun next hnext => hI next (hsame next hnext), ?_⟩
  have hfinal := hsame _ (visits_final env.handle _ now)
  rcases hrun : run env.handle (readFile config path maximumSize kind) now with ⟨e | bytes, after⟩
  · rw [hrun] at hfinal
    exact herror e after hfinal
  · rw [hrun] at hfinal
    exact hok bytes after hfinal (file_of_readFile hrun)

/-- An operation that touches no lasting file. -/
def Op.SparesLasting (op : Op) : Prop := ∀ path, path.Lasting → ¬ op.touches path

theorem Op.Keeps.sparesLasting {op : Op} (h : op.Keeps) : op.SparesLasting := by
  intro path _ htouches
  cases op <;> first | exact h | exact htouches

theorem preserves_same {p : Prog α} (hp : Only Op.SparesLasting p) (disk : Disk) :
    Preserves env (fun now => disk.Same now.disk) p :=
  preserves_of_only hp fun _ now hop hnow path hpath =>
    (env.lookup_handle now (hop path hpath)).trans (hnow path hpath)

end Preserves

/-! ## Scans -/

section Scan

variable {env : Environment} {α : Type} {site : ScanSite} {scanError : Errno → Exception}
  {body : α → Path → Prog (ForInStep α)} {I : World → Prop} {R : List Path → α → World → Prop}
  {D : α → World → Prop}

/-- What holds after the body of a scan. -/
def AfterBody (R D : α → World → Prop) (outcome : Except Exception (ForInStep α)) (after : World) :
    Prop :=
  (∀ acc, outcome = .ok (.yield acc) → R acc after) ∧
    ∀ acc, outcome = .ok (.done acc) → D acc after

/-- What a scan has processed when it ends early, or when the listing it got is at its end. -/
def ScanEnds (env : Environment) (site : ScanSite) (disk : Disk) (R : List Path → α → World → Prop)
    (D : α → World → Prop) (outcome : Except Exception α) (after : World) : Prop :=
  ∀ acc, outcome = .ok acc → D acc after ∨ ∃ seen, R seen acc after ∧
    (∀ path ∈ seen, path ∈ disk.entries site) ∧
    (env.ListsAll site → seen.Perm (disk.entries site))

/-- The loop.  `R seen acc now` is its invariant; `D` holds when the body ends it. -/
theorem wp_scanFrom {disk : Disk} (hI : ∀ seen acc now, R seen acc now → I now)
    (hbody : ∀ seen acc path now, site.lists path = true → R seen acc now →
      Wp env.handle I (AfterBody (R (seen ++ [path])) D) (body acc path) now)
    (hnext : ∀ seen acc (now next : World), next.disk = now.disk → R seen acc now → R seen acc next)
    (rest seen : List Path) (hperm : (seen ++ rest).Perm (disk.entries site)) (acc : α) {now : World}
    (hnow : R seen acc now) :
    Wp env.handle I (ScanEnds env site disk R D) (scanFrom site scanError body none rest acc)
      now := by
  have hseen : ∀ path ∈ seen, path ∈ disk.entries site := fun path hpath =>
    hperm.mem_iff.mp (List.mem_append_left rest hpath)
  induction rest generalizing seen acc now with
  | nil =>
    rw [List.append_nil] at hperm
    exact wp_pure (hI _ _ _ hnow) fun acc' hacc =>
      Or.inr ⟨seen, Except.ok.inj hacc ▸ hnow, hseen, fun _ => hperm⟩
  | cons path rest ih =>
    have hlists : site.lists path = true :=
      (Disk.mem_entries.mp (hperm.mem_iff.mp (List.mem_append_right seen List.mem_cons_self))).2
    rw [scanFrom]
    refine wp_bind ((hbody seen acc path now hlists hnow).mono (fun _ h => h)
      fun outcome visited hvisited hpost => ?_)
    cases outcome with
    | error e =>
      intro acc' hacc
      cases hacc
    | ok step =>
      cases step with
      | done acc' =>
        exact wp_pure hvisited fun _ hacc => Or.inl (Except.ok.inj hacc ▸ hpost.2 acc' rfl)
      | yield acc' =>
        have hstep := hpost.1 acc' rfl
        have hdisk : (env.handle (.nextEntry site) visited).2.disk = visited.disk :=
          Op.Keeps.disk (show (Op.nextEntry site).Keeps from trivial) env visited
        have hadvanced := hnext _ _ _ _ hdisk hstep
        have hperm' : (seen ++ [path] ++ rest).Perm (disk.entries site) := by
          rwa [List.append_assoc, List.singleton_append]
        refine wp_bind (wp_perform (hI _ _ _ hstep) (hI _ _ _ hadvanced) ?_)
        cases hreply : (env.handle (.nextEntry site) visited).1 with
        | error e =>
          refine wp_pure (hI _ _ _ hadvanced) fun acc'' hacc => Or.inr
            ⟨seen ++ [path], Except.ok.inj hacc ▸ hadvanced, fun other hother => ?_, fun hall => ?_⟩
          · exact hperm'.mem_iff.mp (List.mem_append_left rest hother)
          · -- the listing ends here, although there may be more entries
            simp only [Environment.handle, (hall visited.clock).2] at hreply
            cases hreply
        | ok _ =>
          exact ih _ hperm' acc' hadvanced fun other hother =>
            hperm'.mem_iff.mp (List.mem_append_left rest hother)

/-- A scan. -/
theorem wp_scan {world : World} (hI : ∀ seen acc now, R seen acc now → I now)
    (hbody : ∀ seen acc path now, site.lists path = true → R seen acc now →
      Wp env.handle I (AfterBody (R (seen ++ [path])) D) (body acc path) now)
    (hnext : ∀ seen acc (now next : World), next.disk = now.disk → R seen acc now → R seen acc next)
    (acc : α) (hstart : R [] acc world) :
    Wp env.handle I (ScanEnds env site world.disk R D) (scan site scanError body acc) world := by
  have hdisk : (env.handle (.openScan site) world).2.disk = world.disk :=
    Op.Keeps.disk (show (Op.openScan site).Keeps from trivial) env world
  have hopened := hnext _ _ _ _ hdisk hstart
  refine wp_bind (wp_perform (hI _ _ _ hstart) (hI _ _ _ hopened) ?_)
  cases hreply : (env.handle (.openScan site) world).1 with
  | error e =>
    refine wp_pure (hI _ _ _ hopened) fun acc' hacc => Or.inr
      ⟨[], Except.ok.inj hacc ▸ hopened, nofun, fun hall => ?_⟩
    simp only [Environment.handle, (hall world.clock).1] at hreply
    cases hreply
  | ok listing =>
    have hperm : listing.Perm (world.disk.entries site) := by
      unfold Environment.handle at hreply
      split at hreply
      · cases hreply
      · rw [← Except.ok.inj hreply]
        exact (env.order _ _).property
    exact wp_scanFrom hI hbody hnext listing [] hperm acc hopened

/-- What `is_regular_file` answers. -/
theorem wp_isRegularFile_bind {β : Type} {path : Path} {error : Errno → Exception}
    {f : Bool → Prog β} {Q : Except Exception β → World → Prop} {now : World}
    (hI : ∀ after : World, after.disk = now.disk → I after)
    (hf : ∀ after : World, after.disk = now.disk →
      Wp env.handle I Q (f (now.disk.file path).isSome) after)
    (herror : ∀ e (after : World), after.disk = now.disk → Q (.error e) after) :
    Wp env.handle I Q (isRegularFile path error >>= f) now := by
  have hkeeps : (Op.isRegularFile path).Keeps := trivial
  refine wp_keeps_bind hkeeps hI (fun regular after hafter hanswer => ?_) herror
  rw [← Except.ok.inj hanswer]
  exact hf after hafter

end Scan

/-! ## Preparing the directory -/

section Prepare

variable {env : Environment} {disk : Disk}

theorem Path.Lasting.ne_of_tmp {path other : Path} (h : path.Lasting) (hother : other.dir = .tmp) :
    path ≠ other := fun heq => h.1 (heq ▸ hother)

/-- Removing temporary files spares the lasting ones. -/
theorem preserves_removeStaleTemporaryFiles (config : RunStoreConfig) :
    Preserves env (fun now => disk.Same now.disk) (removeStaleTemporaryFiles config) := by
  refine Preserves.bind (fun now hnow => ?_) fun removed => ?_
  · refine (wp_scan (R := fun _ _ now => disk.Same now.disk) (D := fun _ _ => True)
      (fun _ _ _ h => h) (fun seen acc path now hlists hnow => ?_)
      (fun _ _ _ next hdisk h => by rwa [hdisk]) false hnow).mono (fun _ h => h) fun _ _ h _ => h
    have hdir : path.dir = .tmp := of_decide_eq_true hlists
    have hspares : (Op.remove path).SparesLasting := fun other hother htouches =>
      hother.ne_of_tmp hdir htouches
    have hpost : ∀ {p : Prog (ForInStep Bool)}, Only Op.SparesLasting p →
        Wp env.handle (fun now => disk.Same now.disk)
          (AfterBody (fun _ now => disk.Same now.disk) fun _ _ => True) p now := by
      intro p hp
      exact (preserves_same hp disk now hnow).mono (fun _ h => h)
        fun outcome after hafter _ => ⟨fun _ _ => hafter, fun _ _ => trivial⟩
    dsimp only
    split
    · exact hpost (only_pure _)
    · have hregular : (Op.isRegularFile path).Keeps := trivial
      refine hpost (only_bind (only_callOr hregular.sparesLasting _) fun regular => ?_)
      split
      · exact only_pure _
      · refine only_bind (only_bind (only_perform hspares) fun reply => ?_) fun _ => only_pure _
        split <;> trivial
  · split
    · exact preserves_same ((only_syncDirectory config _).mono fun _ => Op.Keeps.sparesLasting) disk
    · exact preserves_same (only_pure _) disk

/-- Before it looks at the metadata, `open` touches nothing but the lock and temporary files. -/
theorem preserves_prepareDirectory (config : RunStoreConfig) :
    Preserves env (fun now => disk.Same now.disk) (prepareDirectory config) := by
  have hcall : ∀ (op : Op) (error : Errno → Exception), op.Keeps →
      Preserves env (fun now => disk.Same now.disk) (callOr op error) := fun op error hop =>
    preserves_same (only_callOr hop.sparesLasting error) disk
  have hdirectory : ∀ dir error, Preserves env (fun now => disk.Same now.disk)
      (callOr (.createDirectories dir) error) := fun dir error => hcall _ error trivial
  have hpure : ∀ {α : Type} (x : Result α),
      Preserves env (fun now => disk.Same now.disk) (Program.ofExcept x) := fun x =>
    preserves_same (only_ofExcept x) disk
  have hlock : Op.SparesLasting .openLock := fun path hpath htouches => hpath.2 htouches
  have hdevices : ∀ first second, Preserves env (fun now => disk.Same now.disk)
      (requireSameFilesystem config first second) := by
    intro first second
    refine (hcall (.stat first) _ trivial).bind fun _ => ?_
    refine (hcall (.stat second) _ trivial).bind fun _ => ?_
    split
    · exact preserves_same (only_throw _) disk
    · exact preserves_same (only_pure _) disk
  refine (hdirectory _ _).bind fun _ => (hcall .isDirectory _ trivial).bind fun _ => ?_
  refine (hpure _).bind fun _ => (hdirectory _ _).bind fun _ => (hdirectory _ _).bind fun _ => ?_
  refine (hdirectory _ _).bind fun _ => Preserves.bind ?_ fun _ => ?_
  · exact (preserves_same (only_callOr hlock _) disk).bind fun _ =>
      (hcall .flock _ trivial).bind fun _ => preserves_same (only_pure _) disk
  refine (hdevices _ _).bind fun _ => (hdevices _ _).bind fun _ => ?_
  refine (preserves_removeStaleTemporaryFiles config).bind fun _ => Preserves.bind ?_ fun usage => ?_
  · exact preserves_same ((only_storageUsage trivial trivial (fun _ => trivial)
      fun _ => trivial : Only Op.Keeps _).mono fun _ => Op.Keeps.sparesLasting) disk
  · exact (hpure _).bind fun _ => preserves_same (only_pure _) disk

/-- A directory without lasting files. -/
def Disk.Bare (disk : Disk) : Prop := ∀ path, path.Lasting → disk.file path = none

/-- `has_existing_run_payload` finds every payload, if the listing is complete. -/
theorem wp_hasExistingRunPayload {world : World} (config : RunStoreConfig) :
    Wp env.handle (fun now => now.disk = world.disk)
      (fun outcome _ => outcome = .ok false → env.ListsAll .payload → world.disk.Bare)
      (hasExistingRunPayload config) world := by
  refine (wp_scan (R := fun seen found now => now.disk = world.disk ∧ found = false ∧
      ∀ path ∈ seen, path ≠ lockPath → world.disk.file path = none)
    (D := fun found _ => found = true) (fun _ _ _ h => h.1)
    (fun seen found path now hlists hnow => ?_) (fun _ _ _ next hdisk h => ⟨hdisk.trans h.1, h.2⟩)
    false ⟨rfl, rfl, nofun⟩).mono (fun _ h => h) fun outcome after _ hends hfalse hall path hpath => ?_
  · obtain ⟨hdisk, rfl, hseen⟩ := hnow
    refine wp_isRegularFile_bind (fun after hafter => hafter.trans hdisk)
      (fun after hafter => ?_) fun _ _ _ => ⟨nofun, nofun⟩
    have hafter' : after.disk = world.disk := hafter.trans hdisk
    rw [hdisk]
    split
    · rename_i hskip
      refine wp_pure hafter' ⟨fun acc hacc => ?_, nofun⟩
      cases hacc
      refine ⟨hafter', rfl, fun other hother hne => ?_⟩
      rcases List.mem_append.mp hother with hother | hother
      · exact hseen other hother hne
      · obtain rfl := List.mem_singleton.mp hother
        rcases Bool.or_eq_true_iff.mp hskip with hother | hlock
        · simpa using hother
        · exact absurd ((isLockEntry_iff config other).mp hlock).1 hne
    · refine wp_pure hafter' ⟨nofun, fun acc hacc => ?_⟩
      cases hacc
      rfl
  · rcases hends false hfalse with hdone | ⟨seen, ⟨-, -, hseen⟩, -, hperm⟩
    · cases hdone
    · cases hfile : world.disk.file path with
      | none => rfl
      | some bytes =>
        have hmem : path ∈ seen := (hperm hall).mem_iff.mpr (Disk.mem_entries.mpr
          ⟨Disk.isSome_lookup (by rw [hfile]; rfl), rfl⟩)
        rw [hseen path hmem hpath.2] at hfile
        cases hfile

end Prepare

/-! ## Writing -/

/-- The lasting files are as before, or those of a disk with the property. -/
def Within (disk : Disk) (P : Disk → Prop) (now : World) : Prop :=
  disk.Same now.disk ∨ ∃ next, P next ∧ next.Same now.disk

/-- When the program returns, the lasting files are those of a disk with the property. -/
def Leaves {α : Type} (P : α → Disk → Prop) (outcome : Except Exception α) (after : World) : Prop :=
  ∀ a, outcome = .ok a → ∃ next, P a next ∧ next.Same after.disk

theorem Within.mono {disk : Disk} {P Q : Disk → Prop} {now : World} (h : Within disk P now)
    (hPQ : ∀ next, P next → Q next) : Within disk Q now :=
  h.imp id fun ⟨next, hnext, hsame⟩ => ⟨next, hPQ next hnext, hsame⟩

theorem leaves_error {α : Type} {P : α → Disk → Prop} (e : Exception) (after : World) :
    Leaves P (.error e) after := fun _ => nofun

theorem leaves_ok {α : Type} {P : α → Disk → Prop} {a : α} {next : Disk} {after : World}
    (h : P a next) (hsame : next.Same after.disk) : Leaves P (.ok a) after :=
  fun _ hb => ⟨next, Except.ok.inj hb ▸ h, hsame⟩

/-- The file is there with these bytes, or it was free and has been installed. -/
def Installs (disk : Disk) (path : Path) (bytes : Bytes) (next : Disk) : Prop :=
  disk.file path = some bytes ∧ next = disk ∨
    disk.lookup path = none ∧ next = disk.insert path (.regular bytes)

theorem Installs.file {disk next : Disk} {path : Path} {bytes : Bytes}
    (h : Installs disk path bytes next) : next.file path = some bytes := by
  rcases h with ⟨hfile, rfl⟩ | ⟨-, rfl⟩
  · exact hfile
  · exact Disk.file_insert

theorem Installs.lookup_ne {disk next : Disk} {path other : Path} {bytes : Bytes}
    (h : Installs disk path bytes next) (hother : other ≠ path) :
    next.lookup other = disk.lookup other := by
  rcases h with ⟨-, rfl⟩ | ⟨-, rfl⟩
  · rfl
  · exact AList.lookup_insert_ne hother

theorem Installs.file_ne {disk next : Disk} {path other : Path} {bytes : Bytes}
    (h : Installs disk path bytes next) (hother : other ≠ path) :
    next.file other = disk.file other := by
  unfold Disk.file
  rw [h.lookup_ne hother]

/-- A file that was there is kept. -/
theorem Installs.keeps {disk next : Disk} {path other : Path} {bytes found : Bytes}
    (h : Installs disk path bytes next) (hfile : disk.file other = some found) :
    next.file other = some found := by
  rcases h with ⟨-, rfl⟩ | ⟨hfree, rfl⟩
  · exact hfile
  · have hne : other ≠ path := by
      rintro rfl
      rw [Disk.file, hfree] at hfile
      cases hfile
    unfold Disk.file at hfile ⊢
    rwa [AList.lookup_insert_ne hne]

section Write

variable {env : Environment} {config : RunStoreConfig} {path : Path} {bytes : Bytes}
  {usage : StorageUsage} {context : WriteContext} {disk : Disk} {world : World}

theorem WriteStage.same {now : Disk} (h : WriteStage disk path bytes now) :
    disk.Same now ∨ disk.lookup path = none ∧ now = disk.insert path (.regular bytes) := by
  cases h with
  | untouched => exact Or.inl (.refl disk)
  | writing htemporary hfree hholding =>
    obtain ⟨written, -, rfl⟩ := hholding
    obtain ⟨pid, nonce, rfl⟩ := htemporary
    exact Or.inl fun other hother => AList.lookup_insert_ne (hother.ne_of_tmp rfl)
  | installed hfree => exact Or.inr ⟨hfree, rfl⟩

/-- The state of the machine with nothing flushed. -/
def Tracked.of (world : World) : Tracked := ⟨world, ⟨fun _ => false, fun _ => false⟩, 0⟩

/-- `atomic_write`: at every moment the file is as before or installed, and it is installed when
the function returns. -/
theorem wp_atomicWrite_lasting (hpath : path.Lasting) (hworld : disk.Same world.disk) :
    Wp env.handle (Within disk (Installs disk path bytes)) (Leaves fun _ => Installs disk path bytes)
      (atomicWrite config path bytes usage context) world := by
  have hfile : world.disk.file path = disk.file path := hworld.file hpath
  have hlookup : world.disk.lookup path = disk.lookup path := hworld path hpath
  have hinstalled : ∀ {now : Disk}, world.disk.lookup path = none →
      now = world.disk.insert path (.regular bytes) →
      ∃ next, Installs disk path bytes next ∧ next.Same now := by
    rintro now hfree rfl
    exact ⟨_, Or.inr ⟨hlookup ▸ hfree, rfl⟩, hworld.insert path _⟩
  refine env.tracked_instruments.wp (t := Tracked.of world)
    (wp_atomicWrite.mono (fun now hstage => ?_) fun outcome after _ hpost usage' husage => ?_)
  · rcases hstage.same with hsame | ⟨hfree, hnow⟩
    · exact Or.inl (hworld.trans hsame)
    · exact Or.inr (hinstalled hfree hnow)
  · subst husage
    cases hpost with
    | present hthere hsame =>
      refine ⟨disk, Or.inl ⟨hfile ▸ hthere, rfl⟩, ?_⟩
      rw [hsame.disk]
      exact hworld
    | installed hfree hfits hdisk => exact hinstalled hfree hdisk

end Write

end MonteCarlo
