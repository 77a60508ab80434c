import MonteCarlo.Store.Selection

/-!
# The storage in use

What `storage_usage` counts: the regular files of the run directory and their sizes.

* `storageUsage_eq_ok` — what it returns is the truth, unless the listing ends early.
-/

namespace MonteCarlo

open Effects Effects.Program

/-- The sum of the sizes of regular files. -/
def Disk.bytesOf (disk : Disk) (paths : List Path) : ℕ :=
  (paths.map fun path => ((disk.file path).map List.length).getD 0).sum

/-- The number of regular files. -/
def Disk.filesOf (disk : Disk) (paths : List Path) : ℕ :=
  paths.countP fun path => (disk.file path).isSome

theorem Disk.size_of_file {disk : Disk} {path : Path} {bytes : Bytes} (h : disk.file path = some bytes) :
    disk.size path = .ok bytes.length := by
  unfold Disk.file at h
  unfold Disk.size
  split at h
  · rename_i found hlookup
    rw [hlookup, Option.some.inj h]
  · cases h

theorem Disk.bytesOf_cons (disk : Disk) (path : Path) (rest : List Path) :
    disk.bytesOf (path :: rest) = ((disk.file path).map List.length).getD 0 + disk.bytesOf rest :=
  rfl

theorem Disk.filesOf_cons (disk : Disk) (path : Path) (rest : List Path) :
    disk.filesOf (path :: rest) =
      disk.filesOf rest + if (disk.file path).isSome then 1 else 0 :=
  List.countP_cons

/-- The bytes of all regular files. -/
def Disk.bytes (disk : Disk) : ℕ := disk.bytesOf disk.keys

/-- The number of all regular files. -/
def Disk.files (disk : Disk) : ℕ := disk.filesOf disk.keys

theorem Disk.bytesOf_perm (disk : Disk) {paths paths' : List Path} (h : paths.Perm paths') :
    disk.bytesOf paths = disk.bytesOf paths' :=
  (h.map _).sum_eq

theorem Disk.filesOf_perm (disk : Disk) {paths paths' : List Path} (h : paths.Perm paths') :
    disk.filesOf paths = disk.filesOf paths' :=
  h.countP_eq _

theorem Disk.entries_usage (disk : Disk) : disk.entries .usage = disk.keys :=
  List.filter_eq_self.mpr fun _ _ => rfl

section Usage

variable {env : Environment} {world after : World}

/-- What an operation that is asked for an answer can answer. -/
theorem run_callOr_eq_ok {op : Op} {error : Errno → Exception} {answer : Answer op}
    (h : run env.handle (callOr op error) world = (.ok answer, after)) :
    env.ioError world.clock op = none ∧ env.answer world op = .ok answer ∧
      after = (env.handle op world).2 := by
  obtain ⟨reply, middle, hcall, hreply⟩ := run_bind_eq_ok h
  rw [call, run_perform] at hcall
  obtain ⟨hfirst, rfl⟩ := Prod.mk.inj hcall
  obtain rfl := Except.ok.inj hfirst
  cases hanswer : (env.handle op world).1 with
  | error e =>
    simp only [hanswer] at hreply
    cases hreply
  | ok found =>
    simp only [hanswer] at hreply
    obtain ⟨hfound, rfl⟩ := Prod.mk.inj hreply
    obtain rfl := Except.ok.inj hfound
    unfold Environment.handle at hanswer
    split at hanswer
    · cases hanswer
    · exact ⟨by assumption, hanswer, rfl⟩

theorem addUsage_eq_ok {usage : StorageUsage} {path : Path} {step : ForInStep StorageUsage}
    (h : run env.handle (addUsage usage path) world = (.ok step, after)) :
    ∃ next : StorageUsage, step = .yield next ∧
      next.bytes.toNat = usage.bytes.toNat + ((world.disk.file path).map List.length).getD 0 ∧
      next.files.toNat = usage.files.toNat + (if (world.disk.file path).isSome then 1 else 0) ∧
      world.SameFiles after := by
  have hword : maxWord.toNat = 2 ^ 64 - 1 := by decide
  obtain ⟨regular, middle, hregular, h⟩ := run_bind_eq_ok h
  obtain ⟨-, hanswer, hmiddle⟩ := run_callOr_eq_ok hregular
  obtain rfl := Except.ok.inj hanswer
  have hsame : world.SameFiles middle := hmiddle ▸ env.sameFiles_reads world trivial
  cases hfile : world.disk.file path with
  | none =>
    simp only [hfile, Option.isSome_none, Bool.not_false, if_true, run_pure, Prod.mk.injEq] at h
    obtain ⟨hstep, rfl⟩ := h
    exact ⟨usage, (Except.ok.inj hstep).symm, rfl, rfl, hsame⟩
  | some bytes =>
    simp only [hfile, Option.isSome_some, Bool.not_true, Bool.false_eq_true, if_false] at h
    obtain ⟨size, final, hsize, h⟩ := run_bind_eq_ok h
    obtain ⟨-, hanswer, hfinal⟩ := run_callOr_eq_ok hsize
    have hlength : size = bytes.length := by
      change middle.disk.size path = .ok size at hanswer
      rw [hsame.1, Disk.size_of_file hfile] at hanswer
      exact (Except.ok.inj hanswer).symm
    subst hlength
    have hboth : world.SameFiles final :=
      hsame.trans (hfinal ▸ env.sameFiles_reads middle trivial)
    split at h
    · cases h
    · rename_i hfits
      split at h
      · cases h
      · rename_i hfiles
        simp only [Bool.or_eq_true, decide_eq_true_eq, not_or, Nat.not_lt] at hfits
        obtain ⟨hstep, rfl⟩ := Prod.mk.inj h
        refine ⟨_, (Except.ok.inj hstep).symm, ?_, ?_, hboth⟩
        · rw [UInt64.toNat_add, UInt64.toNat_ofNat', Nat.mod_eq_of_lt (a := bytes.length) (by omega),
            Nat.mod_eq_of_lt (by omega)]
          rfl
        · have hne : usage.files.toNat ≠ maxWord.toNat := fun he => hfiles (UInt64.toNat_inj.mp he)
          have hlt := usage.files.toNat_lt
          rw [UInt64.toNat_add, show (1 : UInt64).toNat = 1 from rfl, Nat.mod_eq_of_lt (by omega)]
          rfl

theorem usageLoop_eq_ok (hnext : ∀ time, env.ioError time (.nextEntry .usage) = none)
    {scanError : Errno → Exception} (listing : List Path) {usage final : StorageUsage}
    (h : run env.handle (scanFrom .usage scanError addUsage none listing usage) world =
      (.ok final, after)) :
    final.bytes.toNat = usage.bytes.toNat + world.disk.bytesOf listing ∧
      final.files.toNat = usage.files.toNat + world.disk.filesOf listing ∧
      world.SameFiles after := by
  induction listing generalizing usage world with
  | nil =>
    obtain ⟨hfinal, rfl⟩ := Prod.mk.inj h
    obtain rfl := Except.ok.inj hfinal
    exact ⟨rfl, rfl, .refl _⟩
  | cons path rest ih =>
    rw [scanFrom] at h
    obtain ⟨step, middle, hbody, h⟩ := run_bind_eq_ok h
    obtain ⟨next, rfl, hbytes, hfiles, hsame⟩ := addUsage_eq_ok hbody
    have hcall : run env.handle (call (.nextEntry .usage)) middle =
        (.ok (.ok ()), { middle with clock := middle.clock + 1 }) := by
      rw [call, run_perform, Environment.handle, hnext]
      rfl
    simp only [run_bind, hcall] at h
    obtain ⟨hbytes', hfiles', hsame'⟩ := ih h
    have hdisk : middle.disk = world.disk := hsame.1
    rw [Disk.bytesOf_cons, Disk.filesOf_cons]
    simp only [hdisk] at hbytes' hfiles'
    exact ⟨by omega, by omega, hsame.trans ⟨hsame'.1, hsame'.2⟩⟩

/-- What `storage_usage` returns is the truth. -/
theorem storageUsage_eq_ok (hnext : ∀ time, env.ioError time (.nextEntry .usage) = none)
    {usage : StorageUsage} (h : run env.handle storageUsage world = (.ok usage, after)) :
    usage.bytes.toNat = world.disk.bytes ∧ usage.files.toNat = world.disk.files ∧
      world.SameFiles after := by
  obtain ⟨listing, middle, hopen, h⟩ := run_bind_eq_ok h
  obtain ⟨hquiet, hanswer, hmiddle⟩ := run_callOr_eq_ok hopen
  obtain rfl := Except.ok.inj hanswer
  have hperm := (env.order world.clock (world.disk.entries .usage)).property
  rw [Disk.entries_usage] at hperm
  have hsame : world.SameFiles middle := by
    rw [hmiddle, Environment.handle, hquiet]
    exact ⟨rfl, rfl⟩
  obtain ⟨hbytes, hfiles, hsame'⟩ := usageLoop_eq_ok hnext _ h
  rw [hsame.1] at hbytes hfiles
  rw [Disk.entries_usage] at hbytes hfiles
  rw [Disk.bytes, Disk.files, ← world.disk.bytesOf_perm hperm, ← world.disk.filesOf_perm hperm]
  exact ⟨by simpa using hbytes, by simpa using hfiles, hsame.trans hsame'⟩

end Usage

end MonteCarlo
