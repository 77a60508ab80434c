import MonteCarlo.Store.RunStore

/-!
# Who throws

The functions of the store throw exceptions of their own and of the functions that they call.  Each
lemma names the throwers of one function, whatever the file system replies.

* `ThrownBy` — an exception of one of some throwers.
* `Result.Throws` — what a computation without calls throws; `Program.Raises` for the others.
* `thrownBy_prepareDirectory`, `throwsOnly_writeNewFile` — the functions that prepare and write.
-/

namespace MonteCarlo

open Effects Effects.Program

/-- An exception whose thrower is one of these. -/
def ThrownBy (T : Thrower → Prop) (e : Exception) : Prop := T e.thrower

/-! ## Computations without calls -/

namespace Result

variable {α β : Type} {E : Exception → Prop} {x : Result α} {f : α → Result β}

/-- What a computation throws has the property. -/
def Throws (E : Exception → Prop) (x : Result α) : Prop := ∀ e, x = .error e → E e

theorem throws_ok (a : α) : Throws E (.ok a : Result α) := nofun

theorem throws_bind (hx : x.Throws E) (hf : ∀ a, (f a).Throws E) : (x >>= f).Throws E := by
  intro e h
  rcases bind_eq_error.mp h with h | ⟨a, -, h⟩
  · exact hx e h
  · exact hf a e h

theorem throws_map {g : α → β} (hx : x.Throws E) : Throws E (g <$> x) := by
  cases x with
  | ok a => exact throws_ok _
  | error e =>
    intro e' h
    cases h
    exact hx e rfl

theorem throws_throwIf {condition : Bool} {error : Exception} (h : E error) :
    Throws E (throwIf condition error) :=
  fun _ he => (throwIf_eq_error.mp he).2 ▸ h

theorem throws_error {error : Exception} (h : E error) : Throws E (.error error : Result α) := by
  intro e he
  cases he
  exact h

end Result

section Computations

open Result

variable {T : Thrower → Prop}

theorem thrownBy_validateModel (spec : RunSpec) (h : T .runSpecValidate) :
    Throws (ThrownBy T) spec.validateModel := by
  unfold RunSpec.validateModel
  split
  · exact throws_bind (throws_throwIf h) fun _ => throws_throwIf h
  split
  · split
    · exact throws_error h
    · refine throws_bind (throws_throwIf h) fun _ => throws_bind (throws_throwIf h) fun _ => ?_
      refine throws_bind (throws_throwIf h) fun _ => throws_bind (throws_throwIf h) fun _ => ?_
      exact throws_bind (throws_throwIf h) fun _ => throws_throwIf h
  · exact throws_error h

theorem thrownBy_validate (spec : RunSpec) (h : T .runSpecValidate) :
    Throws (ThrownBy T) spec.validate := by
  refine throws_bind (throws_throwIf h) fun _ => throws_bind (throws_throwIf h) fun _ => ?_
  refine throws_bind (throws_throwIf h) fun _ => throws_bind (throws_throwIf h) fun _ => ?_
  refine throws_bind (throws_throwIf h) fun _ => throws_bind (throws_throwIf h) fun _ => ?_
  refine throws_bind (throws_throwIf h) fun _ => throws_bind (throws_throwIf h) fun _ => ?_
  refine throws_bind (throws_throwIf h) fun _ => throws_bind (throws_throwIf h) fun _ => ?_
  exact throws_bind (throws_throwIf h) fun _ => thrownBy_validateModel spec h

theorem thrownBy_validateConfig (spec : RunSpec) (config : EngineConfig)
    (h : T .engineConfigValidate) : Throws (ThrownBy T) (config.validate spec) := by
  refine throws_bind (throws_throwIf h) fun _ => throws_bind (throws_throwIf h) fun _ => ?_
  refine throws_bind (throws_throwIf h) fun _ => throws_bind (throws_throwIf h) fun _ => ?_
  exact throws_throwIf h

theorem thrownBy_validateStore (config : RunStoreConfig) (h : T .runStoreConfigValidate) :
    Throws (ThrownBy T) config.validate :=
  throws_bind (throws_throwIf h) fun _ => throws_bind (throws_throwIf h) fun _ => throws_throwIf h

theorem thrownBy_expectedMetadata (build : BuildIdentity) (spec : RunSpec) (config : EngineConfig)
    (hspec : T .runSpecValidate) (hconfig : T .engineConfigValidate)
    (hlayout : T .encodeExecutionLayoutPayload) (hexpected : T .expectedMetadata) :
    Throws (ThrownBy T) (expectedMetadata build spec config) := by
  have hhash : Throws (ThrownBy T) (runSpecHash spec) :=
    throws_map (throws_bind (thrownBy_validate spec hspec) fun _ => throws_ok _)
  refine throws_bind (thrownBy_validate spec hspec) fun _ => ?_
  refine throws_bind (thrownBy_validateConfig spec config hconfig) fun _ => ?_
  refine throws_bind (throws_throwIf hexpected) fun _ => throws_bind hhash fun _ => ?_
  refine throws_bind (throws_map ?_) fun _ => throws_ok _
  refine throws_bind (thrownBy_validate spec hspec) fun _ => ?_
  refine throws_bind (thrownBy_validateConfig spec config hconfig) fun _ => ?_
  exact throws_bind (throws_throwIf hlayout) fun _ => throws_bind hhash fun _ => throws_ok _

theorem thrownBy_checked {x y : UInt64} {label : String} (h : T .checkedArithmetic) :
    Throws (ThrownBy T) (checkedAdd x y label) ∧
      Throws (ThrownBy T) (checkedMultiply x y label) := by
  unfold checkedAdd checkedMultiply
  constructor
  · split
    · exact throws_error h
    · exact throws_ok _
  · split
    · exact throws_error h
    · exact throws_ok _

theorem thrownBy_completionBytes (config : RunStoreConfig) (usage : StorageUsage)
    (plan : CompletionPlan) (harithmetic : T .checkedArithmetic)
    (hpreflight : T .preflightRunCompletion) :
    Throws (ThrownBy T) (completionBytes config usage plan) := by
  have hadd : ∀ {x y : UInt64} {label : String}, Throws (ThrownBy T) (checkedAdd x y label) :=
    fun {_ _ _} => (thrownBy_checked harithmetic).1
  have hmul : ∀ {x y : UInt64} {label : String},
      Throws (ThrownBy T) (checkedMultiply x y label) :=
    fun {_ _ _} => (thrownBy_checked harithmetic).2
  refine throws_bind (throws_bind hmul fun _ => hadd) fun _ => ?_
  refine throws_bind (throws_throwIf hpreflight) fun _ => throws_bind hmul fun _ => ?_
  refine throws_bind hmul fun _ => throws_bind hadd fun _ => throws_bind hadd fun _ => ?_
  refine throws_bind hadd fun _ => throws_bind hadd fun _ => ?_
  refine throws_bind (throws_throwIf hpreflight) fun _ => ?_
  exact throws_bind (throws_throwIf hpreflight) fun _ => throws_ok _

end Computations

section Throwers

variable {T : Thrower → Prop} {α : Type} (config : RunStoreConfig)

/-! ## Calls and files -/

theorem thrownBy_callOr {op : Op} {error : Errno → Exception} (h : ∀ e, T (error e).thrower) :
    Raises (ThrownBy T) (callOr op error) := by
  refine raises_bind (raises_perform op) fun reply => ?_
  split
  · exact raises_pure _
  · exact raises_throw (h _)

theorem thrownBy_callIgnored (op : Op) : Raises (ThrownBy T) (callIgnored op) :=
  raises_bind (raises_perform op) fun _ => raises_pure _

theorem thrownBy_throwIf {condition : Bool} {error : Exception} (h : T error.thrower) :
    Raises (ThrownBy T) (Program.ofExcept (throwIf condition error) : Prog Unit) :=
  raises_ofExcept fun _ he => (throwIf_eq_error.mp he).2 ▸ h

theorem thrownBy_syncDirectory (dir : Dir) (h : T .syncDirectory) :
    Raises (ThrownBy T) (syncDirectory config dir) := by
  refine raises_bind (thrownBy_callOr fun _ => h) fun _ => ?_
  refine raises_bind (raises_perform _) fun reply => ?_
  split
  · exact raises_bind (thrownBy_callIgnored _) fun _ => raises_throw h
  · exact raises_bind (thrownBy_callOr fun _ => h) fun _ => raises_pure _

theorem thrownBy_readFile (path : Path) (maximumSize : UInt64) (kind : SizeLimitKind)
    (h : T .readFile) : Raises (ThrownBy T) (readFile config path maximumSize kind) := by
  refine raises_bind (thrownBy_callOr fun e => ?_) fun size => ?_
  · unfold statError
    split <;> exact h
  · split
    · refine raises_throw ?_
      cases kind <;> exact h
    · refine raises_bind (thrownBy_callOr fun _ => h) fun _ => ?_
      refine raises_bind (thrownBy_callOr fun _ => h) fun bytes => ?_
      split
      · exact raises_throw h
      · exact raises_pure _

/-! ## Scans -/

theorem thrownBy_scanFrom {site : ScanSite} {scanError : Errno → Exception}
    {body : α → Path → Prog (ForInStep α)} (herror : ∀ e, T (scanError e).thrower)
    (hbody : ∀ acc path, Raises (ThrownBy T) (body acc path)) (error : Option Errno)
    (listing : List Path) (acc : α) :
    Raises (ThrownBy T) (scanFrom site scanError body error listing acc) := by
  induction listing generalizing error acc with
  | nil => cases error <;> exact raises_pure _
  | cons path rest ih =>
    cases error with
    | some e => exact raises_throw (herror e)
    | none =>
      refine raises_bind (hbody acc path) fun step => ?_
      cases step with
      | done acc => exact raises_pure _
      | yield acc =>
        refine raises_bind (raises_perform _) fun reply => ?_
        split
        · exact ih _ _
        · exact raises_pure _

theorem thrownBy_scan {site : ScanSite} {scanError : Errno → Exception}
    {body : α → Path → Prog (ForInStep α)} (herror : ∀ e, T (scanError e).thrower)
    (hbody : ∀ acc path, Raises (ThrownBy T) (body acc path)) (acc : α) :
    Raises (ThrownBy T) (scan site scanError body acc) := by
  refine raises_bind (raises_perform _) fun reply => ?_
  split
  · exact thrownBy_scanFrom herror hbody _ _ _
  · exact thrownBy_scanFrom herror hbody _ _ _

theorem thrownBy_hasExistingRunPayload (h : T .hasExistingRunPayload) :
    Raises (ThrownBy T) (hasExistingRunPayload config) := by
  refine thrownBy_scan (fun _ => h) (fun found path => ?_) _
  refine raises_bind (thrownBy_callOr fun _ => h) fun regular => ?_
  split <;> exact raises_pure _

theorem thrownBy_storageUsage (h : T .storageUsage) : Raises (ThrownBy T) storageUsage := by
  refine raises_bind (thrownBy_callOr fun _ => h) fun entries => ?_
  refine thrownBy_scanFrom (fun _ => h) (fun usage path => ?_) _ _ _
  refine raises_bind (thrownBy_callOr fun _ => h) fun regular => ?_
  split
  · exact raises_pure _
  · refine raises_bind (thrownBy_callOr fun _ => h) fun size => ?_
    split
    · exact raises_throw h
    split
    · exact raises_throw h
    · exact raises_pure _

theorem thrownBy_removeOrThrow (path : Path) (thrower : Thrower) (what : String) (h : T thrower) :
    Raises (ThrownBy T) (removeOrThrow path thrower what) := by
  refine raises_bind (raises_perform _) fun reply => ?_
  split
  · exact raises_pure _
  · exact raises_throw h
  · exact raises_throw h

theorem thrownBy_removeStaleTemporaryFiles (h : T .removeStaleTemporaryFiles)
    (hsync : T .syncDirectory) : Raises (ThrownBy T) (removeStaleTemporaryFiles config) := by
  refine raises_bind (thrownBy_scan (fun _ => h) (fun removed path => ?_) _) fun removed => ?_
  · split
    · exact raises_pure _
    · refine raises_bind (thrownBy_callOr fun _ => h) fun regular => ?_
      split
      · exact raises_pure _
      · exact raises_bind (thrownBy_removeOrThrow _ _ _ h) fun _ => raises_pure _
  · split
    · exact thrownBy_syncDirectory _ _ hsync
    · exact raises_pure _

theorem thrownBy_removeOrphanBlockResults (committed : List (Option BlockResult))
    (h : T .removeOrphanBlockResults) (hsync : T .syncDirectory) :
    Raises (ThrownBy T) (removeOrphanBlockResults config committed) := by
  refine raises_bind (thrownBy_scan (fun _ => h) (fun removed path => ?_) _) fun removed => ?_
  · refine raises_bind (thrownBy_callOr fun _ => h) fun regular => ?_
    split
    · exact raises_pure _
    · split
      · exact raises_pure _
      · split
        · exact raises_pure _
        · exact raises_bind (thrownBy_removeOrThrow _ _ _ h) fun _ => raises_pure _
  · split
    · exact thrownBy_syncDirectory _ _ hsync
    · exact raises_pure _

theorem thrownBy_requireSameFilesystem (first second : Dir) (h : T .requireSameFilesystem) :
    Raises (ThrownBy T) (requireSameFilesystem config first second) := by
  refine raises_bind (thrownBy_callOr fun _ => h) fun _ => ?_
  refine raises_bind (thrownBy_callOr fun _ => h) fun _ => ?_
  split
  · exact raises_throw h
  · exact raises_pure _

/-- `open` up to the metadata. -/
theorem thrownBy_prepareDirectory (hopen : T .openStore) (hlock : T .scopedRunLock)
    (hdevice : T .requireSameFilesystem) (hstale : T .removeStaleTemporaryFiles)
    (hsync : T .syncDirectory) (husage : T .storageUsage) :
    Raises (ThrownBy T) (prepareDirectory config) := by
  refine raises_bind (thrownBy_callOr fun _ => hopen) fun _ => ?_
  refine raises_bind (thrownBy_callOr fun _ => hopen) fun _ => ?_
  refine raises_bind (thrownBy_throwIf hopen) fun _ => ?_
  refine raises_bind (thrownBy_callOr fun _ => hopen) fun _ => ?_
  refine raises_bind (thrownBy_callOr fun _ => hopen) fun _ => ?_
  refine raises_bind (thrownBy_callOr fun _ => hopen) fun _ => ?_
  refine raises_bind ?_ fun _ => ?_
  · refine raises_bind (thrownBy_callOr fun _ => hlock) fun _ => ?_
    refine raises_bind (thrownBy_callOr fun e => ?_) fun _ => raises_pure _
    split <;> exact hlock
  refine raises_bind (thrownBy_requireSameFilesystem _ _ _ hdevice) fun _ => ?_
  refine raises_bind (thrownBy_requireSameFilesystem _ _ _ hdevice) fun _ => ?_
  refine raises_bind (thrownBy_removeStaleTemporaryFiles _ hstale hsync) fun _ => ?_
  refine raises_bind (thrownBy_storageUsage husage) fun _ => ?_
  exact raises_bind (thrownBy_throwIf hopen) fun _ => raises_pure _

/-! ## Preflights and writes -/

theorem thrownBy_preflightRunCompletion (usage : StorageUsage) (plan : CompletionPlan)
    (harithmetic : T .checkedArithmetic) (hpreflight : T .preflightRunCompletion) :
    Raises (ThrownBy T) (preflightRunCompletion config usage plan) := by
  refine raises_bind (raises_ofExcept
    (thrownBy_completionBytes config usage plan harithmetic hpreflight)) fun bytes => ?_
  refine raises_bind (thrownBy_callOr fun _ => hpreflight) fun available => ?_
  refine raises_bind (raises_ofExcept (thrownBy_checked harithmetic).1) fun required => ?_
  exact thrownBy_throwIf hpreflight

theorem thrownBy_preflightWrite (usage : StorageUsage) (size : ℕ) (h : T .preflightWrite) :
    Raises (ThrownBy T) (preflightWrite config usage size) := by
  refine raises_bind (thrownBy_throwIf h) fun _ => ?_
  refine raises_bind (thrownBy_throwIf h) fun _ => ?_
  refine raises_bind (thrownBy_throwIf h) fun _ => ?_
  refine raises_bind (thrownBy_callOr fun _ => h) fun _ => ?_
  exact thrownBy_throwIf h

theorem thrownBy_hitWriteFailure (context : WriteContext) (first second : FailurePoint) :
    Raises (ThrownBy T) (hitWriteFailure context first second) := by
  cases context with
  | metadata => exact raises_pure _
  | blockResult failure => exact thrownBy_callIgnored _
  | manifest failure => exact thrownBy_callIgnored _

theorem thrownBy_writeAll (text : String) (path : Path) (fuel : ℕ) (bytes : Bytes)
    (h : T .writeAll) : Raises (ThrownBy T) (writeAll text path fuel bytes) := by
  induction fuel generalizing bytes with
  | zero => cases bytes <;> exact raises_pure _
  | succ fuel ih =>
    cases bytes with
    | nil => exact raises_pure _
    | cons byte rest =>
      refine raises_bind (thrownBy_callOr fun _ => h) fun written => ?_
      split
      · exact raises_throw h
      · exact ih _

theorem thrownBy_writeTemporary (temporary : Path) (bytes : Bytes) (context : WriteContext)
    (hall : T .writeAll) (hwrite : T .atomicWrite) :
    Raises (ThrownBy T) (writeTemporary config temporary bytes context) := by
  refine raises_bind (thrownBy_writeAll _ _ _ _ hall) fun _ => ?_
  refine raises_bind (thrownBy_hitWriteFailure _ _ _) fun _ => ?_
  refine raises_bind (thrownBy_callOr fun _ => hwrite) fun _ => ?_
  exact thrownBy_hitWriteFailure _ _ _

theorem thrownBy_installTemporary (temporary finalPath : Path) (context : WriteContext)
    (hwrite : T .atomicWrite) (hsync : T .syncDirectory) :
    Raises (ThrownBy T) (installTemporary config temporary finalPath context) := by
  refine raises_bind (thrownBy_callOr fun _ => hwrite) fun _ => ?_
  refine raises_bind (thrownBy_hitWriteFailure _ _ _) fun _ => ?_
  refine raises_bind (thrownBy_callOr fun _ => hwrite) fun _ => ?_
  refine raises_bind (thrownBy_hitWriteFailure _ _ _) fun _ => ?_
  refine raises_bind (thrownBy_syncDirectory _ _ hsync) fun _ => ?_
  split
  · exact thrownBy_syncDirectory _ _ hsync
  · exact raises_pure _

/-- A new file, where the preflight throws what it may. -/
theorem throwsOnly_writeNewFile {E : Exception → Prop} {σ : Type} {h : Handler Op Reply σ} {s : σ}
    (finalPath : Path) (bytes : Bytes) (usage : StorageUsage) (context : WriteContext)
    (hpreflight : ThrowsOnly h E (preflightWrite config usage bytes.length) s)
    (hwrite : T .atomicWrite) (hall : T .writeAll) (hsync : T .syncDirectory)
    (hrest : ∀ e, ThrownBy T e → E e) :
    ThrowsOnly h E (writeNewFile config finalPath bytes usage context) s := by
  refine throwsOnly_bind hpreflight fun _ s' _ => ?_
  refine Raises.throwsOnly (Raises.mono ?_ hrest) s'
  refine raises_bind (thrownBy_callOr fun _ => hwrite) fun pid => ?_
  refine raises_bind (thrownBy_callOr fun _ => hwrite) fun nonce => ?_
  refine raises_bind (thrownBy_callOr fun _ => hwrite) fun _ => ?_
  refine raises_bind (raises_tryCatch (thrownBy_writeTemporary _ _ _ _ hall hwrite)
    fun e he => ?_) fun _ => ?_
  · refine raises_bind (thrownBy_callIgnored _) fun _ => ?_
    exact raises_bind (thrownBy_callIgnored _) fun _ => raises_throw he
  · refine raises_bind (raises_tryCatch (thrownBy_installTemporary _ _ _ _ hwrite hsync)
      fun e he => ?_) fun _ => raises_pure _
    exact raises_bind (thrownBy_callIgnored _) fun _ => raises_throw he

end Throwers

end MonteCarlo
