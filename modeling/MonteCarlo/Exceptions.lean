import Mathlib

/-!
# Exceptions

The runtime reports every failure with a C++ exception.  Which handler catches
it is decided by its type alone, so the type is kept here next to the text;
the source function that throws it is kept as well, which is how the theorems
speak about errors that can or cannot occur.
-/

namespace MonteCarlo

/-- The exception types thrown under `src/`.  `invalidDurableArtifact` is the
subclass of `std::runtime_error` that `run_store.cpp` declares for itself. -/
inductive ExceptionType where
  | invalidArgument
  | domainError
  | lengthError
  | outOfRange
  | overflowError
  | runtimeError
  | logicError
  | filesystemError
  | invalidDurableArtifact
  deriving DecidableEq, Repr

/-- The source functions that contain a `throw`. -/
inductive Thrower where
  | aggregateAdd
  | merge
  | runSpecValidate
  | engineConfigValidate
  | makeBlocks
  | computeBlock
  | modelKernel
  | packCounterV1
  | inverseNormalCdf
  | encodeAggregatePayload
  | encodeExecutionLayoutPayload
  | makeCoordinatorState
  | executeMissingBlocks
  | runParallel
  | runParallelDurable
  | appendString
  | reader
  | openEnvelope
  | decodeRunSpecPayload
  | decodeAggregatePayload
  | validationStatus
  | durableStatus
  | encodeRunMetadata
  | decodeRunMetadata
  | encodeBlockRecord
  | decodeBlockRecord
  | encodeManifest
  | decodeManifest
  | scopedRunLock
  | readFile
  | hasExistingRunPayload
  | syncDirectory
  | requireSameFilesystem
  | storageUsage
  | removeStaleTemporaryFiles
  | removeOrphanBlockResults
  | checkedArithmetic
  | preflightRunCompletion
  | preflightWrite
  | writeAll
  /-- `atomic_write` found other bytes under the final path. -/
  | atomicWriteImmutable
  | atomicWrite
  | expectedMetadata
  | requireCompatible
  | validateManifestSnapshot
  | loadLatestValidManifest
  | runStoreConfigValidate
  /-- `DurableRunStore::open` found manifests and none of them acceptable. -/
  | openNoValidManifest
  | openStore
  | recordResult
  | checkpoint
  /-- `parse_u64`, `parse_size`. -/
  | parse
  | parseFailurePoint
  | failureInjectionConfigValidate
  | failureInjector
  /-- `read_replay_descriptor` and its helpers. -/
  | readReplayDescriptor
  deriving DecidableEq, Repr

/-- A thrown exception. -/
structure Exception where
  type : ExceptionType
  thrower : Thrower
  what : String
  deriving DecidableEq, Repr

/-- Computations that can throw. -/
abbrev Result (α : Type) : Type := Except Exception α

/-- `catch (const std::exception&)` around a computation without I/O: whatever
was thrown is replaced. -/
def Result.mapError {α : Type} (f : Exception → Exception) : Result α → Result α
  | .ok a => .ok a
  | .error e => .error (f e)

/-- `if (condition) throw error;` -/
def throwIf (condition : Bool) (error : Exception) : Result Unit :=
  if condition then .error error else .ok ()

@[simp] theorem throwIf_eq_ok {condition : Bool} {error : Exception} {u : Unit} :
    throwIf condition error = .ok u ↔ condition = false := by
  cases condition <;> simp [throwIf]

theorem throwIf_eq_error {condition : Bool} {error e : Exception} :
    throwIf condition error = .error e ↔ condition = true ∧ e = error := by
  cases condition <;> simp [throwIf, eq_comm]

@[simp] theorem throwIf_false (error : Exception) : throwIf false error = .ok () := rfl

@[simp] theorem throwIf_true (error : Exception) : throwIf true error = .error error := rfl

@[simp] theorem Result.ok_bind {α β : Type} (a : α) (f : α → Result β) :
    ((.ok a : Result α) >>= f) = f a := rfl

@[simp] theorem Result.error_bind {α β : Type} (e : Exception) (f : α → Result β) :
    ((.error e : Result α) >>= f) = .error e := rfl

/-- A sequence of computations returns only if both parts do. -/
theorem Result.bind_eq_ok {α β : Type} {x : Result α} {f : α → Result β} {b : β} :
    (x >>= f) = .ok b ↔ ∃ a, x = .ok a ∧ f a = .ok b := by
  cases x with
  | ok a =>
    constructor
    · intro h; exact ⟨a, rfl, h⟩
    · rintro ⟨a', h, hf⟩; cases h; exact hf
  | error e =>
    constructor
    · intro h; cases h
    · rintro ⟨a, h, -⟩; cases h

/-- A sequence of computations throws what its first or its second part throws. -/
theorem Result.bind_eq_error {α β : Type} {x : Result α} {f : α → Result β} {e : Exception} :
    (x >>= f) = .error e ↔ x = .error e ∨ ∃ a, x = .ok a ∧ f a = .error e := by
  cases x with
  | ok a => simp
  | error e' => simp

end MonteCarlo
