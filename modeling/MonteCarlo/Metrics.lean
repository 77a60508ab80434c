import MonteCarlo.Library.Erasure
import MonteCarlo.Store.Files

/-!
# Runtime metrics

`metrics.hpp`: what a run measures of itself when its caller passes a `RuntimeMetrics*`.

Every access stands behind `if (metrics != nullptr)`.  Here the pointer and the object are one
`Option RuntimeMetrics` in the memory of the process, the accesses are the operations `MetricsOp`,
and the test is made where they are interpreted: without metrics they do nothing, and the clock is
not read.

* `RuntimeMetrics` — the object, `RuntimeMetrics.reset` its start.
* `Meters` — the readings of the clock and the memory that `reserve` provides.
* `MeteredProg` — programs that call the file system and keep metrics.
* `MetricsOp.KeepsWorkers`, `Meter.Prepared` — what the accesses leave of the room for the workers.
-/

namespace MonteCarlo

open Effects Effects.Program

/-! ## The object -/

/-- A `std::vector` with the memory that it has reserved. -/
structure ReservedVector (α : Type) where
  items : List α := []
  capacity : ℕ := 0
  deriving DecidableEq, Repr

/-- `std::vector::assign`. -/
def ReservedVector.assign {α : Type} (vector : ReservedVector α) (count : ℕ) (value : α) :
    ReservedVector α where
  items := List.replicate count value
  capacity := max vector.capacity count

/-- `WorkerMetrics`. -/
structure WorkerMetrics where
  blocksCompleted : UInt64 := 0
  scenariosCompleted : UInt64 := 0
  assignmentWaitNs : UInt64 := 0
  computeNs : UInt64 := 0
  completionQueueWaitNs : UInt64 := 0
  deriving DecidableEq, Repr

/-- `DurableIoMetrics`. -/
structure DurableIoMetrics where
  metadataFilesInstalled : UInt64 := 0
  resultFilesInstalled : UInt64 := 0
  manifestFilesInstalled : UInt64 := 0
  bytesWritten : UInt64 := 0
  writeNs : UInt64 := 0
  fileFsyncNs : UInt64 := 0
  renameNs : UInt64 := 0
  directoryFsyncNs : UInt64 := 0
  deriving DecidableEq, Repr

/-- `RuntimeMetrics`. -/
structure RuntimeMetrics where
  totalElapsedNs : UInt64 := 0
  durableOpenNs : UInt64 := 0
  schedulerAssignmentWaitNs : UInt64 := 0
  coordinatorCompletionWaitNs : UInt64 := 0
  coordinatorConsumeNs : UInt64 := 0
  fixedTreeReduceNs : UInt64 := 0
  maxAssignmentQueueDepth : ℕ := 0
  maxCompletionQueueDepth : ℕ := 0
  maxReductionBacklogBlocks : ℕ := 0
  maxReductionBacklogBytes : ℕ := 0
  workers : ReservedVector WorkerMetrics := {}
  blockComputeNs : List UInt64 := []
  resultPersistNs : List UInt64 := []
  blockCommitNs : List UInt64 := []
  checkpointNs : ReservedVector UInt64 := {}
  checkpointSamplesDropped : UInt64 := 0
  durableIo : DurableIoMetrics := {}
  deriving DecidableEq, Repr

/-- `add_metric`: a sum that stops at the largest word. -/
def addMetric (total value : UInt64) : UInt64 :=
  if maxWord - total < value then maxWord else total + value

/-- A time point of `std::chrono::steady_clock`, in nanoseconds. -/
abbrev TimePoint : Type := ℤ

/-- `elapsed_ns`, given the second reading of the clock. -/
def elapsedNs (started finished : TimePoint) : UInt64 :=
  if 0 < finished - started then UInt64.ofNat (finished - started).toNat else 1

/-- `clock_marker_ns`, given the reading of the clock. -/
def clockMarkerNs (reading : TimePoint) : UInt64 :=
  if 0 < reading then UInt64.ofNat reading.toNat else 1

/-- `elapsed_since_marker_ns`, given the reading of the clock. -/
def elapsedSinceMarkerNs (started : UInt64) (reading : TimePoint) : UInt64 :=
  let stopped := clockMarkerNs reading
  if started < stopped then stopped - started else 1

/-- `sizeof(AggregateStats)` -/
def sizeofAggregateStats : ℕ := 40

namespace RuntimeMetrics

/-- `RuntimeMetrics::reset`, where `reserve` says how much memory a vector gets. -/
def reset (reserve : ℕ → ℕ) (blockCount workerCapacity checkpointCapacity : ℕ) :
    RuntimeMetrics where
  workers := { capacity := reserve workerCapacity }
  blockComputeNs := List.replicate blockCount 0
  resultPersistNs := List.replicate blockCount 0
  blockCommitNs := List.replicate blockCount 0
  checkpointNs := { capacity := reserve checkpointCapacity }

def withTotalElapsedNs (ns : UInt64) (metrics : RuntimeMetrics) : RuntimeMetrics :=
  { metrics with totalElapsedNs := ns }

def withDurableOpenNs (ns : UInt64) (metrics : RuntimeMetrics) : RuntimeMetrics :=
  { metrics with durableOpenNs := ns }

def withFixedTreeReduceNs (ns : UInt64) (metrics : RuntimeMetrics) : RuntimeMetrics :=
  { metrics with fixedTreeReduceNs := ns }

/-- A change of `durable_io`. -/
def inDurableIo (f : DurableIoMetrics → DurableIoMetrics) (metrics : RuntimeMetrics) :
    RuntimeMetrics :=
  { metrics with durableIo := f metrics.durableIo }

/-- `max_reduction_backlog_blocks` and `max_reduction_backlog_bytes`. -/
def withBacklog (blocks : ℕ) (metrics : RuntimeMetrics) : RuntimeMetrics :=
  { metrics with
    maxReductionBacklogBlocks := blocks
    maxReductionBacklogBytes := blocks * sizeofAggregateStats }

/-- What `atomic_write` counts of an installed file. -/
def installed (context : WriteContext) (bytes : ℕ) : RuntimeMetrics → RuntimeMetrics :=
  inDurableIo fun io =>
    let io := { io with bytesWritten := addMetric io.bytesWritten (UInt64.ofNat bytes) }
    match context with
    | .metadata => { io with metadataFilesInstalled := io.metadataFilesInstalled + 1 }
    | .blockResult _ => { io with resultFilesInstalled := io.resultFilesInstalled + 1 }
    | .manifest _ => { io with manifestFilesInstalled := io.manifestFilesInstalled + 1 }

/-- The sample of `record_result`. -/
def persisted (index : ℕ) (ns : UInt64) (metrics : RuntimeMetrics) : RuntimeMetrics :=
  { metrics with resultPersistNs := metrics.resultPersistNs.set index ns }

/-- The sample of `checkpoint`, dropped when there is no room for it. -/
def checkpointed (ns : UInt64) (metrics : RuntimeMetrics) : RuntimeMetrics :=
  if metrics.checkpointNs.items.length < metrics.checkpointNs.capacity then
    { metrics with
      checkpointNs := { metrics.checkpointNs with items := metrics.checkpointNs.items ++ [ns] } }
  else
    { metrics with checkpointSamplesDropped := addMetric metrics.checkpointSamplesDropped 1 }

/-- `clear_commit_samples`. -/
def clearCommitSamples (metrics : RuntimeMetrics) : RuntimeMetrics :=
  { metrics with blockCommitNs := metrics.blockCommitNs.map fun _ => 0 }

end RuntimeMetrics

namespace DurableIoMetrics

def addWriteNs (ns : UInt64) (io : DurableIoMetrics) : DurableIoMetrics :=
  { io with writeNs := addMetric io.writeNs ns }

def addFileFsyncNs (ns : UInt64) (io : DurableIoMetrics) : DurableIoMetrics :=
  { io with fileFsyncNs := addMetric io.fileFsyncNs ns }

def addRenameNs (ns : UInt64) (io : DurableIoMetrics) : DurableIoMetrics :=
  { io with renameNs := addMetric io.renameNs ns }

def addDirectoryFsyncNs (ns : UInt64) (io : DurableIoMetrics) : DurableIoMetrics :=
  { io with directoryFsyncNs := addMetric io.directoryFsyncNs ns }

end DurableIoMetrics

/-! ## Accesses -/

/-- The accesses to the clock and to `*metrics`. -/
inductive MetricsOp where
  /-- `if (metrics != nullptr) { started = MetricsClock::now(); }` -/
  | now
  /-- `if (metrics != nullptr) { metrics->reset(..); }` -/
  | reset (blockCount workerCapacity checkpointCapacity : ℕ)
  /-- `if (metrics != nullptr) { .. }` with assignments to `*metrics` alone. -/
  | update (f : RuntimeMetrics → RuntimeMetrics)

/-- What an access gives back. -/
abbrev MetricsOp.Answer : MetricsOp → Type
  | .now => TimePoint
  | .reset _ _ _ => Unit
  | .update _ => Unit

/-- What metrics see of the machine. -/
structure Meters where
  /-- The readings of the clock. -/
  clock : ℕ → TimePoint
  /-- The capacity of an empty vector after `reserve`. -/
  reserve : (count : ℕ) → { capacity : ℕ // count ≤ capacity }

/-- The metrics of a process, if it keeps any, and how often it has read the clock. -/
structure Meter where
  metrics : Option RuntimeMetrics
  ticks : ℕ

/-- The accesses, which do nothing without metrics. -/
def Meters.handle (meters : Meters) : Handler MetricsOp MetricsOp.Answer Meter
  | .now, meter =>
    match meter.metrics with
    | none => (0, meter)
    | some _ => (meters.clock meter.ticks, { meter with ticks := meter.ticks + 1 })
  | .reset blockCount workerCapacity checkpointCapacity, meter =>
    ((), { meter with
      metrics := meter.metrics.map fun _ =>
        .reset (fun count => meters.reserve count) blockCount workerCapacity checkpointCapacity })
  | .update f, meter => ((), { meter with metrics := meter.metrics.map f })

/-- Programs that call the file system and keep metrics. -/
abbrev MeteredProg (α : Type) : Type := Recorded Reply MetricsOp.Answer Exception α

namespace MeteredProg

/-- `MetricsClock::now()` -/
def now : MeteredProg TimePoint := note MetricsOp.now

/-- `metrics->reset(..)` -/
def reset (blockCount workerCapacity checkpointCapacity : ℕ) : MeteredProg Unit :=
  note (MetricsOp.reset blockCount workerCapacity checkpointCapacity)

/-- Assignments to `*metrics`. -/
def update (f : RuntimeMetrics → RuntimeMetrics) : MeteredProg Unit :=
  note (MetricsOp.update f)

/-- Use the time since `started`. -/
def stopTimer (started : TimePoint) (f : UInt64 → RuntimeMetrics → RuntimeMetrics) :
    MeteredProg Unit := do
  let finished ← now
  update (f (elapsedNs started finished))

/-- A program whose time is added to `durable_io`, unless it throws. -/
def timedIo {α : Type} (add : UInt64 → DurableIoMetrics → DurableIoMetrics) (p : Prog α) :
    MeteredProg α := do
  let started ← now
  let result ← embed p
  stopTimer started fun ns => .inDurableIo (add ns)
  pure result

end MeteredProg

/-! ## What accesses keep -/

/-- An access that leaves the room for the workers as it is. -/
def MetricsOp.KeepsWorkers : MetricsOp → Prop
  | .now => True
  | .reset _ _ _ => False
  | .update f => ∀ metrics, (f metrics).workers.capacity = metrics.workers.capacity

/-- There is room for `count` workers in the metrics, if there are any. -/
def Meter.Prepared (count : ℕ) (meter : Meter) : Prop :=
  ∀ metrics ∈ meter.metrics, count ≤ metrics.workers.capacity

section Keeping

variable {meters : Meters} {meter : Meter} {count : ℕ}

theorem Meter.Prepared.update {f : RuntimeMetrics → RuntimeMetrics}
    (hf : ∀ metrics, (f metrics).workers.capacity = metrics.workers.capacity)
    (h : meter.Prepared count) :
    ({ meter with metrics := meter.metrics.map f } : Meter).Prepared count := by
  intro metrics hmetrics
  obtain ⟨before, hbefore, rfl⟩ := Option.mem_map.mp hmetrics
  rw [hf]
  exact h before hbefore

theorem Meter.Prepared.mono {fewer : ℕ} (h : meter.Prepared count) (hle : fewer ≤ count) :
    meter.Prepared fewer :=
  fun metrics hmetrics => hle.trans (h metrics hmetrics)

/-- Reading the clock changes no metrics. -/
@[simp] theorem Meters.handle_now_metrics (meters : Meters) (meter : Meter) :
    (meters.handle .now meter).2.metrics = meter.metrics := by
  rcases meter with ⟨_ | metrics, ticks⟩ <;> rfl

theorem Meters.handle_prepared (op : MetricsOp) (hop : op.KeepsWorkers)
    (h : meter.Prepared count) : (meters.handle op meter).2.Prepared count := by
  cases op with
  | now =>
    rw [Meter.Prepared, Meters.handle_now_metrics]
    exact h
  | reset blocks workers checkpoints => exact hop.elim
  | update f => exact h.update hop

/-- After a reset there is room for as many workers as it was asked for. -/
theorem Meters.reset_prepared (meters : Meters) (meter : Meter) (blocks workers checkpoints : ℕ) :
    (meters.handle (.reset blocks workers checkpoints) meter).2.Prepared workers := by
  intro metrics hmetrics
  obtain ⟨before, -, rfl⟩ := Option.mem_map.mp hmetrics
  exact (meters.reserve workers).2

end Keeping

/-! ## Programs without their accesses -/

section Erasing

variable {P : MetricsOp → Prop}

theorem erases_update {f : RuntimeMetrics → RuntimeMetrics} (hf : P (.update f)) :
    Erases P (MeteredProg.update f) (pure () : Prog Unit) :=
  erases_note hf fun _ => rfl

theorem erases_stopTimer {started : TimePoint} {f : UInt64 → RuntimeMetrics → RuntimeMetrics}
    (hnow : P .now) (hf : ∀ ns, P (.update (f ns))) :
    Erases P (MeteredProg.stopTimer started f) (pure () : Prog Unit) :=
  .note_bind hnow fun _ => erases_update (hf _)

theorem erases_timedIo {α : Type} {add : UInt64 → DurableIoMetrics → DurableIoMetrics} {p : Prog α} :
    Erases MetricsOp.KeepsWorkers (MeteredProg.timedIo add p) p := by
  conv_rhs => rw [← bind_pure p]
  refine .note_bind trivial fun _ => (erases_embed _).bind fun result => ?_
  exact (erases_stopTimer trivial fun _ _ => rfl).skip (erases_pure result)

end Erasing

end MonteCarlo
