import MonteCarlo.Engine.Progress

/-!
# Condition variables

`Execution.Step` lets a thread whose queue operation would block try again at any time.  In
`bounded_queue.hpp` such a thread sleeps on a condition variable until it is notified.  Here the
condition variables are sets of sleeping threads: `notify_one` wakes an arbitrary one of them,
`notify_all` wakes all, a thread that wakes up looks at its queue again, and a sleeping thread does
nothing else.  Every notification is made while the mutex is held, so a queue operation and its
notification are one step.  As the standard allows, threads may also wake up for no reason.

* `NoLostWakeup` — what one queue and its condition variables keep: while a thread sleeps, every
  item it could take has an awake thread that will look for it, or someone is about to close the
  queue.
* `Monitored.exists_awake` — as long as the function has not returned, some thread that is awake
  can go on.
* `no_stuck_state` — no thread sleeps forever.
-/

namespace MonteCarlo

/-! ## One queue -/

/-- The two condition variables of a `BoundedQueue`, each the set of the threads that sleep on it:
threads of `π` push, threads of `ρ` pop.  `accepted` and `popped` record the past. -/
structure QueueMonitor (π ρ α : Type) where
  notFull : Finset π
  notEmpty : Finset ρ
  accepted : List α
  popped : List α

/-- `notify_one`. -/
inductive NotifyOne {τ : Type} [DecidableEq τ] (sleeping : Finset τ) : Finset τ → Prop where
  | nobody (h : sleeping = ∅) : NotifyOne sleeping ∅
  | wakes {thread : τ} (h : thread ∈ sleeping) : NotifyOne sleeping (sleeping.erase thread)

section Queue

variable {π ρ α : Type} [DecidableEq π] [DecidableEq ρ]

/-- What a step that takes `queue` to `queue'` does to the condition variables. -/
inductive Signals (queue queue' : BoundedQueue α) (monitor : QueueMonitor π ρ α) :
    QueueMonitor π ρ α → Prop where
  | quiet (h : queue' = queue) : Signals queue queue' monitor monitor
  | push {item : α} {sleeping : Finset ρ} (h : queue.push item = some (true, queue'))
      (hnotify : NotifyOne monitor.notEmpty sleeping) :
      Signals queue queue' monitor
        { monitor with notEmpty := sleeping, accepted := monitor.accepted ++ [item] }
  | pop {item : α} {sleeping : Finset π} (h : queue.pop = some (some item, queue'))
      (hnotify : NotifyOne monitor.notFull sleeping) :
      Signals queue queue' monitor
        { monitor with notFull := sleeping, popped := monitor.popped ++ [item] }
  /-- `notify_all` on both. -/
  | close (h : queue' = queue.close) :
      Signals queue queue' monitor { monitor with notFull := ∅, notEmpty := ∅ }

/-- `pushers` and `poppers` are the threads inside `push` and `pop`, asleep or awake, and `closing`
says that someone is about to close the queue. -/
structure NoLostWakeup (queue : BoundedQueue α) (monitor : QueueMonitor π ρ α)
    (pushers : Finset π) (poppers : Finset ρ) (closing : Prop) : Prop where
  notFull_sub : monitor.notFull ⊆ pushers
  notEmpty_sub : monitor.notEmpty ⊆ poppers
  closed : queue.closed = true → monitor.notFull = ∅ ∧ monitor.notEmpty = ∅
  /-- Every item has an awake thread that looks for it. -/
  items : monitor.notEmpty.Nonempty →
    queue.items.length ≤ (poppers \ monitor.notEmpty).card ∨ closing
  /-- Every free place has an awake thread that looks for it. -/
  room : monitor.notFull.Nonempty →
    queue.capacity ≤ queue.items.length + (pushers \ monitor.notFull).card ∨ closing
  bounded : queue.items.length ≤ queue.capacity
  past : monitor.accepted = monitor.popped ++ queue.items

theorem NotifyOne.subset {τ : Type} [DecidableEq τ] {sleeping left : Finset τ}
    (h : NotifyOne sleeping left) : left ⊆ sleeping := by
  cases h with
  | nobody h => exact Finset.empty_subset _
  | wakes h => exact Finset.erase_subset _ _

theorem exists_notifyOne {τ : Type} [DecidableEq τ] (sleeping : Finset τ) :
    ∃ left, NotifyOne sleeping left := by
  rcases sleeping.eq_empty_or_nonempty with h | ⟨thread, h⟩
  · exact ⟨∅, .nobody h⟩
  · exact ⟨_, .wakes h⟩

/-- A notification that leaves someone asleep has woken someone. -/
theorem NotifyOne.card_awake {τ : Type} [DecidableEq τ] {sleeping left threads : Finset τ}
    (h : NotifyOne sleeping left) (hleft : left.Nonempty) (hsub : sleeping ⊆ threads) :
    (threads \ sleeping).card + 1 ≤ (threads \ left).card := by
  cases h with
  | nobody h => exact absurd hleft Finset.not_nonempty_empty
  | @wakes thread h =>
    have hnot : thread ∉ threads \ sleeping := fun hmem => (Finset.mem_sdiff.mp hmem).2 h
    rw [← Finset.card_insert_of_notMem hnot]
    refine Finset.card_le_card ?_
    intro other hother
    rcases Finset.mem_insert.mp hother with rfl | hother
    · exact Finset.mem_sdiff.mpr ⟨hsub h, Finset.notMem_erase _ _⟩
    · obtain ⟨hmem, hnot⟩ := Finset.mem_sdiff.mp hother
      exact Finset.mem_sdiff.mpr ⟨hmem, fun herase => hnot (Finset.mem_of_mem_erase herase)⟩

theorem card_awake_mono {τ : Type} [DecidableEq τ] (sleeping : Finset τ)
    {threads more : Finset τ} (h : threads ⊆ more) :
    (threads \ sleeping).card ≤ (more \ sleeping).card :=
  Finset.card_le_card (Finset.sdiff_subset_sdiff h (Finset.Subset.refl _))

theorem card_awake_insert {τ : Type} [DecidableEq τ] (sleeping : Finset τ)
    {threads others : Finset τ} {thread : τ} (h : threads ⊆ insert thread others) :
    (threads \ sleeping).card ≤ (others \ sleeping).card + 1 := by
  refine le_trans (Finset.card_le_card ?_) (Finset.card_insert_le thread _)
  intro other hother
  obtain ⟨hmem, hnot⟩ := Finset.mem_sdiff.mp hother
  rcases Finset.mem_insert.mp (h hmem) with rfl | hmem
  · exact Finset.mem_insert_self _ _
  · exact Finset.mem_insert_of_mem (Finset.mem_sdiff.mpr ⟨hmem, hnot⟩)

theorem BoundedQueue.push_room {queue queue' : BoundedQueue α} {item : α}
    (h : queue.push item = some (true, queue')) : queue.items.length < queue.capacity := by
  unfold BoundedQueue.push at h
  split at h
  · simp at h
  · split at h
    · assumption
    · simp at h

namespace NoLostWakeup

variable {queue queue' : BoundedQueue α} {monitor monitor' : QueueMonitor π ρ α}
  {pushers pushers' : Finset π} {poppers poppers' : Finset ρ} {closing closing' : Prop}

theorem new (capacity : ℕ) :
    NoLostWakeup (.new capacity : BoundedQueue α) (⟨∅, ∅, [], []⟩ : QueueMonitor π ρ α) pushers
      poppers closing where
  notFull_sub := Finset.empty_subset _
  notEmpty_sub := Finset.empty_subset _
  closed := fun _ => ⟨rfl, rfl⟩
  items := fun h => absurd h Finset.not_nonempty_empty
  room := fun h => absurd h Finset.not_nonempty_empty
  bounded := Nat.zero_le _
  past := rfl

/-- Nobody sleeps on a closed queue. -/
theorem open_of_notEmpty (h : NoLostWakeup queue monitor pushers poppers closing)
    (hnonempty : monitor.notEmpty.Nonempty) : ¬ queue.closed = true := by
  intro hclosed
  rw [(h.closed hclosed).2] at hnonempty
  exact Finset.not_nonempty_empty hnonempty

theorem open_of_notFull (h : NoLostWakeup queue monitor pushers poppers closing)
    (hnonempty : monitor.notFull.Nonempty) : ¬ queue.closed = true := by
  intro hclosed
  rw [(h.closed hclosed).1] at hnonempty
  exact Finset.not_nonempty_empty hnonempty

/-- Threads may wake up for no reason. -/
theorem wake (h : NoLostWakeup queue monitor pushers poppers closing)
    (hfull : monitor'.notFull ⊆ monitor.notFull) (hempty : monitor'.notEmpty ⊆ monitor.notEmpty)
    (haccepted : monitor'.accepted = monitor.accepted) (hpopped : monitor'.popped = monitor.popped) :
    NoLostWakeup queue monitor' pushers poppers closing where
  notFull_sub := hfull.trans h.notFull_sub
  notEmpty_sub := hempty.trans h.notEmpty_sub
  closed := by
    intro hclosed
    obtain ⟨hf, he⟩ := h.closed hclosed
    rw [hf] at hfull
    rw [he] at hempty
    exact ⟨Finset.subset_empty.mp hfull, Finset.subset_empty.mp hempty⟩
  items := by
    intro hnonempty
    refine (h.items (hnonempty.mono hempty)).imp (fun hle => hle.trans ?_) id
    exact Finset.card_le_card (Finset.sdiff_subset_sdiff (Finset.Subset.refl _) hempty)
  room := by
    intro hnonempty
    refine (h.room (hnonempty.mono hfull)).imp (fun hle => hle.trans ?_) id
    exact Nat.add_le_add_left
      (Finset.card_le_card (Finset.sdiff_subset_sdiff (Finset.Subset.refl _) hfull)) _
  bounded := h.bounded
  past := by rw [haccepted, hpopped, h.past]

/-- A thread that finds the queue empty falls asleep. -/
theorem sleepEmpty (h : NoLostWakeup queue monitor pushers poppers closing) {thread : ρ}
    (hthread : thread ∈ poppers) (hwait : queue.pop = none) :
    NoLostWakeup queue { monitor with notEmpty := insert thread monitor.notEmpty } pushers poppers
      closing := by
  obtain ⟨hitems, hopen⟩ : queue.items = [] ∧ queue.closed = false := by
    unfold BoundedQueue.pop at hwait
    split at hwait
    · cases hwait
    · split at hwait
      · cases hwait
      · exact ⟨‹_›, by simpa using ‹¬ queue.closed = true›⟩
  refine { h with notEmpty_sub := ?_, closed := ?_, items := ?_ }
  · exact Finset.insert_subset hthread h.notEmpty_sub
  · rw [hopen]; nofun
  · intro _
    rw [hitems]
    exact Or.inl (Nat.zero_le _)

/-- A thread that finds the queue full falls asleep. -/
theorem sleepFull (h : NoLostWakeup queue monitor pushers poppers closing) {thread : π} {item : α}
    (hthread : thread ∈ pushers) (hwait : queue.push item = none) :
    NoLostWakeup queue { monitor with notFull := insert thread monitor.notFull } pushers poppers
      closing := by
  obtain ⟨hfull, hopen⟩ : queue.capacity ≤ queue.items.length ∧ queue.closed = false := by
    unfold BoundedQueue.push at hwait
    split at hwait
    · cases hwait
    · split at hwait
      · cases hwait
      · exact ⟨Nat.le_of_not_lt ‹_›, by simpa using ‹¬ queue.closed = true›⟩
  refine { h with notFull_sub := ?_, closed := ?_, room := ?_ }
  · exact Finset.insert_subset hthread h.notFull_sub
  · rw [hopen]; nofun
  · exact fun _ => Or.inl (hfull.trans (Nat.le_add_right _ _))

/-- A step in which at most one thread leaves `push` or `pop`: with its item, or towards closing
the queue, or because the queue is closed. -/
theorem step (h : NoLostWakeup queue monitor pushers poppers closing)
    (hsignals : Signals queue queue' monitor monitor')
    (hpushers : pushers ⊆ pushers' ∨ closing' ∨ queue'.closed = true ∨
      ∃ item thread, queue.push item = some (true, queue') ∧ pushers ⊆ insert thread pushers')
    (hpoppers : poppers ⊆ poppers' ∨ closing' ∨ queue'.closed = true ∨
      ∃ item thread, queue.pop = some (some item, queue') ∧ poppers ⊆ insert thread poppers')
    (hclosing : closing → closing' ∨ queue'.closed = true)
    (hfull : monitor.notFull ⊆ pushers') (hempty : monitor.notEmpty ⊆ poppers') :
    NoLostWakeup queue' monitor' pushers' poppers' closing' := by
  cases hsignals with
  | quiet hqueue =>
    subst hqueue
    refine { h with notFull_sub := hfull, notEmpty_sub := hempty, items := ?_, room := ?_ }
    · intro hnonempty
      have hopen := h.open_of_notEmpty hnonempty
      rcases h.items hnonempty with hle | hclose
      · rcases hpoppers with hsub | hclose | hclosed | ⟨item, thread, hpop, -⟩
        · exact Or.inl (hle.trans (card_awake_mono _ hsub))
        · exact Or.inr hclose
        · exact absurd hclosed hopen
        · have := congrArg List.length (BoundedQueue.pop_item hpop).1
          simp at this
      · exact Or.inr ((hclosing hclose).resolve_right hopen)
    · intro hnonempty
      have hopen := h.open_of_notFull hnonempty
      rcases h.room hnonempty with hle | hclose
      · rcases hpushers with hsub | hclose | hclosed | ⟨item, thread, hpush, -⟩
        · exact Or.inl (hle.trans (Nat.add_le_add_left (card_awake_mono _ hsub) _))
        · exact Or.inr hclose
        · exact absurd hclosed hopen
        · have := congrArg (fun q => q.items.length) (BoundedQueue.push_accepted hpush).2
          simp at this
      · exact Or.inr ((hclosing hclose).resolve_right hopen)
  | @push item sleeping hpush hnotify =>
    have hroom := BoundedQueue.push_room hpush
    obtain ⟨hopen, rfl⟩ := BoundedQueue.push_accepted hpush
    have hclosing' : closing → closing' := fun hc =>
      (hclosing hc).resolve_right (by simp [hopen])
    refine
      { notFull_sub := hfull
        notEmpty_sub := hnotify.subset.trans hempty
        closed := by simp [hopen]
        items := ?_
        room := ?_
        bounded := by simpa using hroom
        past := by simp [h.past] }
    · intro hleft
      rcases h.items (hleft.mono hnotify.subset) with hle | hclose
      · rcases hpoppers with hsub | hclose | hclosed | ⟨item', thread, hpop, -⟩
        · refine Or.inl ?_
          have hwoken := hnotify.card_awake hleft hempty
          have hmono := card_awake_mono monitor.notEmpty hsub
          simp only [List.length_append, List.length_singleton]
          omega
        · exact Or.inr hclose
        · rw [hopen] at hclosed; cases hclosed
        · have := congrArg List.length (BoundedQueue.pop_item hpop).1
          simp at this
          omega
      · exact Or.inr (hclosing' hclose)
    · intro hnonempty
      rcases h.room hnonempty with hle | hclose
      · simp only [List.length_append, List.length_singleton]
        rcases hpushers with hsub | hclose | hclosed | ⟨item', thread, -, hsub⟩
        · have hmono := card_awake_mono monitor.notFull hsub
          exact Or.inl (by omega)
        · exact Or.inr hclose
        · rw [hopen] at hclosed; cases hclosed
        · have hmono := card_awake_insert monitor.notFull hsub
          exact Or.inl (by omega)
      · exact Or.inr (hclosing' hclose)
  | @pop item sleeping hpop hnotify =>
    obtain ⟨hitems, hclosed', hcapacity⟩ := BoundedQueue.pop_item hpop
    have hlength : queue.items.length = queue'.items.length + 1 := by rw [hitems]; rfl
    refine
      { notFull_sub := hnotify.subset.trans hfull
        notEmpty_sub := hempty
        closed := ?_
        items := ?_
        room := ?_
        bounded := by have := h.bounded; omega
        past := by rw [h.past, hitems]; simp }
    · intro hclosed
      obtain ⟨hf, he⟩ := h.closed (hclosed' ▸ hclosed)
      refine ⟨Finset.subset_empty.mp (hf ▸ hnotify.subset), he⟩
    · intro hnonempty
      have hopen := hclosed' ▸ h.open_of_notEmpty hnonempty
      dsimp only
      rcases h.items hnonempty with hle | hclose
      · rcases hpoppers with hsub | hclose | hclosed | ⟨item', thread, -, hsub⟩
        · have hmono := card_awake_mono monitor.notEmpty hsub
          exact Or.inl (by omega)
        · exact Or.inr hclose
        · exact absurd hclosed hopen
        · have hmono := card_awake_insert monitor.notEmpty hsub
          exact Or.inl (by omega)
      · exact Or.inr ((hclosing hclose).resolve_right hopen)
    · intro hleft
      have hnonempty := hleft.mono hnotify.subset
      have hopen := hclosed' ▸ h.open_of_notFull hnonempty
      dsimp only
      rcases h.room hnonempty with hle | hclose
      · rcases hpushers with hsub | hclose | hclosed | ⟨item', thread, hpush, -⟩
        · refine Or.inl ?_
          have hwoken := hnotify.card_awake hleft hfull
          have hmono := card_awake_mono monitor.notFull hsub
          omega
        · exact Or.inr hclose
        · exact absurd hclosed hopen
        · have := congrArg (fun q => q.items.length) (BoundedQueue.push_accepted hpush).2
          simp at this
          omega
      · exact Or.inr ((hclosing hclose).resolve_right hopen)
  | close hqueue =>
    subst hqueue
    exact
      { notFull_sub := Finset.empty_subset _
        notEmpty_sub := Finset.empty_subset _
        closed := fun _ => ⟨rfl, rfl⟩
        items := fun hnonempty => absurd hnonempty Finset.not_nonempty_empty
        room := fun hnonempty => absurd hnonempty Finset.not_nonempty_empty
        bounded := h.bounded
        past := h.past }

end NoLostWakeup

end Queue

/-! ## Who is inside a queue operation -/

/-- `record_error` has not closed the assignment queue yet. -/
def RaiseState.beforeAssignments : RaiseState → Bool
  | .storeError _ | .closeAssignments => true
  | .closeCompletions => false

def WorkerState.isPopping : WorkerState → Bool
  | .popping => true
  | _ => false

def WorkerState.isPushing : WorkerState → Bool
  | .pushing _ => true
  | _ => false

def SchedulerState.isPushing : SchedulerState → Bool
  | .pushing (_ :: _) => true
  | _ => false

def CoordinatorThread.isPopping : CoordinatorThread → Bool
  | .popping => true
  | _ => false

namespace Execution

variable {job : Job} {κ : Type} {consume : BlockResult → κ → Result Unit × κ}
variable {state state' : Execution job κ}

/-- The workers inside `assignments.pop`. -/
def poppingWorkers (state : Execution job κ) : Finset (Fin job.workers) :=
  Finset.univ.filter fun i => (state.worker i).isPopping = true

/-- The workers inside `completions.push`. -/
def pushingWorkers (state : Execution job κ) : Finset (Fin job.workers) :=
  Finset.univ.filter fun i => (state.worker i).isPushing = true

/-- The scheduler, while it is inside `assignments.push`. -/
def pushingScheduler (state : Execution job κ) : Finset Unit :=
  Finset.univ.filter fun _ => state.scheduler.isPushing = true

/-- The coordinating thread, while it is inside `completions.pop`. -/
def poppingCoordinator (state : Execution job κ) : Finset Unit :=
  Finset.univ.filter fun _ => state.coordinator.isPopping = true

/-- Some thread has an exception in hand and will close the assignment queue. -/
def ClosesAssignments (state : Execution job κ) : Prop :=
  (∃ i raise, state.worker i = .raising raise ∧ raise.beforeAssignments = true) ∨
    (∃ raise, state.scheduler = .raising raise ∧ raise.beforeAssignments = true) ∨
    ∃ raise, state.coordinator = .raising raise ∧ raise.beforeAssignments = true

/-- Some thread has an exception in hand and will close the completion queue. -/
def ClosesCompletions (state : Execution job κ) : Prop :=
  (∃ i raise, state.worker i = .raising raise) ∨ (∃ raise, state.scheduler = .raising raise) ∨
    ∃ raise, state.coordinator = .raising raise

theorem mem_poppingWorkers {i : Fin job.workers} :
    i ∈ state.poppingWorkers ↔ state.worker i = .popping := by
  rw [poppingWorkers, Finset.mem_filter]
  cases state.worker i <;> simp [WorkerState.isPopping]

theorem mem_pushingWorkers {i : Fin job.workers} :
    i ∈ state.pushingWorkers ↔ ∃ result, state.worker i = .pushing result := by
  rw [pushingWorkers, Finset.mem_filter]
  cases state.worker i <;> simp [WorkerState.isPushing]

theorem mem_pushingScheduler {u : Unit} :
    u ∈ state.pushingScheduler ↔ ∃ block rest, state.scheduler = .pushing (block :: rest) := by
  rw [pushingScheduler, Finset.mem_filter]
  cases state.scheduler with
  | pushing pending => cases pending <;> simp [SchedulerState.isPushing]
  | _ => simp [SchedulerState.isPushing]

theorem mem_poppingCoordinator {u : Unit} :
    u ∈ state.poppingCoordinator ↔ state.coordinator = .popping := by
  rw [poppingCoordinator, Finset.mem_filter]
  cases state.coordinator <;> simp [CoordinatorThread.isPopping]

/-! ## What a step does to a queue and the threads inside it -/

theorem step_poppingWorkers (h : Step consume state state') :
    state.poppingWorkers ⊆ state'.poppingWorkers ∨ state'.ClosesAssignments ∨
      state'.assignments.closed = true ∨
      ∃ item thread, state.assignments.pop = some (some item, state'.assignments) ∧
        state.poppingWorkers ⊆ insert thread state'.poppingWorkers := by
  have hstay : (∀ j, state.worker j = .popping → state'.worker j = .popping) →
      state.poppingWorkers ⊆ state'.poppingWorkers := fun hall j hj =>
    mem_poppingWorkers.mpr (hall j (mem_poppingWorkers.mp hj))
  cases h with
  | @workerPops i block queue h hpop =>
    refine Or.inr (Or.inr (Or.inr ⟨block, i, hpop, fun j hj => ?_⟩))
    rw [mem_poppingWorkers] at hj
    rw [Finset.mem_insert, mem_poppingWorkers]
    grind
  | workerDrained h hpop => exact Or.inr (Or.inr (Or.inl (BoundedQueue.pop_drained hpop).2.1))
  | @workerThrows i error h =>
    exact Or.inr (Or.inl (Or.inl ⟨i, .storeError error, by grind, rfl⟩))
  | _ => exact Or.inl (hstay (by grind))

theorem step_pushingScheduler (h : Step consume state state') :
    state.pushingScheduler ⊆ state'.pushingScheduler ∨ state'.ClosesAssignments ∨
      state'.assignments.closed = true ∨
      ∃ item thread, state.assignments.push item = some (true, state'.assignments) ∧
        state.pushingScheduler ⊆ insert thread state'.pushingScheduler := by
  have hstay : state'.scheduler = state.scheduler →
      state.pushingScheduler ⊆ state'.pushingScheduler := by
    intro hsame
    rw [pushingScheduler, pushingScheduler, hsame]
  cases h with
  | spawnScheduler h hscheduler =>
    refine Or.inl fun u hu => ?_
    obtain ⟨block, rest, hpushing⟩ := mem_pushingScheduler.mp hu
    rw [hscheduler] at hpushing
    cases hpushing
  | @schedulerPushes block rest queue h hpush =>
    exact Or.inr (Or.inr (Or.inr ⟨block, (), hpush, fun _ _ => Finset.mem_insert_self _ _⟩))
  | schedulerRefused h hpush => exact Or.inr (Or.inr (Or.inl (BoundedQueue.push_refused hpush).1))
  | schedulerDone h =>
    refine Or.inl fun u hu => ?_
    obtain ⟨block, rest, hpushing⟩ := mem_pushingScheduler.mp hu
    rw [h] at hpushing
    cases hpushing
  | schedulerCloses h => exact Or.inr (Or.inr (Or.inl rfl))
  | schedulerThrows error h =>
    exact Or.inr (Or.inl (Or.inr (Or.inl ⟨.storeError error, rfl, rfl⟩)))
  | @schedulerRaises raise h =>
    refine Or.inl fun u hu => ?_
    obtain ⟨block, rest, hpushing⟩ := mem_pushingScheduler.mp hu
    rw [h] at hpushing
    cases hpushing
  | workerRaises h => exact Or.inl (hstay (recordError_scheduler _))
  | coordinatorRaises h => exact Or.inl (hstay (recordError_scheduler _))
  | _ => exact Or.inl (hstay rfl)

theorem step_pushingWorkers (h : Step consume state state') :
    state.pushingWorkers ⊆ state'.pushingWorkers ∨ state'.ClosesCompletions ∨
      state'.completions.closed = true ∨
      ∃ item thread, state.completions.push item = some (true, state'.completions) ∧
        state.pushingWorkers ⊆ insert thread state'.pushingWorkers := by
  have hstay : (∀ j result, state.worker j = .pushing result → state'.worker j = .pushing result) →
      state.pushingWorkers ⊆ state'.pushingWorkers := fun hall j hj => by
    obtain ⟨result, hresult⟩ := mem_pushingWorkers.mp hj
    exact mem_pushingWorkers.mpr ⟨result, hall j result hresult⟩
  cases h with
  | @workerPushes i result queue h hpush =>
    refine Or.inr (Or.inr (Or.inr ⟨result, i, hpush, fun j hj => ?_⟩))
    rw [mem_pushingWorkers] at hj
    rw [Finset.mem_insert, mem_pushingWorkers]
    grind
  | workerRefused h hpush => exact Or.inr (Or.inr (Or.inl (BoundedQueue.push_refused hpush).1))
  | @workerThrows i error h => exact Or.inr (Or.inl (Or.inl ⟨i, .storeError error, by grind⟩))
  | _ => exact Or.inl (hstay (by grind))

theorem step_poppingCoordinator (h : Step consume state state') :
    state.poppingCoordinator ⊆ state'.poppingCoordinator ∨ state'.ClosesCompletions ∨
      state'.completions.closed = true ∨
      ∃ item thread, state.completions.pop = some (some item, state'.completions) ∧
        state.poppingCoordinator ⊆ insert thread state'.poppingCoordinator := by
  have hstay : (state.coordinator = .popping → state'.coordinator = .popping) →
      state.poppingCoordinator ⊆ state'.poppingCoordinator := fun hall u hu =>
    mem_poppingCoordinator.mpr (hall (mem_poppingCoordinator.mp hu))
  cases h with
  | @coordinatorPops result queue h hpop =>
    exact Or.inr (Or.inr (Or.inr ⟨result, (), hpop, fun _ _ => Finset.mem_insert_self _ _⟩))
  | coordinatorDrained h hpop =>
    exact Or.inr (Or.inr (Or.inl (BoundedQueue.pop_drained hpop).2.1))
  | _ => exact Or.inl (hstay (by grind))

/-- Whoever is about to close the assignment queue does so. -/
theorem step_closesAssignments (h : Step consume state state') (hc : state.ClosesAssignments) :
    state'.ClosesAssignments ∨ state'.assignments.closed = true := by
  have hstay : (∀ j raise, state.worker j = .raising raise → state'.worker j = .raising raise) →
      (∀ raise, state.scheduler = .raising raise → state'.scheduler = .raising raise) →
      (∀ raise, state.coordinator = .raising raise → state'.coordinator = .raising raise) →
      state'.ClosesAssignments := fun hworker hscheduler hcoordinator =>
    hc.imp (fun ⟨j, raise, hj, hbefore⟩ => ⟨j, raise, hworker j raise hj, hbefore⟩) (Or.imp
      (fun ⟨raise, hs, hbefore⟩ => ⟨raise, hscheduler raise hs, hbefore⟩)
      (fun ⟨raise, hs, hbefore⟩ => ⟨raise, hcoordinator raise hs, hbefore⟩))
  cases h with
  | @workerRaises i raise h =>
    cases raise with
    | storeError error => exact Or.inl (Or.inl ⟨i, .closeAssignments, by grind [recordError], rfl⟩)
    | closeAssignments => exact Or.inr rfl
    | closeCompletions =>
      refine Or.inl (hc.imp ?_ id)
      rintro ⟨j, raise, hj, hbefore⟩
      have hne : j ≠ i := by
        rintro rfl
        rw [h] at hj
        cases hj
        cases hbefore
      exact ⟨j, raise, (Function.update_of_ne hne _ _).trans hj, hbefore⟩
  | @schedulerRaises raise h =>
    cases raise with
    | storeError error => exact Or.inl (Or.inr (Or.inl ⟨.closeAssignments, rfl, rfl⟩))
    | closeAssignments => exact Or.inr rfl
    | closeCompletions =>
      refine Or.inl (hc.imp id (Or.imp ?_ id))
      grind [RaiseState.beforeAssignments]
  | @coordinatorRaises raise h =>
    cases raise with
    | storeError error => exact Or.inl (Or.inr (Or.inr ⟨.closeAssignments, rfl, rfl⟩))
    | closeAssignments => exact Or.inr rfl
    | closeCompletions =>
      refine Or.inl (hc.imp id (Or.imp id ?_))
      grind [RaiseState.beforeAssignments]
  | _ => exact Or.inl (hstay (by grind [WorkerState.running])
      (by grind [SchedulerState.running]) (by grind))

/-- Whoever is about to close the completion queue does so. -/
theorem step_closesCompletions (h : Step consume state state') (hc : state.ClosesCompletions) :
    state'.ClosesCompletions ∨ state'.completions.closed = true := by
  have hstay : (∀ j raise, state.worker j = .raising raise → state'.worker j = .raising raise) →
      (∀ raise, state.scheduler = .raising raise → state'.scheduler = .raising raise) →
      (∀ raise, state.coordinator = .raising raise → state'.coordinator = .raising raise) →
      state'.ClosesCompletions := fun hworker hscheduler hcoordinator =>
    hc.imp (fun ⟨j, raise, hj⟩ => ⟨j, raise, hworker j raise hj⟩) (Or.imp
      (fun ⟨raise, hs⟩ => ⟨raise, hscheduler raise hs⟩)
      (fun ⟨raise, hs⟩ => ⟨raise, hcoordinator raise hs⟩))
  cases h with
  | @workerRaises i raise h =>
    cases raise with
    | storeError error => exact Or.inl (Or.inl ⟨i, .closeAssignments, by grind [recordError]⟩)
    | closeAssignments => exact Or.inl (Or.inl ⟨i, .closeCompletions, by grind [recordError]⟩)
    | closeCompletions => exact Or.inr rfl
  | @schedulerRaises raise h =>
    cases raise with
    | storeError error => exact Or.inl (Or.inr (Or.inl ⟨.closeAssignments, rfl⟩))
    | closeAssignments => exact Or.inl (Or.inr (Or.inl ⟨.closeCompletions, rfl⟩))
    | closeCompletions => exact Or.inr rfl
  | @coordinatorRaises raise h =>
    cases raise with
    | storeError error => exact Or.inl (Or.inr (Or.inr ⟨.closeAssignments, rfl⟩))
    | closeAssignments => exact Or.inl (Or.inr (Or.inr ⟨.closeCompletions, rfl⟩))
    | closeCompletions => exact Or.inr rfl
  | _ => exact Or.inl (hstay (by grind [WorkerState.running])
      (by grind [SchedulerState.running]) (by grind))

end Execution

/-! ## All threads -/

/-- An execution together with the condition variables of its queues.  The scheduler pushes
assignments and the workers pop them; the workers push completions and the coordinating thread
pops them. -/
structure Monitored (job : Job) (κ : Type) where
  execution : Execution job κ
  assignments : QueueMonitor Unit (Fin job.workers) ScenarioBlock
  completions : QueueMonitor (Fin job.workers) Unit BlockResult

namespace Monitored

open Execution (Thread)

variable {job : Job} {κ : Type}

/-- Nobody sleeps at the start. -/
def initial (job : Job) (sink : κ) : Monitored job κ :=
  ⟨Execution.initial job sink, ⟨∅, ∅, [], []⟩, ⟨∅, ∅, [], []⟩⟩

/-- A thread sleeps on one of the condition variables. -/
def Asleep (state : Monitored job κ) : Thread job.workers → Prop
  | .scheduler => () ∈ state.assignments.notFull
  | .worker i => i ∈ state.assignments.notEmpty ∨ i ∈ state.completions.notFull
  | .coordinator => () ∈ state.completions.notEmpty

/-- A thread is where it was. -/
def Stays (before after : Execution job κ) : Thread job.workers → Prop
  | .scheduler => after.scheduler = before.scheduler
  | .worker i => after.worker i = before.worker i
  | .coordinator => after.coordinator = before.coordinator

/-- One step of a thread that is awake. -/
inductive Step (consume : BlockResult → κ → Result Unit × κ) :
    Monitored job κ → Monitored job κ → Prop where
  /-- A step of the program, with the notifications it makes. -/
  | moves {state execution assignments completions}
      (hstep : Execution.Step consume state.execution execution)
      (hasleep : ∀ thread, state.Asleep thread → Stays state.execution execution thread)
      (hassignments : Signals state.execution.assignments execution.assignments
        state.assignments assignments)
      (hcompletions : Signals state.execution.completions execution.completions
        state.completions completions) :
      Step consume state ⟨execution, assignments, completions⟩
  /-- `not_full_.wait` in `assignments.push` -/
  | schedulerSleeps {state block rest} (h : state.execution.scheduler = .pushing (block :: rest))
      (hawake : ¬ state.Asleep .scheduler)
      (hwait : state.execution.assignments.push block = none) :
      Step consume state { state with assignments :=
        { state.assignments with notFull := insert () state.assignments.notFull } }
  /-- `not_empty_.wait` in `assignments.pop` -/
  | workerSleepsEmpty {state i} (h : state.execution.worker i = .popping)
      (hawake : ¬ state.Asleep (.worker i)) (hwait : state.execution.assignments.pop = none) :
      Step consume state { state with assignments :=
        { state.assignments with notEmpty := insert i state.assignments.notEmpty } }
  /-- `not_full_.wait` in `completions.push` -/
  | workerSleepsFull {state i result} (h : state.execution.worker i = .pushing result)
      (hawake : ¬ state.Asleep (.worker i))
      (hwait : state.execution.completions.push result = none) :
      Step consume state { state with completions :=
        { state.completions with notFull := insert i state.completions.notFull } }
  /-- `not_empty_.wait` in `completions.pop` -/
  | coordinatorSleeps {state} (h : state.execution.coordinator = .popping)
      (hawake : ¬ state.Asleep .coordinator) (hwait : state.execution.completions.pop = none) :
      Step consume state { state with completions :=
        { state.completions with notEmpty := insert () state.completions.notEmpty } }

/-- Some threads wake up without having been notified. -/
structure Wakes (state state' : Monitored job κ) : Prop where
  execution : state'.execution = state.execution
  assignments_full : state'.assignments.notFull ⊆ state.assignments.notFull
  assignments_empty : state'.assignments.notEmpty ⊆ state.assignments.notEmpty
  assignments_accepted : state'.assignments.accepted = state.assignments.accepted
  assignments_popped : state'.assignments.popped = state.assignments.popped
  completions_full : state'.completions.notFull ⊆ state.completions.notFull
  completions_empty : state'.completions.notEmpty ⊆ state.completions.notEmpty
  completions_accepted : state'.completions.accepted = state.completions.accepted
  completions_popped : state'.completions.popped = state.completions.popped

/-- Some interleaving leads from the start to `state`. -/
def Reaches (consume : BlockResult → κ → Result Unit × κ) (sink : κ) (state : Monitored job κ) :
    Prop :=
  Relation.ReflTransGen (fun before after => Step consume before after ∨ Wakes before after)
    (initial job sink) state

/-- A thread that is awake can take a step of the program. -/
def CanMove (consume : BlockResult → κ → Result Unit × κ) (state : Monitored job κ)
    (thread : Thread job.workers) : Prop :=
  ¬ state.Asleep thread ∧ ∃ state', Step consume state state' ∧
    Execution.Step consume state.execution state'.execution ∧
    Execution.Alone thread state.execution state'.execution

/-- Every thread that was started has ended. -/
structure AllFinished (state : Execution job κ) : Prop where
  coordinator : ∃ outcome, state.coordinator = .returned outcome
  scheduler : state.scheduler = .unspawned ∨ state.scheduler = .finished
  workers : ∀ i, state.worker i = .unspawned ∨ state.worker i = .finished

/-- No wake-up is lost on either queue. -/
structure Attended (state : Monitored job κ) : Prop where
  assignments : NoLostWakeup state.execution.assignments state.assignments
    state.execution.pushingScheduler state.execution.poppingWorkers
    state.execution.ClosesAssignments
  completions : NoLostWakeup state.execution.completions state.completions
    state.execution.pushingWorkers state.execution.poppingCoordinator
    state.execution.ClosesCompletions

variable {consume : BlockResult → κ → Result Unit × κ} {state state' : Monitored job κ} {sink : κ}

theorem attended_initial (sink : κ) : Attended (initial job sink) := ⟨.new _, .new _⟩

theorem Attended.step (h : Attended state) (hstep : Step consume state state') :
    Attended state' := by
  cases hstep with
  | @moves execution assignments completions hstep hasleep hassignments hcompletions =>
    refine ⟨h.assignments.step hassignments (Execution.step_pushingScheduler hstep)
        (Execution.step_poppingWorkers hstep) (Execution.step_closesAssignments hstep) ?_ ?_,
      h.completions.step hcompletions (Execution.step_pushingWorkers hstep)
        (Execution.step_poppingCoordinator hstep) (Execution.step_closesCompletions hstep) ?_ ?_⟩
    · rintro ⟨⟩ hsleeps
      have hstays : execution.scheduler = state.execution.scheduler := hasleep .scheduler hsleeps
      rw [Execution.mem_pushingScheduler, hstays, ← Execution.mem_pushingScheduler (u := ())]
      exact h.assignments.notFull_sub hsleeps
    · intro i hsleeps
      have hstays : execution.worker i = state.execution.worker i :=
        hasleep (.worker i) (Or.inl hsleeps)
      rw [Execution.mem_poppingWorkers, hstays, ← Execution.mem_poppingWorkers]
      exact h.assignments.notEmpty_sub hsleeps
    · intro i hsleeps
      have hstays : execution.worker i = state.execution.worker i :=
        hasleep (.worker i) (Or.inr hsleeps)
      rw [Execution.mem_pushingWorkers, hstays, ← Execution.mem_pushingWorkers]
      exact h.completions.notFull_sub hsleeps
    · rintro ⟨⟩ hsleeps
      have hstays : execution.coordinator = state.execution.coordinator :=
        hasleep .coordinator hsleeps
      rw [Execution.mem_poppingCoordinator, hstays, ← Execution.mem_poppingCoordinator (u := ())]
      exact h.completions.notEmpty_sub hsleeps
  | schedulerSleeps hpushing hawake hwait =>
    exact ⟨h.assignments.sleepFull (Execution.mem_pushingScheduler.mpr ⟨_, _, hpushing⟩) hwait,
      h.completions⟩
  | workerSleepsEmpty hpopping hawake hwait =>
    exact ⟨h.assignments.sleepEmpty (Execution.mem_poppingWorkers.mpr hpopping) hwait,
      h.completions⟩
  | workerSleepsFull hpushing hawake hwait =>
    exact ⟨h.assignments,
      h.completions.sleepFull (Execution.mem_pushingWorkers.mpr ⟨_, hpushing⟩) hwait⟩
  | coordinatorSleeps hpopping hawake hwait =>
    exact ⟨h.assignments,
      h.completions.sleepEmpty (Execution.mem_poppingCoordinator.mpr hpopping) hwait⟩

theorem Attended.wakes (h : Attended state) (hwakes : Wakes state state') : Attended state' := by
  obtain ⟨hexecution, haf, hae, haa, hap, hcf, hce, hca, hcp⟩ := hwakes
  constructor
  · rw [hexecution]
    exact h.assignments.wake haf hae haa hap
  · rw [hexecution]
    exact h.completions.wake hcf hce hca hcp

/-- The program under the condition variables takes steps that it could take without them. -/
theorem reaches_execution (h : Reaches consume sink state) :
    Execution.Reaches consume sink state.execution := by
  induction h with
  | refl => exact .refl
  | tail _ hstep ih =>
    rcases hstep with hstep | hwakes
    · cases hstep with
      | moves hstep _ _ _ => exact ih.tail hstep
      | _ => exact ih
    · rw [hwakes.execution]
      exact ih

theorem attended_of_reaches (h : Reaches consume sink state) : Attended state := by
  induction h with
  | refl => exact attended_initial sink
  | tail _ hstep ih => exact hstep.elim ih.step ih.wakes

/-! ## Progress -/

/-- Every change of the assignment queue comes with its notifications. -/
theorem exists_signals_assignments {before after : Execution job κ}
    (h : Execution.Step consume before after)
    (monitor : QueueMonitor Unit (Fin job.workers) ScenarioBlock) :
    ∃ monitor', Signals before.assignments after.assignments monitor monitor' := by
  obtain ⟨full, hfull⟩ := exists_notifyOne monitor.notFull
  obtain ⟨empty, hempty⟩ := exists_notifyOne monitor.notEmpty
  cases h with
  | workerPops h hpop => exact ⟨_, .pop hpop hfull⟩
  | schedulerPushes h hpush => exact ⟨_, .push hpush hempty⟩
  | unwindAssignments h => exact ⟨_, .close rfl⟩
  | schedulerCloses h => exact ⟨_, .close rfl⟩
  | @workerRaises i raise h =>
    cases raise with
    | closeAssignments => exact ⟨_, .close rfl⟩
    | _ => exact ⟨_, .quiet rfl⟩
  | @schedulerRaises raise h =>
    cases raise with
    | closeAssignments => exact ⟨_, .close rfl⟩
    | _ => exact ⟨_, .quiet rfl⟩
  | @coordinatorRaises raise h =>
    cases raise with
    | closeAssignments => exact ⟨_, .close rfl⟩
    | _ => exact ⟨_, .quiet rfl⟩
  | _ => exact ⟨_, .quiet rfl⟩

theorem exists_signals_completions {before after : Execution job κ}
    (h : Execution.Step consume before after)
    (monitor : QueueMonitor (Fin job.workers) Unit BlockResult) :
    ∃ monitor', Signals before.completions after.completions monitor monitor' := by
  obtain ⟨full, hfull⟩ := exists_notifyOne monitor.notFull
  obtain ⟨empty, hempty⟩ := exists_notifyOne monitor.notEmpty
  cases h with
  | coordinatorPops h hpop => exact ⟨_, .pop hpop hfull⟩
  | workerPushes h hpush => exact ⟨_, .push hpush hempty⟩
  | unwindCompletions h => exact ⟨_, .close rfl⟩
  | workerCloses h => exact ⟨_, .close rfl⟩
  | @workerRaises i raise h =>
    cases raise with
    | closeCompletions => exact ⟨_, .close rfl⟩
    | _ => exact ⟨_, .quiet rfl⟩
  | @schedulerRaises raise h =>
    cases raise with
    | closeCompletions => exact ⟨_, .close rfl⟩
    | _ => exact ⟨_, .quiet rfl⟩
  | @coordinatorRaises raise h =>
    cases raise with
    | closeCompletions => exact ⟨_, .close rfl⟩
    | _ => exact ⟨_, .quiet rfl⟩
  | _ => exact ⟨_, .quiet rfl⟩

/-- Only threads inside a queue operation sleep. -/
theorem Attended.asleep (h : Attended state) {thread : Thread job.workers}
    (hasleep : state.Asleep thread) :
    (thread = .scheduler ∧ ∃ block rest, state.execution.scheduler = .pushing (block :: rest)) ∨
      (∃ i, thread = .worker i ∧ i ∈ state.assignments.notEmpty ∧
        state.execution.worker i = .popping) ∨
      (∃ i result, thread = .worker i ∧ i ∈ state.completions.notFull ∧
        state.execution.worker i = .pushing result) ∨
      thread = .coordinator ∧ state.execution.coordinator = .popping := by
  cases thread with
  | scheduler =>
    exact Or.inl ⟨rfl, Execution.mem_pushingScheduler.mp (h.assignments.notFull_sub hasleep)⟩
  | worker i =>
    rcases hasleep with hasleep | hasleep
    · exact Or.inr (Or.inl ⟨i, rfl, hasleep,
        Execution.mem_poppingWorkers.mp (h.assignments.notEmpty_sub hasleep)⟩)
    · obtain ⟨result, hresult⟩ :=
        Execution.mem_pushingWorkers.mp (h.completions.notFull_sub hasleep)
      exact Or.inr (Or.inr (Or.inl ⟨i, result, rfl, hasleep, hresult⟩))
  | coordinator =>
    exact Or.inr (Or.inr (Or.inr
      ⟨rfl, Execution.mem_poppingCoordinator.mp (h.completions.notEmpty_sub hasleep)⟩))

/-- A thread that is awake and ready moves. -/
theorem canMove_of_ready (h : Attended state) (hs : Execution.Spawning state.execution)
    (hc : Execution.Closing state.execution) {thread : Thread job.workers}
    (hawake : ¬ state.Asleep thread) (hready : Execution.Ready state.execution thread) :
    CanMove consume state thread := by
  obtain ⟨after, hstep, -, halone⟩ : Execution.MovesBy consume state.execution thread :=
    Execution.movesBy_of_ready hs hc hready
  obtain ⟨assignments, hassignments⟩ := exists_signals_assignments hstep state.assignments
  obtain ⟨completions, hcompletions⟩ := exists_signals_completions hstep state.completions
  refine ⟨hawake, ⟨after, assignments, completions⟩,
    .moves hstep (fun other hasleep => ?_) hassignments hcompletions, hstep, halone⟩
  have hne : thread ≠ other := by
    rintro rfl
    exact hawake hasleep
  rcases h.asleep hasleep with ⟨rfl, block, rest, hat⟩ | ⟨i, rfl, -, hat⟩ | ⟨i, result, rfl, -, hat⟩ |
    ⟨rfl, hat⟩
  · exact (halone.scheduler hne).resolve_left (by rw [hat]; nofun)
  · exact (halone.worker i hne).resolve_left (by rw [hat]; nofun)
  · exact (halone.worker i hne).resolve_left (by rw [hat]; nofun)
  · exact halone.coordinator hne

/-- A thread with an exception in hand is awake and ready. -/
theorem Attended.awake_of_closes (h : Attended state) (hc : state.execution.ClosesCompletions) :
    ∃ thread, ¬ state.Asleep thread ∧ Execution.Ready state.execution thread := by
  rcases hc with ⟨i, raise, hi⟩ | ⟨raise, hr⟩ | ⟨raise, hr⟩
  · refine ⟨.worker i, fun hasleep => ?_, by simp only [Execution.Ready, hi]⟩
    rcases h.asleep hasleep with ⟨hw, -⟩ | ⟨j, hw, -, hat⟩ | ⟨j, result, hw, -, hat⟩ | ⟨hw, -⟩
    · cases hw
    · cases hw
      rw [hi] at hat
      cases hat
    · cases hw
      rw [hi] at hat
      cases hat
    · cases hw
  · refine ⟨.scheduler, fun hasleep => ?_, by simp only [Execution.Ready, hr]⟩
    obtain ⟨block, rest, hat⟩ :=
      Execution.mem_pushingScheduler.mp (h.assignments.notFull_sub hasleep)
    rw [hr] at hat
    cases hat
  · refine ⟨.coordinator, fun hasleep => ?_, by simp only [Execution.Ready, hr]⟩
    have hat := Execution.mem_poppingCoordinator.mp (h.completions.notEmpty_sub hasleep)
    rw [hr] at hat
    cases hat

theorem closesCompletions_of_closesAssignments {execution : Execution job κ}
    (h : execution.ClosesAssignments) : execution.ClosesCompletions :=
  h.imp (fun ⟨i, raise, hi, _⟩ => ⟨i, raise, hi⟩) (Or.imp (fun ⟨raise, hr, _⟩ => ⟨raise, hr⟩)
    fun ⟨raise, hr, _⟩ => ⟨raise, hr⟩)

/-- If a sleeping thread could go on, then some thread that is awake can as well. -/
theorem Attended.awake_of_ready (h : Attended state) {thread : Thread job.workers}
    (hready : Execution.Ready state.execution thread) :
    ∃ thread, ¬ state.Asleep thread ∧ Execution.Ready state.execution thread := by
  by_cases hasleep : state.Asleep thread
  swap
  · exact ⟨thread, hasleep, hready⟩
  rcases h.asleep hasleep with ⟨rfl, block, rest, hat⟩ | ⟨i, rfl, hsleeps, hat⟩ |
    ⟨i, result, rfl, hsleeps, hat⟩ | ⟨rfl, hat⟩
  · -- the scheduler: nobody else pushes assignments, so the queue is full or will be closed
    simp only [Execution.Ready, hat] at hready
    have hroom := hready.resolve_left (h.assignments.open_of_notFull ⟨(), hasleep⟩)
    rcases h.assignments.room ⟨(), hasleep⟩ with hle | hcloses
    · have hnobody : state.execution.pushingScheduler \ state.assignments.notFull = ∅ := by
        refine Finset.eq_empty_of_forall_notMem ?_
        rintro ⟨⟩ hmem
        exact (Finset.mem_sdiff.mp hmem).2 hasleep
      rw [hnobody, Finset.card_empty] at hle
      omega
    · exact h.awake_of_closes (closesCompletions_of_closesAssignments hcloses)
  · -- a worker that waits for a block
    simp only [Execution.Ready, hat] at hready
    have hitems := hready.resolve_left (h.assignments.open_of_notEmpty ⟨i, hsleeps⟩)
    rcases h.assignments.items ⟨i, hsleeps⟩ with hle | hcloses
    · have hpos : 0 < (state.execution.poppingWorkers \ state.assignments.notEmpty).card :=
        Nat.lt_of_lt_of_le (List.length_pos_iff.mpr hitems) hle
      obtain ⟨j, hj⟩ := Finset.card_pos.mp hpos
      obtain ⟨hpops, hawake⟩ := Finset.mem_sdiff.mp hj
      have hat' := Execution.mem_poppingWorkers.mp hpops
      refine ⟨.worker j, fun hsleeps' => hsleeps'.elim hawake fun hfull => ?_, ?_⟩
      · obtain ⟨result, hresult⟩ :=
          Execution.mem_pushingWorkers.mp (h.completions.notFull_sub hfull)
        rw [hat'] at hresult
        cases hresult
      · simp only [Execution.Ready, hat']
        exact Or.inr hitems
    · exact h.awake_of_closes (closesCompletions_of_closesAssignments hcloses)
  · -- a worker that waits for a place
    simp only [Execution.Ready, hat] at hready
    have hroom := hready.resolve_left (h.completions.open_of_notFull ⟨i, hsleeps⟩)
    rcases h.completions.room ⟨i, hsleeps⟩ with hle | hcloses
    · have hpos : 0 < (state.execution.pushingWorkers \ state.completions.notFull).card := by omega
      obtain ⟨j, hj⟩ := Finset.card_pos.mp hpos
      obtain ⟨hpushes, hawake⟩ := Finset.mem_sdiff.mp hj
      obtain ⟨result', hat'⟩ := Execution.mem_pushingWorkers.mp hpushes
      refine ⟨.worker j, fun hsleeps' => hsleeps'.elim (fun hempty => ?_) hawake, ?_⟩
      · have hpops := Execution.mem_poppingWorkers.mp (h.assignments.notEmpty_sub hempty)
        rw [hat'] at hpops
        cases hpops
      · simp only [Execution.Ready, hat']
        exact Or.inr hroom
    · exact h.awake_of_closes hcloses
  · -- the coordinating thread: nobody else pops completions
    simp only [Execution.Ready, hat] at hready
    have hitems := hready.resolve_left (h.completions.open_of_notEmpty ⟨(), hasleep⟩)
    rcases h.completions.items ⟨(), hasleep⟩ with hle | hcloses
    · have hnobody : state.execution.poppingCoordinator \ state.completions.notEmpty = ∅ := by
        refine Finset.eq_empty_of_forall_notMem ?_
        rintro ⟨⟩ hmem
        exact (Finset.mem_sdiff.mp hmem).2 hasleep
      rw [hnobody, Finset.card_empty, Nat.le_zero, List.length_eq_zero_iff] at hle
      exact absurd hle hitems
    · exact h.awake_of_closes hcloses

/-- Some thread that is awake can go on, unless the function has returned. -/
theorem exists_awake (hworkers : 0 < job.workers) (hassignment : 0 < job.assignmentCapacity)
    (hcompletion : 0 < job.completionCapacity) (h : Reaches consume sink state) :
    (∃ outcome, state.execution.coordinator = .returned outcome) ∨
      ∃ thread, CanMove consume state thread := by
  obtain ⟨hs, hc, hcount⟩ := Execution.accounts_of_reaches hworkers (reaches_execution h)
  have hattended := attended_of_reaches h
  refine (Execution.exists_ready hs hc hcount hassignment hcompletion).imp id ?_
  rintro ⟨thread, hready⟩
  obtain ⟨awake, hawake, hready⟩ := hattended.awake_of_ready hready
  exact ⟨awake, canMove_of_ready hattended hs hc hawake hready⟩

/-- Nothing happens any more. -/
theorem AllFinished.not_step {execution execution' : Execution job κ} (h : AllFinished execution) :
    ¬ Execution.Step consume execution execution' := by
  obtain ⟨⟨outcome, hcoordinator⟩, hscheduler, hworkers⟩ := h
  intro hstep
  cases hstep with
  | _ => grind [WorkerState.running, SchedulerState.running]

/-- The scheduler was not started when the start of a thread fails. -/
theorem unspawned_of_unwinding {execution : Execution job κ}
    (h : Execution.Reaches consume sink execution) :
    Execution.Spawning execution ∧ ∀ error closed,
      execution.coordinator = .unwinding error closed → execution.scheduler = .unspawned := by
  induction h with
  | refl => exact ⟨Execution.spawning_initial sink, nofun⟩
  | tail _ hstep ih =>
    obtain ⟨hspawning, hunwinding⟩ := ih
    refine ⟨hspawning.step hstep, fun error closed hcoord => ?_⟩
    cases hstep with
    | spawnFails error h => exact hspawning.scheduler _ h
    | _ => grind [SchedulerState.running]

/-- The function returns after every thread that it started has ended. -/
theorem allFinished_of_returned {execution : Execution job κ} {outcome : Result ℕ}
    (h : Execution.Reaches consume sink execution)
    (hreturned : execution.coordinator = .returned outcome) : AllFinished execution := by
  induction h generalizing outcome with
  | refl => cases hreturned
  | @tail before after hreach hstep ih =>
    by_cases hbefore : ∃ outcome, before.coordinator = .returned outcome
    · obtain ⟨outcome, hbefore⟩ := hbefore
      exact absurd hstep (ih hbefore).not_step
    · cases hstep with
      | unwindJoin h hworkers =>
        exact ⟨⟨_, rfl⟩, Or.inl ((unspawned_of_unwinding hreach).2 _ _ h), hworkers⟩
      | coordinatorJoins h hscheduler hworkers =>
        exact ⟨⟨_, rfl⟩, Or.inr hscheduler, fun i => Or.inr (hworkers i)⟩
      | _ => grind

/-! ## Termination -/

/-- The number of threads that do not sleep on a condition variable, added up over all four. -/
def awake (state : Monitored job κ) : ℕ :=
  (1 - state.assignments.notFull.card) + (job.workers - state.assignments.notEmpty.card)
    + (job.workers - state.completions.notFull.card) + (1 - state.completions.notEmpty.card)

/-- One more thread of a finite set sleeps. -/
theorem card_insert_sleeping {τ : Type} [Fintype τ] [DecidableEq τ] {sleeping : Finset τ}
    {thread : τ} (h : thread ∉ sleeping) :
    (insert thread sleeping).card = sleeping.card + 1 ∧ sleeping.card < Fintype.card τ := by
  refine ⟨Finset.card_insert_of_notMem h, ?_⟩
  rw [← Finset.card_univ]
  exact Finset.card_lt_card ⟨Finset.subset_univ _, fun hsub => h (hsub (Finset.mem_univ _))⟩

/-- Between two steps of the program there are at most as many others as threads are awake. -/
theorem step_decreases (h : Step consume state state') :
    state'.execution.weight < state.execution.weight ∨
      state'.execution.weight = state.execution.weight ∧ state'.awake < state.awake := by
  cases h with
  | moves hstep _ _ _ => exact Or.inl (Execution.step_weight hstep)
  | schedulerSleeps h hawake hwait =>
    obtain ⟨hcard, hlt⟩ := card_insert_sleeping hawake
    rw [Fintype.card_unit] at hlt
    refine Or.inr ⟨rfl, ?_⟩
    simp only [awake, hcard]
    omega
  | workerSleepsEmpty h hawake hwait =>
    obtain ⟨hcard, hlt⟩ := card_insert_sleeping fun hmem => hawake (Or.inl hmem)
    rw [Fintype.card_fin] at hlt
    refine Or.inr ⟨rfl, ?_⟩
    simp only [awake, hcard]
    omega
  | workerSleepsFull h hawake hwait =>
    obtain ⟨hcard, hlt⟩ := card_insert_sleeping fun hmem => hawake (Or.inr hmem)
    rw [Fintype.card_fin] at hlt
    refine Or.inr ⟨rfl, ?_⟩
    simp only [awake, hcard]
    omega
  | coordinatorSleeps h hawake hwait =>
    obtain ⟨hcard, hlt⟩ := card_insert_sleeping hawake
    rw [Fintype.card_unit] at hlt
    refine Or.inr ⟨rfl, ?_⟩
    simp only [awake, hcard]
    omega

/-- There is no infinite interleaving in which threads only wake up when they are notified. -/
theorem step_wellFounded (job : Job) {κ : Type} (consume : BlockResult → κ → Result Unit × κ) :
    WellFounded fun after before : Monitored job κ => Step consume before after := by
  refine Subrelation.wf ?_ (InvImage.wf
    (fun state : Monitored job κ => (state.execution.weight, state.awake))
    (Prod.lex Nat.lt_wfRel Nat.lt_wfRel).wf)
  intro after before h
  rcases step_decreases h with hlt | ⟨heq, hlt⟩
  · exact Prod.Lex.left _ _ hlt
  · simp only [InvImage, heq]
    exact Prod.Lex.right _ hlt

/-- A step that does not touch the queues. -/
theorem Reaches.quietly (h : Reaches consume sink state) {execution : Execution job κ}
    (hstep : Execution.Step consume state.execution execution)
    (hassignments : execution.assignments = state.execution.assignments)
    (hcompletions : execution.completions = state.execution.completions)
    (hasleep : ∀ thread, state.Asleep thread → Stays state.execution execution thread) :
    Reaches consume sink { state with execution := execution } :=
  h.tail (Or.inl (.moves hstep hasleep (.quiet hassignments) (.quiet hcompletions)))

theorem not_asleep_empty (execution : Execution job κ) (thread : Thread job.workers) :
    ¬ Asleep ⟨execution, ⟨∅, ∅, [], []⟩, ⟨∅, ∅, [], []⟩⟩ thread := by
  cases thread with
  | worker i => exact fun h => h.elim (Finset.notMem_empty i) (Finset.notMem_empty i)
  | _ => exact Finset.notMem_empty ()

/-- Only `i` sleeps. -/
theorem eq_of_asleep_insert {execution : Execution job κ} {i : Fin job.workers}
    {thread : Thread job.workers}
    (h : Asleep ⟨execution, ⟨∅, insert i ∅, [], []⟩, ⟨∅, ∅, [], []⟩⟩ thread) :
    thread = .worker i := by
  cases thread with
  | worker j =>
    rcases h with h | h
    · rw [Finset.mem_singleton.mp h]
    · exact absurd h (Finset.notMem_empty j)
  | _ => exact absurd h (Finset.notMem_empty ())

end Monitored

/-- **No stuck state.**  With at least one worker and two queues that hold something, whatever is
thrown by a worker, the scheduler or `consume_result`, and whichever threads a notification wakes:
in every reachable state all threads have ended or some thread that is awake can take a step of the
program, and without spurious wake-ups every interleaving is finite.  A queue never holds more than
its capacity, and what was popped from it is a prefix of what it accepted. -/
theorem no_stuck_state (job : Job) {κ : Type} (consume : BlockResult → κ → Result Unit × κ)
    (sink : κ) (hworkers : 1 ≤ job.workers) (hassignment : 1 ≤ job.assignmentCapacity)
    (hcompletion : 1 ≤ job.completionCapacity) :
    (WellFounded fun after before : Monitored job κ => Monitored.Step consume before after) ∧
      ∀ state : Monitored job κ, Monitored.Reaches consume sink state →
        (Monitored.AllFinished state.execution ∨
          ∃ thread, Monitored.CanMove consume state thread) ∧
        state.execution.assignments.items.length ≤ job.assignmentCapacity ∧
        state.execution.completions.items.length ≤ job.completionCapacity ∧
        state.assignments.popped <+: state.assignments.accepted ∧
        state.completions.popped <+: state.completions.accepted := by
  refine ⟨Monitored.step_wellFounded job consume, fun state hreach => ?_⟩
  have hexecution := Monitored.reaches_execution hreach
  have hattended := Monitored.attended_of_reaches hreach
  obtain ⟨-, hclosing, -⟩ := Execution.accounts_of_reaches hworkers hexecution
  refine ⟨?_, ?_, ?_, ?_, ?_⟩
  · refine (Monitored.exists_awake hworkers hassignment hcompletion hreach).imp ?_ id
    rintro ⟨outcome, hreturned⟩
    exact Monitored.allFinished_of_returned hexecution hreturned
  · rw [← hclosing.assignment_capacity]
    exact hattended.assignments.bounded
  · rw [← hclosing.completion_capacity]
    exact hattended.completions.bounded
  · exact ⟨_, hattended.assignments.past.symm⟩
  · exact ⟨_, hattended.completions.past.symm⟩

/-- Two workers and one block, which no worker can compute. -/
def failingJob : Job :=
  ⟨2, 1, 1, [⟨0, 0, 1, 0, 1⟩], .ok (), fun _ _ => .error ⟨.runtimeError, .computeBlock, "failed"⟩⟩

/-- The first worker sleeps, since there is no assignment yet, and the second one has failed. -/
theorem exists_asleep_failingJob :
    ∃ state : Monitored failingJob Unit,
      Monitored.Reaches (fun _ sink => (.ok (), sink)) () state ∧
        state.Asleep (.worker (⟨0, by decide⟩ : Fin 2)) ∧ state.execution.thrown = true ∧
        state.execution.coordinator = .spawning 2 := by
  have hstart : Monitored.Reaches (fun _ sink => (.ok (), sink)) ()
      (Monitored.initial failingJob ()) := .refl
  have hspawned := hstart.quietly (.spawnWorker (⟨0, by decide⟩ : Fin 2) rfl rfl) rfl rfl
    fun thread h => absurd h (Monitored.not_asleep_empty _ thread)
  have hruns := hspawned.quietly (.workerStarts (i := (⟨0, by decide⟩ : Fin 2)) rfl rfl) rfl rfl
    fun thread h => absurd h (Monitored.not_asleep_empty _ thread)
  have hsleeps : Monitored.Reaches _ _ _ := hruns.tail (Or.inl (.workerSleepsEmpty
    (i := (⟨0, by decide⟩ : Fin 2)) rfl (Monitored.not_asleep_empty _ _) rfl))
  have hsecond := hsleeps.quietly (.spawnWorker (⟨1, by decide⟩ : Fin 2) rfl rfl) rfl rfl
    fun thread h => by rw [Monitored.eq_of_asleep_insert h]; rfl
  have hfails := hsecond.quietly (.workerThrows (i := (⟨1, by decide⟩ : Fin 2))
    ⟨.runtimeError, .executeMissingBlocks, "failed"⟩ rfl) rfl rfl
    fun thread h => by rw [Monitored.eq_of_asleep_insert h]; rfl
  exact ⟨_, hfails, Or.inl (Finset.mem_insert_self _ _), rfl, rfl⟩

/-- After the failure some thread goes on, although the first worker sleeps. -/
theorem no_stuck_state_failing_job :
    ∃ state : Monitored failingJob Unit,
      state.Asleep (.worker (⟨0, by decide⟩ : Fin 2)) ∧ state.execution.thrown = true ∧
        ∃ thread, Monitored.CanMove (fun _ sink => (.ok (), sink)) state thread := by
  obtain ⟨state, hreach, hasleep, hthrown, hcoordinator⟩ := exists_asleep_failingJob
  obtain ⟨-, hall⟩ := no_stuck_state failingJob (fun _ (sink : Unit) => (.ok (), sink)) ()
    (by decide) (by decide) (by decide)
  obtain ⟨hfinished | hmoves, -⟩ := hall state hreach
  · obtain ⟨outcome, hreturned⟩ := hfinished.coordinator
    rw [hcoordinator] at hreturned
    cases hreturned
  · exact ⟨state, hasleep, hthrown, hmoves⟩

end MonteCarlo
