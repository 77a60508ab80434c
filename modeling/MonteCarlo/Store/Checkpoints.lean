import MonteCarlo.Store.Ownership

/-!
# What a checkpoint commits

`checkpoint` checks the results it is told to commit against the durable ones, but it reduces all
the leaves it is given, received or not.  The loader reduces the results that the manifest names.

* `receivedResults`, `receivedLeaves` — what a checkpoint commits.
* `CheckpointOf` — what `checkpoint` has checked, and the manifest it installs.
-/

namespace MonteCarlo

open Effects Effects.Program

/-- The durable results of the received blocks. -/
def receivedResults (durable : List (Option BlockResult)) (received : List Bool) :
    List (Option BlockResult) :=
  List.zipWith (fun result flag => if flag then result else none) durable received

/-- The leaves with the empty aggregate for blocks that were not received. -/
def receivedLeaves (leaves : List (AggregateStats Binary64)) (received : List Bool) :
    List (AggregateStats Binary64) :=
  List.zipWith (fun leaf flag => if flag then leaf else .empty) leaves received

/-- A received result is durable. -/
theorem durable_of_received {durable : List (Option BlockResult)} {received : List Bool} {i : ℕ}
    {result : BlockResult} (h : (receivedResults durable received)[i]? = some (some result)) :
    durable[i]? = some (some result) := by
  obtain ⟨found, flag, hget, -, hresult⟩ := List.getElem?_zipWith_eq_some.mp h
  split at hresult
  · rw [hget, hresult]
  · cases hresult

section Committed

variable {store : DurableRunStore} {coordinator : CoordinatorState}
  {leaves : List (AggregateStats Binary64)}

/-- The entries name the durable results of the received blocks, and their leaves agree. -/
theorem checkpointEntries_eq_ok {received : List Bool} {index : ℕ} {entries : List ManifestEntry}
    (hlength : index + received.length = store.durableResults.length)
    (h : checkpointEntries store coordinator leaves index received = .ok entries) :
    entries = entriesOf (receivedResults (store.durableResults.drop index) received) ∧
      ∀ (j : ℕ), received[j]? = some true → ∃ result,
        store.durableResults[index + j]? = some (some result) ∧
          leaves.getD (index + j) .empty = result.aggregate := by
  induction received generalizing index entries with
  | nil =>
    cases h
    exact ⟨by simp [receivedResults, entriesOf], fun j hj => by simp at hj⟩
  | cons flag rest ih =>
    rw [List.length_cons] at hlength
    have hindex : index < store.durableResults.length := by omega
    have hdrop : store.durableResults.drop index =
        store.durableResults[index] :: store.durableResults.drop (index + 1) :=
      List.drop_eq_getElem_cons hindex
    have hshift : ∀ (P : ℕ → Prop), (∀ j : ℕ, rest[j]? = some true → P (index + 1 + j)) →
        (flag = true → P index) → ∀ j : ℕ, (flag :: rest)[j]? = some true → P (index + j) := by
      intro P hrest hfirst j hj
      cases j with
      | zero => exact hfirst (Option.some.inj hj)
      | succ j =>
        rw [show index + (j + 1) = index + 1 + j by omega]
        exact hrest j hj
    replace hshift := hshift fun i => ∃ result, store.durableResults[i]? = some (some result) ∧
      leaves.getD i .empty = result.aggregate
    cases flag with
    | false =>
      obtain ⟨hentries, hleaves⟩ := ih (by omega) h
      refine ⟨?_, hshift hleaves fun h => Bool.noConfusion h⟩
      rw [hdrop, hentries]
      rfl
    | true =>
      rw [checkpointEntries] at h
      split at h
      · cases h
      · rename_i result hresult
        obtain ⟨⟨⟩, hmatch, h⟩ := Result.bind_eq_ok.mp h
        obtain ⟨others, hothers, h⟩ := Result.bind_eq_ok.mp h
        cases h
        rw [throwIf_eq_ok, Bool.or_eq_false_iff, Bool.not_eq_false',
          AggregateStats.aggregatesEqual_iff] at hmatch
        obtain ⟨hentries, hleaves⟩ := ih (by omega) hothers
        have hget : store.durableResults[index]? = some (some result) :=
          Option.join_eq_some_iff.mp hresult
        refine ⟨?_, hshift hleaves fun _ => ⟨result, hget, hmatch.2⟩⟩
        rw [List.getElem?_eq_getElem hindex] at hget
        rw [hdrop, Option.some.inj hget, hentries]
        rfl

/-- What `checkpoint` has checked, and the manifest it installs. -/
structure CheckpointOf (store : DurableRunStore) (leaves : List (AggregateStats Binary64))
    (received : List Bool) (status : DurableRunStatus) (leases : List UInt64)
    (manifest : RunManifest) : Prop
    extends ManifestOf store.metadata leases (receivedResults store.durableResults received)
      manifest where
  running : store.recovery.status = .running
  length : received.length = store.metadata.blockCount.toNat
  leaves_eq : ∀ (i : ℕ), received[i]? = some true → ∃ result,
    store.durableResults[i]? = some (some result) ∧ leaves.getD i .empty = result.aggregate
  sequence_ne : store.recovery.manifestSequence ≠ maxWord
  sequence : manifest.sequence = store.recovery.manifestSequence + 1
  incarnation : manifest.runIncarnation = store.recovery.runIncarnation
  complete : status = .complete → ∀ flag ∈ received, flag = true
  status_eq : manifest.status = status
  leaves_length : leaves.length = store.metadata.blockCount.toNat
  reduction : reduceBlockResults leaves = .ok manifest.committedAggregate

theorem checkpointManifest_eq_ok {received : List Bool} {status : DurableRunStatus}
    {failure : Option FailureRecord} {manifest : RunManifest}
    (hlength : store.durableResults.length = store.metadata.blockCount.toNat)
    (h : checkpointManifest store coordinator leaves received status failure = .ok manifest) :
    CheckpointOf store leaves received status (coordinator.blocks.map (·.leaseEpoch)) manifest := by
  obtain ⟨⟨⟩, hrunning, h⟩ := Result.bind_eq_ok.mp h
  obtain ⟨⟨⟩, huniverse, h⟩ := Result.bind_eq_ok.mp h
  obtain ⟨⟨⟩, hcomplete, h⟩ := Result.bind_eq_ok.mp h
  obtain ⟨⟨⟩, -, h⟩ := Result.bind_eq_ok.mp h
  obtain ⟨entries, hentries, h⟩ := Result.bind_eq_ok.mp h
  obtain ⟨⟨⟩, hsequence, h⟩ := Result.bind_eq_ok.mp h
  obtain ⟨aggregate, hreduction, h⟩ := Result.bind_eq_ok.mp h
  cases h
  simp only [throwIf_eq_ok, Bool.or_eq_false_iff, decide_eq_false_iff_not, ne_eq, not_not]
    at hrunning huniverse hsequence
  obtain ⟨⟨-, hleaves⟩, hreceived⟩ := huniverse
  obtain ⟨hcommitted, hmatch⟩ := checkpointEntries_eq_ok (by omega) hentries
  rw [List.drop_zero] at hcommitted
  simp only [Nat.zero_add] at hmatch
  refine ⟨⟨rfl, rfl, rfl, rfl, rfl, rfl, rfl, rfl, hcommitted⟩, hrunning, hreceived, hmatch,
    hsequence, rfl, rfl, fun hstatus flag hflag => ?_, rfl, hleaves, hreduction⟩
  rw [throwIf_eq_ok, decide_eq_true hstatus, Bool.true_and, List.any_eq_false] at hcomplete
  simpa using hcomplete flag hflag

/-- Reduced by the loader are the leaves of the received blocks. -/
theorem CheckpointOf.leavesOf {received : List Bool} {status : DurableRunStatus}
    {leases : List UInt64} {manifest : RunManifest}
    (h : CheckpointOf store leaves received status leases manifest)
    (hlength : store.durableResults.length = store.metadata.blockCount.toNat) :
    MonteCarlo.leavesOf (receivedResults store.durableResults received) =
      receivedLeaves leaves received := by
  apply List.ext_getElem?
  intro i
  rw [MonteCarlo.leavesOf, List.getElem?_map, receivedResults, receivedLeaves,
    List.getElem?_zipWith, List.getElem?_zipWith]
  by_cases hi : i < received.length
  · have hdurable : i < store.durableResults.length := by rw [hlength, ← h.length]; exact hi
    have hleaf : i < leaves.length := by rw [h.leaves_length, ← h.length]; exact hi
    rw [List.getElem?_eq_getElem hi, List.getElem?_eq_getElem hdurable,
      List.getElem?_eq_getElem hleaf]
    simp only [Option.map_some]
    cases hflag : received[i] with
    | false => rfl
    | true =>
      obtain ⟨result, hresult, heq⟩ := h.leaves_eq i (by rw [List.getElem?_eq_getElem hi, hflag])
      rw [List.getElem?_eq_getElem hdurable] at hresult
      rw [List.getD_eq_getElem _ _ hleaf] at heq
      rw [Option.some.inj hresult, heq]
      rfl
  · rw [List.getElem?_eq_none (by omega : received.length ≤ i)]
    cases store.durableResults[i]? <;> cases leaves[i]? <;> rfl

end Committed

end MonteCarlo
