import TgiRouter.Queue.Live

/-!
# Runs without cancellation

A request enters the queue once, by `State::append`, and leaves it once, in a batch handed
out by `State::next_batch` or as a cancelled entry it drops. `QueueInv` already says that
no id is handed out twice and that none is invented. This module shows the other half on
the runs in which no client drops its receiver (`LiveRun`): nothing is lost either. Along
such a run every call sees a queue of live entries, which it leaves as it is or splits
into the batch and the entries left (`nextBatch_split_of_live`), so the ids waiting
and the ids handed out are together exactly the ids appended
(`liveRun_conserves_requests`).

The restriction is needed: a cancelled entry is dropped at one past its position, which
can remove a live entry instead (`nextBatch_takes_dropped_entry`).
-/

namespace TgiRouter

/-- The runs of the queue task in which no client drops its receiver: appends of entries
whose receiver is open, and calls of `next_batch`. -/
inductive LiveRun (B : BatchType) (config : BatchingConfig) : State → List Batch → Nat → Prop
  | new : LiveRun B config (State.new config) [] 0
  | append {s : State} {batches : List Batch} {n : Nat} (entry : Entry) :
      entry.batchTime = none → entry.disconnected = false → LiveRun B config s batches n →
      LiveRun B config (s.append entry) batches (n + 1)
  | nextBatch {s s' : State} {batches : List Batch} {n : Nat}
      {existing existing' : Option ExistingBatch} {now : Nat} {r : Option NextBatch} :
      LiveRun B config s batches n → s.nextBatch B existing now = .ok (s', existing', r) →
      LiveRun B config s' (batches ++ r.toList.map Prod.snd) n

namespace LiveRun

variable {B : BatchType} {config : BatchingConfig} {s : State} {batches : List Batch} {n : Nat}

/-- A run without cancellation is a run of the queue task. -/
theorem reachable (run : LiveRun B config s batches n) : Reachable B config s batches n := by
  induction run with
  | new => exact .new
  | append entry unbatched _ _ ih => exact .append entry unbatched ih
  | nextBatch _ h ih => exact .nextBatch ih h

/-- No waiting entry of such a run has a disconnected receiver. -/
theorem live (run : LiveRun B config s batches n) : ∀ p ∈ s.entries, p.2.disconnected = false := by
  induction run with
  | new => simp [State.new]
  | append entry _ opened _ ih =>
    intro p hp
    rcases List.mem_append.mp hp with hp | hp
    · exact ih p hp
    · rw [List.mem_singleton.mp hp]
      exact opened
  | nextBatch _ h ih =>
    obtain ⟨-, -, -, ⟨-, sub, -⟩ | ⟨mid, -, midSub, -, sub, -⟩⟩ := State.nextBatch_cases h
    · exact fun p hp => ih p (sub.subset hp)
    · exact fun p hp => ih p ((sub.trans midSub).subset hp)

end LiveRun

open scoped List in
/-- In every run without cancellation with fewer than `2^64` appends, every request appended
is either still waiting or was handed out in exactly one batch: the ids waiting and the ids
handed out are together `0, …, n - 1`, each once. -/
theorem liveRun_conserves_requests {B : BatchType} {config : BatchingConfig} {s : State}
    {batches : List Batch} {n : Nat} (run : LiveRun B config s batches n) (bound : n < 2 ^ 64) :
    (waitingIds s.entries ++ batchedIds batches).Perm (List.range n) := by
  induction run with
  | new => simp [State.new, waitingIds, batchedIds]
  | @append s batches n entry _ _ run ih =>
    have nextId := (reachable_queueInv run.reachable (by omega)).nextIdCount
    simp only [State.append, waitingIds_append, nextId, List.range_succ]
    calc waitingIds s.entries ++ waitingIds [(n, entry)] ++ batchedIds batches
        _ ~ waitingIds s.entries ++ batchedIds batches ++ [n] :=
          List.perm_iff_count.mpr fun a => by simp only [waitingIds, List.map, List.count_append]; omega
        _ ~ List.range n ++ [n] := (ih (by omega)).append_right [n]
  | @nextBatch s s' batches n _ _ _ r run h ih =>
    have split := nextBatch_split_of_live run.live h
    rcases r with _ | nb
    · simpa [split] using ih bound
    obtain ⟨taken, -, -, -, perm, -, requests⟩ := split
    have ids : nb.2.requests.map Request.id = waitingIds taken := by
      simp [requests, waitingIds, Function.comp_def]
    calc waitingIds s'.entries ++ batchedIds (batches ++ [nb.2])
        _ = waitingIds s'.entries ++ (batchedIds batches ++ waitingIds taken) := by
          simp [batchedIds, ids]
        _ ~ waitingIds (taken ++ s'.entries) ++ batchedIds batches := by
          rw [waitingIds_append]
          exact List.perm_iff_count.mpr fun a => by simp only [List.count_append]; omega
        _ ~ waitingIds s.entries ++ batchedIds batches := (perm.map Prod.fst).append_right _
        _ ~ List.range n := ih bound

/-- The call on `prefillSplit` hands out the second request and leaves the first waiting:
ids `1` and `0`. -/
theorem liveRun_conserves_requests_prefillSplit :
    ∃ s' r, prefillSplit.nextBatch flashBatch none 0 = .ok (s', none, r) ∧
      LiveRun flashBatch ⟨10, 1000, 50⟩ s' (r.toList.map Prod.snd) 2 ∧ 2 < 2 ^ 64 ∧
      (waitingIds s'.entries ++ batchedIds (r.toList.map Prod.snd)).Perm (List.range 2) :=
  have run : LiveRun flashBatch ⟨10, 1000, 50⟩ prefillSplit [] 2 := (LiveRun.new.append _ rfl rfl).append _ rfl rfl
  have called := @LiveRun.nextBatch flashBatch _ prefillSplit _ [] 2 none _ 0 _ run rfl
  ⟨_, _, rfl, called, by decide, liveRun_conserves_requests called (by decide)⟩

end TgiRouter
