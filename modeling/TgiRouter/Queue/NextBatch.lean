import TgiRouter.Queue.Scan
import TgiRouter.Queue.Weight

/-!
# What a call of `next_batch` does to the queue

`nextBatch_cases` says, once, everything a successful call does to the queue: the
running batch comes back unchanged, the configuration and `next_id` stay, and either no
batch is returned and the queue shrinks to a sublist, or a sublist of the queue is split
into the entries taken and the queue left, and the new batch is built from the entries
taken under the next batch id. Every run invariant of `TgiRouter/Queue/Run.lean` is
derived from it. `nextBatch_size_le` adds that the new batch fits beside the running batch
under `size_limit`, and `lookup_batchEntries`, `keys_batchEntries_perm` describe its entry
map.

The section `Defects` evaluates `next_batch` at inputs where it breaks what the
surrounding code promises:

* a cancelled entry is recorded for dropping at `queue_index` after the increment, one
  past its own position, and the drops shift the chosen positions; the pop then runs
  off the end (`nextBatch_panics_after_drop`) or takes a cancelled entry in place of a
  live one (`nextBatch_takes_dropped_entry`);
* the fast path compares `batch_weight` of the statistics before the candidate, so a
  batch that overflows the weight limit is admitted (`nextBatch_overflows_weight`);
* `hit_prefill_weight_limit` is set only when the tree exists, so a prefill rejection
  on the fast path leaves the size floor in force (`nextBatch_floor_after_prefill_hit`).
-/

namespace TgiRouter

namespace State

@[simp] theorem resetCursor_entries (s : State) (n : Nat) : (s.resetCursor n).entries = s.entries := by
  unfold resetCursor; split <;> rfl

@[simp] theorem resetCursor_config (s : State) (n : Nat) : (s.resetCursor n).config = s.config := by
  unfold resetCursor; split <;> rfl

@[simp] theorem resetCursor_nextId (s : State) (n : Nat) : (s.resetCursor n).nextId = s.nextId := by
  unfold resetCursor; split <;> rfl

@[simp] theorem resetCursor_nextBatchId (s : State) (n : Nat) :
    (s.resetCursor n).nextBatchId = s.nextBatchId := by
  unfold resetCursor; split <;> rfl

@[simp] theorem pruneFront_entries (s : State) :
    s.pruneFront.entries = (pruneCancelled s.entries s.checkedRequestCount).1 := rfl

@[simp] theorem pruneFront_checkedRequestCount (s : State) :
    s.pruneFront.checkedRequestCount = (pruneCancelled s.entries s.checkedRequestCount).2 := rfl

@[simp] theorem pruneFront_config (s : State) : s.pruneFront.config = s.config := rfl

@[simp] theorem pruneFront_nextId (s : State) : s.pruneFront.nextId = s.nextId := rfl

@[simp] theorem pruneFront_nextBatchId (s : State) : s.pruneFront.nextBatchId = s.nextBatchId := rfl

end State

/-- What a call of `next_batch` that returned `r` may have done to the entries and the
batch id of the queue `s`, leaving `s'`. -/
def QueueOutcome (s s' : State) (now : Nat) (r : Option NextBatch) : Prop :=
  (r = none ∧ s'.entries.Sublist s.entries ∧ s'.nextBatchId = s.nextBatchId) ∨
    ∃ mid taken, mid.Sublist s.entries ∧ (taken ++ s'.entries).Perm mid ∧
      s'.entries.Sublist mid ∧ taken ≠ [] ∧
      r = some (batchEntries now taken, ⟨s.nextBatchId, taken.map (fun p => p.2.toRequest p.1),
        (taken.map (fun p => p.2.toRequest p.1)).length % 2 ^ 32⟩) ∧
      s'.nextBatchId = (s.nextBatchId + 1) % 2 ^ 64

theorem QueueOutcome.of_sublist {s t s' : State} {now : Nat} {r : Option NextBatch}
    (sub : t.entries.Sublist s.entries) (batchId : t.nextBatchId = s.nextBatchId)
    (outcome : QueueOutcome t s' now r) : QueueOutcome s s' now r := by
  rcases outcome with ⟨none, sub', same⟩ | ⟨mid, taken, sub', rest⟩
  · exact .inl ⟨none, sub'.trans sub, same.trans batchId⟩
  · exact .inr ⟨mid, taken, sub'.trans sub, batchId ▸ rest⟩

namespace State

variable {B : BatchType}

/-- Everything `emitBatch` can do, given the scan. -/
theorem emitBatch_cases {s s' : State} {existingOpt existingOpt' : Option ExistingBatch}
    {existing : ExistingBatch} {scan : Scan B} {now : Nat} {r : Option NextBatch}
    (h : s.emitBatch B existingOpt existing scan now = .ok (s', existingOpt', r)) :
    existingOpt' = existingOpt ∧ s'.config = s.config ∧ s'.nextId = s.nextId ∧
      QueueOutcome s s' now r := by
  have dropped := dropIndices_sublist s.entries scan.indicesToDrop
  unfold emitBatch at h
  dsimp only at h
  split_ifs at h with none floor
  · simp only [Except.ok.injEq, Prod.mk.injEq] at h
    obtain ⟨rfl, rfl, rfl⟩ := h
    exact ⟨rfl, rfl, rfl, .inl ⟨rfl, dropped, rfl⟩⟩
  · simp only [Except.ok.injEq, Prod.mk.injEq] at h
    obtain ⟨rfl, rfl, rfl⟩ := h
    exact ⟨rfl, rfl, rfl, .inl ⟨rfl, dropped, rfl⟩⟩
  · split at h
    · cases h
    · rename_i left taken popped
      simp only [Except.ok.injEq, Prod.mk.injEq] at h
      obtain ⟨rfl, rfl, rfl⟩ := h
      obtain ⟨perm, sub, len⟩ := popChosen_perm popped
      have chosen : scan.chosenIndices ≠ [] := by simpa using none
      refine ⟨rfl, rfl, rfl, .inr ⟨_, taken, dropped, perm, sub, ?_, rfl, rfl⟩⟩
      rintro rfl
      exact chosen (List.length_eq_zero.mp len.symm)

/-- Everything a successful `next_batch` does to the queue. -/
theorem nextBatch_cases {s s' : State} {existingOpt existingOpt' : Option ExistingBatch}
    {now : Nat} {r : Option NextBatch}
    (h : s.nextBatch B existingOpt now = .ok (s', existingOpt', r)) :
    existingOpt' = existingOpt ∧ s'.config = s.config ∧ s'.nextId = s.nextId ∧
      QueueOutcome s s' now r := by
  unfold nextBatch at h
  dsimp only at h
  have pruned := pruneCancelled_sublist s.entries (s.resetCursor (existingOpt.getD ∅).len).checkedRequestCount
  split_ifs at h
  · simp only [Except.ok.injEq, Prod.mk.injEq] at h
    obtain ⟨rfl, rfl, rfl⟩ := h
    exact ⟨rfl, rfl, rfl, .inl ⟨rfl, List.Sublist.refl _, rfl⟩⟩
  · simp only [Except.ok.injEq, Prod.mk.injEq] at h
    obtain ⟨rfl, rfl, rfl⟩ := h
    exact ⟨rfl, by simp, by simp, .inl ⟨rfl, by simpa using pruned, by simp⟩⟩
  · obtain ⟨rfl, config, nextId, outcome⟩ := emitBatch_cases h
    exact ⟨rfl, by simp [config], by simp [nextId],
      outcome.of_sublist (by simpa using pruned) (by simp)⟩

/-- The scan a call of `next_batch` runs once it gets past its early returns. -/
def callScan (B : BatchType) (s : State) (existingOpt : Option ExistingBatch) : Scan B :=
  let existing := existingOpt.getD ∅
  let s := (s.resetCursor existing.len).pruneFront
  scanLoop B s.config existing s.entries (s.entries.drop s.checkedRequestCount)
    (Scan.init B existing s.checkedRequestCount)

/-- A call that hands out a batch got past its early returns, and the batch is built from
the entries its scan chose, popped from the queue left by the drops. -/
theorem nextBatch_some {s s' : State} {existingOpt existingOpt' : Option ExistingBatch} {now : Nat}
    {nb : NextBatch} (h : s.nextBatch B existingOpt now = .ok (s', existingOpt', some nb)) :
    (existingOpt.getD ∅).len < s.config.sizeLimit ∧
      (s.resetCursor (existingOpt.getD ∅).len).pruneFront.checkedRequestCount ≤
        (s.resetCursor (existingOpt.getD ∅).len).pruneFront.entries.length ∧
      ∃ left taken, popChosen (s.callScan B existingOpt).chosenIndices 0
          (dropIndices (s.resetCursor (existingOpt.getD ∅).len).pruneFront.entries
            (s.callScan B existingOpt).indicesToDrop) = .ok (left, taken) ∧
        nb.1 = batchEntries now taken ∧ nb.2.requests = taken.map fun p => p.2.toRequest p.1 := by
  unfold nextBatch at h
  dsimp only at h
  split_ifs at h with full skip range
  · cases h
  · cases h
  unfold emitBatch at h
  dsimp only at h
  split_ifs at h
  · cases h
  · cases h
  split at h
  · cases h
  · rename_i left taken popped
    simp only [Except.ok.injEq, Prod.mk.injEq, Option.some.injEq] at h
    obtain ⟨-, -, rfl⟩ := h
    exact ⟨Nat.lt_of_not_le full, Nat.le_of_not_lt range, left, taken, popped, rfl, rfl⟩

/-- A batch handed out fits beside the running batch under `size_limit`. -/
theorem nextBatch_size_le {s s' : State} {existingOpt existingOpt' : Option ExistingBatch} {now : Nat}
    {nb : NextBatch} (h : s.nextBatch B existingOpt now = .ok (s', existingOpt', some nb)) :
    (existingOpt.getD ∅).len + nb.2.requests.length ≤ s.config.sizeLimit := by
  obtain ⟨room, -, left, taken, popped, -, requests⟩ := nextBatch_some h
  rw [requests, List.length_map, (popChosen_perm popped).2.2]
  simpa [callScan] using scanLoop_chosen_room _ _ room

end State

/-! ## The entries of the new batch -/

theorem batchEntries_eq (now : Nat) (taken : List (Nat × Entry)) :
    batchEntries now taken = (taken.map fun p => (⟨p.1, { p.2 with batchTime := some now }⟩ :
      Sigma fun _ : Nat => Entry)).foldl (fun m e => m.insert e.1 e.2) ∅ := by
  rw [batchEntries, List.foldl_map]

/-- Every entry of `batch_entries` was taken, and has its batch time set. -/
theorem lookup_batchEntries {now k : Nat} {taken : List (Nat × Entry)} {e : Entry}
    (found : (batchEntries now taken).lookup k = some e) : e.batchTime = some now ∧ k ∈ taken.map Prod.fst := by
  rw [batchEntries_eq] at found
  rcases lookup_foldl_insert _ _ found with h | h
  · cases h
  · obtain ⟨p, hp, eq⟩ := List.mem_map.mp h
    cases eq
    exact ⟨rfl, List.mem_map_of_mem _ hp⟩

/-- `batch_entries` holds every entry taken, once each, when their ids differ. -/
theorem keys_batchEntries_perm {now : Nat} {taken : List (Nat × Entry)} (nodup : (taken.map Prod.fst).Nodup) :
    (batchEntries now taken).keys.Perm (taken.map Prod.fst) := by
  rw [batchEntries_eq]
  refine (keys_foldl_insert_perm _ ∅ ?_ fun k _ => AList.not_mem_empty k).trans ?_
  · rw [List.map_map]; exact nodup
  · rw [List.map_map]; rfl

/-! ## Defects -/

section Defects

/-- Three waiting requests of one input and one output token; the client of the middle
one has dropped its receiver. -/
def cancelledMiddle : State :=
  (((State.new ⟨10, 100, 0⟩).append ⟨⟨1, 1⟩, 0, false, 0, none⟩).append
    ⟨⟨1, 1⟩, 0, true, 0, none⟩).append ⟨⟨1, 1⟩, 0, false, 0, none⟩

/-- The scan chooses positions `0` and `2` and records `2` to drop the cancelled entry
at `1`. Dropping index `2` removes the live entry there; popping the first chosen entry
leaves the cancelled one alone in the queue, and `remove(2 - 1)` finds nothing. -/
theorem nextBatch_panics_after_drop : cancelledMiddle.nextBatch flashBatch none 0 = .error "bug" :=
  rfl

/-- Four waiting requests, the second and the fourth cancelled, the fourth with an input
of `1000` tokens; at most two requests a batch and a prefill weight limit of `10`. -/
def twoCancelled : State :=
  ((((State.new ⟨2, 1000, 10⟩).append ⟨⟨1, 1⟩, 0, false, 0, none⟩).append
    ⟨⟨1, 1⟩, 0, true, 0, none⟩).append ⟨⟨1, 1⟩, 0, false, 0, none⟩).append
    ⟨⟨1000, 1⟩, 0, true, 0, none⟩

/-- The scan chooses the live requests `0` and `2` and stops at the size limit. Dropping
index `2` removes request `2`, so the pop of the second chosen index takes the cancelled
request `3`: the batch holds an entry no check has seen, whose prefill weight is `1001`,
the live request `2` is gone from the queue, and the cancelled request `1` stays. -/
theorem nextBatch_takes_dropped_entry :
    ∃ s' nb, twoCancelled.nextBatch flashBatch none 0 = .ok (s', none, some nb) ∧
      s'.entries.map Prod.fst = [1] ∧
      nb.2.requests = [⟨0, 1, 1⟩, ⟨3, 1000, 1⟩] ∧
      twoCancelled.config.prefillWeightLimit <
        flashBatch.prefillWeight
          (nb.2.requests.foldl (fun st r => flashBatch.updateStats st r.truncate 0) flashBatch.default)
          nb.2.requests.length :=
  ⟨_, _, rfl, rfl, rfl, by decide⟩

/-- Two waiting requests of five input and five output tokens, under a weight limit of
`10`. -/
def twoHalves : State :=
  ((State.new ⟨10, 10, 0⟩).append ⟨⟨5, 5⟩, 0, false, 0, none⟩).append ⟨⟨5, 5⟩, 0, false, 0, none⟩

/-- The fast path compares the statistics before each candidate: `0` and then `10`, never
above the limit, so both requests are admitted without the tree. Their projected batch
weighs `20` at step `5`. -/
theorem nextBatch_overflows_weight :
    ∃ s' nb, twoHalves.nextBatch flashBatch none 0 = .ok (s', none, some nb) ∧
      nb.2.requests.map Request.id = [0, 1] ∧
      twoHalves.config.weightLimit <
        flashWeight (nb.2.requests.map fun r => ⟨r.maxNewTokens, r.truncate, r.id⟩) 5 :=
  ⟨_, _, rfl, rfl, by decide⟩

/-- Two waiting requests, the second with an input of `100` tokens, under a prefill
weight limit of `50`. -/
def prefillHeavy : State :=
  ((State.new ⟨10, 1000, 50⟩).append ⟨⟨1, 1⟩, 0, false, 0, none⟩).append
    ⟨⟨100, 1⟩, 0, false, 0, none⟩

/-- A running batch of one request. -/
def runningOne : ExistingBatch := (∅ : ExistingBatch).insert 100 ⟨⟨1, 1⟩, 0, false, 0, some 0⟩

/-- The scan of `prefillHeavy` beside `runningOne`. -/
def prefillHeavyScan : Scan flashBatch :=
  scanLoop flashBatch prefillHeavy.config runningOne prefillHeavy.entries prefillHeavy.entries
    (Scan.init flashBatch runningOne 0)

/-- Beside `runningOne`, the scan examines both requests without building the tree,
chooses the first and rejects the second, whose prefill weight `1 + 100` is over `50`,
installing the cutoff. As the tree does not exist, `hit_prefill_weight_limit` stays
`false`; the size floor applies and the call returns no batch, marking the buffer
insufficient. -/
theorem nextBatch_floor_after_prefill_hit :
    prefillHeavyScan.queueIndex = 2 ∧ prefillHeavyScan.chosenIndices = [0] ∧
      prefillHeavyScan.btree.isNone ∧ prefillHeavyScan.timeCutoff = some cutoffDuration ∧
      prefillHeavyScan.hitPrefillWeightLimit = false ∧
      ∃ s', prefillHeavy.nextBatch flashBatch (some runningOne) 0 = .ok (s', some runningOne, none) ∧
        s'.bufferContentsInsufficient = true :=
  ⟨rfl, rfl, rfl, rfl, rfl, _, rfl, rfl⟩

end Defects

end TgiRouter
