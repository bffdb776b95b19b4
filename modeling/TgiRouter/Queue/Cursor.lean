import TgiRouter.Queue.Run

/-!
# The cursor of the queue, and where `next_batch` can panic

`State::next_batch` can panic at two places: `self.entries.range(queue_index..)` when the
saved cursor `checked_request_count` is past the end of the queue, and the
`expect("bug")` of the pop. This module shows that the first never happens on a state a
run of the queue task reaches, and that the second needs a cancelled entry:

* `scanEntry_frame` says what one pass does to the variables `scanEntry_inv` leaves out:
  `checked_up_to_index`, the statistics, and the number of drops;
* `scanLoop_checked`: the cursor the scan saves, together with the drops it records,
  grows by at most one per entry scanned;
* `reachable_cursor_le`: on every reachable state the cursor is within the queue, since
  every command keeps it there (`State.nextBatch_cursor_le`);
* `reachable_nextBatch_ok_or_bug`: on every reachable state a call returns or panics at
  the pop;
* `reachable_nextBatch_ok_of_live`: on a reachable state with no cancelled entry, a
  call always returns.
-/

namespace TgiRouter

/-! ## The rest of one pass -/

section Frame

variable {B : BatchType} {config : BatchingConfig} {existing : ExistingBatch}
  {queue : List (Nat × Entry)}

/-- The prefill check and the commit keep the cursor and the drops; a rejection keeps the
statistics, and a commit chooses the entry with the statistics grown by it, after its
prefill weight passed the check. -/
theorem Scan.admit_frame {acc : Scan B} {e : Entry} {slot : Slot} {nextStats : B.Stats}
    {btree : Option Tree} {flow : LoopFlow (Scan B)}
    (h : acc.admit B config e slot nextStats btree = flow) :
    flow.val.checkedUpToIndex = acc.checkedUpToIndex ∧ flow.val.indicesToDrop = acc.indicesToDrop ∧
      ((flow.val.chosenIndices = acc.chosenIndices ∧ flow.val.batchStats = acc.batchStats ∧
          flow.val.prefillStats = acc.prefillStats) ∨
        flow.val.chosenIndices = acc.chosenIndices ++ [acc.queueIndex - 1] ∧ flow.val.batchStats = nextStats ∧
          flow.val.prefillStats = (if 0 < config.prefillWeightLimit then
            B.updateStats acc.prefillStats e.request.truncate 0 else acc.prefillStats) ∧
          (0 < config.prefillWeightLimit → B.prefillWeight (B.updateStats acc.prefillStats e.request.truncate 0)
            (acc.chosenIndices.length + 1) ≤ config.prefillWeightLimit)) := by
  unfold Scan.admit at h
  dsimp only at h
  split_ifs at h with pos over full full <;> subst h
  · exact ⟨rfl, rfl, .inl ⟨rfl, rfl, rfl⟩⟩
  · exact ⟨rfl, rfl, .inr ⟨rfl, rfl, (if_pos pos).symm, fun _ => Nat.le_of_not_lt over⟩⟩
  · exact ⟨rfl, rfl, .inr ⟨rfl, rfl, (if_pos pos).symm, fun _ => Nat.le_of_not_lt over⟩⟩
  · exact ⟨rfl, rfl, .inr ⟨rfl, rfl, (if_neg pos).symm, fun p => absurd p pos⟩⟩
  · exact ⟨rfl, rfl, .inr ⟨rfl, rfl, (if_neg pos).symm, fun p => absurd p pos⟩⟩

/-- What one pass does to the cursor, the drops and the statistics: it breaks on the time
cutoff with nothing changed, or it counts the entry once, in `checked_up_to_index` or in
the drops, and either keeps the chosen entries and the statistics or chooses the entry,
growing the statistics by it. -/
theorem scanEntry_frame {acc : Scan B} {id : Nat} {e : Entry} {flow : LoopFlow (Scan B)}
    (h : scanEntry B config existing queue acc id e = flow) :
    flow = .stop acc ∨
      flow.val.checkedUpToIndex + flow.val.indicesToDrop.length =
          acc.checkedUpToIndex + acc.indicesToDrop.length + 1 ∧
        ((flow.val.chosenIndices = acc.chosenIndices ∧ flow.val.batchStats = acc.batchStats ∧
            flow.val.prefillStats = acc.prefillStats) ∨
          flow.val.chosenIndices = acc.chosenIndices ++ [acc.queueIndex] ∧
            flow.val.batchStats = B.updateStats acc.batchStats e.request.truncate e.request.maxNewTokens ∧
            flow.val.prefillStats = (if 0 < config.prefillWeightLimit then
              B.updateStats acc.prefillStats e.request.truncate 0 else acc.prefillStats) ∧
            (0 < config.prefillWeightLimit → B.prefillWeight (B.updateStats acc.prefillStats e.request.truncate 0)
              (acc.chosenIndices.length + 1) ≤ config.prefillWeightLimit)) := by
  rw [scanEntry] at h
  by_cases cutoff : acc.timeCutoff.any (fun t => decide (t < e.queueTime)) = true
  · rw [if_pos cutoff] at h
    exact .inl h.symm
  rw [if_neg cutoff] at h
  refine .inr ?_
  by_cases dropped : e.disconnected = true
  · rw [if_pos dropped] at h
    subst h
    exact ⟨by simp only [LoopFlow.val, List.length_append, List.length_singleton]; omega, .inl ⟨rfl, rfl, rfl⟩⟩
  rw [if_neg dropped] at h
  dsimp only at h
  split at h
  · split at h
    · -- the weight check rejects the candidate
      subst h
      exact ⟨by simp only [LoopFlow.val, Scan.skip]; omega, .inl ⟨rfl, rfl, rfl⟩⟩
    · obtain ⟨checked, drops, frame⟩ := Scan.admit_frame h
      exact ⟨by simp only [checked, drops]; omega, by simpa only [Nat.add_sub_cancel] using frame⟩
  · obtain ⟨checked, drops, frame⟩ := Scan.admit_frame h
    exact ⟨by simp only [checked, drops]; omega, by simpa only [Nat.add_sub_cancel] using frame⟩

/-- The scan counts each entry it passes once, in the cursor it saves or in the drops. -/
theorem scanLoop_checked : ∀ (l : List (Nat × Entry)) (acc : Scan B),
    (scanLoop B config existing queue l acc).checkedUpToIndex +
        (scanLoop B config existing queue l acc).indicesToDrop.length ≤
      acc.checkedUpToIndex + acc.indicesToDrop.length + l.length
  | [], _ => le_rfl
  | (id, e) :: rest, acc => by
    have step := scanEntry_frame (rfl : scanEntry B config existing queue acc id e = _)
    simp only [scanLoop, List.length_cons]
    rcases flow : scanEntry B config existing queue acc id e with a | a <;> rw [flow] at step <;> dsimp only
    · rcases step with stop | ⟨count, -⟩
      · cases stop
      · have := scanLoop_checked rest a
        simp only [LoopFlow.val_next] at count
        omega
    · rcases step with stop | ⟨count, -⟩
      · cases stop
        omega
      · simp only [LoopFlow.val_stop] at count
        omega

end Frame

/-! ## The list surgery -/

/-- `VecDeque::remove` removes at most one entry for each index dropped. -/
theorem length_le_dropIndices (queue : List (Nat × Entry)) (indices : List Nat) :
    queue.length ≤ (dropIndices queue indices).length + indices.length := by
  induction indices generalizing queue with
  | nil => simp
  | cons i rest ih =>
    have dropped := ih (queue.eraseIdx i)
    have erased := List.length_eraseIdx queue i
    simp only [dropIndices, List.foldl_cons, List.length_cons] at dropped ⊢
    split_ifs at erased <;> omega

/-- Popping cancelled entries off the front resets the cursor whenever it pops one, so the
cursor stays within the queue. -/
theorem pruneCancelled_cursor : ∀ (l : List (Nat × Entry)) (c : Nat), c ≤ l.length →
    (pruneCancelled l c).2 ≤ (pruneCancelled l c).1.length
  | [], _, within => within
  | (id, e) :: rest, c, within => by
    unfold pruneCancelled
    split_ifs
    · exact pruneCancelled_cursor rest 0 (Nat.zero_le _)
    · exact within

/-- The pop fails only at `expect("bug")`. -/
theorem popChosen_ok_or_bug : ∀ (chosen : List Nat) (i : Nat) (queue : List (Nat × Entry)),
    (∃ r, popChosen chosen i queue = .ok r) ∨ popChosen chosen i queue = .error "bug"
  | [], _, queue => .inl ⟨_, rfl⟩
  | index :: rest, i, queue => by
    unfold popChosen
    split
    · exact .inr rfl
    · rcases popChosen_ok_or_bug rest (i + 1) (queue.eraseIdx (index - i)) with ⟨⟨left, taken⟩, popped⟩ | popped
      · exact .inl ⟨_, by rw [popped]⟩
      · exact .inr (by rw [popped])

namespace State

variable {B : BatchType}

theorem resetCursor_checkedRequestCount_le (s : State) (n : Nat) :
    (s.resetCursor n).checkedRequestCount ≤ s.checkedRequestCount := by
  unfold resetCursor; split <;> simp

/-- The cursor stays within the queue through the reset and the pops at the front. -/
theorem pruneFront_cursor_le {s : State} (cursor : s.checkedRequestCount ≤ s.entries.length) (n : Nat) :
    (s.resetCursor n).pruneFront.checkedRequestCount ≤ (s.resetCursor n).pruneFront.entries.length :=
  pruneCancelled_cursor _ _ (by simpa using (s.resetCursor_checkedRequestCount_le n).trans cursor)

/-! ## The two panics -/

/-- `emitBatch` panics only at the pop. -/
theorem emitBatch_ok_or_bug (s : State) (existingOpt : Option ExistingBatch) (existing : ExistingBatch)
    (scan : Scan B) (now : Nat) :
    (∃ r, s.emitBatch B existingOpt existing scan now = .ok r) ∨
      s.emitBatch B existingOpt existing scan now = .error "bug" := by
  unfold emitBatch
  dsimp only
  split_ifs
  · exact .inl ⟨_, rfl⟩
  · exact .inl ⟨_, rfl⟩
  · rcases popChosen_ok_or_bug scan.chosenIndices 0 (dropIndices s.entries scan.indicesToDrop) with
      ⟨⟨left, taken⟩, popped⟩ | popped
    · exact .inl ⟨_, by rw [popped]⟩
    · exact .inr (by rw [popped])

/-- `emitBatch` returns when the pop succeeds. -/
theorem emitBatch_isOk {s : State} {existingOpt : Option ExistingBatch} {existing : ExistingBatch}
    {scan : Scan B} {now : Nat}
    (pop : ∃ left taken, popChosen scan.chosenIndices 0 (dropIndices s.entries scan.indicesToDrop) = .ok (left, taken)) :
    ∃ r, s.emitBatch B existingOpt existing scan now = .ok r := by
  obtain ⟨left, taken, popped⟩ := pop
  unfold emitBatch
  dsimp only
  split_ifs
  · exact ⟨_, rfl⟩
  · exact ⟨_, rfl⟩
  · exact ⟨_, by rw [popped]⟩

/-- `next_batch` phase by phase, with the scan of the call named. -/
theorem nextBatch_eq (s : State) (existingOpt : Option ExistingBatch) (now : Nat) :
    s.nextBatch B existingOpt now =
      if s.config.sizeLimit ≤ (existingOpt.getD ∅).len then .ok (s, existingOpt, none)
      else if (s.resetCursor (existingOpt.getD ∅).len).pruneFront.skipsScan (existingOpt.getD ∅) now then
        .ok ((s.resetCursor (existingOpt.getD ∅).len).pruneFront, existingOpt, none)
      else if (s.resetCursor (existingOpt.getD ∅).len).pruneFront.entries.length <
          (s.resetCursor (existingOpt.getD ∅).len).pruneFront.checkedRequestCount then
        .error "range start index out of range"
      else (s.resetCursor (existingOpt.getD ∅).len).pruneFront.emitBatch B existingOpt (existingOpt.getD ∅)
        (s.callScan B existingOpt) now :=
  rfl

/-- The scan of a call counts each entry past the cursor at most once, in the cursor it
saves or in the drops. -/
theorem callScan_checked_le {s : State} {existingOpt : Option ExistingBatch}
    (cursor : (s.resetCursor (existingOpt.getD ∅).len).pruneFront.checkedRequestCount ≤
      (s.resetCursor (existingOpt.getD ∅).len).pruneFront.entries.length) :
    (s.callScan B existingOpt).checkedUpToIndex + (s.callScan B existingOpt).indicesToDrop.length ≤
      (s.resetCursor (existingOpt.getD ∅).len).pruneFront.entries.length := by
  refine (scanLoop_checked _ _).trans ?_
  simp only [Scan.init, List.length_nil, List.length_drop]
  omega

/-- Every call of `next_batch` keeps the cursor within the queue. -/
theorem nextBatch_cursor_le {s s' : State} {existingOpt existingOpt' : Option ExistingBatch} {now : Nat}
    {r : Option NextBatch} (cursor : s.checkedRequestCount ≤ s.entries.length)
    (h : s.nextBatch B existingOpt now = .ok (s', existingOpt', r)) :
    s'.checkedRequestCount ≤ s'.entries.length := by
  have pruned := pruneFront_cursor_le cursor (existingOpt.getD ∅).len
  rw [nextBatch_eq] at h
  split_ifs at h with full skip range
  · cases h
    exact cursor
  · cases h
    exact pruned
  have counted := callScan_checked_le (B := B) pruned
  have dropped := length_le_dropIndices (s.resetCursor (existingOpt.getD ∅).len).pruneFront.entries
    (s.callScan B existingOpt).indicesToDrop
  unfold emitBatch at h
  dsimp only at h
  split_ifs at h
  · cases h
    dsimp only
    omega
  · cases h
    dsimp only
    omega
  · split at h
    · cases h
    · cases h
      exact Nat.zero_le _

/-- With the cursor within the queue, a call returns or panics at the pop. -/
theorem nextBatch_ok_or_bug {s : State} (cursor : s.checkedRequestCount ≤ s.entries.length)
    (existingOpt : Option ExistingBatch) (now : Nat) :
    (∃ r, s.nextBatch B existingOpt now = .ok r) ∨ s.nextBatch B existingOpt now = .error "bug" := by
  have pruned := pruneFront_cursor_le cursor (existingOpt.getD ∅).len
  rw [nextBatch_eq]
  split_ifs with full skip range
  · exact .inl ⟨_, rfl⟩
  · exact .inl ⟨_, rfl⟩
  · exact absurd pruned (Nat.not_le.mpr range)
  · exact emitBatch_ok_or_bug _ _ _ _ _

/-- The scan of a call over a queue of live entries, with the cursor within the queue: it
sees the queue as it is, records nothing to drop, and chooses increasing positions of the
queue. -/
theorem callScan_live {s : State} {existingOpt : Option ExistingBatch}
    (live : ∀ p ∈ s.entries, p.2.disconnected = false)
    (cursor : (s.resetCursor (existingOpt.getD ∅).len).pruneFront.checkedRequestCount ≤
      (s.resetCursor (existingOpt.getD ∅).len).pruneFront.entries.length) :
    (s.resetCursor (existingOpt.getD ∅).len).pruneFront.entries = s.entries ∧
      (s.callScan B existingOpt).indicesToDrop = [] ∧
      (s.callScan B existingOpt).chosenIndices.Pairwise (· < ·) ∧
      ∀ c ∈ (s.callScan B existingOpt).chosenIndices, c < s.entries.length := by
  have front : (s.resetCursor (existingOpt.getD ∅).len).pruneFront.entries = s.entries := by
    simp only [pruneFront_entries, resetCursor_entries, pruneCancelled_of_live live]
  have fits : (Scan.init B (existingOpt.getD ∅)
      (s.resetCursor (existingOpt.getD ∅).len).pruneFront.checkedRequestCount).queueIndex +
      ((s.resetCursor (existingOpt.getD ∅).len).pruneFront.entries.drop
        (s.resetCursor (existingOpt.getD ∅).len).pruneFront.checkedRequestCount).length ≤
      (s.resetCursor (existingOpt.getD ∅).len).pruneFront.entries.length := by
    simp only [Scan.init, List.length_drop]
    omega
  obtain ⟨increasing, bounded⟩ := scanLoop_chosen_bounded _ _ fits List.Pairwise.nil (by simp)
  exact ⟨front, scanLoop_drop_of_live _ _ fun p hp => live p (front ▸ List.mem_of_mem_drop hp), increasing,
    front ▸ bounded⟩

/-- With the cursor within a queue of live entries, a call returns: nothing is dropped,
and the chosen indices are increasing positions of the queue, so the pop finds each. -/
theorem nextBatch_ok_of_live {s : State} (cursor : s.checkedRequestCount ≤ s.entries.length)
    (live : ∀ p ∈ s.entries, p.2.disconnected = false) (existingOpt : Option ExistingBatch) (now : Nat) :
    ∃ r, s.nextBatch B existingOpt now = .ok r := by
  have pruned := pruneFront_cursor_le cursor (existingOpt.getD ∅).len
  rw [nextBatch_eq]
  split_ifs with full skip range
  · exact ⟨_, rfl⟩
  · exact ⟨_, rfl⟩
  · exact absurd pruned (Nat.not_le.mpr range)
  apply emitBatch_isOk
  obtain ⟨front, drops, increasing, bounded⟩ := callScan_live (B := B) live pruned
  rw [drops, dropIndices_nil, front]
  exact popChosen_isOk increasing fun c hc => ⟨Nat.zero_le c, bounded c hc⟩

end State

/-! ## Over every run -/

/-- On every state a run of the queue task reaches, the cursor `checked_request_count` is
within the queue. -/
theorem reachable_cursor_le {B : BatchType} {config : BatchingConfig} {s : State} {batches : List Batch}
    {n : Nat} (reach : Reachable B config s batches n) : s.checkedRequestCount ≤ s.entries.length := by
  induction reach with
  | new => exact Nat.le_refl 0
  | append _ _ _ ih =>
    simp only [State.append, List.length_append, List.length_singleton]
    omega
  | nextBatch _ h ih => exact State.nextBatch_cursor_le ih h
  | cancel id _ ih => simpa [State.cancel] using ih

/-- On every state a run of the queue task reaches, `next_batch` never panics at
`range(queue_index..)`: a call returns, or panics at the `expect("bug")` of the pop. -/
theorem reachable_nextBatch_ok_or_bug {B : BatchType} {config : BatchingConfig} {s : State}
    {batches : List Batch} {n : Nat} (reach : Reachable B config s batches n)
    (existingOpt : Option ExistingBatch) (now : Nat) :
    (∃ r, s.nextBatch B existingOpt now = .ok r) ∨ s.nextBatch B existingOpt now = .error "bug" :=
  State.nextBatch_ok_or_bug (reachable_cursor_le reach) existingOpt now

/-- Three appends, the middle one already cancelled: the call panics at the pop. -/
theorem reachable_nextBatch_ok_or_bug_cancelledMiddle :
    Reachable flashBatch ⟨10, 100, 0⟩ cancelledMiddle [] 3 ∧
      ((∃ r, cancelledMiddle.nextBatch flashBatch none 0 = .ok r) ∨
        cancelledMiddle.nextBatch flashBatch none 0 = .error "bug") :=
  have reach : Reachable flashBatch ⟨10, 100, 0⟩ cancelledMiddle [] 3 :=
    ((Reachable.new.append _ rfl).append _ rfl).append _ rfl
  ⟨reach, reachable_nextBatch_ok_or_bug reach none 0⟩

/-- On every state a run of the queue task reaches in which no waiting entry is
cancelled, `next_batch` returns, whatever the running batch and the time. -/
theorem reachable_nextBatch_ok_of_live {B : BatchType} {config : BatchingConfig} {s : State}
    {batches : List Batch} {n : Nat} (reach : Reachable B config s batches n)
    (live : ∀ p ∈ s.entries, p.2.disconnected = false) (existingOpt : Option ExistingBatch) (now : Nat) :
    ∃ r, s.nextBatch B existingOpt now = .ok r :=
  State.nextBatch_ok_of_live (reachable_cursor_le reach) live existingOpt now

/-- Two appends of live requests: the call returns. -/
theorem reachable_nextBatch_ok_of_live_twoHalves :
    Reachable flashBatch ⟨10, 10, 0⟩ twoHalves [] 2 ∧ (∀ p ∈ twoHalves.entries, p.2.disconnected = false) ∧
      ∃ r, twoHalves.nextBatch flashBatch none 0 = .ok r :=
  have reach : Reachable flashBatch ⟨10, 10, 0⟩ twoHalves [] 2 := (Reachable.new.append _ rfl).append _ rfl
  ⟨reach, by decide, reachable_nextBatch_ok_of_live reach (by decide) none 0⟩

end TgiRouter
