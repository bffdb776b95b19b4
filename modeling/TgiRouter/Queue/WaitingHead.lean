import TgiRouter.Queue.Run

/-!
# The head of the queue after `MAX_WAITING_DURATION`

A call of `next_batch` beside a running batch applies a size floor to the new batch,
except when the head of the queue has waited longer than `MAX_WAITING_DURATION`: that
exception is what lets a lone request in a quiet queue get in at all. The early return
before the scan makes the same exception for a buffer found insufficient. Both only work
when the call reaches the head. The scan starts at the saved cursor
`checked_request_count`, which is reset only when the running batch changes size or a
cancelled entry leaves the front.

The module proves both sides:

* from a reachable queue with no cancelled entry, a call whose scan starts at the head
  returns a batch holding the head, under both cost models, whenever the head fits
  beside the running batch and has waited too long;
* a call that finds the new batch too small saves a cursor past the head. A later call
  beside a running batch of the same size then returns nothing at the early return,
  however long the head has waited: the test `entries.len() <= checked_up_to_index`
  comes first and has no exception for an aged head.

The proof follows the call: `State.nextBatch_scans_from_head` for the phases before the
scan, `scanEntry_chooses_head` for its first pass, `scanLoop_chooses_head` for the rest
of the loop, and `State.emitBatch_takes_head` for the pop.
-/

namespace TgiRouter

/-- The tuples of a running batch, as the admission tree is filled with them. -/
def batchSlots (existing : ExistingBatch) : List Slot :=
  existing.entries.map fun e => e.2.batchSlot e.1

/-! ## The first pass of the scan -/

theorem mem_foldl_batchSlot {z : Slot} : ∀ (l : List (Nat × Entry)) (t : Tree),
    z ∈ (l.foldl (fun t p => t.insert (p.2.batchSlot p.1)) t).desc →
      z ∈ t.desc ∨ ∃ p ∈ l, z = p.2.batchSlot p.1
  | [], _, h => .inl h
  | p :: l, t, h => by
    rcases mem_foldl_batchSlot l _ h with h | ⟨q, hq, rfl⟩
    · rcases Tree.mem_insert.mp h with rfl | h
      · exact .inr ⟨p, List.mem_cons_self _ _, rfl⟩
      · exact .inl h
    · exact .inr ⟨q, List.mem_cons_of_mem _ hq, rfl⟩

/-- Before any entry is chosen, the tree holds the running batch and the candidate, each
tuple at most once. -/
theorem initTree_insert_subperm (existing : ExistingBatch) (queue : List (Nat × Entry))
    (slot : Slot) :
    ((initTree existing queue []).insert slot).desc.Subperm (slot :: batchSlots existing) := by
  refine List.subperm_of_subset (Tree.nodup _) fun z hz => ?_
  rcases Tree.mem_insert.mp hz with rfl | hz
  · exact List.mem_cons_self _ _
  · simp only [initTree, List.filterMap_nil, List.append_nil] at hz
    rcases mem_foldl_batchSlot _ _ hz with h | ⟨p, hp, rfl⟩
    · simp [Tree.empty] at h
    · obtain ⟨e, he, rfl⟩ := List.mem_map.mp hp
      exact List.mem_cons_of_mem _ (List.mem_map_of_mem _ he)

section Bookkeeping

variable {B : BatchType} {config : BatchingConfig} {existing : ExistingBatch}
  {queue : List (Nat × Entry)}

/-- A candidate that passes the prefill check is chosen at the position just passed. -/
theorem Scan.admit_chooses {acc : Scan B} {e : Entry} {slot : Slot} {nextStats : B.Stats}
    {btree : Option Tree} {flow : LoopFlow (Scan B)}
    (h : acc.admit B config e slot nextStats btree = flow)
    (prefillFits : 0 < config.prefillWeightLimit →
      B.prefillWeight (B.updateStats acc.prefillStats e.request.truncate 0)
        (acc.chosenIndices.length + 1) ≤ config.prefillWeightLimit) :
    flow.val.chosenIndices = acc.chosenIndices ++ [acc.queueIndex - 1] := by
  rcases Scan.admit_inv h with ⟨pos, over, -⟩ | ⟨-, a, flow, -, chosen, -⟩
  · exact absurd over (Nat.not_lt.mpr (prefillFits pos))
  · rcases flow with ⟨-, rfl⟩ | ⟨-, rfl⟩ <;> exact chosen

end Bookkeeping

/-- The first pass from the head, with the cursor at `0`, chooses the head when it fits
beside the running batch: a `true` answer of the tree check would be a real overflow. -/
theorem scanEntry_chooses_head (M : CostModel) {config : BatchingConfig}
    {existing : ExistingBatch} {queue : List (Nat × Entry)} {id : Nat} {e : Entry}
    {flow : LoopFlow (Scan M.batchType)}
    (h : scanEntry M.batchType config existing queue (Scan.init M.batchType existing 0) id e = flow)
    (live : e.disconnected = false)
    (fits : ∀ t, M.weight (⟨e.request.maxNewTokens, e.request.truncate, id⟩ :: batchSlots existing) t ≤
      config.weightLimit)
    (prefillFits : 0 < config.prefillWeightLimit →
      M.batchType.prefillWeight (M.batchType.updateStats M.batchType.default e.request.truncate 0) 1 ≤
        config.prefillWeightLimit) :
    flow.val.queueIndex = 1 ∧ flow.val.chosenIndices = [0] ∧ flow.val.indicesToDrop = [] := by
  rcases scanEntry_inv h with ⟨cutoff, -⟩ | ⟨-, ⟨dropped, -⟩ | ⟨-, ⟨-, exceeds, -⟩ |
    ⟨-, btree, admitted⟩⟩⟩
  · simp [Scan.init] at cutoff
  · simp [live] at dropped
  · obtain ⟨t, over⟩ := M.exceedsWeight_sound exceeds
    have bound := M.weight_le_of_subperm
      (initTree_insert_subperm existing queue ⟨e.request.maxNewTokens, e.request.truncate, id⟩) t
    exact absurd (fits t) (Nat.not_le.mpr (over.trans_le bound))
  · obtain ⟨index, drops, -⟩ := Scan.admit_cases admitted
    exact ⟨index, Scan.admit_chooses admitted prefillFits, drops⟩

/-- The scan from the head chooses the head first; over live entries it drops nothing,
and its choices stay increasing and inside the queue. -/
theorem scanLoop_chooses_head (M : CostModel) {config : BatchingConfig}
    {existing : ExistingBatch} {queue : List (Nat × Entry)} {hid : Nat} {H : Entry}
    {rest : List (Nat × Entry)} {scan : Scan M.batchType}
    (h : scanLoop M.batchType config existing queue ((hid, H) :: rest)
      (Scan.init M.batchType existing 0) = scan)
    (live : ∀ p ∈ (hid, H) :: rest, p.2.disconnected = false)
    (fits : ∀ t, M.weight (⟨H.request.maxNewTokens, H.request.truncate, hid⟩ :: batchSlots existing) t ≤
      config.weightLimit)
    (prefillFits : 0 < config.prefillWeightLimit →
      M.batchType.prefillWeight (M.batchType.updateStats M.batchType.default H.request.truncate 0) 1 ≤
        config.prefillWeightLimit) :
    (∃ tail, scan.chosenIndices = 0 :: tail) ∧ scan.chosenIndices.Pairwise (· < ·) ∧
      (∀ c ∈ scan.chosenIndices, c < rest.length + 1) ∧ scan.indicesToDrop = [] := by
  obtain ⟨index, chosen, drops⟩ :=
    scanEntry_chooses_head M
      (rfl : scanEntry M.batchType config existing queue (Scan.init M.batchType existing 0) hid H = _)
      (live _ (List.mem_cons_self _ _)) fits prefillFits
  simp only [scanLoop] at h
  split at h
  · rename_i a hflow
    simp only [hflow, LoopFlow.val_next] at index chosen drops
    subst h
    obtain ⟨tail, grows⟩ := scanLoop_chosen_grows rest a
    obtain ⟨sorted, bounded⟩ :=
      scanLoop_chosen_bounded (N := rest.length + 1) rest a (by omega) (by simp [chosen])
        (by simp [chosen, index])
    refine ⟨⟨tail, by rw [← grows, chosen]; rfl⟩, sorted, bounded, ?_⟩
    rw [scanLoop_drop_of_live rest a fun p hp => live p (List.mem_cons_of_mem _ hp), drops]
  · rename_i a hflow
    simp only [hflow, LoopFlow.val_stop] at index chosen drops
    subst h
    exact ⟨⟨[], chosen⟩, by simp [chosen], by simp [chosen], drops⟩

/-! ## Before and after the scan -/

/-- The entries of `batch_entries` inserted after an id leave its entry alone. -/
theorem lookup_foldl_insert_of_not_mem (now k : Nat) :
    ∀ (taken : List (Nat × Entry)) (m : ExistingBatch), k ∉ taken.map Prod.fst →
      (taken.foldl (fun m p => m.insert p.1 { p.2 with batchTime := some now }) m).lookup k =
        m.lookup k
  | [], _, _ => rfl
  | p :: taken, m, fresh => by
    simp only [List.map_cons, List.mem_cons, not_or] at fresh
    rw [List.foldl_cons, lookup_foldl_insert_of_not_mem now k taken _ fresh.2,
      AList.lookup_insert_ne fresh.1]

/-- The first entry taken is in `batch_entries` under its id, with `batch_time` set,
when no later entry taken has its id. -/
theorem lookup_batchEntries_head {now hid : Nat} {H : Entry} {taken : List (Nat × Entry)}
    (fresh : hid ∉ taken.map Prod.fst) :
    (batchEntries now ((hid, H) :: taken)).lookup hid = some { H with batchTime := some now } := by
  rw [batchEntries, List.foldl_cons, lookup_foldl_insert_of_not_mem now hid taken _ fresh,
    AList.lookup_insert]

namespace State

variable {B : BatchType}

/-- A cursor reset, or one already at `0`, leaves the cursor at `0`. -/
theorem resetCursor_checkedRequestCount_eq_zero {s : State} {n : Nat}
    (cursor : s.checkedRequestCount = 0 ∨ n ≠ s.lastSeenBatchSize) :
    (s.resetCursor n).checkedRequestCount = 0 := by
  unfold resetCursor
  split_ifs with changed
  · rfl
  · exact cursor.resolve_right changed

/-- With a live head, a cursor at `0` and room in the running batch, a call whose head has
waited too long scans the whole queue from the head. -/
theorem nextBatch_scans_from_head {s : State} {existing : ExistingBatch} {now hid : Nat}
    {H : Entry} {rest : List (Nat × Entry)} (head : s.entries = (hid, H) :: rest)
    (live : H.disconnected = false)
    (cursor : s.checkedRequestCount = 0 ∨ existing.len ≠ s.lastSeenBatchSize)
    (room : existing.len < s.config.sizeLimit) (waited : maxWaitingDuration < now - H.queueTime) :
    s.nextBatch B (some existing) now =
      ((s.resetCursor existing.len).pruneFront).emitBatch B (some existing) existing
        (scanLoop B s.config existing s.entries s.entries (Scan.init B existing 0)) now := by
  have reset := resetCursor_checkedRequestCount_eq_zero cursor
  have entries : ((s.resetCursor existing.len).pruneFront).entries = s.entries := by
    simp [head, pruneCancelled_of_head live]
  have count : ((s.resetCursor existing.len).pruneFront).checkedRequestCount = 0 := by
    simp [head, pruneCancelled_of_head live, reset]
  have noSkip : ((s.resetCursor existing.len).pruneFront).skipsScan existing now = false := by
    rw [skipsScan, nextEntryWaitingTooLong, entries, count, head]
    simp [waited]
  simp only [nextBatch, Option.getD_some, Nat.not_le.mpr room, if_false, noSkip, entries, count,
    Nat.not_lt_zero, List.drop_zero, pruneFront_config, resetCursor_config]
  rfl

/-- A scan that dropped nothing and chose the head first: once the head has waited too
long the size floor is off, and the pop puts the head into the batch. -/
theorem emitBatch_takes_head {t : State} {existingOpt : Option ExistingBatch}
    {existing : ExistingBatch} {scan : Scan B} {now hid : Nat} {H : Entry}
    {rest : List (Nat × Entry)} {tailChosen : List Nat}
    (head : t.entries = (hid, H) :: rest) (ids : (t.entries.map Prod.fst).Nodup)
    (waited : maxWaitingDuration < now - H.queueTime) (drops : scan.indicesToDrop = [])
    (chosen : scan.chosenIndices = 0 :: tailChosen) (sorted : scan.chosenIndices.Pairwise (· < ·))
    (bounded : ∀ c ∈ scan.chosenIndices, c < t.entries.length) :
    ∃ t' nb, t.emitBatch B existingOpt existing scan now = .ok (t', existingOpt, some nb) ∧
      nb.1.lookup hid = some { H with batchTime := some now } ∧ H.toRequest hid ∈ nb.2.requests := by
  obtain ⟨left, taken, popped⟩ :=
    popChosen_isOk sorted fun c hc => ⟨Nat.zero_le _, by simpa using bounded c hc⟩
  have perm := (popChosen_perm popped).1
  rw [chosen] at popped
  obtain ⟨p, taken', rfl, hp⟩ := popChosen_head popped
  obtain rfl : (hid, H) = p := by simpa [head] using hp
  have fresh : hid ∉ taken'.map Prod.fst := by
    have nodup := (perm.map Prod.fst).nodup_iff.mpr ids
    rw [List.map_append, List.map_cons] at nodup
    exact (List.nodup_cons.mp (List.Nodup.of_append_left nodup)).1
  rw [head] at popped
  have emitted : ∃ t', t.emitBatch B existingOpt existing scan now =
      .ok (t', existingOpt, some (batchEntries now ((hid, H) :: taken'),
        ⟨t.nextBatchId, ((hid, H) :: taken').map (fun p => p.2.toRequest p.1),
          (((hid, H) :: taken').map (fun p => p.2.toRequest p.1)).length % 2 ^ 32⟩)) := by
    simp [emitBatch, drops, chosen, nextEntryWaitingTooLong, head, waited, popped]
  obtain ⟨t', emitted⟩ := emitted
  exact ⟨t', _, emitted, lookup_batchEntries_head fresh, by simp⟩

end State

/-! ## The waiting head -/

/-- From a reachable queue with no cancelled entry, a call whose scan starts at the head
(the saved cursor is `0`, or the running batch changed size since the last call) puts a
head that has waited longer than `MAX_WAITING_DURATION` into the new batch, when the head
fits beside the running batch under the cost model and passes the prefill check alone. -/
theorem nextBatch_takes_waiting_head (M : CostModel) {config : BatchingConfig} {s : State}
    {batches : List Batch} {n : Nat} (reach : Reachable M.batchType config s batches n)
    (bound : n < 2 ^ 64) {existing : ExistingBatch} {now hid : Nat} {H : Entry}
    {rest : List (Nat × Entry)} (head : s.entries = (hid, H) :: rest)
    (live : ∀ p ∈ s.entries, p.2.disconnected = false)
    (cursor : s.checkedRequestCount = 0 ∨ existing.len ≠ s.lastSeenBatchSize)
    (room : existing.len < s.config.sizeLimit) (waited : maxWaitingDuration < now - H.queueTime)
    (fits : ∀ t, M.weight (⟨H.request.maxNewTokens, H.request.truncate, hid⟩ :: batchSlots existing) t ≤
      s.config.weightLimit)
    (prefillFits : 0 < s.config.prefillWeightLimit →
      M.batchType.prefillWeight (M.batchType.updateStats M.batchType.default H.request.truncate 0) 1 ≤
        s.config.prefillWeightLimit) :
    ∃ s' nb, s.nextBatch M.batchType (some existing) now = .ok (s', some existing, some nb) ∧
      nb.1.lookup hid = some { H with batchTime := some now } ∧ H.toRequest hid ∈ nb.2.requests := by
  have ids : (s.entries.map Prod.fst).Nodup :=
    (reachable_queueInv reach bound).waitingSorted.imp (fun lt => Nat.ne_of_lt lt)
  rw [State.nextBatch_scans_from_head head (live _ (head ▸ List.mem_cons_self _ _)) cursor room
    waited]
  have fromHead : scanLoop M.batchType s.config existing s.entries ((hid, H) :: rest)
      (Scan.init M.batchType existing 0) =
        scanLoop M.batchType s.config existing s.entries s.entries (Scan.init M.batchType existing 0) := by
    rw [← head]
  obtain ⟨⟨tail, chosen⟩, sorted, bounded, drops⟩ :=
    scanLoop_chooses_head M fromHead (head ▸ live) fits prefillFits
  have entries : ((s.resetCursor existing.len).pruneFront).entries = s.entries := by
    simp [head, pruneCancelled_of_head (live _ (head ▸ List.mem_cons_self _ _))]
  exact State.emitBatch_takes_head (entries.trans head) (entries ▸ ids) waited drops chosen sorted
    fun c hc => by rw [entries, head]; simpa using bounded c hc

/-- One waiting request of one input and one output token, queued at time `0`. -/
def waitingOne : Entry := ⟨⟨1, 1⟩, 0, false, 0, none⟩

/-- `waitingOne` queued under id `0`, beside a weight limit of `1000` and no prefill
limit. -/
def queuedOne : State := (State.new ⟨10, 1000, 0⟩).append waitingOne

/-- `waitingOne` fits beside `runningOne`: together they weigh `4` at most. -/
theorem waitingOne_fits_runningOne (t : Nat) :
    CostModel.flash.weight (⟨1, 1, 0⟩ :: batchSlots runningOne) t ≤ 1000 := by
  have slots : batchSlots runningOne = [⟨1, 1, 100⟩] := rfl
  rw [slots]
  rcases t with _ | _ | t
  · decide
  · decide
  · simp [CostModel.weight, flashWeight_of_forall_lt]

/-- Two seconds after it was queued, `waitingOne` goes into a batch beside `runningOne`. -/
theorem nextBatch_takes_waiting_head_queuedOne :
    ∃ s' nb, queuedOne.nextBatch flashBatch (some runningOne) (2 * oneSecond) =
        .ok (s', some runningOne, some nb) ∧
      nb.1.lookup 0 = some { waitingOne with batchTime := some (2 * oneSecond) } ∧
      waitingOne.toRequest 0 ∈ nb.2.requests :=
  nextBatch_takes_waiting_head .flash
    (show Reachable flashBatch ⟨10, 1000, 0⟩ queuedOne [] 1 from Reachable.new.append waitingOne rfl)
    (by decide) rfl (by decide) (.inl rfl) (by decide) (by decide) waitingOne_fits_runningOne
    (fun pos => absurd pos (by decide))

/-- The queue after a call beside `runningOne` at time `0`: the scan chose `waitingOne`,
the batch of two tiny requests was under the floor `1000 / 2`, and the call saved the
cursor `1`, past `waitingOne`, and marked the buffer insufficient. -/
def headChecked : State := ⟨⟨10, 1000, 0⟩, [(0, waitingOne)], 1, 0, 1, 1, true⟩

/-- `headChecked` is reached by appending `waitingOne` and calling `next_batch` beside
`runningOne`. Two seconds later `waitingOne` has waited longer than
`MAX_WAITING_DURATION` and fits beside `runningOne`, but the running batch has the same
size, so the cursor stays past the whole queue and the call returns before the scan. -/
theorem nextBatch_skips_waiting_head :
    Reachable CostModel.flash.batchType ⟨10, 1000, 0⟩ headChecked [] 1 ∧
      (∀ p ∈ headChecked.entries, p.2.disconnected = false) ∧
      headChecked.entries.head? = some (0, waitingOne) ∧
      0 < runningOne.len ∧ runningOne.len < headChecked.config.sizeLimit ∧
      maxWaitingDuration < 2 * oneSecond - waitingOne.queueTime ∧
      (∀ t, CostModel.flash.weight (⟨1, 1, 0⟩ :: batchSlots runningOne) t ≤
        headChecked.config.weightLimit) ∧
      headChecked.config.prefillWeightLimit = 0 ∧
      headChecked.nextBatch CostModel.flash.batchType (some runningOne) (2 * oneSecond) =
        .ok (headChecked, some runningOne, none) :=
  ⟨@Reachable.nextBatch flashBatch ⟨10, 1000, 0⟩ queuedOne headChecked [] 1 (some runningOne)
      (some runningOne) 0 none (Reachable.new.append waitingOne rfl) rfl,
    by decide, rfl, by decide, by decide, by decide, waitingOne_fits_runningOne, rfl, rfl⟩

end TgiRouter
