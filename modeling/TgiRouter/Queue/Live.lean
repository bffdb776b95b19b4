import TgiRouter.Queue.Cursor
import TgiRouter.Queue.Cutoff

/-!
# `next_batch` on a queue of live entries

The defects of `TgiRouter/Queue/NextBatch.lean` all start from a cancelled entry, whose
drop index is one past its position. On a queue where no client has dropped its receiver
nothing is dropped, and `State::next_batch` does what the surrounding code expects of
it:

* `nextBatch_splits_live_queue`: the call splits the queue into the entries it hands out
  and the entries it leaves, each in queue order, with nothing lost or duplicated;
* `nextBatch_prefill_within_of_live`: when `prefill_weight_limit` is set, the batch handed
  out is within it;
* `nextBatch_meets_floor_of_live`: beside a running batch, a batch is handed out only
  when the head of the queue has waited too long, the prefill limit was hit, or the
  running and the new batch together weigh at least half the weight limit.

The last two rest on `StatsInv`, the loop invariant saying that the scan's `batch_stats`
and `prefill_stats` are `update_stats` folded over the running batch and over the
entries chosen so far (`scanLoop_statsInv`).
-/

namespace TgiRouter

/-! ## Entries at increasing positions -/

/-- The entries at increasing positions from `k` on form a sublist of the list past its
first `k` entries. -/
theorem filterMap_getElem?_sublist_drop {α : Type} (l : List α) : ∀ (idx : List Nat) (k : Nat),
    idx.Pairwise (· < ·) → (∀ i ∈ idx, k ≤ i) → (idx.filterMap fun i => l[i]?).Sublist (l.drop k)
  | [], _, _, _ => List.nil_sublist _
  | i :: rest, k, sorted, above => by
    rw [List.pairwise_cons] at sorted
    have after : k ≤ i := above i (List.mem_cons_self i rest)
    have tail := filterMap_getElem?_sublist_drop l rest (i + 1) sorted.2 sorted.1
    rw [List.filterMap_cons]
    rcases found : l[i]? with _ | a
    · exact tail.trans (List.drop_sublist_drop_left l (by omega))
    · obtain ⟨bound, rfl⟩ := List.getElem?_eq_some_iff.mp found
      have from_i := List.drop_sublist_drop_left l after
      rw [List.drop_eq_getElem_cons bound] at from_i
      exact (tail.cons₂ _).trans from_i

/-- The entries at increasing positions of a list form a sublist of it. -/
theorem filterMap_getElem?_sublist {α : Type} (l : List α) (idx : List Nat) (sorted : idx.Pairwise (· < ·)) :
    (idx.filterMap fun i => l[i]?).Sublist l :=
  filterMap_getElem?_sublist_drop l idx 0 sorted fun i _ => Nat.zero_le i

/-- The requests of the entries at the chosen positions of the queue. -/
def chosenRequests (queue : List (Nat × Entry)) (chosen : List Nat) : List Request :=
  (chosen.filterMap fun i => queue[i]?).map fun p => p.2.toRequest p.1

theorem chosenRequests_append_single {queue : List (Nat × Entry)} (chosen : List Nat) {i id : Nat}
    {e : Entry} (here : queue[i]? = some (id, e)) :
    chosenRequests queue (chosen ++ [i]) = chosenRequests queue chosen ++ [e.toRequest id] := by
  simp [chosenRequests, List.filterMap_append, here]

/-! ## Statistics of a list of requests -/

namespace BatchType

variable (B : BatchType)

/-- `update_stats` folded over requests, with their input and output lengths. -/
def foldStats (stats : B.Stats) (requests : List Request) : B.Stats :=
  requests.foldl (fun st r => B.updateStats st r.truncate r.maxNewTokens) stats

/-- The prefill statistics of requests: their inputs alone, folded from `Stats::default`. -/
def prefillStatsOf (requests : List Request) : B.Stats :=
  requests.foldl (fun st r => B.updateStats st r.truncate 0) B.default

@[simp] theorem foldStats_nil (stats : B.Stats) : B.foldStats stats [] = stats := rfl

@[simp] theorem foldStats_append_single (stats : B.Stats) (requests : List Request) (r : Request) :
    B.foldStats stats (requests ++ [r]) = B.updateStats (B.foldStats stats requests) r.truncate r.maxNewTokens := by
  simp [foldStats]

@[simp] theorem prefillStatsOf_nil : B.prefillStatsOf [] = B.default := rfl

@[simp] theorem prefillStatsOf_append_single (requests : List Request) (r : Request) :
    B.prefillStatsOf (requests ++ [r]) = B.updateStats (B.prefillStatsOf requests) r.truncate 0 := by
  simp [prefillStatsOf]

end BatchType

/-! ## The statistics of the scan -/

/-- The scan's statistics are those of the running batch and of the entries chosen so far,
and the entries chosen passed the prefill check together. -/
structure StatsInv (B : BatchType) (config : BatchingConfig) (existing : ExistingBatch)
    (queue : List (Nat × Entry)) (acc : Scan B) : Prop where
  /-- `batch_stats`: the running batch, then every entry chosen. -/
  batch : acc.batchStats = B.foldStats (B.computeStats existing) (chosenRequests queue acc.chosenIndices)
  /-- `prefill_stats`: the entries chosen, when the prefill check is on. -/
  prefill : acc.prefillStats =
    if 0 < config.prefillWeightLimit then B.prefillStatsOf (chosenRequests queue acc.chosenIndices) else B.default
  /-- The prefill weight of the entries chosen is within the limit. -/
  prefillWithin : 0 < config.prefillWeightLimit → acc.chosenIndices ≠ [] →
    B.prefillWeight acc.prefillStats acc.chosenIndices.length ≤ config.prefillWeightLimit

section Loop

variable {B : BatchType} {config : BatchingConfig} {existing : ExistingBatch}
  {queue : List (Nat × Entry)}

/-- Before the loop nothing is chosen, and the statistics are those of the running batch. -/
theorem StatsInv.init (c : Nat) : StatsInv B config existing queue (Scan.init B existing c) where
  batch := rfl
  prefill := by split_ifs <;> rfl
  prefillWithin _ none := absurd rfl none

/-- One pass over the entry at the current position keeps the invariant. -/
theorem StatsInv.pass {acc : Scan B} {id : Nat} {e : Entry} {flow : LoopFlow (Scan B)}
    (inv : StatsInv B config existing queue acc) (here : queue[acc.queueIndex]? = some (id, e))
    (h : scanEntry B config existing queue acc id e = flow) : StatsInv B config existing queue flow.val := by
  rcases scanEntry_frame h with rfl | ⟨-, ⟨chosen, batch, prefill⟩ | ⟨chosen, batch, prefill, within⟩⟩
  · exact inv
  · exact ⟨by rw [batch, chosen]; exact inv.batch, by rw [prefill, chosen]; exact inv.prefill,
      by rw [prefill, chosen]; exact inv.prefillWithin⟩
  have requests := chosenRequests_append_single acc.chosenIndices here
  refine ⟨by rw [batch, chosen, requests, BatchType.foldStats_append_single, inv.batch]; rfl, ?_, ?_⟩
  · rw [prefill, chosen, requests]
    split_ifs with pos
    · rw [inv.prefill, if_pos pos, BatchType.prefillStatsOf_append_single]; rfl
    · rw [inv.prefill, if_neg pos]
  · intro pos _
    rw [prefill, if_pos pos, chosen, List.length_append, List.length_singleton]
    exact within pos

/-- Induction over the scan loop: what each pass keeps of the positions passed over and of
the variables holds after the whole loop from the current position. -/
theorem scanLoop_induction (P : List Nat → Scan B → Prop)
    (pass : ∀ R acc id e, queue[acc.queueIndex]? = some (id, e) → P R acc →
      P (R ++ if (scanEntry B config existing queue acc id e).rejects acc then [acc.queueIndex] else [])
        (scanEntry B config existing queue acc id e).val) :
    ∀ (l : List (Nat × Entry)) (acc : Scan B) (R : List Nat), l = queue.drop acc.queueIndex → P R acc →
      P (R ++ scanRejected B config existing queue l acc) (scanLoop B config existing queue l acc)
  | [], acc, R, _, inv => by simpa [scanRejected, scanLoop] using inv
  | (id, e) :: rest, acc, R, aligned, inv => by
    have here : queue[acc.queueIndex]? = some (id, e) := by
      rw [← Nat.add_zero acc.queueIndex, ← List.getElem?_drop, ← aligned, List.getElem?_cons_zero]
    have step := pass R acc id e here inv
    simp only [scanLoop, scanRejected]
    rcases flow : scanEntry B config existing queue acc id e with a | a <;> rw [flow] at step
    · have index : a.queueIndex = acc.queueIndex + 1 := by
        rcases scanEntry_cases flow with stop | ⟨index, -⟩
        · cases stop
        · exact index
      rw [← List.append_assoc]
      refine scanLoop_induction P pass rest a _ ?_ step
      rw [index, ← List.tail_drop, ← aligned, List.tail_cons]
    · simpa using step

/-- The whole loop from the current position keeps the invariant. -/
theorem scanLoop_statsInv (l : List (Nat × Entry)) (acc : Scan B) (aligned : l = queue.drop acc.queueIndex)
    (inv : StatsInv B config existing queue acc) : StatsInv B config existing queue (scanLoop B config existing queue l acc) :=
  scanLoop_induction (fun _ acc => StatsInv B config existing queue acc) (fun _ _ _ _ here inv => inv.pass here rfl)
    l acc [] aligned inv

/-- From the start of the scan, `total_count` is the running batch and the entries chosen. -/
theorem scanLoop_init_totalCount (l : List (Nat × Entry)) (c : Nat) (room : existing.len < config.sizeLimit) :
    (scanLoop B config existing queue l (Scan.init B existing c)).totalCount =
      existing.len + (scanLoop B config existing queue l (Scan.init B existing c)).chosenIndices.length := by
  simpa using (@scanLoop_counts B config existing queue l (Scan.init B existing c) room).1

end Loop

/-! ## What a call does, once -/

namespace State

variable {B : BatchType}

/-- Everything `emitBatch` can do: return no batch, with the cancelled entries dropped, or
pop the chosen entries into a batch, which happens only when the floor on the size of an
add-on batch does not hold it back. -/
theorem emitBatch_inv {s s' : State} {existingOpt existingOpt' : Option ExistingBatch}
    {existing : ExistingBatch} {scan : Scan B} {now : Nat} {r : Option NextBatch}
    (h : s.emitBatch B existingOpt existing scan now = .ok (s', existingOpt', r)) :
    existingOpt' = existingOpt ∧
      ((r = none ∧ s'.entries = dropIndices s.entries scan.indicesToDrop) ∨
        ∃ nb left taken, r = some nb ∧ scan.chosenIndices ≠ [] ∧
          popChosen scan.chosenIndices 0 (dropIndices s.entries scan.indicesToDrop) = .ok (left, taken) ∧
          s'.entries = left ∧ nb.1 = batchEntries now taken ∧
          nb.2.requests = taken.map (fun p => p.2.toRequest p.1) ∧
          (scan.hitPrefillWeightLimit = true ∨ existing.isEmpty = true ∨
            { s with entries := dropIndices s.entries scan.indicesToDrop, checkedRequestCount := 0 }.nextEntryWaitingTooLong
              now = true ∨
            s.config.weightLimit / 2 ≤ B.batchWeight scan.batchStats scan.totalCount)) := by
  unfold emitBatch at h
  dsimp only at h
  split_ifs at h with none floor
  · simp only [Except.ok.injEq, Prod.mk.injEq] at h
    obtain ⟨rfl, rfl, rfl⟩ := h
    exact ⟨rfl, .inl ⟨rfl, rfl⟩⟩
  · simp only [Except.ok.injEq, Prod.mk.injEq] at h
    obtain ⟨rfl, rfl, rfl⟩ := h
    exact ⟨rfl, .inl ⟨rfl, rfl⟩⟩
  split at h
  · cases h
  rename_i left taken popped
  simp only [Except.ok.injEq, Prod.mk.injEq] at h
  obtain ⟨rfl, rfl, rfl⟩ := h
  refine ⟨rfl, .inr ⟨_, left, taken, rfl, by simpa using none, popped, rfl, rfl, rfl, ?_⟩⟩
  simp only [Bool.and_eq_true, Bool.not_eq_true', decide_eq_true_eq, not_and, Nat.not_lt] at floor
  by_contra held
  simp only [not_or, Bool.not_eq_true, Nat.not_le] at held
  exact absurd (floor ⟨⟨held.1, held.2.1⟩, held.2.2.1⟩) (Nat.not_le.mpr held.2.2.2)

/-- A call of `next_batch` returns before its scan, with the queue as it found it or with
the cancelled entries popped off its front, or runs its scan and `emitBatch`. -/
theorem nextBatch_emits {s s' : State} {existingOpt existingOpt' : Option ExistingBatch} {now : Nat}
    {r : Option NextBatch} (h : s.nextBatch B existingOpt now = .ok (s', existingOpt', r)) :
    (s' = s ∧ existingOpt' = existingOpt ∧ r = none) ∨
      (s' = (s.resetCursor (existingOpt.getD ∅).len).pruneFront ∧ existingOpt' = existingOpt ∧ r = none) ∨
      (existingOpt.getD ∅).len < s.config.sizeLimit ∧
        (s.resetCursor (existingOpt.getD ∅).len).pruneFront.checkedRequestCount ≤
          (s.resetCursor (existingOpt.getD ∅).len).pruneFront.entries.length ∧
        (s.resetCursor (existingOpt.getD ∅).len).pruneFront.emitBatch B existingOpt (existingOpt.getD ∅)
          (s.callScan B existingOpt) now = .ok (s', existingOpt', r) := by
  rw [nextBatch_eq] at h
  split_ifs at h with full skip range
  · simp only [Except.ok.injEq, Prod.mk.injEq] at h
    exact .inl ⟨h.1.symm, h.2.1.symm, h.2.2.symm⟩
  · simp only [Except.ok.injEq, Prod.mk.injEq] at h
    exact .inr (.inl ⟨h.1.symm, h.2.1.symm, h.2.2.symm⟩)
  · exact .inr (.inr ⟨Nat.lt_of_not_le full, Nat.le_of_not_lt range, h⟩)

/-- `total_count` at the end of a call's scan: the running batch and the entries chosen. -/
theorem callScan_totalCount {s : State} {existingOpt : Option ExistingBatch}
    (room : (existingOpt.getD ∅).len < s.config.sizeLimit) :
    (s.callScan B existingOpt).totalCount = (existingOpt.getD ∅).len + (s.callScan B existingOpt).chosenIndices.length :=
  scanLoop_init_totalCount _ _ (by simpa using room)

/-- The scan of a call over a queue of live entries, with the cursor within the queue: it
sees the queue as it is, records nothing to drop, chooses increasing positions of the
queue, and keeps `StatsInv`. -/
theorem callScan_of_live {s : State} {existingOpt : Option ExistingBatch}
    (live : ∀ p ∈ s.entries, p.2.disconnected = false)
    (cursor : (s.resetCursor (existingOpt.getD ∅).len).pruneFront.checkedRequestCount ≤
      (s.resetCursor (existingOpt.getD ∅).len).pruneFront.entries.length) :
    (s.resetCursor (existingOpt.getD ∅).len).pruneFront.entries = s.entries ∧
      (s.callScan B existingOpt).indicesToDrop = [] ∧
      (s.callScan B existingOpt).chosenIndices.Pairwise (· < ·) ∧
      (∀ c ∈ (s.callScan B existingOpt).chosenIndices, c < s.entries.length) ∧
      StatsInv B s.config (existingOpt.getD ∅) s.entries (s.callScan B existingOpt) := by
  obtain ⟨front, drops, increasing, bounded⟩ := callScan_live (B := B) live cursor
  have stats : StatsInv B (s.resetCursor (existingOpt.getD ∅).len).pruneFront.config (existingOpt.getD ∅)
      (s.resetCursor (existingOpt.getD ∅).len).pruneFront.entries (s.callScan B existingOpt) :=
    scanLoop_statsInv _ _ rfl (StatsInv.init _)
  rw [front, pruneFront_config, resetCursor_config] at stats
  exact ⟨front, drops, increasing, bounded, stats⟩

end State

/-! ## Calls on a live queue -/

section Calls

variable {B : BatchType} {s s' : State} {existingOpt existingOpt' : Option ExistingBatch} {now : Nat}

/-- On a queue of live entries, `next_batch` leaves the queue as it is, or splits it into the
entries it takes and the entries it leaves, each in queue order, and builds the new batch
from the entries taken. -/
theorem nextBatch_split_of_live {r : Option NextBatch} (live : ∀ p ∈ s.entries, p.2.disconnected = false)
    (h : s.nextBatch B existingOpt now = .ok (s', existingOpt', r)) :
    match r with
    | none => s'.entries = s.entries
    | some nb => ∃ taken, taken ≠ [] ∧ taken.Sublist s.entries ∧ s'.entries.Sublist s.entries ∧
        (taken ++ s'.entries).Perm s.entries ∧ nb.1 = batchEntries now taken ∧
        nb.2.requests = taken.map fun p => p.2.toRequest p.1 := by
  have front : (s.resetCursor (existingOpt.getD ∅).len).pruneFront.entries = s.entries := by
    simp [pruneCancelled_of_live live]
  rcases State.nextBatch_emits h with ⟨rfl, -, rfl⟩ | ⟨rfl, -, rfl⟩ | ⟨-, cursor, emit⟩
  · rfl
  · exact front
  obtain ⟨-, drops, increasing, -, -⟩ := State.callScan_of_live (B := B) live cursor
  rcases State.emitBatch_inv emit with
    ⟨-, ⟨rfl, entries⟩ | ⟨nb, left, taken, rfl, chosen, popped, entries, batch, requests, -⟩⟩
  · rw [entries, drops, dropIndices_nil, front]
  rw [drops, dropIndices_nil, front] at popped
  have takenEq := popChosen_taken popped increasing fun c _ => Nat.zero_le c
  obtain ⟨perm, sub, length⟩ := popChosen_perm popped
  refine ⟨taken, fun empty => chosen ?_, ?_, entries ▸ sub, entries ▸ perm, batch, requests⟩
  · rw [← List.length_eq_zero, ← length, empty, List.length_nil]
  · simp only [Nat.sub_zero] at takenEq
    exact takenEq ▸ filterMap_getElem?_sublist s.entries _ increasing

/-- On a queue of live entries, `next_batch` returns the running batch unchanged, and
either leaves the queue as it is or splits it into the entries of the new batch and the
entries left waiting, both in queue order, with none lost or duplicated. -/
theorem nextBatch_splits_live_queue {r : Option NextBatch} (live : ∀ p ∈ s.entries, p.2.disconnected = false)
    (h : s.nextBatch B existingOpt now = .ok (s', existingOpt', r)) :
    existingOpt' = existingOpt ∧
      match r with
      | none => s'.entries = s.entries
      | some nb => ∃ taken, taken ≠ [] ∧ taken.Sublist s.entries ∧ s'.entries.Sublist s.entries ∧
          (taken ++ s'.entries).Perm s.entries ∧ nb.1 = batchEntries now taken ∧
          nb.2.requests = taken.map fun p => p.2.toRequest p.1 :=
  ⟨(State.nextBatch_cases h).1, nextBatch_split_of_live live h⟩

/-- Two waiting requests under a prefill weight limit of `50`; the first has an input of
`100` tokens. -/
def prefillSplit : State :=
  ((State.new ⟨10, 1000, 50⟩).append ⟨⟨100, 1⟩, 0, false, 0, none⟩).append ⟨⟨1, 1⟩, 0, false, 0, none⟩

/-- The prefill check passes over the first request: the call hands out the second and
leaves the first waiting. -/
theorem nextBatch_splits_live_queue_prefillSplit :
    (∀ p ∈ prefillSplit.entries, p.2.disconnected = false) ∧
      ∃ s' r, prefillSplit.nextBatch flashBatch none 0 = .ok (s', none, r) ∧
        ((none : Option ExistingBatch) = none ∧
          match r with
          | none => s'.entries = prefillSplit.entries
          | some nb => ∃ taken, taken ≠ [] ∧ taken.Sublist prefillSplit.entries ∧
              s'.entries.Sublist prefillSplit.entries ∧ (taken ++ s'.entries).Perm prefillSplit.entries ∧
              nb.1 = batchEntries 0 taken ∧ nb.2.requests = taken.map fun p => p.2.toRequest p.1) :=
  ⟨by decide, _, _, rfl, @nextBatch_splits_live_queue flashBatch prefillSplit _ none _ 0 _ (by decide) rfl⟩

/-- A batch handed out from a queue of live entries is made of the entries at the
positions the call's scan chose, in order. -/
theorem nextBatch_requests_of_live {nb : NextBatch} (live : ∀ p ∈ s.entries, p.2.disconnected = false)
    (h : s.nextBatch B existingOpt now = .ok (s', existingOpt', some nb)) :
    (existingOpt.getD ∅).len < s.config.sizeLimit ∧ (s.callScan B existingOpt).chosenIndices ≠ [] ∧
      nb.2.requests = chosenRequests s.entries (s.callScan B existingOpt).chosenIndices ∧
      nb.2.requests.length = (s.callScan B existingOpt).chosenIndices.length ∧
      StatsInv B s.config (existingOpt.getD ∅) s.entries (s.callScan B existingOpt) ∧
      ((s.callScan B existingOpt).hitPrefillWeightLimit = true ∨ (existingOpt.getD ∅).isEmpty = true ∨
        s.nextEntryWaitingTooLong now = true ∨
        s.config.weightLimit / 2 ≤ B.batchWeight (s.callScan B existingOpt).batchStats
          (s.callScan B existingOpt).totalCount) := by
  rcases State.nextBatch_emits h with ⟨-, -, none⟩ | ⟨-, -, none⟩ | ⟨room, cursor, emit⟩
  · cases none
  · cases none
  obtain ⟨front, drops, increasing, -, stats⟩ := State.callScan_of_live (B := B) live cursor
  rcases State.emitBatch_inv emit with ⟨-, ⟨none, -⟩ | ⟨nb', left, taken, found, chosen, popped, -, -, requests, floor⟩⟩
  · cases none
  cases found
  rw [drops, dropIndices_nil] at popped floor
  rw [front] at popped
  have takenEq := popChosen_taken popped increasing fun c _ => Nat.zero_le c
  simp only [Nat.sub_zero] at takenEq
  refine ⟨room, chosen, by rw [requests, takenEq]; rfl,
    by rw [requests, List.length_map, (popChosen_perm popped).2.2], stats, ?_⟩
  simpa [State.nextEntryWaitingTooLong, pruneCancelled_of_live live] using floor

/-- On a queue of live entries with `prefill_weight_limit` set, the batch `next_batch`
hands out is within it: its prefill weight, over the inputs of its requests, is at most
the limit. -/
theorem nextBatch_prefill_within_of_live {nb : NextBatch} (live : ∀ p ∈ s.entries, p.2.disconnected = false)
    (limit : 0 < s.config.prefillWeightLimit)
    (h : s.nextBatch B existingOpt now = .ok (s', existingOpt', some nb)) :
    B.prefillWeight (B.prefillStatsOf nb.2.requests) nb.2.requests.length ≤ s.config.prefillWeightLimit := by
  obtain ⟨-, chosen, requests, length, stats, -⟩ := nextBatch_requests_of_live live h
  have within := stats.prefillWithin limit chosen
  rw [stats.prefill, if_pos limit] at within
  rwa [length, requests]

/-- The call on `prefillSplit` hands out the request of one input token. -/
theorem nextBatch_prefill_within_of_live_prefillSplit :
    (∀ p ∈ prefillSplit.entries, p.2.disconnected = false) ∧ 0 < prefillSplit.config.prefillWeightLimit ∧
      ∃ s' nb, prefillSplit.nextBatch flashBatch none 0 = .ok (s', none, some nb) ∧
        flashBatch.prefillWeight (flashBatch.prefillStatsOf nb.2.requests) nb.2.requests.length ≤
          prefillSplit.config.prefillWeightLimit :=
  ⟨by decide, by decide, _, _, rfl,
    @nextBatch_prefill_within_of_live flashBatch prefillSplit _ none _ 0 _ (by decide) (by decide) rfl⟩

/-- On a queue of live entries, a batch handed out beside a running batch, while the head
of the queue has not waited past `MAX_WAITING_DURATION` and the scan did not record a
prefill-limit hit, is large enough: the scan's `batch_stats` are the statistics of the
running batch followed by the new batch's requests, and they weigh at least half of
`weight_limit`. -/
theorem nextBatch_meets_floor_of_live {nb : NextBatch} (live : ∀ p ∈ s.entries, p.2.disconnected = false)
    (running : (existingOpt.getD ∅).isEmpty = false) (fresh : s.nextEntryWaitingTooLong now = false)
    (noHit : (s.callScan B existingOpt).hitPrefillWeightLimit = false)
    (h : s.nextBatch B existingOpt now = .ok (s', existingOpt', some nb)) :
    (s.callScan B existingOpt).batchStats = B.foldStats (B.computeStats (existingOpt.getD ∅)) nb.2.requests ∧
      s.config.weightLimit / 2 ≤
        B.batchWeight (B.foldStats (B.computeStats (existingOpt.getD ∅)) nb.2.requests)
          ((existingOpt.getD ∅).len + nb.2.requests.length) := by
  obtain ⟨room, -, requests, length, stats, floor⟩ := nextBatch_requests_of_live live h
  have batch : (s.callScan B existingOpt).batchStats =
      B.foldStats (B.computeStats (existingOpt.getD ∅)) nb.2.requests := by
    rw [stats.batch, requests]
  rw [noHit, running, fresh] at floor
  simp only [Bool.false_eq_true, false_or] at floor
  rw [batch, State.callScan_totalCount room, ← length] at floor
  exact ⟨batch, floor⟩

/-- One waiting request of three input and three output tokens, under a weight limit of
`10`. -/
def queuedThree : State := (State.new ⟨10, 10, 0⟩).append ⟨⟨3, 3⟩, 0, false, 0, none⟩

/-- Beside `runningOne`, the request is handed out: together they weigh `2 + 6 = 8`, at
least half of `10`. -/
theorem nextBatch_meets_floor_of_live_queuedThree :
    (∀ p ∈ queuedThree.entries, p.2.disconnected = false) ∧ ((some runningOne).getD ∅).isEmpty = false ∧
      queuedThree.nextEntryWaitingTooLong 0 = false ∧
      (queuedThree.callScan flashBatch (some runningOne)).hitPrefillWeightLimit = false ∧
      ∃ s' nb, queuedThree.nextBatch flashBatch (some runningOne) 0 = .ok (s', some runningOne, some nb) ∧
        (queuedThree.callScan flashBatch (some runningOne)).batchStats =
          flashBatch.foldStats (flashBatch.computeStats ((some runningOne).getD ∅)) nb.2.requests ∧
        queuedThree.config.weightLimit / 2 ≤
          flashBatch.batchWeight (flashBatch.foldStats (flashBatch.computeStats ((some runningOne).getD ∅)) nb.2.requests)
            (((some runningOne).getD ∅).len + nb.2.requests.length) :=
  ⟨by decide, rfl, rfl, rfl, _, _, rfl,
    @nextBatch_meets_floor_of_live flashBatch queuedThree _ (some runningOne) _ 0 _ (by decide) rfl rfl rfl rfl⟩

end Calls

end TgiRouter
