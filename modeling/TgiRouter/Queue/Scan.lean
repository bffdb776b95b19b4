import TgiRouter.Queue.State

/-!
# The scan and the list surgery of `next_batch`

Spec lemmas for the pieces of `State.nextBatch`, so that later proofs never unfold them:

* `pruneCancelled`, `dropIndices`: what is left is a sublist of the queue;
* `popChosen`: a successful pop splits the queue into the entries taken and a sublist
  left behind (`popChosen_perm`), and it succeeds whenever the chosen indices are
  increasing positions of the queue (`popChosen_isOk`);
* `scanEntry_inv`, `Scan.admit_inv`: everything one pass of the scan can do, said once,
  so that no later proof splits the pass again;
* `scanEntry_cases`: what one pass does to the loop's bookkeeping (`queue_index`,
  `chosen_indices`, `indices_to_drop`); from it, the invariants of the whole loop
  (`scanLoop_chosen_bounded`, `scanLoop_chosen_grows`, `scanLoop_drop_of_live`);
* `scanEntry_counts`: `total_count` is the running batch and the entries chosen, and the
  loop goes on only while it is below `size_limit`, so the entries chosen fit beside the
  running batch (`scanLoop_chosen_room`).
-/

namespace TgiRouter

/-! ## Popping cancelled entries off the front -/

theorem pruneCancelled_sublist : ∀ (l : List (Nat × Entry)) (c : Nat),
    (pruneCancelled l c).1.Sublist l
  | [], _ => List.Sublist.refl _
  | (id, e) :: rest, c => by
    unfold pruneCancelled
    split_ifs
    · exact (pruneCancelled_sublist rest 0).cons _
    · exact List.Sublist.refl _

/-- A queue whose head is live is left as it is, cursor included. -/
theorem pruneCancelled_of_head {id : Nat} {e : Entry} (live : e.disconnected = false)
    (rest : List (Nat × Entry)) (c : Nat) :
    pruneCancelled ((id, e) :: rest) c = ((id, e) :: rest, c) := by
  simp [pruneCancelled, live]

theorem pruneCancelled_nil (c : Nat) : pruneCancelled [] c = ([], c) := rfl

/-- A queue of live entries is left as it is. -/
theorem pruneCancelled_of_live {l : List (Nat × Entry)} (live : ∀ p ∈ l, p.2.disconnected = false)
    (c : Nat) : pruneCancelled l c = (l, c) := by
  rcases l with _ | ⟨⟨id, e⟩, rest⟩
  · rfl
  · exact pruneCancelled_of_head (live _ (List.mem_cons_self _ _)) rest c

/-! ## Dropping cancelled entries by index -/

theorem dropIndices_sublist (queue : List (Nat × Entry)) (indices : List Nat) :
    (dropIndices queue indices).Sublist queue := by
  induction indices generalizing queue with
  | nil => exact List.Sublist.refl _
  | cons i rest ih => exact (ih (queue.eraseIdx i)).trans (List.eraseIdx_sublist _ _)

@[simp] theorem dropIndices_nil (queue : List (Nat × Entry)) : dropIndices queue [] = queue := rfl

/-! ## Popping the chosen entries -/

theorem perm_cons_eraseIdx {α : Type} :
    ∀ {l : List α} {k : Nat} {p : α}, l[k]? = some p → (p :: l.eraseIdx k).Perm l
  | [], _, _, h => by simp at h
  | a :: l, 0, p, h => by
    simp only [List.getElem?_cons_zero, Option.some.injEq] at h
    subst h
    rfl
  | a :: l, k + 1, p, h => by
    simp only [List.getElem?_cons_succ] at h
    exact (List.Perm.swap a p _).trans ((perm_cons_eraseIdx h).cons a)

/-- A successful pop splits the queue into the entries taken, one per chosen index, and
a sublist left behind. -/
theorem popChosen_perm : ∀ {chosen : List Nat} {i : Nat} {queue left taken : List (Nat × Entry)},
    popChosen chosen i queue = .ok (left, taken) →
      (taken ++ left).Perm queue ∧ left.Sublist queue ∧ taken.length = chosen.length
  | [], _, queue, left, taken, h => by
    simp only [popChosen, Except.ok.injEq, Prod.mk.injEq] at h
    obtain ⟨rfl, rfl⟩ := h
    exact ⟨List.Perm.refl _, List.Sublist.refl _, rfl⟩
  | index :: rest, i, queue, left, taken, h => by
    unfold popChosen at h
    split at h
    · cases h
    · rename_i p found
      split at h
      · cases h
      · rename_i left' taken' popped
        simp only [Except.ok.injEq, Prod.mk.injEq] at h
        obtain ⟨rfl, rfl⟩ := h
        obtain ⟨perm, sub, len⟩ := popChosen_perm popped
        exact ⟨(perm.cons p).trans (perm_cons_eraseIdx found),
          sub.trans (List.eraseIdx_sublist _ _), by simp [len]⟩

/-- The pop cannot fail when the chosen indices are increasing positions of the queue
(`i` of them already taken). -/
theorem popChosen_isOk : ∀ {chosen : List Nat} {i : Nat} {queue : List (Nat × Entry)},
    chosen.Pairwise (· < ·) → (∀ c ∈ chosen, i ≤ c ∧ c < queue.length + i) →
      ∃ left taken, popChosen chosen i queue = .ok (left, taken)
  | [], _, queue, _, _ => ⟨queue, [], rfl⟩
  | index :: rest, i, queue, sorted, bounded => by
    rw [List.pairwise_cons] at sorted
    have here := bounded index (List.mem_cons_self _ _)
    have found : queue[index - i]? = some queue[index - i] := List.getElem?_eq_getElem (by omega)
    have restBounded : ∀ c ∈ rest, i + 1 ≤ c ∧ c < (queue.eraseIdx (index - i)).length + (i + 1) := by
      intro c hc
      have := bounded c (List.mem_cons_of_mem _ hc)
      have := sorted.1 c hc
      rw [List.length_eraseIdx]
      split_ifs <;> omega
    obtain ⟨left, taken, popped⟩ := popChosen_isOk sorted.2 restBounded
    exact ⟨left, queue[index - i] :: taken, by simp only [popChosen, found, popped]⟩

/-- Over increasing indices, the pop takes exactly the entries at the chosen positions of the
queue it started from (`i` of them already taken). -/
theorem popChosen_taken : ∀ {chosen : List Nat} {i : Nat} {queue left taken : List (Nat × Entry)},
    popChosen chosen i queue = .ok (left, taken) → chosen.Pairwise (· < ·) → (∀ c ∈ chosen, i ≤ c) →
      taken = chosen.filterMap fun c => queue[c - i]?
  | [], _, _, _, _, h, _, _ => by
    simp only [popChosen, Except.ok.injEq, Prod.mk.injEq] at h
    exact h.2.symm
  | index :: rest, i, queue, left, taken, h, sorted, above => by
    rw [List.pairwise_cons] at sorted
    unfold popChosen at h
    split at h
    · cases h
    · rename_i p found
      split at h
      · cases h
      · rename_i left' taken' popped
        simp only [Except.ok.injEq, Prod.mk.injEq] at h
        obtain ⟨-, rfl⟩ := h
        have first := above index (List.mem_cons_self _ _)
        have shifted : ∀ c ∈ rest, (queue.eraseIdx (index - i))[c - (i + 1)]? = queue[c - i]? := by
          intro c hc
          have := sorted.1 c hc
          rw [List.getElem?_eraseIdx_of_ge _ _ _ (by omega)]
          congr 1
          omega
        have above' : ∀ c ∈ rest, i + 1 ≤ c := fun c hc => by have := sorted.1 c hc; omega
        rw [popChosen_taken popped sorted.2 above', List.filterMap_congr shifted, List.filterMap_cons, found]

/-- The first entry taken is the one at the first chosen index. -/
theorem popChosen_head {index : Nat} {rest : List Nat} {i : Nat}
    {queue left taken : List (Nat × Entry)}
    (h : popChosen (index :: rest) i queue = .ok (left, taken)) :
    ∃ p taken', taken = p :: taken' ∧ queue[index - i]? = some p := by
  unfold popChosen at h
  split at h
  · cases h
  · rename_i p found
    split at h
    · cases h
    · simp only [Except.ok.injEq, Prod.mk.injEq] at h
      exact ⟨p, _, h.2.symm, found⟩

/-! ## One pass of the scan -/

/-- The loop variables a pass hands on, whether the loop continues or breaks. -/
def LoopFlow.val {α : Type} : LoopFlow α → α
  | .next a => a
  | .stop a => a

@[simp] theorem LoopFlow.val_next {α : Type} (a : α) : (LoopFlow.next a).val = a := rfl

@[simp] theorem LoopFlow.val_stop {α : Type} (a : α) : (LoopFlow.stop a).val = a := rfl

section Bookkeeping

variable {B : BatchType} {config : BatchingConfig} {existing : ExistingBatch}
  {queue : List (Nat × Entry)}

/-- Everything the prefill check and the commit can do: reject the candidate, installing
the cutoff, or commit it, breaking once the batch is full. -/
theorem Scan.admit_inv {acc : Scan B} {e : Entry} {slot : Slot} {nextStats : B.Stats}
    {btree : Option Tree} {flow : LoopFlow (Scan B)}
    (h : acc.admit B config e slot nextStats btree = flow) :
    (0 < config.prefillWeightLimit ∧
        config.prefillWeightLimit <
          B.prefillWeight (B.updateStats acc.prefillStats e.request.truncate 0) (acc.chosenIndices.length + 1) ∧
        ∃ a, flow = .next a ∧ a.queueIndex = acc.queueIndex ∧ a.chosenIndices = acc.chosenIndices ∧
          a.indicesToDrop = acc.indicesToDrop ∧ a.totalCount = acc.totalCount ∧
          a.timeCutoff = some (acc.timeCutoff.getD (e.queueTime + cutoffDuration))) ∨
      ¬(0 < config.prefillWeightLimit ∧
          config.prefillWeightLimit <
            B.prefillWeight (B.updateStats acc.prefillStats e.request.truncate 0) (acc.chosenIndices.length + 1)) ∧
        ∃ a, (config.sizeLimit ≤ a.totalCount ∧ flow = .stop a ∨ a.totalCount < config.sizeLimit ∧ flow = .next a) ∧
          a.queueIndex = acc.queueIndex ∧ a.chosenIndices = acc.chosenIndices ++ [acc.queueIndex - 1] ∧
          a.indicesToDrop = acc.indicesToDrop ∧ a.totalCount = acc.totalCount + 1 ∧ a.timeCutoff = acc.timeCutoff := by
  unfold Scan.admit at h
  dsimp only at h
  split_ifs at h with pos over full full
  · exact .inl ⟨pos, over, _, h.symm, rfl, rfl, rfl, rfl, rfl⟩
  · exact .inr ⟨fun ⟨_, o⟩ => over o, _, .inl ⟨full, h.symm⟩, rfl, rfl, rfl, rfl, rfl⟩
  · exact .inr ⟨fun ⟨_, o⟩ => over o, _, .inr ⟨Nat.lt_of_not_le full, h.symm⟩, rfl, rfl, rfl, rfl, rfl⟩
  · exact .inr ⟨fun ⟨p, _⟩ => pos p, _, .inl ⟨full, h.symm⟩, rfl, rfl, rfl, rfl, rfl⟩
  · exact .inr ⟨fun ⟨p, _⟩ => pos p, _, .inr ⟨Nat.lt_of_not_le full, h.symm⟩, rfl, rfl, rfl, rfl, rfl⟩

/-- Everything one pass of the scan can do: break on the time cutoff; or, the entry
within the cutoff, record a cancelled entry for dropping, reject a candidate whose tree
overflows the weight limit (installing the cutoff), or hand it to the prefill check and the
commit (`Scan.admit_inv`). -/
theorem scanEntry_inv {acc : Scan B} {id : Nat} {e : Entry} {flow : LoopFlow (Scan B)}
    (h : scanEntry B config existing queue acc id e = flow) :
    (acc.timeCutoff.any (fun t => decide (t < e.queueTime)) = true ∧ flow = .stop acc) ∨
      (∀ t, acc.timeCutoff = some t → e.queueTime ≤ t) ∧
        ((e.disconnected = true ∧
            ∃ a, flow = .next a ∧ a.queueIndex = acc.queueIndex + 1 ∧ a.chosenIndices = acc.chosenIndices ∧
              a.indicesToDrop = acc.indicesToDrop ++ [acc.queueIndex + 1] ∧ a.totalCount = acc.totalCount ∧
              a.timeCutoff = acc.timeCutoff) ∨
          e.disconnected = false ∧
            ((config.weightLimit < B.batchWeight acc.batchStats (acc.totalCount + 1) ∧
                B.exceedsWeight ((acc.btree.getD (initTree existing queue acc.chosenIndices)).insert
                  ⟨e.request.maxNewTokens, e.request.truncate, id⟩) config.weightLimit e.request.maxNewTokens ∧
                ∃ a, flow = .next a ∧ a.queueIndex = acc.queueIndex + 1 ∧ a.chosenIndices = acc.chosenIndices ∧
                  a.indicesToDrop = acc.indicesToDrop ∧ a.totalCount = acc.totalCount ∧
                  a.timeCutoff = some (acc.timeCutoff.getD (e.queueTime + cutoffDuration))) ∨
              ¬(config.weightLimit < B.batchWeight acc.batchStats (acc.totalCount + 1) ∧
                  B.exceedsWeight ((acc.btree.getD (initTree existing queue acc.chosenIndices)).insert
                    ⟨e.request.maxNewTokens, e.request.truncate, id⟩) config.weightLimit e.request.maxNewTokens) ∧
                ∃ btree, Scan.admit B config
                  { acc with queueIndex := acc.queueIndex + 1, checkedUpToIndex := acc.checkedUpToIndex + 1 } e
                  ⟨e.request.maxNewTokens, e.request.truncate, id⟩
                  (B.updateStats acc.batchStats e.request.truncate e.request.maxNewTokens) btree = flow)) := by
  rw [scanEntry] at h
  by_cases cutoff : acc.timeCutoff.any (fun t => decide (t < e.queueTime)) = true
  · rw [if_pos cutoff] at h
    exact .inl ⟨cutoff, h.symm⟩
  rw [if_neg cutoff] at h
  refine .inr ⟨fun t ht => by simpa [ht] using cutoff, ?_⟩
  by_cases dropped : e.disconnected = true
  · rw [if_pos dropped] at h
    exact .inl ⟨dropped, _, h.symm, rfl, rfl, rfl, rfl, rfl⟩
  rw [if_neg dropped] at h
  dsimp only at h
  refine .inr ⟨by simpa using dropped, ?_⟩
  split at h
  · rename_i heavy
    split at h
    · exact .inl ⟨heavy, ‹_›, _, h.symm, rfl, rfl, rfl, rfl, rfl⟩
    · exact .inr ⟨fun ⟨_, over⟩ => ‹¬_› over, _, h⟩
  · exact .inr ⟨fun ⟨heavy, _⟩ => ‹¬_› heavy, _, h⟩

/-- The prefill check and commit keep the position and the drops, and choose the entry
at the position just passed or nothing. -/
theorem Scan.admit_cases {acc : Scan B} {e : Entry} {slot : Slot} {nextStats : B.Stats}
    {btree : Option Tree} {flow : LoopFlow (Scan B)}
    (h : acc.admit B config e slot nextStats btree = flow) :
    flow.val.queueIndex = acc.queueIndex ∧ flow.val.indicesToDrop = acc.indicesToDrop ∧
      (flow.val.chosenIndices = acc.chosenIndices ∨
        flow.val.chosenIndices = acc.chosenIndices ++ [acc.queueIndex - 1]) := by
  rcases Scan.admit_inv h with ⟨-, -, a, rfl, index, chosen, drops, -⟩ |
    ⟨-, a, flow, index, chosen, drops, -⟩
  · exact ⟨index, drops, .inl chosen⟩
  · rcases flow with ⟨-, rfl⟩ | ⟨-, rfl⟩ <;> exact ⟨index, drops, .inr chosen⟩

/-- Everything one pass of the scan does to `queue_index`, `chosen_indices` and
`indices_to_drop`: it breaks on the time cutoff with nothing changed, or it moves one
position on, and either chooses the entry there or, only when its channel is
disconnected, records `queue_index + 1` for dropping, or neither. -/
theorem scanEntry_cases {acc : Scan B} {id : Nat} {e : Entry} {flow : LoopFlow (Scan B)}
    (h : scanEntry B config existing queue acc id e = flow) :
    flow = .stop acc ∨
      flow.val.queueIndex = acc.queueIndex + 1 ∧
        (flow.val.chosenIndices = acc.chosenIndices ∨
          e.disconnected = false ∧ flow.val.chosenIndices = acc.chosenIndices ++ [acc.queueIndex]) ∧
        (flow.val.indicesToDrop = acc.indicesToDrop ∨
          e.disconnected = true ∧ flow.val.indicesToDrop = acc.indicesToDrop ++ [acc.queueIndex + 1]) := by
  rcases scanEntry_inv h with ⟨-, rfl⟩ | ⟨-, ⟨dropped, a, rfl, index, chosen, drops, -⟩ |
    ⟨live, ⟨-, -, a, rfl, index, chosen, drops, -⟩ | ⟨-, btree, admitted⟩⟩⟩
  · exact .inl rfl
  · exact .inr ⟨index, .inl chosen, .inr ⟨dropped, drops⟩⟩
  · exact .inr ⟨index, .inl chosen, .inl drops⟩
  · obtain ⟨index, drops, chosen⟩ := Scan.admit_cases admitted
    exact .inr ⟨index, chosen.imp_right fun grown => ⟨live, grown⟩, .inl drops⟩

/-! ## The whole loop -/

/-- The chosen indices only grow, at their end. -/
theorem scanLoop_chosen_grows : ∀ (l : List (Nat × Entry)) (acc : Scan B),
    acc.chosenIndices <+: (scanLoop B config existing queue l acc).chosenIndices
  | [], _ => List.prefix_refl _
  | (id, e) :: rest, acc => by
    have step : acc.chosenIndices <+: (scanEntry B config existing queue acc id e).val.chosenIndices := by
      rcases scanEntry_cases (rfl : scanEntry B config existing queue acc id e = _) with
        h | ⟨-, h | ⟨-, h⟩, -⟩ <;> simp only [h, LoopFlow.val_stop, List.prefix_refl, List.prefix_append]
    simp only [scanLoop]
    split
    · rename_i a hflow
      rw [hflow] at step
      exact step.trans (scanLoop_chosen_grows rest a)
    · rename_i a hflow
      rwa [hflow] at step

/-- Over live entries nothing is recorded for dropping. -/
theorem scanLoop_drop_of_live : ∀ (l : List (Nat × Entry)) (acc : Scan B),
    (∀ p ∈ l, p.2.disconnected = false) →
      (scanLoop B config existing queue l acc).indicesToDrop = acc.indicesToDrop
  | [], _, _ => rfl
  | (id, e) :: rest, acc, live => by
    have live' : e.disconnected = false := live (id, e) (List.mem_cons_self _ _)
    have step : (scanEntry B config existing queue acc id e).val.indicesToDrop = acc.indicesToDrop := by
      rcases scanEntry_cases (rfl : scanEntry B config existing queue acc id e = _) with h | ⟨-, -, h⟩
      · rw [h]; rfl
      · rcases h with h | ⟨dropped, -⟩
        · exact h
        · simp [live'] at dropped
    simp only [scanLoop]
    split
    · rename_i a hflow
      rw [hflow] at step
      rw [← step]
      exact scanLoop_drop_of_live rest a fun p hp => live p (List.mem_cons_of_mem _ hp)
    · rename_i a hflow
      rwa [hflow] at step

/-- The chosen indices stay increasing and behind `queue_index`, which never passes the
end of the queue. -/
theorem scanLoop_chosen_bounded {N : Nat} : ∀ (l : List (Nat × Entry)) (acc : Scan B),
    acc.queueIndex + l.length ≤ N → acc.chosenIndices.Pairwise (· < ·) →
      (∀ c ∈ acc.chosenIndices, c < acc.queueIndex) →
      (scanLoop B config existing queue l acc).chosenIndices.Pairwise (· < ·) ∧
        ∀ c ∈ (scanLoop B config existing queue l acc).chosenIndices, c < N
  | [], acc, len, sorted, behind => ⟨sorted, fun c hc => by simp at len; exact (behind c hc).trans_le len⟩
  | (id, e) :: rest, acc, len, sorted, behind => by
    simp only [List.length_cons] at len
    have step : ∀ flow, scanEntry B config existing queue acc id e = flow →
        flow.val.chosenIndices.Pairwise (· < ·) ∧
          (∀ c ∈ flow.val.chosenIndices, c < flow.val.queueIndex) ∧
          flow.val.queueIndex ≤ acc.queueIndex + 1 := by
      intro flow h
      rcases scanEntry_cases h with rfl | ⟨index, chosen, -⟩
      · exact ⟨sorted, behind, Nat.le_succ _⟩
      · rw [index]
        rcases chosen with h | ⟨-, h⟩ <;> rw [h]
        · exact ⟨sorted, fun c hc => Nat.lt_succ_of_lt (behind c hc), le_rfl⟩
        · refine ⟨List.pairwise_append.mpr ⟨sorted, by simp, fun a ha b hb => ?_⟩, ?_, le_rfl⟩
          · simp only [List.mem_singleton] at hb
            exact hb ▸ behind a ha
          · simp only [List.mem_append, List.mem_singleton]
            rintro c (hc | rfl)
            · exact Nat.lt_succ_of_lt (behind c hc)
            · exact Nat.lt_succ_self _
    simp only [scanLoop]
    split
    · rename_i a hflow
      obtain ⟨sorted', behind', index'⟩ := step _ hflow
      exact scanLoop_chosen_bounded rest a (by simp at index'; omega) sorted' behind'
    · rename_i a hflow
      obtain ⟨sorted', behind', index'⟩ := step _ hflow
      exact ⟨sorted', fun c hc => by simp at index' behind'; have := behind' c hc; omega⟩

/-! ## The size limit -/

@[simp] theorem Scan.init_totalCount (c : Nat) : (Scan.init B existing c).totalCount = existing.len := rfl

@[simp] theorem Scan.init_chosenIndices (c : Nat) : (Scan.init B existing c).chosenIndices = [] := rfl

/-- The prefill check and commit count each entry chosen in `total_count`, and a commit
breaks the loop once the batch is full. -/
theorem Scan.admit_counts {acc : Scan B} {e : Entry} {slot : Slot} {nextStats : B.Stats}
    {btree : Option Tree} {flow : LoopFlow (Scan B)}
    (h : acc.admit B config e slot nextStats btree = flow) (room : acc.totalCount < config.sizeLimit) :
    flow.val.totalCount + acc.chosenIndices.length = acc.totalCount + flow.val.chosenIndices.length ∧
      flow.val.totalCount ≤ config.sizeLimit ∧ ∀ a, flow = .next a → a.totalCount < config.sizeLimit := by
  rcases Scan.admit_inv h with ⟨-, -, a, rfl, -, chosen, -, total, -⟩ |
    ⟨-, a, flow, -, chosen, -, total, -⟩
  · simp [chosen, total, room, room.le]
  · rcases flow with ⟨full, rfl⟩ | ⟨free, rfl⟩
    · simp [chosen, total]
      omega
    · simp [chosen, total, free]
      omega

/-- One pass of the scan keeps `total_count` the size of the running batch plus the
entries chosen, and continues only while there is room. -/
theorem scanEntry_counts {acc : Scan B} {id : Nat} {e : Entry} {flow : LoopFlow (Scan B)}
    (h : scanEntry B config existing queue acc id e = flow) (room : acc.totalCount < config.sizeLimit) :
    flow.val.totalCount + acc.chosenIndices.length = acc.totalCount + flow.val.chosenIndices.length ∧
      flow.val.totalCount ≤ config.sizeLimit ∧ ∀ a, flow = .next a → a.totalCount < config.sizeLimit := by
  rcases scanEntry_inv h with ⟨-, rfl⟩ | ⟨-, ⟨-, a, rfl, -, chosen, -, total, -⟩ |
    ⟨-, ⟨-, -, a, rfl, -, chosen, -, total, -⟩ | ⟨-, btree, admitted⟩⟩⟩
  · simpa using room.le
  · simp [chosen, total, room, room.le]
  · simp [chosen, total, room, room.le]
  · have counts := Scan.admit_counts admitted room
    exact counts

/-- The scan never chooses more entries than the room the running batch leaves. -/
theorem scanLoop_counts : ∀ (l : List (Nat × Entry)) (acc : Scan B), acc.totalCount < config.sizeLimit →
    (scanLoop B config existing queue l acc).totalCount + acc.chosenIndices.length =
        acc.totalCount + (scanLoop B config existing queue l acc).chosenIndices.length ∧
      (scanLoop B config existing queue l acc).totalCount ≤ config.sizeLimit
  | [], _, room => ⟨rfl, room.le⟩
  | (id, e) :: rest, acc, room => by
    obtain ⟨count, full, next⟩ := scanEntry_counts (rfl : scanEntry B config existing queue acc id e = _) room
    simp only [scanLoop]
    split
    · rename_i a hflow
      rw [hflow] at count
      have := scanLoop_counts rest a (next a hflow)
      simp only [LoopFlow.val_next] at count
      omega
    · rename_i a hflow
      rw [hflow] at count full
      exact ⟨count, full⟩

/-- From the start of the scan, the entries chosen fit beside the running batch. -/
theorem scanLoop_chosen_room (l : List (Nat × Entry)) (c : Nat) (room : existing.len < config.sizeLimit) :
    existing.len + (scanLoop B config existing queue l (Scan.init B existing c)).chosenIndices.length ≤
      config.sizeLimit := by
  obtain ⟨counts, full⟩ := @scanLoop_counts B config existing queue l (Scan.init B existing c) room
  simp only [Scan.init_totalCount, Scan.init_chosenIndices, List.length_nil, Nat.add_zero] at counts
  omega

end Bookkeeping

end TgiRouter
