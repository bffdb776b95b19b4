import TgiRouter.Queue.Live
import TgiRouter.Queue.WaitingHead

/-!
# Why the scan passes a candidate over

The scan of `State::next_batch` passes over a live candidate within the time cutoff for
one of two reasons (`scanEntry_rejects_iff`): the weight check, when `batch_weight` with
the candidate is over `weight_limit` and `exceeds_weight` finds the tree with the
candidate overflowing, or the prefill check, when `prefill_weight` with the candidate is
over `prefill_weight_limit`. The first reads the tree, which the fast path leaves unbuilt
and both checks edit with `insert` and `remove`; the second reads `prefill_stats`.

Both reasons are real. Whatever the tree holds is a tuple of the running batch or of an
entry chosen so far (`RejectInv.tree`), and `prefill_stats` are the inputs of the entries
chosen (`StatsInv`), so every candidate the scan of a call passes over would overflow
(`nextBatch_rejects_only_overflows`): with the entries chosen before it, its prefill
weight is over `prefill_weight_limit`, or with them and the running batch the batch would
weigh more than `weight_limit` at some step, under either cost model. The converse fails:
the fast path admits candidates that overflow (`nextBatch_overflows_weight`).

A queued entry's tuple is `(max_new_tokens, truncate, id)` both as the candidate and in the
`get_or_insert_with` closure when the entry has generated nothing, which the theorem
assumes of every waiting entry.
-/

namespace TgiRouter

/-! ## The tuples of the chosen entries -/

/-- The tuples of the entries at the chosen positions of the queue, as the admission tree
holds them. -/
def chosenSlots (queue : List (Nat × Entry)) (chosen : List Nat) : List Slot :=
  (chosen.filterMap fun i => queue[i]?).map fun p => p.2.batchSlot p.1

theorem chosenSlots_append_single {queue : List (Nat × Entry)} (chosen : List Nat) {i id : Nat}
    {e : Entry} (here : queue[i]? = some (id, e)) :
    chosenSlots queue (chosen ++ [i]) = chosenSlots queue chosen ++ [e.batchSlot id] := by
  simp [chosenSlots, List.filterMap_append, here]

/-- The tree the `get_or_insert_with` closure builds holds the running batch and the
entries chosen. -/
theorem initTree_subset (existing : ExistingBatch) (queue : List (Nat × Entry)) (chosen : List Nat) :
    (initTree existing queue chosen).desc ⊆ batchSlots existing ++ chosenSlots queue chosen := by
  intro z hz
  unfold initTree at hz
  rcases mem_foldl_batchSlot _ _ hz with h | ⟨p, hp, rfl⟩
  · simp [Tree.empty] at h
  rcases List.mem_append.mp hp with hp | hp
  · obtain ⟨e, he, rfl⟩ := List.mem_map.mp hp
    exact List.mem_append_left _ (List.mem_map_of_mem _ he)
  · exact List.mem_append_right _ (List.mem_map_of_mem _ hp)

/-- `BTreeSet::remove` after `BTreeSet::insert` of the same tuple leaves at most what the
set held. -/
theorem Tree.erase_insert_subset (t : Tree) (x : Slot) : ((t.insert x).erase x).desc ⊆ t.desc := fun _ hz =>
  have ⟨ne, mem⟩ := Tree.mem_erase.mp hz
  (Tree.mem_insert.mp mem).resolve_left ne

/-- Why the scan may pass over the entry `p` with the entries at the positions `before`
chosen ahead of it: with them its prefill weight is over `prefill_weight_limit`, or with
them and the running batch the batch would weigh more than `weight_limit` at some step. -/
def Overflows (M : CostModel) (config : BatchingConfig) (existing : ExistingBatch)
    (queue : List (Nat × Entry)) (before : List Nat) (p : Nat × Entry) : Prop :=
  (0 < config.prefillWeightLimit ∧
      config.prefillWeightLimit < M.batchType.prefillWeight
        (M.batchType.prefillStatsOf (chosenRequests queue before ++ [p.2.toRequest p.1])) (before.length + 1)) ∨
    ∃ t, config.weightLimit < M.weight (batchSlots existing ++ chosenSlots queue before ++ [p.2.batchSlot p.1]) t

/-! ## What one pass does to the tree -/

section Pass

variable {B : BatchType} {config : BatchingConfig} {existing : ExistingBatch}
  {queue : List (Nat × Entry)}

/-- The prefill check removes the candidate from the tree it was checked in, or commits
the candidate with that tree. -/
theorem Scan.admit_tree {acc : Scan B} {e : Entry} {slot : Slot} {nextStats : B.Stats}
    {btree : Option Tree} {flow : LoopFlow (Scan B)} (h : acc.admit B config e slot nextStats btree = flow) :
    ∀ T, flow.val.btree = some T → ∃ T0, btree = some T0 ∧
      (T = T0.erase slot ∧ flow.val.chosenIndices = acc.chosenIndices ∨
        T = T0 ∧ flow.val.chosenIndices = acc.chosenIndices ++ [acc.queueIndex - 1]) := by
  intro T hT
  unfold Scan.admit at h
  dsimp only at h
  split_ifs at h <;> subst h
  · obtain ⟨T0, found, rfl⟩ := Option.map_eq_some'.mp hT
    exact ⟨T0, found, .inl ⟨rfl, rfl⟩⟩
  all_goals exact ⟨T, hT, .inr ⟨rfl, rfl⟩⟩

/-- What one pass does to the tree, with `base` the tree a candidate is checked in (the
closure's when there is none): the tree stays as it was and nothing is chosen, or it is
`base` with the candidate inserted and removed again, or with the candidate inserted, and
the candidate is chosen. -/
theorem scanEntry_tree {acc : Scan B} {id : Nat} {e : Entry} {flow : LoopFlow (Scan B)}
    (h : scanEntry B config existing queue acc id e = flow) :
    ∀ T, flow.val.btree = some T →
      acc.btree = some T ∧ flow.val.chosenIndices = acc.chosenIndices ∨
      T = ((acc.btree.getD (initTree existing queue acc.chosenIndices)).insert
          ⟨e.request.maxNewTokens, e.request.truncate, id⟩).erase ⟨e.request.maxNewTokens, e.request.truncate, id⟩ ∧
        flow.val.chosenIndices = acc.chosenIndices ∨
      T = (acc.btree.getD (initTree existing queue acc.chosenIndices)).insert
          ⟨e.request.maxNewTokens, e.request.truncate, id⟩ ∧
        flow.val.chosenIndices = acc.chosenIndices ++ [acc.queueIndex] := by
  intro T hT
  rw [scanEntry] at h
  by_cases cutoff : acc.timeCutoff.any (fun t => decide (t < e.queueTime)) = true
  · rw [if_pos cutoff] at h
    subst h
    exact .inl ⟨hT, rfl⟩
  rw [if_neg cutoff] at h
  by_cases dropped : e.disconnected = true
  · rw [if_pos dropped] at h
    subst h
    exact .inl ⟨hT, rfl⟩
  rw [if_neg dropped] at h
  dsimp only at h
  split at h
  · split at h
    · -- the weight check rejects the candidate
      subst h
      simp only [LoopFlow.val_next, Scan.skip, Option.some.injEq] at hT
      exact .inr (.inl ⟨hT.symm, rfl⟩)
    · -- the slow path hands the tree with the candidate to the prefill check
      obtain ⟨T0, found, shape⟩ := Scan.admit_tree h T hT
      cases found
      rcases shape with ⟨rfl, chosen⟩ | ⟨rfl, chosen⟩
      · exact .inr (.inl ⟨rfl, chosen⟩)
      · exact .inr (.inr ⟨rfl, by simpa only [Nat.add_sub_cancel] using chosen⟩)
  · -- the fast path inserts the candidate into the tree when there is one
    obtain ⟨T0, found, shape⟩ := Scan.admit_tree h T hT
    obtain ⟨old, set, rfl⟩ := Option.map_eq_some'.mp found
    rw [set, Option.getD_some]
    rcases shape with ⟨rfl, chosen⟩ | ⟨rfl, chosen⟩
    · exact .inr (.inl ⟨rfl, chosen⟩)
    · exact .inr (.inr ⟨rfl, by simpa only [Nat.add_sub_cancel] using chosen⟩)

end Pass

/-! ## The loop invariant -/

/-- What the scan keeps true over `queue` of the positions `rejected` it passed over and of
its variables `acc`. -/
structure RejectInv (M : CostModel) (config : BatchingConfig) (existing : ExistingBatch)
    (queue : List (Nat × Entry)) (rejected : List Nat) (acc : Scan M.batchType) : Prop where
  /-- The statistics are those of the running batch and of the entries chosen. -/
  stats : StatsInv M.batchType config existing queue acc
  /-- The entries chosen so far stand before the current position. -/
  chosen_lt : ∀ c ∈ acc.chosenIndices, c < acc.queueIndex
  /-- The tree holds tuples of the running batch and of the entries chosen, nothing else. -/
  tree : ∀ T, acc.btree = some T → T.desc ⊆ batchSlots existing ++ chosenSlots queue acc.chosenIndices
  /-- The candidates passed over stand before the current position. -/
  rejected_lt : ∀ a ∈ rejected, a < acc.queueIndex
  /-- Each of them would overflow beside the entries chosen before it. -/
  overflows : ∀ a ∈ rejected, ∃ p, queue[a]? = some p ∧
    Overflows M config existing queue (acc.chosenIndices.filter (· < a)) p

section Loop

variable {M : CostModel} {config : BatchingConfig} {existing : ExistingBatch}
  {queue : List (Nat × Entry)}

/-- Before the loop nothing is chosen or passed over, and there is no tree. -/
theorem RejectInv.init (c : Nat) : RejectInv M config existing queue [] (Scan.init M.batchType existing c) where
  stats := StatsInv.init c
  chosen_lt _ chosen := absurd chosen (List.not_mem_nil _)
  tree _ none := Option.noConfusion none
  rejected_lt _ rejected := absurd rejected (List.not_mem_nil _)
  overflows _ rejected := absurd rejected (List.not_mem_nil _)

/-- The tree a candidate is checked in, the closure's when there is none, holds tuples of
the running batch and of the entries chosen. -/
theorem RejectInv.base_subset {R : List Nat} {acc : Scan M.batchType} (inv : RejectInv M config existing queue R acc) :
    (acc.btree.getD (initTree existing queue acc.chosenIndices)).desc ⊆
      batchSlots existing ++ chosenSlots queue acc.chosenIndices := by
  rcases set : acc.btree with _ | T
  · exact initTree_subset existing queue acc.chosenIndices
  · exact inv.tree T set

/-- A candidate the tree check turns away overflows beside the running batch and the
entries chosen: `exceeds_weight` answers `true` only on a real overflow of the tree, and the
tree holds no more than those tuples. -/
theorem RejectInv.weight_overflows {R : List Nat} {acc : Scan M.batchType} {id : Nat} {e : Entry}
    (inv : RejectInv M config existing queue R acc)
    (slot : (⟨e.request.maxNewTokens, e.request.truncate, id⟩ : Slot) = e.batchSlot id)
    (exceeds : M.batchType.exceedsWeight ((acc.btree.getD (initTree existing queue acc.chosenIndices)).insert
      ⟨e.request.maxNewTokens, e.request.truncate, id⟩) config.weightLimit e.request.maxNewTokens = true) :
    ∃ t, config.weightLimit < M.weight (batchSlots existing ++ chosenSlots queue acc.chosenIndices ++ [e.batchSlot id]) t := by
  obtain ⟨t, over⟩ := M.exceedsWeight_sound exceeds
  refine ⟨t, over.trans_le (M.weight_le_of_subperm (List.subperm_of_subset (Tree.nodup _) fun z hz => ?_) t)⟩
  rcases Tree.mem_insert.mp hz with rfl | hz
  · exact List.mem_append_right _ (List.mem_singleton.mpr slot)
  · exact List.mem_append_left _ (inv.base_subset hz)

/-- One pass over the entry at the current position keeps the invariant, with the position
added to the rejected ones when the pass rejects it. -/
theorem RejectInv.pass {R : List Nat} {acc : Scan M.batchType} {id : Nat} {e : Entry}
    {flow : LoopFlow (Scan M.batchType)} (inv : RejectInv M config existing queue R acc)
    (unstarted : ∀ p ∈ queue, p.2.generatedTokens = 0) (here : queue[acc.queueIndex]? = some (id, e))
    (h : scanEntry M.batchType config existing queue acc id e = flow) :
    RejectInv M config existing queue (R ++ if flow.rejects acc then [acc.queueIndex] else []) flow.val := by
  have stats := inv.stats.pass here h
  have tree := scanEntry_tree h
  rcases scanEntry_cases h with rfl | ⟨index, chosen, -⟩
  · simpa using inv
  have slot : (⟨e.request.maxNewTokens, e.request.truncate, id⟩ : Slot) = e.batchSlot id := by
    have zero : e.generatedTokens = 0 := unstarted _ (List.mem_iff_getElem?.mpr ⟨_, here⟩)
    simp [Entry.batchSlot, zero]
  -- what the pass chose stands at the current position, after everything chosen before
  have before : ∀ a, a ≤ acc.queueIndex →
      flow.val.chosenIndices.filter (· < a) = acc.chosenIndices.filter (· < a) := fun a le => by
    rcases chosen with same | ⟨-, grown⟩
    · rw [same]
    · simp [grown, List.filter_append, Nat.not_lt.mpr le]
  refine ⟨stats, fun c hc => ?_, fun T set z hz => ?_, fun a ha => ?_, fun a ha => ?_⟩
  · -- the entries chosen stand before the next position
    rw [index]
    rcases chosen with same | ⟨-, grown⟩
    · exact Nat.lt_succ_of_lt (inv.chosen_lt c (same ▸ hc))
    · rcases List.mem_append.mp (grown ▸ hc) with hc | hc
      · exact Nat.lt_succ_of_lt (inv.chosen_lt c hc)
      · exact Nat.lt_succ_of_le (List.mem_singleton.mp hc).le
  · -- the tree holds tuples of the running batch and of the entries chosen
    rcases tree T set with ⟨kept, same⟩ | ⟨rfl, same⟩ | ⟨rfl, grown⟩
    · rw [same]
      exact inv.tree T kept hz
    · rw [same]
      exact inv.base_subset (Tree.erase_insert_subset _ _ hz)
    rw [grown, chosenSlots_append_single _ here, ← List.append_assoc]
    rcases Tree.mem_insert.mp hz with rfl | hz
    · exact List.mem_append_right _ (List.mem_singleton.mpr slot)
    · exact List.mem_append_left _ (inv.base_subset hz)
  · -- so do the candidates passed over
    rw [index]
    rcases List.mem_append.mp ha with ha | ha
    · exact Nat.lt_succ_of_lt (inv.rejected_lt a ha)
    · split_ifs at ha
      · exact Nat.lt_succ_of_le (List.mem_singleton.mp ha).le
      · cases ha
  · -- and each of them would overflow
    rcases List.mem_append.mp ha with ha | ha
    · rw [before a (inv.rejected_lt a ha).le]
      exact inv.overflows a ha
    cases rejects : flow.rejects acc
    · simp [rejects] at ha
    rw [rejects, if_pos rfl, List.mem_singleton] at ha
    subst ha
    have all : acc.chosenIndices.filter (· < acc.queueIndex) = acc.chosenIndices :=
      List.filter_eq_self.mpr fun c hc => decide_eq_true (inv.chosen_lt c hc)
    obtain ⟨-, -, weight | prefill⟩ := scanEntry_rejects_iff.mp (h ▸ rejects)
    · refine ⟨(id, e), here, .inr ?_⟩
      rw [before _ le_rfl, all]
      exact inv.weight_overflows slot weight.2
    · refine ⟨(id, e), here, .inl ⟨prefill.1, ?_⟩⟩
      rw [before _ le_rfl, all, BatchType.prefillStatsOf_append_single]
      rw [inv.stats.prefill, if_pos prefill.1] at prefill
      exact prefill.2

/-- The whole loop from the current position keeps the invariant, with every candidate it
rejects added. -/
theorem scanLoop_rejectInv (unstarted : ∀ p ∈ queue, p.2.generatedTokens = 0) (l : List (Nat × Entry))
    (acc : Scan M.batchType) (R : List Nat) (aligned : l = queue.drop acc.queueIndex)
    (inv : RejectInv M config existing queue R acc) :
    RejectInv M config existing queue (R ++ scanRejected M.batchType config existing queue l acc)
      (scanLoop M.batchType config existing queue l acc) :=
  scanLoop_induction (fun R acc => RejectInv M config existing queue R acc)
    (fun _ _ _ _ here inv => inv.pass unstarted here rfl) l acc R aligned inv

end Loop

/-! ## A call of `next_batch` -/

/-- The queue the scan of a call of `next_batch` walks: the queue once the cancelled
entries at its front are popped. -/
def State.scannedQueue (s : State) (existingOpt : Option ExistingBatch) : List (Nat × Entry) :=
  (s.resetCursor (existingOpt.getD ∅).len).pruneFront.entries

/-- When no waiting entry has generated tokens, the admission tree the scan of a call of
`next_batch` ends with holds only tuples of the running batch and of the entries chosen,
and every candidate the scan passes over would overflow beside the entries it chose before
it: its prefill weight with them is over `prefill_weight_limit`, or the running batch, they
and the candidate would weigh more than `weight_limit` at some step. -/
theorem nextBatch_rejects_only_overflows (M : CostModel) {s : State} (existingOpt : Option ExistingBatch)
    (unstarted : ∀ p ∈ s.entries, p.2.generatedTokens = 0) :
    (∀ T, (s.callScan M.batchType existingOpt).btree = some T →
      T.desc ⊆ batchSlots (existingOpt.getD ∅) ++
        chosenSlots (s.scannedQueue existingOpt) (s.callScan M.batchType existingOpt).chosenIndices) ∧
    ∀ a ∈ s.callRejected M.batchType existingOpt, ∃ p, (s.scannedQueue existingOpt)[a]? = some p ∧
      Overflows M s.config (existingOpt.getD ∅) (s.scannedQueue existingOpt)
        ((s.callScan M.batchType existingOpt).chosenIndices.filter (· < a)) p := by
  have scanned : ∀ p ∈ s.scannedQueue existingOpt, p.2.generatedTokens = 0 := fun p hp =>
    unstarted p ((pruneCancelled_sublist _ _).subset (by simpa [State.scannedQueue] using hp))
  have inv : RejectInv M (s.resetCursor (existingOpt.getD ∅).len).pruneFront.config (existingOpt.getD ∅)
      (s.scannedQueue existingOpt) ([] ++ s.callRejected M.batchType existingOpt)
      (s.callScan M.batchType existingOpt) :=
    scanLoop_rejectInv scanned _ _ [] rfl (RejectInv.init _)
  rw [State.pruneFront_config, State.resetCursor_config, List.nil_append] at inv
  exact ⟨inv.tree, inv.overflows⟩

/-- A running batch of one request of `6` input and `6` output tokens: `12` tokens, over a
weight limit of `10`. -/
def runningHeavy : ExistingBatch := (∅ : ExistingBatch).insert 100 ⟨⟨6, 6⟩, 0, false, 0, some 0⟩

/-- Two waiting requests under a weight limit of `10`, the first of five input and five
output tokens. -/
def heavyFirst : State :=
  ((State.new ⟨10, 10, 0⟩).append ⟨⟨5, 5⟩, 0, false, 0, none⟩).append ⟨⟨1, 1⟩, 0, false, 0, none⟩

/-- Beside `runningHeavy` the weight check passes over the first request, which would
bring the batch to `6 + 5 = 11` tokens at once, and the scan chooses the second. -/
theorem nextBatch_rejects_only_overflows_heavyFirst :
    (∀ p ∈ heavyFirst.entries, p.2.generatedTokens = 0) ∧
      heavyFirst.callRejected CostModel.flash.batchType (some runningHeavy) = [0] ∧
      (∀ T, (heavyFirst.callScan CostModel.flash.batchType (some runningHeavy)).btree = some T →
        T.desc ⊆ batchSlots ((some runningHeavy).getD ∅) ++ chosenSlots (heavyFirst.scannedQueue (some runningHeavy))
          (heavyFirst.callScan CostModel.flash.batchType (some runningHeavy)).chosenIndices) ∧
      ∀ a ∈ heavyFirst.callRejected CostModel.flash.batchType (some runningHeavy),
        ∃ p, (heavyFirst.scannedQueue (some runningHeavy))[a]? = some p ∧
          Overflows .flash heavyFirst.config ((some runningHeavy).getD ∅) (heavyFirst.scannedQueue (some runningHeavy))
            ((heavyFirst.callScan CostModel.flash.batchType (some runningHeavy)).chosenIndices.filter (· < a)) p :=
  ⟨by decide, rfl, nextBatch_rejects_only_overflows .flash (some runningHeavy) (by decide)⟩

end TgiRouter
