import TgiRouter.Queue.Rejection

/-!
# `FlashBatch` beside a heavy running batch

`nextBatch_overflows_weight` shows that `next_batch` can hand out a batch that overflows
`weight_limit`: the fast path admits a candidate whenever `batch_weight` before it is
within the limit, without the tree. Under `FlashBatch` that is the only way an overflow
gets in. `batch_weight` is the token total of the batch, which only grows along the scan,
so once the running batch alone is over the limit every candidate goes through the tree.
With distinct ids the tree then holds exactly the running batch and the entries chosen
(`FitInv.tree`), and `FlashBatch::exceeds_weight` decides whether the candidate would
overflow once the rest fits (`FlashBatch.exceedsWeight_of_overflow`). So the scan keeps
the batch within the limit at every future step (`FitInv.pass`), and a call of
`next_batch` beside such a running batch hands out a batch that fits with it
(`nextBatch_keeps_flash_fit`).
-/

namespace TgiRouter

/-! ## The tuples of the scan, exactly -/

/-- Every tuple inserted by the closure's loop, and every tuple the tree held, is in the
tree it builds. -/
theorem mem_foldl_batchSlot_of_mem {z : Slot} : ∀ (l : List (Nat × Entry)) (t : Tree),
    (z ∈ t.desc ∨ ∃ p ∈ l, z = p.2.batchSlot p.1) →
      z ∈ (l.foldl (fun t p => t.insert (p.2.batchSlot p.1)) t).desc
  | [], _, .inl h => h
  | [], _, .inr ⟨_, h, _⟩ => absurd h (List.not_mem_nil _)
  | p :: l, t, h => by
    refine mem_foldl_batchSlot_of_mem l _ ?_
    rcases h with h | ⟨q, hq, rfl⟩
    · exact .inl (Tree.mem_insert.mpr (.inr h))
    rcases List.mem_cons.mp hq with rfl | hq
    · exact .inl (Tree.mem_insert.mpr (.inl rfl))
    · exact .inr ⟨q, hq, rfl⟩

/-- With the ids of the running batch and of the queue distinct, the tuples of the running
batch and of the entries at increasing positions of the queue are distinct. -/
theorem slots_nodup {existing : ExistingBatch} {queue : List (Nat × Entry)} {chosen : List Nat}
    (distinct : (existing.keys ++ waitingIds queue).Nodup) (increasing : chosen.Pairwise (· < ·)) :
    (batchSlots existing ++ chosenSlots queue chosen).Nodup := by
  refine List.Nodup.of_map Slot.entryId (distinct.sublist ?_)
  have ids : (chosenSlots queue chosen).map Slot.entryId = waitingIds (chosen.filterMap fun i => queue[i]?) := by
    simp [chosenSlots, waitingIds, Entry.batchSlot, Function.comp_def]
  rw [List.map_append, ids]
  refine List.Sublist.append (by simp [batchSlots, Entry.batchSlot, AList.keys, List.keys, Function.comp_def]) ?_
  exact (filterMap_getElem?_sublist queue chosen increasing).map _

/-- With distinct tuples, the closure's tree holds exactly the running batch and the
entries chosen. -/
theorem initTree_perm {existing : ExistingBatch} {queue : List (Nat × Entry)} {chosen : List Nat}
    (nodup : (batchSlots existing ++ chosenSlots queue chosen).Nodup) :
    (initTree existing queue chosen).desc.Perm (batchSlots existing ++ chosenSlots queue chosen) := by
  refine (List.perm_ext_iff_of_nodup (Tree.nodup _) nodup).mpr fun z =>
    ⟨fun hz => initTree_subset existing queue chosen hz, fun hz => ?_⟩
  refine mem_foldl_batchSlot_of_mem _ _ (.inr ?_)
  rcases List.mem_append.mp hz with hz | hz
  · obtain ⟨e, he, rfl⟩ := List.mem_map.mp hz
    exact ⟨(e.1, e.2), List.mem_append_left _ (List.mem_map_of_mem _ he), rfl⟩
  · obtain ⟨p, hp, rfl⟩ := List.mem_map.mp hz
    exact ⟨p, List.mem_append_right _ hp, rfl⟩

theorem flashWeight_perm {l m : List Slot} (perm : l.Perm m) (t : Nat) : flashWeight l t = flashWeight m t :=
  le_antisymm (flashWeight_le_of_subperm perm.subperm t) (flashWeight_le_of_subperm perm.symm.subperm t)

/-- Beside a rest that fits, `FlashBatch::exceeds_weight` at the candidate's output length
finds every overflow of the tree. -/
theorem FlashBatch.exceedsWeight_of_overflow {T : Tree} {x : Slot} (mem : x ∈ T.desc) {L : Nat}
    (restFits : ∀ t, flashWeight (T.desc.erase x) t ≤ L) {t : Nat} (over : L < flashWeight T.desc t) :
    FlashBatch.exceedsWeight T L x.outputLen = true := by
  obtain ⟨q, hq, covers, atLeast⟩ := FlashBatch.exists_checkpoint (P := []) T.outputLen_antitone (by simp)
    rfl rfl (exists_live_of_flashWeight_pos (Nat.lt_of_le_of_lt (Nat.zero_le L) over))
  have bound := FlashBatch.checkpoint_le (P := []) T.outputLen_antitone (by simp) rfl rfl q hq
  -- a checkpoint of a tier longer than the candidate weighs what the rest weighs
  have short : q.1 ≤ x.outputLen := by
    by_contra longer
    have weight := flashWeight_erase mem q.1
    rw [if_neg longer, Nat.add_zero] at weight
    have := restFits q.1
    simp only [List.nil_append] at bound atLeast
    omega
  rw [FlashBatch.exceedsWeight, FlashBatch.exceedsWeightFrom_eq_any, List.any_eq_true]
  exact ⟨q, hq, decide_eq_true ⟨short, lt_of_lt_of_le over (by simpa using atLeast)⟩⟩

/-- `FlashBatch` statistics only grow. -/
theorem le_flash_foldStats : ∀ (requests : List Request) (stats : Nat), stats ≤ flashBatch.foldStats stats requests
  | [], _ => le_rfl
  | r :: rest, stats => (Nat.le_add_right _ _).trans ((Nat.le_add_right _ _).trans
      (le_flash_foldStats rest (stats + r.truncate + r.maxNewTokens)))

/-- The tuple of a queued entry that generated nothing is its request's. -/
theorem chosenSlots_eq_map {queue : List (Nat × Entry)} (unstarted : ∀ p ∈ queue, p.2.generatedTokens = 0)
    (chosen : List Nat) :
    chosenSlots queue chosen = (chosenRequests queue chosen).map fun r => ⟨r.maxNewTokens, r.truncate, r.id⟩ := by
  simp only [chosenSlots, chosenRequests, List.map_map]
  refine List.map_congr_left fun p hp => ?_
  obtain ⟨i, -, found⟩ := List.mem_filterMap.mp hp
  have zero := unstarted p (List.mem_iff_getElem?.mpr ⟨i, found⟩)
  simp [Entry.batchSlot, Entry.toRequest, zero]

/-! ## The loop invariant -/

/-- What the `FlashBatch` scan keeps beside a heavy running batch: the tree holds exactly
the running batch and the entries chosen, and they fit at every future step. -/
structure FitInv (config : BatchingConfig) (existing : ExistingBatch) (queue : List (Nat × Entry))
    (acc : Scan flashBatch) : Prop where
  /-- The statistics are those of the running batch and of the entries chosen. -/
  stats : StatsInv flashBatch config existing queue acc
  /-- The entries chosen stand at increasing positions before the current one. -/
  chosen_lt : ∀ c ∈ acc.chosenIndices, c < acc.queueIndex
  increasing : acc.chosenIndices.Pairwise (· < ·)
  /-- The tree holds the tuples of the running batch and of the entries chosen. -/
  tree : ∀ T, acc.btree = some T → T.desc.Perm (batchSlots existing ++ chosenSlots queue acc.chosenIndices)
  /-- Together they fit at every future step. -/
  fits : ∀ t, flashWeight (batchSlots existing ++ chosenSlots queue acc.chosenIndices) t ≤ config.weightLimit

section Loop

variable {config : BatchingConfig} {existing : ExistingBatch} {queue : List (Nat × Entry)}

/-- Before the loop nothing is chosen and there is no tree. -/
theorem FitInv.init (fitsExisting : ∀ t, flashWeight (batchSlots existing) t ≤ config.weightLimit) (c : Nat) :
    FitInv config existing queue (Scan.init flashBatch existing c) where
  stats := StatsInv.init c
  chosen_lt _ chosen := absurd chosen (List.not_mem_nil _)
  increasing := List.Pairwise.nil
  tree _ none := Option.noConfusion none
  fits t := (List.append_nil (batchSlots existing)).symm ▸ fitsExisting t

/-- A pass that chooses its entry did not have it turned away by the weight check. -/
theorem scanEntry_chooses_passed {B : BatchType} {acc : Scan B} {id : Nat} {e : Entry} {flow : LoopFlow (Scan B)}
    (h : scanEntry B config existing queue acc id e = flow)
    (grown : flow.val.chosenIndices = acc.chosenIndices ++ [acc.queueIndex]) :
    ¬(config.weightLimit < B.batchWeight acc.batchStats (acc.totalCount + 1) ∧
      B.exceedsWeight ((acc.btree.getD (initTree existing queue acc.chosenIndices)).insert
        ⟨e.request.maxNewTokens, e.request.truncate, id⟩) config.weightLimit e.request.maxNewTokens = true) := by
  rcases scanEntry_inv h with ⟨-, rfl⟩ | ⟨-, ⟨-, a, rfl, -, same, -⟩ |
    ⟨-, ⟨-, -, a, rfl, -, same, -⟩ | ⟨passed, -⟩⟩⟩
  · simp at grown
  · simp [same] at grown
  · simp [same] at grown
  · exact passed

variable (heavy : config.weightLimit < flashBatch.computeStats existing)
  (distinct : (existing.keys ++ waitingIds queue).Nodup)
  (unstarted : ∀ p ∈ queue, p.2.generatedTokens = 0)

include heavy distinct unstarted in
/-- One pass over the entry at the current position keeps the invariant. -/
theorem FitInv.pass {acc : Scan flashBatch} {id : Nat} {e : Entry} {flow : LoopFlow (Scan flashBatch)}
    (inv : FitInv config existing queue acc) (here : queue[acc.queueIndex]? = some (id, e))
    (h : scanEntry flashBatch config existing queue acc id e = flow) : FitInv config existing queue flow.val := by
  have stats := inv.stats.pass here h
  have tree := scanEntry_tree h
  rcases scanEntry_cases h with rfl | ⟨index, chosen, -⟩
  · exact inv
  have zero : e.generatedTokens = 0 := unstarted _ (List.mem_iff_getElem?.mpr ⟨_, here⟩)
  have slot : (⟨e.request.maxNewTokens, e.request.truncate, id⟩ : Slot) = e.batchSlot id := by
    simp [Entry.batchSlot, zero]
  set base := acc.btree.getD (initTree existing queue acc.chosenIndices)
  -- the candidate's tuple is new beside the running batch and the entries chosen
  have increasing : (acc.chosenIndices ++ [acc.queueIndex]).Pairwise (· < ·) :=
    List.pairwise_append.mpr ⟨inv.increasing, List.pairwise_singleton _ _,
      fun c hc d hd => (List.mem_singleton.mp hd) ▸ inv.chosen_lt c hc⟩
  have nodup := slots_nodup distinct increasing
  rw [chosenSlots_append_single _ here, ← List.append_assoc] at nodup
  have fresh : e.batchSlot id ∉ batchSlots existing ++ chosenSlots queue acc.chosenIndices :=
    fun mem => (List.nodup_append.mp nodup).2.2 mem (List.mem_singleton_self _)
  have held : base.desc.Perm (batchSlots existing ++ chosenSlots queue acc.chosenIndices) := by
    simp only [base]
    rcases set : acc.btree with _ | T
    · exact initTree_perm (List.nodup_append.mp nodup).1
    · exact inv.tree T set
  -- the tree with the candidate, and with the candidate removed again
  have inserted : (base.insert ⟨e.request.maxNewTokens, e.request.truncate, id⟩).desc.Perm
      (batchSlots existing ++ chosenSlots queue acc.chosenIndices ++ [e.batchSlot id]) := by
    refine (List.perm_ext_iff_of_nodup (Tree.nodup _) nodup).mpr fun z => ?_
    rw [Tree.mem_insert, slot, held.mem_iff]
    simp only [List.mem_append, List.mem_singleton]
    exact or_comm
  have erased : ((base.insert ⟨e.request.maxNewTokens, e.request.truncate, id⟩).erase
      ⟨e.request.maxNewTokens, e.request.truncate, id⟩).desc.Perm
      (batchSlots existing ++ chosenSlots queue acc.chosenIndices) := by
    refine (List.perm_ext_iff_of_nodup (Tree.nodup _) (List.nodup_append.mp nodup).1).mpr fun z => ?_
    rw [Tree.mem_erase, Tree.mem_insert, slot, held.mem_iff]
    constructor
    · rintro ⟨ne, rfl | hz⟩
      exacts [absurd rfl ne, hz]
    · exact fun hz => ⟨fun eq => fresh (eq ▸ hz), .inr hz⟩
  refine ⟨stats, fun c hc => ?_, ?_, fun T set => ?_, ?_⟩
  · -- the entries chosen stand before the next position
    rw [index]
    rcases chosen with same | ⟨-, grown⟩
    · exact Nat.lt_succ_of_lt (inv.chosen_lt c (same ▸ hc))
    · rcases List.mem_append.mp (grown ▸ hc) with hc | hc
      · exact Nat.lt_succ_of_lt (inv.chosen_lt c hc)
      · exact Nat.lt_succ_of_le (List.mem_singleton.mp hc).le
  · rcases chosen with same | ⟨-, grown⟩
    exacts [same ▸ inv.increasing, grown ▸ increasing]
  · -- the tree holds the running batch and the entries chosen
    rcases tree T set with ⟨kept, same⟩ | ⟨rfl, same⟩ | ⟨rfl, grown⟩
    · exact same ▸ inv.tree T kept
    · exact same ▸ erased
    · rw [grown, chosenSlots_append_single _ here, ← List.append_assoc]
      exact inserted
  · -- a candidate chosen beside a heavy batch passed the exact check of the tree
    rcases chosen with same | ⟨-, grown⟩
    · exact same ▸ inv.fits
    have heavyNow : config.weightLimit < flashBatch.batchWeight acc.batchStats (acc.totalCount + 1) := by
      show config.weightLimit < (acc.batchStats : Nat)
      rw [inv.stats.batch]
      exact heavy.trans_le (le_flash_foldStats _ _)
    have within := scanEntry_chooses_passed h grown
    rw [not_and] at within
    have restFits : ∀ t, flashWeight ((base.insert ⟨e.request.maxNewTokens, e.request.truncate, id⟩).desc.erase
        ⟨e.request.maxNewTokens, e.request.truncate, id⟩) t ≤ config.weightLimit := fun t =>
      (flashWeight_perm erased t).trans_le (inv.fits t)
    intro t
    rw [grown, chosenSlots_append_single _ here, ← List.append_assoc, ← flashWeight_perm inserted t]
    by_contra over
    exact within heavyNow
      (FlashBatch.exceedsWeight_of_overflow (Tree.mem_insert.mpr (.inl rfl)) restFits (Nat.lt_of_not_le over))

include heavy distinct unstarted in
/-- The whole loop from the current position keeps the invariant. -/
theorem scanLoop_fitInv (l : List (Nat × Entry)) (acc : Scan flashBatch) (aligned : l = queue.drop acc.queueIndex)
    (inv : FitInv config existing queue acc) : FitInv config existing queue (scanLoop flashBatch config existing queue l acc) :=
  scanLoop_induction (fun _ acc => FitInv config existing queue acc)
    (fun _ _ _ _ here inv => inv.pass heavy distinct unstarted here rfl) l acc [] aligned inv

end Loop

/-! ## A call of `next_batch` -/

/-- On a queue of live entries that generated nothing, with ids distinct from the running
batch's, a call of `next_batch` under `FlashBatch` beside a running batch whose token total
is over `weight_limit`, but which fits at every future step, hands out a batch that fits
with it at every future step. -/
theorem nextBatch_keeps_flash_fit {s s' : State} {existing : ExistingBatch} {existingOpt' : Option ExistingBatch}
    {now : Nat} {nb : NextBatch} (live : ∀ p ∈ s.entries, p.2.disconnected = false)
    (unstarted : ∀ p ∈ s.entries, p.2.generatedTokens = 0) (distinct : (existing.keys ++ waitingIds s.entries).Nodup)
    (heavy : s.config.weightLimit < flashBatch.computeStats existing)
    (fits : ∀ t, flashWeight (batchSlots existing) t ≤ s.config.weightLimit)
    (h : s.nextBatch flashBatch (some existing) now = .ok (s', existingOpt', some nb)) :
    ∀ t, flashWeight (batchSlots existing ++ nb.2.requests.map fun r => ⟨r.maxNewTokens, r.truncate, r.id⟩) t ≤
      s.config.weightLimit := by
  obtain ⟨-, -, requests, -⟩ := nextBatch_requests_of_live live h
  have front : (s.resetCursor existing.len).pruneFront.entries = s.entries := by
    simp only [State.pruneFront_entries, State.resetCursor_entries, pruneCancelled_of_live live]
  have config : (s.resetCursor existing.len).pruneFront.config = s.config := by
    rw [State.pruneFront_config, State.resetCursor_config]
  have inv : FitInv (s.resetCursor existing.len).pruneFront.config existing
      (s.resetCursor existing.len).pruneFront.entries (s.callScan flashBatch (some existing)) :=
    scanLoop_fitInv (config ▸ heavy) (front ▸ distinct) (front ▸ unstarted) _ _ rfl (FitInv.init (config ▸ fits) _)
  rw [front, config] at inv
  rw [requests, ← chosenSlots_eq_map unstarted]
  exact inv.fits

/-- A running batch of two requests of one input token, with six and one output tokens:
`9` tokens in all, at most `7` at any step. -/
def twoRunning : ExistingBatch :=
  ((∅ : ExistingBatch).insert 100 ⟨⟨1, 6⟩, 0, false, 0, some 0⟩).insert 101 ⟨⟨1, 1⟩, 0, false, 0, some 0⟩

theorem twoRunning_fits : ∀ t, flashWeight (batchSlots twoRunning) t ≤ 8 := fun t => by
  have short : ∀ s ∈ batchSlots twoRunning, s.outputLen ≤ 6 := by decide
  have early : ∀ t < 7, flashWeight (batchSlots twoRunning) t ≤ 8 := by decide
  rcases Nat.lt_or_ge t 7 with small | big
  · exact early t small
  · rw [flashWeight_of_forall_lt fun s hs => by have := short s hs; omega]
    exact Nat.zero_le _

/-- Two waiting requests under a weight limit of `8`: five input tokens and one output
token, then one and one. -/
def besideTwoRunning : State :=
  ((State.new ⟨10, 8, 0⟩).append ⟨⟨5, 1⟩, 0, false, 0, none⟩).append ⟨⟨1, 1⟩, 0, false, 0, none⟩

/-- Beside `twoRunning` the tree turns the first request away (`2 + 2 + 6 = 10` at step `1`)
and admits the second; the batch handed out fits with the running one. -/
theorem nextBatch_keeps_flash_fit_besideTwoRunning :
    (∀ p ∈ besideTwoRunning.entries, p.2.disconnected = false) ∧
      (∀ p ∈ besideTwoRunning.entries, p.2.generatedTokens = 0) ∧
      (twoRunning.keys ++ waitingIds besideTwoRunning.entries).Nodup ∧
      besideTwoRunning.config.weightLimit < flashBatch.computeStats twoRunning ∧
      (∀ t, flashWeight (batchSlots twoRunning) t ≤ besideTwoRunning.config.weightLimit) ∧
      ∃ s' nb, besideTwoRunning.nextBatch flashBatch (some twoRunning) 0 = .ok (s', some twoRunning, some nb) ∧
        ∀ t, flashWeight (batchSlots twoRunning ++ nb.2.requests.map fun r => ⟨r.maxNewTokens, r.truncate, r.id⟩) t ≤
          besideTwoRunning.config.weightLimit :=
  ⟨by decide, by decide, by decide, by decide, twoRunning_fits, _, _, rfl,
    @nextBatch_keeps_flash_fit besideTwoRunning _ twoRunning _ 0 _ (by decide) (by decide) (by decide) (by decide)
      twoRunning_fits rfl⟩

end TgiRouter
