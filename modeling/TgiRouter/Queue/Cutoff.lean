import TgiRouter.Queue.NextBatch

/-!
# The time cutoff of `next_batch`

When the scan of `State::next_batch` rejects a candidate, by the weight check or by the
prefill check, it sets `time_cutoff` with `get_or_insert_with`: the first rejection fixes
it at that candidate's `queue_time + CUTOFF_DURATION`, and the loop breaks at the first
entry queued after it. An entry chosen behind a rejected candidate was therefore queued at
most `CUTOFF_DURATION` after the first rejected one, and, when queue times do not decrease
along the queue, at most that long after every rejected candidate before it.

* `scanRejected` lists the positions a scan examined and passed over, neither choosing
  them nor recording them for dropping: exactly the candidates the weight check or the
  prefill check rejected (`scanEntry_rejects_iff`).
* `scanEntry_cutoff` says what one pass does to `time_cutoff`.
* `CutoffInv` is the loop invariant, kept by each pass (`CutoffInv.pass`) and so by the
  whole loop (`scanLoop_cutoffInv`).
* `nextBatch_within_cutoff` reads it off a call that hands out a batch, on a queue of
  live entries in queue order. With no drops, the batch is made of the entries at the
  chosen positions (`popChosen_taken`).
-/

namespace TgiRouter

/-! ## Rejected candidates -/

/-- Whether a pass went on past the entry at `acc.queueIndex` without choosing it or
recording it for dropping: the weight check or the prefill check rejected it. -/
def LoopFlow.rejects {B : BatchType} (acc : Scan B) : LoopFlow (Scan B) → Bool
  | .next a => decide (a.chosenIndices = acc.chosenIndices) && decide (a.indicesToDrop = acc.indicesToDrop)
  | .stop _ => false

section Rejections

variable (B : BatchType) (config : BatchingConfig) (existing : ExistingBatch)
  (queue : List (Nat × Entry))

/-- The positions of the candidates the scan loop rejected, in the order it examined them. -/
def scanRejected : List (Nat × Entry) → Scan B → List Nat
  | [], _ => []
  | (entryId, entry) :: rest, acc =>
    let flow := scanEntry B config existing queue acc entryId entry
    (if flow.rejects acc then [acc.queueIndex] else []) ++
      match flow with
      | .next a => scanRejected rest a
      | .stop _ => []

end Rejections

/-- The positions of the candidates the scan of a call of `next_batch` rejected. -/
def State.callRejected (B : BatchType) (s : State) (existingOpt : Option ExistingBatch) : List Nat :=
  let existing := existingOpt.getD ∅
  let s := (s.resetCursor existing.len).pruneFront
  scanRejected B s.config existing s.entries (s.entries.drop s.checkedRequestCount)
    (Scan.init B existing s.checkedRequestCount)

/-! ## One pass -/

section Pass

variable {B : BatchType} {config : BatchingConfig} {existing : ExistingBatch}
  {queue : List (Nat × Entry)}

@[simp] theorem LoopFlow.rejects_stop (acc a : Scan B) : (LoopFlow.stop a).rejects acc = false := rfl

theorem LoopFlow.chosen_of_rejects {acc : Scan B} {flow : LoopFlow (Scan B)} (h : flow.rejects acc = true) :
    flow.val.chosenIndices = acc.chosenIndices := by
  cases flow <;> simp_all [LoopFlow.rejects]

/-- The prefill check installs the cutoff exactly when it rejects; a commit leaves it. -/
theorem Scan.admit_cutoff {acc : Scan B} {e : Entry} {slot : Slot} {nextStats : B.Stats}
    {btree : Option Tree} {flow : LoopFlow (Scan B)}
    (h : acc.admit B config e slot nextStats btree = flow) :
    flow.val.timeCutoff = if flow.rejects acc then some (acc.timeCutoff.getD (e.queueTime + cutoffDuration))
      else acc.timeCutoff := by
  rcases Scan.admit_inv h with ⟨-, -, a, rfl, -, chosen, drops, -, cutoff⟩ |
    ⟨-, a, flow, -, chosen, -, -, cutoff⟩
  · simp [LoopFlow.rejects, chosen, drops, cutoff]
  · rcases flow with ⟨-, rfl⟩ | ⟨-, rfl⟩ <;> simp [LoopFlow.rejects, chosen, cutoff]

/-- What one pass does to `time_cutoff`: it breaks on the cutoff with nothing changed, or
the entry is within the cutoff, and the cutoff is installed (`get_or_insert_with`) exactly
when the pass rejects the entry, and left as it was otherwise. -/
theorem scanEntry_cutoff {acc : Scan B} {id : Nat} {e : Entry} {flow : LoopFlow (Scan B)}
    (h : scanEntry B config existing queue acc id e = flow) :
    flow = .stop acc ∨
      (∀ t, acc.timeCutoff = some t → e.queueTime ≤ t) ∧
        flow.val.timeCutoff = if flow.rejects acc then some (acc.timeCutoff.getD (e.queueTime + cutoffDuration))
          else acc.timeCutoff := by
  rcases scanEntry_inv h with ⟨-, rfl⟩ | ⟨within, ⟨-, a, rfl, -, -, drops, -, cutoff⟩ |
    ⟨-, ⟨-, -, a, rfl, -, chosen, drops, -, cutoff⟩ | ⟨-, btree, admitted⟩⟩⟩
  · exact .inl rfl
  · exact .inr ⟨within, by simp [LoopFlow.rejects, drops, cutoff]⟩
  · exact .inr ⟨within, by simp [LoopFlow.rejects, chosen, drops, cutoff]⟩
  · refine .inr ⟨within, ?_⟩
    have admitted := Scan.admit_cutoff admitted
    cases flow <;> simpa [LoopFlow.rejects] using admitted

/-- A pass rejects its entry exactly when the entry is within the cutoff and live, and either
the weight check rejects it (`batch_weight` over the limit and the tree overflowing) or
the prefill check does. -/
theorem scanEntry_rejects_iff {acc : Scan B} {id : Nat} {e : Entry} :
    (scanEntry B config existing queue acc id e).rejects acc = true ↔
      (∀ t, acc.timeCutoff = some t → e.queueTime ≤ t) ∧ e.disconnected = false ∧
        (config.weightLimit < B.batchWeight acc.batchStats (acc.totalCount + 1) ∧
            B.exceedsWeight ((acc.btree.getD (initTree existing queue acc.chosenIndices)).insert
              ⟨e.request.maxNewTokens, e.request.truncate, id⟩) config.weightLimit e.request.maxNewTokens ∨
          0 < config.prefillWeightLimit ∧
            config.prefillWeightLimit <
              B.prefillWeight (B.updateStats acc.prefillStats e.request.truncate 0) (acc.chosenIndices.length + 1)) := by
  rcases scanEntry_inv (rfl : scanEntry B config existing queue acc id e = _) with
    ⟨cutoff, flow⟩ | ⟨within, ⟨dropped, a, flow, -, -, drops, -⟩ |
      ⟨live, ⟨heavy, exceeds, a, flow, -, chosen, drops, -⟩ | ⟨passed, btree, admitted⟩⟩⟩
  · -- the loop breaks on the cutoff
    rw [flow, LoopFlow.rejects_stop, Bool.false_eq_true, false_iff]
    rintro ⟨within, -⟩
    rcases set : acc.timeCutoff with _ | t <;> simp only [set, Option.any_none, Option.any_some,
      Bool.false_eq_true, decide_eq_true_eq] at cutoff
    exact absurd (within t set) (Nat.not_le.mpr cutoff)
  · -- a cancelled entry is recorded for dropping
    simp [flow, LoopFlow.rejects, drops, dropped]
  · -- the weight check rejects
    rw [flow]
    simp only [LoopFlow.rejects, chosen, drops, decide_True, Bool.and_self, true_iff]
    exact ⟨within, live, .inl ⟨heavy, exceeds⟩⟩
  · rcases Scan.admit_inv admitted with ⟨pos, over, a, flow, -, chosen, drops, -⟩ |
      ⟨fits, a, flow, -, chosen, -⟩
    · -- the prefill check rejects
      rw [flow]
      simp only [LoopFlow.rejects, chosen, drops, decide_True, Bool.and_self, true_iff]
      exact ⟨within, live, .inr ⟨pos, over⟩⟩
    · -- the entry is committed
      have committed : (scanEntry B config existing queue acc id e).rejects acc = false := by
        rcases flow with ⟨-, flow⟩ | ⟨-, flow⟩ <;> simp [flow, LoopFlow.rejects, chosen]
      rw [committed, Bool.false_eq_true, false_iff]
      rintro ⟨-, -, weight | prefill⟩
      exacts [passed weight, fits prefill]

end Pass

/-! ## The loop invariant -/

/-- What the scan keeps true of the rejected positions `rejected` and of its variables
`acc`, over `queue`. -/
structure CutoffInv {B : BatchType} (queue : List (Nat × Entry)) (rejected : List Nat) (acc : Scan B) :
    Prop where
  /-- The entries chosen so far stand before the current position. -/
  chosen_lt : ∀ c ∈ acc.chosenIndices, c < acc.queueIndex
  /-- So do the rejected candidates. -/
  rejected_lt : ∀ x ∈ rejected, x < acc.queueIndex
  /-- Once a candidate is rejected the cutoff is set, no later than its queue time plus
  `CUTOFF_DURATION`. -/
  rejected_cutoff : ∀ x ∈ rejected, ∀ r, queue[x]? = some r →
    ∃ t, acc.timeCutoff = some t ∧ t ≤ r.2.queueTime + cutoffDuration
  /-- The cutoff is no later than the queue time of an entry still to come, plus
  `CUTOFF_DURATION`. -/
  cutoff_ahead : ∀ t, acc.timeCutoff = some t → ∀ q u, acc.queueIndex ≤ q → queue[q]? = some u →
    t ≤ u.2.queueTime + cutoffDuration
  /-- An entry chosen behind a rejected candidate was queued at most `CUTOFF_DURATION`
  after it. -/
  within : ∀ x ∈ rejected, ∀ c ∈ acc.chosenIndices, x < c → ∀ r u, queue[x]? = some r →
    queue[c]? = some u → u.2.queueTime ≤ r.2.queueTime + cutoffDuration

section Loop

variable {B : BatchType} {config : BatchingConfig} {existing : ExistingBatch}
  {queue : List (Nat × Entry)}

/-- Queue times do not decrease along a queue sorted by them. -/
theorem queueTime_le_of_sorted (sorted : (queue.map fun p => p.2.queueTime).Sorted (· ≤ ·))
    {p q : Nat} {P Q : Nat × Entry} (le : p ≤ q) (hp : queue[p]? = some P) (hq : queue[q]? = some Q) :
    P.2.queueTime ≤ Q.2.queueTime := by
  rcases le.lt_or_eq with lt | rfl
  · obtain ⟨bp, rfl⟩ := List.getElem?_eq_some_iff.mp hp
    obtain ⟨bq, rfl⟩ := List.getElem?_eq_some_iff.mp hq
    have ordered := List.pairwise_iff_getElem.mp sorted p q (by simpa using bp) (by simpa using bq) lt
    rwa [List.getElem_map, List.getElem_map] at ordered
  · rw [hp] at hq
    cases hq
    exact le_rfl

/-- Before the loop nothing is chosen or rejected, and no cutoff is set. -/
theorem CutoffInv.init (c : Nat) : CutoffInv queue [] (Scan.init B existing c) where
  chosen_lt := by simp
  rejected_lt := by simp
  rejected_cutoff := by simp
  cutoff_ahead := by simp [Scan.init]
  within := by simp

/-- One pass over the entry at the current position keeps the invariant, with the position
added to the rejected ones when the pass rejects it. -/
theorem CutoffInv.pass {R : List Nat} {acc : Scan B} {id : Nat} {e : Entry} {flow : LoopFlow (Scan B)}
    (inv : CutoffInv queue R acc) (sorted : (queue.map fun p => p.2.queueTime).Sorted (· ≤ ·))
    (here : queue[acc.queueIndex]? = some (id, e)) (h : scanEntry B config existing queue acc id e = flow) :
    CutoffInv queue (R ++ if flow.rejects acc then [acc.queueIndex] else []) flow.val := by
  rcases scanEntry_cases h with rfl | ⟨index, chosen, -⟩
  · simpa using inv
  rcases scanEntry_cutoff h with rfl | ⟨reached, cutoff⟩
  · simpa using inv
  have behind : ∀ x, x ≤ acc.queueIndex → x < flow.val.queueIndex := fun x le => index ▸ Nat.lt_succ_of_le le
  have grown : ∀ c ∈ flow.val.chosenIndices, c ∈ acc.chosenIndices ∨ c = acc.queueIndex := by
    intro c hc
    rcases chosen with same | ⟨-, grown⟩
    · exact .inl (same ▸ hc)
    · simpa [grown] using hc
  -- the cutoff a rejection of this entry installs bounds it and every entry after it
  have installed : ∀ q u, acc.queueIndex ≤ q → queue[q]? = some u →
      acc.timeCutoff.getD (e.queueTime + cutoffDuration) ≤ u.2.queueTime + cutoffDuration := by
    intro q u le found
    cases set : acc.timeCutoff with
    | none => simpa using queueTime_le_of_sorted sorted le here found
    | some t => exact inv.cutoff_ahead t set q u le found
  cases rejects : flow.rejects acc
  · simp only [rejects, Bool.false_eq_true, if_false] at cutoff
    simp only [Bool.false_eq_true, if_false, List.append_nil]
    refine ⟨fun c hc => behind c ?_, fun x hx => behind x (inv.rejected_lt x hx).le,
      by simpa only [cutoff] using inv.rejected_cutoff, ?_, ?_⟩
    · rcases grown c hc with hc | rfl
      exacts [(inv.chosen_lt c hc).le, le_rfl]
    · rw [cutoff, index]
      exact fun t ht q u le => inv.cutoff_ahead t ht q u (by omega)
    · intro x hx c hc lt r u found chosenAt
      rcases grown c hc with hc | rfl
      · exact inv.within x hx c hc lt r u found chosenAt
      · rw [here] at chosenAt
        cases chosenAt
        obtain ⟨t, set, bound⟩ := inv.rejected_cutoff x hx r found
        exact (reached t set).trans bound
  · have same := LoopFlow.chosen_of_rejects rejects
    simp only [rejects, if_true] at cutoff ⊢
    refine ⟨fun c hc => behind c (inv.chosen_lt c (same ▸ hc)).le, ?_, ?_, ?_, ?_⟩
    · simp only [List.mem_append, List.mem_singleton]
      rintro x (hx | rfl)
      exacts [behind x (inv.rejected_lt x hx).le, behind _ le_rfl]
    · simp only [cutoff, List.mem_append, List.mem_singleton, Option.some.injEq, exists_eq_left']
      rintro x (hx | rfl) r found
      · obtain ⟨t, set, bound⟩ := inv.rejected_cutoff x hx r found
        simpa [set] using bound
      · exact installed _ r le_rfl found
    · simp only [cutoff, index, Option.some.injEq]
      rintro t rfl q u le found
      exact installed q u (by omega) found
    · simp only [same, List.mem_append, List.mem_singleton]
      rintro x (hx | rfl) c hc lt
      · exact inv.within x hx c hc lt
      · exact absurd lt (Nat.lt_asymm (inv.chosen_lt c hc))

/-- The whole loop from the current position keeps the invariant, with every candidate it
rejects added. -/
theorem scanLoop_cutoffInv (sorted : (queue.map fun p => p.2.queueTime).Sorted (· ≤ ·)) :
    ∀ (l : List (Nat × Entry)) (acc : Scan B) (R : List Nat), l = queue.drop acc.queueIndex →
      CutoffInv queue R acc →
        CutoffInv queue (R ++ scanRejected B config existing queue l acc) (scanLoop B config existing queue l acc)
  | [], acc, R, _, inv => by simpa [scanRejected, scanLoop] using inv
  | (id, e) :: rest, acc, R, aligned, inv => by
    have here : queue[acc.queueIndex]? = some (id, e) := by
      rw [← Nat.add_zero acc.queueIndex, ← List.getElem?_drop, ← aligned, List.getElem?_cons_zero]
    have step := inv.pass sorted here (rfl : scanEntry B config existing queue acc id e = _)
    simp only [scanLoop, scanRejected]
    rcases flow : scanEntry B config existing queue acc id e with a | a <;> rw [flow] at step
    · have index : a.queueIndex = acc.queueIndex + 1 := by
        rcases scanEntry_cases flow with stop | ⟨index, -⟩
        · cases stop
        · exact index
      rw [← List.append_assoc]
      refine scanLoop_cutoffInv sorted rest a _ ?_ step
      rw [index, ← List.tail_drop, ← aligned, List.tail_cons]
    · simpa using step

end Loop

/-! ## A call of `next_batch` -/

/-- On a queue of live entries whose queue times do not decrease along the queue, a call
of `next_batch` that hands out a batch builds it from the entries at the positions its scan
chose, and every entry it chose behind a candidate it rejected was queued at most
`CUTOFF_DURATION` after that candidate. -/
theorem nextBatch_within_cutoff (B : BatchType) {s s' : State}
    {existingOpt existingOpt' : Option ExistingBatch} {now : Nat} {nb : NextBatch}
    (live : ∀ p ∈ s.entries, p.2.disconnected = false)
    (sorted : (s.entries.map fun p => p.2.queueTime).Sorted (· ≤ ·))
    (h : s.nextBatch B existingOpt now = .ok (s', existingOpt', some nb)) :
    nb.1 = batchEntries now ((s.callScan B existingOpt).chosenIndices.filterMap fun i => s.entries[i]?) ∧
      nb.2.requests = ((s.callScan B existingOpt).chosenIndices.filterMap fun i => s.entries[i]?).map
        (fun p => p.2.toRequest p.1) ∧
      ∀ a ∈ s.callRejected B existingOpt, ∀ b ∈ (s.callScan B existingOpt).chosenIndices, a < b →
        ∀ rejected taken, s.entries[a]? = some rejected → s.entries[b]? = some taken →
          taken.2.queueTime ≤ rejected.2.queueTime + cutoffDuration := by
  obtain ⟨-, range, left, taken, popped, entries, requests⟩ := State.nextBatch_some h
  set t := (s.resetCursor (existingOpt.getD ∅).len).pruneFront
  -- the call scans the queue as it is: no entry is cancelled
  have front : t.entries = s.entries := by simp [t, pruneCancelled_of_live live]
  have drops : (s.callScan B existingOpt).indicesToDrop = [] :=
    scanLoop_drop_of_live _ _ fun p hp => live p (front ▸ List.mem_of_mem_drop hp)
  have fits : (Scan.init B (existingOpt.getD ∅) t.checkedRequestCount).queueIndex +
      (t.entries.drop t.checkedRequestCount).length ≤ t.entries.length := by
    simp only [Scan.init, List.length_drop]
    omega
  have increasing : (s.callScan B existingOpt).chosenIndices.Pairwise (· < ·) :=
    (scanLoop_chosen_bounded _ _ fits List.Pairwise.nil (by simp)).1
  have takenEq := popChosen_taken popped increasing fun c _ => Nat.zero_le c
  simp only [drops, dropIndices_nil, Nat.sub_zero, front] at takenEq
  rw [← takenEq]
  refine ⟨entries, requests, ?_⟩
  rw [← front] at sorted
  have inv : CutoffInv t.entries (s.callRejected B existingOpt) (s.callScan B existingOpt) :=
    scanLoop_cutoffInv sorted _ (Scan.init B _ t.checkedRequestCount) [] rfl (CutoffInv.init _)
  rw [front] at inv
  exact inv.within

/-- Two waiting requests, the first with an input of `100` tokens under a prefill weight
limit of `50`, the second queued `5` ns later. -/
def rejectedHead : State :=
  ((State.new ⟨10, 1000, 50⟩).append ⟨⟨100, 1⟩, 0, false, 0, none⟩).append ⟨⟨1, 1⟩, 0, false, 5, none⟩

/-- The prefill check rejects the head, and the call hands out the second request, chosen
behind it. -/
theorem nextBatch_within_cutoff_rejectedHead :
    (∀ p ∈ rejectedHead.entries, p.2.disconnected = false) ∧
      (rejectedHead.entries.map fun p => p.2.queueTime).Sorted (· ≤ ·) ∧
      rejectedHead.callRejected flashBatch none = [0] ∧
      (rejectedHead.callScan flashBatch none).chosenIndices = [1] ∧
      ∃ s' nb, rejectedHead.nextBatch flashBatch none 0 = .ok (s', none, some nb) ∧
        ∀ a ∈ rejectedHead.callRejected flashBatch none, ∀ b ∈ (rejectedHead.callScan flashBatch none).chosenIndices,
          a < b → ∀ rejected taken, rejectedHead.entries[a]? = some rejected →
            rejectedHead.entries[b]? = some taken → taken.2.queueTime ≤ rejected.2.queueTime + cutoffDuration :=
  ⟨by decide, by decide, rfl, rfl, _, _, rfl,
    (@nextBatch_within_cutoff flashBatch rejectedHead _ none _ 0 _ (by decide) (by decide) rfl).2.2⟩

end TgiRouter
