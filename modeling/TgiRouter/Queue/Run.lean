import TgiRouter.Queue.NextBatch

/-!
# Runs of the queue task

The queue task applies `append` and `next_batch` commands to one `State`, in the order
they arrive, while clients may drop their receivers at any time. `Reachable B config s
batches n` says that `s` is reached from `State::new` with the batches `batches`
returned so far after `n` appends; every `next_batch` call may pass any running batch at
any instant, and a call that panics ends the run.

`QueueInv` is the id discipline of the queue together with the counters that keep it:
`next_id` counts the appends, and `next_batch_id` plus the number of waiting entries
never passes `next_id`, since every batch takes at least one waiting entry. Each command
keeps it (`QueueInv.append`, `QueueInv.cancel`, and `QueueInv.nextBatch` through
`QueueInv.shrink` and `QueueInv.handOut`), so every run with fewer than `2^64` appends
keeps `IdsFresh` (`reachable_idsFresh`): neither `u64` counter wraps.
-/

namespace TgiRouter

/-- A client dropping the receiver of the waiting entry queued under `id`: from then on
`is_disconnected` answers `true` for it. -/
def State.cancel (s : State) (id : Nat) : State :=
  { s with
    entries := s.entries.map fun p => if p.1 = id then (p.1, { p.2 with disconnected := true }) else p }

/-- The states of the queue task, with the batches returned so far and the number of
appends. Appended entries have no batch time, as `Infer::generate_stream` builds them. -/
inductive Reachable (B : BatchType) (config : BatchingConfig) : State → List Batch → Nat → Prop
  | new : Reachable B config (State.new config) [] 0
  | append {s : State} {batches : List Batch} {n : Nat} (entry : Entry) :
      entry.batchTime = none → Reachable B config s batches n →
      Reachable B config (s.append entry) batches (n + 1)
  | nextBatch {s s' : State} {batches : List Batch} {n : Nat}
      {existing existing' : Option ExistingBatch} {now : Nat} {r : Option NextBatch} :
      Reachable B config s batches n → s.nextBatch B existing now = .ok (s', existing', r) →
      Reachable B config s' (batches ++ r.toList.map Prod.snd) n
  | cancel {s : State} {batches : List Batch} {n : Nat} (id : Nat) :
      Reachable B config s batches n → Reachable B config (s.cancel id) batches n

/-- The ids of waiting entries. -/
def waitingIds (entries : List (Nat × Entry)) : List Nat := entries.map Prod.fst

/-- The ids of the requests of every batch, in order. -/
def batchedIds (batches : List Batch) : List Nat := batches.flatMap fun b => b.requests.map Request.id

/-- The id discipline of the queue: waiting ids increase along the queue, stay below
`next_id` and belong to entries with no batch time; no waiting id was handed out in a
batch; no id is handed out twice, in one batch or in two; batch ids increase. -/
structure IdsFresh (s : State) (batches : List Batch) : Prop where
  waitingSorted : (waitingIds s.entries).Pairwise (· < ·)
  waitingBelow : ∀ p ∈ s.entries, p.1 < s.nextId
  waitingUnbatched : ∀ p ∈ s.entries, p.2.batchTime = none
  waitingNotBatched : ∀ id ∈ batchedIds batches, id ∉ waitingIds s.entries
  batchedNodup : (batchedIds batches).Nodup
  batchIdsSorted : (batches.map Batch.id).Pairwise (· < ·)

/-- `IdsFresh` with the counters that keep it. -/
structure QueueInv (s : State) (batches : List Batch) (n : Nat) extends IdsFresh s batches : Prop where
  nextIdCount : s.nextId = n
  batchedBelow : ∀ id ∈ batchedIds batches, id < s.nextId
  batchIdBelow : ∀ b ∈ batches, b.id < s.nextBatchId
  budget : s.nextBatchId + s.entries.length ≤ s.nextId

@[simp] theorem waitingIds_append (l m : List (Nat × Entry)) :
    waitingIds (l ++ m) = waitingIds l ++ waitingIds m := List.map_append _ _ _

@[simp] theorem batchedIds_append (l m : List Batch) :
    batchedIds (l ++ m) = batchedIds l ++ batchedIds m := List.flatMap_append _ _ _

theorem mem_waitingIds {entries : List (Nat × Entry)} {id : Nat} :
    id ∈ waitingIds entries ↔ ∃ e, (id, e) ∈ entries := by
  simp [waitingIds]

/-- Taking entries out of a queue with distinct ids: the ids taken are distinct and none
of them is left behind. -/
theorem waitingIds_split {taken left mid : List (Nat × Entry)} (perm : (taken ++ left).Perm mid)
    (nodup : (waitingIds mid).Nodup) :
    (waitingIds taken).Nodup ∧ ∀ id ∈ waitingIds taken, id ∉ waitingIds left := by
  have := (perm.map Prod.fst).nodup_iff.mpr nodup
  rw [List.map_append, List.nodup_append] at this
  exact ⟨this.1, fun id h h' => this.2.2 h h'⟩

namespace QueueInv

variable {config : BatchingConfig} {s : State} {batches : List Batch} {n : Nat}

theorem new : QueueInv (State.new config) [] 0 where
  waitingSorted := List.Pairwise.nil
  waitingBelow := by simp [State.new]
  waitingUnbatched := by simp [State.new]
  waitingNotBatched := by simp [batchedIds]
  batchedNodup := List.nodup_nil
  batchIdsSorted := List.Pairwise.nil
  nextIdCount := rfl
  batchedBelow := by simp [batchedIds]
  batchIdBelow := by simp
  budget := le_rfl

/-- `append` queues its entry under `next_id`, which is above every id seen so far. -/
theorem append (inv : QueueInv s batches n) (bound : n + 1 < 2 ^ 64) {entry : Entry}
    (unbatched : entry.batchTime = none) : QueueInv (s.append entry) batches (n + 1) := by
  have count := inv.nextIdCount
  have next : (s.nextId + 1) % 2 ^ 64 = n + 1 := by rw [count]; exact Nat.mod_eq_of_lt bound
  have fresh : ∀ p ∈ s.entries, p.1 < s.nextId := inv.waitingBelow
  refine ⟨⟨?_, ?_, ?_, ?_, inv.batchedNodup, inv.batchIdsSorted⟩, next, ?_, inv.batchIdBelow, ?_⟩
  · simp only [State.append, waitingIds_append]
    refine List.pairwise_append.mpr ⟨inv.waitingSorted, by simp [waitingIds], ?_⟩
    simp only [waitingIds, List.map_cons, List.map_nil, List.mem_singleton, List.mem_map]
    rintro _ ⟨p, hp, rfl⟩ _ rfl
    exact fresh p hp
  · simp only [State.append, next, List.mem_append, List.mem_singleton]
    rintro p (hp | rfl)
    · have := fresh p hp; omega
    · simp [count]
  · simp only [State.append, List.mem_append, List.mem_singleton]
    rintro p (hp | rfl)
    · exact inv.waitingUnbatched p hp
    · exact unbatched
  · intro id hid
    simp only [State.append, waitingIds_append, List.mem_append, not_or]
    refine ⟨inv.waitingNotBatched id hid, ?_⟩
    simp only [waitingIds, List.map_cons, List.map_nil, List.mem_singleton]
    exact (inv.batchedBelow id hid).ne
  · simp only [State.append, next]
    intro id hid
    have := inv.batchedBelow id hid
    omega
  · simp only [State.append, next, List.length_append, List.length_singleton]
    have := inv.budget
    omega

@[simp] theorem waitingIds_cancel (s : State) (id : Nat) :
    waitingIds (s.cancel id).entries = waitingIds s.entries := by
  simp only [State.cancel, waitingIds, List.map_map]
  congr 1
  funext p
  simp only [Function.comp]
  split <;> rfl

/-- A dropped receiver changes no id and no batch time. -/
theorem cancel (inv : QueueInv s batches n) (id : Nat) : QueueInv (s.cancel id) batches n := by
  have keeps : ∀ p ∈ (s.cancel id).entries, ∃ q ∈ s.entries, q.1 = p.1 ∧ q.2.batchTime = p.2.batchTime := by
    simp only [State.cancel, List.mem_map]
    rintro _ ⟨q, hq, rfl⟩
    exact ⟨q, hq, by split <;> rfl, by split <;> rfl⟩
  refine ⟨⟨by simpa using inv.waitingSorted, fun p hp => ?_, fun p hp => ?_,
    by simpa using inv.waitingNotBatched, inv.batchedNodup, inv.batchIdsSorted⟩,
    inv.nextIdCount, inv.batchedBelow, inv.batchIdBelow, by simpa [State.cancel] using inv.budget⟩
  · obtain ⟨q, hq, hid, -⟩ := keeps p hp
    exact hid ▸ inv.waitingBelow q hq
  · obtain ⟨q, hq, -, htime⟩ := keeps p hp
    exact htime ▸ inv.waitingUnbatched q hq

theorem batchedIds_singleton_taken (id : Nat) (taken : List (Nat × Entry)) (size : Nat) :
    batchedIds [⟨id, taken.map (fun p => p.2.toRequest p.1), size⟩] = waitingIds taken := by
  simp [batchedIds, waitingIds, Function.comp_def]

/-- A call that hands out nothing only shrinks the queue. -/
theorem shrink (inv : QueueInv s batches n) {s' : State} (sub : s'.entries.Sublist s.entries)
    (nextId : s'.nextId = s.nextId) (batchId : s'.nextBatchId = s.nextBatchId) : QueueInv s' batches n := by
  have subIds : (waitingIds s'.entries).Sublist (waitingIds s.entries) := sub.map _
  refine ⟨⟨inv.waitingSorted.sublist subIds, fun p hp => nextId ▸ inv.waitingBelow p (sub.subset hp),
    fun p hp => inv.waitingUnbatched p (sub.subset hp),
    fun id hid hw => inv.waitingNotBatched id hid (subIds.subset hw),
    inv.batchedNodup, inv.batchIdsSorted⟩, nextId.trans inv.nextIdCount,
    fun id hid => nextId ▸ inv.batchedBelow id hid, fun b hb => batchId ▸ inv.batchIdBelow b hb, ?_⟩
  have := inv.budget
  have := sub.length_le
  omega

/-- A call that takes entries out of the queue hands them out under the next batch id;
every batch takes at least one entry, so `next_batch_id` stays below `next_id`. -/
theorem handOut (inv : QueueInv s batches n) (bound : n < 2 ^ 64) {s' : State} {mid taken : List (Nat × Entry)}
    (sub : mid.Sublist s.entries) (perm : (taken ++ s'.entries).Perm mid) (left : s'.entries.Sublist mid)
    (nonempty : taken ≠ []) (nextId : s'.nextId = s.nextId)
    (batchId : s'.nextBatchId = (s.nextBatchId + 1) % 2 ^ 64) (size : Nat) :
    QueueInv s' (batches ++ [⟨s.nextBatchId, taken.map (fun p => p.2.toRequest p.1), size⟩]) n := by
  have nodup : (waitingIds s.entries).Nodup := inv.waitingSorted.imp (fun lt => lt.ne)
  have leftIds : (waitingIds s'.entries).Sublist (waitingIds s.entries) := (left.trans sub).map _
  have midIds : (waitingIds mid).Sublist (waitingIds s.entries) := sub.map _
  obtain ⟨takenNodup, apart⟩ := waitingIds_split perm (nodup.sublist midIds)
  have takenWaiting : ∀ id ∈ waitingIds taken, id ∈ waitingIds s.entries := fun id hid =>
    midIds.subset ((perm.map Prod.fst).subset (by simp only [List.map_append]; exact List.mem_append_left _ hid))
  have lengths : taken.length + s'.entries.length ≤ s.entries.length := by
    have := perm.length_eq
    have := sub.length_le
    simp only [List.length_append] at *
    omega
  have someTaken : 0 < taken.length := List.length_pos.mpr nonempty
  have budget := inv.budget
  have count := inv.nextIdCount
  have noWrap : (s.nextBatchId + 1) % 2 ^ 64 = s.nextBatchId + 1 := Nat.mod_eq_of_lt (by omega)
  refine ⟨⟨inv.waitingSorted.sublist leftIds,
    fun p hp => nextId ▸ inv.waitingBelow p ((left.trans sub).subset hp),
    fun p hp => inv.waitingUnbatched p ((left.trans sub).subset hp), ?_, ?_, ?_⟩,
    nextId.trans count, ?_, ?_, ?_⟩
  · simp only [batchedIds_append, batchedIds_singleton_taken, List.mem_append]
    rintro id (hid | hid) hw
    · exact inv.waitingNotBatched id hid (leftIds.subset hw)
    · exact apart id hid hw
  · rw [batchedIds_append, batchedIds_singleton_taken, List.nodup_append]
    exact ⟨inv.batchedNodup, takenNodup, fun id hold htaken =>
      inv.waitingNotBatched id hold (takenWaiting id htaken)⟩
  · rw [List.map_append, List.pairwise_append]
    refine ⟨inv.batchIdsSorted, List.pairwise_singleton _ _, ?_⟩
    intro a ha b hb
    simp only [List.map_cons, List.map_nil, List.mem_singleton] at hb
    obtain ⟨old, hold, rfl⟩ := List.mem_map.mp ha
    exact hb ▸ inv.batchIdBelow old hold
  · simp only [batchedIds_append, batchedIds_singleton_taken, List.mem_append, nextId]
    rintro id (hid | hid)
    · exact inv.batchedBelow id hid
    · obtain ⟨e, he⟩ := mem_waitingIds.mp (takenWaiting id hid)
      exact inv.waitingBelow _ he
  · simp only [List.mem_append, List.mem_singleton, batchId, noWrap]
    rintro b (hb | rfl)
    · exact Nat.lt_succ_of_lt (inv.batchIdBelow b hb)
    · exact Nat.lt_succ_self _
  · rw [batchId, noWrap, nextId]
    omega

/-- `next_batch` either only shrinks the queue or hands out entries taken from it. -/
theorem nextBatch {B : BatchType} (inv : QueueInv s batches n) (bound : n < 2 ^ 64)
    {existing existing' : Option ExistingBatch} {now : Nat} {r : Option NextBatch} {s' : State}
    (h : s.nextBatch B existing now = .ok (s', existing', r)) :
    QueueInv s' (batches ++ r.toList.map Prod.snd) n := by
  obtain ⟨-, -, nextId, outcome⟩ := State.nextBatch_cases h
  rcases outcome with ⟨rfl, sub, batchId⟩ | ⟨mid, taken, sub, perm, left, nonempty, rfl, batchId⟩
  · simpa using inv.shrink sub nextId batchId
  · simpa using inv.handOut bound sub perm left nonempty nextId batchId _

end QueueInv

/-- Every state reached with fewer than `2^64` appends keeps `QueueInv`. -/
theorem reachable_queueInv {B : BatchType} {config : BatchingConfig} {s : State}
    {batches : List Batch} {n : Nat} (reach : Reachable B config s batches n) (bound : n < 2 ^ 64) :
    QueueInv s batches n := by
  induction reach with
  | new => exact QueueInv.new
  | append _ unbatched _ ih => exact (ih (by omega)).append bound unbatched
  | nextBatch _ h ih => exact (ih bound).nextBatch bound h
  | cancel id _ ih => exact (ih bound).cancel id

/-- Along every run of `append`, `next_batch` and dropped receivers with fewer than `2^64`
appends, the queue keeps its id discipline. -/
theorem reachable_idsFresh {B : BatchType} {config : BatchingConfig} {s : State}
    {batches : List Batch} {n : Nat} (reach : Reachable B config s batches n) (bound : n < 2 ^ 64) :
    IdsFresh s batches :=
  (reachable_queueInv reach bound).toIdsFresh

/-- Two appends of five input and five output tokens, then a call that batches both. -/
theorem idsFresh_after_first_batch :
    IdsFresh ⟨⟨10, 10, 0⟩, [], 2, 1, 0, 0, false⟩ [⟨0, [⟨0, 5, 5⟩, ⟨1, 5, 5⟩], 2⟩] :=
  reachable_idsFresh
    (@Reachable.nextBatch flashBatch ⟨10, 10, 0⟩ _ _ _ _ none _ 0 _
      ((Reachable.new.append ⟨⟨5, 5⟩, 0, false, 0, none⟩ rfl).append ⟨⟨5, 5⟩, 0, false, 0, none⟩ rfl)
      rfl)
    (by decide)

end TgiRouter
