import TgiRouter.Queue.BatchType

/-!
# The queue state and `next_batch`

`State` is `queue::State` without its tracing and its constant empty map. `State.append`
and `State.nextBatch` are the two commands the queue task serialises. `nextBatch` is
`State::next_batch` phase by phase:

* `State.resetCursor`, `State.pruneFront`, `State.skipsScan`: the size limit, the cursor
  reset, the loop that pops cancelled entries off the front, and the early return when no
  new entry can be added to a running batch;
* `scanLoop` over `scanEntry`: the read-only pass over the queue from the cursor, with
  every variable of the Rust loop in a `Scan` record; `scanEntry` answers `.stop` where
  the loop breaks;
* `State.emitBatch`: dropping the cancelled entries (`dropIndices`), the two returns
  without a batch, and popping the chosen entries (`popChosen`).

A panic (`VecDeque::range` past the end, `expect("bug")`) is an `.error`. The clock is
read once per call (`now`). `u64` counters wrap at `2^64`, the `u32` batch size at
`2^32`.
-/

namespace TgiRouter

/-- `queue::State`. -/
structure State where
  config : BatchingConfig
  entries : List (Nat × Entry)
  nextId : Nat
  nextBatchId : Nat
  lastSeenBatchSize : Nat
  checkedRequestCount : Nat
  bufferContentsInsufficient : Bool
  deriving DecidableEq, Repr

namespace State

/-- `State::new`. -/
def new (config : BatchingConfig) : State := ⟨config, [], 0, 0, 0, 0, false⟩

/-- `State::append`: the entry is queued under the next id. -/
def append (s : State) (entry : Entry) : State :=
  { s with entries := s.entries ++ [(s.nextId, entry)], nextId := (s.nextId + 1) % 2 ^ 64 }

/-- `State::next_entry_waiting_too_long`. -/
def nextEntryWaitingTooLong (s : State) (now : Nat) : Bool :=
  match s.entries with
  | (_, e) :: _ => decide (maxWaitingDuration < now - e.queueTime)
  | [] => false

/-- Reset the count of checked requests if the size of the running batch changed. -/
def resetCursor (s : State) (totalCount : Nat) : State :=
  if totalCount ≠ s.lastSeenBatchSize then
    { s with checkedRequestCount := 0, lastSeenBatchSize := totalCount }
  else s

end State

/-- The `while` loop popping cancelled entries off the front of the queue; each one
resets the count of checked requests. -/
def pruneCancelled : List (Nat × Entry) → Nat → List (Nat × Entry) × Nat
  | (id, e) :: rest, checked =>
    if e.disconnected then pruneCancelled rest 0 else ((id, e) :: rest, checked)
  | [], checked => ([], checked)

/-- `State.pruneFront`: the front of the queue after `pruneCancelled`. -/
def State.pruneFront (s : State) : State :=
  let pruned := pruneCancelled s.entries s.checkedRequestCount
  { s with entries := pruned.1, checkedRequestCount := pruned.2 }

/-- The early return of a call with a running batch: no entry past the cursor, or a
buffer already found too small while its head is still fresh. -/
def State.skipsScan (s : State) (existing : ExistingBatch) (now : Nat) : Bool :=
  !existing.isEmpty &&
    (decide (s.entries.length ≤ s.checkedRequestCount) ||
      s.bufferContentsInsufficient && !s.nextEntryWaitingTooLong now)

/-! ## The scan -/

/-- The variables of the scan loop of `next_batch`. -/
structure Scan (B : BatchType) where
  queueIndex : Nat
  checkedUpToIndex : Nat
  chosenIndices : List Nat
  indicesToDrop : List Nat
  btree : Option Tree
  timeCutoff : Option Nat
  hitPrefillWeightLimit : Bool
  batchStats : B.Stats
  prefillStats : B.Stats
  totalCount : Nat

/-- `continue` and `break` of a loop body. -/
inductive LoopFlow (α : Type) where
  | next : α → LoopFlow α
  | stop : α → LoopFlow α

/-- The variables before the loop, with the cursor at `checkedUpToIndex`. -/
def Scan.init (B : BatchType) (existing : ExistingBatch) (checkedUpToIndex : Nat) : Scan B where
  queueIndex := checkedUpToIndex
  checkedUpToIndex := checkedUpToIndex
  chosenIndices := []
  indicesToDrop := []
  btree := none
  timeCutoff := none
  hitPrefillWeightLimit := false
  batchStats := B.computeStats existing
  prefillStats := B.default
  totalCount := existing.len

/-- The tuple of an entry of the running batch: what it may still generate, and its input
grown by what it generated. -/
def Entry.batchSlot (id : Nat) (e : Entry) : Slot :=
  ⟨e.request.maxNewTokens - e.generatedTokens, e.request.truncate + e.generatedTokens, id⟩

/-- The `get_or_insert_with` closure: a tree of every existing entry, then of every
entry chosen so far. `unwrap` cannot fail there, since a chosen index is a scanned
position (`TgiRouter/Queue/Scan.lean`); `filterMap` stands for it. -/
def initTree (existing : ExistingBatch) (queue : List (Nat × Entry)) (chosen : List Nat) : Tree :=
  ((existing.entries.map fun e => (e.1, e.2)) ++ chosen.filterMap fun i => queue[i]?).foldl
    (fun t p => t.insert (p.2.batchSlot p.1)) Tree.empty

section ScanStep

variable (B : BatchType) (config : BatchingConfig) (existing : ExistingBatch)
  (queue : List (Nat × Entry))

/-- Skipping the entry: `time_cutoff.get_or_insert_with(...)`, then `continue`. -/
def Scan.skip (acc : Scan B) (entry : Entry) (btree : Option Tree) : Scan B :=
  { acc with btree := btree, timeCutoff := some (acc.timeCutoff.getD (entry.queueTime + cutoffDuration)) }

/-- The prefill check and the commit of a candidate that passed the weight check,
`btree` as that check left it. -/
def Scan.admit (acc : Scan B) (entry : Entry) (slot : Slot) (nextStats : B.Stats)
    (btree : Option Tree) : LoopFlow (Scan B) :=
  let commit (acc : Scan B) : LoopFlow (Scan B) :=
    let acc := { acc with
      btree := btree
      batchStats := nextStats
      chosenIndices := acc.chosenIndices ++ [acc.queueIndex - 1]
      totalCount := acc.totalCount + 1 }
    if config.sizeLimit ≤ acc.totalCount then .stop acc else .next acc
  if 0 < config.prefillWeightLimit then
    let nextPrefillStats := B.updateStats acc.prefillStats entry.request.truncate 0
    if config.prefillWeightLimit < B.prefillWeight nextPrefillStats (acc.chosenIndices.length + 1)
    then .next { acc.skip B entry (btree.map (·.erase slot)) with
      hitPrefillWeightLimit := acc.hitPrefillWeightLimit || btree.isSome }
    else commit { acc with prefillStats := nextPrefillStats }
  else commit acc

/-- One pass of the scan loop over the entry queued under `entryId`. -/
def scanEntry (acc : Scan B) (entryId : Nat) (entry : Entry) : LoopFlow (Scan B) :=
  if acc.timeCutoff.any (fun t => decide (t < entry.queueTime)) then .stop acc else
  let acc := { acc with queueIndex := acc.queueIndex + 1 }
  if entry.disconnected then .next { acc with indicesToDrop := acc.indicesToDrop ++ [acc.queueIndex] }
  else
  let acc := { acc with checkedUpToIndex := acc.checkedUpToIndex + 1 }
  let slot : Slot := ⟨entry.request.maxNewTokens, entry.request.truncate, entryId⟩
  let nextStats := B.updateStats acc.batchStats entry.request.truncate entry.request.maxNewTokens
  if config.weightLimit < B.batchWeight acc.batchStats (acc.totalCount + 1) then
    let tree := (acc.btree.getD (initTree existing queue acc.chosenIndices)).insert slot
    if B.exceedsWeight tree config.weightLimit entry.request.maxNewTokens then
      .next (acc.skip B entry (some (tree.erase slot)))
    else acc.admit B config entry slot nextStats (some tree)
  else acc.admit B config entry slot nextStats (acc.btree.map (·.insert slot))

/-- The scan loop over the queue from the cursor. -/
def scanLoop : List (Nat × Entry) → Scan B → Scan B
  | [], acc => acc
  | (entryId, entry) :: rest, acc =>
    match scanEntry B config existing queue acc entryId entry with
    | .next acc => scanLoop rest acc
    | .stop acc => acc

end ScanStep

/-! ## Building the batch -/

/-- Removing `indices_to_drop` one after the other; `VecDeque::remove` past the end does
nothing. -/
def dropIndices (queue : List (Nat × Entry)) (indices : List Nat) : List (Nat × Entry) :=
  indices.foldl List.eraseIdx queue

/-- `self.entries.remove(index - i).expect("bug")` for the `i`-th chosen index: the
queue left and the entries taken, in order. -/
def popChosen : List Nat → Nat → List (Nat × Entry) →
    Except String (List (Nat × Entry) × List (Nat × Entry))
  | [], _, queue => .ok (queue, [])
  | index :: rest, i, queue =>
    match queue[index - i]? with
    | none => .error "bug"
    | some p =>
      match popChosen rest (i + 1) (queue.eraseIdx (index - i)) with
      | .error e => .error e
      | .ok (left, taken) => .ok (left, p :: taken)

/-- `batch_entries`: every taken entry, with `batch_time` set, inserted under its id. -/
def batchEntries (now : Nat) (taken : List (Nat × Entry)) : ExistingBatch :=
  taken.foldl (fun m p => m.insert p.1 { p.2 with batchTime := some now }) ∅

namespace State

variable (B : BatchType)

/-- `next_batch` after the scan. -/
def emitBatch (s : State) (existingOpt : Option ExistingBatch) (existing : ExistingBatch)
    (scan : Scan B) (now : Nat) : Except String (State × Option ExistingBatch × Option NextBatch) :=
  let s := { s with entries := dropIndices s.entries scan.indicesToDrop }
  if scan.chosenIndices.isEmpty then
    .ok ({ s with checkedRequestCount := scan.checkedUpToIndex }, existingOpt, none)
  else
  let s := { s with checkedRequestCount := 0 }
  if !scan.hitPrefillWeightLimit && !existing.isEmpty && !s.nextEntryWaitingTooLong now &&
      decide (B.batchWeight scan.batchStats scan.totalCount < s.config.weightLimit / 2) then
    let s' := { s with checkedRequestCount := scan.checkedUpToIndex, bufferContentsInsufficient := true }
    .ok (s', existingOpt, none)
  else
  match popChosen scan.chosenIndices 0 s.entries with
  | .error e => .error e
  | .ok (left, taken) =>
    let requests := taken.map fun p => p.2.toRequest p.1
    let s' := { s with
      entries := left
      nextBatchId := (s.nextBatchId + 1) % 2 ^ 64
      bufferContentsInsufficient := false }
    .ok (s', existingOpt, some (batchEntries now taken, ⟨s.nextBatchId, requests, requests.length % 2 ^ 32⟩))

/-- `State::next_batch`. -/
def nextBatch (s : State) (existingOpt : Option ExistingBatch) (now : Nat) :
    Except String (State × Option ExistingBatch × Option NextBatch) :=
  let existing := existingOpt.getD ∅
  if s.config.sizeLimit ≤ existing.len then .ok (s, existingOpt, none) else
  let s := (s.resetCursor existing.len).pruneFront
  if s.skipsScan existing now then .ok (s, existingOpt, none) else
  if s.entries.length < s.checkedRequestCount then .error "range start index out of range" else
  let scan := scanLoop B s.config existing s.entries (s.entries.drop s.checkedRequestCount)
    (Scan.init B existing s.checkedRequestCount)
  s.emitBatch B existingOpt existing scan now

end State

end TgiRouter
