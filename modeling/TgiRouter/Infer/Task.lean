import TgiRouter.Infer.Generations
import TgiRouter.Queue.Run

/-!
# The batching task

`batching_task` in `router/src/infer.rs` is one loop: take a batch from the queue and
prefill it, then decode the cached batch over and over, taking more entries from the
queue before each decode when it has some. A `Task` stops at the three places where the
loop calls out:

* `idle`: waiting for work, about to call `next_batch(None, ...)`;
* `running`: in the inner loop with a cached batch, about to ask the queue for more;
* `decoding`: about to call `decode` on the batches gathered.

`Step` has one constructor per call, with the answer of the queue or of the backend as an
argument and what the task assumes of it as a premise. `infer.rs` calls a `next_batch`
with a minimum and a maximum size and two token budgets, which `queue.rs` does not have:
`QueueAnswerValid` is what the batching task relies on its queue for, and
`nextBatch_answer_valid` shows that the queue of `queue.rs` gives it, with `size_limit`
in place of the maximum size. `issued` records the ids the queue has handed out; the task
itself does not keep it. A call of `next_batch` that hands out nothing leaves the task
where it is and is not a step.
-/

namespace TgiRouter

/-- The arguments of `batching_task` that shape its calls. `servedFloor` is
`(batch_size as f32 * waiting_served_ratio).floor() as usize`, float arithmetic the model
takes as given. -/
structure BatchingParams where
  maxBatchPrefillTokens : Nat
  maxBatchTotalTokens : Nat
  maxWaitingTokens : Nat
  maxBatchSize : Option Nat
  servedFloor : Nat → Nat

/-- The arguments of a `queue.next_batch` call. -/
structure QueueRequest where
  minSize : Option Nat
  maxSize : Option Nat
  prefillTokenBudget : Nat
  tokenBudget : Nat
  deriving DecidableEq, Repr

namespace BatchingParams

variable (params : BatchingParams)

/-- `next_batch(None, max_batch_size, max_batch_prefill_tokens, max_batch_total_tokens)`. -/
def firstRequest : QueueRequest :=
  ⟨none, params.maxBatchSize, params.maxBatchPrefillTokens, params.maxBatchTotalTokens⟩

/-- The request for more entries beside the cached `batch`: no minimum size once
`max_waiting_tokens` steps passed without new entries, room up to `max_batch_size`
(`usize` subtraction, wrapping), and the tokens left under `max_batch_total_tokens`. -/
def extensionRequest (batch : CachedBatch) (waitingTokens : Nat) : QueueRequest where
  minSize := if params.maxWaitingTokens ≤ waitingTokens then none else some (params.servedFloor batch.size)
  maxSize := params.maxBatchSize.map fun maxSize => (maxSize + 2 ^ 64 - batch.size) % 2 ^ 64
  prefillTokenBudget := params.maxBatchPrefillTokens
  tokenBudget := params.maxBatchTotalTokens - batch.maxTokens

end BatchingParams

/-- Where the batching task stands. -/
inductive Phase where
  | idle
  | running (entries : ExistingBatch) (batch : CachedBatch) (waitingTokens : Nat)
  | decoding (entries : ExistingBatch) (batches : List CachedBatch) (waitingTokens : Nat)
  | panicked (message : String)

/-- The batching task with its channels, and the ids the queue has handed out so far. -/
structure Task where
  phase : Phase
  channels : Channels
  issued : List Nat

/-- Before any call. -/
def Task.init : Task := ⟨.idle, ⟨[], 0⟩, []⟩

/-- The entries the task holds. -/
def Task.held (t : Task) : ExistingBatch :=
  match t.phase with
  | .running entries _ _ => entries
  | .decoding entries _ _ => entries
  | _ => ∅

/-- What the batching task relies on the queue for: a batch of at most the requested
size, whose entry map holds exactly its requests, under ids never handed out before, each
entry with its batch time set. -/
structure QueueAnswerValid (request : QueueRequest) (issued : List Nat) (entries : ExistingBatch)
    (batch : Batch) : Prop where
  keys : entries.keys.Perm (batch.requests.map Request.id)
  fresh : ∀ k ∈ entries, k ∉ issued
  timed : ∀ k e, entries.lookup k = some e → e.batchTime.isSome
  bounded : ∀ m, request.maxSize = some m → batch.requests.length ≤ m

/-- The queue of `router/src/queue.rs` answers as the batching task assumes: along a run
with fewer than `2^64` appends, a batch handed out holds its requests' entries, under ids
no earlier batch had, each with its batch time, and fits beside the running batch under
`size_limit`. -/
theorem nextBatch_answer_valid {B : BatchType} {config : BatchingConfig} {s s' : State}
    {batches : List Batch} {n : Nat} (reach : Reachable B config s batches n) (bound : n < 2 ^ 64)
    {existingOpt existingOpt' : Option ExistingBatch} {now : Nat} {entries : ExistingBatch} {batch : Batch}
    (h : s.nextBatch B existingOpt now = .ok (s', existingOpt', some (entries, batch))) {request : QueueRequest}
    (sized : ∀ m, request.maxSize = some m → s.config.sizeLimit - (existingOpt.getD ∅).len ≤ m) :
    QueueAnswerValid request (batchedIds batches) entries batch := by
  have fresh := (reachable_queueInv reach bound).toIdsFresh
  have size := State.nextBatch_size_le h
  obtain ⟨-, -, -, ⟨none, -⟩ | ⟨mid, taken, sub, perm, -, -, eq, -⟩⟩ := State.nextBatch_cases h
  · cases none
  simp only [Option.some.injEq, Prod.mk.injEq] at eq
  obtain ⟨rfl, rfl⟩ := eq
  have nodup : (waitingIds s.entries).Nodup := fresh.waitingSorted.imp (fun lt => lt.ne)
  have midIds : (waitingIds mid).Sublist (waitingIds s.entries) := sub.map _
  obtain ⟨takenNodup, -⟩ := waitingIds_split perm (nodup.sublist midIds)
  have keys : (batchEntries now taken).keys.Perm (waitingIds taken) := keys_batchEntries_perm takenNodup
  refine ⟨by simpa [List.map_map, Function.comp_def] using keys, fun k hk batched => ?_,
    fun k e found => by simp [(lookup_batchEntries found).1], fun m hm => ?_⟩
  · have popped : k ∈ waitingIds (taken ++ s'.entries) := by
      rw [waitingIds_append]; exact List.mem_append_left _ (keys.subset (AList.mem_keys.mpr hk))
    exact fresh.waitingNotBatched k batched (midIds.subset ((perm.map Prod.fst).subset popped))
  · have := sized m hm
    simp only [List.length_map] at size ⊢
    omega

/-- The first call on `twoHalves`, asked for at most `10` entries, answers as the task assumes. -/
theorem nextBatch_answer_valid_twoHalves :
    Reachable flashBatch ⟨10, 10, 0⟩ twoHalves [] 2 ∧ 2 < 2 ^ 64 ∧
      ∃ s' entries batch, twoHalves.nextBatch flashBatch none 0 = .ok (s', none, some (entries, batch)) ∧
        QueueAnswerValid ⟨none, some 10, 0, 0⟩ (batchedIds []) entries batch :=
  have reach : Reachable flashBatch ⟨10, 10, 0⟩ twoHalves [] 2 := (Reachable.new.append _ rfl).append _ rfl
  ⟨reach, by decide, _, _, _, rfl, @nextBatch_answer_valid flashBatch _ twoHalves _ [] 2 reach (by decide) none none 0
    _ _ rfl ⟨none, some 10, 0, 0⟩ fun _ ten => by cases ten; decide⟩

/-- `entries.extend(new_entries)`. -/
def extendEntries (entries newEntries : ExistingBatch) : ExistingBatch :=
  newEntries.entries.foldl (fun m e => m.insert e.1 e.2) entries

namespace Task

section Transitions

variable (clients : Clients) (filterAnswer : Nat → List Nat → Option CachedBatch)
  (answer : CallAnswer) (t : Task)

/-- The body of the outer loop once the queue handed out `entries`: the prefill, then
the inner loop on the cached batch, or the entries dropped when there is none. -/
def startBatch (entries : ExistingBatch) : Task :=
  match handleAnswer clients filterAnswer answer entries t.channels with
  | .error message => { t with phase := .panicked message }
  | .ok (some batch, entries, ch) => { t with phase := .running entries batch 1, channels := ch }
  | .ok (none, entries, ch) => { t with phase := .idle, channels := dropAll clients entries ch }

/-- The prefill of entries handed out beside the cached `batch`: merged into what is
decoded when it yields a cached batch, dropped otherwise; the waiting counter restarts. -/
def extend (entries : ExistingBatch) (batch : CachedBatch) (newEntries : ExistingBatch) : Task :=
  match handleAnswer clients filterAnswer answer newEntries t.channels with
  | .error message => { t with phase := .panicked message }
  | .ok (some newBatch, newEntries, ch) =>
    { t with phase := .decoding (extendEntries entries newEntries) [batch, newBatch] 1, channels := ch }
  | .ok (none, newEntries, ch) =>
    { t with phase := .decoding entries [batch] 1, channels := dropAll clients newEntries ch }

/-- A decode call: the inner loop goes on with the cached batch, or ends, and the entries
left are dropped with the body of the outer loop. -/
def decode (entries : ExistingBatch) (waitingTokens : Nat) : Task :=
  match handleAnswer clients filterAnswer answer entries t.channels with
  | .error message => { t with phase := .panicked message }
  | .ok (some batch, entries, ch) =>
    { t with phase := .running entries batch (waitingTokens + 1), channels := ch }
  | .ok (none, entries, ch) => { t with phase := .idle, channels := dropAll clients entries ch }

end Transitions

end Task

/-- One call of the batching task, with any answer the queue and a backend may give. -/
inductive Step (params : BatchingParams) (clients : Clients) : Task → Task → Prop
  | start {t : Task} {entries : ExistingBatch} {batch : Batch} {answer : CallAnswer}
      {filterAnswer : Nat → List Nat → Option CachedBatch} :
      t.phase = .idle → QueueAnswerValid params.firstRequest t.issued entries batch →
      AnswerValid true (batch.requests.map Request.id) answer → FilterValid filterAnswer →
      Step params clients t
        ({ t with issued := t.issued ++ entries.keys }.startBatch clients filterAnswer answer entries)
  | carryOn {t : Task} {entries : ExistingBatch} {batch : CachedBatch} {waitingTokens : Nat} :
      t.phase = .running entries batch waitingTokens →
      Step params clients t { t with phase := .decoding entries [batch] waitingTokens }
  | extend {t : Task} {entries : ExistingBatch} {batch : CachedBatch} {waitingTokens : Nat}
      {newEntries : ExistingBatch} {newBatch : Batch} {answer : CallAnswer}
      {filterAnswer : Nat → List Nat → Option CachedBatch} :
      t.phase = .running entries batch waitingTokens →
      QueueAnswerValid (params.extensionRequest batch waitingTokens) t.issued newEntries newBatch →
      AnswerValid true (newBatch.requests.map Request.id) answer → FilterValid filterAnswer →
      Step params clients t
        ({ t with issued := t.issued ++ newEntries.keys }.extend clients filterAnswer answer entries batch
          newEntries)
  | decode {t : Task} {entries : ExistingBatch} {batches : List CachedBatch} {waitingTokens : Nat}
      {answer : CallAnswer} {filterAnswer : Nat → List Nat → Option CachedBatch} :
      t.phase = .decoding entries batches waitingTokens →
      AnswerValid false (batches.flatMap CachedBatch.requestIds) answer → FilterValid filterAnswer →
      Step params clients t (t.decode clients filterAnswer answer entries waitingTokens)

/-- The states a run of the batching task can reach. -/
def Task.Reachable (params : BatchingParams) (clients : Clients) (t : Task) : Prop :=
  Relation.ReflTransGen (Step params clients) Task.init t

end TgiRouter
