import Mathlib.Algebra.Group.Nat.Basic
import Mathlib.Data.List.AList

/-!
# Queue entries, batches and the batching configuration

The data that `router/src/queue.rs` moves between the waiting queue and the batches it
hands to the batching task. Instants are counted in nanoseconds, and `usize`, `u32`
lengths are natural numbers: request lengths are validated far below `2^32` before they
reach the queue. The two `u64` counters of the queue are kept modulo `2^64` where
`State` increments them (`TgiRouter/Queue/State.lean`).

Tracing spans and the sampling parameters a `Request` copies out of its entry are not
modelled: no function of the queue reads them.
-/

namespace TgiRouter

/-- `Duration::from_secs(1)`, in nanoseconds. -/
def oneSecond : Nat := 1000000000

/-- `MAX_WAITING_DURATION`: how long the head of the queue may wait before the minimum
size of an add-on batch is ignored. -/
def maxWaitingDuration : Nat := oneSecond

/-- `CUTOFF_DURATION`: how much later than a skipped entry a smaller one may have
arrived and still jump ahead of it. -/
def cutoffDuration : Nat := oneSecond

/-- `ValidGenerateRequest`, reduced to the two lengths the queue reads: `truncate` and
`stopping_parameters.max_new_tokens`. -/
structure ValidGenerateRequest where
  truncate : Nat
  maxNewTokens : Nat
  deriving DecidableEq, Repr

/-- `queue::Entry`. `disconnected` is what `response_tx.is_disconnected()` answers while
a call of `next_batch` runs: the client may drop its receiver between calls. -/
structure Entry where
  request : ValidGenerateRequest
  generatedTokens : Nat
  disconnected : Bool
  queueTime : Nat
  batchTime : Option Nat
  deriving DecidableEq, Repr

/-- `IntMap<u64, V>`: every key at most once. -/
abbrev IntMap (V : Type) := AList (fun _ : Nat => V)

/-- The map of entries of a running batch. -/
abbrev ExistingBatch := IntMap Entry

/-- `IntMap::len`. -/
def IntMap.len {V : Type} (m : IntMap V) : Nat := m.entries.length

/-- `IntMap::is_empty`. -/
def IntMap.isEmpty {V : Type} (m : IntMap V) : Bool := m.entries.isEmpty

/-- `text_generation_client::Request`, as `next_batch` fills it from an entry. -/
structure Request where
  id : Nat
  truncate : Nat
  maxNewTokens : Nat
  deriving DecidableEq, Repr

/-- `text_generation_client::Batch`. -/
structure Batch where
  id : Nat
  requests : List Request
  size : Nat
  deriving DecidableEq, Repr

/-- `NextBatch` without its span: the entries of the new batch, and the batch. -/
abbrev NextBatch := ExistingBatch × Batch

/-- `BatchingConfig`. -/
structure BatchingConfig where
  sizeLimit : Nat
  weightLimit : Nat
  prefillWeightLimit : Nat
  deriving DecidableEq, Repr

/-- The `Request` that `next_batch` builds for the entry queued under `id`. -/
def Entry.toRequest (id : Nat) (e : Entry) : Request :=
  ⟨id, e.request.truncate, e.request.maxNewTokens⟩

@[simp] theorem Entry.toRequest_id (id : Nat) (e : Entry) : (e.toRequest id).id = id := rfl

@[simp] theorem IntMap.len_empty {V : Type} : (∅ : IntMap V).len = 0 := rfl

theorem IntMap.isEmpty_iff {V : Type} (m : IntMap V) : m.isEmpty = true ↔ m.len = 0 := by
  simp [IntMap.isEmpty, IntMap.len, List.isEmpty_iff]

/-! ## Filling an entry map one insert at a time -/

theorem lookup_foldl_insert {k : Nat} {e : Entry} :
    ∀ (l : List (Sigma fun _ : Nat => Entry)) (m : ExistingBatch),
      (l.foldl (fun m e => m.insert e.1 e.2) m).lookup k = some e → m.lookup k = some e ∨ ⟨k, e⟩ ∈ l
  | [], _, h => .inl h
  | p :: l, m, h => by
    rcases lookup_foldl_insert l _ h with h | h
    · by_cases same : k = p.1
      · subst same
        rw [AList.lookup_insert, Option.some.injEq] at h
        subst h
        exact .inr (List.mem_cons_self _ _)
      · exact .inl (by rwa [AList.lookup_insert_ne same] at h)
    · exact .inr (List.mem_cons_of_mem _ h)

theorem mem_foldl_insert {k : Nat} :
    ∀ (l : List (Sigma fun _ : Nat => Entry)) (m : ExistingBatch),
      k ∈ l.foldl (fun m e => m.insert e.1 e.2) m ↔ k ∈ m ∨ k ∈ l.map Sigma.fst
  | [], _ => by simp
  | p :: l, m => by
    rw [List.foldl_cons, mem_foldl_insert l, AList.mem_insert, List.map_cons, List.mem_cons]
    tauto

theorem keys_foldl_insert_perm :
    ∀ (l : List (Sigma fun _ : Nat => Entry)) (m : ExistingBatch), (l.map Sigma.fst).Nodup →
      (∀ k ∈ l.map Sigma.fst, k ∉ m) →
      (l.foldl (fun m e => m.insert e.1 e.2) m).keys.Perm (m.keys ++ l.map Sigma.fst)
  | [], m, _, _ => by simp
  | p :: l, m, nodup, fresh => by
    rw [List.map_cons, List.nodup_cons] at nodup
    have freshP : p.1 ∉ m := fresh p.1 (List.mem_cons_self _ _)
    have step := keys_foldl_insert_perm l (m.insert p.1 p.2) nodup.2 fun k hk hm => by
      rcases (AList.mem_insert _).mp hm with rfl | hm
      · exact nodup.1 hk
      · exact fresh k (List.mem_cons_of_mem _ hk) hm
    rw [List.foldl_cons]
    refine step.trans ?_
    rw [AList.keys_insert, List.erase_of_not_mem (fun h => freshP (AList.mem_keys.mpr h)), List.map_cons]
    exact List.perm_middle.symm

end TgiRouter
