import TgiRouter.Infer.Invariant

/-!
# The sizes the batching task asks for

Before each decode, `batching_task` asks the queue for at most
`max_batch_size - batch_size` more entries, a `usize` subtraction that wraps (or panics in
a debug build) when the cached batch is larger than `max_batch_size`. The queue never
hands out more than it is asked for, and `filter_send_generations` and `filter_batch` only
remove entries, so the task never holds more than `max_batch_size` entries
(`reachable_held_le`), and the subtraction never wraps (`reachable_extension_no_wrap`).
-/

namespace TgiRouter

/-! ## Handling a call only removes entries -/

section Removing

variable {clients : Clients}

/-- `filter_send_generations` keeps or removes entries; it adds none. -/
theorem filterSendGenerations_subset :
    ∀ (generations : List Generation) (entries : ExistingBatch) (ch : Channels) {entries' : ExistingBatch}
      {ch' : Channels}, filterSendGenerations clients generations entries ch = .ok (entries', ch') →
      ∀ k ∈ entries', k ∈ entries
  | [], _, _, _, _, h => by
    simp only [filterSendGenerations, Except.ok.injEq, Prod.mk.injEq] at h
    exact h.1 ▸ fun _ hk => hk
  | g :: rest, entries, ch, _, _, h => by
    unfold filterSendGenerations at h
    split at h
    · cases h
    split at h
    · cases h
    dsimp only at h
    split at h
    · exact fun k hk => (AList.mem_erase.mp (filterSendGenerations_subset rest _ _ h k hk)).2
    · exact filterSendGenerations_subset rest _ _ h

/-- A prefill or decode call keeps or removes entries; it adds none. -/
theorem handleAnswer_subset {filterAnswer : Nat → List Nat → Option CachedBatch} {answer : CallAnswer}
    {entries entries' : ExistingBatch} {ch ch' : Channels} {next : Option CachedBatch}
    (h : handleAnswer clients filterAnswer answer entries ch = .ok (next, entries', ch')) :
    ∀ k ∈ entries', k ∈ entries := by
  unfold handleAnswer at h
  split at h
  · split at h
    · cases h
    · simp only [Except.ok.injEq, Prod.mk.injEq] at h
      exact h.2.1 ▸ filterSendGenerations_subset _ _ _ ‹_›
  · simp only [Except.ok.injEq, Prod.mk.injEq] at h
    exact h.2.1 ▸ fun k hk => absurd hk (AList.not_mem_empty k)

end Removing

/-- An entry map with keys among another's has at most as many. -/
theorem keys_length_le_of_subset {entries entries' : ExistingBatch} (subset : ∀ k ∈ entries', k ∈ entries) :
    entries'.keys.length ≤ entries.keys.length :=
  (List.subperm_of_subset entries'.keys_nodup fun k hk =>
    AList.mem_keys.mp (subset k (AList.mem_keys.mpr hk))).length_le

/-- `entries.extend(new_entries)` holds at most the entries of both. -/
theorem keys_length_extendEntries_le (entries newEntries : ExistingBatch) :
    (extendEntries entries newEntries).keys.length ≤ entries.keys.length + newEntries.keys.length := by
  rw [← List.length_append]
  refine (List.subperm_of_subset (extendEntries entries newEntries).keys_nodup fun k hk => ?_).length_le
  rcases mem_extendEntries.mp (AList.mem_keys.mpr hk) with old | new
  · exact List.mem_append_left _ (AList.mem_keys.mp old)
  · exact List.mem_append_right _ (AList.mem_keys.mp new)

/-! ## The entries held stay within `max_batch_size` -/

section Sizes

variable {params : BatchingParams} {clients : Clients} {t : Task} {maxSize : Nat}

/-- `max_size - batch_size` as `usize`: the room left, when the batch fits. -/
theorem BatchingParams.extensionRequest_maxSize (limit : params.maxBatchSize = some maxSize) (word : maxSize < 2 ^ 64)
    {batch : CachedBatch} (fits : batch.size ≤ maxSize) (waitingTokens : Nat) :
    (params.extensionRequest batch waitingTokens).maxSize = some (maxSize - batch.size) := by
  simp only [BatchingParams.extensionRequest, limit, Option.map_some', Option.some.injEq]
  rw [show maxSize + 2 ^ 64 - batch.size = maxSize - batch.size + 2 ^ 64 by omega, Nat.add_mod_right,
    Nat.mod_eq_of_lt (by omega)]

/-- A batch handed out by the queue has at most the requested number of entries. -/
theorem QueueAnswerValid.keys_length_le {request : QueueRequest} {issued : List Nat} {entries : ExistingBatch}
    {batch : Batch} (valid : QueueAnswerValid request issued entries batch) {m : Nat}
    (bound : request.maxSize = some m) : entries.keys.length ≤ m := by
  rw [valid.keys.length_eq, List.length_map]
  exact valid.bounded m bound

/-- The entries a running task holds are the requests of its cached batch, counted by
`batch.size`. -/
theorem TaskInv.size_eq_of_running (inv : TaskInv t) {entries : ExistingBatch} {batch : CachedBatch} {waitingTokens : Nat}
    (running : t.phase = .running entries batch waitingTokens) : batch.size = entries.keys.length := by
  obtain ⟨perm, size⟩ := inv.running _ _ _ running
  rw [size, perm.length_eq]

/-- Every call keeps the entries held within `max_batch_size`. -/
theorem Step.held_le (limit : params.maxBatchSize = some maxSize) (word : maxSize < 2 ^ 64) {t' : Task}
    (inv : TaskInv t) (held : t.held.keys.length ≤ maxSize) (step : Step params clients t t') :
    t'.held.keys.length ≤ maxSize := by
  cases step with
  | @start entries _ answer filterAnswer idle queueValid =>
    have bound := queueValid.keys_length_le limit
    unfold Task.startBatch
    split
    · simp [Task.held]
    · rename_i batch entries' ch eq
      exact (keys_length_le_of_subset (handleAnswer_subset eq)).trans bound
    · simp [Task.held]
  | carryOn running =>
    simpa [Task.held, running] using held
  | @extend entries batch waitingTokens newEntries _ answer filterAnswer running queueValid =>
    have heldEq : t.held = entries := by simp [Task.held, running]
    have fits : batch.size ≤ maxSize := inv.size_eq_of_running running ▸ heldEq ▸ held
    have bound := queueValid.keys_length_le (BatchingParams.extensionRequest_maxSize limit word fits waitingTokens)
    unfold Task.extend
    split
    · simp [Task.held]
    · rename_i newBatch newEntries' ch eq
      have kept := keys_length_le_of_subset (handleAnswer_subset eq)
      have extended := keys_length_extendEntries_le entries newEntries'
      rw [heldEq] at held
      simp only [Task.held]
      rw [inv.size_eq_of_running running] at bound
      omega
    · simpa [Task.held, heldEq] using heldEq ▸ held
  | @decode entries _ waitingTokens answer filterAnswer decoding =>
    have heldEq : t.held = entries := by simp [Task.held, decoding]
    unfold Task.decode
    split
    · simp [Task.held]
    · rename_i batch entries' ch eq
      exact (keys_length_le_of_subset (handleAnswer_subset eq)).trans (heldEq ▸ held)
    · simp [Task.held]

end Sizes

/-- In every run of the batching task with `max_batch_size` set, the task never holds
more than `max_batch_size` entries. -/
theorem reachable_held_le {params : BatchingParams} {clients : Clients} {t : Task}
    (reach : t.Reachable params clients) {maxSize : Nat} (limit : params.maxBatchSize = some maxSize)
    (word : maxSize < 2 ^ 64) : t.held.keys.length ≤ maxSize := by
  induction reach with
  | refl => simp [Task.held, Task.init]
  | tail before step held => exact step.held_le limit word (reachable_taskInv before) held

/-- In every run of the batching task with `max_batch_size` set, whenever the task asks the
queue for more entries beside its cached batch, the batch fits under `max_batch_size`, so
`max_size - batch_size` does not wrap: the task asks for exactly the room left. -/
theorem reachable_extension_no_wrap {params : BatchingParams} {clients : Clients} {t : Task}
    (reach : t.Reachable params clients) {entries : ExistingBatch} {batch : CachedBatch} {waitingTokens : Nat}
    (running : t.phase = .running entries batch waitingTokens) {maxSize : Nat}
    (limit : params.maxBatchSize = some maxSize) (word : maxSize < 2 ^ 64) :
    batch.size ≤ maxSize ∧ (params.extensionRequest batch waitingTokens).maxSize = some (maxSize - batch.size) := by
  have held := reachable_held_le reach limit word
  have fits : batch.size ≤ maxSize := by
    rw [(reachable_taskInv reach).size_eq_of_running running]
    simpa [Task.held, running] using held
  exact ⟨fits, BatchingParams.extensionRequest_maxSize limit word fits waitingTokens⟩

/-- The parameters of `servedParams` with `max_batch_size` set to `4`. -/
def sizedParams : BatchingParams := ⟨10, 100, 20, some 4, fun _ => 0⟩

/-- The task once the prefill of `servedEntries` answered one `Intermediate` token: about
to ask the queue for more. -/
def servedRunning : Task :=
  ⟨.running servedEntries servedCache 1, ⟨[(0, .delivered (.ok (.intermediate servedToken [])))], 2⟩, [0]⟩

theorem servedRunning_reachable : servedRunning.Reachable sizedParams servedClients := by
  have timed : ∀ k e, servedEntries.lookup k = some e → e.batchTime.isSome := fun k e found => by
    by_cases k0 : k = 0
    · subst k0; cases found; rfl
    · rw [servedEntries, AList.lookup_insert_ne k0] at found
      cases found
  have queueValid : QueueAnswerValid sizedParams.firstRequest Task.init.issued servedEntries servedBatch :=
    ⟨.refl _, fun _ _ => List.not_mem_nil _, timed, fun _ four => by cases four; decide⟩
  have valid : AnswerValid true (servedBatch.requests.map Request.id)
      (.ok ([servedGeneration], some servedCache)) :=
    ⟨.refl _, by simp [servedGeneration, Generation.WellFormed], .refl _, rfl⟩
  exact .single (@Step.start sizedParams servedClients Task.init servedEntries servedBatch _ keepIds rfl
    queueValid valid fun _ _ => ⟨_, rfl, rfl, rfl⟩)

/-- With one request running under `max_batch_size = 4`, the task asks for `3` more. -/
theorem reachable_extension_no_wrap_servedRunning :
    servedRunning.Reachable sizedParams servedClients ∧
      servedRunning.phase = .running servedEntries servedCache 1 ∧ sizedParams.maxBatchSize = some 4 ∧
      4 < 2 ^ 64 ∧ servedCache.size ≤ 4 ∧
      (sizedParams.extensionRequest servedCache 1).maxSize = some (4 - servedCache.size) :=
  ⟨servedRunning_reachable, rfl, rfl, by decide,
    reachable_extension_no_wrap servedRunning_reachable rfl rfl (by decide)⟩

end TgiRouter
