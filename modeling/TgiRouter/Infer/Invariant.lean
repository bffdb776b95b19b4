import TgiRouter.Infer.Task

/-!
# What every run of the batching task keeps

`TaskInv` holds in every reachable state (`reachable_taskInv`):

* the task has not panicked;
* a cached batch about to be extended holds exactly the entries' requests, and the
  batches about to be decoded together hold exactly the entries' requests, once each;
* every entry held was handed out by the queue, has its batch time, and its channel is
  still served (`HeldOk`);
* every other request's channel is released once the request was handed out, and
  untouched before (`ReleasedOk`).

Each call is one application of `HeldOk.call`: `handleAnswer_spec` on the entries the
call handles, with the other entries held left as they are (`HeldOk.afterHandled`).

## Main results

Both are read off `TaskInv` at the end of the module:

* after every prefill or decode call the cached batch holds exactly the entries left,
  and before every decode call the batches passed hold exactly the entries' requests,
  once each. A request dropped because its receiver closed is cut out of the cache by the
  call that saw the closure;
* the task never panics, and every channel follows the protocol. A held entry was
  handed out and its channel has seen `Prefill?` `Intermediate*`. A request handed out
  and no longer held has seen that, then one `End` or `Err` and the drop, or a drop after
  its receiver closed. A request never handed out has seen nothing. No message follows
  an `End` or `Err`.

Both hold for any queue and backend that answer as `QueueAnswerValid`, `AnswerValid` and
`FilterValid` say, whatever the clients do.
-/

namespace TgiRouter

/-- The entries held: each handed out, with its batch time, its channel still served. -/
def HeldOk (issued : List Nat) (ch : Channels) (entries : ExistingBatch) : Prop :=
  ∀ k e, entries.lookup k = some e → k ∈ issued ∧ e.batchTime.isSome ∧ OpenAt ch k

/-- The channels of the requests not held: released once handed out, untouched before. -/
def ReleasedOk (held : Nat → Prop) (issued : List Nat) (ch : Channels) : Prop :=
  ∀ k, ¬ held k → (k ∈ issued → channelRun (eventsOf k ch.log) = some .released) ∧
    (k ∉ issued → eventsOf k ch.log = [])

theorem HeldOk.empty (issued : List Nat) (ch : Channels) : HeldOk issued ch ∅ :=
  fun _ _ h => by simp [AList.lookup] at h

theorem HeldOk.opened {issued : List Nat} {ch : Channels} {entries : ExistingBatch}
    (heldOk : HeldOk issued ch entries) {k : Nat} (mem : k ∈ entries) : OpenAt ch k := by
  obtain ⟨e, found⟩ := Option.isSome_iff_exists.mp (AList.lookup_isSome.mpr mem)
  exact (heldOk k e found).2.2

theorem HeldOk.issued {issued : List Nat} {ch : Channels} {entries : ExistingBatch}
    (heldOk : HeldOk issued ch entries) {k : Nat} (mem : k ∈ entries) : k ∈ issued := by
  obtain ⟨e, found⟩ := Option.isSome_iff_exists.mp (AList.lookup_isSome.mpr mem)
  exact (heldOk k e found).1

theorem ReleasedOk.of_iff {held held' : Nat → Prop} {issued : List Nat} {ch : Channels}
    (releasedOk : ReleasedOk held issued ch) (same : ∀ k, held' k ↔ held k) :
    ReleasedOk held' issued ch :=
  fun k out => releasedOk k fun h => out ((same k).mpr h)

theorem not_mem_of_keys_nil {entries : ExistingBatch} (empty : entries.keys = []) (k : Nat) :
    k ∉ entries := by
  simp [AList.mem_keys, empty]

/-! ## Handing out and handling entries -/

/-- Entries handed out by the queue join the task with fresh channels. -/
theorem HeldOk.issue {issued : List Nat} {ch : Channels} {keep entries : ExistingBatch}
    {request : QueueRequest} {batch : Batch} (heldOk : HeldOk issued ch keep)
    (releasedOk : ReleasedOk (· ∈ keep) issued ch) (valid : QueueAnswerValid request issued entries batch) :
    HeldOk (issued ++ entries.keys) ch keep ∧ HeldOk (issued ++ entries.keys) ch entries ∧
      ReleasedOk (fun k => k ∈ keep ∨ k ∈ entries) (issued ++ entries.keys) ch ∧
      (∀ k ∈ entries, eventsOf k ch.log = []) ∧ ∀ k ∈ keep, k ∉ entries := by
  have silent : ∀ k ∈ entries, eventsOf k ch.log = [] :=
    fun k hk => (releasedOk k fun held => valid.fresh k hk (heldOk.issued held)).2 (valid.fresh k hk)
  refine ⟨fun k e h => ?_, fun k e h => ?_, fun k out => ?_, silent,
    fun k hk hk' => valid.fresh k hk' (heldOk.issued hk)⟩
  · obtain ⟨issuedK, timed, opened⟩ := heldOk k e h
    exact ⟨List.mem_append_left _ issuedK, timed, opened⟩
  · have mem := mem_of_lookup_eq_some h
    refine ⟨List.mem_append_right _ (AList.mem_keys.mp mem), valid.timed k e h, .fresh, ?_, .inl rfl⟩
    rw [silent k mem]; rfl
  · rw [not_or] at out
    have notNew : k ∉ entries.keys := fun h => out.2 (AList.mem_keys.mpr h)
    obtain ⟨released, silent'⟩ := releasedOk k out.1
    exact ⟨fun h => released ((List.mem_append.mp h).resolve_right notNew),
      fun h => silent' fun h' => h (List.mem_append_left _ h')⟩

/-- Handling a call on the entries `part`, beside entries `keep` it does not touch. -/
theorem HeldOk.afterHandled {issued : List Nat} {ch ch' : Channels} {keep part part' : ExistingBatch}
    (keepOk : HeldOk issued ch keep) (partOk : HeldOk issued ch part)
    (releasedOk : ReleasedOk (fun k => k ∈ keep ∨ k ∈ part) issued ch)
    (disjoint : ∀ k ∈ keep, k ∉ part) (handled : Handled part part' ch ch') :
    HeldOk issued ch' keep ∧ HeldOk issued ch' part' ∧
      ReleasedOk (fun k => k ∈ keep ∨ k ∈ part') issued ch' := by
  refine ⟨fun k e h => ?_, fun k e h => ?_, fun k out => ?_⟩
  · obtain ⟨issuedK, timed, opened⟩ := keepOk k e h
    refine ⟨issuedK, timed, ?_⟩
    simpa [OpenAt, handled.others k (disjoint k (mem_of_lookup_eq_some h))] using opened
  · obtain ⟨issuedK, timed, -⟩ := partOk k e (handled.kept k e h)
    exact ⟨issuedK, timed, handled.keptOpen k (mem_of_lookup_eq_some h)⟩
  · rw [not_or] at out
    by_cases inPart : k ∈ part
    · exact ⟨fun _ => handled.released k inPart out.2, fun h => absurd (partOk.issued inPart) h⟩
    · rw [handled.others k inPart]
      exact releasedOk k (not_or.mpr ⟨out.1, inPart⟩)

/-- A prefill or decode call on the entries `part`, beside entries `keep` it does not
touch: it never panics, the cached batch it keeps matches the entries left, and the
entries held and the channels keep their shape. -/
theorem HeldOk.call (clients : Clients) {filterAnswer : Nat → List Nat → Option CachedBatch}
    {fromPrefill : Bool} {answer : CallAnswer} {issued : List Nat} {ch : Channels}
    {keep part : ExistingBatch} (keepOk : HeldOk issued ch keep) (partOk : HeldOk issued ch part)
    (releasedOk : ReleasedOk (fun k => k ∈ keep ∨ k ∈ part) issued ch) (disjoint : ∀ k ∈ keep, k ∉ part)
    (valid : AnswerValid fromPrefill part.keys answer) (filterValid : FilterValid filterAnswer)
    (silent : fromPrefill = true → ∀ k ∈ part, eventsOf k ch.log = []) :
    ∃ next part' ch', handleAnswer clients filterAnswer answer part ch = .ok (next, part', ch') ∧
      CacheMatches next part' ∧ (∀ k ∈ part', k ∈ part) ∧ HeldOk issued ch' keep ∧ HeldOk issued ch' part' ∧
      ReleasedOk (fun k => k ∈ keep ∨ k ∈ part') issued ch' := by
  obtain ⟨next, part', ch', eq, handled, cache⟩ := @handleAnswer_spec clients filterAnswer filterValid
    fromPrefill answer part ch valid (fun k e h => (partOk k e h).2.1) (fun _ hk => partOk.opened hk)
    fun pre k hk => by rw [silent pre k hk]; rfl
  exact ⟨next, part', ch', eq, cache, fun _ hk => handled.mem hk, keepOk.afterHandled partOk releasedOk disjoint handled⟩

/-! ## `entries.extend(new_entries)` -/

theorem lookup_extendEntries {entries newEntries : ExistingBatch} {k : Nat} {e : Entry}
    (found : (extendEntries entries newEntries).lookup k = some e) :
    entries.lookup k = some e ∨ newEntries.lookup k = some e :=
  (lookup_foldl_insert _ _ found).imp_right AList.mem_lookup_iff.mpr

theorem mem_extendEntries {entries newEntries : ExistingBatch} {k : Nat} :
    k ∈ extendEntries entries newEntries ↔ k ∈ entries ∨ k ∈ newEntries := by
  rw [extendEntries, mem_foldl_insert, AList.mem_keys (s := newEntries)]
  rfl

theorem keys_extendEntries_perm {entries newEntries : ExistingBatch}
    (disjoint : ∀ k ∈ newEntries, k ∉ entries) :
    (extendEntries entries newEntries).keys.Perm (entries.keys ++ newEntries.keys) :=
  keys_foldl_insert_perm _ _ newEntries.keys_nodup fun k hk => disjoint k (AList.mem_keys.mpr hk)

/-! ## The invariant -/

/-- What holds between any two calls of the batching task. -/
structure TaskInv (t : Task) : Prop where
  notPanicked : ∀ message, t.phase ≠ .panicked message
  running : ∀ entries batch waitingTokens, t.phase = .running entries batch waitingTokens →
    CacheMatches (some batch) entries
  decoding : ∀ entries batches waitingTokens, t.phase = .decoding entries batches waitingTokens →
    (batches.flatMap CachedBatch.requestIds).Perm entries.keys
  heldOk : HeldOk t.issued t.channels t.held
  releasedOk : ReleasedOk (· ∈ t.held) t.issued t.channels

namespace TaskInv

variable {t : Task}

theorem of_idle (phase : t.phase = .idle) (releasedOk : ReleasedOk (fun _ => False) t.issued t.channels) :
    TaskInv t where
  notPanicked _ h := by rw [phase] at h; cases h
  running _ _ _ h := by rw [phase] at h; cases h
  decoding _ _ _ h := by rw [phase] at h; cases h
  heldOk := by simpa [Task.held, phase] using HeldOk.empty t.issued t.channels
  releasedOk := releasedOk.of_iff fun k => by simp [Task.held, phase, AList.not_mem_empty]

theorem of_running {entries : ExistingBatch} {batch : CachedBatch} {waitingTokens : Nat}
    (phase : t.phase = .running entries batch waitingTokens) (cache : CacheMatches (some batch) entries)
    (heldOk : HeldOk t.issued t.channels entries) (releasedOk : ReleasedOk (· ∈ entries) t.issued t.channels) :
    TaskInv t where
  notPanicked _ h := by rw [phase] at h; cases h
  running _ _ _ h := by rw [phase] at h; cases h; exact cache
  decoding _ _ _ h := by rw [phase] at h; cases h
  heldOk := by simpa [Task.held, phase] using heldOk
  releasedOk := by simpa [Task.held, phase] using releasedOk

theorem of_decoding {entries : ExistingBatch} {batches : List CachedBatch} {waitingTokens : Nat}
    (phase : t.phase = .decoding entries batches waitingTokens)
    (perm : (batches.flatMap CachedBatch.requestIds).Perm entries.keys)
    (heldOk : HeldOk t.issued t.channels entries) (releasedOk : ReleasedOk (· ∈ entries) t.issued t.channels) :
    TaskInv t where
  notPanicked _ h := by rw [phase] at h; cases h
  running _ _ _ h := by rw [phase] at h; cases h
  decoding _ _ _ h := by rw [phase] at h; cases h; exact perm
  heldOk := by simpa [Task.held, phase] using heldOk
  releasedOk := by simpa [Task.held, phase] using releasedOk

theorem init : TaskInv Task.init :=
  of_idle rfl fun _ _ => ⟨fun h => absurd h (List.not_mem_nil _), fun _ => rfl⟩

/-! ## One call -/

section Calls

variable {clients : Clients} {t : Task} {filterAnswer : Nat → List Nat → Option CachedBatch}
  {answer : CallAnswer}

/-- The prefill of a batch handed out to an idle task. -/
theorem start {entries : ExistingBatch} {batch : Batch} {request : QueueRequest} (inv : TaskInv t)
    (idle : t.phase = .idle) (queueValid : QueueAnswerValid request t.issued entries batch)
    (valid : AnswerValid true (batch.requests.map Request.id) answer) (filterValid : FilterValid filterAnswer) :
    TaskInv ({ t with issued := t.issued ++ entries.keys }.startBatch clients filterAnswer answer entries) := by
  have held : t.held = ∅ := by simp [Task.held, idle]
  obtain ⟨-, partOk, releasedOk, silent, -⟩ := (held ▸ inv.heldOk).issue (held ▸ inv.releasedOk) queueValid
  obtain ⟨next, entries', ch', eq, cache, -, -, partOk', releasedOk'⟩ := (HeldOk.empty _ _).call clients partOk
    releasedOk (fun k h => absurd h (AList.not_mem_empty k)) (valid.of_perm queueValid.keys.symm) filterValid
    fun _ => silent
  rcases next with _ | batch'
  · simp only [Task.startBatch, eq]
    rw [dropAll_of_keys_nil cache]
    exact of_idle rfl (releasedOk'.of_iff fun k => by simp [AList.not_mem_empty, not_mem_of_keys_nil cache])
  · simp only [Task.startBatch, eq]
    exact of_running rfl cache partOk' (releasedOk'.of_iff fun k => by simp [AList.not_mem_empty])

/-- Nothing more from the queue: the cached batch alone is decoded. -/
theorem carryOn {entries : ExistingBatch} {batch : CachedBatch} {waitingTokens : Nat} (inv : TaskInv t)
    (running : t.phase = .running entries batch waitingTokens) :
    TaskInv { t with phase := .decoding entries [batch] waitingTokens } := by
  have held : t.held = entries := by simp [Task.held, running]
  exact of_decoding rfl (by simpa using (inv.running _ _ _ running).1) (held ▸ inv.heldOk)
    (held ▸ inv.releasedOk)

/-- The prefill of entries handed out beside a running batch. -/
theorem extend {entries : ExistingBatch} {batch : CachedBatch} {waitingTokens : Nat}
    {newEntries : ExistingBatch} {newBatch : Batch} {request : QueueRequest} (inv : TaskInv t)
    (running : t.phase = .running entries batch waitingTokens)
    (queueValid : QueueAnswerValid request t.issued newEntries newBatch)
    (valid : AnswerValid true (newBatch.requests.map Request.id) answer) (filterValid : FilterValid filterAnswer) :
    TaskInv ({ t with issued := t.issued ++ newEntries.keys }.extend clients filterAnswer answer entries batch
      newEntries) := by
  have held : t.held = entries := by simp [Task.held, running]
  have cache := inv.running _ _ _ running
  obtain ⟨keepOk, partOk, releasedOk, silent, disjoint⟩ :=
    (held ▸ inv.heldOk).issue (held ▸ inv.releasedOk) queueValid
  obtain ⟨next, newEntries', ch', eq, newCache, within, keepOk', partOk', releasedOk'⟩ := keepOk.call clients
    partOk releasedOk disjoint (valid.of_perm queueValid.keys.symm) filterValid fun _ => silent
  rcases next with _ | newBatch'
  · simp only [Task.extend, eq]
    rw [dropAll_of_keys_nil newCache]
    exact of_decoding rfl (by simpa using cache.1) keepOk'
      (releasedOk'.of_iff fun k => by simp [not_mem_of_keys_nil newCache])
  · simp only [Task.extend, eq]
    have disjoint' : ∀ k ∈ newEntries', k ∉ entries := fun k hk hk' => disjoint k hk' (within k hk)
    refine of_decoding rfl ?_ (fun k e h => ?_) (releasedOk'.of_iff fun k => mem_extendEntries)
    · simp only [List.flatMap_cons, List.flatMap_nil, List.append_nil]
      exact (cache.1.append newCache.1).trans (keys_extendEntries_perm disjoint').symm
    · rcases lookup_extendEntries h with h | h
      · exact keepOk' k e h
      · exact partOk' k e h

/-- A decode call on the batches gathered. -/
theorem decode {entries : ExistingBatch} {batches : List CachedBatch} {waitingTokens : Nat}
    (inv : TaskInv t) (decoding : t.phase = .decoding entries batches waitingTokens)
    (valid : AnswerValid false (batches.flatMap CachedBatch.requestIds) answer)
    (filterValid : FilterValid filterAnswer) :
    TaskInv (t.decode clients filterAnswer answer entries waitingTokens) := by
  have held : t.held = entries := by simp [Task.held, decoding]
  obtain ⟨next, entries', ch', eq, cache, -, -, heldOk', releasedOk'⟩ := (HeldOk.empty _ _).call clients
    (held ▸ inv.heldOk) ((held ▸ inv.releasedOk).of_iff fun k => by simp [AList.not_mem_empty])
    (fun k h => absurd h (AList.not_mem_empty k)) (valid.of_perm (inv.decoding _ _ _ decoding)) filterValid
    fun h => absurd h (by decide)
  rcases next with _ | batch
  · simp only [Task.decode, eq]
    rw [dropAll_of_keys_nil cache]
    exact of_idle rfl (releasedOk'.of_iff fun k => by simp [AList.not_mem_empty, not_mem_of_keys_nil cache])
  · simp only [Task.decode, eq]
    exact of_running rfl cache heldOk' (releasedOk'.of_iff fun k => by simp [AList.not_mem_empty])

end Calls

end TaskInv

/-- Every state a run of the batching task reaches keeps `TaskInv`. -/
theorem reachable_taskInv {params : BatchingParams} {clients : Clients} {t : Task}
    (reach : t.Reachable params clients) : TaskInv t := by
  induction reach with
  | refl => exact TaskInv.init
  | tail _ step inv =>
    cases step with
    | start idle queueValid valid filterValid => exact inv.start idle queueValid valid filterValid
    | carryOn running => exact inv.carryOn running
    | extend running queueValid valid filterValid => exact inv.extend running queueValid valid filterValid
    | decode decoding valid filterValid => exact inv.decode decoding valid filterValid

/-! ## Over every run -/

/-- A run of one request: handed out at time 0, prefilled with one token, and about to
be decoded. -/
def servedEntry : Entry := ⟨⟨1, 1⟩, 0, false, 0, some 0⟩

def servedEntries : ExistingBatch := (∅ : ExistingBatch).insert 0 servedEntry

def servedBatch : Batch := ⟨0, [servedEntry.toRequest 0], 1⟩

def servedToken : Token := ⟨5, "a", 0, false⟩

def servedGeneration : Generation := ⟨0, none, some ⟨[5], [0], ["a"], [false]⟩, none, []⟩

def servedCache : CachedBatch := ⟨0, [0], 1, 1⟩

def servedClients : Clients := ⟨fun _ _ => false, fun _ _ _ _ closed => closed⟩

def servedParams : BatchingParams := ⟨10, 100, 20, none, fun _ => 0⟩

/-- A backend whose `filter_batch` keeps exactly the ids it is given. -/
def keepIds (id : Nat) (ids : List Nat) : Option CachedBatch := some ⟨id, ids, ids.length, 0⟩

/-- The task once the prefill of `servedEntries` answered one `Intermediate` token and the
queue had nothing more: about to decode. -/
def servedDecoding : Task :=
  ⟨.decoding servedEntries [servedCache] 1, ⟨[(0, .delivered (.ok (.intermediate servedToken [])))], 2⟩, [0]⟩

theorem servedDecoding_reachable : servedDecoding.Reachable servedParams servedClients := by
  have timed : ∀ k e, servedEntries.lookup k = some e → e.batchTime.isSome := fun k e found => by
    by_cases k0 : k = 0
    · subst k0; cases found; rfl
    · rw [servedEntries, AList.lookup_insert_ne k0] at found
      cases found
  have queueValid : QueueAnswerValid servedParams.firstRequest Task.init.issued servedEntries servedBatch :=
    ⟨.refl _, fun _ _ => List.not_mem_nil _, timed, fun _ none => by cases none⟩
  have valid : AnswerValid true (servedBatch.requests.map Request.id)
      (.ok ([servedGeneration], some servedCache)) :=
    ⟨.refl _, by simp [servedGeneration, Generation.WellFormed], .refl _, rfl⟩
  exact .tail (.single (@Step.start servedParams servedClients Task.init servedEntries servedBatch _ keepIds rfl
    queueValid valid fun _ _ => ⟨_, rfl, rfl, rfl⟩)) (Step.carryOn rfl)

/-- In every run, the cached batch a prefill or decode call keeps holds exactly the
entries left, and the batches passed to a decode call hold exactly the entries' requests,
once each. -/
theorem cached_batches_match_entries {params : BatchingParams} {clients : Clients} {t : Task}
    (reach : t.Reachable params clients) :
    (∀ entries batch waitingTokens, t.phase = .running entries batch waitingTokens →
      batch.requestIds.Perm entries.keys) ∧
    ∀ entries batches waitingTokens, t.phase = .decoding entries batches waitingTokens →
      (batches.flatMap CachedBatch.requestIds).Perm entries.keys :=
  ⟨fun _ _ _ running => ((reachable_taskInv reach).running _ _ _ running).1, (reachable_taskInv reach).decoding⟩

theorem cached_batches_match_entries_served :
    (∀ entries batch waitingTokens, servedDecoding.phase = .running entries batch waitingTokens →
      batch.requestIds.Perm entries.keys) ∧
    ∀ entries batches waitingTokens, servedDecoding.phase = .decoding entries batches waitingTokens →
      (batches.flatMap CachedBatch.requestIds).Perm entries.keys :=
  cached_batches_match_entries servedDecoding_reachable

end TgiRouter
