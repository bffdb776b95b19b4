import TgiRouter.Infer.Stream

/-!
# Handling the answer of one prefill or decode call

The functions of `router/src/infer.rs` that turn what the backend answered into messages
and into the next cached batch:

* `sendResponses` (`send_responses`) and its token loop `sendTokens`;
* `filterSendGenerations` (`filter_send_generations`), which drops the entry of every
  request that stopped, finished or went unheard;
* `sendErrors` (`send_errors`), which drains the entries with an error each;
* `filterBatch` (`filter_batch`), which cuts the cached batch down to the entries left;
* `handleAnswer`, the part `prefill` and `decode` share once the backend has answered.

Panics are `.error` with the text of the `expect`. The backend is not modelled: its
answers are arguments, and `AnswerValid` and `FilterValid` state what the batching task
assumes of them.

On a receiver that stays open, the exact log a call of `send_responses` leaves is
`responseMessages`. It is stated by token index, apart from the code: token `j` and each
of its top tokens are read off their four lists at their position (`Tokens.tokenAt`), where
the code zips the lists. The two agree (`Tokens.toList_eq_map_tokenAt_range`,
`topTokenList_eq_topTokensAt`), and the token loop emits the messages one per tick
(`sendTokens_of_open`).
-/

namespace TgiRouter

/-- The top tokens of the `i`-th token: `generation.top_tokens.get(i)` converted, or none. -/
def topTokenList (topTokens : List Tokens) (i : Nat) : List Token :=
  match topTokens[i]? with
  | some tokens => tokens.toList
  | none => []

section Sending

variable (clients : Clients) (id : Nat) (entry : Entry) (generatedText : Option GeneratedText)
  (topTokens : List Tokens)

/-- The token loop of `send_responses` from the `i`-th token: `End` for the last token
of a finished generation, `Intermediate` otherwise; `.ok true` once `End` is delivered,
`.error ()` at the first failed send. -/
def sendTokens : Nat → List Token → Channels → Except String (Except Unit Bool × Channels)
  | _, [], ch => .ok (.ok false, ch)
  | i, token :: rest, ch =>
    let top := topTokenList topTokens i
    match generatedText, rest with
    | some text, [] =>
      match entry.batchTime with
      | none => .error "called Option::unwrap() on a None value"
      | some start =>
        let sent := ch.send clients id (.ok (.«end» token top text start entry.queueTime))
        if sent.1 then .ok (.ok true, sent.2) else .ok (.error (), sent.2)
    | _, _ =>
      let sent := ch.send clients id (.ok (.intermediate token top))
      if sent.1 then sendTokens (i + 1) rest sent.2 else .ok (.error (), sent.2)

end Sending

/-- `send_responses`: nothing when the receiver is closed (`Ok(true)`), else the prefill
tokens if any, then the token loop. -/
def sendResponses (clients : Clients) (ch : Channels) (id : Nat) (generation : Generation)
    (entry : Entry) : Except String (Except Unit Bool × Channels) :=
  let closed := ch.isClosed clients id
  if closed.1 then .ok (.ok true, closed.2) else
  let sent : Bool × Channels := match generation.prefillTokens with
    | some tokens => closed.2.send clients id (.ok (.prefill tokens))
    | none => (true, closed.2)
  if !sent.1 then .ok (.error (), sent.2) else
  match generation.tokens with
  | none => .error "Non empty tokens in generation"
  | some tokens =>
    sendTokens clients id entry generation.generatedText generation.topTokens 0 tokens.toList sent.2

/-- `filter_send_generations`: each generation to its entry, and the entry dropped when
`send_responses` says it stopped or fails (`unwrap_or(true)`). -/
def filterSendGenerations (clients : Clients) :
    List Generation → ExistingBatch → Channels → Except String (ExistingBatch × Channels)
  | [], entries, ch => .ok (entries, ch)
  | generation :: rest, entries, ch =>
    match entries.lookup generation.requestId with
    | none => .error "ID not found in entries. This is a bug."
    | some entry =>
      match sendResponses clients ch generation.requestId generation entry with
      | .error e => .error e
      | .ok (result, ch) =>
        let stopped := match result with
          | .ok stopped => stopped
          | .error () => true
        if stopped then
          filterSendGenerations clients rest (entries.erase generation.requestId)
            (ch.drop clients generation.requestId)
        else filterSendGenerations clients rest entries ch

/-- `send_errors`: `entries.drain()`, an error sent to each entry and the entry dropped;
a closed receiver is ignored. -/
def sendErrors (clients : Clients) (error : ClientError) (entries : ExistingBatch)
    (ch : Channels) : Channels :=
  entries.entries.foldl
    (fun ch e => (ch.send clients e.1 (.error (.generationError error.message))).2.drop clients e.1) ch

/-- An entry map going out of scope: every entry left is dropped. -/
def dropAll (clients : Clients) (entries : ExistingBatch) (ch : Channels) : Channels :=
  entries.entries.foldl (fun ch e => ch.drop clients e.1) ch

/-- `filter_batch`: the cached batch unchanged when it has as many requests as there are
entries, else cut down to the entries with the backend's `filter_batch`, or cleared when
none is left. `filterAnswer` is the backend's answer to `filter_batch`. -/
def filterBatch (filterAnswer : Nat → List Nat → Option CachedBatch) (next : Option CachedBatch)
    (entries : ExistingBatch) : Option CachedBatch :=
  match next with
  | none => none
  | some batch =>
    if batch.size = entries.len then some batch else
    let ids := batch.requestIds.filter fun id => (entries.lookup id).isSome
    if ids.isEmpty then none else filterAnswer batch.id ids

/-- What the backend answered to a prefill or decode call. -/
abbrev CallAnswer := Except ClientError (List Generation × Option CachedBatch)

/-- `prefill` and `decode` after the call: on success, the messages and the filtered
cached batch; on a `ClientError`, an error to every entry and no cached batch (the
`clear_cache` calls change nothing the router keeps). -/
def handleAnswer (clients : Clients) (filterAnswer : Nat → List Nat → Option CachedBatch)
    (answer : CallAnswer) (entries : ExistingBatch) (ch : Channels) :
    Except String (Option CachedBatch × ExistingBatch × Channels) :=
  match answer with
  | .ok (generations, next) =>
    match filterSendGenerations clients generations entries ch with
    | .error e => .error e
    | .ok (entries, ch) => .ok (filterBatch filterAnswer next entries, entries, ch)
  | .error error => .ok (none, ∅, sendErrors clients error entries ch)

/-! ## What the task assumes of the backend -/

/-- A generation with a non-empty token list whose four lists have one length. -/
def Generation.WellFormed (g : Generation) : Prop :=
  ∃ t, g.tokens = some t ∧ t.ids ≠ [] ∧ t.logprobs.length = t.ids.length ∧
    t.texts.length = t.ids.length ∧ t.isSpecial.length = t.ids.length

/-- A valid answer to a call on the requests `ids`: one well-formed generation per
request, prefill tokens only from a prefill, and a cached batch of exactly the requests
that did not finish, when there is one. -/
def AnswerValid (fromPrefill : Bool) (ids : List Nat) : CallAnswer → Prop
  | .error _ => True
  | .ok (generations, next) =>
    (generations.map Generation.requestId).Perm ids ∧
      (∀ g ∈ generations, g.WellFormed ∧ (fromPrefill = false → g.prefillTokens = none)) ∧
      match next with
      | none => ∀ g ∈ generations, g.generatedText.isSome
      | some batch =>
        batch.requestIds.Perm ((generations.filter fun g => g.generatedText.isNone).map
          Generation.requestId) ∧ batch.size = batch.requestIds.length

/-- The backend's `filter_batch` keeps exactly the ids it is given. -/
def FilterValid (filterAnswer : Nat → List Nat → Option CachedBatch) : Prop :=
  ∀ id ids, ∃ batch, filterAnswer id ids = some batch ∧ batch.requestIds = ids ∧
    batch.size = ids.length

/-! ## Sending one generation -/

theorem Tokens.toList_ne_nil {t : Tokens} (nonempty : t.ids ≠ []) (logprobs : t.logprobs.length = t.ids.length)
    (texts : t.texts.length = t.ids.length) (special : t.isSpecial.length = t.ids.length) :
    t.toList ≠ [] := by
  apply List.ne_nil_of_length_pos
  simp only [Tokens.toList, List.length_map, List.length_zip, logprobs, texts, special, min_self]
  exact List.length_pos.mpr nonempty

/-- What a sending function leaves on the channel of `id`: after `.ok false` the channel
is still served; after any other result its sender may be dropped. -/
def SendOutcome (clients : Clients) (id : Nat) (ch : Channels) : Except Unit Bool → Prop
  | .ok false => OpenAt ch id
  | _ => Droppable clients ch id

section SendingSpec

variable {clients : Clients} {id : Nat} {entry : Entry} {generatedText : Option GeneratedText}
  {topTokens : List Tokens}

theorem sendTokens_last {i : Nat} {token : Token} {ch : Channels} {text : GeneratedText} {start : Nat}
    (timed : entry.batchTime = some start) :
    sendTokens clients id entry (some text) topTokens i [token] ch =
      let sent := ch.send clients id (.ok (.«end» token (topTokenList topTokens i) text start entry.queueTime))
      if sent.1 then .ok (.ok true, sent.2) else .ok (.error (), sent.2) := by
  simp only [sendTokens, timed]

theorem sendTokens_cons_of_more {i : Nat} {token : Token} {rest : List Token} {ch : Channels}
    (more : generatedText = none ∨ rest ≠ []) :
    sendTokens clients id entry generatedText topTokens i (token :: rest) ch =
      let sent := ch.send clients id (.ok (.intermediate token (topTokenList topTokens i)))
      if sent.1 then sendTokens clients id entry generatedText topTokens (i + 1) rest sent.2
      else .ok (.error (), sent.2) := by
  rcases generatedText with _ | text <;> rcases rest with _ | ⟨_, _⟩
  · rfl
  · rfl
  · simp at more
  · rfl

/-- The token loop never panics on an entry with a batch time; it ends with the channel
still served, or droppable, and a finished generation with a token left always stops. -/
theorem sendTokens_spec (timed : entry.batchTime.isSome) :
    ∀ (toks : List Token) (i : Nat) (ch : Channels), OpenAt ch id →
      ∃ r ch', sendTokens clients id entry generatedText topTokens i toks ch = .ok (r, ch') ∧
        Channels.Touches id ch ch' ∧ SendOutcome clients id ch' r ∧
        (generatedText.isSome → toks ≠ [] → r ≠ .ok false)
  | [], _, ch, opened => ⟨_, _, rfl, .refl id ch, opened, fun _ h => absurd rfl h⟩
  | token :: rest, i, ch, ⟨p, run, hp⟩ => by
    by_cases last : ∃ text, generatedText = some text ∧ rest = []
    · obtain ⟨text, rfl, rfl⟩ := last
      obtain ⟨start, hstart⟩ := Option.isSome_iff_exists.mp timed
      rw [sendTokens_last hstart]
      rcases @Channels.send_advances clients id ch _ _ _ run hp
        (ChannelPhase.next_end hp token (topTokenList topTokens i) text start entry.queueTime) with
        ⟨ok, finished⟩ | ⟨failed, droppable⟩
      · exact ⟨.ok true, _, by simp [ok], Channels.send_touches _, .inl finished, by simp⟩
      · exact ⟨.error (), _, by simp [failed], Channels.send_touches _, droppable, by simp⟩
    · have more : generatedText = none ∨ rest ≠ [] := by
        rcases generatedText with _ | text
        · exact .inl rfl
        · exact .inr fun nil => last ⟨text, rfl, nil⟩
      rw [sendTokens_cons_of_more more]
      rcases @Channels.send_advances clients id ch _ _ _ run hp
        (ChannelPhase.next_intermediate hp token (topTokenList topTokens i)) with
        ⟨ok, streaming⟩ | ⟨failed, droppable⟩
      · obtain ⟨r, ch', run', touches, outcome, stops⟩ := sendTokens_spec timed rest (i + 1) _ ⟨_, streaming, .inr rfl⟩
        refine ⟨r, ch', by simpa [ok] using run', (Channels.send_touches _).trans touches, outcome,
          fun finished _ => stops finished (more.resolve_left fun none => ?_)⟩
        simp [none] at finished
      · exact ⟨.error (), _, by simp [failed], Channels.send_touches _, droppable, by simp⟩

/-- `send_responses` on a well-formed generation and an entry with a batch time, whose
channel is still served and fresh if prefill tokens come: it never panics, touches only
this channel, and a finished generation always stops the entry. -/
theorem sendResponses_spec {ch : Channels} {generation : Generation} (wf : generation.WellFormed)
    (timed : entry.batchTime.isSome) (opened : OpenAt ch id)
    (prefillFirst : generation.prefillTokens.isSome → channelRun (eventsOf id ch.log) = some .fresh) :
    ∃ r ch', sendResponses clients ch id generation entry = .ok (r, ch') ∧ Channels.Touches id ch ch' ∧
      SendOutcome clients id ch' r ∧ (generation.generatedText.isSome → r ≠ .ok false) := by
  obtain ⟨t, tokens, nonempty, logprobs, texts, special⟩ := wf
  have closedTouches := @Channels.isClosed_touches clients id ch
  have openedAfter : OpenAt (ch.isClosed clients id).2 id := by simpa [OpenAt] using opened
  unfold sendResponses
  by_cases closed : (ch.isClosed clients id).1 = true
  · rw [if_pos closed]
    refine ⟨.ok true, _, rfl, closedTouches, show Droppable clients _ id from .inr ⟨openedAfter, ?_⟩,
      by simp⟩
    exact clients.stays id _ _ (Nat.le_succ _) closed
  simp only [closed]
  have prefilled : ∃ sent : Bool × Channels,
      (match generation.prefillTokens with
        | some tokens => (ch.isClosed clients id).2.send clients id (.ok (.prefill tokens))
        | none => (true, (ch.isClosed clients id).2)) = sent ∧
      Channels.Touches id ch sent.2 ∧ (sent.1 = true → OpenAt sent.2 id) ∧
      (sent.1 = false → Droppable clients sent.2 id) := by
    rcases hpre : generation.prefillTokens with _ | pre
    · exact ⟨_, rfl, closedTouches, fun _ => openedAfter, fun h => absurd h (by simp)⟩
    · have fresh : channelRun (eventsOf id (ch.isClosed clients id).2.log) = some .fresh :=
        prefillFirst (by simp [hpre])
      rcases @Channels.send_advances clients id (ch.isClosed clients id).2 (.ok (.prefill pre)) _ .streaming fresh
        (.inl rfl) rfl with
        ⟨ok, streaming⟩ | ⟨failed, droppable⟩
      · exact ⟨_, rfl, closedTouches.trans (Channels.send_touches _), fun _ => ⟨_, streaming, .inr rfl⟩,
          fun h => absurd (ok.symm.trans h) (by decide)⟩
      · exact ⟨_, rfl, closedTouches.trans (Channels.send_touches _),
          fun h => absurd (failed.symm.trans h) (by decide), fun _ => droppable⟩
  obtain ⟨sent, hsent, touches, okOpen, failDrop⟩ := prefilled
  rw [hsent]
  by_cases ok : sent.1 = true
  · obtain ⟨r, ch', run, touches', outcome, stops⟩ :=
      @sendTokens_spec clients id entry generation.generatedText generation.topTokens timed t.toList 0
        sent.2 (okOpen ok)
    refine ⟨r, ch', by simpa [ok, tokens] using run, touches.trans touches', outcome,
      fun finished => stops finished (Tokens.toList_ne_nil nonempty logprobs texts special)⟩
  · have failed : sent.1 = false := by simpa using ok
    exact ⟨.error (), _, by simp [failed], touches, failDrop failed, by simp⟩

end SendingSpec

/-! ## What an open channel receives -/

/-- Token `j` of `t`, read off its four lists. -/
def Tokens.tokenAt (t : Tokens) (j : Nat) : Token :=
  ⟨t.ids.getD j 0, t.texts.getD j "", t.logprobs.getD j 0, t.isSpecial.getD j false⟩

/-- The number of positions the four lists of `t` all have. -/
def Tokens.length (t : Tokens) : Nat :=
  min (min (min t.ids.length t.logprobs.length) t.texts.length) t.isSpecial.length

/-- The conversion of `g.top_tokens[j]`: one token per position its four lists all have,
read off them; empty when `g.top_tokens` has no `j`-th element. -/
def topTokensAt (g : Generation) (j : Nat) : List Token :=
  match g.topTokens[j]? with
  | some top => (List.range top.length).map top.tokenAt
  | none => []

/-- The message for token `j` of the `k` tokens `t` of `g`: `End`, with the generated text
and the two instants, for the `k`-th token of a finished generation, and `Intermediate`
for every other; each carries the top tokens of position `j`. -/
def tokenMessage (g : Generation) (t : Tokens) (start queued : Nat) (j : Nat) : StreamItem :=
  match g.generatedText with
  | some text =>
    if j + 1 = t.ids.length then .ok (.«end» (t.tokenAt j) (topTokensAt g j) text start queued)
    else .ok (.intermediate (t.tokenAt j) (topTokensAt g j))
  | none => .ok (.intermediate (t.tokenAt j) (topTokensAt g j))

/-- Everything `g` should put on an open channel: `Prefill` when it has prefill tokens,
then one message per token, in order. -/
def responseMessages (g : Generation) (t : Tokens) (start queued : Nat) : List StreamItem :=
  (g.prefillTokens.map fun p => .ok (.prefill p)).toList ++
    (List.range t.ids.length).map (tokenMessage g t start queued)

/-- The zip of the four lists is the token at every position they all have. -/
theorem Tokens.toList_eq_map_tokenAt_range (t : Tokens) : t.toList = (List.range t.length).map t.tokenAt := by
  apply List.ext_getElem
  · simp only [Tokens.toList, Tokens.length, List.length_map, List.length_zip, List.length_range]
  · intro j _ bound
    rw [List.length_map, List.length_range] at bound
    simp only [Tokens.length, Nat.lt_min] at bound
    obtain ⟨⟨⟨ids, logprobs⟩, texts⟩, special⟩ := bound
    simp only [Tokens.toList, Tokens.tokenAt, List.getElem_map, List.getElem_zip, List.getElem_range,
      List.getD_eq_getElem?_getD, List.getElem?_eq_getElem ids, List.getElem?_eq_getElem logprobs,
      List.getElem?_eq_getElem texts, List.getElem?_eq_getElem special, Option.getD_some]

/-- The four lists of one length zip into the tokens at each position. -/
theorem Tokens.toList_eq_map_tokenAt {t : Tokens} (logprobs : t.logprobs.length = t.ids.length)
    (texts : t.texts.length = t.ids.length) (special : t.isSpecial.length = t.ids.length) :
    t.toList = (List.range t.ids.length).map t.tokenAt := by
  rw [t.toList_eq_map_tokenAt_range, Tokens.length, logprobs, texts, special, min_self, min_self, min_self]

/-- The code's conversion of the top tokens, `topTokenList`, gives the expected ones. -/
theorem topTokenList_eq_topTokensAt (g : Generation) (j : Nat) : topTokenList g.topTokens j = topTokensAt g j := by
  rcases found : g.topTokens[j]? with _ | top
  · simp only [topTokenList, topTokensAt, found]
  · simp only [topTokenList, topTokensAt, found, Tokens.toList_eq_map_tokenAt_range]

section OpenChannel

variable {clients : Clients} {id : Nat} {entry : Entry} {g : Generation} {t : Tokens} {start : Nat}

/-- A token other than the last is sent as `Intermediate`. -/
theorem tokenMessage_of_ne {queued j : Nat} (more : j + 1 ≠ t.ids.length) :
    tokenMessage g t start queued j = .ok (.intermediate (t.tokenAt j) (topTokensAt g j)) := by
  unfold tokenMessage
  split <;> simp [more]

/-- On a receiver open from the current tick on, the token loop from token `i`, with the
`n + 1` last tokens left, delivers their messages one per tick and answers whether the
generation is finished. -/
theorem sendTokens_of_open (timed : entry.batchTime = some start) :
    ∀ (n i : Nat) (ch : Channels), n + 1 + i = t.ids.length →
      (∀ tick, ch.tick ≤ tick → clients.closedAt id tick = false) →
      sendTokens clients id entry g.generatedText g.topTokens i ((List.range' i (n + 1)).map t.tokenAt) ch =
        .ok (.ok g.generatedText.isSome,
          ⟨ch.log ++ ((List.range' i (n + 1)).map (tokenMessage g t start entry.queueTime)).map
            fun m => (id, .delivered m), ch.tick + (n + 1)⟩)
  | 0, i, ch, last, stays => by
    have opened := stays ch.tick le_rfl
    rcases finished : g.generatedText with _ | text
    · simp [sendTokens, Channels.send_of_open _ opened, tokenMessage, finished, topTokenList_eq_topTokensAt]
    · simp [sendTokens_last timed, Channels.send_of_open _ opened, tokenMessage, finished,
        show i + 1 = t.ids.length by omega, topTokenList_eq_topTokensAt]
  | n + 1, i, ch, count, stays => by
    rw [List.range'_succ, List.map_cons, sendTokens_cons_of_more (.inr (by simp)),
      Channels.send_of_open _ (stays ch.tick le_rfl)]
    simp only [if_true]
    rw [sendTokens_of_open timed n (i + 1) _ (by omega) fun tick le => stays tick (by simp at le; omega)]
    simp [tokenMessage_of_ne (show i + 1 ≠ t.ids.length by omega), topTokenList_eq_topTokensAt, Nat.add_assoc,
      Nat.add_comm 1]

/-- On a receiver that is open and stays open, `send_responses` for a generation of `k ≥ 1`
tokens with four lists of one length, and an entry with a batch time, delivers exactly
`responseMessages`, one per tick after the `is_closed` check, and answers `Ok(true)`
exactly when the generation is finished. -/
theorem sendResponses_eq_responseMessages (tokens : g.tokens = some t) (nonempty : t.ids ≠ [])
    (logprobs : t.logprobs.length = t.ids.length) (texts : t.texts.length = t.ids.length)
    (special : t.isSpecial.length = t.ids.length) (timed : entry.batchTime = some start) {ch : Channels}
    (stays : ∀ tick, ch.tick ≤ tick → clients.closedAt id tick = false) :
    sendResponses clients ch id g entry =
      .ok (.ok g.generatedText.isSome,
        ⟨ch.log ++ (responseMessages g t start entry.queueTime).map fun m => (id, .delivered m),
          ch.tick + 1 + (responseMessages g t start entry.queueTime).length⟩) := by
  obtain ⟨n, count⟩ : ∃ n, t.ids.length = n + 1 :=
    ⟨t.ids.length - 1, by have := List.length_pos.mpr nonempty; omega⟩
  have toks : t.toList = (List.range' 0 (n + 1)).map t.tokenAt := by
    rw [Tokens.toList_eq_map_tokenAt logprobs texts special, List.range_eq_range', count]
  have later : ∀ k tick, ch.tick + k ≤ tick → clients.closedAt id tick = false :=
    fun k tick le => stays tick (by omega)
  unfold sendResponses
  simp only [Channels.isClosed, stays ch.tick le_rfl, Bool.false_eq_true, if_false]
  rcases prefill : g.prefillTokens with _ | p
  · simp only [Bool.not_true, Bool.false_eq_true, if_false, tokens, toks]
    rw [sendTokens_of_open timed n 0 _ (by omega) fun tick le => later 1 tick le]
    simp [responseMessages, prefill, List.range_eq_range', count, Nat.add_comm 1]
  · have sent := @Channels.send_of_open clients id ⟨ch.log, ch.tick + 1⟩ (.ok (.prefill p))
      (later 1 _ le_rfl)
    simp only [sent, Bool.not_true, Bool.false_eq_true, if_false, tokens, toks]
    rw [sendTokens_of_open timed n 0 _ (by omega) fun tick le => later 2 tick le]
    simp [responseMessages, prefill, List.range_eq_range', count]
    omega

end OpenChannel

/-- Receivers that never close. -/
def openClients : Clients := ⟨fun _ _ => false, fun _ _ _ _ closed => closed⟩

/-- Two tokens, `5` and `6`. -/
def twoTokens : Tokens := ⟨[5, 6], [0, 0], ["b", "c"], [false, false]⟩

/-- A finished generation of two tokens after a prefill of one, with two top tokens for
the first token and none for the second. -/
def twoTokenGeneration : Generation :=
  ⟨7, some ⟨[1], [0], ["a"], [false]⟩, some twoTokens, some ⟨"bc"⟩, [⟨[8, 9], [0, 0], ["x", "y"], [false, false]⟩]⟩

/-- An entry queued at `3` and batched at `4`. -/
def timedEntry : Entry := ⟨⟨1, 2⟩, 0, false, 3, some 4⟩

/-- On a fresh channel that never closes: a `Prefill`, an `Intermediate` with the two top
tokens and an `End` with none, and `Ok(true)`. -/
theorem sendResponses_eq_responseMessages_finished :
    twoTokenGeneration.tokens = some twoTokens ∧ twoTokens.ids ≠ [] ∧
      twoTokens.logprobs.length = twoTokens.ids.length ∧ twoTokens.texts.length = twoTokens.ids.length ∧
      twoTokens.isSpecial.length = twoTokens.ids.length ∧ timedEntry.batchTime = some 4 ∧
      (∀ tick, (⟨[], 0⟩ : Channels).tick ≤ tick → openClients.closedAt 7 tick = false) ∧
      (responseMessages twoTokenGeneration twoTokens 4 timedEntry.queueTime).length = 3 ∧
      (topTokensAt twoTokenGeneration 0).map Token.id = [8, 9] ∧ topTokensAt twoTokenGeneration 1 = [] ∧
      sendResponses openClients ⟨[], 0⟩ 7 twoTokenGeneration timedEntry =
        .ok (.ok twoTokenGeneration.generatedText.isSome,
          ⟨[] ++ (responseMessages twoTokenGeneration twoTokens 4 timedEntry.queueTime).map
              fun m => (7, .delivered m),
            0 + 1 + (responseMessages twoTokenGeneration twoTokens 4 timedEntry.queueTime).length⟩) :=
  ⟨rfl, by decide, rfl, rfl, rfl, rfl, fun _ _ => rfl, rfl, rfl, rfl,
    sendResponses_eq_responseMessages rfl (by decide) rfl rfl rfl rfl fun _ _ => rfl⟩

/-! ## Every generation of a call -/

/-- What handling a call did to the entries `entries` and the channels `ch`, leaving
`entries'` and `ch'`: every entry kept is as it was, with its channel still served; every
entry dropped has its channel released; no other channel is touched. -/
structure Handled (entries entries' : ExistingBatch) (ch ch' : Channels) : Prop where
  kept : ∀ k e, entries'.lookup k = some e → entries.lookup k = some e
  keptOpen : ∀ k ∈ entries', OpenAt ch' k
  released : ∀ k ∈ entries, k ∉ entries' → channelRun (eventsOf k ch'.log) = some .released
  others : ∀ k, k ∉ entries → eventsOf k ch'.log = eventsOf k ch.log

theorem mem_of_lookup_eq_some {entries : ExistingBatch} {k : Nat} {e : Entry}
    (found : entries.lookup k = some e) : k ∈ entries :=
  AList.lookup_isSome.mp (by simp [found])

theorem Handled.mem {entries entries' : ExistingBatch} {ch ch' : Channels}
    (handled : Handled entries entries' ch ch') {k : Nat} (mem : k ∈ entries') : k ∈ entries := by
  obtain ⟨e, found⟩ := Option.isSome_iff_exists.mp (AList.lookup_isSome.mpr mem)
  exact mem_of_lookup_eq_some (handled.kept k e found)

theorem lookup_of_lookup_erase {entries : ExistingBatch} {a k : Nat} {e : Entry}
    (found : (entries.erase a).lookup k = some e) : entries.lookup k = some e := by
  by_cases same : k = a
  · subst same; simp [AList.lookup_erase] at found
  · rwa [AList.lookup_erase_ne same] at found

/-- Handling the calls of two stretches one after the other. -/
theorem Handled.trans {a b c : ExistingBatch} {ch1 ch2 ch3 : Channels} (first : Handled a b ch1 ch2)
    (second : Handled b c ch2 ch3) : Handled a c ch1 ch3 where
  kept k e h := first.kept k e (second.kept k e h)
  keptOpen := second.keptOpen
  released k ha hc := by
    by_cases hb : k ∈ b
    · exact second.released k hb hc
    · rw [second.others k hb]; exact first.released k ha hb
  others k ha := by rw [second.others k fun hb => ha (first.mem hb), first.others k ha]

/-- One generation of `filter_send_generations`: its responses sent on its channel, and
its entry dropped when it stopped. -/
theorem filterSendGenerations_cons {clients : Clients} {g : Generation} (rest : List Generation)
    {entries : ExistingBatch} {ch : Channels} (mem : g.requestId ∈ entries) (wf : g.WellFormed)
    (timed : ∀ k e, entries.lookup k = some e → e.batchTime.isSome) (opened : ∀ k ∈ entries, OpenAt ch k)
    (fresh : g.prefillTokens.isSome → channelRun (eventsOf g.requestId ch.log) = some .fresh) :
    ∃ entries1 ch1, filterSendGenerations clients (g :: rest) entries ch =
        filterSendGenerations clients rest entries1 ch1 ∧
      Handled entries entries1 ch ch1 ∧ Channels.Touches g.requestId ch ch1 ∧
      (∀ k ∈ entries, k ≠ g.requestId → k ∈ entries1) ∧ (g.generatedText.isSome → g.requestId ∉ entries1) := by
  obtain ⟨entry, found⟩ := Option.isSome_iff_exists.mp (AList.lookup_isSome.mpr mem)
  obtain ⟨r, ch1, sent, touch, outcome, stops⟩ :=
    @sendResponses_spec clients g.requestId entry ch g wf (timed _ _ found) (opened _ mem) fresh
  have othersOpen : ∀ {ch'}, Channels.Touches g.requestId ch ch' → ∀ k ∈ entries, k ≠ g.requestId →
      OpenAt ch' k := fun touch' k hk other => by simpa [OpenAt, touch'.2 k other] using opened k hk
  by_cases keep : r = .ok false
  · subst keep
    refine ⟨entries, ch1, by simp [filterSendGenerations, found, sent], ⟨fun _ _ h => h, fun k hk => ?_,
      fun _ hk gone => absurd hk gone, fun k hk => touch.2 k fun same => hk (same ▸ mem)⟩, touch,
      fun _ hk _ => hk, fun finished => absurd rfl (stops finished)⟩
    by_cases same : k = g.requestId
    · exact same ▸ outcome
    · exact othersOpen touch k hk same
  · have dropped : Droppable clients ch1 g.requestId ∧ filterSendGenerations clients (g :: rest) entries ch =
        filterSendGenerations clients rest (entries.erase g.requestId) (ch1.drop clients g.requestId) := by
      rcases r with ⟨⟨⟩⟩ | ⟨_ | _⟩
      · exact ⟨outcome, by simp [filterSendGenerations, found, sent]⟩
      · exact absurd rfl keep
      · exact ⟨outcome, by simp [filterSendGenerations, found, sent]⟩
    have dropTouch := touch.trans (@Channels.drop_touches clients g.requestId ch1)
    refine ⟨_, _, dropped.2, ⟨fun k e h => lookup_of_lookup_erase h,
      fun k hk => othersOpen dropTouch k (AList.mem_erase.mp hk).2 (AList.mem_erase.mp hk).1,
      fun k hk gone => ?_, fun k hk => dropTouch.2 k fun same => hk (same ▸ mem)⟩, dropTouch,
      fun k hk other => AList.mem_erase.mpr ⟨other, hk⟩, fun _ h => (AList.mem_erase.mp h).1 rfl⟩
    obtain rfl : k = g.requestId := by_contra fun other => gone (AList.mem_erase.mpr ⟨other, hk⟩)
    exact Channels.drop_released dropped.1

/-- `filter_send_generations` over generations of distinct requests, all among the
entries: it never panics, drops every entry whose generation finished, and leaves every
channel it drops released. -/
theorem filterSendGenerations_spec {clients : Clients} :
    ∀ (generations : List Generation) (entries : ExistingBatch) (ch : Channels),
      (generations.map Generation.requestId).Nodup → (∀ g ∈ generations, g.requestId ∈ entries) →
      (∀ g ∈ generations, g.WellFormed) → (∀ k e, entries.lookup k = some e → e.batchTime.isSome) →
      (∀ k ∈ entries, OpenAt ch k) →
      (∀ g ∈ generations, g.prefillTokens.isSome → channelRun (eventsOf g.requestId ch.log) = some .fresh) →
      ∃ entries' ch', filterSendGenerations clients generations entries ch = .ok (entries', ch') ∧
        Handled entries entries' ch ch' ∧
        ∀ g ∈ generations, g.generatedText.isSome → g.requestId ∉ entries'
  | [], entries, ch, _, _, _, _, opened, _ =>
    ⟨entries, ch, rfl, ⟨fun _ _ h => h, opened, fun _ mem gone => absurd mem gone, fun _ _ => rfl⟩,
      fun _ h => absurd h (List.not_mem_nil _)⟩
  | g :: rest, entries, ch, nodup, mem, wf, timed, opened, fresh => by
    rw [List.map_cons, List.nodup_cons] at nodup
    have restNe : ∀ g' ∈ rest, g'.requestId ≠ g.requestId :=
      fun g' hg' same => nodup.1 (same ▸ List.mem_map_of_mem _ hg')
    obtain ⟨entries1, ch1, step, handled1, touch, stay, gone1⟩ := filterSendGenerations_cons rest
      (mem g (List.mem_cons_self _ _)) (wf g (List.mem_cons_self _ _)) timed opened (fresh g (List.mem_cons_self _ _))
    obtain ⟨entries', ch', run, handled, gone⟩ := filterSendGenerations_spec rest entries1 ch1 nodup.2
      (fun g' hg' => stay _ (mem g' (List.mem_cons_of_mem _ hg')) (restNe g' hg'))
      (fun g' hg' => wf g' (List.mem_cons_of_mem _ hg')) (fun k e h => timed k e (handled1.kept k e h))
      handled1.keptOpen
      (fun g' hg' pre => by rw [touch.2 _ (restNe g' hg')]; exact fresh g' (List.mem_cons_of_mem _ hg') pre)
    refine ⟨entries', ch', step.trans run, handled1.trans handled, ?_⟩
    rintro g' (_ | ⟨_, hg'⟩) finished
    · exact fun h => gone1 finished (handled.mem h)
    · exact gone g' hg' finished

/-! ## Errors, drops and the cached batch -/

section Draining

variable {clients : Clients}

/-- Sending an error to a served channel and dropping its sender releases it. -/
theorem sendError_released {ch : Channels} {id : Nat} {item : InferError} (opened : OpenAt ch id) :
    channelRun (eventsOf id ((ch.send clients id (.error item)).2.drop clients id).log) = some .released := by
  obtain ⟨p, run, hp⟩ := opened
  apply Channels.drop_released
  rcases Channels.send_advances run hp (ChannelPhase.next_error hp item) with ⟨-, finished⟩ | ⟨-, droppable⟩
  · exact .inl finished
  · exact droppable

theorem foldl_sendError_spec (item : InferError) :
    ∀ (l : List (Sigma fun _ : Nat => Entry)) (ch : Channels), (l.map Sigma.fst).Nodup →
      (∀ e ∈ l, OpenAt ch e.1) →
      (∀ e ∈ l, channelRun (eventsOf e.1 (l.foldl (fun ch e =>
        (ch.send clients e.1 (.error item)).2.drop clients e.1) ch).log) = some .released) ∧
      ∀ k, k ∉ l.map Sigma.fst → eventsOf k (l.foldl (fun ch e =>
        (ch.send clients e.1 (.error item)).2.drop clients e.1) ch).log = eventsOf k ch.log
  | [], _, _, _ => ⟨fun _ h => absurd h (List.not_mem_nil _), fun _ _ => rfl⟩
  | e :: rest, ch, nodup, opened => by
    rw [List.map_cons, List.nodup_cons] at nodup
    have touch : Channels.Touches e.1 ch ((ch.send clients e.1 (.error item)).2.drop clients e.1) :=
      (Channels.send_touches _).trans Channels.drop_touches
    have restOpen : ∀ e' ∈ rest, OpenAt ((ch.send clients e.1 (.error item)).2.drop clients e.1) e'.1 := by
      intro e' he'
      have ne : e'.1 ≠ e.1 := fun same => nodup.1 (same ▸ List.mem_map_of_mem _ he')
      simpa [OpenAt, touch.2 _ ne] using opened e' (List.mem_cons_of_mem _ he')
    obtain ⟨released, others⟩ := foldl_sendError_spec item rest _ nodup.2 restOpen
    refine ⟨?_, fun k hk => ?_⟩
    · rintro e' (_ | ⟨_, he'⟩)
      · rw [List.foldl_cons, others e.1 nodup.1]
        exact sendError_released (opened e (List.mem_cons_self _ _))
      · exact released e' he'
    · simp only [List.map_cons, List.mem_cons, not_or] at hk
      rw [List.foldl_cons, others k hk.2, touch.2 k hk.1]

/-- `send_errors` releases every entry's channel and touches no other. -/
theorem sendErrors_spec (error : ClientError) {entries : ExistingBatch} {ch : Channels}
    (opened : ∀ k ∈ entries, OpenAt ch k) :
    Handled entries ∅ ch (sendErrors clients error entries ch) := by
  obtain ⟨released, others⟩ := @foldl_sendError_spec clients (.generationError error.message)
    entries.entries ch entries.keys_nodup fun e he => opened e.1 (AList.mem_keys.mpr
      (List.mem_map_of_mem _ he))
  refine ⟨fun _ _ h => by simp [AList.lookup] at h, fun k h => absurd h (AList.not_mem_empty k),
    fun k hk _ => ?_, fun k hk => others k fun h => hk (AList.mem_keys.mpr h)⟩
  obtain ⟨e, he, rfl⟩ := List.mem_map.mp (AList.mem_keys.mp hk)
  exact released e he

/-- Dropping an empty map does nothing. -/
theorem dropAll_of_keys_nil {entries : ExistingBatch} (empty : entries.keys = []) (ch : Channels) :
    dropAll clients entries ch = ch := by
  have : entries.entries = [] := by simpa [AList.keys, List.keys] using empty
  simp [dropAll, this]

end Draining

/-- The cached batch holds exactly the entries' requests, once each, and reports their
number; there is no cached batch exactly when no entry is left. -/
def CacheMatches : Option CachedBatch → ExistingBatch → Prop
  | none, entries => entries.keys = []
  | some batch, entries => batch.requestIds.Perm entries.keys ∧ batch.size = batch.requestIds.length

theorem len_eq_keys_length (entries : ExistingBatch) : entries.len = entries.keys.length := by
  simp [IntMap.len, AList.keys, List.keys]

/-- `filter_batch` on a cached batch of exactly the unfinished requests, once each, with
the entries left among them: what it returns matches the entries left. -/
theorem filterBatch_spec {filterAnswer : Nat → List Nat → Option CachedBatch}
    (filterValid : FilterValid filterAnswer) {next : Option CachedBatch} {entries : ExistingBatch}
    {unfinished : List Nat} (nodup : unfinished.Nodup) (within : ∀ k ∈ entries, k ∈ unfinished)
    (nextValid : match next with
      | none => unfinished = []
      | some batch => batch.requestIds.Perm unfinished ∧ batch.size = batch.requestIds.length) :
    CacheMatches (filterBatch filterAnswer next entries) entries := by
  rcases next with _ | batch
  · show entries.keys = []
    subst nextValid
    exact List.eq_nil_iff_forall_not_mem.mpr fun k hk => List.not_mem_nil k (within k (AList.mem_keys.mpr hk))
  obtain ⟨perm, size⟩ := nextValid
  have batchNodup : batch.requestIds.Nodup := perm.nodup_iff.mpr nodup
  have keysWithin : ∀ k ∈ entries.keys, k ∈ batch.requestIds :=
    fun k hk => perm.mem_iff.mpr (within k (AList.mem_keys.mpr hk))
  have kept : (batch.requestIds.filter fun id => (entries.lookup id).isSome).Perm entries.keys := by
    refine (List.perm_ext_iff_of_nodup (batchNodup.filter _) entries.keys_nodup).mpr fun k => ?_
    simp only [List.mem_filter, AList.lookup_isSome, ← AList.mem_keys]
    exact ⟨fun h => h.2, fun h => ⟨keysWithin k h, h⟩⟩
  simp only [filterBatch]
  split_ifs with same empty
  · refine ⟨?_, size⟩
    refine ((List.subperm_of_subset entries.keys_nodup keysWithin).perm_of_length_le ?_).symm
    rw [← size, same, len_eq_keys_length]
  · show entries.keys = []
    rw [List.isEmpty_iff] at empty
    rw [empty] at kept
    exact kept.symm.eq_nil
  · obtain ⟨cut, answer, ids, cutSize⟩ := filterValid batch.id
      (batch.requestIds.filter fun id => (entries.lookup id).isSome)
    rw [answer]
    exact ⟨ids ▸ kept, by rw [cutSize, ids]⟩

/-! ## A whole call -/

theorem AnswerValid.of_perm {fromPrefill : Bool} {ids ids' : List Nat} {answer : CallAnswer}
    (perm : ids.Perm ids') (valid : AnswerValid fromPrefill ids answer) :
    AnswerValid fromPrefill ids' answer := by
  rcases answer with _ | ⟨generations, next⟩
  · trivial
  · exact ⟨valid.1.trans perm, valid.2⟩

/-- The answer to a prefill or decode call over exactly the entries, handled: no panic,
every dropped entry's channel released, and the cached batch that comes back holds exactly
the entries left. -/
theorem handleAnswer_spec {clients : Clients} {filterAnswer : Nat → List Nat → Option CachedBatch}
    (filterValid : FilterValid filterAnswer) {fromPrefill : Bool} {answer : CallAnswer}
    {entries : ExistingBatch} {ch : Channels} (valid : AnswerValid fromPrefill entries.keys answer)
    (timed : ∀ k e, entries.lookup k = some e → e.batchTime.isSome)
    (opened : ∀ k ∈ entries, OpenAt ch k)
    (fresh : fromPrefill = true → ∀ k ∈ entries, channelRun (eventsOf k ch.log) = some .fresh) :
    ∃ next entries' ch', handleAnswer clients filterAnswer answer entries ch = .ok (next, entries', ch') ∧
      Handled entries entries' ch ch' ∧ CacheMatches next entries' := by
  rcases answer with error | ⟨generations, next⟩
  · exact ⟨none, ∅, _, rfl, sendErrors_spec error opened, AList.keys_empty⟩
  obtain ⟨perm, wellFormed, nextValid⟩ := valid
  have nodup : (generations.map Generation.requestId).Nodup := perm.nodup_iff.mpr entries.keys_nodup
  have memEntries : ∀ g ∈ generations, g.requestId ∈ entries :=
    fun g hg => AList.mem_keys.mpr (perm.mem_iff.mp (List.mem_map_of_mem _ hg))
  obtain ⟨entries', ch', run, handled, gone⟩ := @filterSendGenerations_spec clients generations entries ch
    nodup memEntries (fun g hg => (wellFormed g hg).1) timed opened fun g hg pre => by
      cases fromPrefill
      · rw [(wellFormed g hg).2 rfl] at pre; cases pre
      · exact fresh rfl _ (memEntries g hg)
  refine ⟨filterBatch filterAnswer next entries', entries', ch', by simp [handleAnswer, run], handled,
    filterBatch_spec filterValid
    (((List.filter_sublist (p := fun g => g.generatedText.isNone) generations).map _).nodup nodup)
    (fun k hk => ?_) ?_⟩
  · obtain ⟨g, hg, rfl⟩ := List.mem_map.mp (perm.mem_iff.mpr (AList.mem_keys.mp (handled.mem hk)))
    have unfinished : g.generatedText.isNone = true := by
      cases finished : g.generatedText
      · rfl
      · exact absurd hk (gone g hg (by simp [finished]))
    exact List.mem_map_of_mem _ (List.mem_filter.mpr ⟨hg, unfinished⟩)
  · rcases next with _ | batch
    · dsimp only at nextValid
      exact List.map_eq_nil_iff.mpr (List.filter_eq_nil_iff.mpr fun g hg => by
        simpa using Option.ne_none_iff_isSome.mpr (nextValid g hg))
    · exact nextValid

end TgiRouter
