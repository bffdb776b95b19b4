import TgiRouter.Infer.Invariant

/-!
# The client side of a response channel

`Infer::generate` in `router/src/infer.rs` reads its response stream to the end: it keeps
the prefill tokens, appends the token of every `Intermediate` and `End` message, takes the
generated text and the two instants from `End`, and returns the first error it reads.
When the stream ends without an `End` it answers `IncompleteGeneration`.

The stream yields the items delivered on its channel, in order, and ends once the sender
is dropped (`receivedItems`). `generate_of_streamed` says what `generate` returns on a
channel that carried a served stream, one more message and the drop: the prefill, the
tokens and the end of the stream for an `End`, the error sent for an `Err`. With the run
invariant of the batching task this gives `generate_completes`: in every run, a client
whose receiver was still open when its entry was dropped reads a complete stream, and
`generate` returns exactly what its terminal message says.
-/

namespace TgiRouter

/-- `PrefillToken`. -/
structure PrefillToken where
  id : Nat
  text : String
  logprob : Float

/-- The prefill tokens as `generate` converts them: `ids.zip(logprobs).zip(texts)`. -/
def Tokens.toPrefill (t : Tokens) : List PrefillToken :=
  ((t.ids.zip t.logprobs).zip t.texts).map fun ((id, logprob), text) => ⟨id, text, logprob⟩

/-- `InferResponse`; `_input_length` is `inputLength`. -/
structure InferResponse where
  inputLength : Nat
  prefill : List PrefillToken
  tokens : List Token
  generatedText : GeneratedText
  queued : Nat
  start : Nat
  topTokens : List (List Token)

/-- What the response stream yields: every item delivered on the channel, in order. -/
def receivedItems (events : List ChannelEvent) : List StreamItem :=
  events.filterMap fun
    | .delivered item => some item
    | .senderDropped _ => none

/-- The return values `generate` gathers while it reads the stream. -/
structure Gathered where
  prefill : List PrefillToken
  tokens : List Token
  topTokens : List (List Token)
  generatedText : Option GeneratedText
  start : Option Nat
  queued : Option Nat

/-- Before the stream is read. -/
def Gathered.init : Gathered := ⟨[], [], [], none, none, none⟩

/-- The arm of the `match` for one message. -/
def Gathered.add (acc : Gathered) : InferStreamResponse → Gathered
  | .prefill tokens => { acc with prefill := tokens.toPrefill }
  | .intermediate token topTokens =>
    { acc with tokens := acc.tokens ++ [token], topTokens := acc.topTokens ++ [topTokens] }
  | .«end» token topTokens generatedText start queued =>
    { acc with
      tokens := acc.tokens ++ [token]
      topTokens := acc.topTokens ++ [topTokens]
      generatedText := some generatedText
      start := some start
      queued := some queued }

/-- The `while let` loop over the stream; `response?` returns the first error read. -/
def gather : List StreamItem → Gathered → Except InferError Gathered
  | [], acc => .ok acc
  | .error e :: _, _ => .error e
  | .ok response :: rest, acc => gather rest (acc.add response)

/-- `Infer::generate` once `generate_stream` has handed it the stream of `items`;
`useTopTokens` is `top_n_tokens.is_some_and(|x| x > 0)`. -/
def generate (useTopTokens : Bool) (inputLength : Nat) (items : List StreamItem) :
    Except InferError InferResponse :=
  match gather items .init with
  | .error e => .error e
  | .ok acc =>
    match acc.generatedText, acc.queued, acc.start with
    | some generatedText, some queued, some start =>
      .ok ⟨inputLength, acc.prefill, acc.tokens, generatedText, queued, start,
        if useTopTokens then acc.topTokens else []⟩
    | _, _, _ => .error .incompleteGeneration

/-! ## What a served channel carried -/

/-- The prefill tokens at the head of a served channel, as `generate` keeps them. -/
def streamedPrefill : List ChannelEvent → List PrefillToken
  | .delivered (.ok (.prefill tokens)) :: _ => tokens.toPrefill
  | _ => []

/-- The token and top tokens of every `Intermediate` message a channel carried. -/
def streamedTokens (events : List ChannelEvent) : List (Token × List Token) :=
  events.filterMap fun
    | .delivered (.ok (.intermediate token topTokens)) => some (token, topTokens)
    | _ => none

/-- What `generate` should answer for a stream that ended with `item` after `body`: the
response assembled from the messages, or the error sent. -/
def expectedResponse (useTopTokens : Bool) (inputLength : Nat) (body : List ChannelEvent) :
    StreamItem → Except InferError InferResponse
  | .ok (.«end» token topTokens generatedText start queued) =>
    .ok ⟨inputLength, streamedPrefill body, (streamedTokens body).map Prod.fst ++ [token], generatedText,
      queued, start, if useTopTokens then (streamedTokens body).map Prod.snd ++ [topTokens] else []⟩
  | .ok _ => .error .incompleteGeneration
  | .error e => .error e

@[simp] theorem receivedItems_append (l m : List ChannelEvent) :
    receivedItems (l ++ m) = receivedItems l ++ receivedItems m :=
  List.filterMap_append _ _ _

@[simp] theorem streamedTokens_append (l m : List ChannelEvent) :
    streamedTokens (l ++ m) = streamedTokens l ++ streamedTokens m :=
  List.filterMap_append _ _ _

theorem gather_append (l m : List StreamItem) (acc : Gathered) :
    gather (l ++ m) acc = (gather l acc).bind (gather m) := by
  induction l generalizing acc with
  | nil => rfl
  | cons item l ih =>
    rcases item with e | response
    · rfl
    · exact ih _

/-- Reading a served channel gathers its prefill and its tokens, and nothing of an end. -/
theorem gather_streamed {body : List ChannelEvent} (streamed : Streamed body) :
    gather (receivedItems body) .init =
      .ok ⟨streamedPrefill body, (streamedTokens body).map Prod.fst, (streamedTokens body).map Prod.snd,
        none, none, none⟩ := by
  induction streamed with
  | nil => rfl
  | prefill tokens => rfl
  | @intermediate events token topTokens _ ih =>
    have prefill : streamedPrefill (events ++ [.delivered (.ok (.intermediate token topTokens))]) =
        streamedPrefill events := by
      rcases events with _ | ⟨((_ | (_ | _ | _)) | _), events⟩ <;> rfl
    simp only [receivedItems_append, gather_append, ih, prefill, streamedTokens_append, List.map_append]
    rfl

/-- On a channel that carried a served stream, one more message and the drop, `generate`
answers what that message says: the response for an `End`, the error for an `Err`, and
`IncompleteGeneration` for any other. -/
theorem generate_of_streamed (useTopTokens : Bool) (inputLength : Nat) {body : List ChannelEvent}
    (streamed : Streamed body) (item : StreamItem) (closed : Bool) :
    generate useTopTokens inputLength (receivedItems (body ++ [.delivered item, .senderDropped closed])) =
      expectedResponse useTopTokens inputLength body item := by
  have items : receivedItems (body ++ [.delivered item, .senderDropped closed]) =
      receivedItems body ++ [item] := by
    simp [receivedItems]
  rw [items, generate, gather_append, gather_streamed streamed]
  rcases item with e | (_ | _ | _) <;> rfl

/-! ## Over every run -/

/-- A drop ends a channel's service: a channel whose last event is a drop is not served. -/
theorem not_streamed_dropped (before : List ChannelEvent) (closed : Bool) :
    ¬ Streamed (before ++ [.senderDropped closed]) := by
  rw [streamed_append_single]
  rintro (⟨-, _, ⟨⟩⟩ | ⟨-, _, _, ⟨⟩⟩)

/-- In every run of the batching task, a client whose receiver was still open when its
entry was dropped read a served stream, one `End` or `Err`, and the end of the stream:
`generate` answers with the response those messages make, or with the error sent, and
never `IncompleteGeneration` for want of an `End`. -/
theorem generate_completes {params : BatchingParams} {clients : Clients} {t : Task}
    (reach : t.Reachable params clients) {k : Nat} {before : List ChannelEvent}
    (dropped : eventsOf k t.channels.log = before ++ [.senderDropped false]) (useTopTokens : Bool)
    (inputLength : Nat) :
    ∃ body item, Streamed body ∧ item.IsTerminal ∧
      eventsOf k t.channels.log = body ++ [.delivered item, .senderDropped false] ∧
      generate useTopTokens inputLength (receivedItems (eventsOf k t.channels.log)) =
        expectedResponse useTopTokens inputLength body item := by
  have inv := reachable_taskInv reach
  have out : k ∉ t.held := fun held =>
    not_streamed_dropped before false (dropped ▸ channelRun_open_iff.mp (inv.heldOk.opened held))
  have issued : k ∈ t.issued := by
    by_contra never
    have silent := (inv.releasedOk k out).2 never
    rw [dropped] at silent
    exact List.append_ne_nil_of_right_ne_nil _ (List.cons_ne_nil _ _) silent
  rcases channelRun_eq_released.mp ((inv.releasedOk k out).1 issued) with
    ⟨finished, closed, ⟨body, item, streamed, terminal, rfl⟩, events⟩ | ⟨body, -, events⟩
  · obtain ⟨-, same⟩ := (List.append_inj' (dropped.symm.trans events) rfl).imp_right List.singleton_inj.mp
    cases same
    rw [show eventsOf k t.channels.log = body ++ [.delivered item, .senderDropped false] by simpa using events]
    exact ⟨body, item, streamed, terminal, rfl, generate_of_streamed useTopTokens inputLength streamed item false⟩
  · obtain ⟨-, same⟩ := (List.append_inj' (dropped.symm.trans events) rfl).imp_right List.singleton_inj.mp
    cases same

/-- `servedGeneration` ending the request with the text `"a"`. -/
def finishedGeneration : Generation := { servedGeneration with generatedText := some ⟨"a"⟩ }

/-- The task once the prefill of `servedEntries` ended the request with its first token. -/
def servedFinished : Task :=
  { Task.init with issued := Task.init.issued ++ servedEntries.keys }.startBatch servedClients keepIds
    (.ok ([finishedGeneration], none)) servedEntries

theorem servedFinished_reachable : servedFinished.Reachable servedParams servedClients := by
  have timed : ∀ k e, servedEntries.lookup k = some e → e.batchTime.isSome := fun k e found => by
    by_cases k0 : k = 0
    · subst k0; cases found; rfl
    · rw [servedEntries, AList.lookup_insert_ne k0] at found
      cases found
  have queueValid : QueueAnswerValid servedParams.firstRequest Task.init.issued servedEntries servedBatch :=
    ⟨.refl _, fun _ _ => List.not_mem_nil _, timed, fun _ none => by cases none⟩
  have valid : AnswerValid true (servedBatch.requests.map Request.id) (.ok ([finishedGeneration], none)) :=
    ⟨.refl _, by simp [finishedGeneration, servedGeneration, Generation.WellFormed], by simp [finishedGeneration]⟩
  exact .single (@Step.start servedParams servedClients Task.init servedEntries servedBatch _ keepIds rfl
    queueValid valid fun _ _ => ⟨_, rfl, rfl, rfl⟩)

/-- The request of `servedFinished` saw its `End` and the drop, and `generate` answers with it. -/
theorem generate_completes_servedFinished :
    servedFinished.Reachable servedParams servedClients ∧
      eventsOf 0 servedFinished.channels.log =
        [.delivered (.ok (.«end» servedToken [] ⟨"a"⟩ 0 0))] ++ [.senderDropped false] ∧
      ∃ body item, Streamed body ∧ item.IsTerminal ∧
        eventsOf 0 servedFinished.channels.log = body ++ [.delivered item, .senderDropped false] ∧
        generate false 1 (receivedItems (eventsOf 0 servedFinished.channels.log)) =
          expectedResponse false 1 body item :=
  ⟨servedFinished_reachable, rfl, @generate_completes servedParams servedClients servedFinished servedFinished_reachable 0
    [.delivered (.ok (.«end» servedToken [] ⟨"a"⟩ 0 0))] rfl false 1⟩

end TgiRouter
