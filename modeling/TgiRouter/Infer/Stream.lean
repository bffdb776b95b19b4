import TgiRouter.Queue.Entry

/-!
# Response channels of the batching task

`router/src/infer.rs` answers every request through an unbounded channel: the batching
task holds the sender in the request's `Entry`, the client holds the receiver and may
drop it at any moment. This module models what a channel sees.

* The messages are `InferStreamResponse` or an `InferError`, with the generation types of
  the client crate reduced to the fields the router reads or forwards.
* `Clients` is the environment: whether the receiver of a request is closed at the
  `tick`-th channel operation of the task, closed for good once closed.
* `Channels` is the task's side: every message delivered and every sender dropped, in
  order, each with its request id. `send` fails on a closed receiver, as
  `UnboundedSender::send` does; dropping a sender records whether the receiver had
  already gone.
* `ChannelPhase.next` is the protocol a client expects on one channel: an optional
  `Prefill`, then `Intermediate` messages, then one `End` or `Err`, then the sender drops.
  The sender may drop early only if the receiver closed first. `channelRun` runs it over a
  channel's events.
* `Streamed`, `Finished` and `Released` say the same in words, and `channelRun_open_iff`,
  `channelRun_eq_finished` and `channelRun_eq_released` show that the automaton accepts
  exactly those event lists.
-/

namespace TgiRouter

/-- `Token`: one token as the router forwards it; the `f32` log-probability is copied,
never computed on. -/
structure Token where
  id : Nat
  text : String
  logprob : Float
  special : Bool

/-- `text_generation_client::Tokens`: four lists read in parallel. -/
structure Tokens where
  ids : List Nat
  logprobs : List Float
  texts : List String
  isSpecial : List Bool

/-- `ids.zip(logprobs).zip(texts).zip(is_special)`, one `Token` per position, as long as
the shortest list. -/
def Tokens.toList (t : Tokens) : List Token :=
  (((t.ids.zip t.logprobs).zip t.texts).zip t.isSpecial).map fun (((id, logprob), text), special) =>
    ⟨id, text, logprob, special⟩

/-- `GeneratedText`, of which the router reads nothing: it moves it into `End`. -/
structure GeneratedText where
  text : String

/-- `text_generation_client::Generation`: what one prefill or decode step produced for one
request. -/
structure Generation where
  requestId : Nat
  prefillTokens : Option Tokens
  tokens : Option Tokens
  generatedText : Option GeneratedText
  topTokens : List Tokens

/-- `text_generation_client::CachedBatch`: a batch the backend keeps for later decode
steps. -/
structure CachedBatch where
  id : Nat
  requestIds : List Nat
  size : Nat
  maxTokens : Nat
  deriving DecidableEq, Repr

/-- `ClientError`, through its message. -/
structure ClientError where
  message : String
  deriving DecidableEq, Repr

/-- `InferError`, with the variants the batching task and `Infer::generate` produce:
`GenerationError` and `IncompleteGeneration`. -/
inductive InferError where
  | generationError (message : String)
  | incompleteGeneration
  deriving DecidableEq, Repr

/-- `InferStreamResponse`; instants are numbers. -/
inductive InferStreamResponse where
  | prefill (tokens : Tokens)
  | intermediate (token : Token) (topTokens : List Token)
  | «end» (token : Token) (topTokens : List Token) (generatedText : GeneratedText)
      (start queued : Nat)

/-- `Result<InferStreamResponse, InferError>`, the item type of a response channel. -/
abbrev StreamItem := Except InferError InferStreamResponse

/-! ## Channels -/

/-- What a response channel sees: a message delivered, or the sender dropped together
with its entry, with whether the receiver was closed by then. -/
inductive ChannelEvent where
  | delivered (item : StreamItem)
  | senderDropped (receiverClosed : Bool)

/-- The clients: `closedAt id tick` says whether the receiver of request `id` is closed at
the `tick`-th channel operation of the task. A receiver never reopens. -/
structure Clients where
  closedAt : Nat → Nat → Bool
  stays : ∀ id t t', t ≤ t' → closedAt id t = true → closedAt id t' = true

/-- The channel operations of the task so far: the events, tagged by request id, and the
number of operations. -/
structure Channels where
  log : List (Nat × ChannelEvent)
  tick : Nat

namespace Channels

variable (ch : Channels) (clients : Clients) (id : Nat)

/-- `response_tx.is_closed()`. -/
def isClosed : Bool × Channels := (clients.closedAt id ch.tick, { ch with tick := ch.tick + 1 })

/-- `response_tx.send(item)`: `true` when delivered. -/
def send (item : StreamItem) : Bool × Channels :=
  if clients.closedAt id ch.tick then (false, { ch with tick := ch.tick + 1 })
  else (true, ⟨ch.log ++ [(id, .delivered item)], ch.tick + 1⟩)

/-- Dropping the entry of request `id`, and with it the sender. -/
def drop : Channels :=
  ⟨ch.log ++ [(id, .senderDropped (clients.closedAt id ch.tick))], ch.tick + 1⟩

end Channels

/-- The events of the channel of request `id`, in order. -/
def eventsOf (id : Nat) (log : List (Nat × ChannelEvent)) : List ChannelEvent :=
  log.filterMap fun e => if e.1 = id then some e.2 else none

@[simp] theorem eventsOf_nil (id : Nat) : eventsOf id [] = [] := rfl

@[simp] theorem eventsOf_append (id : Nat) (l m : List (Nat × ChannelEvent)) :
    eventsOf id (l ++ m) = eventsOf id l ++ eventsOf id m :=
  List.filterMap_append _ _ _

@[simp] theorem eventsOf_self (id : Nat) (e : ChannelEvent) : eventsOf id [(id, e)] = [e] := by
  simp [eventsOf]

@[simp] theorem eventsOf_other {id other : Nat} (ne : other ≠ id) (e : ChannelEvent) :
    eventsOf id [(other, e)] = [] := by
  simp [eventsOf, ne]

/-! ## The protocol of one channel -/

/-- Where a channel stands in its protocol. -/
inductive ChannelPhase where
  | fresh
  | streaming
  | finished
  | released
  deriving DecidableEq, Repr

/-- One event of a channel: `Prefill` only first, `Intermediate` until one `End` or `Err`,
and the sender dropped after it, or earlier only once the receiver is closed. `none` is a
violation. -/
def ChannelPhase.next : ChannelPhase → ChannelEvent → Option ChannelPhase
  | .fresh, .delivered (.ok (.prefill _)) => some .streaming
  | .fresh, .delivered (.ok (.intermediate _ _)) => some .streaming
  | .streaming, .delivered (.ok (.intermediate _ _)) => some .streaming
  | .fresh, .delivered (.ok (.«end» _ _ _ _ _)) => some .finished
  | .streaming, .delivered (.ok (.«end» _ _ _ _ _)) => some .finished
  | .fresh, .delivered (.error _) => some .finished
  | .streaming, .delivered (.error _) => some .finished
  | .fresh, .senderDropped true => some .released
  | .streaming, .senderDropped true => some .released
  | .finished, .senderDropped _ => some .released
  | _, _ => none

/-- The protocol run over the events of one channel. -/
def channelRun (events : List ChannelEvent) : Option ChannelPhase :=
  events.foldlM ChannelPhase.next .fresh

@[simp] theorem channelRun_nil : channelRun [] = some .fresh := rfl

theorem channelRun_append_single (events : List ChannelEvent) (e : ChannelEvent) :
    channelRun (events ++ [e]) = (channelRun events).bind fun p => p.next e := by
  simp [channelRun, List.foldlM_append]

/-- A channel that the task still serves: no terminal message and no drop yet. -/
def ChannelPhase.Open (p : ChannelPhase) : Prop := p = .fresh ∨ p = .streaming

/-- `End` or `Err`: the messages that end a stream. -/
def StreamItem.IsTerminal : StreamItem → Prop
  | .ok (.«end» _ _ _ _ _) => True
  | .ok _ => False
  | .error _ => True

/-- The events of a channel still served: an optional `Prefill`, then `Intermediate`
messages. -/
inductive Streamed : List ChannelEvent → Prop
  | nil : Streamed []
  | prefill (tokens : Tokens) : Streamed [.delivered (.ok (.prefill tokens))]
  | intermediate {events : List ChannelEvent} (token : Token) (topTokens : List Token) :
      Streamed events → Streamed (events ++ [.delivered (.ok (.intermediate token topTokens))])

/-- The events of a finished channel: the stream and one `End` or `Err`. -/
def Finished (events : List ChannelEvent) : Prop :=
  ∃ body item, Streamed body ∧ StreamItem.IsTerminal item ∧ events = body ++ [.delivered item]

/-- The events of a released channel: a finished stream and the drop, or a stream cut
short by a drop after its receiver closed. -/
def Released (events : List ChannelEvent) : Prop :=
  (∃ finished closed, Finished finished ∧ events = finished ++ [.senderDropped closed]) ∨
    ∃ body, Streamed body ∧ events = body ++ [.senderDropped true]

namespace ChannelPhase

variable {p : ChannelPhase}

theorem next_intermediate (hp : p.Open) (token : Token) (top : List Token) :
    p.next (.delivered (.ok (.intermediate token top))) = some .streaming := by
  rcases hp with rfl | rfl <;> rfl

theorem next_end (hp : p.Open) (token : Token) (top : List Token) (text : GeneratedText)
    (start queued : Nat) : p.next (.delivered (.ok (.«end» token top text start queued))) = some .finished := by
  rcases hp with rfl | rfl <;> rfl

theorem next_error (hp : p.Open) (e : InferError) : p.next (.delivered (.error e)) = some .finished := by
  rcases hp with rfl | rfl <;> rfl

theorem next_dropped_of_closed (hp : p.Open) : p.next (.senderDropped true) = some .released := by
  rcases hp with rfl | rfl <;> rfl

/-! What each step of the protocol can do, one lemma per phase reached. -/

variable {e : ChannelEvent}

theorem next_ne_fresh (p : ChannelPhase) (e : ChannelEvent) : p.next e ≠ some .fresh := by
  cases p <;> rcases e with ((_ | (_ | _ | _)) | (_ | _)) <;> simp [next]

theorem next_eq_streaming :
    p.next e = some .streaming ↔ (p = .fresh ∧ ∃ tokens, e = .delivered (.ok (.prefill tokens))) ∨
      (p.Open ∧ ∃ token top, e = .delivered (.ok (.intermediate token top))) := by
  cases p <;> rcases e with ((_ | (_ | _ | _)) | (_ | _)) <;> simp [next, Open]

theorem next_eq_finished :
    p.next e = some .finished ↔ p.Open ∧ ∃ item : StreamItem, item.IsTerminal ∧ e = .delivered item := by
  cases p <;> rcases e with ((_ | (_ | _ | _)) | (_ | _)) <;> simp [next, Open, StreamItem.IsTerminal]

theorem next_eq_released :
    p.next e = some .released ↔ (p.Open ∧ e = .senderDropped true) ∨
      (p = .finished ∧ ∃ closed, e = .senderDropped closed) := by
  cases p <;> rcases e with ((_ | (_ | _ | _)) | (_ | _)) <;> simp [next, Open]

end ChannelPhase

/-! ## The protocol in words

The automaton accepts exactly the event lists the protocol describes: a served channel
has seen `Prefill?` `Intermediate*` (`Streamed`), a finished one that and one `End` or
`Err` (`Finished`), and a released one a finished list and the drop, or a served list
and a drop after the receiver closed (`Released`). -/

theorem streamed_append_single {events : List ChannelEvent} {e : ChannelEvent} :
    Streamed (events ++ [e]) ↔ (events = [] ∧ ∃ tokens, e = .delivered (.ok (.prefill tokens))) ∨
      (Streamed events ∧ ∃ token top, e = .delivered (.ok (.intermediate token top))) := by
  constructor
  · intro h
    generalize eq : events ++ [e] = all at h
    cases h with
    | nil => exact absurd eq (List.append_ne_nil_of_right_ne_nil _ (List.cons_ne_nil _ _))
    | prefill tokens =>
      obtain ⟨rfl, last⟩ := List.append_inj' (eq.trans (List.nil_append _).symm) rfl
      exact .inl ⟨rfl, _, List.singleton_inj.mp last⟩
    | intermediate token top streamed =>
      obtain ⟨rfl, rfl⟩ := (List.append_inj' eq rfl).imp_right List.singleton_inj.mp
      exact .inr ⟨streamed, _, _, rfl⟩
  · rintro (⟨rfl, tokens, rfl⟩ | ⟨streamed, token, top, rfl⟩)
    · exact .prefill tokens
    · exact .intermediate token top streamed

theorem channelRun_eq_fresh {events : List ChannelEvent} : channelRun events = some .fresh ↔ events = [] := by
  rcases List.eq_nil_or_concat events with rfl | ⟨events, e, rfl⟩
  · simp
  · simp [channelRun_append_single, Option.bind_eq_some, ChannelPhase.next_ne_fresh]

theorem channelRun_open_iff {events : List ChannelEvent} :
    (∃ p, channelRun events = some p ∧ p.Open) ↔ Streamed events := by
  induction events using List.reverseRecOn with
  | nil => exact ⟨fun _ => .nil, fun _ => ⟨_, rfl, .inl rfl⟩⟩
  | append_singleton events e ih =>
    simp only [channelRun_append_single, Option.bind_eq_some, streamed_append_single, ← ih]
    constructor
    · rintro ⟨q, ⟨p, run, next⟩, rfl | rfl⟩
      · exact absurd next (ChannelPhase.next_ne_fresh p e)
      · rcases ChannelPhase.next_eq_streaming.mp next with ⟨rfl, prefill⟩ | ⟨hp, intermediate⟩
        · exact .inl ⟨channelRun_eq_fresh.mp run, prefill⟩
        · exact .inr ⟨⟨p, run, hp⟩, intermediate⟩
    · rintro (⟨rfl, prefill⟩ | ⟨⟨p, run, hp⟩, intermediate⟩)
      · exact ⟨_, ⟨_, rfl, ChannelPhase.next_eq_streaming.mpr (.inl ⟨rfl, prefill⟩)⟩, .inr rfl⟩
      · exact ⟨_, ⟨p, run, ChannelPhase.next_eq_streaming.mpr (.inr ⟨hp, intermediate⟩)⟩, .inr rfl⟩

theorem channelRun_eq_finished {events : List ChannelEvent} :
    channelRun events = some .finished ↔ Finished events := by
  rcases List.eq_nil_or_concat events with rfl | ⟨events, e, rfl⟩
  · simp [Finished]
  · simp only [List.concat_eq_append, channelRun_append_single, Option.bind_eq_some,
      ChannelPhase.next_eq_finished]
    constructor
    · rintro ⟨p, run, hp, item, terminal, rfl⟩
      exact ⟨events, item, channelRun_open_iff.mp ⟨p, run, hp⟩, terminal, rfl⟩
    · rintro ⟨body, item, streamed, terminal, eq⟩
      obtain ⟨rfl, rfl⟩ := (List.append_inj' eq rfl).imp_right List.singleton_inj.mp
      obtain ⟨p, run, hp⟩ := channelRun_open_iff.mpr streamed
      exact ⟨p, run, hp, item, terminal, rfl⟩

theorem channelRun_eq_released {events : List ChannelEvent} :
    channelRun events = some .released ↔ Released events := by
  rcases List.eq_nil_or_concat events with rfl | ⟨events, e, rfl⟩
  · simp [Released]
  · simp only [List.concat_eq_append, channelRun_append_single, Option.bind_eq_some,
      ChannelPhase.next_eq_released]
    constructor
    · rintro ⟨p, run, ⟨hp, rfl⟩ | ⟨rfl, closed, rfl⟩⟩
      · exact .inr ⟨events, channelRun_open_iff.mp ⟨p, run, hp⟩, rfl⟩
      · exact .inl ⟨events, closed, channelRun_eq_finished.mp run, rfl⟩
    · rintro (⟨finished, closed, done, eq⟩ | ⟨body, streamed, eq⟩)
      · obtain ⟨rfl, rfl⟩ := (List.append_inj' eq rfl).imp_right List.singleton_inj.mp
        exact ⟨_, channelRun_eq_finished.mpr done, .inr ⟨rfl, closed, rfl⟩⟩
      · obtain ⟨rfl, rfl⟩ := (List.append_inj' eq rfl).imp_right List.singleton_inj.mp
        obtain ⟨p, run, hp⟩ := channelRun_open_iff.mpr streamed
        exact ⟨p, run, .inl ⟨hp, rfl⟩⟩

/-- The channel of `id` is still served at `ch`. -/
def OpenAt (ch : Channels) (id : Nat) : Prop := ∃ p, channelRun (eventsOf id ch.log) = some p ∧ p.Open

/-- A sender that may be dropped now: the channel is finished, or still served with its
receiver closed. -/
def Droppable (clients : Clients) (ch : Channels) (id : Nat) : Prop :=
  channelRun (eventsOf id ch.log) = some .finished ∨ OpenAt ch id ∧ clients.closedAt id ch.tick = true

/-! ## One operation at a time -/

namespace Channels

/-- `ch'` follows `ch` and differs from it on the channel of `id` alone. -/
def Touches (id : Nat) (ch ch' : Channels) : Prop :=
  ch.tick ≤ ch'.tick ∧ ∀ other, other ≠ id → eventsOf other ch'.log = eventsOf other ch.log

theorem Touches.refl (id : Nat) (ch : Channels) : Touches id ch ch := ⟨le_rfl, fun _ _ => rfl⟩

theorem Touches.trans {id : Nat} {a b c : Channels} (ab : Touches id a b) (bc : Touches id b c) :
    Touches id a c :=
  ⟨ab.1.trans bc.1, fun other ne => (bc.2 other ne).trans (ab.2 other ne)⟩

variable {clients : Clients} {id : Nat} {ch : Channels}

theorem isClosed_touches : Touches id ch (ch.isClosed clients id).2 := ⟨Nat.le_succ _, fun _ _ => rfl⟩

@[simp] theorem isClosed_log : (ch.isClosed clients id).2.log = ch.log := rfl

@[simp] theorem isClosed_tick : (ch.isClosed clients id).2.tick = ch.tick + 1 := rfl

/-- A send either delivers its item on the channel of `id`, or finds the receiver closed
and leaves every channel as it was. -/
theorem send_cases (ch : Channels) (clients : Clients) (id : Nat) (item : StreamItem) :
    (ch.send clients id item).1 = true ∧
        (ch.send clients id item).2 = ⟨ch.log ++ [(id, .delivered item)], ch.tick + 1⟩ ∨
      (ch.send clients id item).1 = false ∧ (ch.send clients id item).2 = ⟨ch.log, ch.tick + 1⟩ ∧
        clients.closedAt id (ch.tick + 1) = true := by
  unfold send
  split_ifs with closed
  · exact .inr ⟨rfl, rfl, clients.stays id _ _ (Nat.le_succ _) closed⟩
  · exact .inl ⟨rfl, rfl⟩

/-- A send on an open receiver delivers its item. -/
theorem send_of_open (item : StreamItem) (opened : clients.closedAt id ch.tick = false) :
    ch.send clients id item = (true, ⟨ch.log ++ [(id, .delivered item)], ch.tick + 1⟩) := by
  simp [send, opened]

theorem send_touches (item : StreamItem) : Touches id ch (ch.send clients id item).2 := by
  rcases send_cases ch clients id item with ⟨-, eq⟩ | ⟨-, eq, -⟩ <;>
    rw [eq] <;> refine ⟨Nat.le_succ _, fun other ne => ?_⟩ <;> simp [eventsOf_other (Ne.symm ne)]

/-- A send on a served channel of an item the protocol allows there: delivered, the
channel moves on; refused, its receiver is closed and its sender may be dropped. -/
theorem send_advances {item : StreamItem} {p q : ChannelPhase} (run : channelRun (eventsOf id ch.log) = some p)
    (hp : p.Open) (step : p.next (.delivered item) = some q) :
    (ch.send clients id item).1 = true ∧ channelRun (eventsOf id (ch.send clients id item).2.log) = some q ∨
      (ch.send clients id item).1 = false ∧ Droppable clients (ch.send clients id item).2 id := by
  rcases send_cases ch clients id item with ⟨ok, eq⟩ | ⟨failed, eq, closed⟩ <;> rw [eq]
  · exact .inl ⟨ok, by simp [channelRun_append_single, run, step]⟩
  · exact .inr ⟨failed, .inr ⟨⟨p, run, hp⟩, closed⟩⟩

theorem drop_touches : Touches id ch (ch.drop clients id) :=
  ⟨Nat.le_succ _, fun other ne => by simp [drop, eventsOf_other (Ne.symm ne)]⟩

/-- Dropping a sender that may be dropped releases its channel. -/
theorem drop_released (droppable : Droppable clients ch id) :
    channelRun (eventsOf id (ch.drop clients id).log) = some .released := by
  simp only [drop, eventsOf_append, eventsOf_self, channelRun_append_single]
  rcases droppable with finished | ⟨⟨p, run, hp⟩, closed⟩
  · rw [finished]; rfl
  · rw [run, closed]; exact ChannelPhase.next_dropped_of_closed hp

end Channels

end TgiRouter
