import PulseCoap.Server.Answer
import PulseCoap.Server.Dispatch
import PulseCoap.Server.Tables

/-!
# PulseCoAP — which observer an RST removes

The RST branch looks for the observer that was last sent the rejected message,
by a message ID that `handleRequest` and `notify` note in its entry. They note
it before they send: a registration notes the ID of the request, which is that
of the response only if the request is Confirmable, and a message that is not
sent in the end is noted all the same. No other response is noted.

A server is watched together with the message IDs of the datagrams that it has
sent, by remote and token; what the pool scan sends again is not counted.

The condition is about one step, on the state before it, and asks it of every
response that would go out under the token of an observer: the message ID of the
response is the one in the entry. A plain GET under a token that is observed
breaks it, and so does a registration that is not Confirmable. While a handler
runs the entry of its request is left out, because the registration has noted an
ID and the response is still to come.

* `lastOf_finish` — what the return of a handler sends last.
* `Inv.step` — while every response under the token of an observer carries the
  ID in its entry, the entries note what was sent last.
* `removes_right_iff` — in such runs an RST removes the right observers, exactly
  when it names at most one.
* `not_removes_right` — a registration that is not Confirmable.
* `Faithful` — the condition. `Inv` — the invariant.
* `RemovesRight`, `NamesOne` — what an RST should do, and when it can.
-/

namespace PulseCoap

namespace Server

variable {cfg : Config}

-- ===========================================================================
-- What has been sent
-- ===========================================================================

/-- The message ID last sent to a remote under a token. -/
abbrev SentIds := Endpoint → Bytes → Option UInt16

/-- The newest message ID takes the place of the one before, for this peer and token only. -/
def SentIds.put (last : SentIds) (dest : Endpoint) (token : Bytes) (id : UInt16) : SentIds :=
  fun dest' token' => if dest' = dest ∧ token' = token then some id else last dest' token'

/-- A response or a notification is noted under its token; an empty ACK is neither. -/
def noteSent (cfg : Config) (last : SentIds) : ServerEvent → SentIds
  | .sent dest data =>
    match Message.decode cfg data with
    | (.none, m) => if m.code = Code.empty then last else last.put dest m.token m.messageId
    | _ => last
  | _ => last

/-- What the events of a step leave noted, one after the other. -/
def lastOf (cfg : Config) (events : List ServerEvent) (last : SentIds) : SentIds :=
  events.foldl (noteSent cfg) last

/-- What a step sends, but for the pool scan. A resend has an old message ID, and is no newer
message. -/
def ownEvents (s : Server cfg) : Action → List ServerEvent
  | .poll nowMs rx =>
    match s.control with
    | .idle => ((s.scanned nowMs).receive rx).2
    | .handling _ => []
  | a => (s.step a).2

/-- A server and the message IDs it has sent. The second part is what the code's
`lastSentMessageId` is meant to be. -/
structure Noting (cfg : Config) where
  server : Server cfg := {}
  last   : SentIds := fun _ _ => none

namespace Noting

def next (w : Noting cfg) (a : Action) : Noting cfg × List ServerEvent :=
  ({ server := (w.server.step a).1, last := lastOf cfg (w.server.ownEvents a) w.last },
    (w.server.step a).2)

def machine (cfg : Config) : Machine (Noting cfg) Action ServerEvent where
  init := {}
  next := next

/-- A step that is no poll sends nothing of the pool scan's. -/
theorem next_last (w : Noting cfg) {a : Action} (ha : ∀ nowMs rx, a ≠ .poll nowMs rx) :
    (w.next a).1.last = lastOf cfg (w.server.step a).2 w.last := by
  cases a with
  | poll nowMs rx => exact absurd rfl (ha nowMs rx)
  | call c => rfl
  | handlerReturns res => rfl

/-- The entry notes what was sent last to its peer under its token. -/
def Notes (last : SentIds) (o : Observer) : Prop := last o.remote o.token = some o.lastSentMessageId

instance (last : SentIds) (o : Observer) : Decidable (Notes last o) :=
  inferInstanceAs (Decidable (_ = _))

-- ===========================================================================
-- The steps that note what they send
-- ===========================================================================

/-- The message ID of the reply to a request: its own if it is Confirmable, otherwise the next
one of the server. -/
def replyId (s : Server cfg) (request : Message) : UInt16 :=
  if request.type = .confirmable then request.messageId else s.nextMessageId

/-- A request that an application's handler gets. The reply to it is sent when the handler
returns, or later. -/
def HandsOver (s : Server cfg) (msg : Message) (sender : Endpoint) : Prop :=
  s.Invokes msg sender ∧ ∀ t, s.admitted msg = some t → t.resource.handler ≠ .wellKnownCore

/-- The return of the handler sends a response. It does not if it defers, or if the response
does not encode; and an empty code would make it no response. -/
def Responds (h : Handling cfg) (res : Response) : Prop :=
  ¬ (res.deferred = true ∧ h.deferIdx.isSome = true) ∧
    resultSize cfg h.msg h.observeValue h.deferIdx.isSome h.session.isSome res ≤ cfg.maxMsgSize ∧
    (if h.session.isSome then res.code else inlineCode cfg h.msg res) ≠ Code.empty

instance (h : Handling cfg) (res : Response) : Decidable (Responds h res) :=
  inferInstanceAs (Decidable (_ ∧ _ ∧ _))

/-- A handler is running for a request with the remote and the token of this observer. The entry
may then be ahead of what was sent. -/
def Busy (s : Server cfg) (o : Observer) : Prop :=
  ∃ h, s.control = .handling h ∧ o.remote = h.sender ∧ o.token = h.msg.token

/-- A notification with this payload. -/
def notificationSize (cfg : Config) (o : Observer) (sequence : UInt32) (payload : Bytes)
    (contentFormat : ContentFormat) : Nat :=
  replySize cfg o.token.length [(OptionNumber.observe, sequence),
    (OptionNumber.contentFormat, contentFormat.raw.toUInt32)] payload.length

/-- The separate response to a deferred request. -/
def separateSize (cfg : Config) (dr : DeferredRequest) (payload : Bytes)
    (contentFormat : ContentFormat) : Nat :=
  replySize cfg dr.token.length (contentUint payload contentFormat) payload.length

/-- **Every response under the token of an observer carries the message ID in its entry**, and so
does every notification. -/
def Faithful (w : Noting cfg) : Action → Prop
  -- a request that is answered without an application's handler
  | .poll nowMs (some (sender, data)) =>
    w.server.control = .idle →
    let s := w.server.scanned nowMs
    let r := Message.decode cfg data
    r.1 = .none → IsRequest r.2 → ¬ HandsOver s r.2 sender →
      ∀ i, observes sender r.2.token (s.observers i) = true →
        (s.observers i).lastSentMessageId = replyId s r.2
  | .poll _ none => True
  -- a response is noted; without one, what is noted has been sent before
  | .handlerReturns res =>
    ∀ h, w.server.control = .handling h →
      ∀ i, observes h.sender h.msg.token (w.server.observers i) = true →
        if Responds h res then (w.server.observers i).lastSentMessageId = replyId w.server h.msg
        else Notes w.last (w.server.observers i)
  | .call (.notify path payload cf _) =>
    ∀ t, w.server.findTarget path = some t → t.resource.observable = true →
      ∀ i, (w.server.observers i).active = true →
        (w.server.observers i).resourceIndex = UInt8.ofNat t.index →
        ¬ Busy w.server (w.server.observers i) →
        notificationSize cfg (w.server.observers i) (t.resource.observeSequence + 1) payload cf ≤
          cfg.maxMsgSize
  -- the separate response takes a message ID that is not noted
  | .call (.respond handle code payload cf) =>
    ∀ i : Fin cfg.maxDeferred, i.val = handle.toNat → (w.server.deferred i).active = true →
      separateSize cfg (w.server.deferred i) payload cf ≤ cfg.maxMsgSize → code ≠ Code.empty →
      ∀ j, observes (w.server.deferred i).remote (w.server.deferred i).token
          (w.server.observers j) = true →
        ¬ Busy w.server (w.server.observers j) →
        (w.server.observers j).lastSentMessageId = w.server.nextMessageId
  | .call _ => True

-- ===========================================================================
-- What the replies send
-- ===========================================================================

theorem lastOf_append (ev ev' : List ServerEvent) (last : SentIds) :
    lastOf cfg (ev ++ ev') last = lastOf cfg ev' (lastOf cfg ev last) := List.foldl_append ..

theorem put_self (last : SentIds) (dest : Endpoint) (token : Bytes) (id : UInt16) :
    last.put dest token id dest token = some id := if_pos ⟨rfl, rfl⟩

theorem put_other {last : SentIds} {dest dest' : Endpoint} {token token' : Bytes} {id : UInt16}
    (h : ¬ (dest' = dest ∧ token' = token)) :
    last.put dest token id dest' token' = last dest' token' := if_neg h

/-- A message is noted when it fits and is not empty. What is noted is its own message ID, under
its own token. -/
theorem lastOf_carries {m : Message} {hd : ReplyHeader} {uints : List (UInt16 × UInt32)}
    {payload : Bytes} (h : Carries cfg m hd uints payload) (dest : Endpoint) (last : SentIds) :
    lastOf cfg (sendIfEncoded cfg m dest) last =
      if replySize cfg hd.token.length uints payload.length ≤ cfg.maxMsgSize ∧
          hd.code ≠ Code.empty then last.put dest hd.token hd.messageId else last := by
  rw [← h.size]
  by_cases hfits : m.wireSize ≤ cfg.maxMsgSize
  · -- what arrives is what was built
    rw [sendIfEncoded_fits h.built dest hfits]
    show noteSent cfg last (.sent dest m.wire) = _
    unfold noteSent
    dsimp only
    rw [Message.decode_wire h.built.toWellFormed]
    dsimp only
    rw [h.code, h.token, h.messageId]
    by_cases hcode : hd.code = Code.empty
    · rw [if_pos hcode, if_neg fun hboth => hboth.2 hcode]
    · rw [if_neg hcode, if_pos ⟨hfits, hcode⟩]
  · rw [sendIfEncoded_drops h.built dest (by omega), if_neg fun hboth => hfits hboth.1]
    rfl

/-- A reply that is sent is the last datagram to its peer under its token. -/
theorem lastOf_reply {s : Server cfg} {m msg : Message} {code : Code}
    {uints : List (UInt16 × UInt32)} {payload : Bytes}
    (h : Carries cfg m (s.replyHeader msg code) uints payload) (dest : Endpoint)
    (last : SentIds) : lastOf cfg (sendIfEncoded cfg m dest) last =
      if replySize cfg msg.token.length uints payload.length ≤ cfg.maxMsgSize ∧
          code ≠ Code.empty then last.put dest msg.token (replyId s msg) else last := by
  have hhd : s.replyHeader msg code =
      ⟨(s.replyHeader msg code).type, replyId s msg, msg.token, code⟩ := by
    unfold replyHeader replyId
    split <;> rfl
  rw [lastOf_carries h, hhd]

/-- These datagrams reply to a request: whatever was noted before, only its own peer and token
can have changed, to the ID of the reply. -/
def RepliesTo (s : Server cfg) (msg : Message) (dest : Endpoint) (ev : List ServerEvent) : Prop :=
  ∀ last, lastOf cfg ev last = last ∨
    lastOf cfg ev last = SentIds.put last dest msg.token (replyId s msg)

/-- A reply is one, whatever its options and its payload. -/
theorem repliesTo_reply {s : Server cfg} {m msg : Message} {code : Code}
    {uints : List (UInt16 × UInt32)} {payload : Bytes}
    (h : Carries cfg m (s.replyHeader msg code) uints payload) (dest : Endpoint) :
    RepliesTo s msg dest (sendIfEncoded cfg m dest) := by
  intro last
  rw [lastOf_reply h]
  split
  · exact .inr rfl
  · exact .inl rfl

/-- **What the return of a handler sends** is a response with the ID of `reply`, or nothing that
counts. -/
theorem lastOf_finish (s : Server cfg) (h : Handling cfg)
    (ht : h.msg.token.length ≤ kMaxTokenLen) (res : Response) (last : SentIds) :
    lastOf cfg (s.finish h res).2 last =
      if Responds h res then last.put h.sender h.msg.token (replyId s h.msg) else last := by
  unfold finish
  by_cases hdef : res.deferred = true ∧ h.deferIdx.isSome = true
  · -- the empty ACK is no response
    rw [if_pos hdef, if_neg fun hresp : Responds h res => hresp.1 hdef]
    dsimp only
    split
    · exact (lastOf_carries (carries_emptyAck cfg h.msg.messageId) h.sender last).trans
        (if_neg fun hboth => hboth.2 rfl)
    · rfl
  · rw [if_neg hdef]
    dsimp only
    have hresp : Responds h res ↔
        resultSize cfg h.msg h.observeValue h.deferIdx.isSome h.session.isSome res ≤
            cfg.maxMsgSize ∧
          (if h.session.isSome then res.code else inlineCode cfg h.msg res) ≠ Code.empty :=
      and_iff_right hdef
    have hsize : resultSize cfg h.msg h.observeValue h.deferIdx.isSome h.session.isSome res =
        if h.session.isSome then contentSize cfg h.msg h.observeValue res
        else inlineSize cfg h.msg h.observeValue res := if_neg hdef
    simp only [hresp, hsize]
    cases hs : h.session with
    | some i =>
      -- the upload session is freed, and the response comes in one piece
      have hc := (((s.freeBlock1Session? (some i)).freeDeferred? h.deferIdx).carries_content res.code
        res.payload res.contentFormat h.observeValue ht)
      have hid : replyId ((s.freeBlock1Session? (some i)).freeDeferred? h.deferIdx) h.msg =
          replyId s h.msg := by
        cases h.deferIdx <;> rfl
      rw [← hid]
      exact lastOf_reply hc h.sender last
    | none =>
      obtain ⟨m, uints, payload, hwrites, hsent⟩ :=
        ((s.freeBlock1Session? none).freeDeferred? h.deferIdx).replyInline_carries h res ht
      have hid : replyId ((s.freeBlock1Session? none).freeDeferred? h.deferIdx) h.msg =
          replyId s h.msg := by
        cases h.deferIdx <;> rfl
      have hlast := lastOf_reply hwrites.carries h.sender last
      rw [hwrites.size, hid] at hlast
      dsimp only
      rw [hsent]
      exact hlast

-- ===========================================================================
-- Requests
-- ===========================================================================

/-- An error reply is one, whatever its code. -/
theorem repliesTo_error (s : Server cfg) {msg : Message} (ht : msg.token.length ≤ kMaxTokenLen)
    (dest : Endpoint) (code : Code) : RepliesTo s msg dest (s.sendError msg dest code).2 :=
  repliesTo_reply (s.carries_content code [] .textPlain none ht) dest

/-- So is the Continue for a block of an upload. -/
theorem repliesTo_continue (s : Server cfg) {msg : Message} (ht : msg.token.length ≤ kMaxTokenLen)
    (dest : Endpoint) (num : UInt32) (m : Bool) (szx : UInt8) :
    RepliesTo s msg dest (s.sendContinue msg dest num m szx).2 :=
  repliesTo_reply (s.carries_continue (BlockOption.toOptionValue num m szx) ht) dest

/-- What a request comes to: a reply, or the handler of the resource it is for. In the second
case the reply is up to what the handler returns. -/
inductive Answers (s : Server cfg) (msg : Message) (sender : Endpoint)
    (r : Server cfg × List ServerEvent) : Prop where
  | replies (sends : OnlySends r.2) (control : r.1.control = s.control)
      (replies : RepliesTo s msg sender r.2)
  | handles (s' : Server cfg) (t : Target) (ov : Option UInt32)
      (session : Option (Fin cfg.maxBlock1Sessions)) (admits : s.admitted msg = some t)
      (control : s'.control = s.control) (id : s'.nextMessageId = s.nextMessageId)
      (runs : r = s'.runHandler t msg sender ov session)

/-- A block of an upload is answered, or calls the handler that will answer it. -/
theorem answers_handleBlock {s s' : Server cfg} (i : Fin cfg.maxBlock1Sessions) (b1 : BlockOption)
    (t : Target) {msg : Message} (ht : msg.token.length ≤ kMaxTokenLen) (sender : Endpoint)
    (ov : Option UInt32) (hadm : s.admitted msg = some t) (hctl : s'.control = s.control)
    (hid : s'.nextMessageId = s.nextMessageId) :
    Answers s msg sender (s'.handleBlock i b1 t msg sender ov) := by
  -- the session is no part of the reply's ID
  have hreply : ∀ {q : Server cfg}, q.nextMessageId = s'.nextMessageId → ∀ {ev},
      RepliesTo q msg sender ev → RepliesTo s msg sender ev := by
    intro q hq ev h
    have hsame : replyId q msg = replyId s msg := by
      unfold replyId
      rw [hq, hid]
    unfold RepliesTo at h ⊢
    rwa [hsame] at h
  rcases s'.handleBlock_cases i b1 t msg sender ov with ⟨-, h⟩ | ⟨-, -, h⟩ | ⟨-, -, -, h⟩ |
    ⟨-, -, -, h⟩
  · have hq := s'.justReplies_continue msg sender ((s'.block1sessions i).nextExpectedNum - 1) true
      b1.szx
    rw [h]
    exact .replies hq.2 (hq.control.trans hctl) (hreply rfl (repliesTo_continue s' ht sender _ _ _))
  · have hq := (s'.freeBlock1Session i).justReplies_error msg sender Code.requestEntityTooLarge
    rw [h]
    exact .replies hq.2 (hq.control.trans hctl)
      (hreply rfl (repliesTo_error (s'.freeBlock1Session i) ht sender _))
  · have hq :=
      (s'.withSession i (appended (s'.block1sessions i) msg.payloadBytes)).justReplies_continue msg
        sender b1.num false b1.szx
    rw [h]
    refine .replies hq.2 (hq.control.trans hctl) (hreply rfl ?_)
    exact repliesTo_continue (s'.withSession i _) ht sender _ _ _
  · exact .handles (s'.withSession i _) t ov (some i) hadm hctl hid h

/-- **A request** is answered in the same step, or by the handler it calls. The two differ in
when the entry of the request is up to date. -/
theorem answers_handleRequest (s : Server cfg) {msg : Message}
    (ht : msg.token.length ≤ kMaxTokenLen) (sender : Endpoint) :
    Answers s msg sender (s.handleRequest msg sender) := by
  have herror : ∀ code, Answers s msg sender (s.sendError msg sender code) := by
    intro code
    have hq := s.justReplies_error msg sender code
    exact .replies hq.2 hq.control (repliesTo_error s ht sender code)
  rcases s.handleRequest_cases msg sender with ⟨-, code, h⟩ | ⟨t, hadm, h⟩
  · rw [h]
    exact herror code
  rw [h]
  rcases s.handleTarget_cases t msg sender with ⟨-, obs, h⟩ | ⟨opt, -, h⟩
  · rw [h]
    exact .handles (s.withObservers obs) t _ none hadm rfl rfl rfl
  rw [h]
  unfold handleBlock1
  cases BlockOption.fromOption opt with
  | none => exact herror _
  | some b1 =>
    dsimp only
    rcases s.sessionFor_cases b1 sender msg.token with ⟨code, hs⟩ | ⟨i, -, hs⟩ | ⟨i, -, -, -, hs⟩
    · rw [hs]
      exact herror code
    · rw [hs]
      exact answers_handleBlock i b1 t ht sender none hadm rfl rfl
    · rw [hs]
      exact answers_handleBlock i b1 t ht sender none hadm rfl rfl

/-- The application's handler gets control; the server's own replies. -/
theorem runHandler_answers (s : Server cfg) (t : Target) {msg : Message}
    (ht : msg.token.length ≤ kMaxTokenLen) (sender : Endpoint) (ov : Option UInt32)
    (session : Option (Fin cfg.maxBlock1Sessions)) :
    (t.resource.handler ≠ .wellKnownCore ∧
      (∃ h, (s.runHandler t msg sender ov session).1.control = .handling h ∧ h.msg = msg ∧
        h.sender = sender) ∧
      ∀ last, lastOf cfg (s.runHandler t msg sender ov session).2 last = last) ∨
    (t.resource.handler = .wellKnownCore ∧
      (s.runHandler t msg sender ov session).1.control = s.control ∧
      RepliesTo s msg sender (s.runHandler t msg sender ov session).2) := by
  rcases s.runHandler_cases t msg sender ov session with ⟨f, hf, heq⟩ | ⟨hown, heq⟩
  · rw [heq]
    exact .inl ⟨(by rw [hf]; exact nofun), ⟨_, rfl, rfl, rfl⟩, fun _ => rfl⟩
  · obtain ⟨d, hd⟩ := s.fillDeferred_spec s.allocateDeferred msg sender
    rw [heq]
    refine .inr ⟨hown, ?_, fun last => ?_⟩
    · dsimp only
      rw [finish_control, hd]
    · -- the call itself sends nothing
      have hfinish := lastOf_finish (s.fillDeferred s.allocateDeferred msg sender)
        (s.handlingFor msg sender ov session) ht
        (s.fillDeferred s.allocateDeferred msg sender).wellKnownCoreHandler last
      have hid : replyId (s.fillDeferred s.allocateDeferred msg sender) msg = replyId s msg := by
        rw [hd]
        rfl
      rw [← hid]
      have hall := hfinish
      split at hall
      · exact .inr hall
      · exact .inl hall

/-- **What a request comes to**: it is handed over, or replied to. Only a reply is a message
that an RST can reject at once. -/
theorem request_outcome {s : Server cfg} (hidle : s.control = .idle) {msg : Message}
    (hreq : IsRequest msg) (ht : msg.token.length ≤ kMaxTokenLen) (sender : Endpoint) :
    (HandsOver s msg sender ∧
      (∃ h, (s.handleRequest msg sender).1.control = .handling h ∧ h.msg = msg ∧
        h.sender = sender) ∧
      ∀ last, lastOf cfg (s.handleRequest msg sender).2 last = last) ∨
    (¬ HandsOver s msg sender ∧ (s.handleRequest msg sender).1.control = .idle ∧
      RepliesTo s msg sender (s.handleRequest msg sender).2) := by
  have hcalls := s.handleRequest_calls msg sender hreq
  -- the call of a handler is no datagram
  have hevent : ∀ {ev}, CallsOn msg ev → ¬ OnlySends ev := by
    rintro ev ⟨body, t, sender, req, rest, rfl, -⟩ hsends
    exact hsends.not_handled List.mem_cons_self
  rcases answers_handleRequest s ht sender with ⟨sends, control, replies⟩ |
    ⟨s', t, ov, session, hadm, hctl, hid, hruns⟩
  · refine .inr ⟨fun hover => ?_, control.trans hidle, replies⟩
    rcases hcalls with ⟨-, hnot⟩ | ⟨hcall, -⟩
    · exact hnot hover.1
    · exact hevent hcall sends
  · have hinvokes : s.Invokes msg sender := by
      rcases hcalls with ⟨hsends, -⟩ | ⟨-, hinvokes⟩
      · rw [hruns] at hsends
        exact absurd hsends (hevent (callsWith_runHandler s' t msg sender ov session))
      · exact hinvokes
    have hreplyId : replyId s' msg = replyId s msg := by
      unfold replyId
      rw [hid]
    rw [hruns]
    rcases runHandler_answers s' t ht sender ov session with ⟨happ, hrun, hlast⟩ |
      ⟨hown, hctl', hreplies⟩
    · refine .inl ⟨⟨hinvokes, fun t' ht' => ?_⟩, hrun, hlast⟩
      rw [hadm] at ht'
      cases ht'
      exact happ
    · refine .inr ⟨fun hover => hover.2 t hadm hown, hctl'.trans (hctl.trans hidle), ?_⟩
      unfold RepliesTo at hreplies ⊢
      rwa [hreplyId] at hreplies

-- ===========================================================================
-- The observers
-- ===========================================================================

/-- The pool scan drops entries and changes nothing else in them. -/
theorem tickFrom_entry (j : Fin cfg.maxObservers) (is : List (Fin cfg.maxTransactions)) :
    ∀ s : Server cfg, ((s.tickFrom is).1.observers j).active = true →
      (s.tickFrom is).1.observers j = s.observers j := by
  induction is with
  | nil => exact fun s _ => rfl
  | cons i is ih =>
    intro s hact
    have hrest := ih (s.tickAt i).1 hact
    have hact' : ((s.tickAt i).1.observers j).active = true := by
      rw [← hrest]
      exact hact
    refine hrest.trans ?_
    -- a timeout drops the entries of its token
    revert hact'
    unfold tickAt
    dsimp only
    split
    · exact fun _ => rfl
    · exact fun _ => rfl
    · intro hact'
      rw [removeObserver_observers] at hact' ⊢
      split
      · rename_i hobs
        rw [if_pos hobs] at hact'
        cases hact'
      · rfl

/-- An observer that survives the scan is as it was, so its note is the one from before the
poll. -/
theorem scanned_entry (s : Server cfg) (nowMs : UInt32) {j : Fin cfg.maxObservers}
    (hact : ((s.scanned nowMs).observers j).active = true) :
    (s.scanned nowMs).observers j = s.observers j :=
  tickFrom_entry j _ { s with lastNowMs := nowMs } hact

/-- The Observe option writes entries of its own remote and token. -/
theorem handleObserve_entry (s : Server cfg) (t : Target) (msg : Message) (sender : Endpoint)
    {j : Fin cfg.maxObservers}
    (hact : ((s.handleObserve t msg sender).1.observers j).active = true)
    (hother : observes sender msg.token ((s.handleObserve t msg sender).1.observers j) = false) :
    (s.handleObserve t msg sender).1.observers j = s.observers j := by
  rcases s.handleObserve_cases t msg sender with ⟨-, heq⟩ | ⟨-, heq⟩ | ⟨-, -, heq⟩
  · rw [heq] at hother ⊢
    dsimp only at hother ⊢
    rcases s.register_cases (UInt8.ofNat t.index) sender msg.token msg.messageId with
      ⟨i, -, hreg⟩ | ⟨-, -, hreg⟩
    · rw [hreg] at hother ⊢
      by_cases hji : j = i
      · -- the entry that is registered has this key
        subst hji
        have hkey : observes sender msg.token (registered (s.observers j) (UInt8.ofNat t.index)
            sender msg.token msg.messageId) = true := observes_iff.2 ⟨rfl, rfl, rfl⟩
        have hset : (s.withObservers (s.observers.set j (registered (s.observers j)
            (UInt8.ofNat t.index) sender msg.token msg.messageId))).observers j = registered
              (s.observers j) (UInt8.ofNat t.index) sender msg.token msg.messageId :=
          Table.set_self ..
        rw [hset, hkey] at hother
        cases hother
      · exact Table.set_ne _ _ hji
    · rw [hreg]
  · rw [heq] at hact ⊢
    dsimp only at hact ⊢
    rw [removeObserver_observers] at hact ⊢
    split
    · rename_i hobs
      rw [if_pos hobs] at hact
      cases hact
    · rfl
  · rw [heq]

/-- The resource that the server serves itself is not observable. So a request that it answers
at once registers nobody. -/
def OwnHidden (s : Server cfg) : Prop :=
  ∀ r ∈ s.resources, r.handler = .wellKnownCore → r.observable = false

/-- The server's own resource is not observable, and no call of the application makes it so. -/
theorem OwnHidden.call {s : Server cfg} (h : OwnHidden s) (c : ServerCall) :
    OwnHidden (s.call c).1 := by
  refine forall_resources_call (fun _ hentered => hentered.hidden) (fun r r' hupdated hr => ?_) h c
  rw [hupdated.handler, hupdated.observable]
  exact hr

-- ===========================================================================
-- What each step preserves
-- ===========================================================================

/-- Every entry that is not being answered notes what was sent last. -/
structure Inv (w : Noting cfg) : Prop where
  observing : w.server.Observing
  fits      : w.server.TokensFit
  own       : OwnHidden w.server
  running   : ∀ h, w.server.control = .handling h → h.msg.token.length ≤ kMaxTokenLen
  noted     : ∀ i, (w.server.observers i).active = true → ¬ Busy w.server (w.server.observers i) →
    Notes w.last (w.server.observers i)

/-- No entry waits for a reply while no handler runs, so between two polls there is no
exception. -/
theorem not_busy_idle {s : Server cfg} (hidle : s.control = .idle) (o : Observer) : ¬ Busy s o := by
  rintro ⟨h, hrun, -⟩
  rw [hidle] at hrun
  cases hrun

/-- A reply with the noted ID keeps the entries of its key noted, and no other entry minds it. -/
theorem RepliesTo.notes {s : Server cfg} {msg : Message} {sender : Endpoint}
    {ev : List ServerEvent} (h : RepliesTo s msg sender ev) {last : SentIds} {o : Observer}
    (ho : Notes last o) (hact : o.active = true)
    (hid : observes sender msg.token o = true → o.lastSentMessageId = replyId s msg) :
    Notes (lastOf cfg ev last) o := by
  rcases h last with heq | heq
  · rw [heq]
    exact ho
  · rw [heq]
    by_cases hkey : o.remote = sender ∧ o.token = msg.token
    · have hnoted := hid (observes_iff.2 ⟨hact, hkey.1, hkey.2⟩)
      unfold Notes
      rw [hkey.1, hkey.2, put_self, hnoted]
    · unfold Notes
      rw [put_other hkey]
      exact ho

/-- A request that is not handed over leaves the observers alone, since one that registers is
for an application's handler. -/
theorem observers_replied {s : Server cfg} (hown : OwnHidden s) {msg : Message} {sender : Endpoint}
    (hreq : IsRequest msg) (hnot : ¬ HandsOver s msg sender) :
    (s.handleRequest msg sender).1.observers = s.observers := by
  rcases s.keepsTables_request msg sender with ⟨-, hk⟩ | ⟨t, hadm, hk⟩
  · exact hk.observers
  · refine hk.observers.trans ?_
    cases hopt : block1Option cfg msg with
    | some opt => rw [s.handleObserve_upload t sender hopt]
    | none =>
      -- nothing keeps it from its handler, so that is the server's own
      have hhandler : t.resource.handler = .wellKnownCore := by
        by_contra happ
        refine hnot ⟨⟨hreq, by rw [hadm]; rfl, fun opt h => ?_⟩, fun t' ht' => ?_⟩
        · rw [hopt] at h
          cases h
        · rw [hadm] at ht'
          cases ht'
          exact happ
      obtain ⟨path, -, hfind⟩ := admitted_path hadm
      have hhidden := hown t.resource (List.mem_of_getElem? (findTarget_index hfind)) hhandler
      rcases s.handleObserve_cases t msg sender with ⟨hreg, -⟩ | ⟨hdereg, -⟩ | ⟨-, -, heq⟩
      · exact absurd hreg.1 (by rw [hhidden]; exact Bool.false_ne_true)
      · exact absurd hdereg.1 (by rw [hhidden]; exact Bool.false_ne_true)
      · rw [heq]

/-- The RST branch drops one entry and changes nothing else. What is noted for the others is not
touched. -/
theorem handleReset_entry (s : Server cfg) (sender : Endpoint) (messageId : UInt16)
    {j : Fin cfg.maxObservers}
    (hact : ((s.handleReset sender messageId).observers j).active = true) :
    (s.handleReset sender messageId).observers j = s.observers j := by
  revert hact
  unfold handleReset
  split
  · rename_i i _
    dsimp only
    by_cases hji : j = i
    · subst hji
      rw [Table.set_self]
      exact fun hact => nomatch hact
    · rw [Table.set_ne _ _ hji]
      exact fun _ => rfl
  · exact fun _ => rfl

/-- **A poll.** The scan sends again under old IDs, and a registration notes an ID before its
response is sent. -/
theorem Inv.polls {w : Noting cfg} (inv : Inv w) (hidle : w.server.control = .idle)
    (nowMs : UInt32) (rx : Option (Endpoint × Bytes)) (hf : Faithful w (.poll nowMs rx)) :
    Inv (w.next (.poll nowMs rx)).1 := by
  obtain ⟨pool, obs, hs⟩ := w.server.scanned_spec nowMs
  set s := w.server.scanned nowMs with hsdef
  have hctl : s.control = .idle := by rw [hs]; exact hidle
  -- the scan may remove entries, and it leaves the IDs of the others
  have hnoted : ∀ i, (s.observers i).active = true → Notes w.last (s.observers i) := by
    intro i hact
    have hsame := scanned_entry w.server nowMs hact
    rw [← hsdef] at hsame
    rw [hsame] at hact ⊢
    exact inv.noted i hact (not_busy_idle hidle _)
  have hserver : (w.next (.poll nowMs rx)).1.server = (s.receive rx).1 := by
    show (w.server.step _).1 = _
    rw [step_poll_state hidle]
  have hlast : (w.next (.poll nowMs rx)).1.last = lastOf cfg (s.receive rx).2 w.last := by
    show lastOf cfg (w.server.ownEvents _) _ = _
    unfold ownEvents
    rw [hidle]
  have hown : OwnHidden s := by
    unfold OwnHidden
    rw [hs]
    exact inv.own
  have hown' : OwnHidden (s.receive rx).1 := by
    unfold OwnHidden
    rw [s.receive_resources rx]
    exact hown
  -- what the datagram does to the handler, to the entries and to the IDs
  have hmain : (∀ h, (s.receive rx).1.control = .handling h →
        h.msg.token.length ≤ kMaxTokenLen) ∧
      ∀ i, ((s.receive rx).1.observers i).active = true →
        ¬ Busy (s.receive rx).1 ((s.receive rx).1.observers i) →
        Notes (lastOf cfg (s.receive rx).2 w.last) ((s.receive rx).1.observers i) := by
    have hquiet : ∀ {s' : Server cfg}, s'.control = .idle → ∀ h, s'.control = .handling h →
        h.msg.token.length ≤ kMaxTokenLen := by
      intro s' hidle' h hrun
      rw [hidle'] at hrun
      cases hrun
    -- dropped, an RST, an ACK, or a request
    rcases s.receive_cases rx with h | ⟨sender, data, msg, -, -, -, h⟩ |
      ⟨sender, data, msg, -, -, -, h⟩ | ⟨sender, data, msg, rfl, hdec, hreq, h⟩
    · rw [h]
      exact ⟨hquiet hctl, fun i hact _ => hnoted i hact⟩
    · rw [h]
      obtain ⟨obs', hobs⟩ := s.handleReset_spec sender msg.messageId
      refine ⟨hquiet (by dsimp only; rw [hobs]; exact hctl), fun i hact _ => ?_⟩
      dsimp only at hact ⊢
      have hsame := handleReset_entry s sender msg.messageId hact
      rw [hsame] at hact ⊢
      exact hnoted i hact
    · rw [h]
      exact ⟨hquiet hctl, fun i hact _ => hnoted i hact⟩
    · rw [h]
      have ht : msg.token.length ≤ kMaxTokenLen := Message.decode_token hdec
      rcases request_outcome hctl hreq ht sender with ⟨-, ⟨hd, hrun, rfl, rfl⟩, hsame⟩ |
        ⟨hnot, hidle', hreplies⟩
      · -- handed over: only the entry of the request changes
        refine ⟨fun h' hrun' => ?_, fun i hact hbusy => ?_⟩
        · rw [hrun] at hrun'
          cases hrun'
          exact ht
        · have hother : observes hd.sender hd.msg.token
              ((s.handleRequest hd.msg hd.sender).1.observers i) = false := by
            by_contra hkey
            obtain ⟨-, hrem, htok⟩ := observes_iff.1 (Bool.eq_true_of_not_eq_false hkey)
            exact hbusy ⟨hd, hrun, hrem, htok⟩
          have hentry : (s.handleRequest hd.msg hd.sender).1.observers i = s.observers i := by
            rcases s.keepsTables_request hd.msg hd.sender with ⟨-, hk⟩ | ⟨t, -, hk⟩
            · rw [hk.observers]
            · rw [hk.observers] at hact hother ⊢
              exact handleObserve_entry s t hd.msg hd.sender hact hother
          rw [hsame, hentry]
          rw [hentry] at hact
          exact hnoted i hact
      · -- replied to: with the noted ID, if there is an entry under its token
        refine ⟨hquiet hidle', fun i hact _ => ?_⟩
        rw [observers_replied hown hreq hnot] at hact ⊢
        refine hreplies.notes (hnoted i hact) hact fun hkey => ?_
        have hcond := hf hidle
        dsimp only at hcond
        rw [hdec] at hcond
        exact hcond rfl hreq hnot i hkey
  refine ⟨inv.observing.step _, inv.fits.step _, by rw [hserver]; exact hown', ?_, ?_⟩
  · rw [hserver]
    exact hmain.1
  · rw [hserver, hlast]
    exact hmain.2

/-- **The return of a handler** sends the response whose ID the registration has noted. -/
theorem Inv.returns {w : Noting cfg} (inv : Inv w) (res : Response)
    (hf : Faithful w (.handlerReturns res)) : Inv (w.next (.handlerReturns res)).1 := by
  cases hctl : w.server.control with
  | idle =>
    have hstep := step_returns_idle hctl res
    have hserver : (w.next (.handlerReturns res)).1.server = w.server := congrArg Prod.fst hstep
    have hlast : (w.next (.handlerReturns res)).1.last = w.last := by
      rw [w.next_last (by intro _ _ h; cases h), hstep]
      rfl
    refine ⟨?_, ?_, ?_, ?_, ?_⟩
    all_goals rw [hserver]
    · exact inv.observing
    · exact inv.fits
    · exact inv.own
    · exact inv.running
    · rw [hlast]
      exact inv.noted
  | handling h =>
    have hstep := step_returns hctl res
    have hk := keepsTables_finish { w.server with control := .idle } h res
    have hidle : (finish { w.server with control := .idle } h res).1.control = .idle :=
      finish_control _ h res
    have ht := inv.running h hctl
    have hserver : (w.next (.handlerReturns res)).1.server =
        (finish { w.server with control := .idle } h res).1 := congrArg Prod.fst hstep
    have hlast : (w.next (.handlerReturns res)).1.last =
        if Responds h res then w.last.put h.sender h.msg.token (replyId w.server h.msg)
        else w.last := by
      rw [w.next_last (by intro _ _ h; cases h), hstep]
      exact lastOf_finish { w.server with control := .idle } h ht res w.last
    refine ⟨inv.observing.step _, inv.fits.step _, ?_, ?_, ?_⟩
    · rw [hserver]
      unfold OwnHidden
      rw [hk.resources]
      exact inv.own
    · intro h' hrun
      rw [hserver, hidle] at hrun
      cases hrun
    · intro i hact _
      rw [hserver, hk.observers] at hact ⊢
      rw [hlast]
      dsimp only at hact ⊢
      by_cases hkey : (w.server.observers i).remote = h.sender ∧
          (w.server.observers i).token = h.msg.token
      · -- the entry that is being answered
        have hcond := hf h hctl i (observes_iff.2 ⟨hact, hkey.1, hkey.2⟩)
        split at hcond
        · rename_i hresp
          rw [if_pos hresp]
          unfold Notes
          rw [hkey.1, hkey.2, put_self, hcond]
        · rename_i hresp
          rw [if_neg hresp]
          exact hcond
      · -- any other entry is not busy, so it was noted before the return
        have hnoted : Notes w.last (w.server.observers i) := by
          refine inv.noted i hact ?_
          rintro ⟨h', hrun, hrem, htok⟩
          rw [hctl] at hrun
          cases hrun
          exact hkey ⟨hrem, htok⟩
        split
        · unfold Notes
          rw [put_other hkey]
          exact hnoted
        · exact hnoted

-- ===========================================================================
-- `notify`
-- ===========================================================================

/-- The entry notes the message ID, and the notification is sent if it fits. -/
theorem notifyObserver_spec (s : Server cfg) (i : Fin cfg.maxObservers) (sequence : UInt32)
    (payload : Bytes) (cf : ContentFormat) (con : Bool) :
    (s.notifyObserver i sequence payload cf con).1.observers =
        s.observers.set i { s.observers i with lastSentMessageId := s.nextMessageId } ∧
      (s.notifyObserver i sequence payload cf con).1.control = s.control ∧
      (s.notifyObserver i sequence payload cf con).2 = sendIfEncoded cfg
        (notification cfg (s.observers i) s.nextMessageId sequence payload cf con)
        (s.observers i).remote := by
  unfold notifyObserver sendIfEncoded
  dsimp only
  cases encoded cfg
    (notification cfg (s.observers i) s.nextMessageId sequence payload cf con) with
  | none => exact ⟨rfl, rfl, rfl⟩
  | some buf => refine ⟨?_, ?_, rfl⟩ <;> cases con <;> rfl

/-- The entries are keyed, their tokens fit, and those that are not being answered are noted. It
is the invariant without the server's other tables. -/
structure Noted (s : Server cfg) (last : SentIds) : Prop where
  keyed : s.observers.Keyed (fun o => o.active = true) fun o => (o.remote, o.token)
  fits  : ∀ i, (s.observers i).token.length ≤ kMaxTokenLen
  noted : ∀ i, (s.observers i).active = true → ¬ Busy s (s.observers i) →
    Notes last (s.observers i)

/-- One notification, to an observer that is being answered or whose notification fits. -/
theorem Noted.notifies {s : Server cfg} {last : SentIds} (n : Noted s last)
    {i : Fin cfg.maxObservers} (hi : (s.observers i).active = true) {sequence : UInt32}
    {payload : Bytes} {cf : ContentFormat} (con : Bool)
    (hfits : ¬ Busy s (s.observers i) →
      notificationSize cfg (s.observers i) sequence payload cf ≤ cfg.maxMsgSize) :
    Noted (s.notifyObserver i sequence payload cf con).1
      (lastOf cfg (s.notifyObserver i sequence payload cf con).2 last) := by
  obtain ⟨hobs, hctl, hsent⟩ := notifyObserver_spec s i sequence payload cf con
  have hbusy : ∀ o, Busy (s.notifyObserver i sequence payload cf con).1 o ↔ Busy s o := by
    intro o
    unfold Busy
    rw [hctl]
  have hlast : lastOf cfg (s.notifyObserver i sequence payload cf con).2 last =
      if notificationSize cfg (s.observers i) sequence payload cf ≤ cfg.maxMsgSize ∧
          Code.content ≠ Code.empty then
        last.put (s.observers i).remote (s.observers i).token s.nextMessageId else last := by
    rw [hsent]
    exact lastOf_carries (carries_notification cfg (s.observers i) (n.fits i) s.nextMessageId
      sequence payload cf con) _ last
  have hself : (s.notifyObserver i sequence payload cf con).1.observers i =
      { s.observers i with lastSentMessageId := s.nextMessageId } := by
    rw [hobs, Table.set_self]
  have hother : ∀ j ≠ i, (s.notifyObserver i sequence payload cf con).1.observers j =
      s.observers j := by
    intro j hj
    rw [hobs, Table.set_ne _ _ hj]
  refine ⟨n.keyed.mono fun j hj => ?_, fun j => ?_, fun j hj hnot => ?_⟩
  · by_cases hji : j = i
    · subst hji
      rw [hself]
      exact ⟨hi, rfl⟩
    · rw [hother j hji] at hj ⊢
      exact ⟨hj, rfl⟩
  · by_cases hji : j = i
    · subst hji
      rw [hself]
      exact n.fits j
    · rw [hother j hji]
      exact n.fits j
  · -- the loop notes the ID in its entry and sends under it at once
    rw [hlast]
    by_cases hji : j = i
    · -- noted and sent
      subst hji
      rw [hself] at hnot ⊢
      rw [if_pos ⟨hfits fun hb => hnot ((hbusy _).2 hb), by decide⟩]
      exact put_self ..
    · -- another key
      rw [hother j hji] at hj hnot ⊢
      have hnoted := n.noted j hj fun hb => hnot ((hbusy _).2 hb)
      split
      · unfold Notes
        rw [put_other fun hkey => hji (n.keyed j i hj hi (Prod.ext hkey.1 hkey.2))]
        exact hnoted
      · exact hnoted

/-- The notifications, by induction over the table: each observer is given the message ID of its
own. -/
theorem Noted.notifiesFrom (index : Nat) (sequence : UInt32) (payload : Bytes) (cf : ContentFormat)
    (con : Bool) (is : List (Fin cfg.maxObservers)) :
    ∀ {s : Server cfg} {last : SentIds}, Noted s last →
      (∀ i, (s.observers i).active = true → (s.observers i).resourceIndex = UInt8.ofNat index →
        ¬ Busy s (s.observers i) →
        notificationSize cfg (s.observers i) sequence payload cf ≤ cfg.maxMsgSize) →
      Noted (s.notifyFrom index sequence payload cf con is).1
          (lastOf cfg (s.notifyFrom index sequence payload cf con is).2 last) ∧
        (s.notifyFrom index sequence payload cf con is).1.control = s.control := by
  induction is with
  | nil => exact fun n _ => ⟨n, rfl⟩
  | cons i is ih =>
    intro s last n hfits
    unfold notifyFrom
    split
    · rename_i hi
      obtain ⟨hobs, hctl, -⟩ := notifyObserver_spec s i sequence payload cf con
      have hone := n.notifies hi.1 con (hfits i hi.1 hi.2)
      -- the token of an entry, and with it the size, stays
      have hfits' : ∀ j, ((s.notifyObserver i sequence payload cf con).1.observers j).active = true →
          ((s.notifyObserver i sequence payload cf con).1.observers j).resourceIndex =
            UInt8.ofNat index →
          ¬ Busy (s.notifyObserver i sequence payload cf con).1
            ((s.notifyObserver i sequence payload cf con).1.observers j) →
          notificationSize cfg ((s.notifyObserver i sequence payload cf con).1.observers j) sequence
            payload cf ≤ cfg.maxMsgSize := by
        intro j hj hidx hnot
        unfold Busy at hnot
        rw [hctl] at hnot
        rw [hobs] at hj hidx hnot ⊢
        by_cases hji : j = i
        · subst hji
          rw [Table.set_self] at hj hidx hnot ⊢
          exact hfits j hj hidx hnot
        · rw [Table.set_ne _ _ hji] at hj hidx hnot ⊢
          exact hfits j hj hidx hnot
      obtain ⟨hrest, hctl'⟩ := ih hone hfits'
      dsimp only
      rw [lastOf_append]
      exact ⟨hrest, hctl'.trans hctl⟩
    · exact ih n hfits

-- ===========================================================================
-- The calls
-- ===========================================================================

/-- `respond` sends nothing, or the response to the request in its slot if that fits. The slot
is freed in either case, if it was in use. -/
theorem respond_sends (s : Server cfg) (handle : UInt8) (code : Code) (payload : Bytes)
    (cf : ContentFormat) :
    (s.respond handle code payload cf).2.2 = [] ∨
      ∃ i : Fin cfg.maxDeferred, i.val = handle.toNat ∧ (s.deferred i).active = true ∧
        (s.respond handle code payload cf).2.2 = sendIfEncoded cfg
          (separateResponse cfg (s.deferred i) s.nextMessageId code payload cf)
          (s.deferred i).remote := by
  unfold respond sendIfEncoded
  by_cases hrange : handle.toNat < cfg.maxDeferred
  · rw [dif_pos hrange]
    dsimp only
    split
    · exact .inl rfl
    · rename_i hact
      refine .inr ⟨⟨handle.toNat, hrange⟩, rfl, by simpa using hact, ?_⟩
      cases encoded cfg (separateResponse cfg (s.deferred ⟨handle.toNat, hrange⟩) s.nextMessageId
        code payload cf) with
      | none => rfl
      | some buf => rfl
  · rw [dif_neg hrange]
    exact .inl rfl

/-- The other calls send nothing and write no entry, so what is noted stays right. -/
theorem quiet_call (s : Server cfg) {c : ServerCall}
    (hn : ∀ path payload cf con, c ≠ .notify path payload cf con)
    (hr : ∀ handle code payload cf, c ≠ .respond handle code payload cf) :
    (s.call c).1.observers = s.observers ∧ (s.call c).2.2 = [] := by
  rcases s.call_cases c with ⟨rs, heq, hquiet⟩ | ⟨path, payload, cf, con, rfl⟩ |
    ⟨handle, code, payload, cf, rfl⟩
  · exact ⟨by rw [heq], hquiet⟩
  · exact absurd rfl (hn path payload cf con)
  · exact absurd rfl (hr handle code payload cf)

/-- **A call of `notify`** notes the ID of each notification as it sends it. -/
theorem Noted.notify {s : Server cfg} {last : SentIds} (n : Noted s last) (path payload : Bytes)
    (cf : ContentFormat) (con : Bool)
    (hfits : ∀ t, s.findTarget path = some t → t.resource.observable = true →
      ∀ i, (s.observers i).active = true →
        (s.observers i).resourceIndex = UInt8.ofNat t.index → ¬ Busy s (s.observers i) →
        notificationSize cfg (s.observers i) (t.resource.observeSequence + 1) payload cf ≤
          cfg.maxMsgSize) :
    Noted (s.notify path payload cf con).1
      (lastOf cfg (s.notify path payload cf con).2.2 last) := by
  unfold Server.notify
  split
  · exact n
  · rename_i t ht
    split
    · exact n
    · rename_i hobservable
      have hobs : t.resource.observable = true := by simpa using hobservable
      have hstart : Noted { s with resources := s.resources.set t.index { t.resource with
          observeSequence := t.resource.observeSequence + 1 } } last :=
        ⟨n.keyed, n.fits, n.noted⟩
      exact (hstart.notifiesFrom t.index (t.resource.observeSequence + 1) payload cf con _
        (hfits t ht hobs)).1

/-- **A call of `respond`** notes nothing, so the condition asks for the ID that is there
already. -/
theorem Noted.respond {s : Server cfg} {last : SentIds} (n : Noted s last) (handle : UInt8)
    (code : Code) (payload : Bytes) (cf : ContentFormat)
    (ht : ∀ i, (s.deferred i).token.length ≤ kMaxTokenLen)
    (hid : ∀ i : Fin cfg.maxDeferred, i.val = handle.toNat → (s.deferred i).active = true →
      separateSize cfg (s.deferred i) payload cf ≤ cfg.maxMsgSize → code ≠ Code.empty →
      ∀ j, observes (s.deferred i).remote (s.deferred i).token (s.observers j) = true →
        ¬ Busy s (s.observers j) → (s.observers j).lastSentMessageId = s.nextMessageId) :
    Noted (s.respond handle code payload cf).1
      (lastOf cfg (s.respond handle code payload cf).2.2 last) := by
  have hobs := (s.respond_frame handle code payload cf).1
  have hctl := (s.respond_keeps handle code payload cf).control
  refine ⟨by rw [hobs]; exact n.keyed, fun j => by rw [hobs]; exact n.fits j, fun j hj hnot => ?_⟩
  have hnot' : ¬ Busy s (s.observers j) := by
    unfold Busy at hnot ⊢
    rwa [hctl, hobs] at hnot
  rw [hobs] at hj ⊢
  have hnoted := n.noted j hj hnot'
  rcases respond_sends s handle code payload cf with hnone | ⟨i, hi, hact, hsent⟩
  · rw [hnone]
    exact hnoted
  · have hlast : lastOf cfg (s.respond handle code payload cf).2.2 last =
        if separateSize cfg (s.deferred i) payload cf ≤ cfg.maxMsgSize ∧ code ≠ Code.empty then
          last.put (s.deferred i).remote (s.deferred i).token s.nextMessageId else last := by
      rw [hsent]
      exact lastOf_carries (carries_separateResponse cfg (s.deferred i) (ht i) s.nextMessageId code
        payload cf) (s.deferred i).remote last
    rw [hlast]
    split
    · -- only an observer under the peer and the token of the request could be concerned
      rename_i hboth
      by_cases hkey : (s.observers j).remote = (s.deferred i).remote ∧
          (s.observers j).token = (s.deferred i).token
      · -- the response goes to this observer
        have hsame := hid i hi hact hboth.1 hboth.2 j (observes_iff.2 ⟨hj, hkey.1, hkey.2⟩) hnot'
        unfold Notes
        rw [hkey.1, hkey.2, put_self, hsame]
      · unfold Notes
        rw [put_other hkey]
        exact hnoted
    · exact hnoted

/-- A call of the API keeps the entries in step with what was sent. Only `notify` and `respond`
send anything. -/
theorem Inv.calls {w : Noting cfg} (inv : Inv w) (c : ServerCall) (hf : Faithful w (.call c)) :
    Inv (w.next (.call c)).1 := by
  have hctl : (w.server.call c).1.control = w.server.control := (w.server.call_keeps c).control
  -- what a call returns is no datagram
  have hlast : (w.next (.call c)).1.last = lastOf cfg (w.server.call c).2.2 w.last := by
    rw [w.next_last (by intro _ _ h; cases h)]
    show lastOf cfg ((w.server.call c).2.2 ++ [_]) w.last = _
    rw [lastOf_append]
    rfl
  have hstart : Noted w.server w.last := ⟨inv.observing.keyed, inv.fits.observers, inv.noted⟩
  have hnoted : Noted (w.server.call c).1 (lastOf cfg (w.server.call c).2.2 w.last) := by
    -- two calls send; the others leave the table and what was sent last
    by_cases hn : ∃ path payload cf con, c = .notify path payload cf con
    · obtain ⟨path, payload, cf, con, rfl⟩ := hn
      exact hstart.notify path payload cf con hf
    by_cases hr : ∃ handle code payload cf, c = .respond handle code payload cf
    · obtain ⟨handle, code, payload, cf, rfl⟩ := hr
      exact hstart.respond handle code payload cf inv.fits.deferred hf
    · obtain ⟨hobs, hnone⟩ := quiet_call w.server
        (fun path payload cf con h => hn ⟨path, payload, cf, con, h⟩)
        (fun handle code payload cf h => hr ⟨handle, code, payload, cf, h⟩)
      rw [hnone]
      refine ⟨by rw [hobs]; exact hstart.keyed, fun j => by rw [hobs]; exact hstart.fits j, ?_⟩
      intro j hj hnot
      unfold Busy at hnot
      rw [hctl, hobs] at hnot
      rw [hobs] at hj ⊢
      exact hstart.noted j hj hnot
  refine ⟨inv.observing.step _, inv.fits.step _, inv.own.call c, ?_, ?_⟩
  · intro h hrun
    exact inv.running h (hctl ▸ hrun)
  · rw [hlast]
    exact hnoted.noted

/-- **What one step preserves.** -/
theorem Inv.step {w : Noting cfg} (inv : Inv w) (a : Action) (hf : Faithful w a) :
    Inv (w.next a).1 := by
  cases a with
  | call c => exact inv.calls c hf
  | handlerReturns res => exact inv.returns res hf
  | poll nowMs rx =>
    cases hctl : w.server.control with
    | idle => exact inv.polls hctl nowMs rx hf
    | handling h =>
      -- `poll` is not called from a handler
      have hstep := step_poll_busy hctl nowMs rx
      have hserver : (w.next (.poll nowMs rx)).1.server = w.server := congrArg Prod.fst hstep
      have hlast : (w.next (.poll nowMs rx)).1.last = w.last := by
        show lastOf cfg (w.server.ownEvents _) _ = _
        unfold ownEvents
        rw [hctl]
        rfl
      refine ⟨?_, ?_, ?_, ?_, ?_⟩
      all_goals rw [hserver]
      · exact inv.observing
      · exact inv.fits
      · exact inv.own
      · exact inv.running
      · rw [hlast]
        exact inv.noted

/-- **In every run** the entries have the message IDs that were sent last, but for the entry of
the request whose handler is running. -/
theorem inv_of_run {hist : List ServerEvent} {w : Noting cfg}
    (r : (machine cfg).Run Faithful hist w) : Inv w := by
  refine Machine.Run.invariant (I := fun _ w => Inv w) ?_ ?_ r
  · refine ⟨⟨?_, ?_, Nat.zero_le _⟩, ⟨?_, ?_⟩, ?_, ?_, ?_⟩
    · exact fun _ _ h => nomatch h
    · exact fun _ h => nomatch h
    · exact fun _ => Nat.zero_le _
    · exact fun _ => Nat.zero_le _
    · exact fun _ h => nomatch h
    · exact fun _ h => nomatch h
    · exact fun _ h => nomatch h
  · exact fun _ inv hf => inv.step _ hf

-- ===========================================================================
-- The RST
-- ===========================================================================

/-- An RST deactivates the observers of its sender that were last sent the message it rejects,
and no other entry changes. What was last sent is read from the history and not from the entry. -/
def RemovesRight (w : Noting cfg) (nowMs : UInt32) (sender : Endpoint) (data : Bytes)
    (messageId : UInt16) : Prop :=
  let s := w.server.scanned nowMs
  let s' := (w.server.step (.poll nowMs (some (sender, data)))).1
  ∀ i, (s.observers i).active = true →
    ((s'.observers i).active = false ↔ (s.observers i).remote = sender ∧
      w.last (s.observers i).remote (s.observers i).token = some messageId) ∧
    ((s'.observers i).active = true → s'.observers i = s.observers i)

/-- At most one observer of the sender has this message ID in its entry. Message IDs come from
one counter, so two have it after a round of 2^16, or when a registration is refreshed under a
number of the client's. -/
def NamesOne (s : Server cfg) (sender : Endpoint) (messageId : UInt16) : Prop :=
  ∀ i j, (s.observers i).active = true → (s.observers j).active = true →
    (s.observers i).remote = sender → (s.observers j).remote = sender →
    (s.observers i).lastSentMessageId = messageId →
    (s.observers j).lastSentMessageId = messageId → i = j

instance (s : Server cfg) (sender : Endpoint) (messageId : UInt16) :
    Decidable (NamesOne s sender messageId) :=
  inferInstanceAs (Decidable (∀ _ _, _ → _ → _ → _ → _ → _ → _))

/-- The first entry that matches is dropped. A second one that matches is left. -/
theorem handleReset_cases (s : Server cfg) (sender : Endpoint) (messageId : UInt16) :
    (∃ i, (s.observers i).active = true ∧ (s.observers i).remote = sender ∧
        (s.observers i).lastSentMessageId = messageId ∧
        (s.handleReset sender messageId).observers =
          s.observers.set i { s.observers i with active := false }) ∨
      ((s.handleReset sender messageId).observers = s.observers ∧
        ∀ i, ¬ ((s.observers i).active = true ∧ (s.observers i).remote = sender ∧
          (s.observers i).lastSentMessageId = messageId)) := by
  unfold handleReset
  split
  · rename_i i hi
    have hmatch := Table.find?_spec hi
    simp only [Bool.and_eq_true, beq_iff_eq] at hmatch
    exact .inl ⟨i, hmatch.1.1, hmatch.1.2, hmatch.2, rfl⟩
  · rename_i hnone
    refine .inr ⟨rfl, fun i hmatch => ?_⟩
    have hfalse := Table.find?_eq_none.1 hnone i
    rw [hmatch.1, hmatch.2.1, hmatch.2.2] at hfalse
    simp at hfalse

/-- **An RST removes the right observers**, in a run in which every response under the token of
an observer carries the message ID in its entry, exactly when it names at most one of them. The
source removes the first one it finds. -/
theorem removes_right_iff {hist : List ServerEvent} {w : Noting cfg}
    (r : (machine cfg).Run Faithful hist w) (hidle : w.server.control = .idle) (nowMs : UInt32)
    (sender : Endpoint) {data : Bytes} {msg : Message}
    (hdec : Message.decode cfg data = (.none, msg)) (hreset : msg.type = .reset) :
    RemovesRight w nowMs sender data msg.messageId ↔
      NamesOne (w.server.scanned nowMs) sender msg.messageId := by
  have inv := inv_of_run r
  set s := w.server.scanned nowMs with hs
  -- outside a handler every entry is noted
  have hnoted : ∀ i, (s.observers i).active = true →
      w.last (s.observers i).remote (s.observers i).token =
        some (s.observers i).lastSentMessageId := by
    intro i hact
    have hsame := scanned_entry w.server nowMs hact
    rw [← hs] at hsame
    rw [hsame] at hact ⊢
    exact inv.noted i hact (not_busy_idle hidle _)
  have hstep : (w.server.step (.poll nowMs (some (sender, data)))).1 =
      s.handleReset sender msg.messageId := by
    have hreceive : s.receive (some (sender, data)) = (s.handleReset sender msg.messageId, []) := by
      have hlen := Message.decode_length hdec
      unfold receive
      simp only [hdec, hlen, if_true]
      unfold handleMessage
      rw [if_pos hreset]
    rw [step_poll_state hidle, ← hs, hreceive]
  unfold RemovesRight
  rw [hstep, ← hs]
  dsimp only
  rcases handleReset_cases s sender msg.messageId with ⟨k, hact, hrem, hid, heq⟩ | ⟨heq, hnone⟩
  · -- one entry is dropped
    have hk : (s.observers.set k { s.observers k with active := false }) k =
        { s.observers k with active := false } := Table.set_self ..
    have hother : ∀ i ≠ k, (s.observers.set k { s.observers k with active := false }) i =
        s.observers i := fun i hi => Table.set_ne _ _ hi
    rw [heq]
    constructor
    · -- two entries with this ID would both have to go, and only one does
      intro hright i j hi hj hi' hj' hidi hidj
      have hall : ∀ i, (s.observers i).active = true → (s.observers i).remote = sender →
          (s.observers i).lastSentMessageId = msg.messageId → i = k := by
        intro i hi hi' hidi
        by_contra hik
        have hgone := (hright i hi).1.2 ⟨hi', by rw [hnoted i hi, hidi]⟩
        rw [hother i hik, hi] at hgone
        cases hgone
      rw [hall i hi hi' hidi, hall j hj hj' hidj]
    · intro hone i hi
      by_cases hik : i = k
      · subst hik
        rw [hk]
        exact ⟨iff_of_true rfl ⟨hrem, by rw [hnoted i hact, hid]⟩, fun h => nomatch h⟩
      · rw [hother i hik]
        refine ⟨iff_of_false (by rw [hi]; exact fun h => nomatch h) ?_, fun _ => rfl⟩
        rintro ⟨hi', hlast⟩
        rw [hnoted i hi] at hlast
        exact hik (hone i k hi hact hi' hrem (Option.some.inj hlast) hid)
  · -- no entry matches
    rw [heq]
    refine iff_of_true (fun i hi => ⟨iff_of_false ?_ ?_, fun _ => rfl⟩) ?_
    · rw [hi]
      exact fun h => nomatch h
    · rintro ⟨hi', hlast⟩
      rw [hnoted i hi] at hlast
      exact hnone i ⟨hi, hi', Option.some.inj hlast⟩
    · exact fun i _ hi _ hi' _ hid _ => absurd ⟨hi, hi', hid⟩ (hnone i)

-- ===========================================================================
-- A registration that is not Confirmable
-- ===========================================================================

/-- A GET for the root with Observe 0, message ID 9 and token A0; its first byte has the type. -/
def observeGet (type : UInt8) : Bytes := [type, 0x01, 0x00, 0x09, 0xA0, 0x60]

/-- A registration of this type, and its response. -/
def observed (type : UInt8) : List Action :=
  [.call (.addResource (some [Uri.slash]) methodGet (some 1) none true),
    .poll 0 (some ({}, observeGet type)),
    .handlerReturns { payload := [0x78] }]

/-- An RST of message 1. -/
def resetOne : Bytes := [0x70, 0x00, 0x00, 0x01]

/-- The message in it. -/
def resetMessage : Message := { type := .reset, messageId := 1 }

/-- A Confirmable registration, and a notification with message ID 1. -/
def notifiedOnce : List Action :=
  observed 0x41 ++ [.call (.notify [Uri.slash] [0x79] .textPlain true)]

/-- The server while the handler of the registration runs, and after its return. -/
def registering : Noting Config.default :=
  ((machine Config.default).exec [] {} ((observed 0x41).take 2)).2

def registeredOnce : Noting Config.default :=
  (registering.next (.handlerReturns { payload := [0x78] })).1

/-- What the server keeps across the handler call. -/
def registration : Handling Config.default where
  msg := (Message.decode Config.default (observeGet 0x41)).2
  sender := {}
  observeValue := some 0
  deferIdx := some ⟨0, by decide⟩
  session := none

theorem notifiedOnce_faithful : (machine Config.default).Meets Faithful {} notifiedOnce := by
  refine ⟨trivial, fun _ _ _ _ => ?_, fun h hrun => ?_, fun t ht _ i _ _ _ => ?_, trivial⟩
  · -- the ACK carries the ID of the request, and nothing is registered yet
    decide +kernel
  · -- the ID of the request is in the entry by now
    have hctl : registering.server.control = .handling registration := by decide +kernel
    have hsame : registering.server.control = .handling h := hrun
    rw [hctl] at hsame
    cases hsame
    exact (by decide +kernel : ∀ i, observes registration.sender registration.msg.token
      (registering.server.observers i) = true →
        if Responds registration { payload := [0x78] } then
          (registering.server.observers i).lastSentMessageId =
            replyId registering.server registration.msg
        else Notes registering.last (registering.server.observers i))
  · have htarget : (registeredOnce.server.findTarget [Uri.slash]).map
        (·.resource.observeSequence) = some 0 := by decide +kernel
    have hseq : t.resource.observeSequence = 0 := by
      have hfound : registeredOnce.server.findTarget [Uri.slash] = some t := ht
      rw [hfound] at htarget
      exact Option.some.inj htarget
    rw [hseq]
    exact (by decide +kernel : ∀ i, notificationSize Config.default
      (registeredOnce.server.observers i) (0 + 1) [0x79] .textPlain ≤
        Config.default.maxMsgSize) i

/-- The server after the notification. -/
def notifiedState : Noting Config.default := ((machine Config.default).exec [] {} notifiedOnce).2

theorem removes_right_iff_notified :
    resetMessage.type = .reset ∧ (RemovesRight notifiedState 10 {} resetOne 1 ↔
      NamesOne (notifiedState.server.scanned 10) {} 1) :=
  ⟨rfl, removes_right_iff (.exec .start notifiedOnce_faithful) (by decide +kernel) 10 {}
    (show Message.decode Config.default resetOne = (.none, resetMessage) by decide +kernel) rfl⟩

/-- **An RST misses its observer**: the response to a registration that is not Confirmable has
message ID 1, and the entry notes that of the request. The observer goes on being notified. -/
theorem not_removes_right :
    ∃ (hist : List ServerEvent) (w : Noting Config.default),
      (machine Config.default).Run (fun _ _ => True) hist w ∧ w.server.control = .idle ∧
        ¬ RemovesRight w 10 {} resetOne 1 := by
  refine ⟨_, _, .exec .start (Machine.meets_of_forall (fun _ _ => trivial) _ (observed 0x51)),
    by decide +kernel, fun hright => ?_⟩
  have hgone := (hright ⟨0, by decide⟩ (by decide +kernel)).1.2 (by decide +kernel)
  exact absurd hgone (by decide +kernel)

end Noting

end Server

end PulseCoap
