import PulseCoap.Server.Answer
import PulseCoap.Server.Isolation

/-!
# PulseCoAP — a reply names its request

Four functions of the server build replies, on a dozen exits of
`handleRequest`. Each sets the type, the message ID and the token by itself:
`reply` is what they have in common, and the empty ACK of a deferral is the one
reply without a token.

The four functions are `sendPiggybackedResponse`, `sendError`, `sendContinue`
and `sendBlock2Response`. What they share is the header that `reply` sets: a
Confirmable request is answered by an ACK with its ID, any other by a NON
message under an ID of the server's, and both carry its token.

* `Matches` — what a reply has of its request.
* `reply_once`, `finish_once`, `runHandler_turn` — exit by exit.
* `replies_match` — a whole turn sends one matching reply or nothing.
-/

namespace PulseCoap

namespace Server

variable {cfg : Config}

-- ===========================================================================
-- Replies
-- ===========================================================================

/-- The datagrams among what a step does. -/
def datagrams (events : List ServerEvent) : List (Endpoint × Bytes) :=
  events.filterMap fun
    | .sent dest data => some (dest, data)
    | _ => none

/-- Nothing but a type, a message ID and the code 0.00. -/
def IsEmptyMessage (msg : Message) : Prop :=
  msg.code = Code.empty ∧ msg.token = [] ∧ msg.options = [] ∧ msg.payloadBytes = []

instance (msg : Message) : Decidable (IsEmptyMessage msg) :=
  inferInstanceAs (Decidable (_ ∧ _ ∧ _ ∧ _))

/-- What a reply has of its request; `id` is the server's counter. -/
def Matches (request reply : Message) (id : UInt16) : Prop :=
  if request.type = .confirmable then
    reply.type = .acknowledgement ∧ reply.messageId = request.messageId ∧
      (IsEmptyMessage reply ∨ reply.token = request.token)
  else
    reply.type = .nonConfirmable ∧ reply.messageId = id ∧ reply.token = request.token

/-- **At most one datagram, to the sender, and it matches.** The counter goes
from `id` to `id'`: the message ID of a reply to a NON request is used up. -/
inductive RepliesOnce (cfg : Config) (id id' : UInt16) (request : Message) (sender : Endpoint)
    (events : List ServerEvent) : Prop where
  | silent (nothing : datagrams events = [])
  | replies (buf : Bytes) (reply : Message) (one : datagrams events = [(sender, buf)])
      (decodes : Message.decode cfg buf = (.none, reply)) (same : Matches request reply id)
      (fresh : request.type = .nonConfirmable → id' = id + 1)

theorem datagrams_append (ev ev' : List ServerEvent) :
    datagrams (ev ++ ev') = datagrams ev ++ datagrams ev' := List.filterMap_append

/-- A handler call sends nothing. -/
theorem datagrams_handlerCall (s : Server cfg) (t : Target) (msg : Message) (sender : Endpoint)
    (session : Option (Fin cfg.maxBlock1Sessions)) (ev : List ServerEvent) :
    datagrams (s.handlerCall t msg sender session :: ev) = datagrams ev := rfl

theorem RepliesOnce.cons {id id' : UInt16} {request : Message} {sender : Endpoint}
    {ev ev' : List ServerEvent} (h : RepliesOnce cfg id id' request sender ev)
    (hsame : datagrams ev' = datagrams ev) : RepliesOnce cfg id id' request sender ev' := by
  cases h with
  | silent hnil => exact .silent (hsame.trans hnil)
  | replies buf reply hone hdec hmatch hfresh =>
    exact .replies buf reply (hsame.trans hone) hdec hmatch hfresh

/-- What is sent has the header it was built with. -/
theorem Carries.decodes {m : Message} {hd : ReplyHeader} {uints : List (UInt16 × UInt32)}
    {payload : Bytes} (h : Carries cfg m hd uints payload) : ∃ reply,
      Message.decode cfg m.wire = (.none, reply) ∧ reply.type = hd.type ∧
        reply.messageId = hd.messageId ∧ reply.token = hd.token ∧ reply.code = hd.code ∧
        (uints = [] → reply.options = []) ∧ reply.payloadBytes = payload := by
  have hwf := h.built.toWellFormed
  have hsame := Message.sameContent_decode hwf
  refine ⟨(Message.decode cfg m.wire).2, Message.decodes_wire hwf, hsame.type.trans h.type,
    hsame.messageId.trans h.messageId, hsame.token.trans h.token, hsame.code.trans h.code,
    fun hnil => ?_, hsame.payload.trans h.payload⟩
  rw [h.options_decode, hnil, List.take_nil, List.map_nil]

/-- A message is sent in one datagram or not at all. -/
theorem Carries.once {m : Message} {hd : ReplyHeader} {uints : List (UInt16 × UInt32)}
    {payload : Bytes} (h : Carries cfg m hd uints payload) {id id' : UInt16} {request : Message}
    (sender : Endpoint)
    (hmatch : ∀ reply : Message, reply.type = hd.type → reply.messageId = hd.messageId →
      reply.token = hd.token → reply.code = hd.code → (uints = [] → reply.options = []) →
      reply.payloadBytes = payload → Matches request reply id)
    (hfresh : request.type = .nonConfirmable → id' = id + 1) :
    RepliesOnce cfg id id' request sender (sendIfEncoded cfg m sender) := by
  by_cases hfits : m.wireSize ≤ cfg.maxMsgSize
  · obtain ⟨reply, hdec, htype, hid, htok, hcode, hoptions, hpayload⟩ := h.decodes
    rw [sendIfEncoded_fits h.built sender hfits]
    exact .replies m.wire reply rfl hdec (hmatch reply htype hid htok hcode hoptions hpayload)
      hfresh
  · rw [sendIfEncoded_drops h.built sender (by omega)]
    exact .silent rfl

-- ===========================================================================
-- The functions that build replies
-- ===========================================================================

/-- **Every reply built from `reply` matches**, if it is sent at all. Its options and its
payload do not matter. -/
theorem reply_once (s : Server cfg) {request : Message} {code : Code} {m : Message}
    {uints : List (UInt16 × UInt32)} {payload : Bytes}
    (h : Carries cfg m (s.replyHeader request code) uints payload) (sender : Endpoint) :
    RepliesOnce cfg s.nextMessageId (s.reply request code).1.nextMessageId request sender
      (sendIfEncoded cfg m sender) := by
  refine h.once sender (fun reply htype hid htok _ _ _ => ?_) fun hnon => ?_
  · unfold Matches
    unfold replyHeader at htype hid htok
    split
    · rename_i hcon
      rw [if_pos hcon] at htype hid htok
      exact ⟨htype, hid, .inr htok⟩
    · rename_i hcon
      rw [if_neg hcon] at htype hid htok
      exact ⟨htype, hid, htok⟩
  · have hcon : ¬ request.type = .confirmable := by
      rw [hnon]
      exact nofun
    rw [reply, if_neg hcon]
    rfl

/-- The empty ACK of a deferred CON request, and nothing for a NON one. -/
theorem deferral_once (cfg : Config) (msg : Message) (sender : Endpoint) (id id' : UInt16) :
    RepliesOnce cfg id id' msg sender
      (if msg.type = .confirmable then sendEmptyAck cfg msg.messageId sender else []) := by
  split
  · rename_i hcon
    refine (carries_emptyAck cfg msg.messageId).once sender
      (fun reply htype hid htok hcode hoptions hpayload => ?_) fun hnon => ?_
    · rw [Matches, if_pos hcon]
      exact ⟨htype, hid, .inl ⟨hcode, htok, hoptions rfl, hpayload⟩⟩
    · rw [hcon] at hnon
      cases hnon
  · exact .silent rfl

section

variable {msg : Message} (ht : msg.token.length ≤ kMaxTokenLen)

include ht

theorem piggybacked_once (s : Server cfg) (sender : Endpoint) (code : Code) (payload : Bytes)
    (contentFormat : ContentFormat) (ov : Option UInt32) :
    RepliesOnce cfg s.nextMessageId
      (s.sendPiggybackedResponse msg sender code payload contentFormat ov).1.nextMessageId msg
      sender (s.sendPiggybackedResponse msg sender code payload contentFormat ov).2 :=
  s.reply_once (s.carries_content code payload contentFormat ov ht) sender

theorem error_once (s : Server cfg) (sender : Endpoint) (code : Code) :
    RepliesOnce cfg s.nextMessageId (s.sendError msg sender code).1.nextMessageId msg sender
      (s.sendError msg sender code).2 :=
  piggybacked_once ht s sender code [] .textPlain none

theorem continue_once (s : Server cfg) (sender : Endpoint) (num : UInt32) (m : Bool)
    (szx : UInt8) :
    RepliesOnce cfg s.nextMessageId (s.sendContinue msg sender num m szx).1.nextMessageId msg
      sender (s.sendContinue msg sender num m szx).2 :=
  s.reply_once (s.carries_continue (BlockOption.toOptionValue num m szx) ht) sender

/-- One block of a response, or nothing. -/
theorem block2_once (s : Server cfg) (sender : Endpoint) (code : Code) (fullPayload : Bytes)
    (contentFormat : ContentFormat) (ov : Option UInt32) (num : UInt32) (more : Bool)
    (szx : UInt8) :
    RepliesOnce cfg s.nextMessageId
      (s.sendBlock2Response msg sender code fullPayload contentFormat ov num more
        szx).1.nextMessageId msg sender
      (s.sendBlock2Response msg sender code fullPayload contentFormat ov num more szx).2 := by
  unfold sendBlock2Response
  dsimp only
  split
  · exact .silent rfl
  · refine s.reply_once (s.carries_block2 code contentFormat ov _ ?_ ht) sender
    rw [List.length_drop]
    split <;> omega

/-- What a handler that does not defer is answered with. -/
theorem inline_once (s : Server cfg) {h : Handling cfg} (hmsg : h.msg = msg) (res : Response) :
    RepliesOnce cfg s.nextMessageId (s.replyInline h res).1.nextMessageId msg h.sender
      (s.replyInline h res).2 := by
  subst hmsg
  unfold replyInline
  dsimp only
  split
  · split
    · split
      · exact error_once ht s h.sender Code.badRequest
      · exact block2_once ht s h.sender res.code res.payload res.contentFormat h.observeValue ..
    · exact piggybacked_once ht s h.sender res.code res.payload res.contentFormat h.observeValue
  · exact piggybacked_once ht s h.sender res.code res.payload res.contentFormat h.observeValue

/-- **What is left of `handleRequest` after the handler sends one matching reply or nothing.**
Nothing is sent when the reply does not fit. -/
theorem finish_once (s : Server cfg) {h : Handling cfg} (hmsg : h.msg = msg) (res : Response) :
    RepliesOnce cfg s.nextMessageId (s.finish h res).1.nextMessageId msg h.sender
      (s.finish h res).2 := by
  subst hmsg
  have hid : (s.freeBlock1Session? h.session).nextMessageId = s.nextMessageId := by
    cases h.session <;> rfl
  have hid' : ((s.freeBlock1Session? h.session).freeDeferred? h.deferIdx).nextMessageId =
      s.nextMessageId := by
    cases h.deferIdx <;> exact hid
  unfold finish
  dsimp only
  split
  · exact deferral_once cfg h.msg h.sender _ _
  · rw [← hid']
    cases h.session with
    | none => exact inline_once ht _ rfl res
    | some i =>
      exact piggybacked_once ht _ h.sender res.code res.payload res.contentFormat h.observeValue

end

-- ===========================================================================
-- Up to the handler call
-- ===========================================================================

/-- What `handleRequest` has done when it returns, or when it has called a
handler: then the reply is still to come. -/
structure Replying (s : Server cfg) (request : Message) (sender : Endpoint)
    (r : Server cfg × List ServerEvent) : Prop where
  done    : r.1.control = .idle →
    RepliesOnce cfg s.nextMessageId r.1.nextMessageId request sender r.2
  pending : ∀ h, r.1.control = .handling h → datagrams r.2 = [] ∧ h.msg = request ∧
    h.sender = sender ∧ r.1.nextMessageId = s.nextMessageId

/-- A reply without a handler. -/
theorem replying_idle {s : Server cfg} {request : Message} {sender : Endpoint}
    {r : Server cfg × List ServerEvent} (hidle : r.1.control = .idle)
    (h : RepliesOnce cfg s.nextMessageId r.1.nextMessageId request sender r.2) :
    Replying s request sender r := by
  refine ⟨fun _ => h, fun hd hctl => ?_⟩
  rw [hidle] at hctl
  cases hctl

/-- Only the counter of the state before matters. -/
theorem Replying.from_id {s s' : Server cfg} {request : Message} {sender : Endpoint}
    {r : Server cfg × List ServerEvent} (h : Replying s' request sender r)
    (hid : s'.nextMessageId = s.nextMessageId) : Replying s request sender r := by
  refine ⟨fun hidle => hid ▸ h.done hidle, fun hd hctl => ?_⟩
  rw [← hid]
  exact h.pending hd hctl

section

variable {msg : Message} (ht : msg.token.length ≤ kMaxTokenLen)

include ht

/-- A handler call: the reply is the server's own, or comes when the handler returns. -/
theorem replying_runHandler {s : Server cfg} (hidle : s.control = .idle) (t : Target)
    (sender : Endpoint) (ov : Option UInt32) (session : Option (Fin cfg.maxBlock1Sessions)) :
    Replying s msg sender (s.runHandler t msg sender ov session) := by
  obtain ⟨d, hd⟩ := s.fillDeferred_spec s.allocateDeferred msg sender
  rcases s.runHandler_cases t msg sender ov session with ⟨f, -, heq⟩ | ⟨-, heq⟩
  · rw [heq]
    refine ⟨nofun, fun h hctl => ?_⟩
    cases hctl
    dsimp only
    rw [hd]
    exact ⟨rfl, rfl, rfl, rfl⟩
  · -- the server's own handler returns at once
    rw [heq]
    dsimp only
    refine replying_idle ?_ (RepliesOnce.cons ?_
      (datagrams_handlerCall s t msg sender session _))
    · dsimp only
      rw [finish_control, hd]
      exact hidle
    · have honce := finish_once ht (s.fillDeferred s.allocateDeferred msg sender)
        (h := s.handlingFor msg sender ov session) rfl
        (s.fillDeferred s.allocateDeferred msg sender).wellKnownCoreHandler
      have hid : (s.fillDeferred s.allocateDeferred msg sender).nextMessageId =
          s.nextMessageId := by
        rw [hd]
      rw [hid] at honce
      exact honce

/-- An error is all there is of its request. -/
theorem replying_error {s : Server cfg} (hidle : s.control = .idle) (sender : Endpoint)
    (code : Code) : Replying s msg sender (s.sendError msg sender code) :=
  replying_idle ((s.justReplies_error msg sender code).control.trans hidle)
    (error_once ht s sender code)

theorem replying_continue {s : Server cfg} (hidle : s.control = .idle) (sender : Endpoint)
    (num : UInt32) (m : Bool) (szx : UInt8) :
    Replying s msg sender (s.sendContinue msg sender num m szx) :=
  replying_idle ((s.justReplies_continue msg sender num m szx).control.trans hidle)
    (continue_once ht s sender num m szx)

theorem replying_handleBlock {s : Server cfg} (hidle : s.control = .idle)
    (i : Fin cfg.maxBlock1Sessions) (b1 : BlockOption) (t : Target) (sender : Endpoint)
    (ov : Option UInt32) : Replying s msg sender (s.handleBlock i b1 t msg sender ov) := by
  have hwith : ∀ b, (s.withSession i b).control = .idle := fun _ => hidle
  rcases s.handleBlock_cases i b1 t msg sender ov with ⟨-, heq⟩ | ⟨-, -, heq⟩ | ⟨-, -, -, heq⟩ |
    ⟨-, -, -, heq⟩
  · rw [heq]
    exact replying_continue ht hidle sender ..
  · rw [heq]
    exact (replying_error ht (s := s.freeBlock1Session i) hidle sender _).from_id rfl
  · rw [heq]
    exact (replying_continue ht (hwith _) sender ..).from_id rfl
  · rw [heq]
    exact (replying_runHandler ht (hwith _) t sender ov (some i)).from_id rfl

/-- A block of an upload, its session found or opened first. -/
theorem replying_handleBlock1 {s : Server cfg} (hidle : s.control = .idle) (opt : CoapOption)
    (t : Target) (sender : Endpoint) (ov : Option UInt32) :
    Replying s msg sender (s.handleBlock1 opt t msg sender ov) := by
  unfold handleBlock1
  cases BlockOption.fromOption opt with
  | none => exact replying_error ht hidle sender Code.badOption
  | some b1 =>
    dsimp only
    rcases s.sessionFor_cases b1 sender msg.token with ⟨code, hs⟩ | ⟨i, -, hs⟩ |
      ⟨i, -, -, -, hs⟩
    · rw [hs]
      exact replying_error ht hidle sender code
    · rw [hs]
      exact replying_handleBlock ht hidle i b1 t sender ov
    · rw [hs]
      have hctl : (s.withSession i (newSession sender msg.token)).control = .idle := hidle
      exact (replying_handleBlock ht hctl i b1 t sender ov).from_id rfl

/-- **A request** has one reply at most, now or when its handler returns. -/
theorem replying_handleRequest {s : Server cfg} (hidle : s.control = .idle) (sender : Endpoint) :
    Replying s msg sender (s.handleRequest msg sender) := by
  rcases s.handleRequest_cases msg sender with ⟨-, code, heq⟩ | ⟨t, -, heq⟩
  · rw [heq]
    exact replying_error ht hidle sender code
  rw [heq]
  rcases s.handleTarget_cases t msg sender with ⟨-, obs, htarget⟩ | ⟨opt, -, htarget⟩
  · rw [htarget]
    have hctl : (s.withObservers obs).control = .idle := hidle
    exact (replying_runHandler ht hctl t sender _ none).from_id rfl
  · rw [htarget]
    exact replying_handleBlock1 ht hidle opt t sender none

end

-- ===========================================================================
-- A whole turn
-- ===========================================================================

/-- **Replies match their request.** Behind the retransmissions of the pool, a turn sends at
most one datagram: to the sender of the request, with the type, the message ID and the token
that the request asks for. The request may be any that decodes. -/
theorem replies_match {s : Server cfg} (hidle : s.control = .idle) (nowMs : UInt32)
    (sender : Endpoint) {data : Bytes} {request : Message}
    (hdec : Message.decode cfg data = (.none, request)) (hreq : IsRequest request)
    (res : Response) : ∃ s' events,
      (machine cfg).exec [] s (wholeTurn nowMs sender data res) =
          (({ s with lastNowMs := nowMs } : Server cfg).tick.2 ++ events, s') ∧
        RepliesOnce cfg s.nextMessageId s'.nextMessageId request sender events := by
  have hctl : (s.scanned nowMs).control = .idle := (s.scanned_control nowMs).trans hidle
  have hid : (s.scanned nowMs).nextMessageId = s.nextMessageId := by
    obtain ⟨pool, obs, hscan⟩ := s.scanned_spec nowMs
    rw [hscan]
  have hpoll : s.step (.poll nowMs (some (sender, data))) =
      (((s.scanned nowMs).handleRequest request sender).1,
        ({ s with lastNowMs := nowMs } : Server cfg).tick.2 ++
          ((s.scanned nowMs).handleRequest request sender).2) := by
    rw [step_poll hidle, ← receive_request (s.scanned nowMs) sender hdec hreq]
    rfl
  have hturn : Replying s request sender ((s.scanned nowMs).handleRequest request sender) :=
    (replying_handleRequest (Message.decode_token hdec) hctl sender).from_id hid
  generalize hr : (s.scanned nowMs).handleRequest request sender = r at hpoll hturn
  -- the events of the handler's return come behind those of `poll`
  have hexec : (machine cfg).exec [] s (wholeTurn nowMs sender data res) =
      (({ s with lastNowMs := nowMs } : Server cfg).tick.2 ++
        (r.2 ++ (r.1.step (.handlerReturns res)).2), (r.1.step (.handlerReturns res)).1) := by
    show ([] ++ (s.step (.poll nowMs (some (sender, data)))).2 ++
      ((s.step (.poll nowMs (some (sender, data)))).1.step (.handlerReturns res)).2,
      ((s.step (.poll nowMs (some (sender, data)))).1.step (.handlerReturns res)).1) = _
    rw [hpoll, List.nil_append, List.append_assoc]
  refine ⟨_, _, hexec, ?_⟩
  cases hafter : r.1.control with
  | idle =>
    rw [step_returns_idle hafter, List.append_nil]
    exact hturn.done hafter
  | handling h =>
    obtain ⟨hnone, hmsg, hsender, hsame⟩ := hturn.pending h hafter
    have honce := finish_once (Message.decode_token hdec)
      ({ r.1 with control := .idle } : Server cfg) hmsg res
    have hstart : ({ r.1 with control := .idle } : Server cfg).nextMessageId = s.nextMessageId :=
      hsame
    rw [hsender, hstart] at honce
    rw [step_returns hafter]
    refine honce.cons ?_
    rw [datagrams_append, hnone, List.nil_append]

/-- A GET for `/` that the handler answers at once. -/
theorem replies_match_root : rootServer.control = .idle ∧ IsRequest getRootMessage ∧
    ∃ s' events, (machine Config.default).exec [] rootServer
        (wholeTurn 0 {} getRoot { payload := [0x68, 0x69] }) =
        (({ rootServer with lastNowMs := 0 } : Server Config.default).tick.2 ++ events, s') ∧
      RepliesOnce Config.default rootServer.nextMessageId s'.nextMessageId getRootMessage {}
        events :=
  have hdec : Message.decode Config.default getRoot = (.none, getRootMessage) := by decide +kernel
  ⟨rfl, by decide, replies_match rfl 0 {} hdec (by decide) _⟩

end Server

end PulseCoap
