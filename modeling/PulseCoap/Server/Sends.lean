import PulseCoap.Exchange.Block
import PulseCoap.Tracking.Server
import PulseCoap.Server.Frame

/-!
# PulseCoAP — only a Continue has a Block1 option

`sendContinue` is the one function of the server that adds a Block1 option.
Whatever else goes out, fresh or out of the pool, has none, and a handler or an
application cannot make it have one. Nothing the server sends is an RST.

`Lacking` is a property of a datagram, read off what it decodes to, so that it
can be asked of everything the server sends whatever it was built from. The pool
is in the invariant because a message that waits there goes out again.

* `lacks_finish`, `lacks_runHandler`, `lacks_call` — the other replies, the
  notifications and the separate responses.
* `continue_decode` — what a Continue says.
* `PoolSatisfies` — what holds of all that is sent holds of what the pool sends
  again.
-/

namespace PulseCoap

namespace Server

open TransactionPool (Awaiting)

variable {cfg : Config}

-- ===========================================================================
-- Replies
-- ===========================================================================

/-- The datagram is no RST and has no Block1 option. So it names no block of an upload, and
resets nothing. -/
def LacksBlock1 (cfg : Config) (data : Bytes) : Prop :=
  ∀ msg, Message.decode cfg data = (.none, msg) →
    msg.type ≠ .reset ∧ msg.findOption OptionNumber.block1 = none

/-- All datagrams among the events satisfy `P`. Handler calls and returned values are not
datagrams, and are skipped. -/
def Sends (P : Endpoint → Bytes → Prop) (events : List ServerEvent) : Prop :=
  ∀ dest data, .sent dest data ∈ events → P dest data

theorem sends_nil (P : Endpoint → Bytes → Prop) : Sends P [] := fun _ _ h => nomatch h

theorem sends_append {P : Endpoint → Bytes → Prop} {ev ev' : List ServerEvent} :
    Sends P (ev ++ ev') ↔ Sends P ev ∧ Sends P ev' := by
  unfold Sends
  simp only [List.mem_append, or_imp, forall_and]

theorem sends_cons {P : Endpoint → Bytes → Prop} {e : ServerEvent} {ev : List ServerEvent}
    (he : ∀ dest data, e ≠ .sent dest data) (h : Sends P ev) : Sends P (e :: ev) := by
  intro dest data hmem
  rcases List.mem_cons.1 hmem with heq | hmem
  · exact absurd heq.symm (he dest data)
  · exact h dest data hmem

theorem Sends.mono {P Q : Endpoint → Bytes → Prop} {ev : List ServerEvent} (h : Sends P ev)
    (hpq : ∀ dest data, P dest data → Q dest data) : Sends Q ev :=
  fun dest data hmem => hpq dest data (h dest data hmem)

/-- An encoded message is sent in its wire form, and one that does not encode is not sent. So it
is enough to look at the wire form. -/
theorem sends_encoded {P : Endpoint → Bytes → Prop} {m : Message} (hm : Message.Built cfg m)
    {dest : Endpoint} (h : P dest m.wire) : Sends P (sendIfEncoded cfg m dest) := by
  intro dest' data hmem
  rcases Nat.lt_or_ge cfg.maxMsgSize m.wireSize with hlong | hfits
  · rw [sendIfEncoded_drops hm dest hlong] at hmem
    cases hmem
  · rw [sendIfEncoded_fits hm dest hfits] at hmem
    cases List.mem_singleton.1 hmem
    exact h

/-- No RST, and no Block1 option. -/
abbrev Lacking (cfg : Config) : Endpoint → Bytes → Prop := fun _ data => LacksBlock1 cfg data

/-- The type of a message survives the wire. -/
theorem Carries.decode_type {m : Message} {hd : ReplyHeader} {uints : List (UInt16 × UInt32)}
    {payload : Bytes} (h : Carries cfg m hd uints payload) :
    (Message.decode cfg m.wire).2.type = hd.type :=
  (Message.sameContent_decode h.built.toWellFormed).type.trans h.type

/-- A message with no Block1 among its options is read without one. The decoder finds the
options that were added and no others. -/
theorem Carries.lacksBlock1 {m : Message} {hd : ReplyHeader} {uints : List (UInt16 × UInt32)}
    {payload : Bytes} (h : Carries cfg m hd uints payload) (hrst : hd.type ≠ .reset)
    (hu : ∀ u ∈ uints, u.1 ≠ OptionNumber.block1) : LacksBlock1 cfg m.wire := by
  intro msg hdec
  have hmsg : msg = (Message.decode cfg m.wire).2 := congrArg Prod.snd hdec.symm
  rw [hmsg]
  exact ⟨h.decode_type ▸ hrst, h.lacks hu⟩

/-- A reply is an ACK or a NON message. The server sends no RST at all. -/
theorem replyHeader_type (s : Server cfg) (request : Message) (code : Code) :
    (s.replyHeader request code).type ≠ .reset := by
  unfold replyHeader
  split <;> exact nofun

/-- The Observe option is no Block1 option. -/
theorem observeUint_lacks (ov : Option UInt32) :
    ∀ u ∈ observeUint ov, u.1 ≠ OptionNumber.block1 := by
  cases ov with
  | none => exact fun _ hu => nomatch hu
  | some v =>
    intro u hu
    rw [List.mem_singleton.1 hu]
    exact (by decide : OptionNumber.observe ≠ OptionNumber.block1)

/-- Nor is the Content-Format option. -/
theorem contentUint_lacks (payload : Bytes) (contentFormat : ContentFormat) :
    ∀ u ∈ contentUint payload contentFormat, u.1 ≠ OptionNumber.block1 := by
  unfold contentUint
  split
  · intro u hu
    rw [List.mem_singleton.1 hu]
    exact (by decide : OptionNumber.contentFormat ≠ OptionNumber.block1)
  · exact fun _ hu => nomatch hu

/-- A response in one datagram. Its options are Observe and Content-Format at most. -/
theorem lacks_piggybacked (s : Server cfg) {request : Message}
    (ht : request.token.length ≤ kMaxTokenLen) (dest : Endpoint) (code : Code) (payload : Bytes)
    (contentFormat : ContentFormat) (ov : Option UInt32) :
    Sends (Lacking cfg)
      (s.sendPiggybackedResponse request dest code payload contentFormat ov).2 := by
  have hcarries := s.carries_content code payload contentFormat ov ht
  refine sends_encoded hcarries.built
    (hcarries.lacksBlock1 (s.replyHeader_type request code) fun u hu => ?_)
  rcases List.mem_append.1 hu with hu | hu
  · exact observeUint_lacks ov u hu
  · exact contentUint_lacks payload contentFormat u hu

/-- An error reply is such a response, without a payload. -/
theorem lacks_error (s : Server cfg) {request : Message}
    (ht : request.token.length ≤ kMaxTokenLen) (dest : Endpoint) (code : Code) :
    Sends (Lacking cfg) (s.sendError request dest code).2 :=
  s.lacks_piggybacked ht dest code [] .textPlain none

/-- One block of a response: it has a Block2 option, which is another number. -/
theorem lacks_block2 (s : Server cfg) {request : Message}
    (ht : request.token.length ≤ kMaxTokenLen) (dest : Endpoint) (code : Code)
    (fullPayload : Bytes) (contentFormat : ContentFormat) (ov : Option UInt32) (num : UInt32)
    (more : Bool) (szx : UInt8) :
    Sends (Lacking cfg) (s.sendBlock2Response request dest code fullPayload contentFormat ov num
      more szx).2 := by
  unfold sendBlock2Response
  dsimp only
  split
  · exact sends_nil _
  · have hn : (if fullPayload.length - num.toNat * blockSize szx > blockSize szx then blockSize szx
        else fullPayload.length - num.toNat * blockSize szx) ≤
        (fullPayload.drop (num.toNat * blockSize szx)).length := by
      rw [List.length_drop]
      split <;> omega
    have hcarries := s.carries_block2 code contentFormat ov
      (BlockOption.toOptionValue num more szx) hn ht
    refine sends_encoded hcarries.built
      (hcarries.lacksBlock1 (s.replyHeader_type request code) fun u hu => ?_)
    rcases List.mem_append.1 hu with hu | hu
    · rcases List.mem_append.1 hu with hu | hu
      · exact observeUint_lacks ov u hu
      · rw [List.mem_singleton.1 hu]
        exact (by decide : OptionNumber.contentFormat ≠ OptionNumber.block1)
    · rw [List.mem_singleton.1 hu]
      exact (by decide : OptionNumber.block2 ≠ OptionNumber.block1)

/-- An empty ACK has no options at all. -/
theorem lacks_emptyAck (messageId : UInt16) (dest : Endpoint) :
    Sends (Lacking cfg) (sendEmptyAck cfg messageId dest) := by
  have hcarries := carries_emptyAck cfg messageId
  exact sends_encoded hcarries.built (hcarries.lacksBlock1 nofun fun _ hu => nomatch hu)

/-- What a handler that does not defer is answered with, in one datagram or in a block of it. -/
theorem lacks_inline (s : Server cfg) {h : Handling cfg}
    (ht : h.msg.token.length ≤ kMaxTokenLen) (res : Response) :
    Sends (Lacking cfg) (s.replyInline h res).2 := by
  unfold replyInline
  dsimp only
  split
  · split
    · split
      · exact s.lacks_error ht _ _
      · exact s.lacks_block2 ht _ _ _ _ _ _ _ _
    · exact s.lacks_piggybacked ht _ _ _ _ _
  · exact s.lacks_piggybacked ht _ _ _ _ _

/-- The result of a handler, or an empty ACK if it is deferred. The return of an upload's
handler is a plain response too. -/
theorem lacks_finish (s : Server cfg) {h : Handling cfg}
    (ht : h.msg.token.length ≤ kMaxTokenLen) (res : Response) :
    Sends (Lacking cfg) (s.finish h res).2 := by
  unfold finish
  dsimp only
  split
  · split
    · exact lacks_emptyAck _ _
    · exact sends_nil _
  · split
    · exact lacks_piggybacked _ ht _ _ _ _ _
    · exact lacks_inline _ ht res

/-- A handler call, and what the server's own handler answers. -/
theorem lacks_runHandler (s : Server cfg) (t : Target) {msg : Message}
    (ht : msg.token.length ≤ kMaxTokenLen) (sender : Endpoint) (ov : Option UInt32)
    (session : Option (Fin cfg.maxBlock1Sessions)) :
    Sends (Lacking cfg) (s.runHandler t msg sender ov session).2 := by
  rcases s.runHandler_cases t msg sender ov session with ⟨f, -, heq⟩ | ⟨-, heq⟩
  · rw [heq]
    exact sends_cons nofun (sends_nil _)
  · rw [heq]
    exact sends_cons nofun (lacks_finish _ (h := s.handlingFor msg sender ov session) ht _)

/-- **A Continue says which block it answers**, if it has room for its option, and is no RST. -/
theorem continue_decode (s : Server cfg) {request : Message}
    (ht : request.token.length ≤ kMaxTokenLen) (dest : Endpoint) (num : UInt32) (m : Bool)
    (szx : UInt8) :
    Sends (fun dest' data => dest' = dest ∧ ∀ msg, Message.decode cfg data = (.none, msg) →
        msg.type ≠ .reset ∧ ∀ o, msg.findOption OptionNumber.block1 = some o →
          Message.optionAsUint o = BlockOption.toOptionValue num m szx)
      (s.sendContinue request dest num m szx).2 := by
  have hcarries := s.carries_continue (BlockOption.toOptionValue num m szx) ht
  refine sends_encoded hcarries.built ⟨rfl, fun msg hdec => ?_⟩
  have hmsg : msg = (Message.decode cfg (Message.wire _)).2 := congrArg Prod.snd hdec.symm
  rw [hmsg]
  refine ⟨hcarries.decode_type ▸ s.replyHeader_type _ _, fun o ho => ?_⟩
  obtain ⟨v, hv, hvalue⟩ := hcarries.findOption ho
  cases List.mem_singleton.1 hv
  exact hvalue

/-- The codes that refuse a request: a critical option that is unknown, a path that is not
there, a method that is unknown or not allowed. -/
def refusals : List Code :=
  [Code.badOption, Code.notFound, Code.notImplemented, Code.methodNotAllowed]

/-- A request that is not admitted is refused, with one of these codes, and nothing but the
message ID changes. -/
theorem handleRequest_refused (s : Server cfg) {msg : Message} (sender : Endpoint)
    (hnone : s.admitted msg = none) :
    ∃ code ∈ refusals, s.handleRequest msg sender = s.sendError msg sender code := by
  unfold admitted at hnone
  unfold handleRequest
  cases hpath : Uri.joinUriPath msg cfg.maxUriPathLen with
  | none => exact ⟨Code.badOption, by decide, rfl⟩
  | some path =>
    cases ht : s.findTarget path with
    | none => exact ⟨Code.notFound, by decide, by simp [ht]⟩
    | some t =>
      cases hmask : requestedMask msg.code with
      | none => exact ⟨Code.notImplemented, by decide, by simp [ht]⟩
      | some mask =>
        have hmethods : t.resource.methods &&& mask = 0 := by
          by_contra hallowed
          simp [hpath, ht, hmask, hallowed] at hnone
        exact ⟨Code.methodNotAllowed, by decide, by simp [ht, hmethods]⟩

-- ===========================================================================
-- Notifications and separate responses
-- ===========================================================================

/-- A notification for one observer. Its token fits, so it is on the wire as it was built. -/
theorem lacks_notifyObserver {s : Server cfg} (t : s.TokensFit) (i : Fin cfg.maxObservers)
    (sequence : UInt32) (payload : Bytes) (contentFormat : ContentFormat) (confirmable : Bool) :
    Sends (Lacking cfg)
      (s.notifyObserver i sequence payload contentFormat confirmable).2 := by
  have hcarries := carries_notification cfg (s.observers i) (t.observers i) s.nextMessageId
    sequence payload contentFormat confirmable
  have hsends : Sends (Lacking cfg) (sendIfEncoded cfg (notification cfg (s.observers i)
      s.nextMessageId sequence payload contentFormat confirmable) (s.observers i).remote) := by
    have htype : (if confirmable then MessageType.confirmable else .nonConfirmable) ≠ .reset := by
      cases confirmable <;> exact nofun
    refine sends_encoded hcarries.built (hcarries.lacksBlock1 htype fun u hu => ?_)
    rcases List.mem_cons.1 hu with rfl | hu
    · exact (by decide : OptionNumber.observe ≠ OptionNumber.block1)
    · rw [List.mem_singleton.1 hu]
      exact (by decide : OptionNumber.contentFormat ≠ OptionNumber.block1)
  unfold sendIfEncoded at hsends
  unfold notifyObserver
  dsimp only
  split
  · exact sends_nil _
  · next buf hbuf =>
    rw [hbuf] at hsends
    exact hsends

/-- The notifications for all of them, by induction over the table. -/
theorem lacks_notifyFrom (index : Nat) (sequence : UInt32) (payload : Bytes)
    (contentFormat : ContentFormat) (confirmable : Bool) (is : List (Fin cfg.maxObservers)) :
    ∀ {s : Server cfg}, s.TokensFit → Sends (Lacking cfg)
      (s.notifyFrom index sequence payload contentFormat confirmable is).2 := by
  induction is with
  | nil => exact fun _ => sends_nil _
  | cons i is ih =>
    intro s t
    rw [notifyFrom]
    split
    · exact sends_append.2 ⟨lacks_notifyObserver t i sequence payload contentFormat confirmable,
        ih (t.notifyObserver i sequence payload contentFormat confirmable)⟩
    · exact ih t

/-- The separate response to a deferred request, and nothing for a handle that is not in use. -/
theorem lacks_respond {s : Server cfg} (t : s.TokensFit) (handle : UInt8) (code : Code)
    (payload : Bytes) (contentFormat : ContentFormat) :
    Sends (Lacking cfg) (s.respond handle code payload contentFormat).2.2 := by
  unfold respond
  split
  · next hlt =>
    have hcarries := carries_separateResponse cfg (s.deferred ⟨handle.toNat, hlt⟩)
      (t.deferred _) s.nextMessageId code payload contentFormat
    have htype : (if (s.deferred ⟨handle.toNat, hlt⟩).wasConfirmable then MessageType.confirmable
        else .nonConfirmable) ≠ .reset := by
      split <;> exact nofun
    have hsends : Sends (Lacking cfg) (sendIfEncoded cfg (separateResponse cfg
        (s.deferred ⟨handle.toNat, hlt⟩) s.nextMessageId code payload contentFormat)
        (s.deferred ⟨handle.toNat, hlt⟩).remote) :=
      sends_encoded hcarries.built
        (hcarries.lacksBlock1 htype (contentUint_lacks payload contentFormat))
    unfold sendIfEncoded at hsends
    dsimp only
    split
    · exact sends_nil _
    · split
      · exact sends_nil _
      · next buf hbuf =>
        rw [hbuf] at hsends
        exact hsends
  · exact sends_nil _

/-- A call of the API. -/
theorem lacks_call {s : Server cfg} (t : s.TokensFit) (call : ServerCall) :
    Sends (Lacking cfg) (s.call call).2.2 := by
  cases call with
  | begin transportOk => exact sends_nil _
  | addResource path methods handler userContext observable => exact sends_nil _
  | setResourceType path rt => exact sends_nil _
  | notify path payload contentFormat confirmable =>
    show Sends _ (s.notify path payload contentFormat confirmable).2.2
    unfold notify
    split
    · exact sends_nil _
    · split
      · exact sends_nil _
      · exact lacks_notifyFrom _ _ _ _ _ _ ⟨t.observers, t.deferred⟩
  | respond handle code payload contentFormat =>
    exact lacks_respond t handle code payload contentFormat

-- ===========================================================================
-- What the pool sends again
-- ===========================================================================

/-- All messages that wait for an ACK satisfy `P`. With it a resend needs no second look. -/
def PoolSatisfies (P : Endpoint → Bytes → Prop) (s : Server cfg) : Prop :=
  ∀ i, Awaiting (s.txPool i) → P (s.txPool i).remote (s.txPool i).message

/-- An operation that keeps an entry or frees it keeps this. -/
theorem PoolSatisfies.congr {P : Endpoint → Bytes → Prop} {s s' : Server cfg}
    (h : s.PoolSatisfies P) (hpool : ∀ i, s'.txPool i = s.txPool i ∨ ¬ Awaiting (s'.txPool i)) :
    s'.PoolSatisfies P := by
  intro i ha
  rcases hpool i with heq | hfree
  · rw [heq] at ha ⊢
    exact h i ha
  · exact absurd ha hfree

/-- What an operation adds to the pool it has sent. So what holds of all it sends holds of the
pool too. -/
def SendsStarted (s s' : Server cfg) (events : List ServerEvent) : Prop :=
  ∀ i, s'.txPool i = s.txPool i ∨ .sent (s'.txPool i).remote (s'.txPool i).message ∈ events

theorem SendsStarted.append {s s' s'' : Server cfg} {ev ev' : List ServerEvent}
    (h : s.SendsStarted s' ev) (h' : s'.SendsStarted s'' ev') :
    s.SendsStarted s'' (ev ++ ev') := by
  intro i
  rcases h' i with heq | hsent
  · rw [heq]
    rcases h i with heq | hsent
    · exact .inl heq
    · exact .inr (List.mem_append_left _ hsent)
  · exact .inr (List.mem_append_right _ hsent)

/-- `start` is handed what was just sent. If the pool is full nothing is added. -/
theorem sendsStarted_start (s : Server cfg) (remote : Endpoint) (messageId : UInt16)
    (token buf : Bytes) :
    s.SendsStarted (s.startTransaction remote messageId token buf) [.sent remote buf] := by
  intro i
  rcases s.begins_start remote messageId token buf i with heq | ⟨hfree, -⟩
  · exact .inl heq
  · unfold startTransaction
    dsimp only
    rcases TransactionPool.start_cases s.txPool remote messageId token buf s.lastNowMs {} with
      heq | ⟨j, -, heq⟩
    · rw [heq]
      exact .inl rfl
    · rw [heq]
      by_cases hij : i = j
      · subst hij
        rw [Table.set_self]
        exact .inr (List.mem_singleton.2 rfl)
      · exact .inl (Table.set_ne _ _ hij)

/-- Each confirmable notification is sent and then handed to the pool. -/
theorem sendsStarted_notifyFrom (index : Nat) (sequence : UInt32) (payload : Bytes)
    (contentFormat : ContentFormat) (confirmable : Bool) (is : List (Fin cfg.maxObservers)) :
    ∀ s : Server cfg, s.SendsStarted
      (s.notifyFrom index sequence payload contentFormat confirmable is).1
      (s.notifyFrom index sequence payload contentFormat confirmable is).2 := by
  induction is with
  | nil => exact fun s i => .inl rfl
  | cons j is ih =>
    intro s
    rw [notifyFrom]
    split
    · refine SendsStarted.append ?_ (ih _)
      unfold notifyObserver
      dsimp only
      split
      · exact fun i => .inl rfl
      · cases confirmable with
        | true => exact sendsStarted_start { s with observers := _, nextMessageId := _ } _ _ _ _
        | false => exact fun i => .inl rfl
    · exact ih s

/-- **What a call adds to the pool it has sent**, in the same step and to the same remote. -/
theorem sendsStarted_call (s : Server cfg) (call : ServerCall) :
    s.SendsStarted (s.call call).1 (s.call call).2.2 := by
  have hquiet : ∀ {s' : Server cfg}, s'.txPool = s.txPool → s.SendsStarted s' [] :=
    fun heq i => .inl (congrFun heq i)
  rcases s.call_cases call with ⟨rs, heq, hsent⟩ |
    ⟨path, payload, contentFormat, confirmable, rfl⟩ | ⟨handle, code, payload, contentFormat, rfl⟩
  · rw [heq, hsent]
    exact hquiet rfl
  · show s.SendsStarted (s.notify path payload contentFormat confirmable).1
      (s.notify path payload contentFormat confirmable).2.2
    unfold notify
    split
    · exact hquiet rfl
    · split
      · exact hquiet rfl
      · exact sendsStarted_notifyFrom _ _ _ _ _ _ { s with resources := _ }
  · show s.SendsStarted (s.respond handle code payload contentFormat).1
      (s.respond handle code payload contentFormat).2.2
    unfold respond
    split
    · dsimp only
      split
      · exact hquiet rfl
      · split
        · exact hquiet rfl
        · split
          · exact sendsStarted_start s.drawMessageId _ _ _ _
          · exact fun i => .inl rfl
    · exact hquiet rfl

/-- A call keeps what it does not violate itself. This is how a property of the datagrams
becomes one of the pool. -/
theorem PoolSatisfies.call {P : Endpoint → Bytes → Prop} {s : Server cfg}
    (h : s.PoolSatisfies P) {call : ServerCall} (hsends : Sends P (s.call call).2.2) :
    (s.call call).1.PoolSatisfies P := by
  intro i ha
  rcases s.sendsStarted_call call i with heq | hsent
  · rw [heq] at ha ⊢
    exact h i ha
  · exact hsends _ _ hsent

/-- An entry that is sent again is sent as it is in the pool. -/
theorem PoolSatisfies.tickAt {P : Endpoint → Bytes → Prop} {s : Server cfg}
    (h : s.PoolSatisfies P) (i : Fin cfg.maxTransactions) :
    (s.tickAt i).1.PoolSatisfies P ∧ Sends P (s.tickAt i).2 := by
  -- an entry of the same message, or a free one
  have hset : ∀ t : Transaction, (Awaiting t → Awaiting (s.txPool i) ∧
      t.remote = (s.txPool i).remote ∧ t.message = (s.txPool i).message) →
      (∀ j, Awaiting ((s.txPool.set i t) j) →
        P ((s.txPool.set i t) j).remote ((s.txPool.set i t) j).message) := by
    intro t ht
    refine Table.forall_set (P := fun t => Awaiting t → P t.remote t.message) h fun ha => ?_
    obtain ⟨hold, hremote, hmessage⟩ := ht ha
    rw [hremote, hmessage]
    exact h i hold
  unfold Server.tickAt
  dsimp only
  rcases TransactionPool.tickSlot_cases cfg s.lastNowMs (s.txPool i) with ⟨heq, -⟩ |
    ⟨ha, -, -, heq⟩ | ⟨ha, -, -, heq⟩
  · rw [heq]
    exact ⟨hset _ fun ha => ⟨ha, rfl, rfl⟩, sends_nil _⟩
  · rw [heq]
    refine ⟨hset _ fun _ => ⟨ha, rfl, rfl⟩, fun dest data hmem => ?_⟩
    cases List.mem_singleton.1 hmem
    exact h i ha
  · rw [heq]
    exact ⟨hset _ (fun hfree => nomatch hfree), sends_nil _⟩

/-- The pool scan only sends what is in the pool. -/
theorem PoolSatisfies.tickFrom {P : Endpoint → Bytes → Prop} (is : List (Fin cfg.maxTransactions)) :
    ∀ {s : Server cfg}, s.PoolSatisfies P →
      (s.tickFrom is).1.PoolSatisfies P ∧ Sends P (s.tickFrom is).2 := by
  induction is with
  | nil => exact fun h => ⟨h, sends_nil _⟩
  | cons i is ih =>
    intro s h
    obtain ⟨hat, hsends⟩ := h.tickAt i
    obtain ⟨hrest, hsends'⟩ := ih hat
    exact ⟨hrest, sends_append.2 ⟨hsends, hsends'⟩⟩

/-- The scan of a poll keeps it, and sends nothing that violates it. -/
theorem PoolSatisfies.scanned {P : Endpoint → Bytes → Prop} {s : Server cfg}
    (h : s.PoolSatisfies P) (nowMs : UInt32) :
    (s.scanned nowMs).PoolSatisfies P ∧ Sends P ({ s with lastNowMs := nowMs } : Server cfg).tick.2 :=
  PoolSatisfies.tickFrom (s := { s with lastNowMs := nowMs }) _ h

/-- A datagram starts no transaction. It may free one, and that does no harm. -/
theorem PoolSatisfies.receive {P : Endpoint → Bytes → Prop} {s : Server cfg}
    (h : s.PoolSatisfies P) (rx : Option (Endpoint × Bytes)) : (s.receive rx).1.PoolSatisfies P :=
  h.congr (s.receive_pool rx).2

/-- Nor does the end of a handler: replies are not sent again. -/
theorem PoolSatisfies.finish {P : Endpoint → Bytes → Prop} {s : Server cfg}
    (h : s.PoolSatisfies P) (hd : Handling cfg) (res : Response) :
    (s.finish hd res).1.PoolSatisfies P :=
  h.congr fun i => .inl (congrFun (s.keepsTables_finish hd res).txPool i)

end Server

end PulseCoap
