import PulseCoap.Server.Spec
import PulseCoap.Server.Reply

/-!
# PulseCoAP — which Confirmable requests are answered

Every exit of `handleRequest` encodes its reply into a buffer of
`PULSECOAP_MAX_MSG_SIZE` bytes and gives up when it does not fit. `answerSize` is
the size of the reply a request is due, computed exit by exit from the request, the
tables and the handler's result; the request is answered exactly when that size is
within the buffer.

The size is a function of the state before the request: the exits that send only
a code, the Continue with its Block1 value, the whole response, the block of it
that the request names or that its length makes necessary. `answerSize` follows
the branches of `handleRequest` to find which of these is due, and the theorems
follow the same branches through the functions that send. A server whose reply
does not fit says nothing, and the client is left to its retransmissions.

* `piggybacked_replied`, `continue_replied`, `inline_replied` — each sending
  function replies exactly when its message fits.
* `finish_replied`, `runHandler_answered` — the same for the handler's result.
* `answered_iff` — the same for the whole request.
* `answerSize` — the size, exit by exit.
* `not_answered` — a payload of 256 bytes, with its header and the default
  `PULSECOAP_MAX_MSG_SIZE`.
-/

namespace PulseCoap

namespace Server

variable {cfg : Config}

/-! ## Replies and answers -/

/-- One of these datagrams is an ACK of the request, sent to its sender. -/
def Replied (cfg : Config) (request : Message) (sender : Endpoint) (events : List ServerEvent) :
    Prop :=
  ∃ m buf, m.type = .acknowledgement ∧ m.messageId = request.messageId ∧
    encoded cfg m = some buf ∧ .sent sender buf ∈ events

/-- The request is replied to before its handler returns or as soon as it has,
whatever the handler did to the server in between. -/
def AnsweredBy (request : Message) (sender : Endpoint) (res : Response)
    (r : Server cfg × List ServerEvent) : Prop :=
  Replied cfg request sender r.2 ∨
    ∃ h, r.1.control = .handling h ∧ ∀ s' : Server cfg, s'.control = .handling h →
      Replied cfg request sender (s'.step (.handlerReturns res)).2

/-- `poll` answers the request in this datagram, if its handler returns `res`. -/
def Answered (s : Server cfg) (nowMs : UInt32) (sender : Endpoint) (data : Bytes)
    (request : Message) (res : Response) : Prop :=
  AnsweredBy request sender res ((s.scanned nowMs).receive (some (sender, data)))

/-! ## The size of the reply -/

/-- A reply that is only a code. -/
def codeSize (cfg : Config) (msg : Message) : Nat := replySize cfg msg.token.length [] 0

/-- A 2.31 Continue with this Block1 value. -/
def continueSize (cfg : Config) (msg : Message) (v : UInt32) : Nat :=
  replySize cfg msg.token.length [(OptionNumber.block1, v)] 0

/-- A response in one piece. -/
def contentSize (cfg : Config) (msg : Message) (ov : Option UInt32) (res : Response) : Nat :=
  replySize cfg msg.token.length (observeUint ov ++ contentUint res.payload res.contentFormat)
    res.payload.length

/-- A response outside the Block1 branch: a block of it when the request names
one or it is longer than a block. -/
def inlineSize (cfg : Config) (msg : Message) (ov : Option UInt32) (res : Response) : Nat :=
  let b2 := block2Requested msg
  let szx := (b2.map (·.szx)).getD cfg.blockSzx
  let num := (b2.map (·.num)).getD 0
  let offset := num.toNat * blockSize szx
  let remaining := res.payload.length - offset
  if (cfg.enableBlockwise ∧ res.payload.length > 0) ∧
      (res.payload.length > blockSize szx ∨ b2.isSome) then
    if offset ≥ res.payload.length then codeSize cfg msg
    else
      replySize cfg msg.token.length
        (observeUint ov ++ [(OptionNumber.contentFormat, res.contentFormat.raw.toUInt32)] ++
          [(OptionNumber.block2,
            BlockOption.toOptionValue num (decide (remaining > blockSize szx)) szx)])
        (min remaining (blockSize szx))
  else contentSize cfg msg ov res

/-- The block a request names begins behind the end of the payload. -/
def PastEnd (cfg : Config) (msg : Message) (res : Response) : Prop :=
  let b2 := block2Requested msg
  let szx := (b2.map (·.szx)).getD cfg.blockSzx
  let num := (b2.map (·.num)).getD 0
  ((cfg.enableBlockwise ∧ res.payload.length > 0) ∧
      (res.payload.length > blockSize szx ∨ b2.isSome)) ∧
    num.toNat * blockSize szx ≥ res.payload.length

instance (cfg : Config) (msg : Message) (res : Response) : Decidable (PastEnd cfg msg res) :=
  inferInstanceAs (Decidable (_ ∧ _))

/-- The code of a response outside the Block1 branch. -/
def inlineCode (cfg : Config) (msg : Message) (res : Response) : Code :=
  if PastEnd cfg msg res then Code.badRequest else res.code

/-- What a response outside the Block1 branch says: its code, and its Observe
option before options with other numbers. -/
structure WritesInline (cfg : Config) (s : Server cfg) (h : Handling cfg) (res : Response)
    (m : Message) (uints : List (UInt16 × UInt32)) (payload : Bytes) : Prop where
  carries : Carries cfg m (s.replyHeader h.msg (inlineCode cfg h.msg res)) uints payload
  size    : replySize cfg h.msg.token.length uints payload.length =
    inlineSize cfg h.msg h.observeValue res
  options : ∃ us, uints = (if PastEnd cfg h.msg res then [] else observeUint h.observeValue) ++ us ∧
    ∀ u ∈ us, u.1 ≠ OptionNumber.observe

/-- The reply to a result of the handler: an empty ACK when it defers and has a
slot. -/
def resultSize (cfg : Config) (msg : Message) (ov : Option UInt32) (slot uploaded : Bool)
    (res : Response) : Nat :=
  if res.deferred ∧ slot then 4
  else if uploaded then contentSize cfg msg ov res
  else inlineSize cfg msg ov res

/-- The result of a resource's handler: the server's own ignores `res`. -/
def resultOf (s : Server cfg) (t : Target) (res : Response) : Response :=
  match t.resource.handler with
  | .app _ => res
  | .wellKnownCore => s.wellKnownCoreHandler

/-- The reply of a request whose handler is called. -/
def handlerSize (s : Server cfg) (t : Target) (msg : Message) (ov : Option UInt32)
    (uploaded : Bool) (res : Response) : Nat :=
  resultSize cfg msg ov s.allocateDeferred.isSome uploaded (s.resultOf t res)

/-- The reply of a block of an upload. -/
def blockSizeDue (s : Server cfg) (i : Fin cfg.maxBlock1Sessions) (b1 : BlockOption) (t : Target)
    (msg : Message) (res : Response) : Nat :=
  let sess := s.block1sessions i
  if b1.num ≠ sess.nextExpectedNum then
    continueSize cfg msg (BlockOption.toOptionValue (sess.nextExpectedNum - 1) true b1.szx)
  else if sess.buffer.length + msg.payloadBytes.length > cfg.block1MaxBody then codeSize cfg msg
  else if b1.m then continueSize cfg msg (BlockOption.toOptionValue b1.num false b1.szx)
  else s.handlerSize t msg none true res

/-- **The size of the reply a request is due**, if its handler returns `res`. -/
def answerSize (s : Server cfg) (msg : Message) (sender : Endpoint) (res : Response) : Nat :=
  match s.admitted msg with
  | none => codeSize cfg msg
  | some t =>
    match block1Option cfg msg with
    | none => s.handlerSize t msg (s.handleObserve t msg sender).2 false res
    | some opt =>
      match BlockOption.fromOption opt with
      | none => codeSize cfg msg
      | some b1 =>
        match s.sessionFor b1 sender msg.token with
        | .error _ => codeSize cfg msg
        | .ok (s, i) => s.blockSizeDue i b1 t msg res

/-! ## One lemma for each exit -/

theorem Replied.cons {request : Message} {sender : Endpoint} {e : ServerEvent}
    {events : List ServerEvent} (he : ∀ dest data, e ≠ .sent dest data) :
    Replied cfg request sender (e :: events) ↔ Replied cfg request sender events := by
  constructor
  · rintro ⟨m, buf, htype, hid, henc, hmem⟩
    rcases List.mem_cons.1 hmem with heq | hmem
    · exact absurd heq.symm (he _ _)
    · exact ⟨m, buf, htype, hid, henc, hmem⟩
  · rintro ⟨m, buf, htype, hid, henc, hmem⟩
    exact ⟨m, buf, htype, hid, henc, List.mem_cons_of_mem _ hmem⟩

theorem not_replied_nil (request : Message) (sender : Endpoint) :
    ¬ Replied cfg request sender [] := by
  rintro ⟨m, buf, -, -, -, hmem⟩
  cases hmem

/-- An ACK of the request replies exactly when it fits. -/
theorem Carries.replied {m request : Message} {hd : ReplyHeader} {uints : List (UInt16 × UInt32)}
    {payload : Bytes} (h : Carries cfg m hd uints payload) (sender : Endpoint)
    (htype : hd.type = .acknowledgement) (hid : hd.messageId = request.messageId) :
    Replied cfg request sender (sendIfEncoded cfg m sender) ↔
      replySize cfg hd.token.length uints payload.length ≤ cfg.maxMsgSize := by
  rw [← h.size]
  constructor
  · intro hrep
    by_contra hlong
    rw [sendIfEncoded_drops h.built sender (by omega)] at hrep
    exact not_replied_nil _ _ hrep
  · intro hfits
    rw [sendIfEncoded_fits h.built sender hfits]
    exact ⟨m, m.wire, h.type.trans htype, h.messageId.trans hid,
      (encoded_iff h.built _).2 ⟨hfits, rfl⟩, List.mem_singleton.2 rfl⟩

theorem contentUint_other {payload : Bytes} {contentFormat : ContentFormat} :
    ∀ u ∈ contentUint payload contentFormat, u.1 ≠ OptionNumber.observe := by
  intro u hu
  unfold contentUint at hu
  split at hu
  · rw [List.mem_singleton.1 hu]
    exact (by decide : OptionNumber.contentFormat ≠ OptionNumber.observe)
  · cases hu

/-- The options of a block behind its Observe option. -/
theorem block2Uints_other {contentFormat : ContentFormat} {v : UInt32} :
    ∀ u ∈ [(OptionNumber.contentFormat, contentFormat.raw.toUInt32)] ++ [(OptionNumber.block2, v)],
      u.1 ≠ OptionNumber.observe := by
  intro u hu
  rcases List.mem_append.1 hu with hu | hu
  · rw [List.mem_singleton.1 hu]
    exact (by decide : OptionNumber.contentFormat ≠ OptionNumber.observe)
  · rw [List.mem_singleton.1 hu]
    exact (by decide : OptionNumber.block2 ≠ OptionNumber.observe)

/-- A block that begins inside the payload. -/
theorem block2_carries (s : Server cfg) (h : Handling cfg) (res : Response)
    (ht : h.msg.token.length ≤ kMaxTokenLen) (num : UInt32) (more : Bool) (szx : UInt8)
    (hoff : ¬ num.toNat * blockSize szx ≥ res.payload.length) (hnot : ¬ PastEnd cfg h.msg res)
    (hsize : inlineSize cfg h.msg h.observeValue res = replySize cfg h.msg.token.length
      (observeUint h.observeValue ++
        [(OptionNumber.contentFormat, res.contentFormat.raw.toUInt32)] ++
          [(OptionNumber.block2, BlockOption.toOptionValue num more szx)])
      (min (res.payload.length - num.toNat * blockSize szx) (blockSize szx))) :
    ∃ m uints payload, WritesInline cfg s h res m uints payload ∧
      (s.sendBlock2Response h.msg h.sender res.code res.payload res.contentFormat h.observeValue
        num more szx).2 = sendIfEncoded cfg m h.sender := by
  have hlen : (if res.payload.length - num.toNat * blockSize szx > blockSize szx then blockSize szx
      else res.payload.length - num.toNat * blockSize szx) =
      min (res.payload.length - num.toNat * blockSize szx) (blockSize szx) := by
    split <;> omega
  -- the slice is inside the payload, as the block begins there
  have hn : min (res.payload.length - num.toNat * blockSize szx) (blockSize szx) ≤
      (res.payload.drop (num.toNat * blockSize szx)).length := by
    rw [List.length_drop]
    omega
  have hcode : inlineCode cfg h.msg res = res.code := if_neg hnot
  have hcarries := s.carries_block2 res.code res.contentFormat h.observeValue
    (BlockOption.toOptionValue num more szx) hn ht
  rw [← hcode] at hcarries
  -- a block that does not pass the end has the Observe option too
  have hoptions : observeUint h.observeValue ++
      [(OptionNumber.contentFormat, res.contentFormat.raw.toUInt32)] ++
        [(OptionNumber.block2, BlockOption.toOptionValue num more szx)] =
      (if PastEnd cfg h.msg res then [] else observeUint h.observeValue) ++
        ([(OptionNumber.contentFormat, res.contentFormat.raw.toUInt32)] ++
          [(OptionNumber.block2, BlockOption.toOptionValue num more szx)]) := by
    rw [if_neg hnot, List.append_assoc]
  refine ⟨_, _, _, ⟨hcarries, ?_, _, hoptions, block2Uints_other⟩, ?_⟩
  · rw [hsize, List.length_take, Nat.min_eq_left hn]
  · rw [hcode]
    unfold sendBlock2Response
    simp only [hoff, if_false, hlen]

/-- **The inline reply** is one message, whichever branch it comes from: the whole payload, a
block of it, or an error. Its header is the one of `reply`. -/
theorem replyInline_carries (s : Server cfg) (h : Handling cfg) (res : Response)
    (ht : h.msg.token.length ≤ kMaxTokenLen) : ∃ m uints payload,
      WritesInline cfg s h res m uints payload ∧
        (s.replyInline h res).2 = sendIfEncoded cfg m h.sender := by
  -- what the two branches without a block have in common
  have hwhole : ¬ PastEnd cfg h.msg res → inlineSize cfg h.msg h.observeValue res =
      contentSize cfg h.msg h.observeValue res → WritesInline cfg s h res
        (addContent cfg (addObserve cfg (s.reply h.msg res.code).2 h.observeValue) res.payload
          res.contentFormat)
        (observeUint h.observeValue ++ contentUint res.payload res.contentFormat) res.payload := by
    intro hnot hsize
    refine ⟨?_, hsize.symm, _, by rw [if_neg hnot], contentUint_other⟩
    have hcode : inlineCode cfg h.msg res = res.code := if_neg hnot
    rw [hcode]
    exact s.carries_content res.code res.payload res.contentFormat h.observeValue ht
  unfold replyInline
  -- the branches of `handleRequest` behind the handler call, in their order
  by_cases hblock : cfg.enableBlockwise = true ∧ res.payload.length > 0
  · rw [if_pos hblock]
    dsimp only
    split
    · rename_i hfrag
      split
      · -- 4.00: the block begins behind the payload
        rename_i hoff
        have hpast : PastEnd cfg h.msg res := ⟨⟨hblock, hfrag⟩, hoff⟩
        have hcode : inlineCode cfg h.msg res = Code.badRequest := if_pos hpast
        refine ⟨_, [], [], ⟨?_, ?_, [], by rw [if_pos hpast]; rfl, fun _ hu => nomatch hu⟩, rfl⟩
        · rw [hcode]
          exact s.carries_content Code.badRequest [] .textPlain none ht
        · unfold inlineSize
          rw [if_pos ⟨hblock, hfrag⟩, if_pos hoff]
          rfl
      · -- a block
        rename_i hoff
        have hnot : ¬ PastEnd cfg h.msg res := fun hpast => hoff hpast.2
        refine s.block2_carries h res ht _ _ _ hoff hnot ?_
        unfold inlineSize
        rw [if_pos ⟨hblock, hfrag⟩, if_neg hoff]
    · -- the payload fits in one block and no block was asked for
      rename_i hfrag
      have hnot : ¬ PastEnd cfg h.msg res := fun hpast => hfrag hpast.1.2
      refine ⟨_, _, _, hwhole hnot ?_, rfl⟩
      unfold inlineSize
      rw [if_neg fun hboth => hfrag hboth.2]
  · -- block-wise transfer is off, or there is no payload
    rw [if_neg hblock]
    have hnot : ¬ PastEnd cfg h.msg res := fun hpast => hblock hpast.1.1
    refine ⟨_, _, _, hwhole hnot ?_, rfl⟩
    unfold inlineSize
    rw [if_neg fun hboth => hblock hboth.1]

section

variable {msg : Message} (hcon : msg.type = .confirmable) (ht : msg.token.length ≤ kMaxTokenLen)

include hcon

/-- The reply to a confirmable request is the ACK with its message ID. -/
theorem replyHeader_confirmable (s : Server cfg) (code : Code) :
    s.replyHeader msg code = ⟨.acknowledgement, msg.messageId, msg.token, code⟩ := if_pos hcon

/-- What `reply` begins, replies exactly when it fits. -/
theorem reply_replied {s : Server cfg} {code : Code} {m : Message}
    {uints : List (UInt16 × UInt32)} {payload : Bytes}
    (h : Carries cfg m (s.replyHeader msg code) uints payload) (sender : Endpoint) :
    Replied cfg msg sender (sendIfEncoded cfg m sender) ↔
      replySize cfg msg.token.length uints payload.length ≤ cfg.maxMsgSize := by
  have hhd := replyHeader_confirmable hcon s code
  rw [hhd] at h
  exact h.replied sender rfl rfl

include ht

/-- A response is sent exactly when it fits. -/
theorem piggybacked_replied (s : Server cfg) (sender : Endpoint) (res : Response)
    (ov : Option UInt32) :
    Replied cfg msg sender
        (s.sendPiggybackedResponse msg sender res.code res.payload res.contentFormat ov).2 ↔
      contentSize cfg msg ov res ≤ cfg.maxMsgSize :=
  reply_replied hcon (s.carries_content res.code res.payload res.contentFormat ov ht) sender

theorem error_replied (s : Server cfg) (sender : Endpoint) (code : Code) :
    Replied cfg msg sender (s.sendError msg sender code).2 ↔ codeSize cfg msg ≤ cfg.maxMsgSize :=
  reply_replied hcon (s.carries_content code [] .textPlain none ht) sender

theorem continue_replied (s : Server cfg) (sender : Endpoint) (num : UInt32) (m : Bool)
    (szx : UInt8) :
    Replied cfg msg sender (s.sendContinue msg sender num m szx).2 ↔
      continueSize cfg msg (BlockOption.toOptionValue num m szx) ≤ cfg.maxMsgSize :=
  reply_replied hcon (s.carries_continue (BlockOption.toOptionValue num m szx) ht) sender

/-- What a handler that does not defer is answered with is sent exactly when it fits. -/
theorem inline_replied (s : Server cfg) (h : Handling cfg) (hmsg : h.msg = msg) (res : Response) :
    Replied cfg msg h.sender (s.replyInline h res).2 ↔
      inlineSize cfg msg h.observeValue res ≤ cfg.maxMsgSize := by
  subst hmsg
  obtain ⟨m, uints, payload, hwrites, hsent⟩ := s.replyInline_carries h res ht
  rw [hsent, ← hwrites.size]
  exact reply_replied hcon hwrites.carries h.sender

/-- **The handler's result is answered exactly when the reply fits.** A deferred one is answered
by an empty ACK, whose four bytes and token are the size then. -/
theorem finish_replied (s : Server cfg) (h : Handling cfg) (hmsg : h.msg = msg) (res : Response) :
    Replied cfg msg h.sender (s.finish h res).2 ↔
      resultSize cfg msg h.observeValue h.deferIdx.isSome h.session.isSome res ≤
        cfg.maxMsgSize := by
  unfold finish resultSize
  by_cases hdef : res.deferred = true ∧ h.deferIdx.isSome = true
  · simp only [hdef, and_self, if_true]
    rw [if_pos (hmsg ▸ hcon), hmsg]
    have h4 : replySize cfg 0 [] 0 = 4 := by simp [replySize, uintsSize]
    rw [← h4]
    exact (carries_emptyAck cfg msg.messageId).replied h.sender rfl rfl
  · simp only [hdef, if_false]
    cases hs : h.session with
    | none => simpa using inline_replied hcon ht _ h hmsg res
    | some i =>
      subst hmsg
      simpa using piggybacked_replied hcon ht _ h.sender res _

end

/-! ## Control -/

/-- Without a handler running there is nothing to wait for. -/
theorem answeredBy_idle {request : Message} {sender : Endpoint} {res : Response}
    {r : Server cfg × List ServerEvent} (hidle : r.1.control = .idle) :
    AnsweredBy request sender res r ↔ Replied cfg request sender r.2 := by
  constructor
  · rintro (hrep | ⟨h, hctl, -⟩)
    · exact hrep
    · rw [hidle] at hctl
      cases hctl
  · exact .inl

/-! ## The whole request -/

section

variable {s : Server cfg} {msg : Message} (sender : Endpoint) (res : Response)
  (hidle : s.control = .idle) (hcon : msg.type = .confirmable)
  (ht : msg.token.length ≤ kMaxTokenLen)

include hidle hcon ht

/-- A request that is refused is answered if the error fits. -/
theorem error_answered (code : Code) :
    AnsweredBy msg sender res (s.sendError msg sender code) ↔
      codeSize cfg msg ≤ cfg.maxMsgSize := by
  rw [answeredBy_idle ((s.justReplies_error msg sender code).control.trans hidle)]
  exact error_replied hcon ht s sender code

/-- A block in the middle of an upload is answered if the Continue fits. -/
theorem continue_answered (num : UInt32) (m : Bool) (szx : UInt8) :
    AnsweredBy msg sender res (s.sendContinue msg sender num m szx) ↔
      continueSize cfg msg (BlockOption.toOptionValue num m szx) ≤ cfg.maxMsgSize := by
  rw [answeredBy_idle ((s.justReplies_continue msg sender num m szx).control.trans hidle)]
  exact continue_replied hcon ht s sender num m szx

/-- A request whose handler is called. -/
theorem runHandler_answered (t : Target) (ov : Option UInt32)
    (session : Option (Fin cfg.maxBlock1Sessions)) :
    AnsweredBy msg sender res (s.runHandler t msg sender ov session) ↔
      s.handlerSize t msg ov session.isSome res ≤ cfg.maxMsgSize := by
  have hfin := fun (s' : Server cfg) (res : Response) =>
    finish_replied hcon ht s' (s.handlingFor msg sender ov session) rfl res
  have hcall : ∀ dest data, s.handlerCall t msg sender session ≠ .sent dest data :=
    fun _ _ h => nomatch (show ServerEvent.handled _ _ _ _ = _ from h)
  rcases s.runHandler_cases t msg sender ov session with ⟨f, hf, heq⟩ | ⟨hwk, heq⟩
  · have hsize : s.resultOf t res = res := by simp only [resultOf, hf]
    rw [heq, handlerSize, hsize]
    -- the application's handler returns later, and its answer goes out then
    constructor
    · rintro (hrep | ⟨h, hctl, hall⟩)
      · exact absurd ((Replied.cons hcall).1 hrep) (not_replied_nil _ _)
      · have hrep := hall _ hctl
        obtain rfl : s.handlingFor msg sender ov session = h := ServerControl.handling.inj hctl
        rw [step_returns hctl] at hrep
        exact (hfin _ res).1 hrep
    · intro hfits
      refine .inr ⟨_, rfl, fun s' hctl => ?_⟩
      rw [step_returns hctl]
      exact (hfin _ res).2 hfits
  · obtain ⟨d, hd⟩ := s.fillDeferred_spec s.allocateDeferred msg sender
    have hsize : s.resultOf t res = s.wellKnownCoreHandler := by simp only [resultOf, hwk]
    -- the server's own handler has returned when `runHandler` does
    have hres : (s.fillDeferred s.allocateDeferred msg sender).wellKnownCoreHandler =
        s.wellKnownCoreHandler := by rw [hd]; rfl
    have hctl : (s.runHandler t msg sender ov session).1.control = .idle := by
      rw [heq]
      show (finish _ _ _).1.control = _
      rw [finish_control, hd]
      exact hidle
    rw [answeredBy_idle hctl, heq, handlerSize, hsize]
    simp only [hres]
    exact (Replied.cons hcall).trans (hfin _ _)

/-- A block of an upload. -/
theorem handleBlock_answered (i : Fin cfg.maxBlock1Sessions) (b1 : BlockOption) (t : Target) :
    AnsweredBy msg sender res (s.handleBlock i b1 t msg sender none) ↔
      s.blockSizeDue i b1 t msg res ≤ cfg.maxMsgSize := by
  unfold blockSizeDue
  dsimp only
  rcases s.handleBlock_cases i b1 t msg sender none with ⟨hnum, heq⟩ | ⟨hnum, hbig, heq⟩ |
    ⟨hnum, hsmall, hm, heq⟩ | ⟨hnum, hsmall, hm, heq⟩
  · rw [heq, if_pos hnum]
    exact continue_answered sender res hidle hcon ht _ _ _
  · rw [heq, if_neg (not_not.2 hnum), if_pos hbig]
    exact error_answered (s := s.freeBlock1Session i) sender res hidle hcon ht _
  · rw [heq, if_neg (not_not.2 hnum), if_neg (by omega), if_pos hm]
    exact continue_answered (s := s.withSession i _) sender res hidle hcon ht _ _ _
  · rw [heq, if_neg (not_not.2 hnum), if_neg (by omega), if_neg (by simp [hm])]
    exact runHandler_answered (s := s.withSession i _) sender res hidle hcon ht t none (some i)

/-- **A request is answered exactly when its reply fits.** The proof goes through the checks in
the order of the source; each failed check has its own size. -/
theorem handleRequest_answered :
    AnsweredBy msg sender res (s.handleRequest msg sender) ↔
      s.answerSize msg sender res ≤ cfg.maxMsgSize := by
  unfold answerSize
  rcases s.handleRequest_cases msg sender with ⟨had, code, heq⟩ | ⟨t, had, heq⟩
  · simp only [had, heq]
    exact error_answered sender res hidle hcon ht code
  rw [had, heq]
  rcases s.handleTarget_cases t msg sender with ⟨hopt, obs, heq⟩ | ⟨opt, hopt, heq⟩
  · simp only [hopt, heq]
    exact runHandler_answered (s := s.withObservers obs) sender res hidle hcon ht t _ none
  simp only [hopt, heq, handleBlock1]
  cases BlockOption.fromOption opt with
  | none => exact error_answered sender res hidle hcon ht _
  | some b1 =>
    dsimp only
    rcases s.sessionFor_cases b1 sender msg.token with ⟨code, hs⟩ | ⟨i, -, hs⟩ | ⟨i, -, -, -, hs⟩
    · rw [hs]
      exact error_answered sender res hidle hcon ht code
    · rw [hs]
      exact handleBlock_answered sender res hidle hcon ht i b1 t
    · rw [hs]
      exact handleBlock_answered (s := s.withSession i _) sender res hidle hcon ht i b1 t

end

/-! ## `poll` -/

/-- The Observe value of the reply does not depend on the table of observers. -/
theorem handleObserve_value (s s' : Server cfg) (t : Target) (msg : Message) (sender : Endpoint) :
    (s.handleObserve t msg sender).2 = (s'.handleObserve t msg sender).2 := by
  unfold handleObserve
  split
  · rfl
  · split
    · split <;> rfl
    · rfl

/-- The size of the reply does not depend on the pool, the observers or the
clock. -/
theorem answerSize_scanned (s : Server cfg) (nowMs : UInt32) (msg : Message) (sender : Endpoint)
    (res : Response) :
    (s.scanned nowMs).answerSize msg sender res = s.answerSize msg sender res := by
  -- the scan writes to the pool, the observers and the clock only
  obtain ⟨pool, obs, hs⟩ := s.scanned_spec nowMs
  have had : (s.scanned nowMs).admitted msg = s.admitted msg := by rw [hs]; rfl
  have hhandler : ∀ t ov up, (s.scanned nowMs).handlerSize t msg ov up res =
      s.handlerSize t msg ov up res := fun t ov up => by rw [hs]; rfl
  have hdue : ∀ i b1 t, (s.scanned nowMs).blockSizeDue i b1 t msg res =
      s.blockSizeDue i b1 t msg res := fun i b1 t => by rw [hs]; rfl
  unfold answerSize
  rw [had]
  split
  · rfl
  · rename_i t _
    split
    · rw [hhandler, handleObserve_value _ s]
    · split
      · rfl
      · rename_i b1 _
        have hsess : (s.scanned nowMs).findBlock1Session sender msg.token =
            s.findBlock1Session sender msg.token := by rw [hs]; rfl
        unfold sessionFor allocateBlock1Session
        rw [hsess]
        cases s.findBlock1Session sender msg.token with
        | some i => exact hdue i b1 t
        | none =>
          have hfree : (s.scanned nowMs).block1sessions = s.block1sessions := by rw [hs]
          simp only [hfree]
          by_cases hnum : b1.num = 0
          · simp only [hnum, ne_eq, not_true_eq_false, if_false]
            cases s.block1sessions.find? fun b => !b.active with
            | none => rfl
            | some i => rw [hs]; rfl
          · simp only [ne_eq, hnum, not_false_eq_true, if_true]

/-- **A Confirmable request is answered exactly when its reply fits.** For every
state between two polls, every datagram that decodes to a Confirmable request
and every result of its handler: `poll` hands an ACK of the request to the
transport, before or right after the handler call, if and only if the reply the
request is due has at most `PULSECOAP_MAX_MSG_SIZE` bytes. -/
theorem answered_iff (s : Server cfg) (nowMs : UInt32) (sender : Endpoint) {data : Bytes}
    {msg : Message} (res : Response) (hidle : s.control = .idle)
    (hdec : Message.decode cfg data = (.none, msg)) (hcon : msg.type = .confirmable)
    (hmethod : isMethodCode msg.code = true) :
    s.Answered nowMs sender data msg res ↔ s.answerSize msg sender res ≤ cfg.maxMsgSize := by
  have hctl : (s.scanned nowMs).control = .idle := (s.scanned_control nowMs).trans hidle
  have hreq : IsRequest msg := ⟨by simp [hcon], by simp [hcon], hmethod⟩
  rw [Answered, receive_request _ sender hdec hreq,
    handleRequest_answered sender res hctl hcon (Message.decode_token hdec), answerSize_scanned]

/-- GET without a path, as it goes over the wire. -/
def getRoot : Bytes := [0x40, 0x01, 0x12, 0x34]

/-- The message in `getRoot`. -/
def getRootMessage : Message := { code := Code.get, messageId := 0x1234 }

/-- A server after one `addResource`, for GET at the root. -/
def rootServer : Server Config.default :=
  (step {} (.call (.addResource (some [Uri.slash]) methodGet (some 0) none false))).1

theorem answered_iff_root :
    rootServer.control = .idle ∧
      (rootServer.Answered 0 {} getRoot getRootMessage { payload := [0x68, 0x69] } ↔
        rootServer.answerSize getRootMessage {} { payload := [0x68, 0x69] } ≤ 256) :=
  ⟨rfl, answered_iff rootServer 0 {} _ rfl rfl rfl rfl⟩

/-- A reply of 4 header bytes, one option, the marker and 256 bytes of payload
does not fit 256 bytes, so the request is dropped after its handler ran. -/
theorem not_answered :
    ¬ rootServer.Answered 0 {} getRoot getRootMessage
      { payload := List.replicate 256 0x78 } := by
  have hdec : Message.decode Config.default getRoot = (.none, getRootMessage) := rfl
  rw [Answered, receive_request _ _ hdec (by decide),
    handleRequest_answered _ _ rfl rfl (Message.decode_token hdec)]
  decide +kernel

end Server

end PulseCoap
