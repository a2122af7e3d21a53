import PulseCoap.Codec.RoundTrip
import PulseCoap.Server.Model

/-!
# PulseCoAP — the server's replies

Every reply of the server is a header, some integer options in ascending order
and a payload. `Carries` says so of a message; from it follow the size on the
wire and whether the message fits the buffer it is encoded into.

The size of a message is the sum over its options, so it does not depend on the
values but on how long they are. `replySize` takes the options as numbers and
integers; that the builders add just these, as far as there is room, is what
`Carries` says.

* `carries_content`, `carries_block2`, `carries_continue`, `carries_emptyAck`
  — what the sending functions put on the wire.
* `Carries.size` — the size of such a message.
* `encoded_iff` — a message goes out exactly when it fits.
-/

namespace PulseCoap

namespace Server

open Message (uintBytes)

variable {cfg : Config}

/-! ## Messages with integer options -/

/-- What `reply()` sets. -/
structure ReplyHeader where
  type      : MessageType
  messageId : UInt16
  token     : Bytes
  code      : Code
deriving DecidableEq, Repr

/-- A message with this header, these integer options as far as there is room
for them, and this payload. -/
structure Carries (cfg : Config) (m : Message) (hd : ReplyHeader) (uints : List (UInt16 × UInt32))
    (payload : Bytes) : Prop where
  built     : Message.Built cfg m
  type      : m.type = hd.type
  messageId : m.messageId = hd.messageId
  token     : m.token = hd.token
  code      : m.code = hd.code
  options   : m.options.map Message.entry =
    (uints.take cfg.maxOptions).map fun u => (u.1.toNat, uintBytes u.2)
  payload   : m.payloadBytes = payload

/-- Room for an integer option behind these. -/
def Above (uints : List (UInt16 × UInt32)) (number : UInt16) : Prop := ∀ u ∈ uints, u.1 ≤ number

instance (uints : List (UInt16 × UInt32)) (number : UInt16) : Decidable (Above uints number) :=
  inferInstanceAs (Decidable (∀ u ∈ uints, u.1 ≤ number))

variable {m : Message} {hd : ReplyHeader} {uints : List (UInt16 × UInt32)} {payload : Bytes}

/-- An option in ascending order is taken unless the table is full. -/
theorem Carries.addUint (h : Carries cfg m hd uints payload) {number : UInt16} (v : UInt32)
    (habove : Above uints number) :
    Carries cfg (m.addOptionUint cfg number v).1 hd (uints ++ [(number, v)]) payload := by
  have hnum : ∀ o ∈ m.options, o.number ≤ number := by
    intro o ho
    have hin : Message.entry o ∈ m.options.map Message.entry := List.mem_map.2 ⟨o, ho, rfl⟩
    rw [h.options] at hin
    obtain ⟨u, hu, heq⟩ := List.mem_map.1 hin
    have hle := UInt16.le_iff_toNat_le.1 (habove u (List.mem_of_mem_take hu))
    have hun : u.1.toNat = o.number.toNat := congrArg Prod.fst heq
    rw [hun] at hle
    exact UInt16.le_iff_toNat_le.2 hle
  have hoptions : (m.addOptionUint cfg number v).1.options.map Message.entry =
      ((uints ++ [(number, v)]).take cfg.maxOptions).map fun u => (u.1.toNat, uintBytes u.2) := by
    rw [Message.addOptionUint_entries h.built hnum, h.options, List.map_take,
      Message.take_append_take, List.map_take, List.map_append, List.map_singleton]
  -- the other fields are not touched
  obtain ⟨opts, last, heq⟩ := Message.addOptionUint_spec cfg m number v
  have hb := h.built.run (.addOptionUint number v)
  have hb' : Message.Built cfg (m.addOptionUint cfg number v).1 := hb
  rw [heq] at hb' hoptions ⊢
  exact ⟨hb', h.type, h.messageId, h.token, h.code, hoptions, h.payload⟩

/-- A payload is set last, and is none of the options. -/
theorem Carries.setPayload (h : Carries cfg m hd uints []) {data : Bytes} {n : Nat}
    (hn : n ≤ data.length) :
    Carries cfg (m.setPayload (some data) n) hd uints (data.take n) where
  built := h.built.run (.setPayload (some data) n fun b hb => by
    obtain rfl := Option.some.inj hb
    exact hn)
  type := h.type
  messageId := h.messageId
  token := h.token
  code := h.code
  options := h.options
  payload := rfl

/-- A message of a header only. -/
theorem carries_header (cfg : Config) (type : MessageType) (messageId : UInt16) {token : Bytes}
    (code : Code) (ht : token.length ≤ kMaxTokenLen) :
    Carries cfg ((((Message.reset.setType type).setMessageId messageId).setToken token).1.setCode
      code) ⟨type, messageId, token, code⟩ [] [] := by
  have htok : ((Message.reset.setType type).setMessageId messageId).setToken token =
      ({ (Message.reset.setType type).setMessageId messageId with token }, true) :=
    if_neg (by omega)
  have hbuilt := ((((Message.built_reset cfg).run (.setType type)).run
    (.setMessageId messageId)).run (.setToken token)).run (.setCode code)
  refine ⟨hbuilt, ?_, ?_, ?_, rfl, ?_, ?_⟩ <;> rw [htok]
  case refine_4 => rw [List.take_nil]; rfl
  all_goals rfl

/-! ## Size -/

/-- The bytes of integer options after an option numbered `last`. -/
def uintsSize : (last : Nat) → List (UInt16 × UInt32) → Nat
  | _, [] => 0
  | last, u :: us =>
    1 + Message.extSize (u.1.toNat - last) + (uintBytes u.2).length + uintsSize u.1.toNat us

/-- The size of a reply: header and token, the options there is room for, and a
payload behind its marker. -/
def replySize (cfg : Config) (tokenLength : Nat) (uints : List (UInt16 × UInt32))
    (payloadLength : Nat) : Nat :=
  4 + tokenLength + uintsSize 0 (uints.take cfg.maxOptions) +
    (if payloadLength = 0 then 0 else 1 + payloadLength)

/-- The bytes of the options, from their numbers and values. -/
theorem optionsSize_eq : ∀ {os : List CoapOption} {us : List (UInt16 × UInt32)} (last : Nat),
    (∀ o ∈ os, Message.Readable o.value o.length.toNat) →
    (os.map Message.entry = us.map fun u => (u.1.toNat, uintBytes u.2)) →
    Message.optionsSize last os = uintsSize last us
  | [], [], _, _, _ => rfl
  | [], _ :: _, _, _, h => by cases h
  | _ :: _, [], _, _, h => by cases h
  | o :: os, u :: us, last, hread, h => by
    rw [List.map_cons, List.map_cons, List.cons.injEq] at h
    have hnum : o.number.toNat = u.1.toNat := congrArg Prod.fst h.1
    have hval : o.length.toNat = (uintBytes u.2).length := by
      rw [← Message.bytes_length (hread o (List.mem_cons_self ..))]
      exact congrArg (fun e => e.2.length) h.1
    have hshort : Message.extSize (uintBytes u.2).length = 0 :=
      if_pos (by have := Message.uintBytes_length u.2; omega)
    have ih := optionsSize_eq u.1.toNat (fun x hx => hread x (List.mem_cons_of_mem _ hx)) h.2
    rw [Message.optionsSize, uintsSize, hnum, hval, hshort, ih]
    omega

/-- The options of a reply at the other end: its integers, as far as there was room. -/
theorem Carries.options_decode (h : Carries cfg m hd uints payload) :
    (Message.decode cfg m.wire).2.options =
      (uints.take cfg.maxOptions).map fun u => Message.ofEntry (u.1.toNat, uintBytes u.2) := by
  have hread := congrArg (List.map Message.ofEntry) h.options
  rw [List.map_map, List.map_map] at hread
  rw [Message.decode_wire h.built.toWellFormed]
  exact hread

/-- **The size of a reply on the wire** is the sum of its parts: the values of the options count
only by their lengths. -/
theorem Carries.size (h : Carries cfg m hd uints payload) :
    m.wireSize = replySize cfg hd.token.length uints payload.length := by
  have hpay : (payload = []) = (payload.length = 0) := by simp
  rw [Message.wireSize, replySize, h.token, h.payload,
    optionsSize_eq 0 h.built.readable h.options]
  simp only [hpay]

/-- **A message goes out exactly when it fits the buffer**, and then as its wire form. -/
theorem encoded_iff (hm : Message.Built cfg m) (buf : Bytes) :
    encoded cfg m = some buf ↔ m.wireSize ≤ cfg.maxMsgSize ∧ buf = m.wire := by
  obtain ⟨hfits, hfull⟩ := Message.encode_spec hm.toWellFormed cfg.maxMsgSize
  rw [Message.wire_length hm.toWellFormed] at hfits hfull
  unfold encoded
  by_cases hle : m.wireSize ≤ cfg.maxMsgSize
  · rw [hfits hle]
    refine ⟨fun h => ⟨hle, (Option.some.inj h).symm⟩, fun h => ?_⟩
    rw [h.2]
  · obtain ⟨e, he, -⟩ := hfull (by omega)
    rw [he]
    exact iff_of_false (fun h => nomatch h) fun h => hle h.1

/-- A message that fits is sent in its wire form. -/
theorem sendIfEncoded_fits (hm : Message.Built cfg m) (dest : Endpoint)
    (hfits : m.wireSize ≤ cfg.maxMsgSize) : sendIfEncoded cfg m dest = [.sent dest m.wire] := by
  rw [sendIfEncoded, (encoded_iff hm m.wire).2 ⟨hfits, rfl⟩]

/-- One that does not is dropped without a sign. -/
theorem sendIfEncoded_drops (hm : Message.Built cfg m) (dest : Endpoint)
    (hlong : cfg.maxMsgSize < m.wireSize) : sendIfEncoded cfg m dest = [] := by
  unfold sendIfEncoded
  cases henc : encoded cfg m with
  | none => rfl
  | some buf =>
    have := ((encoded_iff hm buf).1 henc).1
    omega

/-! ## What the sending functions send -/

/-- The header of the reply to a request. -/
def replyHeader (s : Server cfg) (request : Message) (code : Code) : ReplyHeader :=
  if request.type = .confirmable then
    ⟨.acknowledgement, request.messageId, request.token, code⟩
  else ⟨.nonConfirmable, s.nextMessageId, request.token, code⟩

/-- A reply has the token of its request and the code it is given. -/
theorem replyHeader_names (s : Server cfg) (request : Message) (code : Code) :
    (s.replyHeader request code).token = request.token ∧
      (s.replyHeader request code).code = code := by
  unfold replyHeader
  split <;> exact ⟨rfl, rfl⟩

/-- A reply before its options. -/
theorem carries_reply (s : Server cfg) {request : Message} (code : Code)
    (ht : request.token.length ≤ kMaxTokenLen) :
    Carries cfg (s.reply request code).2 (s.replyHeader request code) [] [] := by
  unfold reply replyHeader
  split
  · exact carries_header cfg .acknowledgement request.messageId code ht
  · exact carries_header cfg .nonConfirmable s.nextMessageId code ht

/-- The Observe option of a reply, if there is one. -/
def observeUint (observeValue : Option UInt32) : List (UInt16 × UInt32) :=
  (observeValue.map fun v => (OptionNumber.observe, v)).toList

/-- The Observe option stands before all the others of a reply. -/
theorem observeUint_above (observeValue : Option UInt32) {number : UInt16}
    (h : OptionNumber.observe ≤ number) : Above (observeUint observeValue) number := by
  cases observeValue with
  | none => exact fun _ hu => nomatch hu
  | some v =>
    intro u hu
    obtain rfl : u = (OptionNumber.observe, v) := by simpa [observeUint] using hu
    exact h

/-- The Observe option, if there is one. -/
theorem Carries.addObserve (h : Carries cfg m hd [] payload) (observeValue : Option UInt32) :
    Carries cfg (addObserve cfg m observeValue) hd (observeUint observeValue) payload := by
  cases observeValue with
  | none => exact h
  | some v => exact h.addUint v fun _ hu => nomatch hu

/-- Content-Format and payload, where there is a payload. -/
def contentUint (payload : Bytes) (contentFormat : ContentFormat) : List (UInt16 × UInt32) :=
  if payload.length > 0 then [(OptionNumber.contentFormat, contentFormat.raw.toUInt32)] else []

/-- The Content-Format option and the payload, if there is one. -/
theorem Carries.addContent (h : Carries cfg m hd uints [])
    (habove : Above uints OptionNumber.contentFormat) (payload : Bytes)
    (contentFormat : ContentFormat) :
    Carries cfg (addContent cfg m payload contentFormat) hd
      (uints ++ contentUint payload contentFormat) payload := by
  unfold Server.addContent contentUint
  by_cases hlen : payload.length > 0
  · rw [if_pos hlen, if_pos hlen]
    have := (h.addUint contentFormat.raw.toUInt32 habove).setPayload (Nat.le_refl payload.length)
    rwa [List.take_length] at this
  · have hnil : payload = [] := List.eq_nil_of_length_eq_zero (by omega)
    rw [if_neg hlen, if_neg hlen, List.append_nil, hnil]
    exact h

/-- `sendPiggybackedResponse`. -/
theorem carries_content (s : Server cfg) {request : Message} (code : Code) (payload : Bytes)
    (contentFormat : ContentFormat) (observeValue : Option UInt32)
    (ht : request.token.length ≤ kMaxTokenLen) :
    Carries cfg
      (addContent cfg (addObserve cfg (s.reply request code).2 observeValue) payload contentFormat)
      (s.replyHeader request code) (observeUint observeValue ++ contentUint payload contentFormat)
      payload :=
  ((s.carries_reply code ht).addObserve observeValue).addContent
    (observeUint_above observeValue (by decide)) payload contentFormat

/-- `sendContinue`. -/
theorem carries_continue (s : Server cfg) {request : Message} (v : UInt32)
    (ht : request.token.length ≤ kMaxTokenLen) :
    Carries cfg ((s.reply request Code.«continue»).2.addOptionUint cfg OptionNumber.block1 v).1
      (s.replyHeader request Code.«continue») [(OptionNumber.block1, v)] [] :=
  (s.carries_reply Code.«continue» ht).addUint v fun _ hu => nomatch hu

/-- `sendBlock2Response`. -/
theorem carries_block2 (s : Server cfg) {request : Message} (code : Code)
    (contentFormat : ContentFormat) (observeValue : Option UInt32) (v : UInt32) {data : Bytes}
    {n : Nat} (hn : n ≤ data.length) (ht : request.token.length ≤ kMaxTokenLen) :
    Carries cfg
      (((((addObserve cfg (s.reply request code).2 observeValue).addOptionUint cfg
        OptionNumber.contentFormat contentFormat.raw.toUInt32).1.addOptionUint cfg
        OptionNumber.block2 v).1).setPayload (some data) n)
      (s.replyHeader request code)
      (observeUint observeValue ++ [(OptionNumber.contentFormat, contentFormat.raw.toUInt32)] ++
        [(OptionNumber.block2, v)])
      (data.take n) := by
  have habove : Above (observeUint observeValue ++
      [(OptionNumber.contentFormat, contentFormat.raw.toUInt32)]) OptionNumber.block2 := by
    intro u hu
    rcases List.mem_append.1 hu with hu | hu
    · exact observeUint_above observeValue (by decide) u hu
    · obtain rfl := List.mem_singleton.1 hu
      exact (by decide : OptionNumber.contentFormat ≤ OptionNumber.block2)
  exact ((((s.carries_reply code ht).addObserve observeValue).addUint _
    (observeUint_above observeValue (by decide))).addUint v habove).setPayload hn

/-- `notify`. -/
theorem carries_notification (cfg : Config) (o : Observer) (ht : o.token.length ≤ kMaxTokenLen)
    (messageId : UInt16) (sequence : UInt32) (payload : Bytes) (contentFormat : ContentFormat)
    (confirmable : Bool) :
    Carries cfg (notification cfg o messageId sequence payload contentFormat confirmable)
      ⟨if confirmable then .confirmable else .nonConfirmable, messageId, o.token, Code.content⟩
      [(OptionNumber.observe, sequence),
        (OptionNumber.contentFormat, contentFormat.raw.toUInt32)] payload := by
  have habove : Above [(OptionNumber.observe, sequence)] OptionNumber.contentFormat := by
    intro u hu
    rw [List.mem_singleton.1 hu]
    exact (by decide : OptionNumber.observe ≤ OptionNumber.contentFormat)
  have hheader := carries_header cfg
    (if confirmable then MessageType.confirmable else .nonConfirmable) messageId Code.content ht
  have hfull := ((hheader.addUint sequence fun _ hu => nomatch hu).addUint
    contentFormat.raw.toUInt32 habove).setPayload (Nat.le_refl payload.length)
  rwa [List.take_length] at hfull

/-- `respond`. -/
theorem carries_separateResponse (cfg : Config) (dr : DeferredRequest)
    (ht : dr.token.length ≤ kMaxTokenLen) (messageId : UInt16) (code : Code) (payload : Bytes)
    (contentFormat : ContentFormat) :
    Carries cfg (separateResponse cfg dr messageId code payload contentFormat)
      ⟨if dr.wasConfirmable then .confirmable else .nonConfirmable, messageId, dr.token, code⟩
      (contentUint payload contentFormat) payload :=
  (carries_header cfg _ messageId code ht).addContent (fun _ hu => nomatch hu) payload
    contentFormat

/-- `sendEmptyAck`. -/
theorem carries_emptyAck (cfg : Config) (messageId : UInt16) :
    Carries cfg (((Message.reset.setType .acknowledgement).setCode Code.empty).setMessageId
      messageId) ⟨.acknowledgement, messageId, [], Code.empty⟩ [] [] where
  built := (((Message.built_reset cfg).run (.setType .acknowledgement)).run
    (.setCode Code.empty)).run (.setMessageId messageId)
  type := rfl
  messageId := rfl
  token := rfl
  code := rfl
  options := by rw [List.take_nil]; rfl
  payload := rfl

end Server

end PulseCoap
