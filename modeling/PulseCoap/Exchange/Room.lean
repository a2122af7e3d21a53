import PulseCoap.Exchange.Block
import PulseCoap.Exchange.Buffer

/-!
# PulseCoAP — room in a message

What a message must have room for is known before it is built: an option more in
its table, and the bytes of it on the wire. A request of the client starts with
the segments of its path, and integer options come behind them.

`addOption()` refuses an option for two reasons only: the table is full, or the
number is below the last one. A request adds Uri-Path options first and then
options with greater numbers, so for it the first reason is the only one, and
the room that is needed is a count.

* `optionsSize_append` — the bytes of options behind others.
* `addressed` — a request with its path.
* `Adds` — a message with one integer option more, and `adds_room` — when there is room.
* `replySize_le` — the bytes of a reply in blocks.
-/

namespace PulseCoap

variable {cfg : Config}

namespace Message

-- ===========================================================================
-- Bytes of options
-- ===========================================================================

/-- A short extension. -/
theorem extSize_le {n : Nat} (h : n < 269) : extSize n ≤ n / 13 ∧ extSize n ≤ 1 := by
  unfold extSize
  rw [if_pos h]
  split <;> omega

/-- The bytes of options behind others. -/
theorem optionsSize_append : ∀ (os os' : List CoapOption) (last : Nat),
    optionsSize last (os ++ os') ≤ optionsSize last os +
      optionsSize ((os.getLast?.map (·.number.toNat)).getD last) os' := by
  intro os
  induction os with
  | nil =>
    intro os' last
    simp [optionsSize]
  | cons o os ih =>
    intro os' last
    have h := ih os' o.number.toNat
    have hlast : ((o :: os).getLast?.map (·.number.toNat)).getD last =
        (os.getLast?.map (·.number.toNat)).getD o.number.toNat := by
      rw [List.getLast?_cons]
      cases os.getLast? <;> rfl
    rw [hlast, List.cons_append, optionsSize, optionsSize]
    omega

-- ===========================================================================
-- One option more
-- ===========================================================================

/-- `m'` is `m` with this integer option behind its own. -/
structure Adds (cfg : Config) (m m' : Message) (number : UInt16) (v : UInt32) : Prop where
  built   : Built cfg m'
  header  : SameHeader m m'
  payload : m'.payloadBytes = m.payloadBytes
  option  : ∃ o, m'.options = m.options ++ [o] ∧ entry o = (number.toNat, uintBytes v)

/-- **An option of the highest number so far** finds its place, if the table is not full. The
other fields of the message are as they were. -/
theorem adds_room {m : Message} (hm : Built cfg m) (number : UInt16)
    (hlow : ∀ o ∈ m.options, o.number ≤ number) (hroom : m.options.length < cfg.maxOptions)
    (v : UInt32) : Adds cfg m (m.addOptionUint cfg number v).1 number v where
  built := hm.run (.addOptionUint number v)
  header := sameHeader_addOptionUint cfg m number v
  payload := by
    obtain ⟨opts, last, heq⟩ := addOptionUint_spec cfg m number v
    rw [heq]
    rfl
  option := by
    refine addOptionUint_accepted ?_
    by_contra hno
    have hfull := addOptionUint_refused hm hlow (Bool.eq_false_iff.2 hno)
    omega

variable {m m' : Message} {number : UInt16} {v : UInt32}

/-- It is found, unless there was one before. -/
theorem Adds.found (h : Adds cfg m m' number v) (hnew : ∀ o ∈ m.options, o.number ≠ number) :
    ∃ o, m'.findOption number = some o ∧ entry o = (number.toNat, uintBytes v) := by
  obtain ⟨o, hopts, hentry⟩ := h.option
  have hnum : o.number = number := UInt16.toNat_inj.1 (congrArg Prod.fst hentry)
  have hnone : m.options.find? (fun o => o.number == number) = none := by
    refine List.find?_eq_none.2 fun o' ho' => ?_
    simpa using hnew o' ho'
  refine ⟨o, ?_, hentry⟩
  unfold findOption
  rw [hopts, List.find?_append, hnone, List.find?_singleton, hnum]
  simp

/-- It takes six bytes at most. -/
theorem Adds.size (h : Adds cfg m m' number v) (hsmall : number.toNat < 269) :
    m'.wireSize ≤ m.wireSize + 6 := by
  obtain ⟨o, hopts, hentry⟩ := h.option
  have hnum : o.number.toNat = number.toNat := congrArg Prod.fst hentry
  have hbytes : o.bytes = uintBytes v := congrArg Prod.snd hentry
  have hlen : o.length.toNat ≤ 4 := by
    rw [← bytes_length (h.built.readable o (by rw [hopts]; simp)), hbytes]
    exact uintBytes_length v
  have hone : ∀ last, optionsSize last [o] ≤ 6 := by
    intro last
    have hdelta := extSize_le (n := o.number.toNat - last) (by omega)
    have hext := extSize_le (n := o.length.toNat) (by omega)
    rw [optionsSize, optionsSize]
    omega
  have happ := optionsSize_append m.options [o] 0
  have hlast := hone ((m.options.getLast?.map (·.number.toNat)).getD 0)
  rw [wireSize, wireSize, h.header.token, h.payload, hopts]
  omega

end Message

-- ===========================================================================
-- Requests
-- ===========================================================================

namespace Uri

/-- A request with the segments of its path, and nothing else so far. -/
structure Addressed (cfg : Config) (m : Message) (type : MessageType) (code : Code) (token : UInt8)
    (segs : List Bytes) : Prop where
  built   : Message.Built cfg m
  type    : m.type = type
  code    : m.code = code
  token   : m.token = [token]
  payload : m.payloadBytes = []
  options : m.options = segs.map segmentOption

/-- **The segments of a path find their place**, if there are not too many. The message is the
one that `sendRequest` and the block requests begin with. -/
theorem addressed {path : Bytes} {segs : List Bytes} (hpath : NormalForm path segs)
    (hroom : segs.length ≤ cfg.maxOptions) (type : MessageType) (messageId : UInt16) (token : UInt8)
    (code : Code) :
    (addUriPathOptions cfg (opened type messageId [token] code) path).2 = true ∧
      Addressed cfg (addUriPathOptions cfg (opened type messageId [token] code) path).1 type code
        token segs := by
  have hopened : Message.Built cfg (opened type messageId [token] code) :=
    ((((Message.built_reset cfg).run (.setType type)).run (.setMessageId messageId)).run
      (.setToken [token])).run (.setCode code)
  have hok : (addSegments cfg (opened type messageId [token] code) segs).2 = true :=
    (addSegments_ok_iff (fun hne => absurd rfl hne)).2 hroom
  have hsegs := addSegments_eq segs (opened type messageId [token] code) hok
  have hbuilt := addSegments_built segs hopened
  unfold addUriPathOptions
  rw [hpath.segments_eq]
  refine ⟨hok, ?_⟩
  rw [hsegs] at hbuilt ⊢
  exact ⟨hbuilt, rfl, rfl, rfl, rfl, rfl⟩

variable {m : Message} {type : MessageType} {code : Code} {token : UInt8} {segs : List Bytes}

theorem Addressed.number (h : Addressed cfg m type code token segs) :
    ∀ o ∈ m.options, o.number = OptionNumber.uriPath := by
  intro o ho
  rw [h.options] at ho
  obtain ⟨seg, -, rfl⟩ := List.mem_map.1 ho
  rfl

theorem Addressed.size (h : Addressed cfg m type code token segs) :
    m.wireSize = 5 + Message.optionsSize 0 (segs.map segmentOption) := by
  rw [Message.wireSize, h.token, h.payload, if_pos rfl, h.options]
  rfl

end Uri

-- ===========================================================================
-- Replies
-- ===========================================================================

namespace Server

/-- Fewer options have fewer bytes. -/
theorem uintsSize_take : ∀ (us : List (UInt16 × UInt32)) (last n : Nat),
    uintsSize last (us.take n) ≤ uintsSize last us := by
  intro us
  induction us with
  | nil =>
    intro last n
    rw [List.take_nil]
  | cons u us ih =>
    intro last n
    cases n with
    | zero => exact Nat.zero_le _
    | succ n =>
      rw [List.take_succ_cons, uintsSize, uintsSize]
      exact Nat.add_le_add_left (ih _ n) _

/-- A Content-Format, and a block option behind it, take at most ten bytes. -/
theorem replySize_le {tokenLength : Nat} (ht : tokenLength ≤ 1) {uints : List (UInt16 × UInt32)}
    (format value : UInt32) (hu : uints <+: [(OptionNumber.contentFormat, format),
      (OptionNumber.block2, value)]) (n : Nat) :
    replySize cfg tokenLength uints n ≤ 16 + n := by
  have hf := Message.uintBytes_length format
  have hv := Message.uintBytes_length value
  have hboth : uintsSize 0 [(OptionNumber.contentFormat, format),
      (OptionNumber.block2, value)] = 1 + 0 + (Message.uintBytes format).length +
        (1 + 0 + (Message.uintBytes value).length + 0) := rfl
  have htake := uintsSize_take uints 0 cfg.maxOptions
  have hprefix : uintsSize 0 uints ≤ uintsSize 0
      [(OptionNumber.contentFormat, format), (OptionNumber.block2, value)] := by
    rw [List.prefix_iff_eq_take.1 hu]
    exact uintsSize_take _ 0 _
  unfold replySize
  split <;> omega

/-- **A reply that fits** is sent, and has what it was built with at the other end. Its size is
known from the number of its options and of the bytes of its payload. -/
theorem reply_arrives (s : Server cfg) {request : Message} {code : Code} {m : Message}
    {uints : List (UInt16 × UInt32)} {body : Bytes}
    (hm : Carries cfg m (s.replyHeader request code) uints body) (dest : Endpoint)
    (hsize : replySize cfg request.token.length uints body.length ≤ cfg.maxMsgSize) :
    sendIfEncoded cfg m dest = [.sent dest m.wire] ∧
      ∃ answer, Message.decode cfg m.wire = (.none, answer) ∧
        answer.type = (if request.type = .confirmable then .acknowledgement else .nonConfirmable) ∧
        answer.token = request.token ∧ answer.code = code ∧ answer.payloadBytes = body := by
  obtain ⟨htoken, hcode⟩ := s.replyHeader_names request code
  have hsame := Message.sameContent_decode hm.built.toWellFormed
  refine ⟨sendIfEncoded_fits hm.built dest ?_, _, Message.decodes_wire hm.built.toWellFormed, ?_,
    ?_, ?_, ?_⟩
  · rw [hm.size, htoken]
    exact hsize
  · rw [hsame.type, hm.type]
    unfold replyHeader
    split <;> rfl
  · rw [hsame.token, hm.token, htoken]
  · rw [hsame.code, hm.code, hcode]
  · rw [hsame.payload, hm.payload]

end Server

end PulseCoap
