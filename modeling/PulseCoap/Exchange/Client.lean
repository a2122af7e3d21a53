import PulseCoap.Exchange.Server
import PulseCoap.Tracking.Client

/-!
# PulseCoAP — a plain exchange, end to end

A call of the client, its request polled by the server, and the reply polled by
the client. Block-wise transfer is off, no timer falls due, and the callbacks
make no further calls.

What can stand in the way of an exchange is excluded by conditions on the state
before it: the token is in use nowhere (`NextTokenUnused`), no transaction falls
due at either poll, and the pool has a slot. Nothing is assumed of the tables
otherwise, so other requests may be open and stay so. The three turns are
computed one after the other, each from the lemma of its module, and the counts
of slots are compared at the end.

* `buildRequest_plain` — the request of a call is one the server serves.
* `turn_reply` — the poll that receives the reply, to its return.
* `exchange` — the whole.
* `call_plain` — what such a call registers and sends.
* `exchange_led` — a PUT of one byte, evaluated.
-/

namespace PulseCoap

open TransactionPool

variable {cfg : Config}

namespace Client

/-! ## The request of a call -/

/-- A number is added as one option, if there is room for it. -/
theorem addOptionUint_options (cfg : Config) (m : Message) (number : UInt16) (v : UInt32) :
    ∃ rest, (m.addOptionUint cfg number v).1.options = m.options ++ rest ∧
      ∀ o ∈ rest, o.number = number := by
  rw [Message.addOptionUint_eq]
  rcases Message.addOption_cases cfg m number
      (if UInt16.ofNat (Message.uintBytes v).length > 0 then some (Message.uintBytes v) else none)
      (UInt16.ofNat (Message.uintBytes v).length) with heq | ⟨-, -, heq⟩
  · rw [heq]
    exact ⟨[], (List.append_nil _).symm, fun o ho => nomatch ho⟩
  · rw [heq]
    refine ⟨_, rfl, fun o ho => ?_⟩
    rw [List.mem_singleton.1 ho]

/-- **The request of a call that does not observe** has the method, the segments and the payload
of the call, and no option that the server would treat in a way of its own. -/
theorem buildRequest_plain {type : MessageType}
    (htype : type = .confirmable ∨ type = .nonConfirmable) {messageId : UInt16} {token : UInt8}
    {method : Code} {path payload : Bytes} {contentFormat : ContentFormat} {segs : List Bytes}
    (hpath : Uri.NormalForm path segs) {m : Message}
    (h : buildRequest cfg type messageId [token] method none path payload contentFormat = some m) :
    Server.RequestFor cfg m segs method payload ∧ m.type = type ∧ m.messageId = messageId ∧
      m.token = [token] := by
  have hopened : Message.Built cfg (opened type messageId [token] method) :=
    ((((Message.built_reset cfg).run (.setType type)).run (.setMessageId messageId)).run
      (.setToken [token])).run (.setCode method)
  have hbuilt := Uri.addSegments_built segs hopened
  -- without an Observe option the segments come first
  have hrequest : buildRequest cfg type messageId [token] method none path payload contentFormat =
      let r := Uri.addSegments cfg (opened type messageId [token] method) (Uri.segments path)
      if !r.2 then none
      else if payload.length > 0 then
        let req := (r.1.addOptionUint cfg OptionNumber.contentFormat
          contentFormat.raw.toUInt32).1
        some (req.setPayload (some payload) payload.length)
      else some r.1 := rfl
  rw [hpath.segments_eq] at hrequest
  rw [hrequest] at h
  dsimp only at h
  cases hok : (Uri.addSegments cfg (opened type messageId [token] method) segs).2 with
  | false =>
    rw [hok] at h
    cases h
  | true =>
    have hsegs := Uri.addSegments_eq segs (opened type messageId [token] method) hok
    rw [hok, hsegs, Bool.not_true, if_neg Bool.false_ne_true] at h
    rw [hsegs] at hbuilt
    -- the format and the payload come behind the segments, or neither is added
    by_cases hlen : payload.length > 0
    · rw [if_pos hlen] at h
      cases h
      have hsame := Message.sameHeader_addOptionUint cfg
        (Uri.withSegments (opened type messageId [token] method) segs) OptionNumber.contentFormat
        contentFormat.raw.toUInt32
      have hcf := hbuilt.run (.addOptionUint OptionNumber.contentFormat contentFormat.raw.toUInt32)
      have hpay := hcf.run (.setPayload (some payload) payload.length fun b hb => by
        rw [← Option.some.inj hb])
      obtain ⟨rest, hoptions, hrest⟩ := addOptionUint_options cfg
        (Uri.withSegments (opened type messageId [token] method) segs) OptionNumber.contentFormat
        contentFormat.raw.toUInt32
      refine ⟨⟨hpay, ?_, ?_, ⟨rest, ?_, hrest⟩, List.take_length⟩, ?_, ?_, ?_⟩
      · rw [show (Message.setPayload _ (some payload) payload.length).type = type from hsame.type]
        exact htype
      · exact hsame.code
      · exact hoptions
      · exact hsame.type
      · exact hsame.messageId
      · exact hsame.token
    · rw [if_neg hlen] at h
      cases h
      have hnil : payload = [] := List.eq_nil_of_length_eq_zero (by omega)
      refine ⟨⟨hbuilt, htype, rfl, ⟨[], ?_, fun o ho => nomatch ho⟩, ?_⟩, rfl, rfl, rfl⟩
      · exact (List.append_nil _).symm
      · rw [hnil]
        rfl

/-! ## The reply -/

/-- The Content-Format a response is delivered with. -/
def formatOf (payload : Bytes) (contentFormat : ContentFormat) : ContentFormat :=
  if payload = [] then .textPlain else contentFormat

/-- **The content format of a reply comes back**, when there is a payload. Without one the
option is not sent, and the client reads the default. -/
theorem responseFormat_reply {m : Message} {hd : Server.ReplyHeader} {payload : Bytes}
    {contentFormat : ContentFormat}
    (hm : Server.Carries cfg m hd (Server.contentUint payload contentFormat) payload)
    (hroom : payload ≠ [] → 0 < cfg.maxOptions) :
    responseFormat (Message.decode cfg m.wire).2 = formatOf payload contentFormat := by
  unfold responseFormat Message.findOption formatOf
  rw [hm.options_decode]
  unfold Server.contentUint
  by_cases hnil : payload = []
  · rw [if_pos hnil, hnil, List.length_nil, if_neg (Nat.lt_irrefl 0), List.take_nil]
    rfl
  · rw [if_neg hnil, if_pos (List.length_pos_iff.2 hnil),
      List.take_of_length_le (by rw [List.length_singleton]; exact hroom hnil)]
    have hstored := Message.uintOption_entry OptionNumber.contentFormat contentFormat.raw.toUInt32
    rw [List.map_singleton, List.find?_singleton, hstored.number, if_pos (by simp)]
    dsimp only
    rw [hstored.value, UInt16.toUInt16_toUInt32]

/-! ## The poll that receives it -/

/-- No transaction of the client is due at this time. -/
def NoneDue (c : Client cfg) (nowMs : UInt32) : Prop :=
  ∀ i, Awaiting (c.transactions i) → notDue nowMs (c.transactions i) = true

instance (c : Client cfg) (nowMs : UInt32) : Decidable (c.NoneDue nowMs) :=
  inferInstanceAs (Decidable (∀ _, _ → _))

/-- The segments of a poll, one after the other. -/
theorem exec_resume (h : List ClientEvent) (c : Client cfg) (n : Nat) :
    (machine cfg).exec h c (List.replicate (n + 1) (.resume true)) =
      (machine cfg).exec (h ++ (c.step (.resume true)).2) (c.step (.resume true)).1
        (List.replicate n (.resume true)) := rfl

/-- Nothing happens when the client is not in `poll`. -/
theorem exec_idle (h : List ClientEvent) {c : Client cfg} (hidle : c.control = .idle) (n : Nat) :
    (machine cfg).exec h c (List.replicate n (.resume true)) = (h, c) := by
  induction n with
  | zero => rfl
  | succ n ih =>
    rw [exec_resume, step_resume_idle hidle, List.append_nil]
    exact ih

/-- **A scan with nothing due** only comes to its end. Each pass looks at one slot and leaves
it; the induction is on the passes that are left. -/
theorem exec_scan (h : List ClientEvent) (n : Nat) :
    ∀ {c : Client cfg} {index : Nat} {b : Bool}, c.control = .polling (.tick index) b →
      c.NoneDue c.lastNowMs → index ≤ cfg.maxTransactions → cfg.maxTransactions < index + n →
      (machine cfg).exec h c (List.replicate n (.resume true)) =
        (h, { c with control := .idle }) := by
  induction n with
  | zero =>
    intro c index b _ _ hle hlt
    omega
  | succ n ih =>
    intro c index b hctl hdue hle hlt
    rw [exec_resume, step_resume hctl, resume_tick]
    by_cases hi : index < cfg.maxTransactions
    · rw [dif_pos hi]
      rcases tickAt_cases c ⟨index, hi⟩ true with ⟨-, heq⟩ | ⟨ha, hd, -⟩ | ⟨ha, hd, -⟩
      · rw [heq, List.append_nil, ih (c := c.at' (.tick (index + 1)) false) rfl hdue hi (by omega)]
        rfl
      · rw [hdue _ ha] at hd
        cases hd
      · rw [hdue _ ha] at hd
        cases hd
    · rw [dif_neg hi, List.append_nil]
      exact exec_idle h rfl n

/-- The pool once a reply of this type has been read. -/
def repliedPool (pool : TransactionPool cfg) (sender : Endpoint) (hd : Server.ReplyHeader) :
    TransactionPool cfg :=
  if hd.type = .acknowledgement then (pool.complete sender hd.messageId).1 else pool

/-- The actions of a poll, to its return. -/
def wholePoll (cfg : Config) (nowMs : UInt32) (rx : Endpoint × Bytes) : List Action :=
  .poll nowMs (some rx) :: List.replicate (cfg.maxTransactions + 4) (.resume true)

/-- The client when it comes to the dispatch of the reply. -/
def replied (c : Client cfg) (nowMs : UInt32) (sender : Endpoint) (hd : Server.ReplyHeader)
    (msg : Message) : Client cfg :=
  { c with
    lastNowMs := nowMs
    transactions := repliedPool c.transactions sender hd
    control := .polling (.dispatch sender msg) false }

/-- A poll that receives a piggybacked response goes to its dispatch, and the ACK in it frees the
transaction. -/
theorem poll_reply {c : Client cfg} (hidle : c.control = .idle) {m : Message}
    {hd : Server.ReplyHeader} {uints : List (UInt16 × UInt32)} {payload : Bytes}
    (hm : Server.Carries cfg m hd uints payload)
    (htype : hd.type = .acknowledgement ∨ hd.type = .nonConfirmable)
    (hclass : codeClass hd.code ≠ 0) (nowMs : UInt32) (sender : Endpoint) :
    c.step (.poll nowMs (some (sender, m.wire))) =
      (c.replied nowMs sender hd (Message.decode cfg m.wire).2, []) := by
  have hsame := Message.sameContent_decode hm.built.toWellFormed
  have hpair := Message.decodes_wire hm.built.toWellFormed
  have hstep : c.step (.poll nowMs (some (sender, m.wire))) =
      c.poll nowMs (some (sender, m.wire)) := by
    simp only [Client.step, hidle]
  have hdtype : (Message.decode cfg m.wire).2.type = hd.type := hsame.type.trans hm.type
  have hdid : (Message.decode cfg m.wire).2.messageId = hd.messageId :=
    hsame.messageId.trans hm.messageId
  have hdcode : (Message.decode cfg m.wire).2.code = hd.code := hsame.code.trans hm.code
  rw [hstep, poll_message c nowMs sender hpair]
  generalize (Message.decode cfg m.wire).2 = d at hdtype hdid hdcode ⊢
  -- a code of a class other than 0 is that of a response
  have hresponse : d.code ≠ Code.empty ∧ (!isMethodCode d.code) = true := by
    rw [hdcode]
    refine ⟨?_, ?_⟩
    · intro hempty
      rw [hempty] at hclass
      exact hclass rfl
    · unfold isMethodCode
      simp [hclass]
  unfold handleMessage
  rw [hdtype, hdid, if_pos hresponse]
  rcases htype with ht | ht
  · rw [ht, if_neg (by decide), if_pos rfl]
    unfold replied repliedPool
    rw [if_pos ht]
    rfl
  · rw [ht, if_neg (by decide), if_neg (by decide)]
    unfold replied repliedPool
    rw [ht, if_neg (by decide)]
    rfl

/-- **The client's turn.** The reply is polled: the slot that waits for its token gets it, once,
and is free afterwards. The rest of the poll, the expiry and the scan, has nothing to do. -/
theorem turn_reply {c : Client cfg} (hidle : c.control = .idle)
    (hplain : cfg.enableBlockwise = false) {i : Fin cfg.maxTransactions}
    (hactive : (c.slots i).pending.active = true)
    (hown : ∀ j, (c.slots j).pending.active = true →
      (c.slots j).pending.token = (c.slots i).pending.token → j = i)
    (hdisc : ∀ j, (c.discovers j).active = true →
      (c.discovers j).token ≠ (c.slots i).pending.token)
    {handler : Ref} (hhandler : (c.slots i).pending.onResponse = some handler)
    {m : Message} {hd : Server.ReplyHeader} {payload : Bytes} {contentFormat : ContentFormat}
    (hm : Server.Carries cfg m hd (Server.contentUint payload contentFormat) payload)
    (hroom : payload ≠ [] → 0 < cfg.maxOptions)
    (htoken : hd.token = (c.slots i).pending.token)
    (htype : hd.type = .acknowledgement ∨ hd.type = .nonConfirmable)
    (hclass : codeClass hd.code ≠ 0) {nowMs : UInt32} (hdue : c.NoneDue nowMs)
    (sender : Endpoint) :
    ∃ c', (machine cfg).exec [] c (wholePoll cfg nowMs (sender, m.wire)) =
        ([.response (c.slots i).pending.call handler
          { code := hd.code, payload, contentFormat := formatOf payload contentFormat }
          (c.slots i).pending.userContext], c') ∧
      c'.control = .idle ∧
      c'.slots = c.slots.set i (closedSlot (c.slots i) false) ∧
      c'.transactions = repliedPool c.transactions sender hd := by
  have hsame := Message.sameContent_decode hm.built.toWellFormed
  -- the poll up to its first cut: the reply is decoded and the ACK frees its transaction
  have hpoll := poll_reply hidle hm htype hclass nowMs sender
  have hformat := responseFormat_reply hm hroom
  have hdtype : (Message.decode cfg m.wire).2.type = hd.type := hsame.type.trans hm.type
  have hdtoken : (Message.decode cfg m.wire).2.token = (c.slots i).pending.token :=
    (hsame.token.trans hm.token).trans htoken
  have hdcode : (Message.decode cfg m.wire).2.code = hd.code := hsame.code.trans hm.code
  have hdpay : (Message.decode cfg m.wire).2.payloadBytes = payload :=
    hsame.payload.trans hm.payload
  generalize (Message.decode cfg m.wire).2 = d at hpoll hformat hdtype hdtoken hdcode hdpay
  -- the dispatch finds the slot
  have hfindDiscover : (c.replied nowMs sender hd d).findDiscover d.token = none := by
    refine Table.find?_eq_none.2 fun j => ?_
    show ((c.discovers j).active && (c.discovers j).token == d.token) = false
    rw [hdtoken, ← Bool.not_eq_true, Bool.and_eq_true, beq_iff_eq]
    rintro ⟨hact, htok⟩
    exact hdisc j hact htok
  have hfind : (c.replied nowMs sender hd d).findPendingByToken d.token = some i := by
    refine Table.find?_unique ?_ fun j hj => ?_
    · show ((c.slots i).pending.active && (c.slots i).pending.token == d.token) = true
      rw [hactive, hdtoken]
      simp
    · have hj : ((c.slots j).pending.active && (c.slots j).pending.token == d.token) = true := hj
      rw [Bool.and_eq_true, beq_iff_eq, hdtoken] at hj
      exact hown j hj.1 hj.2
  have hdispatch : (c.replied nowMs sender hd d).step (.resume true) =
      ((c.replied nowMs sender hd d).at' (.close i false (c.slots i).pending.call) true,
        [.response (c.slots i).pending.call handler
          { code := hd.code, payload, contentFormat := formatOf payload contentFormat }
          (c.slots i).pending.userContext]) := by
    have hack : ackEvents cfg sender d true = [] := by
      unfold ackEvents
      rw [hdtype]
      rcases htype with ht | ht
      · rw [ht, if_neg (by decide)]
      · rw [ht, if_neg (by decide)]
    rw [step_resume (c := c.replied nowMs sender hd d) rfl]
    show ((dispatchResponse _ sender d).1, ackEvents cfg sender d true ++
      (dispatchResponse _ sender d).2) = _
    unfold dispatchResponse
    rw [hfindDiscover, hfind]
    dsimp only
    unfold dispatchPending
    rw [hplain, if_neg Bool.false_ne_true]
    unfold handlePlain fireResponse
    dsimp only
    rw [show ((c.replied nowMs sender hd d).slots i).pending.onResponse = some handler from
      hhandler, hack, hdcode, hdpay, hformat]
    rfl
  -- after the callback the slot is closed, and the poll runs to its end
  -- the transactions that are left are those from before, and none of them was due
  have hquiet : ∀ j, Awaiting (repliedPool c.transactions sender hd j) →
      notDue nowMs (repliedPool c.transactions sender hd j) = true := by
    intro j ha
    unfold repliedPool at ha ⊢
    split
    · rename_i hack
      rw [if_pos hack] at ha
      rcases complete_cases c.transactions sender hd.messageId with ⟨-, heq⟩ | ⟨k, -, heq⟩
      · rw [heq] at ha ⊢
        exact hdue j ha
      · rw [heq] at ha ⊢
        by_cases hjk : j = k
        · subst hjk
          rw [Table.set_self] at ha
          exact nomatch ha
        · rw [Table.set_ne _ _ hjk] at ha ⊢
          exact hdue j ha
    · rename_i hack
      rw [if_neg hack] at ha
      exact hdue j ha
  generalize hc₁ : (c.replied nowMs sender hd d).at' (.close i false (c.slots i).pending.call)
    true = c₁ at hdispatch
  have hclose : c₁.step (.resume true) = ((c₁.close i false).goto .expire, []) := by
    have hctl : c₁.control = .polling (.close i false (c.slots i).pending.call) true := by
      rw [← hc₁]
      rfl
    rw [step_resume hctl]
    rfl
  have hexpire : ((c₁.close i false).goto .expire).step (.resume true) =
      (((c₁.close i false).goto .expire).expireDiscovers.goto (.tick 0), []) := by
    rw [step_resume (c := (c₁.close i false).goto .expire) rfl]
    rfl
  -- so the scan of the pool runs through without an event
  have hscan := exec_scan (c := ((c₁.close i false).goto .expire).expireDiscovers.goto (.tick 0))
    [.response (c.slots i).pending.call handler
      { code := hd.code, payload, contentFormat := formatOf payload contentFormat }
      (c.slots i).pending.userContext] (cfg.maxTransactions + 1) rfl (by
        subst hc₁
        rw [close_eq]
        exact hquiet) (Nat.zero_le _) (by omega)
  refine ⟨{ ((c₁.close i false).goto .expire).expireDiscovers.goto (.tick 0) with
    control := .idle }, ?_, rfl, ?_, ?_⟩
  · -- the five cuts of the poll, one behind the other
    have hfirst : (machine cfg).exec [] c (wholePoll cfg nowMs (sender, m.wire)) =
        (machine cfg).exec ([] ++ (c.step (.poll nowMs (some (sender, m.wire)))).2)
          (c.step (.poll nowMs (some (sender, m.wire)))).1
          (List.replicate (cfg.maxTransactions + 4) (.resume true)) := rfl
    rw [hfirst, hpoll, exec_resume, hdispatch, exec_resume, hclose, exec_resume, hexpire]
    exact hscan
  · subst hc₁
    rw [close_eq]
    rfl
  · subst hc₁
    rw [close_eq]
    rfl

/-! ## The call -/

/-- The token of the next request is in no active slot. -/
structure NextTokenUnused (c : Client cfg) : Prop where
  slots     : ∀ j, (c.slots j).pending.active = true → (c.slots j).pending.token ≠ [c.nextTokenByte]
  discovers : ∀ j, (c.discovers j).active = true → (c.discovers j).token ≠ [c.nextTokenByte]

instance (c : Client cfg) : Decidable c.NextTokenUnused :=
  decidable_of_iff ((∀ j, (c.slots j).pending.active = true →
      (c.slots j).pending.token ≠ [c.nextTokenByte]) ∧
    ∀ j, (c.discovers j).active = true → (c.discovers j).token ≠ [c.nextTokenByte])
    ⟨fun h => ⟨h.1, h.2⟩, fun h => ⟨h.1, h.2⟩⟩

/-- What `encode` accepts goes out in its wire form. -/
theorem encode_wire {m : Message} (hm : Message.Built cfg m) {buf : Bytes}
    (h : m.encode cfg.maxMsgSize = .ok buf) : buf = m.wire := by
  obtain ⟨hfits, hfull⟩ := Message.encode_spec hm.toWellFormed cfg.maxMsgSize
  rcases Nat.lt_or_ge cfg.maxMsgSize m.wire.length with hlong | hshort
  · obtain ⟨e, he, -⟩ := hfull hlong
    rw [he] at h
    cases h
  · rw [hfits hshort] at h
    cases h
    rfl

/-- **A plain call that returns true** has registered a slot and sent a request the server
serves. The slot was free, and the token and the message ID are those of the counters. -/
theorem call_plain {c : Client cfg} (hplain : cfg.enableBlockwise = false) {call : ClientCall}
    {a : RequestArgs} (hshape : call.shape = .issue a) (hkind : a.kind = .request)
    (htrue : (c.call true call).2.1 = true) {segs : List Bytes}
    (hpath : Uri.NormalForm a.path segs) :
    ∃ i s m, c.freeSlot = some i ∧ NewSlot c a s ∧ Server.RequestFor cfg m segs a.method a.payload ∧
      m.type = (if a.confirmable then .confirmable else .nonConfirmable) ∧
      m.messageId = c.nextMessageId ∧ m.token = [c.nextTokenByte] ∧
      m.wire.length ≤ cfg.maxMsgSize ∧
      c.call true call =
        (c.issued i s a m.wire, true, [.sent a.server m.wire, .accepted (a.call c.calls)]) := by
  have hblock : a.blockwise cfg = false := by
    unfold RequestArgs.blockwise
    rw [hplain, Bool.false_and]
  have hobserve : a.observe = none := by
    unfold RequestArgs.kind at hkind
    split at hkind
    · cases hkind
    · split at hkind
      · cases hkind
      · rename_i hnone
        simpa using hnone
  have hcall : c.call true call = c.issue a true := by
    rw [call_eq, hshape]
  rw [hcall] at htrue ⊢
  -- `true` rules out a full table and a request that cannot be built
  rcases issue_cases c a true (by simp [hblock]) with ⟨-, c', -, heq⟩ |
    ⟨-, i, s, buf, hfree, hdat, hnew, heq⟩
  · rw [heq] at htrue
    cases htrue
  · have hdat : transmit cfg (a.request cfg c.nextMessageId c.nextTokenByte) true = some buf := by
      rw [← hdat, issueDatagram, if_neg (by simp [hblock])]
      rfl
    obtain ⟨m, hm, henc⟩ := transmit_some hdat
    unfold RequestArgs.request at hm
    rw [hobserve] at hm
    have htype : (if a.confirmable then MessageType.confirmable else .nonConfirmable) =
          .confirmable ∨
        (if a.confirmable then MessageType.confirmable else .nonConfirmable) =
          .nonConfirmable := by
      cases a.confirmable
      · exact .inr rfl
      · exact .inl rfl
    obtain ⟨hfor, hmtype, hmid, hmtoken⟩ := buildRequest_plain htype hpath hm
    obtain rfl := encode_wire hfor.built henc
    exact ⟨i, s, m, hfree, hnew, hfor, hmtype, hmid, hmtoken, (Message.encode_ok henc).2, heq⟩

/-! ## The pool -/

/-- An ACK that matches gives a slot of the pool back. -/
theorem freeSlots_complete {pool : TransactionPool cfg} {remote : Endpoint} {messageId : UInt16}
    {t : Fin cfg.maxTransactions} (ht : matchesId remote messageId (pool t) = true) :
    freeSlots (pool.complete remote messageId).1 = pool.freeSlots + 1 := by
  rcases complete_cases pool remote messageId with ⟨hnone, -⟩ | ⟨i, hi, heq⟩
  · rw [Table.find?_eq_none.1 hnone t] at ht
    cases ht
  · have hwaits := (matchesId_iff.1 (Table.find?_spec hi)).1
    have hcount := Table.count_set_off (p := fun t : Transaction => t.state = .free)
      (t := pool.set i { pool i with state := .free }) (i := i) (a := pool i)
      (by rw [Table.set_self]) (by rw [hwaits]; exact nofun)
    rw [Table.set_set, Table.set_eq_self] at hcount
    rw [heq]
    exact hcount.symm

/-- **The exchange leaves the pool as full as it was**: a Confirmable request is in it until its
ACK, and any other never is. -/
theorem freeSlots_exchange {c : Client cfg} (hplain : cfg.enableBlockwise = false)
    {a : RequestArgs} (hroom : 0 < c.transactions.freeSlots) {i : Fin cfg.maxTransactions}
    {s : ClientSlot} {buf : Bytes} (hlen : buf.length ≤ cfg.maxMsgSize)
    {hd : Server.ReplyHeader} (hack : hd.type = .acknowledgement ↔ a.confirmable = true)
    (hid : a.confirmable = true → hd.messageId = c.nextMessageId) :
    freeSlots (repliedPool (c.issued i s a buf).transactions a.server hd) =
      c.transactions.freeSlots := by
  -- without block-wise transfer a request is tracked exactly if it is Confirmable
  have hrel : a.reliable cfg = a.confirmable := by
    unfold RequestArgs.reliable RequestArgs.blockwise
    rw [hplain, Bool.false_and, Bool.false_or]
  show freeSlots (repliedPool (if a.reliable cfg then _ else _) a.server hd) = _
  rw [hrel]
  unfold repliedPool
  by_cases hcon : a.confirmable = true
  · -- the one slot that the call takes is the one that the acknowledgement gives back
    rw [if_pos hcon, if_pos (hack.2 hcon), hid hcon]
    obtain ⟨t, ht, heq⟩ := start_room hroom a.server c.nextMessageId
      (oneByte_fits c.nextTokenByte) hlen c.lastNowMs (a.call c.calls)
    have hcount := Table.count_set_off (p := fun t : Transaction => t.state = .free)
      (a := started cfg a.server c.nextMessageId [c.nextTokenByte] buf c.lastNowMs
        (a.call c.calls)) ht (by simp [started])
    rw [heq, freeSlots_complete (t := t)]
    · exact hcount
    · rw [Table.set_self]
      exact matchesId_iff.2 ⟨awaiting_started .., rfl, rfl⟩
  · -- neither started nor acknowledged: the pool is as before
    rw [if_neg hcon, if_neg (mt hack.1 hcon)]

end Client

/-! ## End to end -/

/--
A call of the client and its answer. The request is polled by the server and
its handler returns; the reply is polled by the client. The handler has run
once, with the method and the payload of the call; the callback has fired once,
with the code and the payload of the handler; and the client holds as many
slots and transactions as before.
-/
theorem exchange (hplain : cfg.enableBlockwise = false) {c : Client cfg} {s : Server cfg}
    (clientEp : Endpoint) {call : Client.ClientCall} {a : Client.RequestArgs} {handler : Ref}
    (hshape : call.shape = .issue a) (hkind : a.kind = .request)
    (hhandler : a.onResponse = some handler) (hidle : c.control = .idle)
    (hunused : c.NextTokenUnused) (hpool : 0 < c.transactions.freeSlots)
    (htrue : (c.call true call).2.1 = true) {k : Nat} {r : Resource}
    (hserves : s.Serves k r a.path a.method) {segs : List Bytes}
    (hpath : Uri.NormalForm a.path segs) (hshort : a.path.length < cfg.maxUriPathLen)
    {res : Response} (hinline : res.deferred = false) (hclass : codeClass res.code ≠ 0)
    (hown : r.handler = .wellKnownCore → res = s.wellKnownCoreHandler)
    (hroom : res.payload ≠ [] → 0 < cfg.maxOptions)
    (hfits : Server.replySize cfg 1 (Server.contentUint res.payload res.contentFormat)
      res.payload.length ≤ cfg.maxMsgSize) {t₁ t₂ : UInt32} (hdue₁ : s.NoneDue t₁)
    (hdue₂ : (c.call true call).1.NoneDue t₂) :
    ∃ req reply request c₂,
      (c.call true call).2.2 = [.sent a.server req, .accepted (a.call c.calls)] ∧
      ((Server.machine cfg).exec [] s [.poll t₁ (some (clientEp, req)), .handlerReturns res]).1 =
        [.handled k r.handler request r.userContext, .sent clientEp reply] ∧
      request.method = a.method ∧ request.payload = a.payload ∧
      (Client.machine cfg).exec [] (c.call true call).1
          (Client.wholePoll cfg t₂ (a.server, reply)) =
        ([.response (a.call c.calls) handler
          { code := res.code, payload := res.payload
            contentFormat := Client.formatOf res.payload res.contentFormat } a.userContext], c₂) ∧
      c₂.control = .idle ∧
      (∀ j, (c₂.slots j).pending.active = (c.slots j).pending.active) ∧
      c₂.transactions.freeSlots = c.transactions.freeSlots := by
  obtain ⟨i, slot, m, hfree, hnew, hfor, hmtype, hmid, hmtoken, hlen, heq⟩ :=
    Client.call_plain hplain hshape hkind htrue hpath
  have hobs : a.markObserving = false := by
    unfold Client.RequestArgs.kind at hkind
    split at hkind
    · cases hkind
    · rename_i hno
      exact Bool.eq_false_iff.2 hno
  have hmethod : isMethodCode a.method = true := by
    obtain ⟨mask, hmask, -⟩ := hserves.allows
    exact Server.isMethodCode_of_mask hmask
  rw [heq] at hdue₂ ⊢
  dsimp only at hdue₂ ⊢
  -- the server's turn
  -- the size of the reply is computed with a token of one byte
  have hfits' := hfits
  rw [show (1 : Nat) = m.token.length by rw [hmtoken]; rfl] at hfits'
  obtain ⟨request, reply, hreqmethod, hreqpay, hcarries, hserver⟩ :=
    Server.turn_serves hserves hpath hshort hplain hfor hmethod hdue₁ clientEp hinline hown hfits'
  -- a piggybacked ACK for a CON request and a NON response for a NON one
  have hheader : (s.replyHeader m res.code).token = [c.nextTokenByte] ∧
      (s.replyHeader m res.code).code = res.code ∧
      ((s.replyHeader m res.code).type = .acknowledgement ↔ a.confirmable = true) ∧
      ((s.replyHeader m res.code).type = .acknowledgement ∨
        (s.replyHeader m res.code).type = .nonConfirmable) ∧
      (a.confirmable = true → (s.replyHeader m res.code).messageId = c.nextMessageId) := by
    unfold Server.replyHeader
    rw [hmtype, hmid, hmtoken]
    cases a.confirmable with
    | true => exact ⟨rfl, rfl, by simp, .inl rfl, fun _ => rfl⟩
    | false => exact ⟨rfl, rfl, by simp, .inr rfl, fun h => nomatch h⟩
  obtain ⟨hdtoken, hdcode, hdack, hdtype, hdid⟩ := hheader
  generalize s.replyHeader m res.code = hd at hcarries hdtoken hdcode hdack hdtype hdid
  -- the client's turn
  have hslot : (c.issued i slot a m.wire).slots i = slot := Table.set_self ..
  have hother : ∀ j, j ≠ i → (c.issued i slot a m.wire).slots j = c.slots j :=
    fun j hj => Table.set_ne _ _ hj
  have htoken : ((c.issued i slot a m.wire).slots i).pending.token = [c.nextTokenByte] := by
    rw [hslot, hnew.token]
  obtain ⟨c₂, hturn, hidle₂, hslots₂, hpool₂⟩ := Client.turn_reply (i := i)
    (c := c.issued i slot a m.wire) hidle hplain (by rw [hslot, hnew.active])
    (fun j hj htok => by
      by_contra hji
      rw [hother j hji] at hj htok
      exact hunused.slots j hj (htok.trans htoken))
    (fun j hj => by
      rw [htoken]
      -- the token was unused, so no other slot and no discovery takes the response
      exact hunused.discovers j hj)
    (by rw [hslot, hnew.onResponse, hhandler]) hcarries hroom (hdtoken.trans htoken.symm) hdtype
    (by rw [hdcode]; exact hclass) hdue₂ a.server
  -- every part of the statement is one of the two turns
  refine ⟨m.wire, reply.wire, request, c₂, rfl, hserver, hreqmethod, hreqpay, ?_, hidle₂, ?_, ?_⟩
  · rw [hturn, hslot, hnew.call, hnew.userContext, hdcode]
  · intro j
    rw [hslots₂]
    by_cases hji : j = i
    · subst hji
      rw [Table.set_self, Client.freeSlot_spec hfree]
      unfold Client.closedSlot
      rw [hslot, hnew.observing, hobs, if_neg Bool.false_ne_true]
    · rw [Table.set_ne _ _ hji, hother j hji]
  · rw [hpool₂]
    exact Client.freeSlots_exchange hplain hpool hlen hdack hdid

/-- `"/led"`. -/
def ledPath : Bytes := [0x2F, 0x6C, 0x65, 0x64]

/-- A PUT of one byte to it. -/
def ledArgs : Client.RequestArgs where
  server := { address := .v4 10 0 0 1, port := 5683 }
  path := ledPath
  method := Code.put
  payload := [0x31]
  onResponse := some 1
  userContext := some 2

def ledPut : Client.ClientCall := .put ledArgs.server ledPath [0x31] .textPlain (some 1) (some 2) true

/-- What its handler answers. -/
def ledAnswer : Response where
  code := Code.changed
  contentFormat := .octetStream
  payload := [0x6F, 0x6E]

/-- A server with that resource. -/
def ledResource : Resource where
  path := ledPath
  methods := methodPut
  handler := .app 7
  userContext := none
  observable := false
  isTemplate := false

def ledServer : Server Config.default := { resources := [ledResource] }

theorem exchange_led :
    ∃ req reply request c₂,
      (({} : Client Config.default).call true ledPut).2.2 =
          [.sent ledArgs.server req, .accepted (ledArgs.call 0)] ∧
        ((Server.machine Config.default).exec [] ledServer
            [.poll 5 (some (default, req)), .handlerReturns ledAnswer]).1 =
          [.handled 0 (.app 7) request none, .sent default reply] ∧
        request.method = Code.put ∧ request.payload = [0x31] ∧
        (Client.machine Config.default).exec [] (({} : Client Config.default).call true ledPut).1
            (Client.wholePoll Config.default 9 (ledArgs.server, reply)) =
          ([.response (ledArgs.call 0) 1
            { code := Code.changed, payload := [0x6F, 0x6E], contentFormat := .octetStream }
            (some 2)], c₂) ∧
        c₂.control = .idle ∧
        (∀ j, (c₂.slots j).pending.active = (({} : Client Config.default).slots j).pending.active) ∧
        c₂.transactions.freeSlots = ({} : Client Config.default).transactions.freeSlots := by
  have hserves : ledServer.Serves 0 ledResource ledArgs.path ledArgs.method :=
    ⟨rfl, rfl, fun j hj => absurd hj (Nat.not_lt_zero j), rfl, rfl, methodPut, by decide⟩
  have hpath : Uri.NormalForm ledArgs.path [[0x6C, 0x65, 0x64]] := by decide
  exact exchange rfl (c := {}) (s := ledServer) default (a := ledArgs) rfl rfl rfl rfl
    (by decide +kernel) (by decide +kernel) (by decide +kernel) hserves hpath (by decide) rfl
    (by decide) nofun (by decide) (by decide +kernel) (by decide +kernel) (by decide +kernel)

end PulseCoap
