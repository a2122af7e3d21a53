import PulseCoap.Client.Options
import PulseCoap.Client.Sends
import PulseCoap.System.Given

/-!
# PulseCoAP — what the client asks for

A call that is accepted sends one request and, if it is no discovery, takes a slot
with the token of the request. In a build without block-wise transfer there is
nothing else the client asks for: what the pool sends again are the same
datagrams.

What a request says is stated of the decoded message, so that it can be compared
with what the server reads. A segment longer than 65535 bytes is cut by the
length field of its option, and `AskedBy` has the segments as they are on the
wire.

* `Issue`, `issues` — the requests of the client.
* `AskedBy` — what the server reads in one.
* `buildRequest_says` — the request of `sendRequest`, with or without Observe.
* `call_issues` — every call.
* `Requests` — what a call leaves, whether it is accepted or not.
-/

namespace PulseCoap

/-- A request the client has sent; a discovery belongs to no call that occupies a slot. -/
structure Issue where
  token : UInt8
  args  : Client.RequestArgs
  call  : Option Call
deriving DecidableEq, Repr

/-- What a request says: token, method, payload, and the segments of the path as they are on the
wire. -/
structure AskedBy (x : Issue) (msg : Message) : Prop where
  token   : msg.token = [x.token]
  method  : msg.code = x.args.method
  path    : Uri.uriPathValues msg.options = (Uri.segments x.args.path).map Client.onWire
  payload : msg.payloadBytes = x.args.payload

namespace Client

open TransactionPool (Awaiting)

variable {cfg : Config} {c : Client cfg}

-- ===========================================================================
-- Requests
-- ===========================================================================

theorem addOptionUint_payload (cfg : Config) (m : Message) (number : UInt16) (v : UInt32) :
    (m.addOptionUint cfg number v).1.payloadBytes = m.payloadBytes := by
  rw [Message.addOptionUint_eq]
  rcases Message.addOption_cases cfg m number
      (if UInt16.ofNat (Message.uintBytes v).length > 0 then some (Message.uintBytes v) else none)
      (UInt16.ofNat (Message.uintBytes v).length) with heq | ⟨-, -, heq⟩
  · rw [heq]
  · rw [heq]
    rfl

/-- The options of a path, read back. -/
theorem uriPathValues_segmentOptions (segs : List Bytes) :
    Uri.uriPathValues (segs.map Uri.segmentOption) = segs.map onWire := by
  induction segs with
  | nil => rfl
  | cons seg segs ih =>
    rw [List.map_cons, Uri.uriPathValues_cons, if_pos (by rfl), ih]
    rfl

/-- A request from its path on: what is behind the path is no part of it. -/
theorem body_says (first : Message) {m : Message} {path payload : Bytes} {contentFormat : ContentFormat}
    (hfirst : Uri.uriPathValues first.options = []) (hempty : first.payloadBytes = [])
    (h : (if !(Uri.addUriPathOptions cfg first path).2 then none
      else if payload.length > 0 then
        some (((Uri.addUriPathOptions cfg first path).1.addOptionUint cfg OptionNumber.contentFormat
          contentFormat.raw.toUInt32).1.setPayload (some payload) payload.length)
      else some (Uri.addUriPathOptions cfg first path).1) = some m) :
    Message.SameHeader first m ∧
      Uri.uriPathValues m.options = (Uri.segments path).map onWire ∧ m.payloadBytes = payload := by
  have hheader := Message.sameHeader_addUriPathOptions cfg first path
  split at h
  · cases h
  · next hok =>
    have hadded : (Uri.addUriPathOptions cfg first path).1 =
        Uri.withSegments first (Uri.segments path) :=
      Uri.addSegments_eq _ _ (by simpa [Uri.addUriPathOptions] using hok)
    -- the first options are none of the path, so its segments are all that is read
    have hpath : Uri.uriPathValues (Uri.addUriPathOptions cfg first path).1.options =
        (Uri.segments path).map onWire := by
      rw [hadded]
      show Uri.uriPathValues (first.options ++ (Uri.segments path).map Uri.segmentOption) = _
      rw [Uri.uriPathValues_append, hfirst, uriPathValues_segmentOptions, List.nil_append]
    split at h
    · -- a payload, and its format
      cases h
      obtain ⟨rest, hoptions, hrest⟩ := addOptionUint_options cfg
        (Uri.addUriPathOptions cfg first path).1 OptionNumber.contentFormat
        contentFormat.raw.toUInt32
      refine ⟨(hheader.trans (Message.sameHeader_addOptionUint ..)).trans
        (Message.sameHeader_setPayload ..), ?_, List.take_length⟩
      show Uri.uriPathValues
        ((Uri.addUriPathOptions cfg first path).1.addOptionUint cfg _ _).1.options = _
      rw [hoptions, Uri.uriPathValues_append, hpath, Uri.uriPathValues_others, List.append_nil]
      intro o ho
      rw [hrest o ho]
      decide
    · next hlen =>
      cases h
      refine ⟨hheader, hpath, ?_⟩
      have hnil : payload = [] := List.eq_nil_of_length_eq_zero (by omega)
      rw [hadded, hnil]
      exact hempty

/-- **What a request says**, with an Observe option or without: token, method, segments and
payload are those of the call. -/
theorem buildRequest_says {type : MessageType} {messageId : UInt16} {token : UInt8} {method : Code}
    {observe : Option UInt32} {path payload : Bytes} {contentFormat : ContentFormat} {m : Message}
    (h : buildRequest cfg type messageId [token] method observe path payload contentFormat =
      some m) :
    m.token = [token] ∧ m.code = method ∧
      Uri.uriPathValues m.options = (Uri.segments path).map onWire ∧ m.payloadBytes = payload := by
  cases observe with
  | none =>
    obtain ⟨hheader, hpath, hpayload⟩ :=
      body_says (opened type messageId [token] method) rfl rfl h
    exact ⟨hheader.token, hheader.code, hpath, hpayload⟩
  | some v =>
    have hsame := Message.sameHeader_addOptionUint cfg (opened type messageId [token] method)
      OptionNumber.observe v
    obtain ⟨rest, hoptions, hrest⟩ := addOptionUint_options cfg
      (opened type messageId [token] method) OptionNumber.observe v
    have hnone : Uri.uriPathValues rest = [] := Uri.uriPathValues_others fun o ho => by
      rw [hrest o ho]
      decide
    obtain ⟨hheader, hpath, hpayload⟩ := body_says ((opened type messageId [token]
      method).addOptionUint cfg OptionNumber.observe v).1 (by
        rw [hoptions, Uri.uriPathValues_append, hnone]
        rfl) (addOptionUint_payload ..) h
    exact ⟨hheader.token.trans hsame.token, hheader.code.trans hsame.code, hpath, hpayload⟩

/-- **What the server reads of it** is what was asked, as far as a segment has a wire form. -/
theorem transmit_asked {type : MessageType} {messageId : UInt16} {a : RequestArgs} {token : UInt8}
    {sendOk : Bool} {data : Bytes}
    (h : transmit cfg (buildRequest cfg type messageId [token] a.method a.observe a.path a.payload
      a.contentFormat) sendOk = some data) (call : Option Call) {msg : Message}
    (hdec : Message.decode cfg data = (.none, msg)) : AskedBy ⟨token, a, call⟩ msg := by
  obtain ⟨m, hm, henc⟩ := transmit_some h
  have hbuilt := (lists_request hm).built
  obtain ⟨htoken, hcode, hpath, hpayload⟩ := buildRequest_says hm
  have hsame := Message.sameContent_decode hbuilt.toWellFormed
  have hoptions := Message.uriPathValues_same (Message.sameOptions_decode hbuilt.toWellFormed)
  rw [← encode_wire hbuilt henc, hdec] at hsame hoptions
  exact ⟨hsame.token.trans htoken, hsame.code.trans hcode, hoptions.trans hpath,
    hsame.payload.trans hpayload⟩

-- ===========================================================================
-- What is issued
-- ===========================================================================

/-- The request of a call that is accepted. -/
def issues (c : Client cfg) : Action → List Issue
  | .call call sendOk =>
    if c.appHasControl ∧ (c.call sendOk call).2.1 then
      match call.shape with
      | .issue a => [⟨c.nextTokenByte, a, some (a.call c.calls)⟩]
      | .cancel server path =>
        match c.findObserve server path with
        | some i =>
          let a := deregisterArgs server path (c.slots i).pending
          [⟨c.nextTokenByte, a, some (a.call c.calls)⟩]
        | none => []
      | .discover ep _ _ =>
        [⟨c.nextTokenByte, { server := ep, path := Uri.wellKnownCore, method := Code.get }, none⟩]
      | .handler _ => []
    else []
  | _ => []

/-- The slot of a request. -/
structure Registers (x : Issue) (p : PendingRequest) : Prop where
  token       : p.token = [x.token]
  call        : x.call = some p.call
  onResponse  : p.onResponse = x.args.onResponse
  userContext : p.userContext = x.args.userContext

/-- The datagram has a request of the list, if it has one. -/
def AsksIn (cfg : Config) (issued : List Issue) (data : Bytes) : Prop :=
  ∀ msg, Message.decode cfg data = (.none, msg) → Server.IsRequest msg → ∃ x ∈ issued, AskedBy x msg

theorem AsksIn.mono {issued issued' : List Issue} (hsub : issued ⊆ issued') {data : Bytes}
    (h : AsksIn cfg issued data) : AsksIn cfg issued' data := by
  intro msg hdec hreq
  obtain ⟨x, hx, hasked⟩ := h msg hdec hreq
  exact ⟨x, hsub hx, hasked⟩

/-- An accepted request, and the slot it is given. -/
theorem issued_asks (hplain : cfg.enableBlockwise = false) {c : Client cfg} {a : RequestArgs}
    {i : Fin cfg.maxTransactions} {s : ClientSlot} {buf : Bytes} {sendOk : Bool}
    (hdatagram : c.issueDatagram i a sendOk = some buf) (hnew : NewSlot c a s) :
    AsksIn cfg [⟨c.nextTokenByte, a, some (a.call c.calls)⟩] buf ∧
      ∀ j, ((c.issued i s a buf).slots j).pending = (c.slots j).pending ∨
        Registers ⟨c.nextTokenByte, a, some (a.call c.calls)⟩
          ((c.issued i s a buf).slots j).pending := by
  have hb : a.blockwise cfg = false := by
    unfold RequestArgs.blockwise
    rw [hplain, Bool.false_and]
  have hsent : transmit cfg (a.request cfg c.nextMessageId c.nextTokenByte) sendOk = some buf := by
    unfold issueDatagram at hdatagram
    rwa [hb, if_neg Bool.false_ne_true] at hdatagram
  refine ⟨fun msg hdec _ => ⟨_, List.mem_singleton_self _, transmit_asked hsent _ hdec⟩,
    fun j => ?_⟩
  show ((c.slots.set i s) j).pending = _ ∨ Registers _ ((c.slots.set i s) j).pending
  by_cases hj : j = i
  · rw [hj, Table.set_self]
    exact .inr ⟨hnew.token, by rw [hnew.call], hnew.onResponse, hnew.userContext⟩
  · rw [Table.set_ne _ _ hj]
    exact .inl rfl

/-- What a call leaves: nothing new, or a request that it sends. -/
structure Requests (c : Client cfg) (issued : List Issue)
    (r : Client cfg × Bool × List ClientEvent) : Prop where
  sent  : Sends (fun _ data => AsksIn cfg issued data) r.2.2
  slots : ∀ i, (r.1.slots i).pending.active = true →
    (r.1.slots i).pending = (c.slots i).pending ∨ ∃ x ∈ issued, Registers x (r.1.slots i).pending

theorem issues_silent {r : Client cfg × Bool × List ClientEvent} (hn : Narrows c r.1)
    (hnone : r.2.2 = []) (issued : List Issue) : Requests c issued r where
  sent := by
    rw [hnone]
    exact sends_nil _
  slots i hi := .inl (hn.slots i hi)

/-- **A call** sends the request it issues, if it issues one. -/
theorem call_issues (hplain : cfg.enableBlockwise = false) (c : Client cfg)
    (happ : c.appHasControl = true) (call : ClientCall) (sendOk : Bool) :
    Requests c (c.issues (.call call sendOk)) (c.call sendOk call) := by
  have hissues : ∀ x, (c.call sendOk call).2.1 = true → (match call.shape with
      | .issue a => [⟨c.nextTokenByte, a, some (a.call c.calls)⟩]
      | .cancel server path =>
        match c.findObserve server path with
        | some i =>
          let a := deregisterArgs server path (c.slots i).pending
          [⟨c.nextTokenByte, a, some (a.call c.calls)⟩]
        | none => []
      | .discover ep _ _ =>
        [⟨c.nextTokenByte, { server := ep, path := Uri.wellKnownCore, method := Code.get }, none⟩]
      | .handler _ => []) = [x] → c.issues (.call call sendOk) = ([x] : List Issue) := by
    intro x htrue heq
    exact (if_pos ⟨happ, htrue⟩).trans heq
  have heq := c.call_eq sendOk call
  -- by the shape of the call; a refused one issues nothing
  cases hs : call.shape with
  | issue a =>
    rw [hs] at heq hissues
    dsimp only at heq hissues
    rcases issue_cases c a sendOk (shape_blockwise hs) with ⟨-, c', hr, hissue⟩ |
      ⟨-, i, s, buf, -, hdatagram, hnew, hissue⟩
    · rw [heq, hissue]
      exact issues_silent hr.narrows rfl _
    · obtain ⟨hasks, hslots⟩ := issued_asks hplain hdatagram hnew
      rw [hissues _ (by rw [heq, hissue]) rfl, heq, hissue]
      refine ⟨fun dest data hmem => ?_, fun j _ => (hslots j).imp_right fun h =>
        ⟨_, List.mem_singleton_self _, h⟩⟩
      rcases List.mem_cons.1 hmem with hmem | hmem
      · cases hmem
        exact hasks
      · cases List.mem_singleton.1 hmem
  | cancel server path =>
    rw [hs] at heq hissues
    dsimp only at heq hissues
    cases hfind : c.findObserve server path with
    | none =>
      rw [hfind] at heq
      rw [heq]
      exact issues_silent (.refl c) rfl _
    -- the slot of the subscription is free again when the deregister request is issued
    | some k =>
      rw [hfind] at heq hissues
      dsimp only at heq hissues
      rcases (c.release k).issue_cases (deregisterArgs server path (c.slots k).pending) sendOk
        (by simp [deregister_blockwise]) with ⟨-, c', hr, hissue⟩ |
          ⟨-, i, s, buf, -, hdatagram, hnew, hissue⟩
      · rw [heq, hissue]
        exact issues_silent ((narrows_release c k).trans hr.narrows) rfl _
      · obtain ⟨hasks, hslots⟩ := issued_asks hplain hdatagram hnew
        rw [hissues _ (by rw [heq, hissue]) rfl, heq, hissue]
        refine ⟨fun dest data hmem => ?_, fun j hj => ?_⟩
        · rcases List.mem_cons.1 hmem with hmem | hmem
          · cases hmem
            exact hasks
          · cases List.mem_singleton.1 hmem
        · rcases hslots j with hsame | hreg
          · refine .inl (hsame.trans ((narrows_release c k).slots j ?_))
            rw [← hsame]
            exact hj
          · exact .inr ⟨_, List.mem_singleton_self _, hreg⟩
  | discover ep onDiscover userContext =>
    rw [hs] at heq hissues
    dsimp only at heq hissues
    rcases discover_cases c ep onDiscover userContext sendOk with ⟨token, id, hdisc, -⟩ |
      ⟨i, buf, -, hdatagram, hdisc⟩
    · rw [heq, hdisc]
      refine issues_silent ?_ rfl _
      exact narrows_of_eq rfl rfl rfl rfl
    · -- a discovery takes a slot of its own table
      rw [hissues _ (by rw [heq, hdisc]) rfl, heq, hdisc]
      refine ⟨fun dest data hmem => ?_, fun j _ => .inl rfl⟩
      cases List.mem_singleton.1 hmem
      intro msg hdec _
      exact ⟨_, List.mem_singleton_self _, transmit_asked
        (a := { server := ep, path := Uri.wellKnownCore, method := Code.get }) hdatagram none hdec⟩
  | handler onTimeout =>
    rw [hs] at heq
    rw [heq]
    refine issues_silent ?_ rfl _
    exact narrows_of_eq rfl rfl rfl rfl

end Client

end PulseCoap
