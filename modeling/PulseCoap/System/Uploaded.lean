import PulseCoap.Exchange.Upload
import PulseCoap.System.Cursors
import PulseCoap.System.Prompt

/-!
# PulseCoAP — an upload gets through

A `put` or `post` of more than one block, over a network that delivers. Each round
the server appends the block that is due and answers 2.31, and the client sends the
block behind it; with the last block the handler of the resource is called, once,
with the whole payload, and the handler of the call with its response. Other
requests and other uploads may be in progress meanwhile.

The state before each block is `Due`, and it has the parties at the same block: the
request for it is on the network, the server's session has the blocks before it, and
the client's slot is at its number. A round is then computed, first the server's
poll and then the client's. The induction of `rounds` is on a number of blocks that
is enough for the rest of the payload. What the other slots and sessions hold is a
variable of `Due`, so that the rounds leave it as it was by definition.

* `Feasible` — what an upload must be.
* `Due` — the parties before a block, and what is left of them as it was.
* `more_round`, `last_round` — one block, and `rounds` — all of them.
* `uploaded` — from the call to its end.
* `Able` — what the call needs of the two parties.
* `Fits`, `Answers` — what it needs of the payload and of the response.
-/

namespace PulseCoap

namespace Uploading

open Client (BlockFits Brings moreAfter transmit buildBlock1)
open Server (Collecting collected Offers)
open TransactionPool (Awaiting)

variable {cfg : Config} {link : Link}

-- ===========================================================================
-- The upload
-- ===========================================================================

/-- What an upload must be to get through. -/
structure Feasible (cfg : Config) (up : Block1UploadState) (segs : List Bytes) : Prop where
  named  : Uri.NormalForm up.path segs
  short  : up.path.length < cfg.maxUriPathLen
  fits   : BlockFits cfg segs up.szx
  szx    : up.szx.toNat < 8
  method : up.method = Code.put ∨ up.method = Code.post
  body   : up.fullPayload.length ≤ cfg.block1MaxBody
  count  : up.fullPayload.length ≤ 2 ^ 20 * blockSize up.szx
  active : up.active = true
  waits  : up.waitingForContinue = true

/-- The bytes before block `num`. -/
def before (up : Block1UploadState) (num : UInt32) : Bytes :=
  up.fullPayload.take (num.toNat * blockSize up.szx)

variable {up : Block1UploadState} {segs : List Bytes} {num : UInt32}

/-- The number of a block that is there has twenty bits. -/
theorem Feasible.num_lt (hf : Feasible cfg up segs) (hhas : up.Has num.toNat) :
    num.toNat < 2 ^ 20 := by
  by_contra hge
  have hmul := Nat.mul_le_mul_right (blockSize up.szx) (Nat.le_of_not_lt hge)
  have hcount := hf.count
  unfold Block1UploadState.Has at hhas
  omega

/-- Before the next block are the bytes of this one too. -/
theorem before_next (hnum : num.toNat < 2 ^ 20) :
    before up num ++ (up.at' num).piece = before up (num + 1) := by
  unfold before Block1UploadState.piece Block1UploadState.at'
  rw [System.toNat_next hnum, Nat.succ_mul, List.take_add, Slices.slice_eq]

/-- There is a block behind this one. -/
theorem moreAfter_iff (hnum : num.toNat < 2 ^ 20) :
    moreAfter (up.at' num) = true ↔ up.Has (num + 1).toNat := by
  unfold moreAfter
  rw [decide_eq_true_iff]
  show blockSize up.szx < up.fullPayload.length - num.toNat * blockSize up.szx ↔
    (num + 1).toNat * blockSize up.szx < up.fullPayload.length
  rw [System.toNat_next hnum, Nat.succ_mul]
  omega

/-- After the last block it is everything. -/
theorem before_last (hnum : num.toNat < 2 ^ 20) (hlast : moreAfter (up.at' num) = false) :
    before up (num + 1) = up.fullPayload := by
  refine List.take_of_length_le (Nat.le_of_not_lt fun hlt => ?_)
  rw [(moreAfter_iff hnum).2 hlt] at hlast
  cases hlast

/-- The upload is feasible from any of its blocks on. -/
theorem Feasible.at' (hf : Feasible cfg up segs) (num : UInt32) : Feasible cfg (up.at' num) segs :=
  ⟨hf.named, hf.short, hf.fits, hf.szx, hf.method, hf.body, hf.count, hf.active, hf.waits⟩

-- ===========================================================================
-- The server
-- ===========================================================================

variable {t : Table cfg.maxBlock1Sessions Block1Session} {nowMs : UInt32}

/-- The server has this block too. -/
def stored (s : Server cfg) (t : Table cfg.maxBlock1Sessions Block1Session)
    (i : Fin cfg.maxBlock1Sessions) (nowMs : UInt32) (sender : Endpoint)
    (up : Block1UploadState) (num : UInt32) : Server cfg :=
  ({ s with lastNowMs := nowMs } : Server cfg).withSessions
    (t.set i (collected sender [up.token] num (before up num)))

/-- **A poll that reads the block that is due** has the session take it, and calls the handler
if it is the last one. -/
theorem step_block {s : Server cfg} (hidle : s.control = .idle) (hdue : s.NoneDue nowMs)
    (hb : cfg.enableBlockwise = true) (hf : Feasible cfg up segs)
    (hoffers : s.Offers up.path [up.method]) {sender : Endpoint}
    (hcollect : Collecting t sender [up.token] num (before up num) s) (hhas : up.Has num.toNat)
    {data : Bytes} {msg : Message} (hdec : Message.decode cfg data = (.none, msg))
    (hbrings : Brings cfg (up.at' num) msg) :
    ∃ i tg, (t i).active = false ∧ tg.resource.handler ≠ .wellKnownCore ∧
      s.step (.poll nowMs (some (sender, data))) =
        let s' := stored s t i nowMs sender up (num + 1)
        if moreAfter (up.at' num) then s'.sendContinue msg sender num false up.szx
        else s'.runHandler tg msg sender none (some i) := by
  have hnum := hf.num_lt hhas
  have htoken : msg.token = [up.token] := hbrings.token
  have hcode : msg.code = up.method := hbrings.code
  obtain ⟨opt, hfound, hopt⟩ := hbrings.option
  obtain ⟨tg, hadm, happ, hmethod⟩ := Offers.admitted (s := { s with lastNowMs := nowMs }) hoffers
    (by rw [hcode]; exact List.mem_singleton_self _) hbrings.path
  have hreq : Server.IsRequest msg := by
    refine ⟨?_, ?_, hmethod⟩
    all_goals rw [hbrings.type]; decide
  have hblock : Server.block1Option cfg msg = some opt := by
    unfold Server.block1Option
    rw [if_pos ⟨hb, by rw [hcode]; exact hf.method⟩, hfound]
  -- the blocks so far and this one make the blocks up to the next
  have hpiece : before up num ++ msg.payloadBytes = before up (num + 1) := by
    rw [hbrings.payload]
    exact before_next hnum
  have hroom : (before up num).length + msg.payloadBytes.length ≤ cfg.block1MaxBody := by
    rw [← List.length_append, hpiece]
    exact Nat.le_trans (List.length_take_le' ..) hf.body
  have hcollect' : Collecting t sender msg.token num (before up num)
      ({ s with lastNowMs := nowMs } : Server cfg) := by
    rw [htoken]
    exact ⟨hcollect.fresh, hcollect.sessions⟩
  -- the session of the upload takes the block
  obtain ⟨i, hfree, hhandle⟩ := hcollect'.handleBlock1 hopt rfl hroom tg
  rw [htoken, hpiece] at hhandle
  refine ⟨i, tg, hfree, happ, ?_⟩
  rw [Server.step_poll hidle, Server.poll_quiet hdue, Server.receive_request _ sender hdec hreq]
  -- the request passes the checks and goes to the Block1 branch
  rcases ({ s with lastNowMs := nowMs } : Server cfg).handleRequest_cases msg sender with
    ⟨hnone, -⟩ | ⟨t', had', heq⟩
  · rw [hadm] at hnone
    cases hnone
  · obtain rfl : tg = t' := Option.some.inj (hadm.symm.trans had')
    rw [heq]
    rcases ({ s with lastNowMs := nowMs } : Server cfg).handleTarget_cases tg msg sender with
      ⟨hnone, -⟩ | ⟨opt', hsome, heq'⟩
    · rw [hblock] at hnone
      cases hnone
    · obtain rfl : opt = opt' := Option.some.inj (hblock.symm.trans hsome)
      rw [heq', hhandle]
      rfl

/-- **The 2.31** for a block goes out and comes back as an ACK under the token of the upload. -/
theorem continue_arrives (s : Server cfg) {request : Message}
    (hcon : request.type = .confirmable) (htoken : request.token.length ≤ 1)
    (hsize : 12 ≤ cfg.maxMsgSize) (dest : Endpoint) (num : UInt32) (m : Bool) (szx : UInt8) :
    ∃ reply answer, s.sendContinue request dest num m szx = (s, [.sent dest reply]) ∧
      Message.decode cfg reply = (.none, answer) ∧ answer.type = .acknowledgement ∧
      answer.token = request.token ∧ answer.code = Code.«continue» := by
  have hcarries := s.carries_continue (BlockOption.toOptionValue num m szx)
    (Nat.le_trans htoken (by decide : 1 ≤ kMaxTokenLen))
  have hfits : Server.replySize cfg request.token.length
      [(OptionNumber.block1, BlockOption.toOptionValue num m szx)] ([] : Bytes).length ≤
        cfg.maxMsgSize := by
    have hv := Message.uintBytes_length (BlockOption.toOptionValue num m szx)
    have htake := Server.uintsSize_take
      [(OptionNumber.block1, BlockOption.toOptionValue num m szx)] 0 cfg.maxOptions
    have hone : Server.uintsSize 0 [(OptionNumber.block1, BlockOption.toOptionValue num m szx)] =
        1 + 1 + (Message.uintBytes (BlockOption.toOptionValue num m szx)).length + 0 := rfl
    unfold Server.replySize
    rw [List.length_nil, if_pos rfl]
    omega
  obtain ⟨hsent, answer, hdec, htype, htok, hcode, -⟩ := s.reply_arrives hcarries dest hfits
  rw [if_pos hcon] at htype
  refine ⟨_, answer, ?_, hdec, htype, htok, hcode⟩
  unfold Server.sendContinue
  dsimp only
  rw [hsent]
  unfold Server.reply
  rw [if_pos hcon]

-- ===========================================================================
-- The rounds
-- ===========================================================================

/-- What is polled has been sent, and nothing is late. -/
def Prompt (link : Link) (nowMs : UInt32) (res : Response) (sys : System cfg) (a : System.Action) :
    Prop :=
  System.Carried link sys a ∧ System.InTime nowMs res a

instance (link : Link) (nowMs : UInt32) (res : Response) (sys : System cfg) (a : System.Action) :
    Decidable (Prompt link nowMs res sys a) :=
  inferInstanceAs (Decidable (_ ∧ _))

variable {slots : Table cfg.maxTransactions ClientSlot} {i : Fin cfg.maxTransactions}
  {p : PendingRequest} {sys : System cfg}

/-- Slot `i` of the client is at block `num`, which has been sent, and so is the server; `slots` and
`t` are the other slots and the other sessions. -/
structure Due (link : Link) (slots : Table cfg.maxTransactions ClientSlot)
    (i : Fin cfg.maxTransactions) (p : PendingRequest) (up : Block1UploadState)
    (t : Table cfg.maxBlock1Sessions Block1Session) (nowMs : UInt32) (num : UInt32)
    (sys : System cfg) : Prop where
  client     : sys.client.control = .idle
  quiet      : sys.client.NoneDue nowMs
  others     : ∀ j, j ≠ i → sys.client.slots j = slots j
  pending    : (sys.client.slots i).pending = p
  upload     : (sys.client.slots i).upload = up.at' num
  found      : sys.client.findPendingByToken [up.token] = some i
  lone       : sys.client.findDiscover [up.token] = none
  has        : up.Has num.toNat
  sent       : ∃ data ∈ sys.toServer, ∃ msg,
    Message.decode cfg data = (.none, msg) ∧ Brings cfg (up.at' num) msg
  server     : sys.server.control = .idle
  calm       : sys.server.NoneDue nowMs
  offers     : Offers sys.server up.path [up.method]
  collecting : Collecting t link.client [up.token] num (before up num) sys.server

/-- A poll of the client reads what the server has sent. -/
theorem poll_path (start sys : System cfg) (res : Response) {data : Bytes} (hdata : data ∈ sys.toClient)
    {ev : List ClientEvent} {c' : Client cfg}
    (hturn : (Client.machine cfg).exec [] sys.client
      (Client.wholePoll cfg nowMs (link.server, data)) = (ev, c')) :
    (System.machine link start).Path (Prompt link nowMs res) sys (ev.map .client)
      { sys with client := c', toServer := sys.toServer ++ System.clientData link.server ev } := by
  refine System.poll_path link start (fun sys' hsame => ?_) (fun _ _ => ?_) hturn
  · exact ⟨⟨rfl, by rw [hsame]; exact hdata⟩, rfl, rfl⟩
  · exact ⟨trivial, rfl⟩

/-- **A round with more to come**: the server takes the block and the client sends the next one.
No handler is called. -/
theorem more_round (start : System cfg) (fit : Pool.TimersFit cfg)
    (hb : cfg.enableBlockwise = true) (hf : Feasible cfg up segs) (hserver : up.server = link.server)
    (h : Due link slots i p up t nowMs num sys) (hmore : moreAfter (up.at' num) = true)
    (res : Response) :
    ∃ ev sys', (System.machine link start).Path (Prompt link nowMs res) sys ev sys' ∧
      System.calls ev = [] ∧ Due link slots i p up t nowMs (num + 1) sys' := by
  have hnum := hf.num_lt h.has
  have hnext : up.Has (num + 1).toNat := (moreAfter_iff hnum).1 hmore
  -- the server's half
  obtain ⟨data, hdata, msg, hdec, hbrings⟩ := h.sent
  obtain ⟨k, tg, hfree, -, hstep⟩ :=
    step_block h.server h.calm hb hf h.offers h.collecting h.has hdec hbrings
  rw [if_pos hmore] at hstep
  obtain ⟨reply, answer, hreply, hadec, htype, htok, hcode⟩ :=
    continue_arrives (stored sys.server t k nowMs link.client up (num + 1)) hbrings.type
      (by rw [hbrings.token]; exact Nat.le_refl _) (by have := hf.fits.2; omega) link.client num
      false up.szx
  rw [hreply] at hstep
  have hone : System.serverData link.client [.sent link.client reply] = [reply] := by
    simp [System.serverData]
  have hpoll : Prompt link nowMs res sys (.server (.poll nowMs (some (link.client, data)))) :=
    ⟨fun _ => hdata, rfl, rfl⟩
  have hpath₁ := System.server_path link start hpoll hstep
  rw [hone] at hpath₁
  -- the client's half
  have htoken : answer.token = [up.token] := htok.trans hbrings.token
  have hresp : Client.IsResponse answer := by
    refine Client.isResponse_class ?_ ?_
    · rw [htype]
      decide
    · rw [hcode]
      decide
  obtain ⟨buf, msg', hbuf, hdec', hbrings'⟩ := Client.block1_brings (hf.at' (num + 1)).named
    hf.short hf.fits (hf.num_lt hnext) hf.szx sys.client.nextMessageId
  have hdatagram : sys.client.block1Datagram ((sys.client.slots i).upload.at'
      ((sys.client.slots i).upload.nextNum + 1)) true = some buf := by
    rw [h.upload]
    unfold Client.block1Datagram
    rw [if_neg (by exact Nat.not_le.2 hnext)]
    exact hbuf
  have hturn : (Client.machine cfg).exec [] sys.client
      (Client.wholePoll cfg nowMs (link.server, reply)) = _ :=
    Client.turn_continue fit h.client hadec hresp (by rw [htoken]; exact h.lone)
      (by rw [htoken]; exact h.found) hb hcode (by rw [h.upload]; exact hf.active) hdatagram h.quiet
  have hack : Client.ackEvents cfg link.server answer true = [] := by
    unfold Client.ackEvents
    rw [if_neg (by rw [htype]; decide)]
  have hto : (sys.client.slots i).upload.server = link.server := by
    rw [h.upload]
    exact hserver
  rw [hack, List.nil_append, hto] at hturn
  generalize hc' : (((sys.client.heard nowMs link.server answer).handleContinue i).block1Sent i
    buf).settled = c' at hturn
  -- the slot of the upload is at the next block, and no other slot is touched
  have hslots : c'.slots = sys.client.slots.set i
      { sys.client.slots i with upload := up.at' (num + 1) } := by
    have hslot : ((sys.client.heard nowMs link.server answer).handleContinue i).slots i =
        { sys.client.slots i with upload := { up.at' (num + 1) with waitingForContinue := false } } := by
      refine (Table.set_self _ _ _).trans ?_
      show { sys.client.slots i with upload := { (sys.client.slots i).upload with
        nextNum := (sys.client.slots i).upload.nextNum + 1, waitingForContinue := false } } = _
      rw [h.upload]
      rfl
    have hwaits : ({ up.at' (num + 1) with waitingForContinue := true } : Block1UploadState) =
        up.at' (num + 1) := by
      rw [show true = (up.at' (num + 1)).waitingForContinue from hf.waits.symm]
    rw [← hc']
    show ((sys.client.heard nowMs link.server answer).handleContinue i).slots.set i _ = _
    rw [hslot]
    dsimp only
    rw [hwaits]
    exact Table.set_set ..
  have hsent : System.clientData link.server [.sent link.server buf] = [buf] := by
    simp [System.clientData]
  have hpath₂ := poll_path start { sys with
    server := stored sys.server t k nowMs link.client up (num + 1)
    toClient := sys.toClient ++ [reply] } res (List.mem_append_right _
      (List.mem_singleton_self _)) hturn
  rw [hsent] at hpath₂
  -- the parties before the next block: a line for each field of `Due`
  refine ⟨_, _, hpath₁.trans hpath₂, by rfl, ?_⟩
  have hslot : c'.slots i = { sys.client.slots i with upload := up.at' (num + 1) } := by
    rw [hslots]
    exact Table.set_self _ _ _
  constructor
  · rw [← hc']
    rfl
  · rw [← hc']
    refine TransactionPool.noneDue_start fit ?_ _ _ _ _ _
    exact Client.noneDue_heard h.quiet link.server answer
  · intro j hj
    show c'.slots j = slots j
    rw [hslots, Table.set_ne _ _ hj]
    exact h.others j hj
  · show (c'.slots i).pending = p
    rw [hslot]
    exact h.pending
  · show (c'.slots i).upload = _
    rw [hslot]
  · show c'.slots.find? _ = some i
    rw [hslots]
    exact Table.find?_set_self h.found (Table.find?_spec h.found)
  · rw [← hc']
    exact Client.findDiscover_settled h.lone
  · exact hnext
  · exact ⟨buf, List.mem_append_right _ (List.mem_singleton_self _), msg', hdec', hbrings'⟩
  · exact h.server
  · exact h.calm
  · exact h.offers.congr rfl
  · exact h.collecting.append hfree rfl

/-- The handler of the resource has been called once, with the whole payload, the handler of the
call with its response, and nothing is left of the upload. -/
structure Done (link : Link) (slots : Table cfg.maxTransactions ClientSlot)
    (i : Fin cfg.maxTransactions) (p : PendingRequest) (up : Block1UploadState)
    (t : Table cfg.maxBlock1Sessions Block1Session) (handler : Ref) (res : Response)
    (ev : List System.Event) (sys : System cfg) : Prop where
  calls    : ∃ index f req ctx, System.calls ev = [.server (.handled index f req ctx),
      .client (.response p.call handler
        { code := res.code, payload := res.payload
          contentFormat := Client.formatOf res.payload res.contentFormat } p.userContext)] ∧
    req.method = up.method ∧ req.remote = link.client ∧ req.payload = up.fullPayload
  closed   : (sys.client.slots i).pending.active = false
  others   : ∀ j, j ≠ i → sys.client.slots j = slots j
  sessions : ∀ j, (sys.server.block1sessions j).active = true → sys.server.block1sessions j = t j

/-- What the server makes of the response to an upload. -/
theorem finish_upload (s : Server cfg) {h : Handling cfg} {res : Response}
    {k : Fin cfg.maxBlock1Sessions} (hsession : h.session = some k) (hinline : res.deferred = false) :
    s.finish h res = ((s.freeBlock1Session k).freeDeferred? h.deferIdx).sendPiggybackedResponse
      h.msg h.sender res.code res.payload res.contentFormat h.observeValue := by
  unfold Server.finish
  rw [hsession, hinline]
  dsimp only
  rw [if_neg (fun hboth => Bool.false_ne_true hboth.1)]
  rfl

/-- The response that can be sent. -/
structure Answers (cfg : Config) (res : Response) : Prop where
  inline : res.deferred = false
  code   : codeClass res.code ≠ 0 ∧ res.code ≠ Code.«continue»
  room   : res.payload ≠ [] → 0 < cfg.maxOptions
  fits   : Server.replySize cfg 1 (Server.contentUint res.payload res.contentFormat)
    res.payload.length ≤ cfg.maxMsgSize

/-- **The last round**: the handler is called with the whole payload, and its reply ends the
upload. -/
theorem last_round (start : System cfg) (hb : cfg.enableBlockwise = true)
    (hf : Feasible cfg up segs) (hobs : p.observing = false) {handler : Ref}
    (hhandler : p.onResponse = some handler)
    (h : Due link slots i p up t nowMs num sys) (hlast : moreAfter (up.at' num) = false)
    {res : Response} (ha : Answers cfg res) :
    ∃ ev sys', (System.machine link start).Path (Prompt link nowMs res) sys ev sys' ∧
      Done link slots i p up t handler res ev sys' := by
  have hnum := hf.num_lt h.has
  -- the server has the body, and calls the handler
  obtain ⟨data, hdata, msg, hdec, hbrings⟩ := h.sent
  obtain ⟨k, tg, hfree, happ, hstep⟩ :=
    step_block h.server h.calm hb hf h.offers h.collecting h.has hdec hbrings
  rw [if_neg (by rw [hlast]; exact Bool.false_ne_true)] at hstep
  generalize hs₁ : stored sys.server t k nowMs link.client up (num + 1) = s₁ at hstep
  -- the body the handler is given is the whole payload
  have hbody : (s₁.block1sessions k).buffer = up.fullPayload := by
    rw [← hs₁, ← before_last hnum hlast]
    show ((t.set k _) k).buffer = _
    rw [Table.set_self]
    rfl
  rcases s₁.runHandler_cases tg msg link.client none (some k) with ⟨f, -, hrun⟩ | ⟨hown, -⟩
  swap
  · exact absurd hown happ
  rw [hrun] at hstep
  obtain ⟨deferred, hfill⟩ := s₁.fillDeferred_spec s₁.allocateDeferred msg link.client
  have hpoll : Prompt link nowMs res sys (.server (.poll nowMs (some (link.client, data)))) :=
    ⟨fun _ => hdata, rfl, rfl⟩
  have hpath₁ := System.server_path link start hpoll hstep
  have hquiet : System.serverData link.client
      [s₁.handlerCall tg msg link.client (some k)] = [] := rfl
  rw [hquiet, List.append_nil] at hpath₁
  -- it returns
  generalize hh : s₁.handlingFor msg link.client none (some k) = hd at hpath₁
  generalize hs₂ : { s₁.fillDeferred s₁.allocateDeferred msg link.client with
    control := .handling hd } = s₂ at hpath₁
  have hreturns : s₂.step (.handlerReturns res) =
      (((({ s₂ with control := .idle } : Server cfg).freeBlock1Session k).freeDeferred?
        hd.deferIdx).sendPiggybackedResponse msg link.client res.code res.payload
          res.contentFormat none) := by
    rw [Server.step_returns (h := hd) (by rw [← hs₂]), finish_upload _ (k := k) (by rw [← hh]; rfl)
      ha.inline, ← hh]
    rfl
  generalize hs₃ : ((({ s₂ with control := .idle } : Server cfg).freeBlock1Session k).freeDeferred?
    hd.deferIdx) = s₃ at hreturns
  have htlen : msg.token.length = 1 := by
    rw [hbrings.token]
    rfl
  have hcarries := s₃.carries_content res.code res.payload res.contentFormat none
    (by rw [htlen]; decide : msg.token.length ≤ kMaxTokenLen)
  generalize hm : Server.addContent cfg (Server.addObserve cfg (s₃.reply msg res.code).2 none)
    res.payload res.contentFormat = m at hcarries
  obtain ⟨hsent, answer, hadec, htype, htok, hcode, hpayload⟩ := s₃.reply_arrives hcarries
    link.client (by rw [htlen]; exact ha.fits)
  rw [if_pos hbrings.type] at htype
  have hreply : s₂.step (.handlerReturns res) = ((s₃.reply msg res.code).1, [.sent link.client m.wire]) := by
    rw [hreturns, Server.sendPiggybackedResponse, hm, hsent]
  have hhandled : Prompt link nowMs res { sys with server := s₂ } (.server (.handlerReturns res)) :=
    ⟨trivial, rfl⟩
  have hpath₂ := System.server_path link start hhandled hreply
  have hone : System.serverData link.client [.sent link.client m.wire] = [m.wire] := by
    simp [System.serverData]
  rw [hone] at hpath₂
  -- the client gives the response to its handler
  have htoken : answer.token = [up.token] := htok.trans hbrings.token
  have hresp : Client.IsResponse answer := by
    refine Client.isResponse_class ?_ (by rw [hcode]; exact ha.code.1)
    rw [htype]
    decide
  have hwire : (Message.decode cfg m.wire).2 = answer := congrArg Prod.snd hadec
  -- the reply is not in blocks, so it ends the upload in its slot
  have h2 : Client.block2Of answer = none := by
    have hlacks : (Message.decode cfg m.wire).2.findOption OptionNumber.block2 = none := by
      refine hcarries.lacks fun u hu => ?_
      rw [show Server.observeUint none = [] from rfl, List.nil_append] at hu
      unfold Server.contentUint at hu
      split at hu
      · rw [List.mem_singleton.1 hu]
        exact (by decide : OptionNumber.contentFormat ≠ OptionNumber.block2)
      · cases hu
    rw [hwire] at hlacks
    rw [Client.block2Of, hlacks]
  have hback : (sys.client.slots i).pending.onResponse = some handler := by
    rw [h.pending]
    exact hhandler
  have hturn : (Client.machine cfg).exec [] sys.client
      (Client.wholePoll cfg nowMs (link.server, m.wire)) = _ :=
    Client.turn_plain h.client hadec hresp (by rw [htoken]; exact h.lone)
      (by rw [htoken]; exact h.found)
      (fun _ hboth => ha.code.2 (hcode.symm.trans hboth.1)) (fun _ => h2) hback h.quiet
  have hformat : Client.responseFormat answer = Client.formatOf res.payload res.contentFormat := by
    rw [← hwire]
    exact Client.responseFormat_reply hcarries ha.room
  have hpath₃ := poll_path start { sys with
    server := (s₃.reply msg res.code).1, toClient := sys.toClient ++ [m.wire] } res
      (List.mem_append_right _ (List.mem_singleton_self _)) hturn
  -- the handler of the resource, the slot, the other slots, and the sessions
  refine ⟨_, _, (hpath₁.trans hpath₂).trans hpath₃, ?_, ?_, ?_, ?_⟩
  · refine ⟨tg.index, tg.resource.handler, s₁.requestFor tg msg link.client (some k),
      tg.resource.userContext, ?_, ?_, rfl, ?_⟩
    · rw [List.map_append, System.calls_append, System.calls_append, System.calls_append,
        System.calls_ack, hcode, hpayload, hformat, h.pending]
      rfl
    · exact hbrings.code
    · exact hbody
  · show ((sys.client.slots.set i _) i).pending.active = false
    rw [Table.set_self, Client.answeredSlot, Client.closedSlot, if_neg (by
      show (sys.client.slots i).pending.observing ≠ true
      rw [h.pending, hobs]
      exact Bool.false_ne_true)]
  · intro j hj
    show (sys.client.slots.set i _) j = slots j
    rw [Table.set_ne _ _ hj]
    exact h.others j hj
  · intro j hact
    obtain ⟨id, hid⟩ := s₃.reply_state msg res.code
    have hsess : (s₃.reply msg res.code).1.block1sessions =
        t.set k { collected link.client [up.token] (num + 1) (before up (num + 1)) with
          active := false } := by
      have hkept : ∀ (s : Server cfg) (d : Option (Fin cfg.maxDeferred)),
          (s.freeDeferred? d).block1sessions = s.block1sessions := by
        intro s d
        cases d <;> rfl
      have hbefore : s₂.block1sessions = t.set k
          (collected link.client [up.token] (num + 1) (before up (num + 1))) := by
        rw [← hs₂, hfill, ← hs₁]
        rfl
      rw [hid, ← hs₃]
      show (Server.freeDeferred? _ hd.deferIdx).block1sessions = _
      rw [hkept]
      show s₂.block1sessions.set k { s₂.block1sessions k with active := false } = _
      rw [hbefore, Table.set_self, Table.set_set]
    dsimp only at hact ⊢
    rw [hsess] at hact ⊢
    by_cases hjk : j = k
    · rw [hjk, Table.set_self] at hact
      cases hact
    · exact Table.set_ne _ _ hjk

/-- **All the rounds that are left**, by induction on a bound for the blocks that are still to
come. -/
theorem rounds (start : System cfg) (fit : Pool.TimersFit cfg) (hb : cfg.enableBlockwise = true)
    (hf : Feasible cfg up segs) (hserver : up.server = link.server) (hobs : p.observing = false)
    {handler : Ref} (hhandler : p.onResponse = some handler) {res : Response}
    (ha : Answers cfg res) (n : Nat) : ∀ {num : UInt32} {sys : System cfg},
    Due link slots i p up t nowMs num sys →
      up.fullPayload.length ≤ (num.toNat + n) * blockSize up.szx →
        ∃ ev sys', (System.machine link start).Path (Prompt link nowMs res) sys ev sys' ∧
          Done link slots i p up t handler res ev sys' := by
  induction n with
  | zero =>
    intro num sys h hn
    exact absurd hn (Nat.not_le.2 h.has)
  | succ n ih =>
    intro num sys h hn
    cases hmore : moreAfter (up.at' num) with
    | false => exact last_round start hb hf hobs hhandler h hmore ha
    | true =>
      obtain ⟨ev, sys₁, hpath, hcalls, h₁⟩ := more_round start fit hb hf hserver h hmore res
      have hleft : up.fullPayload.length ≤ ((num + 1).toNat + n) * blockSize up.szx := by
        rw [System.toNat_next (hf.num_lt h.has), Nat.add_assoc, Nat.add_comm 1 n]
        exact hn
      obtain ⟨ev', sys', hpath', hdone⟩ := ih h₁ hleft
      refine ⟨ev ++ ev', sys', hpath.trans hpath', { hdone with calls := ?_ }⟩
      rw [System.calls_append, hcalls]
      exact hdone.calls

-- ===========================================================================
-- The call
-- ===========================================================================

/-- The upload of a call, and its entry in the table. -/
def uploadFor (cfg : Config) (a : Client.RequestArgs) (token : UInt8) : Block1UploadState where
  active := true
  fullPayload := a.payload
  nextNum := 0
  szx := cfg.blockSzx
  contentFormat := a.contentFormat
  method := a.method
  server := a.server
  path := a.path
  token := token
  waitingForContinue := true
def pendingFor (c : Client cfg) (a : Client.RequestArgs) : PendingRequest where
  active := true
  server := a.server
  token := [c.nextTokenByte]
  onResponse := a.onResponse
  userContext := a.userContext
  observing := false
  path := a.path
  call := a.call c.calls

/-- What a call that uploads needs of its path and its payload. -/
structure Fits (cfg : Config) (a : Client.RequestArgs) (segs : List Bytes) : Prop where
  blockwise : a.blockwise cfg = true
  named     : Uri.NormalForm a.path segs
  short     : a.path.length < cfg.maxUriPathLen
  fits      : BlockFits cfg segs cfg.blockSzx
  body      : a.payload.length ≤ cfg.block1MaxBody
  count     : a.payload.length ≤ 2 ^ 20 * blockSize cfg.blockSzx

/-- Both parties wait, the client has a slot and a token to spare, the server a session, and a
resource under this path. -/
structure Able (link : Link) (a : Client.RequestArgs) (nowMs : UInt32) (sys : System cfg) :
    Prop where
  client  : sys.client.control = .idle
  slot    : sys.client.freeSlot.isSome = true
  token   : sys.client.NextTokenUnused
  server  : sys.server.control = .idle
  calm    : sys.server.NoneDue nowMs
  offers  : Offers sys.server a.path [a.method]
  fresh   : sys.server.findBlock1Session link.client [sys.client.nextTokenByte] = none
  session : ∃ j, (sys.server.block1sessions j).active = false

/-- Only `put` and `post` upload. -/
theorem upload_method {call : Client.ClientCall} {a : Client.RequestArgs}
    (hshape : call.shape = .issue a) (hb : a.blockwise cfg = true) :
    a.method = Code.put ∨ a.method = Code.post := by
  have hlong : a.payload.length > blockSize cfg.blockSzx :=
    of_decide_eq_true (Bool.and_eq_true_iff.1 hb).2
  cases call <;> cases hshape
  case put => exact .inl rfl
  case post => exact .inr rfl
  case get | del | observe => exact absurd hlong (Nat.not_lt_zero _)

/-- What the call needs is what its upload needs. -/
theorem feasible_upload {call : Client.ClientCall} {a : Client.RequestArgs}
    (hshape : call.shape = .issue a) (hfits : Fits cfg a segs) (token : UInt8) :
    Feasible cfg (uploadFor cfg a token) segs where
  named := hfits.named
  short := hfits.short
  fits := hfits.fits
  szx := by
    have hle : cfg.blockSzx.toNat ≤ 6 := cfg.szx_le
    show cfg.blockSzx.toNat < 8
    omega
  method := upload_method hshape hfits.blockwise
  body := hfits.body
  count := hfits.count
  active := rfl
  waits := rfl

/-- **The call** is accepted, and block 0 is due: its datagram is on the network, and the server
has no session for it yet. -/
theorem started {sys : System cfg} {call : Client.ClientCall} {a : Client.RequestArgs}
    (hshape : call.shape = .issue a) (hfits : Fits cfg a segs) (hserver : a.server = link.server)
    (hable : Able link a nowMs sys) (hnow : (sys.client.call true call).1.NoneDue nowMs) :
    (sys.client.call true call).2.1 = true ∧ ∃ i, (sys.client.slots i).pending.active = false ∧
      Due link sys.client.slots i (pendingFor sys.client a) (uploadFor cfg a sys.client.nextTokenByte)
        sys.server.block1sessions nowMs 0 (sys.next link (.client (.call call true))).1 := by
  have hcall : sys.client.call true call = sys.client.startUpload a true := by
    rw [Client.call_eq, hshape]
    exact if_pos hfits.blockwise
  have hlong : a.payload.length > blockSize cfg.blockSzx :=
    of_decide_eq_true (Bool.and_eq_true_iff.1 hfits.blockwise).2
  have hf := feasible_upload hshape hfits sys.client.nextTokenByte
  have hhas : (uploadFor cfg a sys.client.nextTokenByte).Has (0 : UInt32).toNat := by
    show 0 * _ < a.payload.length
    rw [Nat.zero_mul]
    exact Nat.lt_of_le_of_lt (Nat.zero_le _) hlong
  obtain ⟨i, hi⟩ := Option.isSome_iff_exists.1 hable.slot
  -- the first block goes out
  obtain ⟨buf, msg, hbuf, hdec, hbrings⟩ := Client.block1_brings hf.named hf.short hf.fits
    (hf.num_lt hhas) hf.szx sys.client.nextMessageId
  have hdatagram : sys.client.uploadDatagram i a true = some buf := by
    have hsame : buildBlock1 cfg (Client.openSlot cfg (sys.client.slots i) a sys.client.nextTokenByte
        (a.call sys.client.calls)).upload sys.client.nextMessageId =
        buildBlock1 cfg (uploadFor cfg a sys.client.nextTokenByte) sys.client.nextMessageId := rfl
    unfold Client.uploadDatagram Client.block1Datagram
    rw [if_neg (Nat.not_le.2 hfits.short), if_neg (by exact Nat.not_le.2 hhas), hsame]
    exact hbuf
  have hfree : (sys.client.slots i).pending.active = false := Client.freeSlot_spec hi
  have hcontrol : sys.client.appHasControl = true := by
    unfold Client.appHasControl
    rw [hable.client]
  have hnext : sys.next link (.client (.call call true)) =
      ({ sys with
          client := (sys.client.call true call).1
          toServer := sys.toServer ++
            System.clientData link.server (sys.client.call true call).2.2 },
        (sys.client.call true call).2.2.map .client) := by
    unfold System.next Client.step
    dsimp only
    rw [if_pos hcontrol]
  rw [hnext]
  rw [hcall] at hnow ⊢
  rcases sys.client.startUpload_cases a true with ⟨hnone, -⟩ | ⟨j, id, hj, hnone, -⟩ |
    ⟨j, buf', hj, hbuf', heq⟩
  · rw [hi] at hnone
    cases hnone
  · obtain rfl : i = j := Option.some.inj (hi.symm.trans hj)
    rw [hdatagram] at hnone
    cases hnone
  obtain rfl : i = j := Option.some.inj (hi.symm.trans hj)
  obtain rfl : buf = buf' := Option.some.inj (hdatagram.symm.trans hbuf')
  rw [heq] at hnow ⊢
  have hslot : (sys.client.slots.set i (Client.startedSlot cfg (sys.client.slots i) a
      sys.client.nextTokenByte (a.call sys.client.calls))) i =
      Client.startedSlot cfg (sys.client.slots i) a sys.client.nextTokenByte
        (a.call sys.client.calls) := Table.set_self _ _ _
  refine ⟨rfl, i, hfree, ?_⟩
  constructor
  · exact hable.client
  · exact hnow
  · intro j hj
    exact Table.set_ne _ _ hj
  · dsimp only
    rw [hslot]
    rfl
  · dsimp only
    rw [hslot]
    rfl
  · -- nobody else has the token
    refine Table.find?_set_new ?_ ?_
    · refine Table.find?_eq_none.2 fun j => Bool.eq_false_iff.2 fun hj => ?_
      obtain ⟨hact, htok⟩ := Bool.and_eq_true_iff.1 hj
      exact hable.token.slots j hact (beq_iff_eq.1 htok)
    · exact Bool.and_eq_true_iff.2 ⟨rfl, beq_iff_eq.2 rfl⟩
  · refine Table.find?_eq_none.2 fun j => Bool.eq_false_iff.2 fun hj => ?_
    obtain ⟨hact, htok⟩ := Bool.and_eq_true_iff.1 hj
    exact hable.token.discovers j hact (beq_iff_eq.1 htok)
  · exact hhas
  · refine ⟨buf, List.mem_append_right _ (System.mem_clientData.2 ?_), msg, hdec, hbrings⟩
    rw [← hserver]
    exact List.mem_cons_self ..
  · exact hable.server
  · exact hable.calm
  · exact hable.offers
  · refine ⟨hable.fresh, .inl ⟨rfl, ?_, rfl, hable.session⟩⟩
    unfold before
    rw [show (0 : UInt32).toNat = 0 from rfl, Nat.zero_mul, List.take_zero]

/-- **An upload gets through.** The client makes a `put` or `post` of more than one block, whatever
else is in progress; its path, its body and its response fit the tables and the datagrams of the
build (`Fits`, `Answers`), and both parties have a place for it. Then the call is accepted, and there
are steps that bring the upload to its end: what has been sent is delivered, and what the
application's code is called for is one call of the handler of the resource, with the whole payload,
and one of the handler of the call, with the response. The slots of the other requests are as they
were, and so are all sessions that are still open. -/
theorem uploaded (fit : Pool.TimersFit cfg) {sys : System cfg} {call : Client.ClientCall}
    {a : Client.RequestArgs} (hshape : call.shape = .issue a) (hfits : Fits cfg a segs)
    (hserver : a.server = link.server) (hable : Able link a nowMs sys)
    (hnow : (sys.client.call true call).1.NoneDue nowMs) {handler : Ref}
    (hhandler : a.onResponse = some handler) {res : Response} (ha : Answers cfg res) :
    (sys.client.call true call).2.1 = true ∧ ∃ i ev sys',
      (sys.client.slots i).pending.active = false ∧
      (System.machine link sys).Path (Prompt link nowMs res)
        (sys.next link (.client (.call call true))).1 ev sys' ∧
      Done link sys.client.slots i (pendingFor sys.client a)
        (uploadFor cfg a sys.client.nextTokenByte) sys.server.block1sessions handler res ev sys' := by
  obtain ⟨hok, i, hfree, hdue⟩ := started hshape hfits hserver hable hnow
  refine ⟨hok, i, ?_⟩
  have hb : cfg.enableBlockwise = true := (Bool.and_eq_true_iff.1 hfits.blockwise).1
  have hf := feasible_upload hshape hfits sys.client.nextTokenByte
  have hsize : 0 < blockSize cfg.blockSzx := by
    show 0 < blockSize (uploadFor cfg a sys.client.nextTokenByte).szx
    rw [blockSize_eq hf.szx]
    exact Nat.two_pow_pos _
  obtain ⟨ev, sys', hpath, hdone⟩ := rounds sys fit hb hf hserver rfl hhandler ha a.payload.length
    hdue (by
      show a.payload.length ≤ (0 + a.payload.length) * blockSize cfg.blockSzx
      rw [Nat.zero_add]
      exact Nat.le_mul_of_pos_right _ hsize)
  exact ⟨ev, sys', hfree, hpath, hdone⟩

-- ===========================================================================
-- Two blocks
-- ===========================================================================

def noteLink : Link := { client := { port := 1 }, server := { port := 2 } }

/-- A PUT of 100 bytes to `/a`: a block of 64 and one of 36. -/
def noteArgs : Client.RequestArgs :=
  { server := noteLink.server, path := [0x2F, 0x61], method := Code.put
    payload := List.replicate 100 0x78, onResponse := some 0 }
def putNote : Client.ClientCall :=
  .put noteLink.server [0x2F, 0x61] (List.replicate 100 0x78) .textPlain (some 0) none true

/-- The server with this resource, and a client that has asked it for something else. -/
def noteSystem : System Config.blockwise where
  server := (({} : Server Config.blockwise).addResource (some [0x2F, 0x61]) methodPut (some (.app 3))
    none false).1
  client := (({} : Client Config.blockwise).call true
    (.get noteLink.server [0x2F, 0x62] (some 1) none true)).1

theorem uploaded_note :
    (noteSystem.client.call true putNote).2.1 = true ∧ ∃ i ev sys',
      (noteSystem.client.slots i).pending.active = false ∧
      (System.machine noteLink noteSystem).Path (Prompt noteLink 1 { code := Code.changed })
        (noteSystem.next noteLink (.client (.call putNote true))).1 ev sys' ∧
      Done noteLink noteSystem.client.slots i (pendingFor noteSystem.client noteArgs)
        (uploadFor Config.blockwise noteArgs noteSystem.client.nextTokenByte)
        noteSystem.server.block1sessions 0 { code := Code.changed } ev sys' := by
  have hshape : putNote.shape = .issue noteArgs := rfl
  have hfits : Fits Config.blockwise noteArgs [[0x61]] :=
    ⟨by decide +kernel, by decide, by decide, by decide +kernel, by decide +kernel, by decide +kernel⟩
  have hable : Able noteLink noteArgs 1 noteSystem :=
    ⟨by decide +kernel, by decide +kernel, by decide +kernel, by decide +kernel, by decide +kernel,
      by decide +kernel, by decide +kernel, by decide +kernel⟩
  have hanswers : Answers Config.blockwise { code := Code.changed } :=
    ⟨rfl, by decide, fun hne => absurd rfl hne, by decide +kernel⟩
  exact uploaded (by decide) hshape hfits rfl hable (by decide +kernel) rfl hanswers

end Uploading

end PulseCoap
