import PulseCoap.Exchange.Room
import PulseCoap.System.Fetched
import PulseCoap.System.Prompt

/-!
# PulseCoAP — one block more

What it takes for a response in blocks to get on by one of them: the request that
is due is on the network, its options have their place in a message, and so have
those of the reply. Then the server has just this block to send, and the client
asks for the next one.

The lemmas here do not speak of a run. They say what happens from a state in
which the parties are between two polls and nothing falls due, and what it takes
of the build: room for a Block2 option behind the path, and for the options and
the bytes of a block in the reply.

* `Requests` — a datagram that asks for one block, and `first_requests`,
  `next_requests` — the two that the client sends.
* `inline_due` — the reply has the block that was asked for.
* `served` — the server's part in it, as a path of the system.
* `Prompt` — the steps of the two parties in a turn of this kind.
-/

namespace PulseCoap

namespace Fetch

open Slices (slice more)
open Client (transmit buildBlock2 block2Of)
open Server (block2Requested block1Option Carries Offers)

variable {cfg : Config} {link : Link} {payload : Bytes} {asked : Nat}

-- ===========================================================================
-- The request
-- ===========================================================================

/-- The datagram asks for block `num` of a response, by one of these methods. -/
def Requests (cfg : Config) (path token : Bytes) (methods : List Code) (num : Nat)
    (data : Bytes) : Prop :=
  ∃ msg, Message.decode cfg data = (.none, msg) ∧
    (msg.type = .confirmable ∨ msg.type = .nonConfirmable) ∧ msg.code ∈ methods ∧
      msg.token = token ∧ Uri.joinUriPath msg cfg.maxUriPathLen = some path ∧
        (Server.numDue msg).toNat = num ∧ (num = 0 → block2Requested msg = none)

/-- The request of a call asks for the first block. -/
theorem first_requests {a : Client.RequestArgs} (ha : a.observe = none) {segs : List Bytes}
    (hpath : Uri.NormalForm a.path segs) (hshort : a.path.length < cfg.maxUriPathLen)
    {messageId : UInt16} {token : UInt8} {sendOk : Bool} {data : Bytes}
    (h : transmit cfg (a.request cfg messageId token) sendOk = some data) {methods : List Code}
    (hmethod : a.method ∈ methods) : Requests cfg a.path [token] methods 0 data := by
  obtain ⟨m, hm, henc⟩ := Client.transmit_some h
  unfold Client.RequestArgs.request at hm
  rw [ha] at hm
  have htype : (if a.confirmable then MessageType.confirmable else .nonConfirmable) =
      .confirmable ∨ (if a.confirmable then MessageType.confirmable else .nonConfirmable) =
      .nonConfirmable := by
    cases a.confirmable
    · exact .inr rfl
    · exact .inl rfl
  obtain ⟨hfor, -, -, htoken⟩ := Client.buildRequest_plain htype hpath hm
  rw [Client.encode_wire hfor.built henc]
  have hsame := Message.sameContent_decode hfor.built.toWellFormed
  have hopts := Message.sameOptions_decode hfor.built.toWellFormed
  obtain ⟨rest, hmopts, hrest⟩ := hfor.options
  -- it names no block
  have hnone : block2Requested (Message.decode cfg m.wire).2 = none := by
    have hlacks : (Message.decode cfg m.wire).2.findOption OptionNumber.block2 = none := by
      refine hopts.findOption_none fun o ho => ?_
      rw [hmopts] at ho
      rcases List.mem_append.1 ho with ho | ho
      · obtain ⟨seg, -, rfl⟩ := List.mem_map.1 ho
        exact (by decide : OptionNumber.uriPath ≠ OptionNumber.block2)
      · rw [hrest o ho]
        decide
    rw [block2Requested, hlacks]
  refine ⟨_, Message.decodes_wire hfor.built.toWellFormed, ?_, ?_, hsame.token.trans htoken, ?_, ?_,
    fun _ => hnone⟩
  · rw [hsame.type]
    exact hfor.type
  · rw [hsame.code, hfor.code]
    exact hmethod
  · rw [hopts.joinUriPath]
    refine Uri.joinUriPath_segments hpath hshort
      (fun o ho => Message.bytes_length (hfor.built.readable o ho)) hmopts fun o ho => ?_
    rw [hrest o ho]
    decide
  · rw [Server.numDue, hnone]
    rfl

/-- The request for a further block has room for its options, and for their bytes. -/
def NextFits (cfg : Config) (segs : List Bytes) : Prop :=
  segs.length < cfg.maxOptions ∧
    11 + Message.optionsSize 0 (segs.map Uri.segmentOption) ≤ cfg.maxMsgSize

instance (cfg : Config) (segs : List Bytes) : Decidable (NextFits cfg segs) :=
  inferInstanceAs (Decidable (_ ∧ _))

/-- **The request for the next block** goes out, and asks for it: there is room for the option
and the number has twenty bits. -/
theorem next_requests {recv : Block2RecvState} {segs : List Bytes}
    (hpath : Uri.NormalForm recv.path segs) (hshort : recv.path.length < cfg.maxUriPathLen)
    (hfits : NextFits cfg segs) (hpos : 0 < recv.nextNum.toNat)
    (hnum : recv.nextNum.toNat < 2 ^ 20) (hszx : recv.szx.toNat < 8) (token : UInt8)
    (messageId : UInt16) {methods : List Code} (hmethod : Code.get ∈ methods) :
    ∃ buf, transmit cfg (buildBlock2 cfg recv [token] messageId) true = some buf ∧
      Requests cfg recv.path [token] methods recv.nextNum.toNat buf := by
  obtain ⟨hroom, hsize⟩ := hfits
  obtain ⟨hok, hp⟩ := Uri.addressed hpath (Nat.le_of_lt hroom) .confirmable messageId token Code.get
  generalize hv : BlockOption.toOptionValue recv.nextNum false recv.szx = v
  generalize hreq : (Uri.addUriPathOptions cfg (opened .confirmable messageId [token] Code.get)
    recv.path).1 = p at hp
  -- the option finds room behind the path
  have hadds := Message.adds_room hp.built OptionNumber.block2
    (fun o ho => by
      rw [hp.number o ho]
      exact (by decide : OptionNumber.uriPath ≤ OptionNumber.block2))
    (by rw [hp.options, List.length_map]; exact hroom) v
  generalize hm : (p.addOptionUint cfg OptionNumber.block2 v).1 = m at hadds
  have hbuild : buildBlock2 cfg recv [token] messageId = some m := by
    have hunfold : buildBlock2 cfg recv [token] messageId =
        let r := Uri.addUriPathOptions cfg (opened .confirmable messageId [token] Code.get) recv.path
        if !r.2 then none else some (r.1.addOptionUint cfg OptionNumber.block2
          (BlockOption.toOptionValue recv.nextNum false recv.szx)).1 := rfl
    rw [hunfold]
    dsimp only
    rw [hok, hreq, hv, hm]
    rfl
  -- one option more than the path, and the room that `NextFits` keeps for it
  have hwire : m.wire.length ≤ cfg.maxMsgSize := by
    have hmore := hadds.size (by decide)
    rw [hp.size] at hmore
    rw [Message.wire_length hadds.built.toWellFormed]
    omega
  have hsame := Message.sameContent_decode hadds.built.toWellFormed
  have hsameOpts := Message.sameOptions_decode hadds.built.toWellFormed
  -- each field of the request, as the other end decodes it
  refine ⟨m.wire, ?_, _, Message.decodes_wire hadds.built.toWellFormed, .inl ?_, ?_, ?_, ?_, ?_,
    fun h0 => absurd h0 (Nat.ne_of_gt hpos)⟩
  · rw [hbuild, transmit, (Message.encode_spec hadds.built.toWellFormed cfg.maxMsgSize).1 hwire]
    rfl
  · rw [hsame.type]
    exact hadds.header.type.trans hp.type
  · rw [hsame.code, hadds.header.code, hp.code]
    exact hmethod
  · rw [hsame.token]
    exact hadds.header.token.trans hp.token
  · obtain ⟨o, hopts, hentry⟩ := hadds.option
    rw [hp.options] at hopts
    rw [hsameOpts.joinUriPath]
    refine Uri.joinUriPath_segments hpath hshort
      (fun o ho => Message.bytes_length (hadds.built.readable o ho)) hopts fun o' ho' => ?_
    rw [List.mem_singleton.1 ho', UInt16.toNat_inj.1 (congrArg Prod.fst hentry)]
    decide
  · -- what the other end finds
    obtain ⟨o, hfind, hentry⟩ := hadds.found fun o ho => by
      rw [hp.number o ho]
      decide
    unfold Server.numDue block2Requested
    rw [Message.findOption_decode hadds.built.toWellFormed, hfind]
    dsimp only [Option.map_some]
    rw [hentry, ← hv, BlockOption.fromOption_uint (Message.uintOption_entry _ _) hnum hszx]
    rfl

-- ===========================================================================
-- The reply
-- ===========================================================================

/-- The replies to a handler with this payload have room for their options and their bytes. -/
def ReplyFits (cfg : Config) (payload : Bytes) : Prop :=
  16 + (if cfg.enableBlockwise then min payload.length (size cfg) else payload.length) ≤
    cfg.maxMsgSize

instance (cfg : Config) (payload : Bytes) : Decidable (ReplyFits cfg payload) :=
  inferInstanceAs (Decidable (_ ≤ _))

/-- The message answers the request for block `num` with this code: with the whole payload, or
with the block that was asked for. -/
structure Answers (payload token : Bytes) (code : Code) (num : Nat) (msg : Message) : Prop where
  type  : msg.type = .acknowledgement ∨ msg.type = .nonConfirmable
  token : msg.token = token
  code  : msg.code = code
  whole : block2Of msg = none → msg.payloadBytes = payload
  block : ∀ b, block2Of msg = some b → b.num.toNat = num

/-- A reply that fits is sent, and answers. -/
theorem answers_carried (s : Server cfg) {request : Message} {code : Code} {m : Message}
    {uints : List (UInt16 × UInt32)} {body : Bytes}
    (hm : Carries cfg m (s.replyHeader request code) uints body) (dest : Endpoint)
    (hsize : Server.replySize cfg request.token.length uints body.length ≤ cfg.maxMsgSize)
    {num : Nat} (hwhole : block2Requested (Message.decode cfg m.wire).2 = none → body = payload)
    (hblock : ∀ b ∈ block2Requested (Message.decode cfg m.wire).2, b.num.toNat = num) :
    ∃ data answer, Server.sendIfEncoded cfg m dest = [.sent dest data] ∧
      Message.decode cfg data = (.none, answer) ∧
      Answers payload request.token code num answer := by
  obtain ⟨hsent, answer, hdec, htype, htoken, hcode, hpayload⟩ := s.reply_arrives hm dest hsize
  rw [congrArg Prod.snd hdec] at hwhole hblock
  refine ⟨m.wire, answer, hsent, hdec, ?_, htoken, hcode, fun hnone => ?_, hblock⟩
  · rw [htype]
    split
    · exact .inl rfl
    · exact .inr rfl
  · rw [hpayload]
    exact hwhole hnone

/-- **The reply that is due** to a request of the client: all of the payload, or the block that
was asked for, with its number and whether more follows. -/
theorem inline_due (hroom : cfg.enableBlockwise = true → 2 ≤ cfg.maxOptions) (s : Server cfg)
    {h : Handling cfg} (ht : h.msg.token.length ≤ 1) (hasks : Asks cfg asked h.msg)
    (hov : h.observeValue = none) {res : Response} (hfits : ReplyFits cfg res.payload)
    (hinside : Server.InBlocks cfg h.msg res.payload → Server.Inside cfg h.msg res.payload) :
    ∃ data answer, (s.replyInline h res).2 = [.sent h.sender data] ∧
      Message.decode cfg data = (.none, answer) ∧
      Answers res.payload h.msg.token res.code (Server.numDue h.msg).toNat answer := by
  have htoken : h.msg.token.length ≤ kMaxTokenLen := Nat.le_trans ht (by decide)
  obtain ⟨hszx, -, hsize⟩ := hasks.due
  -- in blocks or whole: the reply is the slice that was asked for, or all of it
  by_cases hblock : cfg.enableBlockwise = true ∧ Server.InBlocks cfg h.msg res.payload
  · obtain ⟨hen, hin⟩ := hblock
    have hins := hinside hin
    have hpay : 0 < res.payload.length := Nat.lt_of_le_of_lt (Nat.zero_le _) hins
    obtain ⟨m, hm, hsent⟩ := s.sendBlock2_carries h res htoken hins
      (more res.payload (Server.sizeDue cfg h.msg) (Server.numDue h.msg).toNat)
    rw [(s.replyInline_block h res hen hpay hin hins).1, hsent]
    have hopt := hm.block2 (Server.numDue_lt h.msg) (Server.szxDue_lt cfg h.msg)
    rw [hov, if_pos (by simpa [Server.observeUint] using hroom hen)] at hopt
    rw [hov] at hm
    refine answers_carried s hm h.sender ?_ (fun hnone => ?_) fun b hb => ?_
    · refine Nat.le_trans (Server.replySize_le ht _ _ (List.prefix_refl _) _) ?_
      have hlen : (slice res.payload (Server.sizeDue cfg h.msg) (Server.numDue h.msg).toNat).length ≤
          min res.payload.length (size cfg) := by
        rw [Slices.slice_eq, List.length_take, List.length_drop, hsize]
        omega
      unfold ReplyFits at hfits
      rw [if_pos hen] at hfits
      omega
    · rw [hopt] at hnone
      cases hnone
    · rw [hopt] at hb
      cases hb
      rfl
  · -- what is sent whole is no longer than a block, if there are blocks
    have hm := s.carries_content res.code res.payload res.contentFormat h.observeValue htoken
    rw [(s.replyInline_whole h res hblock).1]
    have hlacks := hm.lacks (Server.wholeUints_other h.observeValue)
    have hshort : 16 + res.payload.length ≤ cfg.maxMsgSize := by
      unfold ReplyFits at hfits
      by_cases hen : cfg.enableBlockwise = true
      · have hle : res.payload.length ≤ size cfg := by
          rw [← hsize]
          exact Nat.le_of_not_lt fun hlt => hblock ⟨hen, .inr hlt⟩
        rw [if_pos hen, Nat.min_eq_left hle] at hfits
        exact hfits
      · rwa [if_neg hen] at hfits
    refine answers_carried s hm h.sender ?_ (fun _ => rfl) fun b hb => ?_
    · refine Nat.le_trans (Server.replySize_le ht res.contentFormat.raw.toUInt32 0 ?_ _) hshort
      rw [hov]
      show Server.contentUint _ _ <+: _
      unfold Server.contentUint
      split
      · exact List.prefix_append [_] [_]
      · exact List.nil_prefix
    · rw [block2Requested, hlacks] at hb
      cases hb

-- ===========================================================================
-- The server
-- ===========================================================================

variable {s : Server cfg} {path token : Bytes} {methods : List Code} {num : Nat} {nowMs : UInt32}

/-- The request reaches the handler, and changes none of the tables. -/
theorem handled_request (hidle : s.control = .idle) (hdue : s.NoneDue nowMs)
    (hoffers : Offers s path methods) {data : Bytes} {msg : Message}
    (hdec : Message.decode cfg data = (.none, msg))
    (htype : msg.type = .confirmable ∨ msg.type = .nonConfirmable) (hcode : msg.code ∈ methods)
    (hjoin : Uri.joinUriPath msg cfg.maxUriPathLen = some path) (hasks : Asks cfg asked msg)
    (sender : Endpoint) :
    ∃ (s' : Server cfg) (hd : Handling cfg) (call : ServerEvent), s.step (.poll nowMs (some (sender, data))) =
        ({ s' with control := .handling hd }, [call]) ∧ (∀ dest buf, call ≠ .sent dest buf) ∧
      hd.msg = msg ∧ hd.sender = sender ∧ hd.observeValue = none ∧ hd.session = none ∧
      s'.resources = s.resources ∧ s'.txPool = s.txPool ∧
      ∀ t ∈ (s.scanned nowMs).admitted msg, t.resource.handler ≠ .wellKnownCore := by
  obtain ⟨t, hadm, happ, hmethod⟩ := Offers.admitted (s := { s with lastNowMs := nowMs }) hoffers
    hcode hjoin
  have hreq : Server.IsRequest msg := by
    refine ⟨?_, ?_, hmethod⟩
    all_goals rcases htype with h | h <;> rw [h] <;> decide
  -- a request for a block of a response is no upload and no registration
  have hblock : block1Option cfg msg = none := by
    unfold Server.block1Option
    rw [hasks.block1]
    split <;> rfl
  have hobserve : ({ s with lastNowMs := nowMs } : Server cfg).handleObserve t msg sender =
      ({ s with lastNowMs := nowMs }, none) := by
    unfold Server.handleObserve
    rw [hasks.observe]
  have hstep : s.step (.poll nowMs (some (sender, data))) =
      ({ s with lastNowMs := nowMs } : Server cfg).runHandler t msg sender none none := by
    rw [Server.step_poll hidle, Server.poll_quiet hdue, Server.receive_request _ sender hdec hreq]
    rcases ({ s with lastNowMs := nowMs } : Server cfg).handleRequest_cases msg sender with
      ⟨hnone, -⟩ | ⟨t', had', heq⟩
    · rw [hadm] at hnone
      cases hnone
    · obtain rfl : t = t' := Option.some.inj (hadm.symm.trans had')
      rw [heq]
      unfold Server.handleTarget
      rw [hblock, hobserve]
  -- the handler is the application's, so `poll` stops at its call
  rcases ({ s with lastNowMs := nowMs } : Server cfg).runHandler_cases t msg sender none none with
    ⟨f', -, heq⟩ | ⟨hown, -⟩
  · obtain ⟨d, hd⟩ := ({ s with lastNowMs := nowMs } : Server cfg).fillDeferred_spec
      ({ s with lastNowMs := nowMs } : Server cfg).allocateDeferred msg sender
    rw [hstep, heq]
    refine ⟨_, _, _, rfl, fun dest buf hsent => ?_, rfl, rfl, rfl, rfl, ?_, ?_, fun t' ht' => ?_⟩
    · cases hsent
    · rw [hd]
    · rw [hd]
    · have hscan : s.scanned nowMs = { s with lastNowMs := nowMs } :=
        congrArg Prod.fst (Server.tickFrom_quiet (List.finRange _) (show
          ({ s with lastNowMs := nowMs } : Server cfg).NoneDue nowMs from hdue))
      rw [hscan, hadm] at ht'
      cases ht'
      exact happ
  · exact absurd hown happ

/-- What both parties do to get on. -/
def Prompt (link : Link) (payload : Bytes) (nowMs : UInt32) (res : Response) (sys : System cfg)
    (a : System.Action) : Prop := Steps link payload sys a ∧ System.InTime nowMs res a

/-- **The server's turn**: the request is polled, its handler returns, and the reply is on the
network. The pool and the resources are as they were. -/
theorem served (start : System cfg) {sys : System cfg} (hidle : sys.server.control = .idle)
    (hdue : sys.server.NoneDue nowMs) (hoffers : Offers sys.server path methods)
    (hroom : cfg.enableBlockwise = true → 2 ≤ cfg.maxOptions) {res : Response}
    (hres : res.payload = payload) (hinline : res.deferred = false) (hfits : ReplyFits cfg payload)
    (htoken : token.length ≤ 1) {data : Bytes} (hsent : data ∈ sys.toServer)
    (hdata : Requests cfg path token methods num data) (hasks : AsksIn cfg asked data)
    (hinside : 0 < num → num * size cfg < payload.length) :
    ∃ ev sys' reply answer,
      (System.machine link start).Path (Prompt link payload nowMs res) sys ev sys' ∧
      sys'.client = sys.client ∧ sys'.toServer = sys.toServer ∧
      sys'.toClient = sys.toClient ++ [reply] ∧ sys'.server.control = .idle ∧
      sys'.server.resources = sys.server.resources ∧ sys'.server.txPool = sys.server.txPool ∧
      Message.decode cfg reply = (.none, answer) ∧ Answers payload token res.code num answer := by
  obtain ⟨msg, hdec, htype, hcode, htok, hjoin, hnum, hfirst⟩ := hdata
  have hask := hasks msg hdec
  obtain ⟨s', hd, call, hpoll, hcall, hmsg, hsender, hov, hsession, hresources, hpool, happ⟩ :=
    handled_request hidle hdue hoffers hdec htype hcode hjoin hask link.client
  -- the offset lies inside the payload, also for the first block of one that is asked for
  have hinside' : Server.InBlocks cfg hd.msg res.payload →
      Server.Inside cfg hd.msg res.payload := by
    intro hin
    unfold Server.Inside
    unfold Server.InBlocks at hin
    rw [hmsg, hask.due.2.2, hres] at hin ⊢
    rw [hnum]
    by_cases h0 : num = 0
    · rw [hfirst h0] at hin
      rw [h0, Nat.zero_mul]
      exact Nat.lt_of_le_of_lt (Nat.zero_le _) (hin.resolve_left Bool.false_ne_true)
    · exact hinside (Nat.pos_of_ne_zero h0)
  -- the handler has returned at once, and the reply goes out
  have hreturns : ({ s' with control := .handling hd } : Server cfg).step (.handlerReturns res) =
      (({ s' with control := .idle } : Server cfg).freeDeferred? hd.deferIdx).replyInline hd res := by
    rw [Server.step_returns rfl, finish_inline _ hsession hinline]
  have hkeeps := Server.keepsTables_finish ({ s' with control := .idle } : Server cfg) hd res
  have hctl := Server.finish_control ({ s' with control := .idle } : Server cfg) hd res
  rw [finish_inline _ hsession hinline] at hkeeps hctl
  obtain ⟨reply, answer, hreply, hdecode, hans⟩ := inline_due hroom
    (({ s' with control := .idle } : Server cfg).freeDeferred? hd.deferIdx)
    (by rw [hmsg, htok]; exact htoken) (by rw [hmsg]; exact hask) hov (by rw [hres]; exact hfits)
    hinside'
  rw [hmsg, htok, hnum, hres] at hans
  -- the two steps of the system
  have hquiet : System.serverData link.client [call] = [] := by
    refine List.eq_nil_iff_forall_not_mem.2 fun buf hbuf => ?_
    exact hcall link.client buf (List.mem_singleton.1 (System.mem_serverData.1 hbuf)).symm
  have hone : System.serverData link.client [.sent link.client reply] = [reply] := by
    simp [System.serverData]
  rw [hsender] at hreply
  have hsteps₁ : Prompt link payload nowMs res sys
      (.server (.poll nowMs (some (link.client, data)))) := by
    refine ⟨⟨fun _ => hsent, trivial, fun _ t ht hown => ?_⟩, rfl, rfl⟩
    rw [hdec] at ht
    exact absurd hown (happ t ht)
  have hpath₁ := System.server_path link start hsteps₁ hpoll
  rw [hquiet, List.append_nil] at hpath₁
  have hsteps₂ : Prompt link payload nowMs res
      { sys with server := { s' with control := .handling hd } } (.server (.handlerReturns res)) :=
    ⟨⟨trivial, trivial, fun _ _ _ => ⟨hres, hinline⟩⟩, rfl⟩
  have hsecond : ({ s' with control := .handling hd } : Server cfg).step (.handlerReturns res) =
      (((({ s' with control := .idle } : Server cfg).freeDeferred? hd.deferIdx).replyInline hd
        res).1, [.sent link.client reply]) := by
    rw [hreturns, ← hreply]
  have hpath₂ := System.server_path link start hsteps₂ hsecond
  rw [hone] at hpath₂
  refine ⟨_, _, reply, answer, hpath₁.trans hpath₂, rfl, rfl, rfl, hctl, ?_, ?_, hdecode, hans⟩
  · rw [← hresources]
    exact hkeeps.resources
  · rw [← hpool]
    exact hkeeps.txPool

end Fetch

end PulseCoap
