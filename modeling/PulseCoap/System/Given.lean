import PulseCoap.Exchange.Client
import PulseCoap.System.Notified
import PulseCoap.System.Solicited

/-!
# PulseCoAP — what the server sends is what it was given

The application gives the server a payload in three ways: a handler returns, it
answers a deferred request, it notifies. The server keeps it in datagrams that
wait for an ACK, sends these again, and has other datagrams of its own. This is
about all of them, in a build without block-wise transfer.

What was given to the server and what it has refused are histories, and they
only grow; a datagram that is sent again out of the pool is justified by what
was given when it was first sent. `Inv` says of each place in which the server
keeps something for a peer (an observer, a deferred slot, the request in the
handler, the pool) that a handler was called with a request of this peer under
this token. A build in which a reply may lack an option, for want of room in the
table, is left out by a condition: two options are enough.

* `Given`, `given` — what a step is given, with the peer and the token it is for.
* `Refusal`, `refused` — the request a step refuses.
* `Relays` — what a datagram can be: it decodes, and is an empty ACK, refuses one
  of these requests, or says one of these things.
* `inline_relays`, `notify_relays`, `respond_relays` — the three ways.
* `Answering` — a server and all it was given.
* `answers_as_given` — over whole runs, and a handler was called before.
-/

namespace PulseCoap

/-- Something for a peer under a token of its, and the Content-Format it is read with. -/
structure Given where
  remote        : Endpoint
  token         : Bytes
  code          : Code
  payload       : Bytes
  contentFormat : ContentFormat
deriving DecidableEq, Repr

/-- The message is this, for this peer. -/
structure Given.ReadAs (g : Given) (dest : Endpoint) (msg : Message) : Prop where
  remote        : g.remote = dest
  token         : g.token = msg.token
  code          : g.code = msg.code
  payload       : g.payload = msg.payloadBytes
  contentFormat : g.contentFormat = Client.responseFormat msg

/-- A request of a peer that the server calls no handler for. -/
structure Refusal where
  remote  : Endpoint
  request : Message
deriving DecidableEq, Repr

namespace Server

open Client (responseFormat formatOf)

variable {cfg : Config} {s : Server cfg}

-- ===========================================================================
-- What a step is given
-- ===========================================================================

/-- A response; beside an empty payload there is no Content-Format. -/
def responseGiven (remote : Endpoint) (token : Bytes) (code : Code) (payload : Bytes)
    (contentFormat : ContentFormat) : Given where
  remote := remote
  token := token
  code := code
  payload := payload
  contentFormat := formatOf payload contentFormat

/-- The result of the server's own handler, when this datagram asks for it. -/
def ownGiven (s : Server cfg) (sender : Endpoint) (data : Bytes) : List Given :=
  match Message.decode cfg data with
  | (.none, msg) =>
    match s.admitted msg with
    | some t =>
      if IsRequest msg ∧ t.resource.handler = .wellKnownCore then
        let res := s.wellKnownCoreHandler
        [responseGiven sender msg.token res.code res.payload res.contentFormat]
      else []
    | none => []
  | _ => []

/-- What a handler gives, what a deferred request is answered with, and a notification for each
observer of the resource. -/
def given (s : Server cfg) : Action → List Given
  | .handlerReturns res =>
    match s.control with
    | .handling h =>
      if res.deferred ∧ h.deferIdx.isSome then []
      else [responseGiven h.sender h.msg.token res.code res.payload res.contentFormat]
    | .idle => []
  | .poll nowMs (some (sender, data)) =>
    match s.control with
    | .idle => (s.scanned nowMs).ownGiven sender data
    | .handling _ => []
  | .poll _ none => []
  | .call (.respond handle code payload contentFormat) =>
    (List.finRange _).filterMap fun i =>
      if handle.toNat = i.val ∧ (s.deferred i).active then
        some (responseGiven (s.deferred i).remote (s.deferred i).token code payload contentFormat)
      else none
  | .call (.notify path payload contentFormat _) =>
    match s.findTarget path with
    | some t =>
      (List.finRange _).filterMap fun i =>
        if (s.observers i).active ∧ (s.observers i).resourceIndex = UInt8.ofNat t.index then
          some { remote := (s.observers i).remote, token := (s.observers i).token
                 code := Code.content, payload, contentFormat }
        else none
    | none => []
  | .call _ => []

/-- The request of this datagram, when it is not admitted. -/
def ownRefused (s : Server cfg) (sender : Endpoint) (data : Bytes) : List Refusal :=
  match Message.decode cfg data with
  | (.none, msg) =>
    if IsRequest msg ∧ (s.admitted msg).isNone then [{ remote := sender, request := msg }] else []
  | _ => []

/-- The request that a poll refuses. -/
def refused (s : Server cfg) : Action → List Refusal
  | .poll nowMs (some (sender, data)) =>
    match s.control with
    | .idle => (s.scanned nowMs).ownRefused sender data
    | .handling _ => []
  | _ => []

/-- The message answers a request that was refused: for its peer, under its token, without a
payload. -/
structure Refusal.ReadAs (r : Refusal) (dest : Endpoint) (msg : Message) : Prop where
  remote  : r.remote = dest
  token   : r.request.token = msg.token
  code    : msg.code ∈ refusals
  payload : msg.payloadBytes = []

/-- What a datagram can be. It decodes, and the message is an empty ACK, refuses a request of the
peer, or says something given for the peer. -/
def Relays (cfg : Config) (given : List Given) (refused : List Refusal) (dest : Endpoint)
    (data : Bytes) : Prop :=
  ∃ msg, Message.decode cfg data = (.none, msg) ∧
    ((msg.type = .acknowledgement ∧ msg.code = Code.empty) ∨
      (∃ r ∈ refused, Refusal.ReadAs r dest msg) ∨ ∃ g ∈ given, Given.ReadAs g dest msg)

variable {given : List Given} {refused : List Refusal}

/-- What was given and refused before still counts. -/
theorem Relays.mono {given' : List Given} {refused' : List Refusal} (hgiven : given ⊆ given')
    (hrefused : refused ⊆ refused') {dest : Endpoint} {data : Bytes}
    (h : Relays cfg given refused dest data) : Relays cfg given' refused' dest data := by
  obtain ⟨msg, hdec, hack | ⟨r, hr, hread⟩ | ⟨g, hg, hread⟩⟩ := h
  · exact ⟨msg, hdec, .inl hack⟩
  · exact ⟨msg, hdec, .inr (.inl ⟨r, hrefused hr, hread⟩)⟩
  · exact ⟨msg, hdec, .inr (.inr ⟨g, hgiven hg, hread⟩)⟩

-- ===========================================================================
-- Messages
-- ===========================================================================

/-- The Content-Format a message is read with. -/
theorem responseFormat_carries {m : Message} {hd : ReplyHeader} {uints : List (UInt16 × UInt32)}
    {payload : Bytes} (h : Carries cfg m hd uints payload) :
    responseFormat (Message.decode cfg m.wire).2 =
      ((uints.take cfg.maxOptions).find? fun u => u.1 == OptionNumber.contentFormat).elim
        .textPlain fun u => ⟨u.2.toUInt16⟩ := by
  unfold Client.responseFormat
  rw [h.found]
  cases (uints.take cfg.maxOptions).find? fun u => u.1 == OptionNumber.contentFormat with
  | none => rfl
  | some u =>
    dsimp only [Option.map_some, Option.elim_some]
    rw [(Message.uintOption_entry u.1 u.2).value]

/-- A message with something given in it. -/
theorem Carries.relays {m : Message} {hd : ReplyHeader} {uints : List (UInt16 × UInt32)}
    {payload : Bytes} (h : Carries cfg m hd uints payload) {g : Given} (hg : g ∈ given)
    {dest : Endpoint} (hremote : g.remote = dest) (htoken : g.token = hd.token)
    (hcode : g.code = hd.code) (hpayload : g.payload = payload)
    (hformat : ((uints.take cfg.maxOptions).find? fun u => u.1 == OptionNumber.contentFormat).elim
      .textPlain (fun u => ⟨u.2.toUInt16⟩) = g.contentFormat) :
    Relays cfg given refused dest m.wire := by
  obtain ⟨reply, hdec, -, -, htok, hcod, -, hpay⟩ := h.decodes
  have hread := responseFormat_carries h
  rw [hdec] at hread
  exact ⟨reply, hdec, .inr (.inr ⟨g, hg, hremote, htoken.trans htok.symm, hcode.trans hcod.symm,
    hpayload.trans hpay.symm, hformat.symm.trans hread.symm⟩)⟩

/-- The format of a response behind an Observe option, or without one. -/
theorem contentUint_format (hroom : 2 ≤ cfg.maxOptions) (ov : Option UInt32) (payload : Bytes)
    (contentFormat : ContentFormat) :
    (((observeUint ov ++ contentUint payload contentFormat).take cfg.maxOptions).find? fun u =>
      u.1 == OptionNumber.contentFormat).elim .textPlain (fun u => ⟨u.2.toUInt16⟩) =
        formatOf payload contentFormat := by
  have hobserve : (OptionNumber.observe == OptionNumber.contentFormat) = false := by decide
  have hlength : (observeUint ov ++ contentUint payload contentFormat).length ≤ cfg.maxOptions := by
    refine Nat.le_trans ?_ hroom
    unfold observeUint contentUint
    cases ov <;> split <;> simp
  have hskip : (observeUint ov ++ contentUint payload contentFormat).find?
      (fun u => u.1 == OptionNumber.contentFormat) =
        (contentUint payload contentFormat).find? fun u => u.1 == OptionNumber.contentFormat := by
    cases ov with
    | none => rfl
    | some v => simp [observeUint, hobserve]
  rw [List.take_of_length_le hlength, hskip]
  unfold contentUint formatOf
  cases payload with
  | nil => rfl
  | cons b bs => simp

/-- The reply to a request. -/
theorem piggybacked_relays (hroom : 2 ≤ cfg.maxOptions) (s : Server cfg) {msg : Message}
    (ht : msg.token.length ≤ kMaxTokenLen) (dest : Endpoint) (code : Code) (payload : Bytes)
    (contentFormat : ContentFormat) (ov : Option UInt32)
    (hg : responseGiven dest msg.token code payload contentFormat ∈ given) :
    Sends (Relays cfg given refused)
      (s.sendPiggybackedResponse msg dest code payload contentFormat ov).2 := by
  have hm := s.carries_content code payload contentFormat ov ht
  obtain ⟨htoken, hcode⟩ := s.replyHeader_names msg code
  exact sends_encoded hm.built (hm.relays hg rfl htoken.symm hcode.symm rfl
    (contentUint_format hroom ov payload contentFormat))

/-- The error reply to a request that was refused. -/
theorem error_relays (s : Server cfg) {msg : Message} (ht : msg.token.length ≤ kMaxTokenLen)
    (dest : Endpoint) {code : Code} (hcode : code ∈ refusals)
    (hr : { remote := dest, request := msg } ∈ refused) :
    Sends (Relays cfg given refused) (s.sendError msg dest code).2 := by
  have hm := s.carries_content code [] .textPlain none ht
  obtain ⟨htoken, hcodes⟩ := s.replyHeader_names msg code
  obtain ⟨reply, hdec, -, -, htok, hcod, -, hpay⟩ := hm.decodes
  refine sends_encoded hm.built ⟨reply, hdec, .inr (.inl ⟨_, hr, rfl, ?_, ?_, hpay⟩)⟩
  · exact (htok.trans htoken).symm
  · rw [hcod, hcodes]
    exact hcode

/-- The empty ACK of a confirmable request that is answered later. -/
theorem emptyAck_relays (messageId : UInt16) (dest : Endpoint) :
    Sends (Relays cfg given refused) (sendEmptyAck cfg messageId dest) := by
  have hm := carries_emptyAck cfg messageId
  obtain ⟨reply, hdec, htype, -, -, hcod, -⟩ := hm.decodes
  exact sends_encoded hm.built ⟨reply, hdec, .inl ⟨htype, hcod⟩⟩

-- ===========================================================================
-- The application gives
-- ===========================================================================

/-- **A handler returns**: the reply has its result, or is an empty ACK. Without block-wise
transfer the payload is not cut. -/
theorem inline_relays (hplain : cfg.enableBlockwise = false) (hroom : 2 ≤ cfg.maxOptions)
    (s : Server cfg) {h : Handling cfg} (ht : h.msg.token.length ≤ kMaxTokenLen)
    (hsession : h.session = none) (res : Response)
    (hg : ¬ (res.deferred = true ∧ h.deferIdx.isSome = true) →
      responseGiven h.sender h.msg.token res.code res.payload res.contentFormat ∈ given) :
    Sends (Relays cfg given refused) (s.finish h res).2 := by
  unfold finish
  rw [hsession]
  dsimp only [freeBlock1Session?]
  by_cases hdef : res.deferred = true ∧ h.deferIdx.isSome = true
  · rw [if_pos hdef]
    dsimp only
    split
    · exact emptyAck_relays h.msg.messageId h.sender
    · exact sends_nil _
  · rw [if_neg hdef]
    unfold replyInline
    rw [if_neg fun hboth => by rw [hplain] at hboth; exact Bool.false_ne_true hboth.1]
    exact piggybacked_relays hroom _ ht h.sender res.code res.payload res.contentFormat
      h.observeValue (hg hdef)

/-- **A deferred request is answered**, with the token its slot has kept. For other handles
nothing is sent. -/
theorem respond_relays (hroom : 2 ≤ cfg.maxOptions) (hs : s.TokensFit) (handle : UInt8)
    (code : Code) (payload : Bytes) (contentFormat : ContentFormat)
    (hg : s.given (.call (.respond handle code payload contentFormat)) ⊆ given) :
    Sends (Relays cfg given refused) (s.respond handle code payload contentFormat).2.2 := by
  rcases s.respond_cases handle ⟨code, payload, contentFormat⟩ with ⟨heq, -⟩ |
    ⟨i, hi, hact, -, hnone | ⟨messageId, buf, henc, hsent⟩⟩
  · show Sends _ (s.respond handle code payload contentFormat).2.2
    rw [heq]
    exact sends_nil _
  · show Sends _ (s.respond handle code payload contentFormat).2.2
    rw [hnone]
    exact sends_nil _
  · show Sends _ (s.respond handle code payload contentFormat).2.2
    rw [hsent]
    intro dest data hmem
    cases List.mem_singleton.1 hmem
    have hm := carries_separateResponse cfg (s.deferred i) (hs.deferred i) messageId code payload
      contentFormat
    obtain ⟨-, rfl⟩ := (encoded_iff hm.built buf).1 henc
    refine hm.relays (hg (List.mem_filterMap.2 ⟨i, List.mem_finRange i, if_pos ⟨hi, hact⟩⟩)) rfl rfl
      rfl rfl ?_
    exact contentUint_format hroom none payload contentFormat

/-- **A notification**, for the observers of the resource: each has its own token and all have
the payload of the call. -/
theorem notify_relays (hroom : 2 ≤ cfg.maxOptions) (hs : s.TokensFit) (path payload : Bytes)
    (contentFormat : ContentFormat) (confirmable : Bool)
    (hg : s.given (.call (.notify path payload contentFormat confirmable)) ⊆ given) :
    Sends (Relays cfg given refused) (s.notify path payload contentFormat confirmable).2.2 := by
  intro dest data hmem
  cases hfind : s.findTarget path with
  | none =>
    simp only [notify, hfind] at hmem
    cases hmem
  | some t =>
    cases hobs : t.resource.observable with
    | false =>
      simp only [notify, hfind, hobs] at hmem
      cases hmem
    | true =>
      have hd : (dest, data) ∈ datagrams _ := List.mem_filterMap.2 ⟨_, hmem, rfl⟩
      rw [(Naming.notify_found hfind hobs payload contentFormat confirmable).2] at hd
      obtain ⟨n, hn, hpushed⟩ := List.mem_filterMap.1 hd
      obtain ⟨-, hact, hindex⟩ := mem_numbered.1 (List.mem_map_of_mem (f := Prod.fst) hn)
      obtain ⟨buf, henc, heq⟩ := Option.map_eq_some_iff.1 hpushed
      obtain ⟨rfl, rfl⟩ := Prod.mk.inj heq
      have hm := carries_notification cfg (s.observers n.1) (hs.observers n.1) n.2
        (t.resource.observeSequence + 1) payload contentFormat confirmable
      obtain ⟨-, rfl⟩ := (encoded_iff hm.built buf).1 henc
      have hgiven : ({ remote := (s.observers n.1).remote, token := (s.observers n.1).token
                       code := Code.content, payload, contentFormat } : Given) ∈ given := by
        refine hg ?_
        simp only [Server.given, hfind]
        exact List.mem_filterMap.2 ⟨n.1, List.mem_finRange n.1, if_pos ⟨hact, hindex⟩⟩
      refine hm.relays hgiven rfl rfl rfl rfl ?_
      rw [List.take_of_length_le (by exact hroom)]
      simp [show (OptionNumber.observe == OptionNumber.contentFormat) = false by decide]

-- ===========================================================================
-- A poll
-- ===========================================================================

/-- The request is refused, or a handler is called with it. -/
theorem handleRequest_plain (hplain : cfg.enableBlockwise = false) (s : Server cfg) (msg : Message)
    (sender : Endpoint) :
    (s.admitted msg = none ∧
        ∃ code ∈ refusals, s.handleRequest msg sender = s.sendError msg sender code) ∨
      ∃ t obs ov, s.admitted msg = some t ∧
        s.handleRequest msg sender = (s.withObservers obs).runHandler t msg sender ov none := by
  rcases s.handleRequest_cases msg sender with ⟨hnone, -⟩ | ⟨t, hadm, heq⟩
  · exact .inl ⟨hnone, s.handleRequest_refused sender hnone⟩
  · rcases s.handleTarget_cases t msg sender with ⟨-, obs, heq'⟩ | ⟨opt, hopt, -⟩
    · exact .inr ⟨t, obs, _, hadm, heq.trans heq'⟩
    · unfold block1Option at hopt
      rw [if_neg fun hboth => by rw [hplain] at hboth; exact Bool.false_ne_true hboth.1] at hopt
      cases hopt

/-- The request a handler is called with: this message of this peer. -/
structure RequestOf (sender : Endpoint) (msg : Message) (req : Request) : Prop where
  remote  : req.remote = sender
  message : req.message = msg
  method  : req.method = msg.code
  payload : req.payload = msg.payloadBytes

/-- A handler is called with this message of this peer. -/
def CallsFor (sender : Endpoint) (msg : Message) (r : Server cfg × List ServerEvent) : Prop :=
  (∃ req, askedBy r.2 = [req] ∧ RequestOf sender msg req) ∧
    ∀ hd, r.1.control = .handling hd → hd.sender = sender ∧ hd.msg = msg ∧ hd.session = none

/-- The handler is called once, with the request. -/
theorem runHandler_asked (s : Server cfg) (t : Target) (msg : Message) (sender : Endpoint)
    (ov : Option UInt32) :
    ∃ req, askedBy (s.runHandler t msg sender ov none).2 = [req] ∧ RequestOf sender msg req := by
  obtain ⟨-, req, rest, hevents, hmethod, hmsg, hremote, hbody, hsends⟩ :=
    s.runHandler_sessions t msg sender ov none
  refine ⟨req, ?_, hremote, hmsg, hmethod, ?_⟩
  · rw [hevents]
    show req :: askedBy rest = [req]
    rw [hsends.askedBy]
  · unfold Request.payload
    rw [hbody, hmsg]
    rfl

/-- **The handler of the request is called**, and if it is the server's own the reply has its
result. The control then stands at the handler, with the request in it. -/
theorem runHandler_relays (hplain : cfg.enableBlockwise = false) (hroom : 2 ≤ cfg.maxOptions)
    (s : Server cfg) (given : List Given) (refused : List Refusal) (hidle : s.control = .idle)
    (t : Target) {msg : Message} (ht : msg.token.length ≤ kMaxTokenLen) (sender : Endpoint)
    (ov : Option UInt32)
    (hown : t.resource.handler = .wellKnownCore → responseGiven sender msg.token
      s.wellKnownCoreHandler.code s.wellKnownCoreHandler.payload
      s.wellKnownCoreHandler.contentFormat ∈ given) :
    Sends (Relays cfg given refused) (s.runHandler t msg sender ov none).2 ∧
      CallsFor sender msg (s.runHandler t msg sender ov none) := by
  have hasked := s.runHandler_asked t msg sender ov
  rcases s.runHandler_cases t msg sender ov none with ⟨f, -, heq⟩ | ⟨hwell, heq⟩
  · refine ⟨?_, hasked, fun hd hctl => ?_⟩
    · rw [heq]
      exact sends_cons nofun (sends_nil _)
    · rw [heq] at hctl
      obtain rfl := ServerControl.handling.inj hctl
      exact ⟨rfl, rfl, rfl⟩
  · obtain ⟨d, hd⟩ := s.fillDeferred_spec s.allocateDeferred msg sender
    refine ⟨?_, hasked, fun hd' hctl => ?_⟩
    · rw [heq]
      refine sends_cons nofun (inline_relays hplain hroom _ ht rfl _ fun _ => ?_)
      have hsame : (s.fillDeferred s.allocateDeferred msg sender).wellKnownCoreHandler =
          s.wellKnownCoreHandler := by
        rw [hd]
        rfl
      rw [hsame]
      exact hown hwell
    · rw [heq] at hctl
      dsimp only at hctl
      rw [finish_control, hd] at hctl
      cases hidle.symm.trans hctl

/-- **A datagram**: what it is answered with, and who is called. A request that fails a check
calls nobody and is refused; the refusal is in `ownRefused`. -/
theorem receive_relays (hplain : cfg.enableBlockwise = false) (hroom : 2 ≤ cfg.maxOptions)
    {s : Server cfg} (hidle : s.control = .idle) (sender : Endpoint) (data : Bytes)
    (hg : s.ownGiven sender data ⊆ given) (hr : s.ownRefused sender data ⊆ refused) :
    Sends (Relays cfg given refused) (s.receive (some (sender, data))).2 ∧
      ∀ msg, Message.decode cfg data = (.none, msg) → IsRequest msg →
        msg.token.length ≤ kMaxTokenLen ∧
          ((s.admitted msg).isSome = true → CallsFor sender msg (s.receive (some (sender, data)))) ∧
          (s.admitted msg = none → (s.receive (some (sender, data))).1.control = .idle) := by
  -- the datagram is a request, or nothing is sent for it
  by_cases hreq : ∃ msg, Message.decode cfg data = (.none, msg) ∧ IsRequest msg
  · obtain ⟨msg, hdec, hreq⟩ := hreq
    have ht : msg.token.length ≤ kMaxTokenLen := Message.decode_token hdec
    rw [s.receive_request sender hdec hreq]
    have hall : Sends (Relays cfg given refused) (s.handleRequest msg sender).2 ∧
        ((s.admitted msg).isSome = true → CallsFor sender msg (s.handleRequest msg sender)) ∧
        (s.admitted msg = none → (s.handleRequest msg sender).1.control = .idle) := by
      rcases handleRequest_plain hplain s msg sender with ⟨hnone, code, hcode, heq⟩ |
        ⟨t, obs, ov, hadm, heq⟩
      · -- turned down: the server has this request among the refused ones
        rw [heq]
        have hmem : ({ remote := sender, request := msg } : Refusal) ∈ refused := hr (by
          unfold ownRefused
          rw [hdec]
          dsimp only
          rw [hnone, if_pos ⟨hreq, rfl⟩]
          exact List.mem_singleton_self _)
        refine ⟨error_relays s ht sender hcode hmem, fun hsome => ?_, fun _ => ?_⟩
        · rw [hnone] at hsome
          cases hsome
        · exact (s.justReplies_error msg sender code).control.trans hidle
      · rw [heq]
        obtain ⟨hrelays, hcalls⟩ := runHandler_relays hplain hroom
          (s.withObservers obs) given refused hidle t ht sender ov fun hwell => hg (by
            unfold ownGiven
            rw [hdec]
            dsimp only
            rw [hadm]
            dsimp only
            rw [if_pos ⟨hreq, hwell⟩]
            exact List.mem_singleton_self _)
        refine ⟨hrelays, fun _ => hcalls, fun hnone => ?_⟩
        rw [hadm] at hnone
        cases hnone
    -- the request is the message the datagram decodes to
    refine ⟨hall.1, fun msg' hdec' _ => ?_⟩
    obtain rfl : msg = msg' := congrArg Prod.snd (hdec.symm.trans hdec')
    exact ⟨ht, hall.2⟩
  · rw [(s.receive_silent sender fun msg hdec hmsg => hreq ⟨msg, hdec, hmsg⟩).1]
    exact ⟨sends_nil _, fun msg hdec hmsg => absurd ⟨msg, hdec, hmsg⟩ hreq⟩

end Server

-- ===========================================================================
-- Runs
-- ===========================================================================

/-- A server, all it was given and all it has refused. -/
structure Answering (cfg : Config) where
  server  : Server cfg := {}
  given   : List Given := []
  refused : List Refusal := []

namespace Answering

open Server (Relays Sends askedBy CallsFor)

variable {cfg : Config} {hist : List ServerEvent} {w : Answering cfg}

def next (w : Answering cfg) (a : Server.Action) : Answering cfg × List ServerEvent :=
  ({ server := (w.server.step a).1, given := w.given ++ w.server.given a,
     refused := w.refused ++ w.server.refused a }, (w.server.step a).2)

def machine (cfg : Config) : Machine (Answering cfg) Server.Action ServerEvent where
  init := {}
  next := next

/-- What the datagrams can be, by all that was given and refused so far. -/
abbrev Allows (w : Answering cfg) : Endpoint → Bytes → Prop := Relays cfg w.given w.refused

/-- A handler was called with a request of this peer under this token. -/
def Called (hist : List ServerEvent) (remote : Endpoint) (token : Bytes) : Prop :=
  ∃ req ∈ askedBy hist, req.remote = remote ∧ req.message.token = token

theorem askedBy_append (ev ev' : List ServerEvent) : askedBy (ev ++ ev') = askedBy ev ++ askedBy ev' :=
  List.filterMap_append

/-- What was called stays called. -/
theorem Called.before {remote : Endpoint} {token : Bytes} (h : Called hist remote token)
    (events : List ServerEvent) : Called (hist ++ events) remote token := by
  obtain ⟨req, hreq, hfor⟩ := h
  exact ⟨req, by rw [askedBy_append]; exact List.mem_append_left _ hreq, hfor⟩

/-- What a step calls is called from then on. -/
theorem Called.now {remote : Endpoint} {token : Bytes} {events : List ServerEvent}
    (h : Called events remote token) (hist : List ServerEvent) :
    Called (hist ++ events) remote token := by
  obtain ⟨req, hreq, hfor⟩ := h
  exact ⟨req, by rw [askedBy_append]; exact List.mem_append_right _ hreq, hfor⟩

/-- A request whose handler is called counts. -/
theorem called_of_calls {sender : Endpoint} {msg : Message} {r : Server cfg × List ServerEvent}
    (h : CallsFor sender msg r) : Called r.2 sender msg.token := by
  obtain ⟨⟨req, hasked, hreq⟩, -⟩ := h
  exact ⟨req, by rw [hasked]; exact List.mem_singleton_self _, hreq.remote, by rw [hreq.message]⟩

/-- Whatever the server keeps for a peer, a handler was called with a request of it. -/
structure Inv (hist : List ServerEvent) (w : Answering cfg) : Prop where
  tokens    : w.server.TokensFit
  pool      : w.server.PoolSatisfies w.Allows
  running   : ∀ h, w.server.control = .handling h →
    h.msg.token.length ≤ kMaxTokenLen ∧ h.session = none ∧ Called hist h.sender h.msg.token
  deferred  : ∀ i, (w.server.deferred i).active = true →
    Called hist (w.server.deferred i).remote (w.server.deferred i).token
  observers : ∀ remote token, w.server.HasEntry remote token → Called hist remote token
  given     : ∀ g ∈ w.given, Called hist g.remote g.token

/-- What a step adds. -/
structure Adds (hist : List ServerEvent) (w : Answering cfg) (a : Server.Action) : Prop where
  sends   : Sends (w.next a).1.Allows (w.next a).2
  pool    : (w.next a).1.server.PoolSatisfies (w.next a).1.Allows
  running : ∀ h, (w.next a).1.server.control = .handling h → h.msg.token.length ≤ kMaxTokenLen ∧
    h.session = none ∧ Called (hist ++ (w.next a).2) h.sender h.msg.token
  given   : ∀ g ∈ w.server.given a, Called (hist ++ (w.next a).2) g.remote g.token
  entries : ∀ remote msg, Server.Naming.registration w.server a = some (remote, msg) →
    Called (hist ++ (w.next a).2) remote msg.token

/-- What was given before the step allows the datagrams of the pool. -/
theorem Inv.grown (inv : Inv hist w) (a : Server.Action) :
    w.server.PoolSatisfies (w.next a).1.Allows := fun i ha =>
  (inv.pool i ha).mono (List.subset_append_left ..) (List.subset_append_left ..)

/-- The slots for deferred requests: a step fills one for a request whose handler it calls. -/
theorem Inv.slots (inv : Inv hist w) (a : Server.Action) (i : Fin cfg.maxDeferred)
    (hi : ((w.next a).1.server.deferred i).active = true) :
    Called (hist ++ (w.next a).2) ((w.next a).1.server.deferred i).remote
      ((w.next a).1.server.deferred i).token := by
  have hsame : (w.next a).1.server.deferred i = w.server.deferred i →
      Called (hist ++ (w.next a).2) ((w.next a).1.server.deferred i).remote
        ((w.next a).1.server.deferred i).token := by
    intro heq
    rw [heq] at hi ⊢
    exact (inv.deferred i hi).before _
  by_cases hrespond : ∃ handle code payload cf, a = .call (.respond handle code payload cf)
  · -- `respond` only empties one
    obtain ⟨handle, code, payload, cf, rfl⟩ := hrespond
    have hstep : (w.next (.call (.respond handle code payload cf))).1.server.deferred =
        (w.server.respond handle code payload cf).1.deferred := rfl
    rcases w.server.respond_cases handle ⟨code, payload, cf⟩ with ⟨heq, -⟩ | ⟨j, -, -, hdef, -⟩
    · exact hsame (by rw [hstep, heq])
    · by_cases hij : i = j
      · subst hij
        rw [hstep, hdef, Table.set_self] at hi
        cases hi
      · exact hsame (by rw [hstep, hdef, Table.set_ne _ _ hij])
  · rcases Server.Deferral.step_defers w.server fun handle code payload cf heq =>
      hrespond ⟨handle, code, payload, cf, heq⟩ with hdefers | ⟨-, hkept⟩
    · -- a step that asks fills the slot of the request whose handler it calls
      cases hdefers with
      | quiet hkept _ => exact hsame (congrFun hkept i)
      | asks slot req _ _ hasked hfilled hothers =>
        by_cases hslot : slot = some i
        · have heq : (w.next a).1.server.deferred i = Server.slotFor req := hfilled i hslot hi
          rw [heq]
          refine Called.now ⟨req, ?_, rfl, rfl⟩ hist
          show req ∈ askedBy (w.server.step a).2
          rw [hasked]
          exact List.mem_singleton_self _
        · exact hsame (hothers i hslot)
    · exact hsame (hkept i hi)

/-- **One step** keeps the invariant when it only sends what it was given, or refuses. -/
theorem Adds.step {a : Server.Action} (h : Adds hist w a) (inv : Inv hist w) :
    Inv (hist ++ (w.next a).2) (w.next a).1 where
  tokens := inv.tokens.step a
  pool := h.pool
  running := h.running
  deferred := inv.slots a
  observers remote token hentry := by
    rcases Server.entry_step hentry with hold | ⟨msg, hreg, rfl⟩
    · exact (inv.observers remote token hold).before _
    · exact h.entries remote msg hreg
  given g hg := by
    rcases List.mem_append.1 hg with hold | hnew
    · exact (inv.given g hold).before _
    · exact h.given g hnew

/-- A call of the API. -/
theorem Inv.call (hroom : 2 ≤ cfg.maxOptions) (inv : Inv hist w) (call : Server.ServerCall) :
    Adds hist w (.call call) := by
  have hnew : w.server.given (.call call) ⊆ (w.next (.call call)).1.given :=
    List.subset_append_right ..
  have hsends : Sends (w.next (.call call)).1.Allows (w.server.call call).2.2 := by
    rcases w.server.call_cases call with ⟨rs, -, hnone⟩ |
      ⟨path, payload, contentFormat, confirmable, rfl⟩ | ⟨handle, code, payload, contentFormat, rfl⟩
    · rw [hnone]
      exact Server.sends_nil _
    · exact Server.notify_relays hroom inv.tokens path payload contentFormat confirmable hnew
    · exact Server.respond_relays hroom inv.tokens handle code payload contentFormat hnew
  refine ⟨Server.sends_append.2 ⟨hsends, Server.sends_cons nofun (Server.sends_nil _)⟩,
    (inv.grown (.call call)).call hsends, fun h hh => ?_, fun g hg => ?_, fun remote msg hreg => ?_⟩
  · -- a call leaves the request in the handler as it was
    obtain ⟨ht, hsession, hcalled⟩ :=
      inv.running h ((w.server.call_keeps call).control.symm.trans hh)
    exact ⟨ht, hsession, hcalled.before _⟩
  · -- to the peer of a deferred request, or to observers
    refine Called.before ?_ _
    cases call with
    | respond handle code payload contentFormat =>
      obtain ⟨i, -, hi⟩ := List.mem_filterMap.1 hg
      split at hi
      · next hact =>
        cases hi
        exact inv.deferred i hact.2
      · cases hi
    | notify path payload contentFormat confirmable =>
      cases hfind : w.server.findTarget path with
      | none =>
        simp only [Server.given, hfind] at hg
        cases hg
      | some t =>
        simp only [Server.given, hfind] at hg
        obtain ⟨i, -, hi⟩ := List.mem_filterMap.1 hg
        split at hi
        · next hact =>
          cases hi
          refine inv.observers _ _ ⟨i, ?_⟩
          unfold Server.observes
          simp [hact.1]
        · cases hi
    | begin | addResource | setResourceType => cases hg
  · cases hreg

/-- The handler returns. -/
theorem Inv.returns (hplain : cfg.enableBlockwise = false) (hroom : 2 ≤ cfg.maxOptions)
    (inv : Inv hist w) (res : Response) : Adds hist w (.handlerReturns res) := by
  cases hctl : w.server.control with
  -- no handler is running, so the return does nothing
  | idle =>
    have hstep := Server.step_returns_idle hctl res
    refine ⟨?_, ?_, fun h hh => ?_, fun g hg => ?_, fun remote msg hreg => by cases hreg⟩
    · show Sends _ (w.server.step (.handlerReturns res)).2
      rw [hstep]
      exact Server.sends_nil _
    · show (w.server.step (.handlerReturns res)).1.PoolSatisfies _
      rw [hstep]
      exact inv.grown (.handlerReturns res)
    · have hh : (w.server.step (.handlerReturns res)).1.control = .handling h := hh
      rw [hstep, hctl] at hh
      cases hh
    · unfold Server.given at hg
      rw [hctl] at hg
      cases hg
  | handling h =>
    obtain ⟨ht, hsession, hcalled⟩ := inv.running h hctl
    have hstep := Server.step_returns hctl res
    have hidle := Server.finish_control { w.server with control := .idle } h res
    have hgiven : w.server.given (.handlerReturns res) =
        if res.deferred = true ∧ h.deferIdx.isSome = true then []
        else [Server.responseGiven h.sender h.msg.token res.code res.payload res.contentFormat] := by
      unfold Server.given
      rw [hctl]
    refine ⟨?_, ?_, fun h' hh => ?_, fun g hg => ?_, fun remote msg hreg => by cases hreg⟩
    · show Sends _ (w.server.step (.handlerReturns res)).2
      rw [hstep]
      -- a deferred request gives nothing now; any other result is given for it
      refine Server.inline_relays hplain hroom _ ht hsession res fun hdef => ?_
      refine List.mem_append_right _ ?_
      rw [hgiven, if_neg hdef]
      exact List.mem_singleton_self _
    · show (w.server.step (.handlerReturns res)).1.PoolSatisfies _
      rw [hstep]
      exact Server.PoolSatisfies.finish (s := { w.server with control := .idle })
        (inv.grown (.handlerReturns res)) h res
    · have hh : (w.server.step (.handlerReturns res)).1.control = .handling h' := hh
      rw [hstep] at hh
      cases hidle.symm.trans hh
    · rw [hgiven] at hg
      split at hg
      · cases hg
      · rw [List.mem_singleton.1 hg]
        exact hcalled.before _

/-- A poll. -/
theorem Inv.poll (hplain : cfg.enableBlockwise = false) (hroom : 2 ≤ cfg.maxOptions)
    (inv : Inv hist w) (nowMs : UInt32) (rx : Option (Endpoint × Bytes)) :
    Adds hist w (.poll nowMs rx) := by
  cases hctl : w.server.control with
  -- a `poll` from inside the handler does nothing
  | handling h =>
    have hstep := Server.step_poll_busy hctl nowMs rx
    refine ⟨?_, ?_, fun h' hh => ?_, fun g hg => ?_, fun remote msg hreg => ?_⟩
    · show Sends _ (w.server.step (.poll nowMs rx)).2
      rw [hstep]
      exact Server.sends_nil _
    · show (w.server.step (.poll nowMs rx)).1.PoolSatisfies _
      rw [hstep]
      exact inv.grown (.poll nowMs rx)
    · have hh : (w.server.step (.poll nowMs rx)).1.control = .handling h' := hh
      rw [hstep] at hh
      obtain ⟨ht, hsession, hcalled⟩ := inv.running h' hh
      exact ⟨ht, hsession, hcalled.before _⟩
    · cases rx with
      | none => cases hg
      | some datagram =>
        unfold Server.given at hg
        rw [hctl] at hg
        cases hg
    · obtain ⟨_, _, _, _, hidle, -⟩ := Server.Naming.registration_some hreg
      cases hctl.symm.trans hidle
  | idle =>
    have hscan : (w.server.scanned nowMs).control = .idle :=
      (w.server.scanned_control nowMs).trans hctl
    obtain ⟨hpool, hticks⟩ := (inv.grown (.poll nowMs rx)).scanned nowMs
    have hstate := Server.step_poll_state hctl nowMs rx
    have hevents : (w.next (.poll nowMs rx)).2 =
        ({ w.server with lastNowMs := nowMs } : Server cfg).tick.2 ++
          ((w.server.scanned nowMs).receive rx).2 :=
      congrArg Prod.snd (Server.step_poll hctl nowMs rx)
    cases rx with
    -- without a datagram there is the scan only
    | none =>
      refine ⟨?_, ?_, fun h hh => ?_, fun g hg => ?_, fun remote msg hreg => ?_⟩
      · rw [hevents]
        exact Server.sends_append.2 ⟨hticks, Server.sends_nil _⟩
      · show (w.server.step (.poll nowMs none)).1.PoolSatisfies _
        rw [hstate]
        exact hpool.receive none
      · have hh : (w.server.step (.poll nowMs none)).1.control = .handling h := hh
        rw [hstate] at hh
        cases hscan.symm.trans hh
      · cases hg
      · cases hreg
    | some datagram =>
      obtain ⟨sender, data⟩ := datagram
      have hgiven : w.server.given (.poll nowMs (some (sender, data))) =
          (w.server.scanned nowMs).ownGiven sender data := by
        unfold Server.given
        rw [hctl]
      have hown : (w.server.scanned nowMs).ownGiven sender data ⊆
          (w.next (.poll nowMs (some (sender, data)))).1.given := by
        rw [← hgiven]
        exact List.subset_append_right ..
      have hrefused : (w.server.scanned nowMs).ownRefused sender data ⊆
          (w.next (.poll nowMs (some (sender, data)))).1.refused := by
        have heq : w.server.refused (.poll nowMs (some (sender, data))) =
            (w.server.scanned nowMs).ownRefused sender data := by
          unfold Server.refused
          rw [hctl]
        rw [← heq]
        exact List.subset_append_right ..
      obtain ⟨hrelays, hrequest⟩ := Server.receive_relays hplain hroom hscan sender data hown
        hrefused
      -- a request that is admitted is one whose handler is called
      have hcalled : ∀ msg, Message.decode cfg data = (.none, msg) → Server.IsRequest msg →
          ((w.server.scanned nowMs).admitted msg).isSome = true →
            Called (hist ++ (w.next (.poll nowMs (some (sender, data)))).2) sender msg.token := by
        intro msg hdec hreq hadm
        rw [hevents, ← List.append_assoc]
        exact (called_of_calls ((hrequest msg hdec hreq).2.1 hadm)).now _
      refine ⟨?_, ?_, fun h hh => ?_, fun g hg => ?_, fun remote msg hreg => ?_⟩
      · rw [hevents]
        exact Server.sends_append.2 ⟨hticks, hrelays⟩
      · show (w.server.step (.poll nowMs (some (sender, data)))).1.PoolSatisfies _
        rw [hstate]
        exact hpool.receive _
      · have hh : (w.server.step (.poll nowMs (some (sender, data)))).1.control = .handling h := hh
        rw [hstate] at hh
        -- the handler that runs now has been called by this datagram
        by_cases hreq : ∃ msg, Message.decode cfg data = (.none, msg) ∧ Server.IsRequest msg
        · obtain ⟨msg, hdec, hreq⟩ := hreq
          obtain ⟨ht, hcalls, hrefused⟩ := hrequest msg hdec hreq
          cases hadm : (w.server.scanned nowMs).admitted msg with
          | none => cases (hrefused hadm).symm.trans hh
          | some t =>
            have hsome : ((w.server.scanned nowMs).admitted msg).isSome = true := by rw [hadm]; rfl
            obtain ⟨rfl, rfl, hsession⟩ := (hcalls hsome).2 h hh
            exact ⟨ht, hsession, hcalled h.msg hdec hreq hsome⟩
        · have hsilent := ((w.server.scanned nowMs).receive_silent sender fun msg hdec hmsg =>
            hreq ⟨msg, hdec, hmsg⟩).2
          cases (hsilent.trans hscan).symm.trans hh
      · rw [hgiven] at hg
        unfold Server.ownGiven at hg
        split at hg
        · next msg hdec =>
          split at hg
          · next t hadm =>
            split at hg
            · next hreq =>
              rw [List.mem_singleton.1 hg]
              exact hcalled msg hdec hreq.1 (by rw [hadm]; rfl)
            · cases hg
          · cases hg
        · cases hg
      · obtain ⟨_, data', t, heq, -, hdec, hreq, hadm, -⟩ := Server.Naming.registration_some hreg
        cases heq
        exact hcalled msg hdec hreq (by rw [hadm]; rfl)

/-- **What any step adds** to the history is given by the application in that step, or refuses
what the step has read, or is sent again. -/
theorem Inv.adds (hplain : cfg.enableBlockwise = false) (hroom : 2 ≤ cfg.maxOptions)
    (inv : Inv hist w) (a : Server.Action) : Adds hist w a := by
  cases a with
  | call call => exact inv.call hroom call
  | poll nowMs rx => exact inv.poll hplain hroom nowMs rx
  | handlerReturns res => exact inv.returns hplain hroom res

theorem inv_init (cfg : Config) : Inv [] (machine cfg).init where
  tokens := ⟨fun _ => Nat.zero_le _, fun _ => Nat.zero_le _⟩
  pool i ha := nomatch ha
  running h hh := nomatch hh
  deferred i hi := nomatch hi
  observers := by
    rintro remote token ⟨i, hi⟩
    cases hi
  given g hg := nomatch hg

/-- **In every run** a handler was called for whatever the server keeps: for its observers, its
deferred requests and the transactions in its pool. -/
theorem inv_of_run (hplain : cfg.enableBlockwise = false) (hroom : 2 ≤ cfg.maxOptions)
    {P : Answering cfg → Server.Action → Prop} (r : (machine cfg).Run P hist w) : Inv hist w :=
  r.invariant (I := Inv) (inv_init cfg) fun _ inv _ => (inv.adds hplain hroom _).step inv

/-- **The server says what it was given.** In every run, whatever the application and the network
do: a datagram for a peer decodes, and is an empty ACK, or refuses a request the server has read from
this peer under this token, or has the code, the payload and the Content-Format that the application
has given for this peer and this token; and before that a handler was called with a request of the
peer under this token. With room for one option only, a notification has no Content-Format. -/
theorem answers_as_given (hplain : cfg.enableBlockwise = false) (hroom : 2 ≤ cfg.maxOptions)
    (r : (machine cfg).Run (fun _ _ => True) hist w) (a : Server.Action) :
    (∀ dest data, .sent dest data ∈ (w.next a).2 →
        Relays cfg (w.next a).1.given (w.next a).1.refused dest data) ∧
      ∀ g ∈ (w.next a).1.given, Called (hist ++ (w.next a).2) g.remote g.token := by
  have inv := inv_of_run hplain hroom r
  have hadds := inv.adds hplain hroom a
  exact ⟨hadds.sends, (hadds.step inv).given⟩

/-- A request that is deferred. -/
def deferring : List Server.Action :=
  [.call (.addResource (some [Uri.slash]) methodGet (some 0) none false),
    .poll 0 (some ({ port := 1 }, [0x41, 0x01, 0x00, 0x07, 0xA0])), .handlerReturns { deferred := true }]

def deferred : Answering .default := ((machine .default).exec [] {} deferring).2

/-- It is answered. -/
def answers : Server.Action := .call (.respond 0 Code.content [0x31] .textPlain)

theorem answers_as_given_deferred :
    (deferred.next answers).1.given.length = 1 ∧
      (∀ dest data, .sent dest data ∈ (deferred.next answers).2 →
        Relays .default (deferred.next answers).1.given (deferred.next answers).1.refused dest data) ∧
      ∀ g ∈ (deferred.next answers).1.given,
        Called (((machine .default).exec [] {} deferring).1 ++ (deferred.next answers).2)
          g.remote g.token :=
  ⟨by decide +kernel, answers_as_given rfl (by decide)
    (Machine.Run.start.exec (Machine.meets_of_forall (fun _ _ => trivial) _ _)) answers⟩

end Answering

end PulseCoap
