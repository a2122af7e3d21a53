import PulseCoap.Server.Slicing
import PulseCoap.System.ServerCursor
import PulseCoap.System.Solicited

/-!
# PulseCoAP — a response in blocks

A response that is longer than a block comes in several: the client asks for the
next one with a Block2 option, the server calls its handler again for each and
sends the slice that was asked for. The server keeps nothing between two blocks.
The client counts them, and takes the one it waits for.

This is the server's half, over a network that loses, delays, duplicates and
reorders: every datagram it ever sends the client has a slice of the payload,
one that the client has asked for by then, or the whole of it, or an error.

A request for a block names a number, and the reply depends on nothing but this
number and the payload of the handler; so all replies to one number are alike,
and a duplicate does no harm. `asked` bounds the numbers that the client has
asked for by now. It only grows, and what was sent under a smaller bound
satisfies the larger one.

* `Asks` — a request of the client, and `Bears` — a response to it.
* `Gives` — the handlers answer the client with one payload, at once.
* `inline_bears` — the reply to such a request.
* `ServerSide.step` — every step of the server.
* `ServerSide` — the server's part of the invariant, with its datagrams.
-/

namespace PulseCoap

namespace Fetch

open Slices (slice more)
open Server (Sends block2Requested block1Option Carries)

variable {cfg : Config} {link : Link} {payload : Bytes} {asked : Nat}

-- ===========================================================================
-- Requests and responses
-- ===========================================================================

/-- The bytes of a block in this build. -/
def size (cfg : Config) : Nat := 2 ^ (cfg.blockSzx.toNat + 4)

/-- A request for the response, or for a block of it up to number `asked`. -/
structure Asks (cfg : Config) (asked : Nat) (msg : Message) : Prop where
  observe : msg.findOption OptionNumber.observe = none
  block1  : msg.findOption OptionNumber.block1 = none
  block2  : ∀ b ∈ block2Requested msg, b.szx = cfg.blockSzx ∧ b.num.toNat ≤ asked

/-- A slice of the payload up to number `asked`, the whole of it, or an error. -/
structure Bears (cfg : Config) (payload : Bytes) (asked : Nat) (msg : Message) : Prop where
  whole : block2Requested msg = none → msg.payloadBytes = payload ∨
    4 ≤ codeClass msg.code ∧ msg.payloadBytes = []
  block : ∀ b ∈ block2Requested msg, b.szx = cfg.blockSzx ∧ b.num.toNat ≤ asked ∧
    b.num.toNat * size cfg < payload.length ∧
    msg.payloadBytes = slice payload (size cfg) b.num.toNat ∧
    b.m = more payload (size cfg) b.num.toNat
  off   : cfg.enableBlockwise = false → block2Requested msg = none

/-- What decodes from the datagram is one. -/
def AsksIn (cfg : Config) (asked : Nat) (data : Bytes) : Prop :=
  ∀ msg, Message.decode cfg data = (.none, msg) → Asks cfg asked msg
def BearsIn (cfg : Config) (payload : Bytes) (asked : Nat) (data : Bytes) : Prop :=
  ∀ msg, Message.decode cfg data = (.none, msg) → Bears cfg payload asked msg

theorem AsksIn.mono {asked' : Nat} (hle : asked ≤ asked') {data : Bytes}
    (h : AsksIn cfg asked data) : AsksIn cfg asked' data := by
  intro msg hdec
  obtain ⟨hobs, hblock1, hblock2⟩ := h msg hdec
  exact ⟨hobs, hblock1, fun b hb => ⟨(hblock2 b hb).1, Nat.le_trans (hblock2 b hb).2 hle⟩⟩

theorem BearsIn.mono {asked' : Nat} (hle : asked ≤ asked') {data : Bytes}
    (h : BearsIn cfg payload asked data) : BearsIn cfg payload asked' data := by
  intro msg hdec
  obtain ⟨hwhole, hblock, hoff⟩ := h msg hdec
  refine ⟨hwhole, fun b hb => ?_, hoff⟩
  obtain ⟨hszx, hnum, hrest⟩ := hblock b hb
  exact ⟨hszx, Nat.le_trans hnum hle, hrest⟩

/-- The request whose handler runs. -/
def atHand (s : Server cfg) : Option (Handling cfg) :=
  match s.control with
  | .handling h => some h
  | .idle => none

/-- The handlers give the client this payload, and at once: none of its requests is deferred. -/
def Gives (link : Link) (payload : Bytes) (s : Server cfg) : Server.Action → Prop
  | .handlerReturns res =>
    ∀ h ∈ atHand s, h.sender = link.client → res.payload = payload ∧ res.deferred = false
  | .poll nowMs (some (sender, data)) =>
    sender = link.client → ∀ t ∈ (s.scanned nowMs).admitted (Message.decode cfg data).2,
      t.resource.handler = .wellKnownCore → s.wellKnownCoreHandler.payload = payload
  | .poll _ none => True
  | .call (.respond handle _ _ _) =>
    ∀ i : Fin cfg.maxDeferred, handle.toNat = i.val → (s.deferred i).active = true →
      (s.deferred i).remote ≠ link.client
  | .call _ => True

instance (link : Link) (payload : Bytes) (s : Server cfg) :
    (a : Server.Action) → Decidable (Gives link payload s a)
  | .handlerReturns _ => inferInstanceAs (Decidable (∀ _ ∈ _, _ → _))
  | .poll _ (some _) => inferInstanceAs (Decidable (_ → ∀ _ ∈ _, _))
  | .call (.respond ..) => inferInstanceAs (Decidable (∀ _, _))
  | .poll _ none | .call (.begin _) | .call (.addResource ..) | .call (.setResourceType ..)
  | .call (.notify ..) => .isTrue trivial

-- ===========================================================================
-- The replies
-- ===========================================================================

/-- The block that is due is one the client has asked for, of the size of the build. -/
theorem Asks.due {msg : Message} (h : Asks cfg asked msg) :
    Server.szxDue cfg msg = cfg.blockSzx ∧ (Server.numDue msg).toNat ≤ asked ∧
      Server.sizeDue cfg msg = size cfg := by
  have hszx : Server.szxDue cfg msg = cfg.blockSzx := by
    unfold Server.szxDue
    cases hb : block2Requested msg with
    | none => rfl
    | some b => exact (h.block2 b hb).1
  refine ⟨hszx, ?_, by rw [Server.sizeDue, hszx, size]⟩
  unfold Server.numDue
  cases hb : block2Requested msg with
  | none => exact Nat.zero_le _
  | some b => exact (h.block2 b hb).2

/-- A reply without a Block2 option that is whole or an error. -/
theorem bears_whole {m : Message} {hd : Server.ReplyHeader} {uints : List (UInt16 × UInt32)}
    {body : Bytes} (h : Carries cfg m hd uints body)
    (hu : ∀ u ∈ uints, u.1 ≠ OptionNumber.block2)
    (hbody : body = payload ∨ 4 ≤ codeClass hd.code ∧ body = []) : BearsIn cfg payload asked m.wire := by
  intro msg hdec
  obtain ⟨reply, hdec', -, -, -, hcode, -, hbytes⟩ := h.decodes
  have hlacks := h.lacks hu
  rw [hdec] at hdec' hlacks
  obtain rfl : msg = reply := congrArg Prod.snd hdec'
  have hnone : block2Requested msg = none := by
    unfold Server.block2Requested
    rw [hlacks]
  refine ⟨fun _ => ?_, fun b hb => ?_, fun _ => hnone⟩
  · rw [hbytes, hcode]
    exact hbody
  · rw [hnone] at hb
    cases hb

/-- An error has no payload. -/
theorem error_bears (s : Server cfg) {msg : Message} (ht : msg.token.length ≤ kMaxTokenLen)
    (dest : Endpoint) {code : Code} (hclass : 4 ≤ codeClass code) :
    Sends (fun _ data => BearsIn cfg payload asked data) (s.sendError msg dest code).2 := by
  have hm := s.carries_content code [] .textPlain none ht
  refine Server.sends_encoded hm.built (bears_whole hm (fun u hu => nomatch hu) (.inr ⟨?_, rfl⟩))
  rwa [(s.replyHeader_names msg code).2]

/-- **The reply to a request of the client**, when the handler has given the payload, bears it:
whole, or the block of it that the request names, or none of it and an error. -/
theorem inline_bears (hroom : cfg.enableBlockwise = true → 2 ≤ cfg.maxOptions) (s : Server cfg)
    {h : Handling cfg} (ht : h.msg.token.length ≤ kMaxTokenLen) (hasks : Asks cfg asked h.msg)
    (hov : h.observeValue = none) {res : Response} (hres : res.payload = payload) :
    Sends (fun _ data => BearsIn cfg payload asked data) (s.replyInline h res).2 := by
  subst hres
  obtain ⟨hszx, hnum, hsize⟩ := hasks.due
  by_cases hblock : (cfg.enableBlockwise = true ∧ Server.InBlocks cfg h.msg res.payload) ∧
      0 < res.payload.length
  · obtain ⟨⟨hen, hin⟩, hpay⟩ := hblock
    by_cases hinside : Server.Inside cfg h.msg res.payload
    · -- a slice
      obtain ⟨m, hm, hsent⟩ := s.sendBlock2_carries h res ht hinside
        (more res.payload (Server.sizeDue cfg h.msg) (Server.numDue h.msg).toNat)
      rw [(s.replyInline_block h res hen hpay hin hinside).1, hsent]
      refine Server.sends_encoded hm.built fun msg hdec => ?_
      obtain ⟨reply, hdec', -, -, -, -, -, hbytes⟩ := hm.decodes
      have hopt := hm.block2 (Server.numDue_lt h.msg) (Server.szxDue_lt cfg h.msg)
      rw [hdec] at hdec' hopt
      obtain rfl : msg = reply := congrArg Prod.snd hdec'
      rw [hov, if_pos (by simpa [Server.observeUint] using hroom hen)] at hopt
      rw [Server.Inside, hsize] at hinside
      rw [hsize] at hbytes hopt
      refine ⟨fun hnone => ?_, fun b hb => ?_, fun hoff => ?_⟩
      · rw [hopt] at hnone
        cases hnone
      · cases hopt.symm.trans hb
        exact ⟨hszx, hnum, hinside, hbytes, rfl⟩
      · rw [hen] at hoff
        cases hoff
    · -- past the end of the payload the reply is an error
      rw [(s.replyInline_past h res hen hpay hin hinside).1]
      exact error_bears s ht h.sender (by decide)
  · -- in one piece
    have hwhole : s.replyInline h res = s.sendPiggybackedResponse h.msg h.sender res.code
        res.payload res.contentFormat h.observeValue := by
      by_cases hpay : 0 < res.payload.length
      · exact (s.replyInline_whole h res fun hboth => hblock ⟨hboth, hpay⟩).1
      · unfold Server.replyInline
        rw [if_neg fun hboth => hpay hboth.2]
    rw [hwhole]
    have hm := s.carries_content res.code res.payload res.contentFormat h.observeValue ht
    exact Server.sends_encoded hm.built
      (bears_whole hm (Server.wholeUints_other h.observeValue) (.inl rfl))

/-- A request that is refused. -/
theorem refused_bears (asked : Nat) (payload : Bytes) (s : Server cfg) {msg : Message}
    (ht : msg.token.length ≤ kMaxTokenLen) (sender : Endpoint) (hnone : s.admitted msg = none) :
    Sends (fun _ data => BearsIn cfg payload asked data) (s.handleRequest msg sender).2 ∧
      (s.handleRequest msg sender).1.control = s.control := by
  obtain ⟨code, hcode, heq⟩ := s.handleRequest_refused sender hnone
  have hclass : ∀ code ∈ Server.refusals, 4 ≤ codeClass code := by decide
  rw [heq]
  exact ⟨error_bears s ht sender (hclass code hcode), (s.justReplies_error msg sender code).control⟩

-- ===========================================================================
-- The server
-- ===========================================================================

/-- The server has kept nothing of the client, the request at hand asks for the response, and
all it has sent the client bears the payload. -/
structure ServerSide (link : Link) (payload : Bytes) (asked : Nat) (s : Server cfg)
    (toClient : List Bytes) : Prop where
  confined : s.Confined (· ≠ link.client)
  running  : ∀ h, s.control = .handling h → h.sender = link.client →
    h.msg.token.length ≤ kMaxTokenLen ∧ Asks cfg asked h.msg ∧ h.observeValue = none ∧
      h.session = none
  answers  : ∀ data ∈ toClient, BearsIn cfg payload asked data

variable {s : Server cfg} {toClient : List Bytes}

theorem ServerSide.mono {asked' : Nat} (hle : asked ≤ asked')
    (h : ServerSide link payload asked s toClient) : ServerSide link payload asked' s toClient where
  confined := h.confined
  running hd hctl hsender := by
    obtain ⟨ht, ⟨hobs, hblock1, hblock2⟩, hrest⟩ := h.running hd hctl hsender
    exact ⟨ht, ⟨hobs, hblock1, fun b hb => ⟨(hblock2 b hb).1, Nat.le_trans (hblock2 b hb).2 hle⟩⟩,
      hrest⟩
  answers data hdata := (h.answers data hdata).mono hle

theorem serverSide_init (link : Link) (payload : Bytes) :
    ServerSide link payload 0 ({} : Server cfg) [] where
  confined := Server.confined_init cfg _
  running := nofun
  answers := nofun

/-- What a handler that does not defer comes to, for a request that is no upload. -/
theorem finish_inline (s : Server cfg) {h : Handling cfg} (hs : h.session = none) {res : Response}
    (hdef : res.deferred = false) :
    s.finish h res = (s.freeDeferred? h.deferIdx).replyInline h res := by
  unfold Server.finish
  rw [hs, if_neg fun hboth => by rw [hdef] at hboth; cases hboth.1]
  rfl

/-- A call of the API. -/
theorem ServerSide.call (h : ServerSide link payload asked s toClient) {call : Server.ServerCall}
    (hgives : Gives link payload s (.call call)) :
    ServerSide link payload asked (s.step (.call call)).1
      (toClient ++ System.serverData link.client (s.step (.call call)).2) := by
  obtain ⟨hconfined, hsends⟩ := h.confined.call call
    fun handle code payload contentFormat heq i hi hact => by
      subst heq
      exact hgives i hi hact
  refine ⟨hconfined, fun hd hctl => ?_, ?_⟩
  · exact h.running hd ((s.call_keeps call).control.symm.trans hctl)
  · exact System.forall_toClient h.answers (hsends.mono fun dest data hne heq => absurd heq hne)

/-- The handler returns. -/
theorem ServerSide.returns (hroom : cfg.enableBlockwise = true → 2 ≤ cfg.maxOptions)
    (h : ServerSide link payload asked s toClient) {res : Response}
    (hgives : Gives link payload s (.handlerReturns res)) :
    ServerSide link payload asked (s.step (.handlerReturns res)).1
      (toClient ++ System.serverData link.client (s.step (.handlerReturns res)).2) := by
  cases hctl : s.control with
  | idle =>
    rw [Server.step_returns_idle hctl, System.serverData_nil, List.append_nil]
    exact h
  | handling hd =>
    have hgiven := hgives hd (by rw [atHand, hctl]; rfl)
    obtain ⟨hconfined, hsends⟩ := h.confined.returns hctl res fun hdef hsender => by
      rw [(hgiven hsender).2] at hdef
      cases hdef
    have hidle := Server.finish_control { s with control := .idle } hd res
    rw [← Server.step_returns hctl res] at hidle
    refine ⟨hconfined, fun hd' hctl' => ?_, System.forall_toClient h.answers ?_⟩
    · cases hidle.symm.trans hctl'
    · by_cases hsender : hd.sender = link.client
      · obtain ⟨ht, hasks, hov, hsession⟩ := h.running hd hctl hsender
        obtain ⟨hpayload, hdef⟩ := hgiven hsender
        rw [Server.step_returns hctl, finish_inline _ hsession hdef]
        exact (inline_bears hroom _ ht hasks hov hpayload).mono fun _ _ hbears _ => hbears
      · exact hsends.mono fun dest data heq hdest => absurd (heq.symm.trans hdest) hsender

/-- A request for the response at its resource. -/
theorem target_bears (hroom : cfg.enableBlockwise = true → 2 ≤ cfg.maxOptions) (s : Server cfg)
    {msg : Message} (ht : msg.token.length ≤ kMaxTokenLen) (hasks : Asks cfg asked msg)
    (sender : Endpoint) {t : Server.Target} (hidle : s.control = .idle)
    (hown : t.resource.handler = .wellKnownCore → s.wellKnownCoreHandler.payload = payload) :
    Sends (fun _ data => BearsIn cfg payload asked data) (s.handleTarget t msg sender).2 ∧
      ∀ hd, (s.handleTarget t msg sender).1.control = .handling hd →
        hd.msg = msg ∧ hd.observeValue = none ∧ hd.session = none := by
  -- neither an Observe nor a Block1 option, so neither table is touched
  have hov : (s.handleObserve t msg sender).2 = none := by
    unfold Server.handleObserve
    rw [hasks.observe]
  have hplain : block1Option cfg msg = none := by
    unfold Server.block1Option
    rw [hasks.block1]
    split <;> rfl
  rcases s.handleTarget_cases t msg sender with ⟨-, obs, heq⟩ | ⟨opt, hopt, -⟩
  · rw [heq, hov]
    rcases (s.withObservers obs).runHandler_cases t msg sender none none with ⟨f, -, hrun⟩ |
      ⟨hwell, hrun⟩
    · -- an application's handler is called
      rw [hrun]
      refine ⟨Server.sends_cons nofun (Server.sends_nil _), fun hd hctl => ?_⟩
      obtain rfl := ServerControl.handling.inj hctl
      exact ⟨rfl, rfl, rfl⟩
    · -- the document of the server itself is sent before `poll` returns
      rw [hrun]
      obtain ⟨d, hd⟩ := (s.withObservers obs).fillDeferred_spec
        (s.withObservers obs).allocateDeferred msg sender
      have hpayload : ((s.withObservers obs).fillDeferred (s.withObservers obs).allocateDeferred msg
          sender).wellKnownCoreHandler.payload = payload := by
        rw [hd]
        exact hown hwell
      dsimp only
      refine ⟨Server.sends_cons nofun ?_, fun h hctl => ?_⟩
      · rw [finish_inline _ rfl rfl]
        exact inline_bears hroom _ ht hasks rfl hpayload
      · rw [Server.finish_control, hd] at hctl
        cases hidle.symm.trans hctl
  · rw [hplain] at hopt
    cases hopt

/-- A datagram of the client. -/
theorem receive_bears (payload : Bytes) (hroom : cfg.enableBlockwise = true → 2 ≤ cfg.maxOptions)
    {s : Server cfg} (hidle : s.control = .idle) (sender : Endpoint) {data : Bytes}
    (hasks : AsksIn cfg asked data)
    (hown : ∀ t ∈ s.admitted (Message.decode cfg data).2, t.resource.handler = .wellKnownCore →
      s.wellKnownCoreHandler.payload = payload) :
    Sends (fun _ data => BearsIn cfg payload asked data) (s.receive (some (sender, data))).2 ∧
      ∀ hd, (s.receive (some (sender, data))).1.control = .handling hd →
        hd.msg.token.length ≤ kMaxTokenLen ∧ Asks cfg asked hd.msg ∧ hd.observeValue = none ∧
          hd.session = none := by
  by_cases hreq : ∃ msg, Message.decode cfg data = (.none, msg) ∧ Server.IsRequest msg
  · obtain ⟨msg, hdec, hreq⟩ := hreq
    have ht : msg.token.length ≤ kMaxTokenLen := Message.decode_token hdec
    rw [s.receive_request sender hdec hreq]
    rw [hdec] at hown
    rcases s.handleRequest_cases msg sender with ⟨hnone, -⟩ | ⟨t, had, heq⟩
    · obtain ⟨hbears, hctl⟩ := refused_bears asked payload s ht sender hnone
      exact ⟨hbears, fun hd hh => nomatch (hctl.trans hidle).symm.trans hh⟩
    · rw [heq]
      obtain ⟨hbears, hrun⟩ := target_bears hroom s ht (hasks msg hdec) sender hidle (hown t had)
      refine ⟨hbears, fun hd hh => ?_⟩
      obtain ⟨hmsg, hov, hsession⟩ := hrun hd hh
      rw [hmsg]
      exact ⟨ht, hasks msg hdec, hov, hsession⟩
  · obtain ⟨hnone, hctl⟩ := s.receive_silent sender fun msg hdec hmsg =>
      hreq ⟨msg, hdec, hmsg⟩
    rw [hnone]
    exact ⟨Server.sends_nil _, fun hd hh => nomatch (hctl.trans hidle).symm.trans hh⟩

/-- A poll. -/
theorem ServerSide.poll (hroom : cfg.enableBlockwise = true → 2 ≤ cfg.maxOptions)
    (h : ServerSide link payload asked s toClient) {nowMs : UInt32}
    {rx : Option (Endpoint × Bytes)}
    (hrx : ∀ sender data, rx = some (sender, data) → sender = link.client → AsksIn cfg asked data)
    (hgives : Gives link payload s (.poll nowMs rx)) :
    ServerSide link payload asked (s.step (.poll nowMs rx)).1
      (toClient ++ System.serverData link.client (s.step (.poll nowMs rx)).2) := by
  cases hctl : s.control with
  | handling hd =>
    rw [Server.step_poll_busy hctl, System.serverData_nil, List.append_nil]
    exact h
  | idle =>
    obtain ⟨hconfined, hsends⟩ := h.confined.poll hctl nowMs rx
      fun sender msg hreg hsender => by
        obtain ⟨_, data, t, heq, -, hdec, -, -, hregs⟩ := Server.Naming.registration_some hreg
        cases heq
        have hoption := hregs.2.2
        rw [(hrx sender data rfl hsender msg hdec).observe] at hoption
        cases hoption
    -- the client's datagram, or one of another peer's
    by_cases hclient : ∃ data, rx = some (link.client, data)
    · obtain ⟨data, rfl⟩ := hclient
      have hscan : (s.scanned nowMs).control = .idle := (s.scanned_control nowMs).trans hctl
      have hresources : (s.scanned nowMs).wellKnownCoreHandler = s.wellKnownCoreHandler := by
        unfold Server.wellKnownCoreHandler
        rw [s.scanned_resources]
      obtain ⟨hbears, hrun⟩ := receive_bears payload hroom hscan link.client
        (hrx link.client data rfl rfl) fun t had hown => by
          rw [hresources]
          exact hgives rfl t had hown
      refine ⟨hconfined, fun hd hh _ => hrun hd ?_, System.forall_toClient h.answers ?_⟩
      · rwa [Server.step_poll_state hctl] at hh
      · rw [Server.step_poll hctl]
        refine Server.sends_append.2 ⟨?_, hbears.mono fun _ _ hb _ => hb⟩
        exact (h.confined.pool.scanned nowMs).2.mono fun _ _ hne heq => absurd heq hne
    · -- another peer's datagram, if any
      have hother : ∀ dest, Server.solicitor s (.poll nowMs rx) = some dest → dest ≠ link.client := by
        rintro dest hsol rfl
        cases rx with
        | none => cases hsol
        | some datagram =>
          refine hclient ⟨datagram.2, ?_⟩
          rw [← Server.solicitor_sender hsol]
      refine ⟨hconfined, fun hd hh hsender => ?_, System.forall_toClient h.answers ?_⟩
      · exact absurd hsender (hother _ (Server.poll_handles hctl hh).1)
      · exact hsends.mono fun dest _ hor heq => hor.elim (absurd heq) fun hsol =>
          absurd heq (hother dest hsol)

/-- **A step of the server** sends the client only what bears the payload, as far as the client
has asked. -/
theorem ServerSide.step (hroom : cfg.enableBlockwise = true → 2 ≤ cfg.maxOptions)
    (h : ServerSide link payload asked s toClient) {a : Server.Action}
    (hrx : ∀ nowMs sender data, a = .poll nowMs (some (sender, data)) → sender = link.client →
      AsksIn cfg asked data) (hgives : Gives link payload s a) :
    ServerSide link payload asked (s.step a).1
      (toClient ++ System.serverData link.client (s.step a).2) := by
  cases a with
  | call call => exact h.call hgives
  | poll nowMs rx =>
    exact h.poll hroom (fun sender data heq => hrx nowMs sender data (by rw [heq])) hgives
  | handlerReturns res => exact h.returns hroom hgives

end Fetch

end PulseCoap
