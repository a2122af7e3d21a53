import PulseCoap.System.Asked

/-!
# PulseCoAP — a response is the answer to its request

Any number of requests of a client may be open at a time, subscriptions and
discoveries among them, and the network loses, delays, duplicates and reorders. The
client tells the responses apart by their tokens. As long as it hands out no token
twice, the handler of a call is given what the server's application has given for
the request of this call, or the server's refusal of this very request, and never
the answer to another. A build without block-wise transfer.

The argument goes from the token back to the call. The client's slot has the token
of an issued request; the datagram that the server sent under this token is of
something given to a peer that had called a handler under it, or of a request it has
refused; the server has read this request from the network, so the client has issued
it; and with no token handed out twice the two requests are one. `Inv` holds what
each of these steps needs, and `ClientSide` is the client's part of it.

* `ClientSide.step` — the slots and the datagrams of the client are of requests it
  has issued.
* `Agreeing` — both parties, with what was issued, what was given and what was
  refused.
* `Inv.client_step`, `Inv.server_step` — the steps.
* `Answered`, `RefusedFor` — the two things a response can be.
* `agreed` — over all interleavings.
-/

namespace PulseCoap

/-- A client and a server, the requests the first has issued, what the second was given and what it
has refused. -/
structure Agreeing (cfg : Config) where
  sys     : System cfg := {}
  issued  : List Issue := []
  given   : List Given := []
  refused : List Refusal := []

namespace Agreeing

open Client (AsksIn Registers Narrows)
open Server (Relays refusals askedBy)
open Answering (Called)

variable {cfg : Config} {link : Link}

-- ===========================================================================
-- The client
-- ===========================================================================

/-- Where the client can stand: a message it dispatches has come from the server, and it is in no
block-wise transfer. -/
def Standing (toClient : List Bytes) : Control cfg → Prop
  | .polling (.dispatch _ msg) _ =>
    msg.code ≠ Code.empty ∧ ∃ data ∈ toClient, Message.decode cfg data = (.none, msg)
  | .polling (.block1 _) _ | .polling (.block2 _) _ => False
  | _ => True

/-- The slots are of requests that were issued, and so is all the client has sent. -/
structure ClientSide (issued : List Issue) (c : Client cfg) (toServer toClient : List Bytes) :
    Prop where
  slots   : ∀ i, (c.slots i).pending.active = true →
    ∃ x ∈ issued, Registers x (c.slots i).pending
  pool    : c.PoolSatisfies fun _ data => AsksIn cfg issued data
  sent    : ∀ data ∈ toServer, AsksIn cfg issued data
  control : Standing toClient c.control

/-- The handler of an issued request is called with a message of the server that has its token. -/
def Hears (cfg : Config) (issued : List Issue) (toClient : List Bytes) (events : List ClientEvent) :
    Prop :=
  ∀ call handler res ctx, .response call handler res ctx ∈ events →
    ∃ data ∈ toClient, ∃ msg, Message.decode cfg data = (.none, msg) ∧ msg.code ≠ Code.empty ∧
      res = ⟨msg.code, msg.payloadBytes, Client.responseFormat msg⟩ ∧
      ∃ x ∈ issued, x.call = some call ∧ x.args.onResponse = some handler ∧
        x.args.userContext = ctx ∧ msg.token = [x.token]

variable {issued : List Issue} {c : Client cfg} {toServer toClient : List Bytes}

/-- Without a response callback there is nothing to hear. -/
theorem hears_quiet {events : List ClientEvent} (h : ¬ Client.Fired events) :
    Hears cfg issued toClient events :=
  fun _ _ _ _ hmem => absurd ⟨_, _, _, _, hmem⟩ h

/-- An empty ACK asks for nothing. -/
theorem ack_asks (issued : List Issue) (sender : Endpoint) (msg : Message) (ackOk : Bool) :
    Client.Sends (fun _ data => AsksIn cfg issued data)
      (Client.ackEvents cfg sender msg ackOk) := by
  intro dest data hmem
  unfold Client.ackEvents at hmem
  split at hmem
  · split at hmem
    · next buf hbuf =>
      cases List.mem_singleton.1 hmem
      obtain ⟨m, hm, henc⟩ := Client.transmit_some hbuf
      cases hm
      have hcarries := Server.carries_emptyAck cfg msg.messageId
      rw [Client.encode_wire hcarries.built henc]
      intro msg' hdec hreq
      obtain ⟨reply, hdec', htype, -⟩ := hcarries.decodes
      obtain rfl : msg' = reply := congrArg Prod.snd (hdec.symm.trans hdec')
      exact absurd htype hreq.2.1
    · cases hmem
  · cases hmem

/-- The dispatch calls the handler of the slot with the message's token, and ends no later. -/
theorem ClientSide.dispatch (hplain : cfg.enableBlockwise = false)
    (h : ClientSide issued c toServer toClient) {sender : Endpoint} {msg : Message}
    {inCallback : Bool} (hctl : c.control = .polling (.dispatch sender msg) inCallback)
    (sendOk : Bool) :
    Hears cfg issued toClient (c.resume (.dispatch sender msg) sendOk).2 ∧
      Standing toClient (c.resume (.dispatch sender msg) sendOk).1.control := by
  have hstanding := h.control
  rw [hctl] at hstanding
  obtain ⟨hcode, data, hdata, hdec⟩ := hstanding
  have hdispatch : Hears cfg issued toClient (c.dispatchResponse sender msg).2 ∧
      Standing toClient (c.dispatchResponse sender msg).1.control := by
    rcases c.dispatchResponse_cases sender msg with ⟨j, -, heq⟩ | ⟨j, -, hfind, heq⟩ | ⟨-, -, heq⟩
    · -- a discovery
      rw [heq]
      refine ⟨hears_quiet (Client.not_fired fun e he call handler res ctx => ?_), trivial⟩
      obtain ⟨_, -, rfl⟩ := Option.map_eq_some_iff.1 (Option.mem_toList.1 he)
      rintro ⟨⟩
    · -- the slot is of an issued request, and the message has its token
      obtain ⟨hact, htoken⟩ := Client.findPendingByToken_spec hfind
      obtain ⟨x, hx, hreg⟩ := h.slots j hact
      have hpending : c.dispatchPending j sender msg = c.handlePlain j msg := by
        unfold Client.dispatchPending
        rw [if_neg (by rw [hplain]; exact Bool.false_ne_true)]
      rw [heq, hpending]
      unfold Client.handlePlain
      rw [Client.fireResponse_eq]
      refine ⟨fun call handler res ctx hmem => ?_, trivial⟩
      obtain ⟨f, hf, heq⟩ := Option.map_eq_some_iff.1 (Option.mem_toList.1 hmem)
      cases heq
      exact ⟨data, hdata, msg, hdec, hcode, rfl, x, hx, hreg.call, hreg.onResponse.symm.trans hf,
        hreg.userContext.symm, htoken.symm.trans hreg.token⟩
    · rw [heq]
      exact ⟨hears_quiet Client.not_fired_nil, trivial⟩
  -- the ACK that goes out before the dispatch runs no handler
  refine ⟨fun call handler res ctx hmem => ?_, hdispatch.2⟩
  rcases List.mem_append.1 hmem with hmem | hmem
  · exact absurd ⟨_, _, _, _, hmem⟩ (Watch.ackEvents_not_fired cfg sender msg sendOk)
  · exact hdispatch.1 call handler res ctx hmem

/-- `poll` up to its first cut. -/
theorem standing_poll (c : Client cfg) (nowMs : UInt32) {rx : Option (Endpoint × Bytes)}
    (hrx : ∀ sender data, rx = some (sender, data) → data ∈ toClient) :
    Standing toClient (c.poll nowMs rx).1.control := by
  rcases c.poll_cases nowMs rx with heq | ⟨sender, data, msg, hsome, hdec, heq⟩
  · rw [heq]
    trivial
  · rw [heq]
    by_cases hrst : msg.type = .reset
    · rw [show (c.atTime nowMs).handleMessage sender msg =
        (c.atTime nowMs).handleReset sender msg.messageId from if_pos hrst]
      rcases (c.atTime nowMs).handleReset_cases sender msg.messageId with heq | ⟨t, i, -, -, heq⟩
      · rw [heq]
        trivial
      · rw [heq, Client.fireTimeout_eq]
        trivial
    · obtain ⟨c', -, -, heq⟩ := Client.handleMessage_other (c.atTime nowMs) sender hrst
      rw [heq]
      split
      · next hcode => exact ⟨hcode.1, data, hrx sender data hsome, hdec⟩
      · trivial

/-- A segment of `poll` that is no dispatch. -/
theorem standing_resume {k : Cont cfg} {inCallback : Bool}
    (h : Standing toClient (.polling k inCallback)) (hk : Client.dispatches k = false)
    (sendOk : Bool) : Standing toClient (c.resume k sendOk).1.control := by
  cases k with
  | dispatch sender msg => cases hk
  | block1 i | block2 i => exact h.elim
  | close i fragmented call | expire | ret => trivial
  | tick index =>
    rw [Client.resume_tick]
    split
    · next hlt =>
      obtain ⟨b, hctl⟩ := (c.tickAt_pool ⟨index, hlt⟩ sendOk).1
      rw [hctl]
      trivial
    · trivial

/-- **A step of the client** keeps its side, and what its callbacks hear has come under the
token of their call. The ACKs it sends are no requests. -/
theorem ClientSide.step (hplain : cfg.enableBlockwise = false) (dest : Endpoint)
    (h : ClientSide issued c toServer toClient) {a : Client.Action}
    (hrx : ∀ nowMs sender data, a = .poll nowMs (some (sender, data)) → data ∈ toClient) :
    ClientSide (issued ++ c.issues a) (c.step a).1
        (toServer ++ System.clientData dest (c.step a).2) toClient ∧
      Hears cfg issued toClient (c.step a).2 := by
  have hgrow : issued ⊆ issued ++ c.issues a := List.subset_append_left ..
  -- what is sent
  have hpool : c.PoolSatisfies fun _ data => AsksIn cfg (issued ++ c.issues a) data :=
    fun t ha => (h.pool t ha).mono hgrow
  have hall : (c.step a).1.PoolSatisfies (fun _ data => AsksIn cfg (issued ++ c.issues a) data) ∧
      Client.Sends (fun _ data => AsksIn cfg (issued ++ c.issues a) data) (c.step a).2 := by
    refine hpool.step a (fun call sendOk ha happ => ?_) (fun sendOk k b _ hctl d hd => ?_)
      fun sender msg sendOk => ack_asks _ sender msg sendOk
    · subst ha
      exact fun dest data hmem =>
        ((Client.call_issues hplain c happ call sendOk).sent dest data hmem).mono
          (List.subset_append_right ..)
    · -- nothing is left to send in blocks, as the build has none
      have hstanding := h.control
      rw [hctl] at hstanding
      cases k with
      | block1 i | block2 i => exact hstanding.elim
      | dispatch | close | expire | tick | ret => cases hd
  obtain ⟨hpool', hsends⟩ := hall
  have hsent : ∀ data ∈ toServer ++ System.clientData dest (c.step a).2,
      AsksIn cfg (issued ++ c.issues a) data := by
    intro data hdata
    rcases List.mem_append.1 hdata with hold | hnew
    · exact (h.sent data hold).mono hgrow
    · exact hsends dest data (System.mem_clientData.1 hnew)
  have hslots : ∀ {c' : Client cfg}, Narrows c c' → ∀ i, (c'.slots i).pending.active = true →
      ∃ x ∈ issued ++ c.issues a, Registers x (c'.slots i).pending := by
    intro c' hn i hi
    obtain ⟨x, hx, hreg⟩ := h.slots i (hn.active hi)
    rw [hn.slots i hi]
    exact ⟨x, hgrow hx, hreg⟩
  have hside : (∀ i, ((c.step a).1.slots i).pending.active = true →
      ∃ x ∈ issued ++ c.issues a, Registers x ((c.step a).1.slots i).pending) →
        Standing toClient (c.step a).1.control →
          ClientSide (issued ++ c.issues a) (c.step a).1
            (toServer ++ System.clientData dest (c.step a).2) toClient :=
    fun hs hctl => ⟨hs, hpool', hsent, hctl⟩
  -- ignored, a call, `poll` up to its first cut, or the next segment
  rcases c.step_cases a with heq | ⟨call, sendOk, rfl, happ, heq⟩ | ⟨nowMs, rx, rfl, -, heq⟩ |
    ⟨sendOk, k, inCallback, rfl, hctl, heq⟩
  · refine ⟨hside ?_ ?_, ?_⟩
    · rw [heq]
      exact hslots (.refl c)
    · rw [heq]
      exact h.control
    · rw [heq]
      exact hears_quiet Client.not_fired_nil
  · obtain ⟨hquiet, hctl⟩ := c.call_quiet sendOk call
    -- a call hands nothing to a handler, and leaves the control to the application
    refine ⟨hside (fun i hi => ?_) ?_, ?_⟩
    · -- a slot of before, or the one of the call
      rw [heq] at hi ⊢
      rcases (Client.call_issues hplain c happ call sendOk).slots i hi with hsame | ⟨x, hx, hreg⟩
      · dsimp only at hi ⊢
        rw [hsame] at hi ⊢
        obtain ⟨x, hx, hreg⟩ := h.slots i hi
        exact ⟨x, hgrow hx, hreg⟩
      · exact ⟨x, List.mem_append_right _ hx, hreg⟩
    · rw [heq]
      dsimp only
      rw [hctl]
      exact h.control
    · rw [heq]
      exact hears_quiet hquiet
  · refine ⟨hside ?_ ?_, ?_⟩
    · rw [heq]
      exact hslots (Client.narrows_poll c nowMs rx)
    · rw [heq]
      exact standing_poll c nowMs fun sender data hsome => hrx nowMs sender data (by rw [hsome])
    · rw [heq]
      exact hears_quiet (Watch.poll_flight c nowMs rx).1
  · -- a segment: only the one that dispatches a message can hand a response over
    have hstanding := h.control
    rw [hctl] at hstanding
    -- no block is sent, so a segment takes no slot
    have hn : Narrows c (c.resume k sendOk).1 := by
      rcases c.resume_cases k sendOk with hn | ⟨i, buf, rfl, -⟩ | ⟨i, buf, rfl, -⟩
      · exact hn
      · exact hstanding.elim
      · exact hstanding.elim
    have hends : Hears cfg issued toClient (c.resume k sendOk).2 ∧
        Standing toClient (c.resume k sendOk).1.control := by
      cases hk : Client.dispatches k with
      | false => exact ⟨hears_quiet (c.resume_quiet hk sendOk).1, standing_resume hstanding hk sendOk⟩
      | true =>
        cases k with
        | dispatch sender msg => exact h.dispatch hplain hctl sendOk
        | block1 | block2 | close | expire | tick | ret => cases hk
    refine ⟨hside ?_ ?_, ?_⟩
    · rw [heq]
      exact hslots hn
    · rw [heq]
      exact hends.2
    · rw [heq]
      exact hends.1

theorem Standing.mono {toClient' : List Bytes} (hsub : toClient ⊆ toClient') {k : Control cfg}
    (h : Standing toClient k) : Standing toClient' k := by
  cases k with
  | idle => trivial
  | polling k inCallback =>
    cases k with
    | dispatch sender msg =>
      obtain ⟨hcode, data, hdata, hdec⟩ := h
      exact ⟨hcode, data, hsub hdata, hdec⟩
    | block1 | block2 | close | expire | tick | ret => exact h

-- ===========================================================================
-- The server
-- ===========================================================================

/-- A call of a handler is for a datagram that the step polls. -/
theorem asked_step (hplain : cfg.enableBlockwise = false) (s : Server cfg) (a : Server.Action) :
    ∀ req ∈ askedBy (s.step a).2, ∃ nowMs data, a = .poll nowMs (some (req.remote, data)) ∧
      Message.decode cfg data = (.none, req.message) ∧ Server.IsRequest req.message ∧
        Server.RequestOf req.remote req.message req := by
  intro req hasked
  cases a with
  -- a call runs no handler, nor does the return of one
  | call call =>
    have hnone := (s.call_keeps call).sends.askedBy
    have hmem : req ∈ askedBy ((s.call call).2.2 ++ [.returned (s.call call).2.1]) := hasked
    rw [Answering.askedBy_append, hnone] at hmem
    cases hmem
  | handlerReturns res =>
    cases hctl : s.control with
    | idle =>
      rw [Server.step_returns_idle hctl] at hasked
      cases hasked
    | handling h =>
      rw [Server.step_returns hctl, (Server.finish_spec _ h res).2.askedBy] at hasked
      cases hasked
  | poll nowMs rx =>
    cases hctl : s.control with
    | handling h =>
      rw [Server.step_poll_busy hctl] at hasked
      cases hasked
    | idle =>
      obtain ⟨ticks, hticks, hpoll⟩ := s.poll_eq nowMs rx
      rw [Server.step_poll hctl, hpoll, Answering.askedBy_append, hticks.askedBy,
        List.nil_append] at hasked
      -- `poll` runs one if the datagram is a request that gets as far as a resource
      cases rx with
      | none => cases hasked
      | some datagram =>
        obtain ⟨sender, data⟩ := datagram
        by_cases hreq : ∃ msg, Message.decode cfg data = (.none, msg) ∧ Server.IsRequest msg
        · obtain ⟨msg, hdec, hreq⟩ := hreq
          rw [Server.receive_request _ sender hdec hreq] at hasked
          rcases Server.handleRequest_plain hplain (s.scanned nowMs) msg sender with
            ⟨-, code, -, heq⟩ | ⟨t, obs, ov, -, heq⟩
          · rw [heq, ((s.scanned nowMs).justReplies_error msg sender code).2.askedBy] at hasked
            cases hasked
          · obtain ⟨req', hone, hof⟩ :=
              ((s.scanned nowMs).withObservers obs).runHandler_asked t msg sender ov
            rw [heq, hone] at hasked
            obtain rfl := List.mem_singleton.1 hasked
            obtain rfl := hof.remote
            obtain rfl := hof.message
            exact ⟨nowMs, data, rfl, hdec, hreq, hof⟩
        · -- any other datagram runs none
          rw [((s.scanned nowMs).receive_silent sender fun msg hdec hmsg =>
            hreq ⟨msg, hdec, hmsg⟩).1] at hasked
          cases hasked

/-- A request that is refused is one that the step polls. -/
theorem refused_step (s : Server cfg) (a : Server.Action) (r : Refusal) (hr : r ∈ s.refused a) :
    ∃ nowMs data, a = .poll nowMs (some (r.remote, data)) ∧
      Message.decode cfg data = (.none, r.request) ∧ Server.IsRequest r.request := by
  unfold Server.refused at hr
  split at hr
  · split at hr
    · unfold Server.ownRefused at hr
      split at hr
      · next hdec =>
        split at hr
        · next hreq =>
          obtain rfl := List.mem_singleton.1 hr
          exact ⟨_, _, rfl, hdec, hreq.1⟩
        · cases hr
      · cases hr
    · cases hr
  · cases hr

-- ===========================================================================
-- Both
-- ===========================================================================

def next (link : Link) (w : Agreeing cfg) (a : System.Action) :
    Agreeing cfg × List System.Event :=
  let r := w.sys.next link a
  match a with
  | .client a => ({ w with sys := r.1, issued := w.issued ++ w.sys.client.issues a }, r.2)
  | .server a =>
    ({ w with sys := r.1, given := w.given ++ w.sys.server.given a,
              refused := w.refused ++ w.sys.server.refused a }, r.2)

def machine (cfg : Config) (link : Link) : Machine (Agreeing cfg) System.Action System.Event where
  init := {}
  next := next link

/-- The network, and a client that hands out no token twice. -/
def Fresh (link : Link) (w : Agreeing cfg) (a : System.Action) : Prop :=
  System.Carried link w.sys a ∧
    match a with
    | .client a => ∀ x ∈ w.sys.client.issues a, ∀ y ∈ w.issued, y.token ≠ x.token
    | .server _ => True

instance (link : Link) (w : Agreeing cfg) : (a : System.Action) → Decidable (Fresh link w a)
  | .client _ => inferInstanceAs (Decidable (_ ∧ ∀ _ ∈ _, ∀ _ ∈ _, _))
  | .server _ => inferInstanceAs (Decidable (_ ∧ True))

/-- The server's events. -/
def serverEvents (hist : List System.Event) : List ServerEvent :=
  hist.filterMap fun
    | .server e => some e
    | .client _ => none

/-- The client's events are none of the server's. -/
theorem serverEvents_client (hist : List System.Event) (ev : List ClientEvent) :
    serverEvents (hist ++ ev.map .client) = serverEvents hist := by
  unfold serverEvents
  rw [List.filterMap_append, List.filterMap_map]
  simp

/-- The server's are kept in their order. -/
theorem serverEvents_server (hist : List System.Event) (ev : List ServerEvent) :
    serverEvents (hist ++ ev.map .server) = serverEvents hist ++ ev := by
  unfold serverEvents
  rw [List.filterMap_append, List.filterMap_map]
  simp

/-- The handler of the server is called with the request that was issued. -/
structure Handed (link : Link) (x : Issue) (req : Request) : Prop where
  remote  : req.remote = link.client
  asked   : AskedBy x req.message
  method  : req.method = x.args.method
  payload : req.payload = x.args.payload

/-- What holds between the two. -/
structure Inv (link : Link) (hist : List System.Event) (w : Agreeing cfg) : Prop where
  client  : ClientSide w.issued w.sys.client w.sys.toServer w.sys.toClient
  server  : Answering.Inv (serverEvents hist) ⟨w.sys.server, w.given, w.refused⟩
  answers : ∀ data ∈ w.sys.toClient, Relays cfg w.given w.refused link.client data
  refused : ∀ r ∈ w.refused, r.remote = link.client → ∃ x ∈ w.issued, AskedBy x r.request
  handed  : ∀ req ∈ askedBy (serverEvents hist), req.remote = link.client →
    ∃ x ∈ w.issued, Handed link x req
  tokens  : (w.issued.map Issue.token).Nodup

variable {hist : List System.Event} {w : Agreeing cfg}

/-- A client issues at most one request in a step. -/
theorem issues_one (c : Client cfg) (a : Client.Action) : (c.issues a).length ≤ 1 := by
  unfold Client.issues
  repeat' split
  all_goals exact Nat.le_of_ble_eq_true rfl

/-- **A step of the client** keeps the invariant when it hands out no token for a second time. -/
theorem Inv.client_step (hplain : cfg.enableBlockwise = false) (inv : Inv link hist w)
    {a : Client.Action} (hfresh : Fresh link w (.client a)) :
    Inv link (hist ++ (w.next link (.client a)).2) (w.next link (.client a)).1 := by
  have hstep := (inv.client.step hplain link.server (a := a) fun nowMs sender data heq => by
    subst heq
    exact hfresh.1.2).1
  have hevents : serverEvents (hist ++ (w.next link (.client a)).2) = serverEvents hist :=
    serverEvents_client hist (w.sys.client.step a).2
  refine ⟨hstep, ?_, inv.answers, fun r hr hremote => ?_, ?_, ?_⟩
  · rw [hevents]
    exact inv.server
  · obtain ⟨x, hx, hasked⟩ := inv.refused r hr hremote
    exact ⟨x, List.mem_append_left _ hx, hasked⟩
  · rw [hevents]
    intro req hreq hremote
    obtain ⟨x, hx, hhanded⟩ := inv.handed req hreq hremote
    exact ⟨x, List.mem_append_left _ hx, hhanded⟩
  · -- a step issues one request at most, with a token that `Fresh` keeps apart
    show ((w.issued ++ w.sys.client.issues a).map Issue.token).Nodup
    rw [List.map_append]
    have hone := issues_one w.sys.client a
    have hnew := hfresh.2
    dsimp only at hnew
    rcases hissues : w.sys.client.issues a with _ | ⟨x, _ | ⟨y, rest⟩⟩
    · simpa using inv.tokens
    · rw [hissues] at hnew
      refine List.Nodup.append inv.tokens (List.nodup_singleton _) fun t ht ht' => ?_
      obtain ⟨y, hy, rfl⟩ := List.mem_map.1 ht
      exact hnew x (List.mem_singleton_self x) y hy (List.mem_singleton.1 ht')
    · rw [hissues] at hone
      simp at hone

/-- **A step of the server** keeps the invariant: what it sends it has been given for a call, or
it refuses one. -/
theorem Inv.server_step (hplain : cfg.enableBlockwise = false) (hroom : 2 ≤ cfg.maxOptions)
    (inv : Inv link hist w) {a : Server.Action} (hfresh : Fresh link w (.server a)) :
    Inv link (hist ++ (w.next link (.server a)).2) (w.next link (.server a)).1 := by
  have hadds := inv.server.adds hplain hroom a
  have hevents : serverEvents (hist ++ (w.next link (.server a)).2) =
      serverEvents hist ++ (w.sys.server.step a).2 := serverEvents_server hist _
  have hgrow : w.sys.toClient ⊆
      w.sys.toClient ++ System.serverData link.client (w.sys.server.step a).2 :=
    List.subset_append_left ..
  refine ⟨⟨inv.client.slots, inv.client.pool, inv.client.sent, inv.client.control.mono hgrow⟩, ?_,
    fun data hdata => ?_, fun r hr hremote => ?_, ?_, inv.tokens⟩
  · rw [hevents]
    exact hadds.step inv.server
  · rcases List.mem_append.1 hdata with hold | hnew
    · exact (inv.answers data hold).mono (List.subset_append_left ..) (List.subset_append_left ..)
    · exact hadds.sends link.client data (System.mem_serverData.1 hnew)
  · -- a step refuses the request of the datagram it polls, and this one has been sent
    rcases List.mem_append.1 hr with hold | hnew
    · exact inv.refused r hold hremote
    · obtain ⟨nowMs, data, rfl, hdec, hisreq⟩ := refused_step w.sys.server a r hnew
      exact inv.client.sent data (hfresh.1 hremote) r.request hdec hisreq
  · rw [hevents]
    -- and so it hands a request to a handler only if the client has issued it
    intro req hreq hremote
    rw [Answering.askedBy_append] at hreq
    rcases List.mem_append.1 hreq with hold | hnew
    · exact inv.handed req hold hremote
    · obtain ⟨nowMs, data, rfl, hdec, hisreq, hof⟩ := asked_step hplain w.sys.server a req hnew
      obtain ⟨x, hx, hasked⟩ :=
        inv.client.sent data (hfresh.1 hremote) req.message hdec hisreq
      exact ⟨x, hx, hremote, hasked, hof.method.trans hasked.method,
        hof.payload.trans hasked.payload⟩

theorem inv_init (cfg : Config) (link : Link) : Inv link [] (machine cfg link).init where
  client := by
    refine ⟨fun i hi => ?_, fun t ha => ?_, fun data hdata => ?_, trivial⟩
    · cases hi
    · cases ha
    · cases hdata
  server := Answering.inv_init cfg
  answers data hdata := by cases hdata
  refused r hr := by cases hr
  handed req hreq := by cases hreq
  tokens := List.nodup_nil

theorem Inv.step (hplain : cfg.enableBlockwise = false) (hroom : 2 ≤ cfg.maxOptions)
    (inv : Inv link hist w) {a : System.Action} (hfresh : Fresh link w a) :
    Inv link (hist ++ (w.next link a).2) (w.next link a).1 := by
  cases a with
  | client a => exact inv.client_step hplain hfresh
  | server a => exact inv.server_step hplain hroom hfresh

/-- What was given for a request: the handler of the server was called with it, and this is what the
application has given for its token. -/
structure Answered (link : Link) (hist : List System.Event) (given : List Given) (x : Issue)
    (res : ClientResponse) : Prop where
  handed : ∃ req ∈ askedBy (serverEvents hist), Handed link x req
  given  : ∃ g ∈ given, g.remote = link.client ∧ g.token = [x.token] ∧ g.code = res.code ∧
    g.payload = res.payload ∧ g.contentFormat = res.contentFormat

/-- The server has refused the request of this call: it has read it from the client, and its refusal
has no payload. -/
structure RefusedFor (link : Link) (refused : List Refusal) (x : Issue) (res : ClientResponse) :
    Prop where
  request : ∃ r ∈ refused, r.remote = link.client ∧ AskedBy x r.request
  code    : res.code ∈ refusals
  payload : res.payload = []

/-- **A response is the answer to its request.** Whatever calls the client makes, whatever the
server's application does with the requests (returning from a handler, answering later, notifying),
and however the network treats the datagrams: when the handler of a call is given a response, the
call has issued a request, this is its handler, and either the server has read this request and
refused it, or its handler was called with this request and the application has given this response
for it. -/
theorem agreed (hplain : cfg.enableBlockwise = false) (hroom : 2 ≤ cfg.maxOptions)
    (r : (machine cfg link).Run (Fresh link) hist w) {a : System.Action} (hfresh : Fresh link w a) :
    ∀ call handler res ctx, .client (.response call handler res ctx) ∈ (w.next link a).2 →
      ∃ x ∈ w.issued, x.call = some call ∧ x.args.onResponse = some handler ∧
        x.args.userContext = ctx ∧
        (RefusedFor link w.refused x res ∨ Answered link hist w.given x res) := by
  have inv : Inv link hist w :=
    r.invariant (I := Inv link) (inv_init cfg link) fun _ inv hf => inv.step hplain hroom hf
  intro call handler res ctx hmem
  cases a with
  -- the server hands nothing to a handler of the client
  | server a =>
    obtain ⟨e, -, heq⟩ := List.mem_map.1 hmem
    cases heq
  | client a =>
    obtain ⟨e, he, heq⟩ := List.mem_map.1 hmem
    cases heq
    have hhears := (inv.client.step hplain link.server (a := a) fun nowMs sender data heq => by
      subst heq
      exact hfresh.1.2).2
    obtain ⟨data, hdata, msg, hdec, hcode, rfl, x, hx, hcall, hhandler, hctx, htoken⟩ :=
      hhears call handler res ctx he
    refine ⟨x, hx, hcall, hhandler, hctx, ?_⟩
    obtain ⟨msg', hdec', hreads⟩ := inv.answers data hdata
    obtain rfl : msg' = msg := congrArg Prod.snd (hdec'.symm.trans hdec)
    -- the three kinds of datagram; an empty ACK is no response
    rcases hreads with hack | ⟨rf, hrf, hread⟩ | ⟨g, hg, hread⟩
    · exact absurd hack.2 hcode
    · -- the refused request has the token of the response, and so is the one of this call
      obtain ⟨y, hy, hasked⟩ := inv.refused rf hrf hread.remote
      have hsame : y.token = x.token :=
        List.head_eq_of_cons_eq (hasked.token.symm.trans (hread.token.trans htoken))
      obtain rfl : y = x := List.inj_on_of_nodup_map inv.tokens hy hx hsame
      exact .inl ⟨⟨rf, hrf, hread.remote, hasked⟩, hread.code, hread.payload⟩
    · -- whoever was called under this token was called with the request of this call
      obtain ⟨req, hreq, hremote, hreqtoken⟩ := inv.server.given g hg
      obtain ⟨y, hy, hhanded⟩ := inv.handed req hreq (hremote.trans hread.remote)
      have hsame : y.token = x.token := by
        have hboth := hhanded.asked.token.symm.trans (hreqtoken.trans (hread.token.trans htoken))
        exact List.head_eq_of_cons_eq hboth
      obtain rfl : y = x := List.inj_on_of_nodup_map inv.tokens hy hx hsame
      exact .inr ⟨⟨req, hreq, hhanded⟩, g, hg, hread.remote, hread.token.trans htoken, hread.code,
        hread.payload, hread.contentFormat⟩

-- ===========================================================================
-- Two requests
-- ===========================================================================

def pairLink : Link := { client := { port := 1 }, server := { port := 2 } }

/-- GETs for `/a` and `/b`. The second is served first, and both responses are polled late. -/
def requests : List System.Action :=
  [.server (.call (.addResource (some [0x2F, 0x61]) methodGet (some 5) none false)),
    .server (.call (.addResource (some [0x2F, 0x62]) methodGet (some 6) none false)),
    .client (.call (.get pairLink.server [0x2F, 0x61] (some 1) none true) true),
    .client (.call (.get pairLink.server [0x2F, 0x62] (some 2) none true) true)]
def served : List System.Action :=
  [.server (.poll 0 (some (pairLink.client, [0x41, 0x01, 0x00, 0x02, 0x02, 0xB1, 0x62]))),
    .server (.handlerReturns { payload := [0x31] }),
    .server (.poll 0 (some (pairLink.client, [0x41, 0x01, 0x00, 0x01, 0x01, 0xB1, 0x61]))),
    .server (.handlerReturns { payload := [0x30] }),
    .client (.poll 0 (some (pairLink.server, [0x61, 0x45, 0x00, 0x02, 0x02, 0xC0, 0xFF, 0x31])))]

def pair : List System.Event × Agreeing .default :=
  (machine .default pairLink).exec [] {} (requests ++ served)

theorem agreed_second :
    .client (.response { id := 1, confirmable := true } 2 ⟨Code.content, [0x31], .textPlain⟩ none) ∈
        (pair.2.next pairLink (.client (.resume true))).2 ∧
      ∀ call handler res ctx, .client (.response call handler res ctx) ∈
          (pair.2.next pairLink (.client (.resume true))).2 →
        ∃ x ∈ pair.2.issued, x.call = some call ∧ x.args.onResponse = some handler ∧
          x.args.userContext = ctx ∧
          (RefusedFor pairLink pair.2.refused x res ∨
            Answered pairLink pair.1 pair.2.given x res) := by
  have hmeets : (machine .default pairLink).Meets (Fresh pairLink) {} (requests ++ served) := by
    decide +kernel
  exact ⟨by decide +kernel, agreed rfl (by decide) (Machine.Run.start.exec hmeets)
    (by decide +kernel)⟩

end Agreeing

end PulseCoap
