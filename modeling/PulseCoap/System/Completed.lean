import PulseCoap.System.Asking

/-!
# PulseCoAP — a download is never stuck

Whatever the network has done so far, as long as the request is open the client
has asked for the very block that it waits for, and the datagram is still on its
way. From there on it is enough that the next datagrams get through: each round
the server sends this block and the client asks for the one behind it, until the
handler of the call has the payload.

The proof has two halves that meet in `Pursuit`. Over any run, what the client
waits for and what it has asked for agree, by induction on the run; a datagram
that was sent can be delivered at any later time, so a request that was lost so
far is still there to be delivered now. From such a state a round is computed,
and the rounds are counted by the number of the block that is due, which is
below the length of the payload.

* `Pursues` — what the client has asked for, and of whom.
* `Pursuit.next` — every step keeps it, or the request is over.
* `round` — one block, and `rounds` — all that are left.
* `fetched_completes` — from every state that can be reached.
* `Ready`, `Answered`, `AsksOut` — what is asked of the state, of the response,
  and of the transport.
* `heard_round` — the client's half of a round.
-/

namespace PulseCoap

namespace Fetch

open Client (transmit buildBlock2 expectedNum recvBlock block2Of Fired)
open Server (Offers)
open TransactionPool (Awaiting)

variable {cfg : Config} {link : Link} {payload : Bytes} {i : Fin cfg.maxTransactions}
  {p : PendingRequest} {methods : List Code} {segs : List Bytes}

-- ===========================================================================
-- What the client has asked for
-- ===========================================================================

/-- The number the client has to ask for next. -/
def wanted (c : Client cfg) (i : Fin cfg.maxTransactions) : Nat :=
  if cfg.enableBlockwise then due c i else 0

/-- What the path and the payload must be for the transfer to come to its end. -/
structure Feasible (cfg : Config) (payload path : Bytes) (segs : List Bytes) : Prop where
  named : Uri.NormalForm path segs
  short : path.length < cfg.maxUriPathLen
  fits  : cfg.enableBlockwise = true → NextFits cfg segs
  body  : payload.length ≤ cfg.block2MaxBody
  count : payload.length ≤ 2 ^ 20 * size cfg

/-- The message that is about to be dispatched is the server's. -/
def FromServer (link : Link) : Control cfg → Prop
  | .polling (.dispatch sender _) _ => sender = link.server
  | _ => True

/-- The transfer of slot `i` for the request `p`: the block that is due has been asked for, or is
about to be. -/
structure Pursues (link : Link) (i : Fin cfg.maxTransactions) (p : PendingRequest)
    (methods : List Code) (c : Client cfg) (toServer : List Bytes) : Prop where
  token   : ∃ token, p.token = [token]
  get     : Code.get ∈ methods
  quiet   : ∀ j, (c.discovers j).active = false
  pending : (c.slots i).pending = p
  path    : cfg.enableBlockwise = true → (c.slots i).recv.path = p.path
  server  : cfg.enableBlockwise = true → (c.slots i).recv.active = true →
    (c.slots i).recv.server = link.server
  control : FromServer link c.control
  asking  : c.asking = none → ∃ data ∈ toServer,
    Requests cfg p.path p.token methods (wanted c i) data
  asks    : c.asking = some i → 0 < due c i

variable {c : Client cfg} {toServer toClient : List Bytes}

/-- The slots are as they were, and no block is asked for next. -/
theorem Pursues.keep (h : Pursues link i p methods c toServer) (hask : c.asking = none)
    {r : Client cfg × List ClientEvent} (hslots : r.1.slots = c.slots)
    (hdisc : ∀ j, (r.1.discovers j).active = true → (c.discovers j).active = true)
    (hctl : FromServer link r.1.control) (hask' : r.1.asking = none) :
    Pursues link i p methods r.1 (toServer ++ System.clientData link.server r.2) := by
  obtain ⟨data, hdata, hreq⟩ := h.asking hask
  refine ⟨h.token, h.get, fun j => ?_, ?_, ?_, ?_, hctl, fun _ => ⟨data, List.mem_append_left _ hdata, ?_⟩,
    fun hsome => ?_⟩
  · refine Bool.eq_false_iff.2 fun hact => ?_
    have hbefore := hdisc j hact
    rw [h.quiet j] at hbefore
    cases hbefore
  · rw [hslots]
    exact h.pending
  · rw [hslots]
    exact h.path
  · rw [hslots]
    exact h.server
  · unfold wanted due at hreq ⊢
    rw [hslots]
    exact hreq
  · rw [hask'] at hsome
    cases hsome

/-- `poll` up to its first cut. -/
theorem Pursues.poll (h : Pursues link i p methods c toServer) (hidle : c.control = .idle)
    (honly : ∀ j, (c.slots j).pending.active = true → j = i) (nowMs : UInt32)
    {rx : Option (Endpoint × Bytes)} (hrx : ∀ sender data, rx = some (sender, data) →
      sender = link.server) :
    Over i (c.poll nowMs rx).1 ∨ Pursues link i p methods (c.poll nowMs rx).1
      (toServer ++ System.clientData link.server (c.poll nowMs rx).2) := by
  have hask : c.asking = none := by
    unfold Client.asking
    rw [hidle]
  have hdisc : ∀ j, ((c.poll nowMs rx).1.discovers j).active = true →
      (c.discovers j).active = true := by
    intro j hj
    rw [← (Client.narrows_poll c nowMs rx).discovers j hj]
    exact hj
  -- the clock moves on only, a Reset may end the request, and a message waits for its dispatch
  rcases c.poll_cases nowMs rx with heq | ⟨sender, data, msg, hsome, -, heq⟩
  · rw [heq] at hdisc ⊢
    exact .inr (h.keep hask rfl hdisc trivial rfl)
  rw [heq] at hdisc ⊢
  have hsender : sender = link.server := hrx sender data hsome
  rcases (c.atTime nowMs).handleMessage_cases sender msg with ⟨-, heq⟩ | ⟨c', hc', heq | heq⟩
  · rw [heq] at hdisc ⊢
    rcases (c.atTime nowMs).handleReset_cases sender msg.messageId with heq | ⟨t, j, -, hfind, heq⟩
    · rw [heq] at hdisc ⊢
      exact .inr (h.keep hask rfl hdisc trivial rfl)
    · -- an RST ends the request
      obtain rfl := honly j (Client.findPendingByToken_spec hfind).1
      rw [heq, Client.fireTimeout_eq]
      refine .inl (.inl ?_)
      show ((c.slots.set j _) j).pending.active = false
      rw [Table.set_self]
  all_goals
    rw [heq] at hdisc ⊢
    rcases hc' with rfl | rfl
  · exact .inr (h.keep hask rfl hdisc hsender rfl)
  · exact .inr (h.keep hask rfl hdisc hsender rfl)
  · exact .inr (h.keep hask rfl hdisc trivial rfl)
  · exact .inr (h.keep hask rfl hdisc trivial rfl)

/-- After a callback the slot is about to be closed. -/
theorem over_response {c' : Client cfg} (hobs : (c'.slots i).pending.observing = false)
    (res : ClientResponse) (fragmented : Bool) : Over i (c'.fireResponse i res fragmented).1 := by
  rw [Client.fireResponse_eq]
  exact .inr ⟨hobs, _, _, _, rfl⟩

/-- **The receive state after a block** waits for one behind it: for the next one if the block
was the one that it expected, and for the same one otherwise. -/
theorem recvBlock_due (cfg : Config) {recv : Block2RecvState} {b : BlockOption} (hb : b.num.toNat < 2 ^ 20)
    (hnum : b.num.toNat ≤ (expectedNum recv).toNat) (sender : Endpoint) (msg : Message) :
    (recvBlock cfg recv b sender msg).path = recv.path ∧
      (recvBlock cfg recv b sender msg).server = (if recv.active then recv.server else sender) ∧
      0 < (recvBlock cfg recv b sender msg).nextNum.toNat ∧
      (b.num.toNat = (expectedNum recv).toNat →
        (recvBlock cfg recv b sender msg).nextNum.toNat = b.num.toNat + 1) := by
  have hsucc : (b.num + 1).toNat = b.num.toNat + 1 := System.toNat_next hb
  unfold expectedNum at hnum ⊢
  unfold Client.recvBlock
  cases hact : recv.active with
  | false =>
    rw [hact] at hnum
    have h0 : b.num = 0 := UInt32.toNat_inj.1 (Nat.le_zero.1 hnum)
    rw [h0]
    exact ⟨rfl, rfl, Nat.one_pos, fun _ => rfl⟩
  | true =>
    rw [hact] at hnum
    simp only [Bool.not_true, Bool.false_eq_true, if_false, if_true] at hnum ⊢
    split
    · next heq =>
      rw [← heq, hsucc]
      exact ⟨rfl, rfl, Nat.succ_pos _, fun _ => rfl⟩
    · next hne =>
      have hlt : b.num.toNat < recv.nextNum.toNat :=
        Nat.lt_of_le_of_ne hnum fun heq => hne (UInt32.toNat_inj.1 heq)
      exact ⟨rfl, rfl, Nat.lt_of_le_of_lt (Nat.zero_le _) hlt, fun heq => absurd heq (Nat.ne_of_lt hlt)⟩

/-- **A response for the slot** ends the request or keeps the pursuit: the client still has a
block to ask for, under the same token and path. -/
theorem Pursues.dispatchPending (h : Pursues link i p methods c toServer)
    (hside : ClientSide i payload c toServer toClient) {msg : Message}
    (hbears : Bears cfg payload (due c i) msg) (hmax : payload.length ≤ cfg.block2MaxBody) :
    Over i (c.dispatchPending i link.server msg).1 ∨
      Pursues link i p methods (c.dispatchPending i link.server msg).1
        (toServer ++ System.clientData link.server (c.dispatchPending i link.server msg).2) := by
  have hslot : ∀ up recv, (c.setBlocks i up recv).slots i =
      { c.slots i with upload := up, recv } := fun up recv => Table.set_self _ _ _
  have hobs : ∀ up recv, ((c.setBlocks i up recv).slots i).pending.observing = false := by
    intro up recv
    rw [hslot]
    exact hside.observing
  -- plain or in blocks: a plain response and the last block end the request
  by_cases hb : cfg.enableBlockwise = true
  · have hcont : ¬ (msg.code = Code.«continue» ∧ (c.slots i).upload.active = true) := by
      rw [hside.upload hb]
      exact fun hboth => absurd hboth.2 Bool.false_ne_true
    cases h2 : block2Of msg with
    | none =>
      rw [Client.dispatchPending_plain hb hcont h2]
      exact .inl (over_response (hobs _ _) _ false)
    | some b =>
      obtain ⟨hact, -, -, -⟩ := recvBlock_gathers hmax (hside.recv hb) hbears h2 link.server
      obtain ⟨hpath, hserver, hpos, -⟩ :=
        recvBlock_due cfg (block2Of_num h2) (hbears.block b h2).2.1 link.server msg
      rw [Client.dispatchPending_fragment hb hcont h2]
      dsimp only
      split
      · -- there is more
        refine .inr ⟨h.token, h.get, h.quiet, ?_, fun _ => ?_, fun _ _ => ?_, trivial, ?_, fun _ => ?_⟩
        · show ((c.setBlocks i _ _).slots i).pending = p
          rw [hslot]
          exact h.pending
        · show ((c.setBlocks i _ _).slots i).recv.path = p.path
          rw [hslot]
          exact hpath.trans (h.path hb)
        · show ((c.setBlocks i _ _).slots i).recv.server = link.server
          rw [hslot]
          refine hserver.trans ?_
          split
          · next hrecv => exact h.server hb hrecv
          · rfl
        · rintro ⟨⟩
        · show 0 < (expectedNum ((c.setBlocks i _ _).slots i).recv).toNat
          rw [hslot, expectedNum, if_pos hact]
          exact hpos
      · -- the last block, which has brought the payload
        exact .inl (over_response (hobs _ _) _ true)
  · have heq : c.dispatchPending i link.server msg = c.handlePlain i msg := by
      rw [Client.dispatchPending, if_neg hb]
    rw [heq]
    exact .inl (over_response hside.observing _ false)

/-- **The request for the next block** goes out, by the conditions on the path, the option table
and the size of a datagram. -/
theorem Feasible.requests (hf : Feasible cfg payload p.path segs) (hb : cfg.enableBlockwise = true)
    {recv : Block2RecvState} (hg : Gathers cfg payload recv) (hpath : recv.path = p.path)
    (hpos : 0 < recv.nextNum.toNat) (messageId : UInt16) (htoken : ∃ token, p.token = [token])
    (hget : Code.get ∈ methods) :
    ∃ buf, transmit cfg (buildBlock2 cfg recv p.token messageId) true = some buf ∧
      Requests cfg p.path p.token methods recv.nextNum.toNat buf := by
  have hnum : recv.nextNum.toNat < 2 ^ 20 := by
    by_contra hge
    have hmul := Nat.mul_le_mul_right (size cfg) (Nat.le_of_not_lt hge)
    have hshort := hg.short
    have hcount := hf.count
    omega
  have hszx : recv.szx.toNat < 8 := by
    have hle : cfg.blockSzx.toNat ≤ 6 := cfg.szx_le
    rw [hg.szx]
    omega
  obtain ⟨token, htoken⟩ := htoken
  rw [htoken, ← hpath]
  exact next_requests (by rw [hpath]; exact hf.named) (by rw [hpath]; exact hf.short) (hf.fits hb)
    hpos hnum hszx token messageId hget

/-- The code after a cut. -/
theorem Pursues.resume (h : Pursues link i p methods c toServer)
    (hside : ClientSide i payload c toServer toClient) (hf : Feasible cfg payload p.path segs)
    (honly : ∀ j, (c.slots j).pending.active = true → j = i)
    (hans : ∀ data ∈ toClient, BearsIn cfg payload (due c i) data) {k : Cont cfg}
    {inCallback : Bool} (hctl : c.control = .polling k inCallback) {sendOk : Bool}
    (hsend : c.asking.isSome = true → sendOk = true) :
    Over i (c.resume k sendOk).1 ∨ Pursues link i p methods (c.resume k sendOk).1
      (toServer ++ System.clientData link.server (c.resume k sendOk).2) := by
  have hstanding := hside.control
  rw [hctl] at hstanding
  cases k with
  | dispatch sender msg =>
    have hask : c.asking = none := by
      unfold Client.asking
      rw [hctl]
    obtain rfl : sender = link.server := by
      have hfrom := h.control
      rwa [hctl] at hfrom
    obtain ⟨data, hdata, hdec⟩ := hstanding
    have hdispatch : Over i (c.dispatchResponse link.server msg).1 ∨
        Pursues link i p methods (c.dispatchResponse link.server msg).1
          (toServer ++ System.clientData link.server (c.dispatchResponse link.server msg).2) := by
      -- a discovery is not open, and no other slot is
      rcases c.dispatchResponse_cases link.server msg with ⟨j, hfind, -⟩ | ⟨j, -, hfind, heq⟩ |
        ⟨-, -, heq⟩
      · have hact := (Client.findDiscover_spec hfind).1
        rw [h.quiet j] at hact
        cases hact
      · obtain rfl := honly j (Client.findPendingByToken_spec hfind).1
        rw [heq]
        exact h.dispatchPending hside (hans data hdata msg hdec) hf.body
      · rw [heq]
        exact .inr (h.keep hask rfl (fun _ => id) trivial rfl)
    -- what the dispatch asks for is sent behind its ACK
    refine hdispatch.imp_right fun hp => { hp with asking := fun hnone => ?_ }
    obtain ⟨data', hdata', hreq⟩ := hp.asking hnone
    refine ⟨data', ?_, hreq⟩
    rcases List.mem_append.1 hdata' with hold | hnew
    · exact List.mem_append_left _ hold
    · refine List.mem_append_right _ (System.mem_clientData.2 ?_)
      exact List.mem_append_right _ (System.mem_clientData.1 hnew)
  -- the call is no upload
  | block1 j => exact hstanding.elim
  | block2 j =>
    obtain ⟨rfl, hb, hact⟩ := hstanding
    have hask : c.asking = some j := by
      unfold Client.asking
      rw [hctl]
    obtain rfl : sendOk = true := hsend (by rw [hask]; rfl)
    have hdue : due c j = (c.slots j).recv.nextNum.toNat := by
      rw [due, expectedNum, if_pos hact]
    obtain ⟨buf, hbuf, hreq⟩ := hf.requests hb (hside.recv hb hact) (h.path hb)
      (by rw [← hdue]; exact h.asks hask) c.nextMessageId h.token h.get
    have hdatagram : c.block2Datagram j true = some buf := by
      unfold Client.block2Datagram
      rw [h.pending]
      exact hbuf
    rw [← hdue, show due c j = wanted c j from (if_pos hb).symm] at hreq
    -- the block is asked for, and its datagram is on the way
    rcases c.resumeBlock2_cases j true with ⟨hnone, -⟩ | ⟨buf', hbuf', heq⟩
    · rw [hnone] at hdatagram
      cases hdatagram
    · obtain rfl : buf = buf' := Option.some.inj (hdatagram.symm.trans hbuf')
      rw [heq, h.server hb hact]
      refine .inr ⟨h.token, h.get, h.quiet, h.pending, h.path, h.server, trivial,
        fun _ => ⟨buf, ?_, hreq⟩, ?_⟩
      · exact List.mem_append_right _ (System.mem_clientData.2 (List.mem_singleton_self _))
      · rintro ⟨⟩
  | close j fragmented call => exact hstanding.elim
  | expire =>
    have hask : c.asking = none := by
      unfold Client.asking
      rw [hctl]
    refine .inr (h.keep hask rfl (fun j hj => ?_) trivial rfl)
    rw [← (Client.narrows_expireDiscovers c).discovers j hj]
    exact hj
  | tick index =>
    have hask : c.asking = none := by
      unfold Client.asking
      rw [hctl]
    rw [Client.resume_tick]
    split
    · next hlt =>
      rcases c.tickAt_cases ⟨index, hlt⟩ sendOk with ⟨-, heq⟩ | ⟨-, -, -, heq⟩ | ⟨-, -, -, heq⟩
      · rw [heq]
        exact .inr (h.keep hask rfl (fun _ => id) trivial rfl)
      · rw [heq]
        exact .inr (h.keep hask rfl (fun _ => id) trivial rfl)
      · -- the request is given up, or it was another one's
        rw [heq]
        rcases (c.freed ⟨index, hlt⟩).timeoutTrampoline_cases (c.transactions ⟨index, hlt⟩).token
          (c.transactions ⟨index, hlt⟩).owner (.tick (index + 1)) with ⟨j, hfind, heq⟩ | ⟨-, heq⟩
        · obtain rfl := honly j (Client.findPendingByToken_spec hfind).1
          rw [heq, Client.fireTimeout_eq]
          refine .inl (.inl ?_)
          show ((c.slots.set j _) j).pending.active = false
          rw [Table.set_self]
        · rw [heq, Client.fireTimeout_eq]
          exact .inr (h.keep hask rfl (fun _ => id) trivial rfl)
    · exact .inr (h.keep hask rfl (fun _ => id) trivial rfl)
  | ret =>
    have hask : c.asking = none := by
      unfold Client.asking
      rw [hctl]
    exact .inr (h.keep hask rfl (fun _ => id) trivial rfl)

/-- **A step of the client** while the transfer lasts. A request for a block that the transport
does not take is the one thing that would leave the server unasked. -/
theorem Pursues.step (h : Pursues link i p methods c toServer)
    (hside : ClientSide i payload c toServer toClient) (hf : Feasible cfg payload p.path segs)
    (honly : ∀ j, (c.slots j).pending.active = true → j = i)
    (hans : ∀ data ∈ toClient, BearsIn cfg payload (due c i) data) {a : Client.Action}
    (hcall : ∀ call sendOk, a ≠ .call call sendOk)
    (hrx : ∀ nowMs sender data, a = .poll nowMs (some (sender, data)) → sender = link.server)
    (hsend : ∀ sendOk, a = .resume sendOk → c.asking.isSome = true → sendOk = true) :
    Over i (c.step a).1 ∨ Pursues link i p methods (c.step a).1
      (toServer ++ System.clientData link.server (c.step a).2) := by
  rcases c.step_cases a with heq | ⟨call, sendOk, ha, -⟩ | ⟨nowMs, rx, ha, hidle, heq⟩ |
    ⟨sendOk, k, inCallback, ha, hctl, heq⟩
  · rw [heq]
    refine .inr { h with asking := fun hnone => ?_ }
    obtain ⟨data, hdata, hreq⟩ := h.asking hnone
    exact ⟨data, List.mem_append_left _ hdata, hreq⟩
  · exact absurd ha (hcall call sendOk)
  · rw [heq]
    exact h.poll hidle honly nowMs fun sender data hsome => hrx nowMs sender data (by rw [ha, hsome])
  · rw [heq]
    exact h.resume hside hf honly hans hctl (hsend sendOk ha)

-- ===========================================================================
-- Runs
-- ===========================================================================

/-- The request for a further block gets out. -/
def AsksOut (sys : System cfg) : System.Action → Prop
  | .client (.resume sendOk) => sys.client.asking.isSome = true → sendOk = true
  | _ => True

instance (sys : System cfg) : (a : System.Action) → Decidable (AsksOut sys a)
  | .client (.resume _) => inferInstanceAs (Decidable (_ → _))
  | .client (.call ..) | .client (.poll ..) | .server _ => .isTrue trivial

/-- The parties of a transfer, and what the client has asked for. -/
structure Pursuit (link : Link) (i : Fin cfg.maxTransactions) (payload : Bytes)
    (p : PendingRequest) (methods : List Code) (sys : System cfg) : Prop where
  inv  : Inv link i payload sys
  goal : Over i sys.client ∨ Pursues link i p methods sys.client sys.toServer

/-- **One step** keeps the invariant, on either side and whatever the network does. -/
theorem Pursuit.next (hf : Feasible cfg payload p.path segs)
    (hroom : cfg.enableBlockwise = true → 2 ≤ cfg.maxOptions) {sys : System cfg}
    (h : Pursuit link i payload p methods sys) {a : System.Action}
    (hsteps : Steps link payload sys a) (hout : AsksOut sys a) :
    Pursuit link i payload p methods (sys.next link a).1 := by
  refine ⟨(h.inv.next hf.body hroom hsteps).1, ?_⟩
  obtain ⟨hcarried, hone, -⟩ := hsteps
  cases a with
  | client a =>
    have hcall : ∀ call sendOk, a ≠ .call call sendOk := by
      rintro call sendOk rfl
      exact hone
    have hover : Over i sys.client → Over i (sys.client.step a).1 :=
      fun hover => (over_step h.inv.only hover hcall).1
    rcases h.goal with hdone | hp
    · exact .inl (hover hdone)
    rcases h.inv.sides with hdone | ⟨hclient, hserver⟩
    · exact .inl (hover hdone)
    · refine hp.step hclient hf h.inv.only hserver.answers hcall ?_ ?_
      · rintro nowMs sender data rfl
        exact hcarried.1
      · rintro sendOk rfl
        exact hout
  | server a => exact h.goal

-- ===========================================================================
-- One block
-- ===========================================================================

variable {nowMs : UInt32} {res : Response}

/-- **A poll of the client**, as a path of the system: the segments of `poll` follow each other,
and what it sends is on the network. -/
theorem poll_path (start : System cfg) (payload : Bytes) (res : Response) {sys : System cfg}
    {data : Bytes} (hdata : data ∈ sys.toClient) {ev : List ClientEvent} {c' : Client cfg}
    (hturn : (Client.machine cfg).exec [] sys.client
      (Client.wholePoll cfg nowMs (link.server, data)) = (ev, c')) :
    (System.machine link start).Path (Prompt link payload nowMs res) sys (ev.map .client)
      { sys with client := c', toServer := sys.toServer ++ System.clientData link.server ev } := by
  refine System.poll_path link start (fun sys' hsame => ?_) (fun _ _ => ?_) hturn
  · exact ⟨⟨⟨rfl, by rw [hsame]; exact hdata⟩, trivial, trivial⟩, rfl, rfl⟩
  · exact ⟨⟨trivial, trivial, trivial⟩, rfl⟩

/-- The only slot that is taken is found by its token. -/
theorem findPending_only (honly : ∀ j, (c.slots j).pending.active = true → j = i)
    (hact : (c.slots i).pending.active = true) :
    c.findPendingByToken (c.slots i).pending.token = some i := by
  cases hfind : c.findPendingByToken (c.slots i).pending.token with
  | none => exact absurd rfl (Client.findPendingByToken_none hfind i hact)
  | some j => rw [honly j (Client.findPendingByToken_spec hfind).1]

theorem findDiscover_none (hquiet : ∀ j, (c.discovers j).active = false) (token : Bytes) :
    c.findDiscover token = none := by
  cases hfind : c.findDiscover token with
  | none => rfl
  | some j =>
    have hact := (Client.findDiscover_spec hfind).1
    rw [hquiet j] at hact
    cases hact

/-- The request is open, both parties wait, neither has anything to send again at this time, and the
resource is there. -/
structure Ready (path : Bytes) (methods : List Code) (nowMs : UInt32) (sys : System cfg) : Prop where
  active : ∃ i, (sys.client.slots i).pending.active = true
  client : sys.client.control = .idle
  server : sys.server.control = .idle
  quiet  : sys.client.NoneDue nowMs
  calm   : sys.server.NoneDue nowMs
  offers : Offers sys.server path methods

/-- The handler of the call has had the payload, and the slot is free. -/
def Done (i : Fin cfg.maxTransactions) (payload : Bytes) (p : PendingRequest) (handler : Ref)
    (code : Code) (ev : List System.Event) (sys : System cfg) : Prop :=
  (sys.client.slots i).pending.active = false ∧ ∃ contentFormat,
    .client (.response p.call handler { code, payload, contentFormat } p.userContext) ∈ ev

/-- The response is the handler's, and at once. -/
structure Answered (cfg : Config) (payload : Bytes) (res : Response) : Prop where
  whole  : res.payload = payload
  inline : res.deferred = false
  code   : codeClass res.code ≠ 0
  fits   : ReplyFits cfg payload

/-- What is prompt lets the request for a block out. -/
theorem Prompt.asksOut {sys : System cfg} {a : System.Action}
    (h : Prompt link payload nowMs res sys a) : AsksOut sys a := by
  obtain ⟨-, hprompt⟩ := h
  cases a with
  | client a =>
    cases a with
    | resume sendOk => exact fun _ => hprompt
    | call | poll => trivial
  | server a => trivial

theorem Pursuit.path {start : System cfg} (hf : Feasible cfg payload p.path segs)
    (hroom : cfg.enableBlockwise = true → 2 ≤ cfg.maxOptions) {sys sys' : System cfg}
    {ev : List System.Event}
    (hpath : (System.machine link start).Path (Prompt link payload nowMs res) sys ev sys')
    (h : Pursuit link i payload p methods sys) : Pursuit link i payload p methods sys' :=
  hpath.invariant (fun _ _ hs hprompt => hs.next hf hroom hprompt.1 hprompt.asksOut) h

/-- **The client's half of a round**: it is given the block that is due, and asks for the one
behind it, or calls its handler and is done. -/
theorem heard_round (start : System cfg) (fit : Pool.TimersFit cfg)
    (hf : Feasible cfg payload p.path segs) {handler : Ref}
    (hhandler : p.onResponse = some handler) {sys : System cfg}
    (h : Pursuit link i payload p methods sys)
    (hact : (sys.client.slots i).pending.active = true) (hidle : sys.client.control = .idle)
    (hquiet : sys.client.NoneDue nowMs) {reply : Bytes} (hreply : reply ∈ sys.toClient)
    {answer : Message} (hdec : Message.decode cfg reply = (.none, answer)) {code : Code}
    (hans : Answers payload p.token code (wanted sys.client i) answer)
    (hclass : codeClass code ≠ 0) (res : Response) :
    ∃ ev sys', (System.machine link start).Path (Prompt link payload nowMs res) sys ev sys' ∧
      sys'.server = sys.server ∧ (Done i payload p handler code ev sys' ∨
        ((sys'.client.slots i).pending.active = true ∧ sys'.client.control = .idle ∧
          sys'.client.NoneDue nowMs ∧ wanted sys'.client i = wanted sys.client i + 1 ∧
          wanted sys'.client i < payload.length)) := by
  have hopen : ¬ Over i sys.client := by
    rintro (hoff | ⟨-, _, _, _, hclose⟩)
    · rw [hact] at hoff
      cases hoff
    · rw [hidle] at hclose
      cases hclose
  obtain ⟨hside, hserver⟩ := h.inv.sides.resolve_left hopen
  have hp := h.goal.resolve_left hopen
  have hbears : Bears cfg payload (due sys.client i) answer := hserver.answers reply hreply answer hdec
  have hresp : Client.IsResponse answer := by
    refine Client.isResponse_class ?_ (by rw [hans.code]; exact hclass)
    rcases hans.type with htype | htype <;> rw [htype] <;> decide
  have hdisc := findDiscover_none hp.quiet answer.token
  have hfind : sys.client.findPendingByToken answer.token = some i := by
    rw [hans.token, ← hp.pending]
    exact findPending_only h.inv.only hact
  have hback : (sys.client.slots i).pending.onResponse = some handler := by
    rw [hp.pending]
    exact hhandler
  have hcont : cfg.enableBlockwise = true → ¬ (answer.code = Code.«continue» ∧
      (sys.client.slots i).upload.active = true) := by
    intro hb hboth
    rw [hside.upload hb] at hboth
    exact absurd hboth.2 Bool.false_ne_true
  -- the answer comes to slot `i`, which has a handler
  -- a slot that does not observe is given back
  have hclosed : ∀ up recv fragmented, ((sys.client.slots.set i (Client.closedSlot
      { sys.client.slots i with upload := up, recv } fragmented)) i).pending.active = false := by
    intro up recv fragmented
    rw [Table.set_self, Client.closedSlot, if_neg (by rw [hside.observing]; exact Bool.false_ne_true)]
  by_cases hplain : cfg.enableBlockwise = true → block2Of answer = none
  · -- the whole payload at once
    have h2 : block2Of answer = none := by
      by_cases hb : cfg.enableBlockwise = true
      · exact hplain hb
      · exact hbears.off (Bool.eq_false_iff.2 hb)
    refine ⟨_, _, poll_path start payload res hreply (Client.turn_plain hidle hdec hresp hdisc hfind
      (fun hb => hcont hb) hplain hback hquiet), rfl, .inl ⟨hclosed _ _ _, Client.responseFormat answer, ?_⟩⟩
    · refine List.mem_map.2 ⟨_, List.mem_append_right _ (List.mem_singleton_self _), ?_⟩
      rw [hans.code, hans.whole h2, hp.pending]
  · obtain ⟨hb, hsome⟩ := Classical.not_imp.1 hplain
    obtain ⟨b, h2⟩ := Option.ne_none_iff_exists'.1 hsome
    obtain ⟨hrecv, -, hmore, hlast⟩ :=
      recvBlock_gathers hf.body (hside.recv hb) hbears h2 link.server
    obtain ⟨hpath, -, hpos, hsucc⟩ :=
      recvBlock_due cfg (block2Of_num h2) (hbears.block b h2).2.1 link.server answer
    -- the last block brings the rest of the payload
    cases hm : b.m with
    | false =>
      refine ⟨_, _, poll_path start payload res hreply (Client.turn_last hidle hdec hresp hdisc
        hfind hb (hcont hb) h2 hm hback hquiet), rfl, .inl ⟨hclosed _ _ _,
        (recvBlock cfg (sys.client.slots i).recv b link.server answer).contentFormat, ?_⟩⟩
      · refine List.mem_map.2 ⟨_, List.mem_append_right _ (List.mem_singleton_self _), ?_⟩
        rw [hans.code, hlast hm, hp.pending]
    | true =>
      obtain ⟨buf, hbuf, hreq⟩ := hf.requests hb (hmore hm) (hpath.trans (hp.path hb)) hpos
        sys.client.nextMessageId hp.token hp.get
      rw [← hp.pending] at hbuf
      -- one block on
      have hwanted : (recvBlock cfg (sys.client.slots i).recv b link.server answer).nextNum.toNat =
          wanted sys.client i + 1 := by
        rw [hsucc ((hans.block b h2).trans (if_pos hb)), hans.block b h2]
      have hshort : wanted sys.client i + 1 < payload.length := by
        rw [← hwanted]
        exact Nat.lt_of_le_of_lt (Nat.le_mul_of_pos_right _ (Nat.two_pow_pos _)) (hmore hm).short
      refine ⟨_, _, poll_path start payload res hreply (Client.turn_more fit hidle hdec hresp hdisc
        hfind hb (hcont hb) h2 hm hbuf hquiet), rfl, .inr ?_⟩
      generalize hc' : (((sys.client.heard nowMs link.server answer).setBlocks i
        (Client.uploadDone (sys.client.slots i).upload) (recvBlock cfg (sys.client.slots i).recv b
          link.server answer)).block2Sent i buf).settled = c'
      have hslot : c'.slots i = { sys.client.slots i with
          upload := Client.uploadDone (sys.client.slots i).upload
          recv := recvBlock cfg (sys.client.slots i).recv b link.server answer } := by
        rw [← hc']
        exact Table.set_self _ _ _
      have hnow : wanted c' i = wanted sys.client i + 1 := by
        rw [wanted, if_pos hb, due, hslot, expectedNum, if_pos hrecv, hwanted]
      refine ⟨?_, ?_, ?_, hnow, by rw [hnow]; exact hshort⟩
      · rw [hslot]
        exact hact
      · rw [← hc']
        rfl
      · rw [← hc']
        -- the slot still waits, one block further, and nothing has fallen due
        refine TransactionPool.noneDue_start fit ?_ _ _ _ _ _
        exact Client.noneDue_heard hquiet link.server answer

/-- **One round**: the server sends the block that is due, and the client asks for the one
behind it, or is done. A request for the block is on the network already, so no timer is needed. -/
theorem round (start : System cfg) (fit : Pool.TimersFit cfg)
    (hf : Feasible cfg payload p.path segs) (ha : Answered cfg payload res)
    (hroom : cfg.enableBlockwise = true → 2 ≤ cfg.maxOptions) {handler : Ref}
    (hhandler : p.onResponse = some handler) {sys : System cfg}
    (h : Pursuit link i payload p methods sys) (hr : Ready p.path methods nowMs sys) :
    ∃ ev sys', (System.machine link start).Path (Prompt link payload nowMs res) sys ev sys' ∧
      (Done i payload p handler res.code ev sys' ∨
        Ready p.path methods nowMs sys' ∧ wanted sys'.client i = wanted sys.client i + 1 ∧
          wanted sys'.client i < payload.length) := by
  have hact : (sys.client.slots i).pending.active = true := by
    obtain ⟨j, hj⟩ := hr.active
    rwa [h.inv.only j hj] at hj
  have hopen : ¬ Over i sys.client := by
    rintro (hoff | ⟨-, _, _, _, hclose⟩)
    · rw [hact] at hoff
      cases hoff
    · rw [hr.client] at hclose
      cases hclose
  obtain ⟨hside, -⟩ := h.inv.sides.resolve_left hopen
  have hp := h.goal.resolve_left hopen
  have hask : sys.client.asking = none := by
    unfold Client.asking
    rw [hr.client]
  obtain ⟨data, hdata, hreq⟩ := hp.asking hask
  obtain ⟨token, htoken⟩ := hp.token
  -- the block that is asked for is one of the payload
  have hinside : 0 < wanted sys.client i → wanted sys.client i * size cfg < payload.length := by
    unfold wanted due expectedNum
    intro hpos
    by_cases hb : cfg.enableBlockwise = true
    · rw [if_pos hb] at hpos ⊢
      by_cases hrecv : (sys.client.slots i).recv.active = true
      · rw [if_pos hrecv]
        exact (hside.recv hb hrecv).short
      · rw [if_neg hrecv] at hpos
        cases hpos
    · rw [if_neg hb] at hpos
      cases hpos
  -- first the server's turn, then the client's
  obtain ⟨ev₁, sys₁, reply, answer, hpath₁, hclient, -, htoClient, hidle, hresources, hpool, hdec,
    hans⟩ := served start hr.server hr.calm hr.offers hroom ha.whole ha.inline ha.fits
      (by rw [htoken]; exact Nat.le_refl _) hdata hreq (hside.sent data hdata) hinside
  have h₁ := h.path hf hroom hpath₁
  have hreply : reply ∈ sys₁.toClient := by
    rw [htoClient]
    exact List.mem_append_right _ (List.mem_singleton_self _)
  obtain ⟨ev₂, sys₂, hpath₂, hserver, hend⟩ := heard_round start fit hf hhandler h₁
    (by rw [hclient]; exact hact) (by rw [hclient]; exact hr.client)
    (by rw [hclient]; exact hr.quiet) hreply hdec
    (by rw [hclient]; exact hans) ha.code res
  rw [hclient] at hend
  refine ⟨ev₁ ++ ev₂, sys₂, hpath₁.trans hpath₂, ?_⟩
  rcases hend with ⟨hoff, format, hmem⟩ | ⟨hact', hidle₂, hquiet, hwanted⟩
  · exact .inl ⟨hoff, format, List.mem_append_right _ hmem⟩
  · refine .inr ⟨⟨⟨i, hact'⟩, hidle₂, by rw [hserver]; exact hidle, hquiet, ?_, ?_⟩, hwanted⟩
    · rw [hserver]
      show TransactionPool.NoneDue _ _
      rw [hpool]
      exact hr.calm
    · rw [hserver]
      exact hr.offers.congr hresources

/-- **All the rounds that are left**, by induction on a bound for the blocks that are still to
come. -/
theorem rounds (start : System cfg) (fit : Pool.TimersFit cfg)
    (hf : Feasible cfg payload p.path segs) (ha : Answered cfg payload res)
    (hroom : cfg.enableBlockwise = true → 2 ≤ cfg.maxOptions) {handler : Ref}
    (hhandler : p.onResponse = some handler) (n : Nat) : ∀ {sys : System cfg},
    Pursuit link i payload p methods sys → Ready p.path methods nowMs sys →
      payload.length ≤ wanted sys.client i + n →
        ∃ ev sys', (System.machine link start).Path (Prompt link payload nowMs res) sys ev sys' ∧
          Done i payload p handler res.code ev sys' := by
  induction n with
  | zero =>
    intro sys h hr hn
    obtain ⟨ev, sys', hpath, hdone | ⟨-, hone, hlt⟩⟩ := round start fit hf ha hroom hhandler h hr
    · exact ⟨ev, sys', hpath, hdone⟩
    · omega
  | succ n ih =>
    intro sys h hr hn
    obtain ⟨ev, sys', hpath, hdone | ⟨hr', hone, -⟩⟩ := round start fit hf ha hroom hhandler h hr
    · exact ⟨ev, sys', hpath, hdone⟩
    · obtain ⟨ev', sys'', hpath', hoff, format, hmem⟩ := ih (h.path hf hroom hpath) hr' (by omega)
      exact ⟨ev ++ ev', sys'', hpath.trans hpath', hoff, format, List.mem_append_right _ hmem⟩

-- ===========================================================================
-- The transfer
-- ===========================================================================

/-- The entry of a call in the table. -/
def pendingFor (cfg : Config) (c : Client cfg) (a : Client.RequestArgs) : PendingRequest where
  active := true
  server := a.server
  token := [c.nextTokenByte]
  onResponse := a.onResponse
  userContext := a.userContext
  observing := a.markObserving
  path := Client.storedPath cfg a.path
  call := a.call c.calls

/-- The call has asked for the first block. -/
theorem pursuit_start {c : Client cfg} (hv : System.Vacant c) {call : Client.ClientCall}
    {a : Client.RequestArgs} (hshape : call.shape = .issue a) (hplain : a.blockwise cfg = false)
    (hkind : a.kind = .request) (hserver : a.server = link.server)
    (hf : Feasible cfg payload a.path segs) {sendOk : Bool}
    (hok : (c.call sendOk call).2.1 = true) :
    ∃ i, Pursuit link i payload (pendingFor cfg c a) [a.method, Code.get]
      (System.afterCall link c call sendOk) := by
  obtain ⟨i, hinv⟩ : ∃ i, Inv link i payload (System.afterCall link c call sendOk) :=
    inv_start hv hshape hplain hkind hok payload
  refine ⟨i, hinv, .inr ?_⟩
  obtain ⟨-, hobserve⟩ := kind_request hkind
  have hpath : (pendingFor cfg c a).path = a.path := if_pos hf.short
  have honly := hinv.only
  unfold System.afterCall at honly ⊢
  rw [plain_call c hshape hplain] at hok honly ⊢
  rcases c.sendRequest_cases a sendOk with ⟨-, heq⟩ | ⟨k, -, -, heq⟩ | ⟨k, buf, -, hbuf, heq⟩
  · rw [heq] at hok
    cases hok
  · rw [heq] at hok
    cases hok
  rw [heq] at honly ⊢
  -- the slot that was taken is this one
  obtain rfl : k = i := by
    refine honly k ?_
    dsimp only
    rw [Table.set_self]
    rfl
  have hslot : (c.slots.set k (Client.requestSlot cfg (c.slots k) a c.nextTokenByte
      (a.call c.calls))) k = Client.requestSlot cfg (c.slots k) a c.nextTokenByte
        (a.call c.calls) := Table.set_self _ _ _
  have hrecv : cfg.enableBlockwise = true → ((Client.requestSlot cfg (c.slots k) a c.nextTokenByte
      (a.call c.calls)).recv = { (c.slots k).recv with
        active := false, path := Client.storedPath cfg a.path }) := fun hb => if_pos hb
  refine ⟨⟨c.nextTokenByte, rfl⟩, by simp, hv.discovers, ?_, fun hb => ?_, fun hb hact => ?_, ?_,
    fun _ => ⟨buf, ?_, ?_⟩, fun hask => ?_⟩
  all_goals dsimp only at *
  · rw [hslot]
    rfl
  · rw [hslot, hrecv hb]
    rfl
  · rw [hslot, hrecv hb] at hact
    cases hact
  · rw [hv.idle]
    trivial
  · rw [← hserver]
    exact System.mem_clientData.2 (List.mem_cons_self ..)
  · have hzero : wanted ({ c with
        slots := c.slots.set k (Client.requestSlot cfg (c.slots k) a c.nextTokenByte (a.call c.calls)) } :
          Client cfg) k = 0 := by
      unfold wanted due
      split
      · next hb =>
        dsimp only
        rw [hslot, hrecv hb]
        rfl
      · rfl
    have hreq : Requests cfg a.path [c.nextTokenByte] [a.method, Code.get] 0 buf :=
      first_requests hobserve hf.named hf.short hbuf (by simp)
    rw [hpath]
    rw [← hzero] at hreq
    exact hreq
  · unfold Client.asking at hask
    dsimp only at hask
    rw [hv.idle] at hask
    cases hask

/-- **A download is never stuck.** A client that had nothing in progress makes a plain request, and
the network does with it what it likes; only the transport does not refuse the requests for further
blocks. The path and the payload must fit the tables and the datagrams of the build (`Feasible`,
`Answered`), and its timers a round of the clock. Whenever both parties wait and the request is still
open, there are steps that bring it to its end: datagrams that have been sent already are delivered,
the handler returns the payload, and the client's is called with all of it. -/
theorem fetched_completes (fit : Pool.TimersFit cfg)
    (hroom : cfg.enableBlockwise = true → 2 ≤ cfg.maxOptions) {c : Client cfg}
    (hv : System.Vacant c) {call : Client.ClientCall} {a : Client.RequestArgs}
    (hshape : call.shape = .issue a) (hplain : a.blockwise cfg = false) (hkind : a.kind = .request)
    (hserver : a.server = link.server) (hf : Feasible cfg payload a.path segs) {handler : Ref}
    (hhandler : a.onResponse = some handler) {sendOk : Bool}
    (hok : (c.call sendOk call).2.1 = true) {hist : List System.Event} {sys : System cfg}
    (r : (System.machine link (System.afterCall link c call sendOk)).Run
      (fun sys act => Steps link payload sys act ∧ AsksOut sys act) hist sys) {nowMs : UInt32}
    (hr : Ready a.path [a.method, Code.get] nowMs sys) {res : Response}
    (ha : Answered cfg payload res) :
    ∃ ev sys' contentFormat, (System.machine link (System.afterCall link c call sendOk)).Path
        (Prompt link payload nowMs res) sys ev sys' ∧
      .client (.response (a.call c.calls) handler { code := res.code, payload, contentFormat }
        a.userContext) ∈ ev ∧
      ∀ j, (sys'.client.slots j).pending.active = false := by
  have hpath : (pendingFor cfg c a).path = a.path := if_pos hf.short
  obtain ⟨i, hstart⟩ := pursuit_start hv hshape hplain hkind hserver hf hok
  have h : Pursuit link i payload (pendingFor cfg c a) [a.method, Code.get] sys :=
    r.invariant (I := fun _ sys => Pursuit link i payload (pendingFor cfg c a) [a.method, Code.get]
      sys) hstart fun _ h hsteps => h.next (by rw [hpath]; exact hf) hroom hsteps.1 hsteps.2
  obtain ⟨ev, sys', hp, hoff, format, hmem⟩ := rounds (System.afterCall link c call sendOk) fit
    (by rw [hpath]; exact hf) ha hroom hhandler payload.length h (by rw [hpath]; exact hr)
    (Nat.le_add_left _ _)
  refine ⟨ev, sys', format, hp, hmem, fun j => Bool.eq_false_iff.2 fun hact => ?_⟩
  have h' := h.path (by rw [hpath]; exact hf) hroom hp
  rw [h'.inv.only j hact, hoff] at hact
  cases hact

-- ===========================================================================
-- Two blocks of three
-- ===========================================================================

def getArgs : Client.RequestArgs :=
  { server := fetchLink.server, path := [0x2F, 0x61], method := Code.get, onResponse := some 0 }

/-- The first block has come, and the server has sent the second. -/
theorem fetched_completes_second :
    ∃ ev sys' contentFormat, (System.machine fetchLink started).Path
        (Prompt fetchLink document 1 { payload := document }) (after second) ev sys' ∧
      .client (.response (getArgs.call 0) 0 { code := Code.content, payload := document, contentFormat }
        none) ∈ ev ∧
      ∀ j, (sys'.client.slots j).pending.active = false := by
  have hvacant : System.Vacant ({} : Client Config.blockwise) :=
    ⟨rfl, fun _ => rfl, fun _ => rfl, fun _ h => by cases h⟩
  have hmeets : (System.machine fetchLink started).Meets
      (fun sys act => Steps fetchLink document sys act ∧ AsksOut sys act) started second := by
    decide +kernel
  have hshape : getThree.shape = .issue getArgs := rfl
  have hready : Ready [0x2F, 0x61] [Code.get, Code.get] 1 (after second) := by
    exact ⟨by decide +kernel, by decide +kernel, by decide +kernel, by decide +kernel,
      by decide +kernel, by decide +kernel⟩
  have hfeasible : Feasible Config.blockwise document [0x2F, 0x61] [[0x61]] :=
    ⟨by decide, by decide, fun _ => by decide +kernel, by decide +kernel, by decide +kernel⟩
  have hanswered : Answered Config.blockwise document { payload := document } :=
    ⟨rfl, rfl, by decide, by decide +kernel⟩
  exact fetched_completes (by decide) (fun _ => by decide) hvacant hshape rfl rfl rfl hfeasible rfl
    (by decide +kernel) (Machine.Run.start.exec hmeets) hready hanswered

end Fetch

end PulseCoap
