import PulseCoap.Client.Options
import PulseCoap.Client.Download
import PulseCoap.System.Fetch
import PulseCoap.System.Lockstep
import PulseCoap.System.Notified

/-!
# PulseCoAP — a response put together

The client's half: it appends the block it waits for and asks for the next one. A
block it has had already changes nothing, and always has others behind it, so it
does not end the transfer either. What a handler is called with is therefore the
payload, byte for byte, or an error without one.

The condition on the handlers is that they give this client one payload and give
it at once: what a handler returns for block 5 is cut from a second call, and a
resource that changes in between is sent as a mixture. `Gathers` says of the
transfer that its buffer is the payload up to the block that is due, and that
there is more behind it; a block that comes again has another behind it, so it
is never taken for the last.

* `recvBlock_gathers` — one block.
* `asksIn_request`, `asksIn_block2` — what the client asks for.
* `ClientSide.step` — every step of the client.
* `fetched_whole` — over all interleavings, the response is the payload.
* `Gathers` — the transfer between two blocks.
* `over_step` — a request that is done stays done.
-/

namespace PulseCoap

namespace Fetch

open Slices (slice more)
open Client (transmit buildBlock2 expectedNum recvBlock block2Of Fired)
open TransactionPool (Awaiting)

variable {cfg : Config} {link : Link} {payload : Bytes} {i : Fin cfg.maxTransactions}

-- ===========================================================================
-- One block
-- ===========================================================================

/-- What a transfer has after some of its blocks: their bytes, and there are more. -/
structure Gathers (cfg : Config) (payload : Bytes) (recv : Block2RecvState) : Prop where
  szx    : recv.szx = cfg.blockSzx
  small  : recv.nextNum.toNat ≤ 2 ^ 20
  buffer : recv.buffer = payload.take (recv.nextNum.toNat * size cfg)
  short  : recv.nextNum.toNat * size cfg < payload.length

/-- The number in a Block2 option has twenty bits, since the option has three bytes at most and
four bits of it are the flag and the size. -/
theorem block2Of_num {msg : Message} {b : BlockOption} (h : block2Of msg = some b) :
    b.num.toNat < 2 ^ 20 := by
  unfold Client.block2Of at h
  split at h
  · exact BlockOption.fromOption_num h
  · cases h

/-- The receive state a block comes to: one that is under way, or a fresh one. In both the bytes
are those before the block that is due, and one equation says what the block adds. -/
theorem opened_gathers {recv : Block2RecvState} (hrecv : recv.active = true → Gathers cfg payload recv)
    {b : BlockOption} (hszx : b.szx = cfg.blockSzx) (sender : Endpoint) (msg : Message) :
    ∃ o : Block2RecvState, o.active = true ∧ o.nextNum = expectedNum recv ∧ o.szx = cfg.blockSzx ∧
      o.buffer = payload.take ((expectedNum recv).toNat * size cfg) ∧
      recvBlock cfg recv b sender msg =
        if b.num = o.nextNum then
          { o with
            buffer := o.buffer ++ msg.payloadBytes.take (cfg.block2MaxBody - o.buffer.length)
            nextNum := o.nextNum + 1 }
        else o := by
  unfold Client.recvBlock Client.expectedNum
  cases hact : recv.active with
  | false =>
    refine ⟨{ recv with
      active := true, nextNum := 0, szx := b.szx, buffer := [], server := sender
      contentFormat := Client.responseFormat msg }, rfl, rfl, hszx, ?_, rfl⟩
    show [] = payload.take (0 * size cfg)
    rw [Nat.zero_mul, List.take_zero]
  | true =>
    have hg := hrecv hact
    exact ⟨recv, hact, rfl, hg.szx, hg.buffer, rfl⟩

/-- **A block**: the transfer has one more, or what it had; it is at its end exactly when there
is no other behind this one, and then has the payload. A block that is not the next one is a
repeat of an earlier one, since no later one has been asked for. -/
theorem recvBlock_gathers (hmax : payload.length ≤ cfg.block2MaxBody) {recv : Block2RecvState}
    (hrecv : recv.active = true → Gathers cfg payload recv) {msg : Message}
    (hbears : Bears cfg payload (expectedNum recv).toNat msg) {b : BlockOption}
    (hb : block2Of msg = some b) (sender : Endpoint) :
    (recvBlock cfg recv b sender msg).active = true ∧
      (expectedNum recv).toNat ≤ (recvBlock cfg recv b sender msg).nextNum.toNat ∧
      (b.m = true → Gathers cfg payload (recvBlock cfg recv b sender msg)) ∧
      (b.m = false → (recvBlock cfg recv b sender msg).buffer = payload) := by
  obtain ⟨hszx, hnum, hinside, hbytes, hmore⟩ := hbears.block b hb
  have hsmall := block2Of_num hb
  obtain ⟨o, hact, hnext, hoszx, hbuffer, heq⟩ := opened_gathers hrecv hszx sender msg
  rw [heq]
  have hsucc : (b.num.toNat + 1) * size cfg = b.num.toNat * size cfg + size cfg := Nat.succ_mul _ _
  -- the flag says that there is more exactly when this slice is not the last one
  have hmoreiff : b.m = true ↔ (b.num.toNat + 1) * size cfg < payload.length := by
    rw [hmore]
    exact decide_eq_true_iff
  by_cases hdue : b.num = o.nextNum
  · -- the block that was due
    rw [if_pos hdue]
    have he : expectedNum recv = b.num := hnext.symm.trans hdue.symm
    have hlen : o.buffer.length = b.num.toNat * size cfg := by
      -- the bytes before it are all there, and those of this slice fit behind them
      rw [hbuffer, he, List.length_take]
      omega
    have hfits : (slice payload (size cfg) b.num.toNat).length ≤
        cfg.block2MaxBody - o.buffer.length := by
      rw [Slices.slice_eq, List.length_take, List.length_drop, hlen]
      omega
    have hbody : o.buffer ++ msg.payloadBytes.take (cfg.block2MaxBody - o.buffer.length) =
        payload.take ((b.num.toNat + 1) * size cfg) := by
      rw [hbytes, List.take_of_length_le hfits, hbuffer, he, Slices.slice_eq, hsucc, List.take_add]
    have hnum' : (o.nextNum + 1).toNat = b.num.toNat + 1 := by
      rw [← hdue]
      exact System.toNat_next hsmall
    refine ⟨hact, ?_, fun hm => ⟨hoszx, ?_, ?_, ?_⟩, fun hm => ?_⟩ <;> dsimp only
    · rw [hnum', he]
      omega
    · rw [hnum']
      omega
    · rw [hbody, hnum']
    · rw [hnum']
      exact hmoreiff.1 hm
    · rw [hbody]
      refine List.take_of_length_le (Nat.le_of_not_lt fun hlt => ?_)
      rw [hmoreiff.2 hlt] at hm
      cases hm
  · -- an earlier one: there is another behind it, the one that is due
    rw [if_neg hdue]
    have hlt : b.num.toNat < (expectedNum recv).toNat := by
      refine Nat.lt_of_le_of_ne hnum fun heq' => hdue ?_
      rw [hnext]
      exact UInt32.toNat_inj.1 heq'
    have hg : Gathers cfg payload recv := by
      refine hrecv ?_
      by_contra hoff
      unfold Client.expectedNum at hlt
      rw [if_neg hoff] at hlt
      cases hlt
    have hexp : expectedNum recv = recv.nextNum := by
      unfold Client.expectedNum at hlt ⊢
      split
      · rfl
      · next hoff =>
        rw [if_neg hoff] at hlt
        cases hlt
    have hgo : Gathers cfg payload o := by
      refine ⟨hoszx, ?_, ?_, ?_⟩
      · rw [hnext, hexp]
        exact hg.small
      · rw [hbuffer, hnext]
      · rw [hnext, hexp]
        exact hg.short
    refine ⟨hact, by rw [hnext], fun _ => hgo, fun hm => ?_⟩
    have hbehind : (b.num.toNat + 1) * size cfg ≤ (expectedNum recv).toNat * size cfg :=
      Nat.mul_le_mul_right _ hlt
    rw [hexp] at hbehind
    rw [hmoreiff.2 (Nat.lt_of_le_of_lt hbehind hg.short)] at hm
    cases hm

-- ===========================================================================
-- What the client asks for
-- ===========================================================================

/-- A message that has only these options, none of them Observe or Block1. So it registers
nobody, is no block of an upload, and asks for a block that may be asked for. -/
theorem asksIn_lists {m : Message} {wanted : List Wanted} (h : Lists cfg m wanted)
    (hobserve : ∀ w ∈ wanted, w.number ≠ OptionNumber.observe)
    (hblock1 : ∀ w ∈ wanted, w.number ≠ OptionNumber.block1) {asked : Nat}
    (hblock2 : ∀ w ∈ wanted, w.number = OptionNumber.block2 →
      ∀ b, BlockOption.fromOption (Message.ofEntry w.entry) = some b →
        b.szx = cfg.blockSzx ∧ b.num.toNat ≤ asked) : AsksIn cfg asked m.wire := by
  intro msg hdec
  obtain ⟨msg', hdec', hopts⟩ := h.decoded
  obtain rfl : msg = msg' := congrArg Prod.snd (hdec.symm.trans hdec')
  -- an option that is found is one of the wanted ones
  have hfound : ∀ number o, msg.findOption number = some o →
      ∃ w ∈ wanted, w.number = number ∧ o = Message.ofEntry w.entry := by
    intro number o ho
    have hmem := List.mem_of_find?_eq_some ho
    have hnum : o.number = number := by simpa using List.find?_some ho
    rw [hopts] at hmem
    obtain ⟨w, hw, rfl⟩ := List.mem_map.1 hmem
    refine ⟨w, List.mem_of_mem_take hw, ?_, rfl⟩
    rw [← hnum]
    show w.number = UInt16.ofNat w.entry.1
    rw [Wanted.entry_number, UInt16.ofNat_toNat]
  refine ⟨?_, ?_, fun b hb => ?_⟩
  · cases ho : msg.findOption OptionNumber.observe with
    | none => rfl
    | some o =>
      obtain ⟨w, hw, hnum, -⟩ := hfound _ _ ho
      exact absurd hnum (hobserve w hw)
  · cases ho : msg.findOption OptionNumber.block1 with
    | none => rfl
    | some o =>
      obtain ⟨w, hw, hnum, -⟩ := hfound _ _ ho
      exact absurd hnum (hblock1 w hw)
  · unfold Server.block2Requested at hb
    cases ho : msg.findOption OptionNumber.block2 with
    | none =>
      rw [ho] at hb
      cases hb
    | some o =>
      rw [ho] at hb
      obtain ⟨w, hw, hnum, rfl⟩ := hfound _ _ ho
      exact hblock2 w hw hnum b hb

/-- **The request of a call**: it names no block, so the reply is the whole payload or its first
block. -/
theorem asksIn_request {a : Client.RequestArgs} (ha : a.observe = none) {messageId : UInt16}
    {token : UInt8} {sendOk : Bool} {data : Bytes}
    (h : transmit cfg (a.request cfg messageId token) sendOk = some data) (asked : Nat) :
    AsksIn cfg asked data := by
  obtain ⟨m, hm, henc⟩ := Client.transmit_some h
  have hlists := Client.lists_request hm
  rw [Client.encode_wire hlists.built henc]
  have hnumber : ∀ w ∈ Client.requestWanted a.observe a.path a.payload a.contentFormat,
      w.number = OptionNumber.uriPath ∨ w.number = OptionNumber.contentFormat := by
    intro w hw
    rw [ha] at hw
    rcases List.mem_append.1 hw with hw | hw
    · exact .inl (Client.path_number hw)
    · split at hw
      · rw [List.mem_singleton.1 hw]
        exact .inr rfl
      · cases hw
  refine asksIn_lists hlists (fun w hw heq => ?_) (fun w hw heq => ?_) fun w hw heq => ?_
  all_goals
    rcases hnumber w hw with hnum | hnum <;> rw [hnum] at heq <;> exact absurd heq (by decide)

/-- **The request for the next block**: it names the one that is due, or none if the number has
no wire form. In the latter case the reply is the first block again, which is passed over. -/
theorem asksIn_block2 {recv : Block2RecvState} (hg : Gathers cfg payload recv) {token : Bytes}
    {messageId : UInt16} {sendOk : Bool} {data : Bytes}
    (h : transmit cfg (buildBlock2 cfg recv token messageId) sendOk = some data) :
    AsksIn cfg recv.nextNum.toNat data := by
  obtain ⟨m, hm, henc⟩ := Client.transmit_some h
  obtain ⟨hlists, -⟩ := Client.lists_block2 hm
  rw [Client.encode_wire hlists.built henc]
  -- the request has a path and one Block2 option, and nothing else
  have hcases : ∀ w ∈ Client.nextWanted recv.path recv, w.number = OptionNumber.uriPath ∨
      w = .block OptionNumber.block2 { num := recv.nextNum, m := false, szx := recv.szx } := by
    intro w hw
    rcases List.mem_append.1 hw with hw | hw
    · exact .inl (Client.path_number hw)
    · exact .inr (List.mem_singleton.1 hw)
  refine asksIn_lists hlists (fun w hw heq => ?_) (fun w hw heq => ?_) fun w hw heq b hb => ?_
  · rcases hcases w hw with hnum | rfl
    · rw [hnum] at heq
      exact absurd heq (by decide)
    · exact absurd (show OptionNumber.block2 = OptionNumber.observe from heq) (by decide)
  · rcases hcases w hw with hnum | rfl
    · rw [hnum] at heq
      exact absurd heq (by decide)
    · exact absurd (show OptionNumber.block2 = OptionNumber.block1 from heq) (by decide)
  · -- and the value of the option is the number of the state with the size of the build
    rcases hcases w hw with hnum | rfl
    · rw [hnum] at heq
      exact absurd heq (by decide)
    · have hvalue : Message.optionAsUint (Message.ofEntry (Wanted.block OptionNumber.block2
          { num := recv.nextNum, m := false, szx := recv.szx }).entry) =
          BlockOption.toOptionValue recv.nextNum false recv.szx :=
        (Message.uintOption_entry _ _).value
      have hsmall : recv.nextNum.toNat < 2 ^ 28 := Nat.lt_of_le_of_lt hg.small (by decide)
      obtain ⟨hnum, -⟩ := BlockOption.fromOption_value hsmall hvalue hb
      have hszx := BlockOption.fromOption_szx hb
      rw [hvalue, BlockOption.toOptionValue_toNat hsmall] at hszx
      have hle : cfg.blockSzx.toNat ≤ 6 := cfg.szx_le
      refine ⟨UInt8.toNat_inj.1 ?_, by rw [hnum]⟩
      rw [hszx, hg.szx]
      simp
      omega

/-- An empty ACK has no options, so it asks for nothing. The client sends one for each
Confirmable response. -/
theorem asksIn_ack {sender dest : Endpoint} {msg : Message} {ackOk : Bool} {data : Bytes}
    (h : .sent dest data ∈ Client.ackEvents cfg sender msg ackOk) (asked : Nat) :
    AsksIn cfg asked data := by
  unfold Client.ackEvents at h
  split at h
  · split at h
    · next buf hbuf =>
      cases List.mem_singleton.1 h
      obtain ⟨m, hm, henc⟩ := Client.transmit_some hbuf
      cases hm
      have hcarries := Server.carries_emptyAck cfg msg.messageId
      rw [Client.encode_wire hcarries.built henc]
      intro msg' hdec
      obtain ⟨reply, hdec', -, -, -, -, hopts, -⟩ := hcarries.decodes
      obtain rfl : msg' = reply := congrArg Prod.snd (hdec.symm.trans hdec')
      have hnone : ∀ number, msg'.findOption number = none := by
        intro number
        unfold Message.findOption
        rw [hopts rfl, List.find?_nil]
      refine ⟨hnone _, hnone _, fun b hb => ?_⟩
      rw [Server.block2Requested, hnone] at hb
      cases hb
    · cases h
  · cases h

-- ===========================================================================
-- The client
-- ===========================================================================

/-- The number the client waits for in this slot. -/
def due (c : Client cfg) (i : Fin cfg.maxTransactions) : Nat := (expectedNum (c.slots i).recv).toNat

/-- The response is the payload, or an error without one. A part of the payload is neither. -/
def Whole (payload : Bytes) (res : ClientResponse) : Prop :=
  res.payload = payload ∨ 4 ≤ codeClass res.code ∧ res.payload = []

instance (payload : Bytes) (res : ClientResponse) : Decidable (Whole payload res) :=
  inferInstanceAs (Decidable (_ ∨ _ ∧ _))

/-- The request is done: its slot is free, or is about to be. In between the handler of the call
runs, and may make calls of its own. -/
def Over (i : Fin cfg.maxTransactions) (c : Client cfg) : Prop :=
  (c.slots i).pending.active = false ∨ (c.slots i).pending.observing = false ∧
    ∃ fragmented call inCallback, c.control = .polling (.close i fragmented call) inCallback

/-- Where the client can stand while the transfer lasts. A message at the dispatch has come from
the server, and the request for a block is for this transfer. -/
def Standing (i : Fin cfg.maxTransactions) (recv : Block2RecvState) (toClient : List Bytes) :
    Control cfg → Prop
  | .polling (.dispatch _ msg) _ => ∃ data ∈ toClient, Message.decode cfg data = (.none, msg)
  | .polling (.block2 j) _ => j = i ∧ cfg.enableBlockwise = true ∧ recv.active = true
  | .polling (.block1 _) _ | .polling (.close ..) _ => False
  | _ => True

theorem Standing.mono {recv : Block2RecvState} {toClient toClient' : List Bytes}
    (hsub : toClient ⊆ toClient') {k : Control cfg} (h : Standing i recv toClient k) :
    Standing i recv toClient' k := by
  cases k with
  | idle => trivial
  | polling k inCallback =>
    cases k with
    | dispatch sender msg =>
      obtain ⟨data, hdata, hdec⟩ := h
      exact ⟨data, hsub hdata, hdec⟩
    | block1 | block2 | close | expire | tick | ret => exact h

/-- The transfer of slot `i`, and all the client has sent. `due` bounds the numbers in it, so
that the server's replies are bounded as well. -/
structure ClientSide (i : Fin cfg.maxTransactions) (payload : Bytes) (c : Client cfg)
    (toServer toClient : List Bytes) : Prop where
  observing : (c.slots i).pending.observing = false
  upload    : cfg.enableBlockwise = true → (c.slots i).upload.active = false
  recv      : cfg.enableBlockwise = true → (c.slots i).recv.active = true →
    Gathers cfg payload (c.slots i).recv
  control   : Standing i (c.slots i).recv toClient c.control
  waiting   : ∀ t, Awaiting (c.transactions t) → AsksIn cfg (due c i) (c.transactions t).message
  sent      : ∀ data ∈ toServer, AsksIn cfg (due c i) data

/-- What a step comes to: it calls back with the payload only, and the transfer is over or goes
on. -/
structure Goes (link : Link) (i : Fin cfg.maxTransactions) (payload : Bytes) (c : Client cfg)
    (toServer toClient : List Bytes) (r : Client cfg × List ClientEvent) : Prop where
  whole : ∀ call handler res ctx, .response call handler res ctx ∈ r.2 → Whole payload res
  goes  : Over i r.1 ∨ due c i ≤ due r.1 i ∧
    ClientSide i payload r.1 (toServer ++ System.clientData link.server r.2) toClient

variable {c : Client cfg} {toServer toClient : List Bytes}

/-- Where no response handler is called there is nothing to show. -/
theorem whole_of_quiet {events : List ClientEvent} (h : ¬ Fired events) :
    ∀ call handler res ctx, .response call handler res ctx ∈ events → Whole payload res :=
  fun _ _ _ _ hmem => absurd ⟨_, _, _, _, hmem⟩ h

/-- The slots are as they were, so the transfer is too; what is left to show is what the step
sends and what it keeps in the pool. -/
theorem ClientSide.keep (h : ClientSide i payload c toServer toClient)
    {r : Client cfg × List ClientEvent} (hslots : r.1.slots = c.slots) (hquiet : ¬ Fired r.2)
    (hwait : ∀ t, Awaiting (r.1.transactions t) →
      AsksIn cfg (due c i) (r.1.transactions t).message)
    (hctl : Standing i (c.slots i).recv toClient r.1.control)
    (hsent : ∀ data, .sent link.server data ∈ r.2 → AsksIn cfg (due c i) data) :
    Goes link i payload c toServer toClient r := by
  have hdue : due r.1 i = due c i := by rw [due, hslots, due]
  refine ⟨whole_of_quiet hquiet, .inr ⟨Nat.le_of_eq hdue.symm, ?_, ?_, ?_, ?_, ?_, ?_⟩⟩
  · rw [hslots]
    exact h.observing
  · rw [hslots]
    exact h.upload
  · rw [hslots]
    exact h.recv
  · rw [hslots]
    exact hctl
  · rw [hdue]
    exact hwait
  · rw [hdue]
    exact System.forall_toServer h.sent hsent

/-- The request is over, and no handler was called, so nothing has to be shown of a response. -/
theorem goes_over {r : Client cfg × List ClientEvent} (hquiet : ¬ Fired r.2)
    (hover : (r.1.slots i).pending.active = false) : Goes link i payload c toServer toClient r :=
  ⟨whole_of_quiet hquiet, .inl (.inl hover)⟩

/-- An ACK takes nothing from what waits elsewhere. -/
theorem ClientSide.waiting_completed (h : ClientSide i payload c toServer toClient)
    (remote : Endpoint) (messageId : UInt16) (t : Fin cfg.maxTransactions)
    (ha : Awaiting ((c.completed remote messageId).transactions t)) :
    AsksIn cfg (due c i) ((c.completed remote messageId).transactions t).message := by
  unfold Client.completed at ha ⊢
  dsimp only at ha ⊢
  rcases TransactionPool.complete_cases c.transactions remote messageId with ⟨-, hc⟩ | ⟨j, -, hc⟩
  · rw [hc] at ha ⊢
    exact h.waiting t ha
  · rw [hc] at ha ⊢
    by_cases htj : t = j
    · subst htj
      rw [Table.set_self] at ha
      cases ha
    · rw [Table.set_ne _ _ htj] at ha ⊢
      exact h.waiting t ha

/-- `poll` up to its first cut. A message is only noted for the dispatch; an RST may end the
request. -/
theorem ClientSide.poll (h : ClientSide i payload c toServer toClient)
    (honly : ∀ j, (c.slots j).pending.active = true → j = i) (nowMs : UInt32)
    {rx : Option (Endpoint × Bytes)}
    (hrx : ∀ sender data, rx = some (sender, data) → data ∈ toClient) :
    Goes link i payload c toServer toClient (c.poll nowMs rx) := by
  rcases c.poll_cases nowMs rx with heq | ⟨sender, data, msg, hsome, hdec, heq⟩
  · rw [heq]
    exact h.keep rfl Client.not_fired_nil h.waiting trivial nofun
  rw [heq]
  have hheard : ∃ data ∈ toClient, Message.decode cfg data = (.none, msg) :=
    ⟨data, hrx sender data hsome, hdec⟩
  rcases (c.atTime nowMs).handleMessage_cases sender msg with ⟨hrst, heq⟩ | ⟨c', hc', heq | heq⟩
  · rw [heq]
    rcases (c.atTime nowMs).handleReset_cases sender msg.messageId with heq | ⟨t, j, -, hfind, heq⟩
    · rw [heq]
      exact h.keep rfl Client.not_fired_nil (h.waiting_completed sender msg.messageId) trivial nofun
    · -- an RST ends the request
      obtain rfl := honly j (Client.findPendingByToken_spec hfind).1
      rw [heq]
      refine goes_over (Client.fireTimeout_past _ _ _ (k := .ret) rfl).1 ?_
      rw [Client.fireTimeout_eq]
      show ((c.slots.set j _) j).pending.active = false
      rw [Table.set_self]
  all_goals
    rw [heq]
    rcases hc' with rfl | rfl
  · exact h.keep rfl Client.not_fired_nil h.waiting hheard nofun
  · exact h.keep rfl Client.not_fired_nil (h.waiting_completed sender msg.messageId) hheard nofun
  · exact h.keep rfl Client.not_fired_nil h.waiting trivial nofun
  · exact h.keep rfl Client.not_fired_nil (h.waiting_completed sender msg.messageId) trivial nofun

-- ===========================================================================
-- The dispatch
-- ===========================================================================

/-- A callback with the payload, and the slot is about to be closed. A plain request gets no
second response. -/
theorem goes_response {c' : Client cfg} (hobs : (c'.slots i).pending.observing = false)
    {res : ClientResponse} (hwhole : Whole payload res) (fragmented : Bool) :
    Goes link i payload c toServer toClient (c'.fireResponse i res fragmented) := by
  rw [Client.fireResponse_eq]
  refine ⟨fun call handler res' ctx hmem => ?_, .inl (.inr ⟨hobs, _, _, _, rfl⟩)⟩
  obtain ⟨h, -, heq⟩ := Option.map_eq_some_iff.1 (Option.mem_toList.1 hmem)
  cases heq
  exact hwhole

/-- **A response for the slot**: a block, or all of it. The handler is called only with the
whole, or with an error. -/
theorem ClientSide.dispatchPending (hmax : payload.length ≤ cfg.block2MaxBody)
    (h : ClientSide i payload c toServer toClient) {sender : Endpoint} {msg : Message}
    (hbears : Bears cfg payload (due c i) msg) :
    Goes link i payload c toServer toClient (c.dispatchPending i sender msg) := by
  have hslot : ∀ up recv, (c.setBlocks i up recv).slots i =
      { c.slots i with upload := up, recv } := fun up recv => Table.set_self _ _ _
  have hobs : ∀ up recv, ((c.setBlocks i up recv).slots i).pending.observing = false := by
    intro up recv
    rw [hslot]
    exact h.observing
  by_cases hb : cfg.enableBlockwise = true
  · have hcont : ¬ (msg.code = Code.«continue» ∧ (c.slots i).upload.active = true) := by
      rw [h.upload hb]
      exact fun hboth => nomatch hboth.2
    -- no Block2 option, or one: with more to come the client asks on, and else it is done
    cases h2 : block2Of msg with
    | none =>
      rw [Client.dispatchPending_plain hb hcont h2]
      refine goes_response (hobs _ _) ?_ false
      exact hbears.whole h2
    | some b =>
      obtain ⟨hact, hle, hmore, hlast⟩ := recvBlock_gathers hmax (h.recv hb) hbears h2 sender
      rw [Client.dispatchPending_fragment hb hcont h2]
      dsimp only
      by_cases hm : b.m = true
      · -- there is more
        rw [if_pos hm]
        have hdue : due c i ≤ due ((c.setBlocks i (Client.uploadDone (c.slots i).upload)
            (recvBlock cfg (c.slots i).recv b sender msg)).at' (.block2 i) false) i := by
          show _ ≤ (expectedNum ((c.setBlocks i _ _).slots i).recv).toNat
          rw [hslot]
          unfold Client.expectedNum
          rw [if_pos hact]
          exact hle
        refine ⟨nofun, .inr ⟨hdue, ⟨hobs _ _, fun _ => ?_, fun _ _ => ?_, ?_, fun t ha => ?_, ?_⟩⟩⟩
        · show ((c.setBlocks i _ _).slots i).upload.active = false
          rw [hslot]
          rfl
        · show Gathers cfg payload ((c.setBlocks i _ _).slots i).recv
          rw [hslot]
          exact hmore hm
        · show i = i ∧ _ ∧ ((c.setBlocks i _ _).slots i).recv.active = true
          rw [hslot]
          exact ⟨rfl, hb, hact⟩
        · exact (h.waiting t ha).mono hdue
        · exact System.forall_toServer (fun data hdata => (h.sent data hdata).mono hdue) nofun
      · rw [if_neg hm]
        exact goes_response (hobs _ _) (.inl (hlast (Bool.eq_false_iff.2 hm))) true
  · have heq : c.dispatchPending i sender msg = c.handlePlain i msg := by
      rw [Client.dispatchPending, if_neg hb]
    rw [heq]
    refine goes_response h.observing ?_ false
    exact hbears.whole (hbears.off (Bool.eq_false_iff.2 hb))

/-- The dispatch of a message, with its ACK. The only slot in use is that of the request, so the
message is for it or for nobody. -/
theorem ClientSide.dispatch (hmax : payload.length ≤ cfg.block2MaxBody)
    (h : ClientSide i payload c toServer toClient)
    (honly : ∀ j, (c.slots j).pending.active = true → j = i)
    (hans : ∀ data ∈ toClient, BearsIn cfg payload (due c i) data) {sender : Endpoint}
    {msg : Message} {inCallback : Bool}
    (hctl : c.control = .polling (.dispatch sender msg) inCallback) (sendOk : Bool) :
    Goes link i payload c toServer toClient (c.resume (.dispatch sender msg) sendOk) := by
  obtain ⟨data, hdata, hdec⟩ : ∃ data ∈ toClient, Message.decode cfg data = (.none, msg) := by
    have := h.control
    rwa [hctl] at this
  have hdispatch : Goes link i payload c toServer toClient (c.dispatchResponse sender msg) := by
    rcases c.dispatchResponse_cases sender msg with ⟨j, -, heq⟩ | ⟨j, -, hf, heq⟩ | ⟨-, -, heq⟩
    · -- a discovery
      rw [heq]
      refine h.keep rfl (Client.not_fired fun e he call handler res ctx => ?_) h.waiting trivial
        fun data hmem => ?_
      · obtain ⟨_, -, rfl⟩ := Option.map_eq_some_iff.1 (Option.mem_toList.1 he)
        exact nofun
      · obtain ⟨_, -, heq⟩ := Option.map_eq_some_iff.1 (Option.mem_toList.1 hmem)
        cases heq
    · obtain rfl := honly j (Client.findPendingByToken_spec hf).1
      rw [heq]
      exact h.dispatchPending hmax (hans data hdata msg hdec)
    · rw [heq]
      exact h.keep rfl Client.not_fired_nil h.waiting trivial nofun
  -- the ACK asks for nothing
  show Goes link i payload c toServer toClient ((c.dispatchResponse sender msg).1,
    Client.ackEvents cfg sender msg sendOk ++ (c.dispatchResponse sender msg).2)
  refine ⟨fun call handler res ctx hmem => ?_, hdispatch.goes.imp_right fun ⟨hle, hside⟩ =>
    ⟨hle, { hside with sent := System.forall_toServer (fun data hdata => ?_) ?_ }⟩⟩
  · rcases List.mem_append.1 hmem with hmem | hmem
    · exact absurd ⟨_, _, _, _, hmem⟩ (Watch.ackEvents_not_fired cfg sender msg sendOk)
    · exact hdispatch.whole call handler res ctx hmem
  · exact hside.sent data (List.mem_append_left _ hdata)
  · intro data hmem
    rcases List.mem_append.1 hmem with hmem | hmem
    · exact asksIn_ack hmem _
    · exact hside.sent data (List.mem_append_right _ (System.mem_clientData.2 hmem))

-- ===========================================================================
-- Blocks asked for, once and again
-- ===========================================================================

/-- The request for the next block. If it does not get out, the client waits on; nothing is
called back. -/
theorem ClientSide.block2 (h : ClientSide i payload c toServer toClient) {inCallback : Bool}
    {j : Fin cfg.maxTransactions} (hctl : c.control = .polling (.block2 j) inCallback)
    (sendOk : Bool) : Goes link i payload c toServer toClient (c.resume (.block2 j) sendOk) := by
  have hstanding := h.control
  rw [hctl] at hstanding
  obtain ⟨rfl, hb, hact⟩ := hstanding
  rcases c.resumeBlock2_cases j sendOk with ⟨-, heq⟩ | ⟨buf, hbuf, heq⟩
  · rw [heq]
    exact h.keep rfl Client.not_fired_nil h.waiting trivial nofun
  · have hasks : AsksIn cfg (due c j) buf := by
      unfold due Client.expectedNum
      rw [if_pos hact]
      exact asksIn_block2 (h.recv hb hact) hbuf
    rw [heq]
    refine h.keep rfl (Client.not_fired_sent _ _) (fun t ha => ?_) trivial fun data hmem => ?_
    · -- a waiting message, or the one just started
      rcases TransactionPool.start_cases c.transactions (c.slots j).recv.server c.nextMessageId
        (c.slots j).pending.token buf c.lastNowMs (c.slots j).pending.call with hsame | ⟨k, -, hset⟩
      · have htrans : ((c.block2Sent j buf).at' .expire false).transactions = c.transactions := hsame
        rw [htrans] at ha ⊢
        exact h.waiting t ha
      · have htrans : ((c.block2Sent j buf).at' .expire false).transactions =
            c.transactions.set k _ := hset
        rw [htrans] at ha ⊢
        by_cases htk : t = k
        · subst htk
          rw [Table.set_self]
          exact hasks
        · rw [Table.set_ne _ _ htk] at ha ⊢
          exact h.waiting t ha
    · obtain ⟨-, rfl⟩ := ClientEvent.sent.inj (List.mem_singleton.1 hmem)
      exact hasks

/-- A pass of the pool scan: the same message again, or the request is given up. -/
theorem ClientSide.tick (h : ClientSide i payload c toServer toClient)
    (honly : ∀ j, (c.slots j).pending.active = true → j = i) (index : Nat) (sendOk : Bool) :
    Goes link i payload c toServer toClient (c.resume (.tick index) sendOk) := by
  have hquiet := (c.resume_quiet (k := .tick index) rfl sendOk).1
  rw [Client.resume_tick] at hquiet ⊢
  split at hquiet
  · next hlt =>
    rw [dif_pos hlt]
    -- passed over, sent again, or given up
    rcases c.tickAt_cases ⟨index, hlt⟩ sendOk with ⟨-, heq⟩ | ⟨ha, -, -, heq⟩ | ⟨-, -, -, heq⟩
    · rw [heq]
      exact h.keep rfl Client.not_fired_nil h.waiting trivial nofun
    · rw [heq] at hquiet ⊢
      refine h.keep rfl hquiet (fun t ha' => ?_) trivial fun data hmem => ?_
      · have htrans : ((c.resent ⟨index, hlt⟩).at' (.tick (index + 1)) false).transactions =
            c.transactions.set ⟨index, hlt⟩ _ := rfl
        rw [htrans] at ha' ⊢
        by_cases ht : t = ⟨index, hlt⟩
        · subst ht
          rw [Table.set_self]
          exact h.waiting _ ha
        · rw [Table.set_ne _ _ ht] at ha' ⊢
          exact h.waiting t ha'
      · dsimp only at hmem
        split at hmem
        · obtain ⟨-, rfl⟩ := ClientEvent.sent.inj (List.mem_singleton.1 hmem)
          exact h.waiting _ ha
        · cases hmem
    · -- the trampoline ends the slot with the token, which is slot `i`
      rw [heq] at hquiet ⊢
      rcases (c.freed ⟨index, hlt⟩).timeoutTrampoline_cases (c.transactions ⟨index, hlt⟩).token
        (c.transactions ⟨index, hlt⟩).owner (.tick (index + 1)) with ⟨j, hf, heq⟩ | ⟨-, heq⟩
      · obtain rfl := honly j (Client.findPendingByToken_spec hf).1
        refine goes_over hquiet ?_
        rw [heq, Client.fireTimeout_eq]
        show ((c.slots.set j _) j).pending.active = false
        rw [Table.set_self]
      · rw [heq, Client.fireTimeout_eq] at hquiet ⊢
        refine h.keep rfl hquiet (fun t ha' => ?_) trivial fun data hmem => ?_
        · have htrans : (c.freed ⟨index, hlt⟩).transactions = c.transactions.set ⟨index, hlt⟩ _ := rfl
          have hfreed : Awaiting ((c.freed ⟨index, hlt⟩).transactions t) := ha'
          show AsksIn cfg (due c i) ((c.freed ⟨index, hlt⟩).transactions t).message
          rw [htrans] at hfreed ⊢
          by_cases ht : t = ⟨index, hlt⟩
          · subst ht
            rw [Table.set_self] at hfreed
            cases hfreed
          · rw [Table.set_ne _ _ ht] at hfreed ⊢
            exact h.waiting t hfreed
        · obtain ⟨_, -, heq⟩ := Option.map_eq_some_iff.1 (Option.mem_toList.1 hmem)
          cases heq
  · next hge =>
    rw [dif_neg hge]
    exact h.keep rfl Client.not_fired_nil h.waiting trivial nofun

/-- **A step of the client** while the transfer lasts: it keeps its side, and calls back with
the payload only. -/
theorem ClientSide.step (link : Link) (hmax : payload.length ≤ cfg.block2MaxBody)
    (h : ClientSide i payload c toServer toClient)
    (honly : ∀ j, (c.slots j).pending.active = true → j = i)
    (hans : ∀ data ∈ toClient, BearsIn cfg payload (due c i) data) {a : Client.Action}
    (hcall : ∀ call sendOk, a ≠ .call call sendOk)
    (hrx : ∀ nowMs sender data, a = .poll nowMs (some (sender, data)) → data ∈ toClient) :
    Goes link i payload c toServer toClient (c.step a) := by
  rcases c.step_cases a with heq | ⟨call, sendOk, ha, -⟩ | ⟨nowMs, rx, ha, -, heq⟩ |
    ⟨sendOk, k, inCallback, -, hctl, heq⟩
  · rw [heq]
    exact h.keep rfl Client.not_fired_nil h.waiting h.control nofun
  · exact absurd ha (hcall call sendOk)
  · rw [heq]
    exact h.poll honly nowMs fun sender data hrx' => hrx nowMs sender data (by rw [ha, hrx'])
  · rw [heq]
    have hstanding := h.control
    rw [hctl] at hstanding
    cases k with
    | dispatch sender msg => exact h.dispatch hmax honly hans hctl sendOk
    | block1 j => exact hstanding.elim
    | block2 j => exact h.block2 hctl sendOk
    | close j fragmented call => exact hstanding.elim
    | expire => exact h.keep rfl Client.not_fired_nil h.waiting trivial nofun
    | tick index => exact h.tick honly index sendOk
    | ret => exact h.keep rfl Client.not_fired_nil h.waiting trivial nofun

/-- A request that is over stays so, and nothing is called back for it. A late block finds no
slot with its token. -/
theorem over_step (honly : ∀ j, (c.slots j).pending.active = true → j = i) (hover : Over i c)
    {a : Client.Action} (hcall : ∀ call sendOk, a ≠ .call call sendOk) :
    Over i (c.step a).1 ∧ ¬ Fired (c.step a).2 := by
  -- a free slot stays free
  have hfree : (c.slots i).pending.active = false → Over i (c.step a).1 := by
    intro hoff
    refine .inl (Bool.eq_false_iff.2 fun hact => ?_)
    rw [(System.uploads_before hcall).1 hact] at hoff
    cases hoff
  rcases c.step_cases a with heq | ⟨call, sendOk, ha, -⟩ | ⟨nowMs, rx, -, hidle, heq⟩ |
    ⟨sendOk, k, inCallback, -, hctl, heq⟩
  · rw [heq]
    exact ⟨hover, Client.not_fired_nil⟩
  · exact absurd ha (hcall call sendOk)
  · refine ⟨hfree (hover.resolve_right ?_), ?_⟩
    · rintro ⟨-, _, _, _, hclose⟩
      cases hidle.symm.trans hclose
    · rw [heq]
      exact (Watch.poll_flight c nowMs rx).1
  · cases hoff : (c.slots i).pending.active with
    | false =>
      refine ⟨hfree hoff, ?_⟩
      rw [heq]
      cases k with
      | dispatch sender msg =>
        show ¬ Fired (Client.ackEvents cfg sender msg sendOk ++ (c.dispatchResponse sender msg).2)
        refine fun hfired => (Client.fired_append.1 hfired).elim
          (Watch.ackEvents_not_fired cfg sender msg sendOk) ?_
        rcases c.dispatchResponse_cases sender msg with ⟨j, -, heq⟩ | ⟨j, -, hf, -⟩ | ⟨-, -, heq⟩
        · rw [heq]
          refine Client.not_fired fun e he call handler res ctx => ?_
          obtain ⟨_, -, rfl⟩ := Option.map_eq_some_iff.1 (Option.mem_toList.1 he)
          rintro ⟨⟩
        · -- no slot is taken
          have hact := (Client.findPendingByToken_spec hf).1
          obtain rfl := honly j hact
          cases hoff.symm.trans hact
        · rw [heq]
          exact Client.not_fired_nil
      | block1 j | block2 j | close j fragmented call | expire | tick index | ret =>
        exact (c.resume_quiet rfl sendOk).1
    | true =>
      obtain ⟨hobs, fragmented, call, inCallback, hclose⟩ :=
        hover.resolve_left (by rw [hoff]; exact Bool.noConfusion)
      obtain ⟨rfl, -⟩ := Control.polling.inj (hctl.symm.trans hclose)
      rw [heq]
      refine ⟨.inl ?_, Client.not_fired_nil⟩
      show ((c.close i fragmented).slots i).pending.active = false
      rw [Client.close_eq]
      dsimp only
      rw [Table.set_self, Client.closedSlot, if_neg (by rw [hobs]; exact Bool.false_ne_true)]

-- ===========================================================================
-- Runs
-- ===========================================================================

/-- The network, one call of the client, and handlers that give it one payload. -/
def Steps (link : Link) (payload : Bytes) (sys : System cfg) (a : System.Action) : Prop :=
  System.Carried link sys a ∧ System.OneUpload a ∧
    match a with
    | .client _ => True
    | .server a => Gives link payload sys.server a

instance (link : Link) (payload : Bytes) (sys : System cfg) :
    (a : System.Action) → Decidable (Steps link payload sys a)
  | .client _ => inferInstanceAs (Decidable (_ ∧ _ ∧ True))
  | .server _ => inferInstanceAs (Decidable (_ ∧ _ ∧ Gives ..))

/-- One request of the client, and both parties as long as it lasts. When it is over nothing
more has to be known of the server. -/
structure Inv (link : Link) (i : Fin cfg.maxTransactions) (payload : Bytes) (sys : System cfg) :
    Prop where
  only  : ∀ j, (sys.client.slots j).pending.active = true → j = i
  sides : Over i sys.client ∨
    ClientSide i payload sys.client sys.toServer sys.toClient ∧
      ServerSide link payload (due sys.client i) sys.server sys.toClient

/-- **One step** keeps the invariant, and calls back with the payload only. The system is a
client, the server and the network; other peers are part of what the network does. -/
theorem Inv.next (hmax : payload.length ≤ cfg.block2MaxBody)
    (hroom : cfg.enableBlockwise = true → 2 ≤ cfg.maxOptions) {sys : System cfg}
    (inv : Inv link i payload sys) {a : System.Action} (hsteps : Steps link payload sys a) :
    Inv link i payload (sys.next link a).1 ∧ ∀ call handler res ctx,
      .client (.response call handler res ctx) ∈ (sys.next link a).2 → Whole payload res := by
  obtain ⟨hcarried, hone, hgives⟩ := hsteps
  cases a with
  | client a =>
    have hcall : ∀ call sendOk, a ≠ .call call sendOk := by
      rintro call sendOk rfl
      exact hone
    have honly : ∀ j, ((sys.client.step a).1.slots j).pending.active = true → j = i :=
      fun j hj => inv.only j ((System.uploads_before hcall).1 hj)
    have hback : (∀ call handler res ctx, .response call handler res ctx ∈ (sys.client.step a).2 →
        Whole payload res) → ∀ call handler res ctx,
          .client (.response call handler res ctx) ∈ (sys.next link (.client a)).2 →
            Whole payload res := by
      intro hall call handler res ctx hmem
      obtain ⟨e, he, heq⟩ := List.mem_map.1 hmem
      cases heq
      exact hall call handler res ctx he
    rcases inv.sides with hover | ⟨hclient, hserver⟩
    · obtain ⟨hover', hquiet⟩ := over_step inv.only hover hcall
      exact ⟨⟨honly, .inl hover'⟩, hback (whole_of_quiet hquiet)⟩
    · obtain ⟨hwhole, hgoes⟩ := hclient.step link hmax inv.only hserver.answers hcall
        fun nowMs sender data heq => by
          subst heq
          exact hcarried.2
      refine ⟨⟨honly, hgoes.imp_right fun ⟨hle, hside⟩ => ⟨hside, hserver.mono hle⟩⟩, hback hwhole⟩
  | server a =>
    have hsides : ClientSide i payload sys.client sys.toServer sys.toClient ∧
        ServerSide link payload (due sys.client i) sys.server sys.toClient →
        ClientSide i payload sys.client sys.toServer (sys.next link (.server a)).1.toClient ∧
          ServerSide link payload (due sys.client i) (sys.next link (.server a)).1.server
            (sys.next link (.server a)).1.toClient := by
      rintro ⟨hclient, hserver⟩
      -- what was heard is still there
      refine ⟨{ hclient with control := hclient.control.mono (List.subset_append_left _ _) },
        hserver.step hroom ?_ hgives⟩
      rintro nowMs sender data rfl hsender
      exact hclient.sent data (hcarried hsender)
    refine ⟨⟨inv.only, inv.sides.imp_right hsides⟩, fun call handler res ctx hmem => ?_⟩
    obtain ⟨e, -, heq⟩ := List.mem_map.1 hmem
    cases heq

/-- A plain request is no subscription. -/
theorem kind_request {a : Client.RequestArgs} (hkind : a.kind = .request) :
    a.markObserving = false ∧ a.observe = none := by
  unfold Client.RequestArgs.kind at hkind
  cases hm : a.markObserving with
  | true => simp [hm] at hkind
  | false =>
    cases ho : a.observe with
    | none => exact ⟨rfl, rfl⟩
    | some v => simp [hm, ho] at hkind

/-- What a call that is no upload comes to: the request of `sendRequest`, with the arguments of
its shape. -/
theorem plain_call (c : Client cfg) {call : Client.ClientCall} {a : Client.RequestArgs}
    (hshape : call.shape = .issue a) (hplain : a.blockwise cfg = false) (sendOk : Bool) :
    c.call sendOk call = c.sendRequest a sendOk := by
  rw [Client.call_eq, hshape]
  exact if_neg (by rw [hplain]; exact Bool.false_ne_true)

/-- The call has sent its request, in the slot it was given, and the server is at its start. -/
theorem inv_start {c : Client cfg} (hv : System.Vacant c) {call : Client.ClientCall}
    {a : Client.RequestArgs} (hshape : call.shape = .issue a) (hplain : a.blockwise cfg = false)
    (hkind : a.kind = .request) {sendOk : Bool} (hok : (c.call sendOk call).2.1 = true)
    (payload : Bytes) : ∃ i, Inv link i payload (System.afterCall link c call sendOk) := by
  have hcall := plain_call c hshape hplain sendOk
  obtain ⟨hobserving, hobserve⟩ := kind_request hkind
  unfold System.afterCall
  rw [hcall] at hok ⊢
  rcases c.sendRequest_cases a sendOk with ⟨-, heq⟩ | ⟨i, -, -, heq⟩ | ⟨i, buf, -, hbuf, heq⟩
  · rw [heq] at hok
    cases hok
  · rw [heq] at hok
    cases hok
  -- the datagram of the call asks for the first block, whatever was asked before
  rw [heq]
  have hasks : ∀ asked, AsksIn cfg asked buf := asksIn_request hobserve hbuf
  refine ⟨i, fun j hj => ?_, .inr ⟨⟨?_, fun hb => ?_, fun hb hact => ?_, ?_, fun t ha => ?_, ?_⟩, ?_⟩⟩
  · by_contra hji
    dsimp only at hj
    rw [Table.set_ne _ _ hji, hv.slots j] at hj
    cases hj
  all_goals dsimp only at *
  · rw [Table.set_self]
    exact hobserving
  · rw [Table.set_self]
    show (if cfg.enableBlockwise = true then _ else _ : Block1UploadState).active = false
    rw [if_pos hb]
  · rw [Table.set_self] at hact
    change (if cfg.enableBlockwise = true then _ else _ : Block2RecvState).active = true at hact
    rw [if_pos hb] at hact
    cases hact
  · rw [hv.idle]
    trivial
  · -- it is started in the pool if the call is Confirmable, and the pool was empty
    by_cases hcon : a.confirmable = true
    · rw [if_pos hcon] at ha ⊢
      rcases TransactionPool.start_cases c.transactions a.server c.nextMessageId [c.nextTokenByte] buf
        c.lastNowMs (a.call c.calls) with hsame | ⟨k, -, hset⟩
      · rw [hsame] at ha
        exact absurd ha (hv.transactions t)
      · rw [hset] at ha ⊢
        by_cases htk : t = k
        · subst htk
          rw [Table.set_self]
          exact hasks _
        · rw [Table.set_ne _ _ htk] at ha
          exact absurd ha (hv.transactions t)
    · rw [if_neg hcon] at ha
      exact absurd ha (hv.transactions t)
  · intro data hdata
    rcases List.mem_cons.1 (System.mem_clientData.1 hdata) with heq | hmem
    · obtain ⟨-, rfl⟩ := ClientEvent.sent.inj heq
      exact hasks _
    · cases List.mem_singleton.1 hmem
  · exact (serverSide_init link payload).mono (Nat.zero_le _)

/-- **The whole response or none of it.** A client that had nothing in progress makes a plain
request, and the handlers of the server give it one payload, which is no longer than the client can
put together (what is beyond `PULSECOAP_BLOCK2_MAX_BODY` is dropped without a sign). Whatever the
network then loses, delays, duplicates or reorders, whatever the other peers do, and wherever the
payload is cut into blocks, every `onResponse` is called with that payload, or with an error and
nothing. -/
theorem fetched_whole (hmax : payload.length ≤ cfg.block2MaxBody)
    (hroom : cfg.enableBlockwise = true → 2 ≤ cfg.maxOptions) {c : Client cfg}
    (hv : System.Vacant c) {call : Client.ClientCall} {a : Client.RequestArgs}
    (hshape : call.shape = .issue a) (hplain : a.blockwise cfg = false) (hkind : a.kind = .request)
    {sendOk : Bool} (hok : (c.call sendOk call).2.1 = true) {hist : List System.Event}
    {sys : System cfg}
    (r : (System.machine link (System.afterCall link c call sendOk)).Run (Steps link payload) hist
      sys) :
    ∀ id handler res ctx, .client (.response id handler res ctx) ∈ hist → Whole payload res := by
  obtain ⟨i, hstart⟩ : ∃ i, Inv link i payload (System.afterCall link c call sendOk) :=
    inv_start hv hshape hplain hkind hok payload
  obtain ⟨-, hall⟩ := r.invariant_outputs (I := Inv link i payload)
    (Q := fun e => ∀ id handler res ctx, e = .client (.response id handler res ctx) →
      Whole payload res) hstart fun inv hp => by
        obtain ⟨inv', hwhole⟩ := inv.next hmax hroom hp
        exact ⟨inv', fun e he id handler res ctx heq => hwhole id handler res ctx (heq ▸ he)⟩
  exact fun id handler res ctx hmem => hall _ hmem id handler res ctx rfl

-- ===========================================================================
-- Three blocks
-- ===========================================================================

def fetchLink : Link := { client := { port := 1 }, server := { port := 2 } }

/-- A GET for `/a`, and 150 bytes: two blocks of 64 and one of 22. -/
def getThree : Client.ClientCall := .get fetchLink.server [0x2F, 0x61] (some 0) none true
def document : Bytes := List.replicate 75 0x78 ++ List.replicate 75 0x79

def started : System Config.blockwise := System.afterCall fetchLink {} getThree true

/-- The server is given a datagram and its handler the payload; the client is given one, and its
`poll()` runs to the end. -/
def serve (data : Bytes) : List System.Action :=
  [.server (.poll 0 (some (fetchLink.client, data))), .server (.handlerReturns { payload := document })]
def hear (data : Bytes) : List System.Action :=
  .client (.poll 1 (some (fetchLink.server, data))) :: List.replicate 8 (.client (.resume true))

/-- After some actions, and datagram `k` of either side there. -/
def after (acts : List System.Action) : System Config.blockwise :=
  ((System.machine fetchLink started).exec [] started acts).2
def request (acts : List System.Action) (k : Nat) : Bytes := ((after acts).toServer[k]?).getD []
def response (acts : List System.Action) (k : Nat) : Bytes := ((after acts).toClient[k]?).getD []

/-- The first block comes three times, and the request for it twice. -/
def first : List System.Action :=
  .server (.call (.addResource (some [0x2F, 0x61]) 0x0F (some 0) none false)) ::
    serve (request [] 0) ++ serve (request [] 0)
def second : List System.Action :=
  let acts := first ++ hear (response first 0)
  acts ++ serve (request acts 1)
def third : List System.Action :=
  let acts := second ++ hear (response second 1) ++ hear (response second 2)
  let acts := acts ++ hear (response acts 0)
  let acts := acts ++ serve (request acts 3)
  acts ++ hear (response acts 3)

/-- The payloads that the client's handlers are called with. -/
def bodies (hist : List System.Event) : List Bytes :=
  hist.filterMap fun
    | .client (.response _ _ res _) => some res.payload
    | _ => none

theorem fetched_whole_third :
    bodies ((System.machine fetchLink started).exec [] started third).1 = [document] ∧
      ∀ id handler res ctx, .client (.response id handler res ctx) ∈
        ((System.machine fetchLink started).exec [] started third).1 → Whole document res := by
  have hvacant : System.Vacant ({} : Client Config.blockwise) :=
    ⟨rfl, fun _ => rfl, fun _ => rfl, fun _ h => nomatch h⟩
  have hmeets : (System.machine fetchLink started).Meets (Steps fetchLink document) started third := by
    decide +kernel
  have hshape : getThree.shape = .issue
      { server := fetchLink.server, path := [0x2F, 0x61], method := Code.get
        onResponse := some 0 } := rfl
  exact ⟨by decide +kernel,
    fetched_whole (by decide +kernel) (fun _ => by decide) hvacant hshape rfl rfl
      (by decide +kernel) (Machine.Run.start.exec hmeets)⟩

end Fetch

end PulseCoap
