import PulseCoap.System.Cursors

/-!
# PulseCoAP — the client's cursor

Every step of the client keeps `ClientSide` while the upload lasts, and moves
the cursor only at a Continue for the block in flight.

`Goes` is what every step is shown to do: no timeout is reported as long as the
datagrams get through, and unless the upload is over the invariant holds again,
for the cursor where it was or one block on. Whatever has been sent is then at
or behind the cursor, including what waits in the pool to be sent again, which
is why an old block never brings the server a number that the client has not
reached.

* `reaches_block1` — the next block is the one the cursor is at.
* `ClientSide.dispatch`, `ClientSide.tick` — the two steps that do something.
* `ClientSide.step` — all of them.
-/

namespace PulseCoap

namespace System

open Client (transmit buildBlock1)
open Server (namedBlock)
open TransactionPool (Awaiting)

variable {cfg : Config} {link : Link} {i : Fin cfg.maxTransactions} {c : Client cfg}
  {toServer toClient : List Bytes} {through : Prop}

-- ===========================================================================
-- What the client sends
-- ===========================================================================

theorem has_succ {up : Block1UploadState} {num : Nat} (h : up.Has num) :
    up.fullPayload.length - num * blockSize up.szx > blockSize up.szx ↔ up.Has (num + 1) := by
  unfold Block1UploadState.Has at h ⊢
  rw [Nat.add_mul, Nat.one_mul]
  omega

/-- The block at the cursor. Its number has twenty bits, so the Block1 option is read as it was
written, and it says whether there is a block behind. -/
theorem reaches_block1 {up : Block1UploadState} (hhas : up.Has up.nextNum.toNat)
    (hsmall : up.nextNum.toNat ≤ 2 ^ 20) {messageId : UInt16} {sendOk : Bool} {buf : Bytes}
    (h : transmit cfg (buildBlock1 cfg up messageId) sendOk = some buf) : Reaches cfg up buf := by
  intro msg opt b1 hdec hopt hb1
  obtain ⟨htoken, -, hvalue⟩ := Client.block1_decode h hdec
  have hfound : msg.findOption OptionNumber.block1 = some opt := by
    unfold Server.block1Option at hopt
    split at hopt
    · exact hopt
    · cases hopt
  obtain ⟨hnum, hm⟩ := BlockOption.fromOption_value (by omega) (hvalue opt hfound) hb1
  refine ⟨htoken, Nat.le_of_eq (by rw [hnum]), ?_⟩
  rw [hm, hnum, Client.moreAfter, decide_eq_true_eq]
  exact has_succ hhas

/-- An empty ACK brings no block. -/
theorem reaches_ack {up : Block1UploadState} {sender : Endpoint} {msg : Message} {ackOk : Bool}
    {dest : Endpoint} {data : Bytes} (h : .sent dest data ∈ Client.ackEvents cfg sender msg ackOk) :
    Reaches cfg up data := by
  unfold Client.ackEvents at h
  split at h
  · split at h
    · next buf hbuf =>
      cases List.mem_singleton.1 h
      obtain ⟨m, hm, henc⟩ := Client.transmit_some hbuf
      cases hm
      have hcarries := Server.carries_emptyAck cfg msg.messageId
      have hwire := Client.encode_wire hcarries.built henc
      rw [hwire]
      intro msg' opt b1 hdec hopt _
      have hcode : msg'.code = Code.empty := by
        have hmsg : msg' = (Message.decode cfg (Message.wire _)).2 := congrArg Prod.snd hdec.symm
        rw [hmsg]
        exact (Message.sameContent_decode hcarries.built.toWellFormed).code
      unfold Server.block1Option at hopt
      rw [hcode, if_neg fun h => by cases h.2 with | inl h => cases h | inr h => cases h] at hopt
      cases hopt
    · cases h
  · cases h

/-- What is not past the cursor is not past a later one. So the datagrams that were sent before
need no second look when the cursor moves. -/
theorem Reaches.on {up : Block1UploadState} {data : Bytes} (h : Reaches cfg up data) {num : UInt32}
    (hnum : up.nextNum.toNat ≤ num.toNat) (waiting : Bool) :
    Reaches cfg { up with nextNum := num, waitingForContinue := waiting } data := by
  intro msg opt b1 hdec hopt hb1
  obtain ⟨htoken, hle, hm⟩ := h msg opt b1 hdec hopt hb1
  exact ⟨htoken, Nat.le_trans hle hnum, hm⟩

/-- What holds of the old datagrams and of the new ones. -/
theorem forall_toServer {P : Bytes → Prop} {dest : Endpoint} {events : List ClientEvent}
    (hold : ∀ data ∈ toServer, P data) (hnew : ∀ data, .sent dest data ∈ events → P data) :
    ∀ data ∈ toServer ++ clientData dest events, P data := by
  intro data hdata
  rcases List.mem_append.1 hdata with hdata | hdata
  · exact hold data hdata
  · exact hnew data (mem_clientData.1 hdata)

-- ===========================================================================
-- Steps that leave the upload alone
-- ===========================================================================

/-- The upload after a step: as it was, or one block on, at a Continue for the block in flight.
Body, path and token are the same in both cases. -/
inductive Moves (cfg : Config) (toClient : List Bytes) (up up' : Block1UploadState) : Prop
  | stays (waiting : Bool) (h : up' = { up with waitingForContinue := waiting })
  | on (h : ∃ data ∈ toClient, ∃ msg, Message.decode cfg data = (.none, msg) ∧
      namedBlock msg = some up.nextNum)
      (hup : up' = { up with nextNum := up.nextNum + 1, waitingForContinue := false })

/-- What a step comes to while the upload lasts: no timeout if `through`, and the invariant if
it goes on. If it does not, the upload is over and nothing more is promised of it. -/
structure Goes (through : Prop) (link : Link) (i : Fin cfg.maxTransactions) (c : Client cfg)
    (toServer toClient : List Bytes) (r : Client cfg × List ClientEvent) : Prop where
  calm : through → ∀ call handler ctx, .timeout call handler ctx ∉ r.2
  goes : r.1.Uploads i →
    ClientSide i r.1 (toServer ++ clientData link.server r.2) toClient ∧
      Moves cfg toClient (c.slots i).upload (r.1.slots i).upload

theorem Goes.mono {through' : Prop} {r : Client cfg × List ClientEvent}
    (h : Goes through link i c toServer toClient r) (ht : through' → through) :
    Goes through' link i c toServer toClient r :=
  ⟨fun h' => h.calm (ht h'), h.goes⟩

theorem moves_refl (up : Block1UploadState) : Moves cfg toClient up up := .stays _ rfl

/-- The slots are as they were, so the cursor is too. What is left to show is what the step
sends and what it keeps in the pool. -/
theorem ClientSide.keep (h : ClientSide i c toServer toClient) {r : Client cfg × List ClientEvent}
    (hslots : r.1.slots = c.slots) (hdisc : ∀ j, (r.1.discovers j).active = false)
    (hwait : ∀ t, Awaiting (r.1.transactions t) →
      Reaches cfg (c.slots i).upload (r.1.transactions t).message)
    (hctl : Underway i (c.slots i).upload toClient r.1.control)
    (hcalm : through → ∀ call handler ctx, .timeout call handler ctx ∉ r.2)
    (hsent : ∀ dest data, .sent dest data ∈ r.2 → Reaches cfg (c.slots i).upload data) :
    Goes through link i c toServer toClient r := by
  refine ⟨hcalm, fun _ => ?_⟩
  rw [hslots]
  refine ⟨⟨hdisc, ?_, ?_, ?_, ?_, ?_⟩, moves_refl _⟩ <;> rw [hslots]
  · exact h.token
  · exact h.small
  · exact hctl
  · exact hwait
  · exact forall_toServer h.sent fun data => hsent link.server data

/-- An ACK takes nothing from what waits elsewhere: what is still in the pool afterwards was
there before. -/
theorem ClientSide.waiting_completed (h : ClientSide i c toServer toClient) (remote : Endpoint)
    (messageId : UInt16) (t : Fin cfg.maxTransactions)
    (ha : Awaiting ((c.completed remote messageId).transactions t)) :
    Reaches cfg (c.slots i).upload ((c.completed remote messageId).transactions t).message := by
  unfold Client.completed at ha ⊢
  dsimp only at ha ⊢
  rcases TransactionPool.complete_cases c.transactions remote messageId with ⟨-, hc⟩ | ⟨j, -, hc⟩
  · rw [hc] at ha ⊢
    exact h.waiting t ha
  · rw [hc] at ha ⊢
    by_cases htj : t = j
    · subst htj
      rw [Table.set_self] at ha
      cases ha
    · rw [Table.set_ne _ _ htj] at ha ⊢
      exact h.waiting t ha

/-- `poll` up to its first cut, with a datagram that is no RST. The message is only noted for
the dispatch, so nothing moves yet. -/
theorem ClientSide.poll (h : ClientSide i c toServer toClient) (nowMs : UInt32)
    {rx : Option (Endpoint × Bytes)}
    (hrx : ∀ sender data, rx = some (sender, data) → data ∈ toClient)
    (hplain : ∀ data ∈ toClient, ∀ msg, Message.decode cfg data = (.none, msg) →
      msg.type ≠ .reset) : Goes through link i c toServer toClient (c.poll nowMs rx) := by
  rcases c.poll_cases nowMs rx with heq | ⟨sender, data, msg, hsome, hdec, heq⟩
  · rw [heq]
    exact h.keep rfl h.quiet h.waiting trivial (fun _ => nofun) nofun
  · rw [heq]
    have hdata := hrx sender data hsome
    rcases (c.atTime nowMs).handleMessage_cases sender msg with ⟨hrst, -⟩ | ⟨c', hc', heq | heq⟩
    · exact absurd hrst (hplain data hdata msg hdec)
    all_goals
      rw [heq]
      rcases hc' with rfl | rfl
    · exact h.keep rfl h.quiet h.waiting ⟨data, hdata, hdec⟩ (fun _ => nofun) nofun
    · exact h.keep rfl h.quiet (h.waiting_completed sender msg.messageId) ⟨data, hdata, hdec⟩
        (fun _ => nofun) nofun
    · exact h.keep rfl h.quiet h.waiting trivial (fun _ => nofun) nofun
    · exact h.keep rfl h.quiet (h.waiting_completed sender msg.messageId) trivial (fun _ => nofun) nofun

-- ===========================================================================
-- The dispatch
-- ===========================================================================

/-- A response callback is no timeout. -/
theorem calm_fireResponse (c : Client cfg) (i : Fin cfg.maxTransactions) (res : ClientResponse)
    (fragmented : Bool) (call : Call) (handler : Ref) (ctx : Option Ref) :
    .timeout call handler ctx ∉ (c.fireResponse i res fragmented).2 := by
  rw [Client.fireResponse_eq]
  intro hmem
  obtain ⟨h, -, heq⟩ := Option.map_eq_some_iff.1 (Option.mem_toList.1 hmem)
  cases heq

/-- The upload is over, so there is no invariant to keep; only a timeout has to be excluded. -/
theorem goes_done {r : Client cfg × List ClientEvent}
    (hcalm : through → ∀ call handler ctx, .timeout call handler ctx ∉ r.2)
    (hdone : (r.1.slots i).pending.active = false ∨ (r.1.slots i).upload.active = false) :
    Goes through link i c toServer toClient r := by
  refine ⟨hcalm, fun hup => ?_⟩
  rcases hdone with hdone | hdone
  · rw [hup.1] at hdone
    cases hdone
  · rw [hup.2] at hdone
    cases hdone

/-- A response for the upload: a Continue, or the end. The Continue is for the block in flight,
and moves the cursor by one. -/
theorem ClientSide.dispatchPending (h : ClientSide i c toServer toClient)
    (hb : cfg.enableBlockwise = true) {s : Server cfg}
    (hans : ∀ data ∈ toClient, Answers link (c.slots i).upload s data) {sender : Endpoint}
    {msg : Message} (hheard : ∃ data ∈ toClient, Message.decode cfg data = (.none, msg))
    (hnext : msg.code = Code.«continue» → namedBlock msg = some (c.slots i).upload.nextNum) :
    Goes through link i c toServer toClient (c.dispatchPending i sender msg) := by
  by_cases hcont : msg.code = Code.«continue» ∧ (c.slots i).upload.active = true
  · -- the block in flight is accepted, and there are more
    obtain ⟨data, hdata, hdec⟩ := hheard
    have hnamed := hnext hcont.1
    obtain ⟨-, hhas, -⟩ := (hans data hdata msg hdec).2 _ hnamed
    have hlt := Server.namedBlock_lt hnamed
    have hsucc := toNat_next hlt
    have heq : c.dispatchPending i sender msg = ((c.handleContinue i).goto (.block1 i), []) := by
      unfold Client.dispatchPending
      rw [if_pos hb, if_pos hcont]
    rw [heq]
    refine ⟨fun _ => nofun, fun _ => ?_⟩
    -- the slot's cursor is one further, and all that was sent is behind it
    have hslot : ((c.handleContinue i).slots i) = { c.slots i with
        upload := { (c.slots i).upload with
          nextNum := (c.slots i).upload.nextNum + 1, waitingForContinue := false } } :=
      Table.set_self _ _ _
    have hon : ∀ {data}, Reaches cfg (c.slots i).upload data →
        Reaches cfg ((c.handleContinue i).slots i).upload data := by
      intro data hr
      rw [hslot]
      exact hr.on (by omega) false
    refine ⟨⟨h.quiet, ?_, ?_, ?_, fun t ha => hon (h.waiting t ha),
      forall_toServer (fun data hd => hon (h.sent data hd)) nofun⟩,
      .on ⟨data, hdata, msg, hdec, hnamed⟩ (congrArg ClientSlot.upload hslot)⟩
    · show ((c.handleContinue i).slots i).pending.token = [((c.handleContinue i).slots i).upload.token]
      rw [hslot]
      exact h.token
    · show ((c.handleContinue i).slots i).upload.nextNum.toNat ≤ _
      rw [hslot]
      show ((c.slots i).upload.nextNum + 1).toNat ≤ _
      omega
    · refine ⟨rfl, ?_⟩
      show ((c.handleContinue i).slots i).upload.Has ((c.handleContinue i).slots i).upload.nextNum.toNat
      rw [hslot]
      show (c.slots i).upload.Has ((c.slots i).upload.nextNum + 1).toNat
      rw [hsucc]
      exact hhas
  · -- any other response ends the upload
    have hdone : ∀ recv, ((c.setBlocks i (Client.uploadDone (c.slots i).upload) recv).slots
        i).upload.active = false := by
      intro recv
      show ((c.slots.set i _) i).upload.active = false
      rw [Table.set_self]
      rfl
    cases h2 : Client.block2Of msg with
    | none =>
      rw [Client.dispatchPending_plain hb hcont h2]
      refine goes_done (fun _ => calm_fireResponse _ _ _ _) (.inr ?_)
      unfold Client.handlePlain
      rw [Client.fireResponse_eq]
      exact hdone _
    | some b2 =>
      rw [Client.dispatchPending_fragment hb hcont h2]
      dsimp only
      split
      · exact goes_done (fun _ => nofun) (.inr (hdone _))
      · refine goes_done (fun _ => calm_fireResponse _ _ _ _) (.inr ?_)
        rw [Client.fireResponse_eq]
        exact hdone _

/-- The dispatch of a message, with its ACK. No other slot is in use and no discovery is open,
so the message is for the upload or for nobody. -/
theorem ClientSide.dispatch (h : ClientSide i c toServer toClient)
    (hb : cfg.enableBlockwise = true) (honly : ∀ j, (c.slots j).pending.active = true → j = i)
    (hup : c.Uploads i) {s : Server cfg}
    (hans : ∀ data ∈ toClient, Answers link (c.slots i).upload s data) {sender : Endpoint}
    {msg : Message} {inCallback : Bool} (hctl : c.control = .polling (.dispatch sender msg) inCallback)
    (hturn : ∀ x ∈ continuing c, namedBlock x.2 = some x.1.nextNum) (sendOk : Bool) :
    Goes through link i c toServer toClient (c.resume (.dispatch sender msg) sendOk) := by
  have hheard : ∃ data ∈ toClient, Message.decode cfg data = (.none, msg) := by
    have := h.control
    rwa [hctl] at this
  have hack : ∀ {call handler ctx}, .timeout call handler ctx ∉
      Client.ackEvents cfg sender msg sendOk := by
    intro call handler ctx hmem
    unfold Client.ackEvents at hmem
    split at hmem
    · split at hmem
      · cases List.mem_singleton.1 hmem
      · cases hmem
    · cases hmem
  -- the ACK brings no block
  suffices hgoes : Goes through link i c toServer toClient (c.dispatchResponse sender msg) by
    show Goes through link i c toServer toClient ((c.dispatchResponse sender msg).1,
      Client.ackEvents cfg sender msg sendOk ++ (c.dispatchResponse sender msg).2)
    refine ⟨fun ht call handler ctx hmem => ?_, fun hup' => ?_⟩
    · rcases List.mem_append.1 hmem with hmem | hmem
      · exact hack hmem
      · exact hgoes.calm ht call handler ctx hmem
    · obtain ⟨hside, hmoves⟩ := hgoes.goes hup'
      refine ⟨{ hside with sent := forall_toServer (fun data hdata => ?_) ?_ }, hmoves⟩
      · exact hside.sent data (List.mem_append_left _ hdata)
      · intro data hmem
        rcases List.mem_append.1 hmem with hmem | hmem
        · exact reaches_ack hmem
        · exact hside.sent data (List.mem_append_right _ (mem_clientData.2 hmem))
  -- only the upload is open, so the message comes to its slot or to none
  have hnodisc : c.findDiscover msg.token = none := by
    cases hf : c.findDiscover msg.token with
    | none => rfl
    | some j =>
      have hact := (Client.findDiscover_spec hf).1
      rw [h.quiet j] at hact
      cases hact
  rcases c.dispatchResponse_cases sender msg with ⟨j, hf, -⟩ | ⟨j, -, hf, heq⟩ | ⟨-, -, heq⟩
  · rw [hnodisc] at hf
    cases hf
  · rw [heq]
    obtain rfl := honly j (Client.findPendingByToken_spec hf).1
    refine h.dispatchPending hb hans hheard fun hcode => ?_
    refine hturn ((c.slots j).upload, msg) ?_
    simp only [continuing, hctl, hnodisc, hf]
    exact if_pos ⟨hcode, hup.2⟩
  · rw [heq]
    exact h.keep rfl h.quiet h.waiting trivial (fun _ => nofun) nofun

-- ===========================================================================
-- Blocks sent and sent again
-- ===========================================================================

/-- The next block. If the transport takes it, it is in flight from now on; if not, the upload
ends with a timeout, which `GetsThrough` excludes. -/
theorem ClientSide.block1 (h : ClientSide i c toServer toClient) {inCallback : Bool}
    {j : Fin cfg.maxTransactions} (hctl : c.control = .polling (.block1 j) inCallback)
    (sendOk : Bool) :
    Goes (GetsThrough c sendOk) link i c toServer toClient (c.resume (.block1 j) sendOk) := by
  have hunder := h.control
  rw [hctl] at hunder
  obtain ⟨rfl, hhas⟩ := hunder
  have hdatagram : c.block1Datagram (c.slots j).upload sendOk =
      transmit cfg (buildBlock1 cfg (c.slots j).upload c.nextMessageId) sendOk :=
    if_neg (Nat.not_le.2 hhas)
  -- the cut before a block: it goes out, or the upload is over
  rcases c.continueUpload_cases j sendOk with ⟨hnone, id, heq⟩ | ⟨buf, hbuf, heq⟩
  · -- the next block exists, so it is the transport or the buffer that has no room for it
    refine goes_done (fun hthrough => ?_) (.inl ?_)
    · have hsome := hthrough.1 j (by rw [sending, hctl]; rfl)
      rw [← hdatagram, hnone] at hsome
      cases hsome
    · show ((c.continueUpload j sendOk).1.slots j).pending.active = false
      rw [heq, Client.fireTimeout_eq]
      show ((c.slots.set j _) j).pending.active = false
      rw [Table.set_self]
      rfl
  · show Goes (GetsThrough c sendOk) link j c toServer toClient (c.continueUpload j sendOk)
    rw [heq]
    -- the cursor stays at the block, which has been sent now
    have hreaches : Reaches cfg (c.slots j).upload buf :=
      reaches_block1 hhas h.small (hdatagram ▸ hbuf)
    have hslot : (c.block1Sent j buf).slots j = { c.slots j with
        upload := { (c.slots j).upload with waitingForContinue := true } } :=
      Table.set_self _ _ _
    have hup : ((c.block1Sent j buf).slots j).upload =
        { (c.slots j).upload with waitingForContinue := true } := by rw [hslot]
    refine ⟨fun _ call handler ctx hmem => ?_, fun _ => ⟨⟨h.quiet, ?_, ?_, trivial,
      fun t ha => ?_, ?_⟩, .stays true hup⟩⟩
    · cases List.mem_singleton.1 hmem
    · show ((c.block1Sent j buf).slots j).pending.token = [((c.block1Sent j buf).slots j).upload.token]
      rw [hslot]
      exact h.token
    · show ((c.block1Sent j buf).slots j).upload.nextNum.toNat ≤ _
      rw [hup]
      exact h.small
    · -- a waiting message, or the one just started
      show Reaches cfg ((c.block1Sent j buf).slots j).upload _
      rw [hup]
      refine Reaches.on ?_ (Nat.le_refl _) true
      rcases TransactionPool.start_cases c.transactions (c.slots j).upload.server c.nextMessageId
        [(c.slots j).upload.token] buf c.lastNowMs (c.slots j).pending.call with hsame | ⟨k, -, hset⟩
      · have htrans : ((c.block1Sent j buf).at' .expire false).transactions = c.transactions := hsame
        rw [htrans] at ha ⊢
        exact h.waiting t ha
      · have htrans : ((c.block1Sent j buf).at' .expire false).transactions =
            c.transactions.set k _ := hset
        rw [htrans] at ha ⊢
        by_cases htk : t = k
        · subst htk
          rw [Table.set_self]
          exact hreaches
        · rw [Table.set_ne _ _ htk] at ha ⊢
          exact h.waiting t ha
    · show ∀ data ∈ _, Reaches cfg ((c.block1Sent j buf).slots j).upload data
      rw [hup]
      refine forall_toServer (fun data hdata => (h.sent data hdata).on (Nat.le_refl _) true) ?_
      intro data hmem
      obtain ⟨-, rfl⟩ := ClientEvent.sent.inj (List.mem_singleton.1 hmem)
      exact hreaches.on (Nat.le_refl _) true

/-- A pass of the pool scan. It sends a block again that was sent before, or gives up, and the
latter is a timeout. -/
theorem ClientSide.tick (h : ClientSide i c toServer toClient)
    (honly : ∀ j, (c.slots j).pending.active = true → j = i) {inCallback : Bool} {index : Nat}
    (hctl : c.control = .polling (.tick index) inCallback) (sendOk : Bool) :
    Goes (GetsThrough c sendOk) link i c toServer toClient (c.resume (.tick index) sendOk) := by
  rw [Client.resume_tick]
  split
  · next hlt =>
    -- the three outcomes of a pass of the scan
    have hat : ⟨index, hlt⟩ ∈ scanning c := by
      rw [scanning, hctl]
      exact dif_pos hlt
    rcases c.tickAt_cases ⟨index, hlt⟩ sendOk with ⟨-, heq⟩ | ⟨ha, -, -, heq⟩ |
      ⟨ha, hdue, hmax, heq⟩
    · rw [heq]
      exact h.keep rfl h.quiet h.waiting trivial (fun _ => nofun) nofun
    · -- what is sent again was waiting, so it is behind the cursor already
      rw [heq]
      refine h.keep rfl h.quiet (fun t ha' => ?_) trivial (fun _ call handler ctx hmem => ?_)
        fun dest data hmem => ?_
      · -- the same message
        have htrans : ((c.resent ⟨index, hlt⟩).at' (.tick (index + 1)) false).transactions =
            c.transactions.set ⟨index, hlt⟩ _ := rfl
        rw [htrans] at ha' ⊢
        by_cases ht : t = ⟨index, hlt⟩
        · subst ht
          rw [Table.set_self]
          exact h.waiting _ ha
        · rw [Table.set_ne _ _ ht] at ha' ⊢
          exact h.waiting t ha'
      · dsimp only at hmem
        split at hmem
        · cases List.mem_singleton.1 hmem
        · cases hmem
      · dsimp only at hmem
        split at hmem
        · cases List.mem_singleton.1 hmem
          exact h.waiting _ ha
        · cases hmem
    · -- given up: this is the upload's own slot, or none
      have hcalm : ¬ GetsThrough c sendOk := fun hthrough => hmax (hthrough.2 _ hat ha hdue)
      have hwait : ∀ t, Awaiting ((c.freed ⟨index, hlt⟩).transactions t) →
          Reaches cfg (c.slots i).upload ((c.freed ⟨index, hlt⟩).transactions t).message := by
        intro t ha'
        have htrans : (c.freed ⟨index, hlt⟩).transactions = c.transactions.set ⟨index, hlt⟩ _ := rfl
        rw [htrans] at ha' ⊢
        by_cases ht : t = ⟨index, hlt⟩
        · subst ht
          rw [Table.set_self] at ha'
          cases ha'
        · rw [Table.set_ne _ _ ht] at ha' ⊢
          exact h.waiting t ha'
      rw [heq]
      rcases (c.freed ⟨index, hlt⟩).timeoutTrampoline_cases (c.transactions ⟨index, hlt⟩).token
        (c.transactions ⟨index, hlt⟩).owner (.tick (index + 1)) with ⟨j, hf, heq⟩ | ⟨-, heq⟩
      · obtain rfl := honly j (Client.findPendingByToken_spec hf).1
        refine goes_done (fun hthrough => absurd hthrough hcalm) (.inl ?_)
        rw [heq, Client.fireTimeout_eq]
        show ((c.slots.set j _) j).pending.active = false
        rw [Table.set_self]
      · rw [heq, Client.fireTimeout_eq]
        refine h.keep rfl h.quiet hwait trivial (fun hthrough => absurd hthrough hcalm)
          fun dest data hmem => ?_
        obtain ⟨_, -, heq⟩ := Option.map_eq_some_iff.1 (Option.mem_toList.1 hmem)
        cases heq
  · exact h.keep rfl h.quiet h.waiting trivial (fun _ => nofun) nofun

/-- **A step of the client** while the upload lasts: it moves on by one block when it takes a
Continue, and the condition is that this is the Continue for the block it has sent. -/
theorem ClientSide.step (h : ClientSide i c toServer toClient) (hb : cfg.enableBlockwise = true)
    (honly : ∀ j, (c.slots j).pending.active = true → j = i) (hup : c.Uploads i) {s : Server cfg}
    (hans : ∀ data ∈ toClient, Answers link (c.slots i).upload s data) {a : Client.Action}
    (hcall : ∀ call sendOk, a ≠ .call call sendOk)
    (hrx : ∀ nowMs sender data, a = .poll nowMs (some (sender, data)) → data ∈ toClient)
    (hturn : ∀ sendOk, a = .resume sendOk →
      ∀ x ∈ continuing c, namedBlock x.2 = some x.1.nextNum) :
    Goes (∀ sendOk, a = .resume sendOk → GetsThrough c sendOk) link i c toServer toClient
      (c.step a) := by
  rcases c.step_cases a with heq | ⟨call, sendOk, ha, -⟩ | ⟨nowMs, rx, ha, -, heq⟩ |
    ⟨sendOk, k, inCallback, ha, hctl, heq⟩
  · rw [heq]
    exact h.keep rfl h.quiet h.waiting h.control (fun _ => nofun) nofun
  · exact absurd ha (hcall call sendOk)
  · rw [heq]
    refine h.poll nowMs (fun sender data hrx' => ?_) fun data hdata msg hdec =>
      (hans data hdata msg hdec).1
    exact hrx nowMs sender data (by rw [ha, hrx'])
  · rw [heq]
    have hunder := h.control
    rw [hctl] at hunder
    cases k with
    | dispatch sender msg => exact h.dispatch hb honly hup hans hctl (hturn sendOk ha) sendOk
    | block1 j => exact (h.block1 hctl sendOk).mono fun hthrough => hthrough sendOk ha
    -- the next two segments come after a download and a fragmented reply, not in an upload
    | block2 j => exact hunder.elim
    | close j fragmented call => exact hunder.elim
    | expire =>
      refine h.keep rfl (fun j => ?_) h.waiting trivial (fun _ => nofun) nofun
      show (c.expireDiscovers.discovers j).active = false
      rw [Bool.eq_false_iff]
      intro hact
      rw [(Client.narrows_expireDiscovers c).discovers j hact, h.quiet j] at hact
      cases hact
    | tick index => exact (h.tick honly hctl sendOk).mono fun hthrough => hthrough sendOk ha
    | ret => exact h.keep rfl h.quiet h.waiting trivial (fun _ => nofun) nofun

end System

end PulseCoap
