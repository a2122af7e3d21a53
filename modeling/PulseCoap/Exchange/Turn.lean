import PulseCoap.Client.Frame
import PulseCoap.Exchange.Client
import PulseCoap.Pool.Schedule

/-!
# PulseCoAP — a poll of the client, to its return

A poll in which no timer falls due is the datagram it reads and what that leads
to; the scan of the pool behind it only comes to its end. What it leads to is a
callback, the request for a further block, the next block of an upload, or
nothing.

The scan of the pool at the end of a poll is the same in all of them: with
nothing due it makes one empty step for each slot. `noneDue_start` says that a
transaction which the poll itself has started is not due in it, which needs a
timeout shorter than half a round of the clock. The state at each cut is written
out, so that the lemmas can be used of a client in any state.

* `noneDue_complete`, `noneDue_start` — the pool stays quiet.
* `exec_message` — up to the dispatch, `exec_expire` — from there to the return.
* `turn_plain`, `turn_last`, `turn_more` — the whole poll.
-/

namespace PulseCoap

namespace TransactionPool

open Pool (TimersFit)

variable {cfg : Config} {pool : TransactionPool cfg} {nowMs : UInt32}

-- ===========================================================================
-- No timer due
-- ===========================================================================

/-- No transaction of the pool is due at this time. -/
def NoneDue (pool : TransactionPool cfg) (nowMs : UInt32) : Prop :=
  ∀ i, Awaiting (pool i) → notDue nowMs (pool i) = true

theorem noneDue_complete (h : pool.NoneDue nowMs) (remote : Endpoint) (messageId : UInt16) :
    (pool.complete remote messageId).1.NoneDue nowMs := by
  intro i ha
  rcases complete_cases pool remote messageId with ⟨-, heq⟩ | ⟨k, -, heq⟩
  · rw [heq] at ha ⊢
    exact h i ha
  · rw [heq] at ha ⊢
    by_cases hik : i = k
    · subst hik
      rw [Table.set_self] at ha
      cases ha
    · rw [Table.set_ne _ _ hik] at ha ⊢
      exact h i ha

/-- **What is started now is not due now.** Its first timeout is positive and less than half a
round of the clock. -/
theorem noneDue_start (fit : TimersFit cfg) (h : pool.NoneDue nowMs) (remote : Endpoint)
    (messageId : UInt16) (token message : Bytes) (owner : Call) :
    (pool.start remote messageId token message nowMs owner).1.NoneDue nowMs := by
  intro i ha
  rcases start_cases pool remote messageId token message nowMs owner with heq | ⟨k, -, heq⟩
  · rw [heq] at ha ⊢
    exact h i ha
  · rw [heq] at ha ⊢
    by_cases hik : i = k
    · subst hik
      rw [Table.set_self]
      let a : Pool.StartArgs := { remote, messageId, token, message }
      have hpos : 0 < Pool.initialTimeout cfg a := Pool.initialTimeout_pos fit a
      have hlt : Pool.initialTimeout cfg a * 2 ^ 0 < 2 ^ 31 := Pool.timeout_lt fit a (Nat.zero_le _)
      have hleft : (started cfg remote messageId token message nowMs owner).nextRetryAtMs - nowMs =
          computeInitialTimeoutMs cfg messageId.toUInt32 := by
        show nowMs + computeInitialTimeoutMs cfg messageId.toUInt32 - nowMs = _
        rw [UInt32.add_comm, UInt32.add_sub_cancel]
      unfold notDue
      rw [hleft]
      show (decide (0 < Pool.initialTimeout cfg a) && decide (Pool.initialTimeout cfg a < 2 ^ 31)) =
        true
      rw [decide_eq_true hpos, decide_eq_true (by omega)]
      rfl
    · rw [Table.set_ne _ _ hik] at ha ⊢
      exact h i ha

end TransactionPool

namespace Client

open Pool (TimersFit)

variable {cfg : Config} {c : Client cfg}

-- ===========================================================================
-- The two ends of a poll
-- ===========================================================================

/-- The client when it has read this message. -/
def heard (c : Client cfg) (nowMs : UInt32) (sender : Endpoint) (msg : Message) : Client cfg :=
  { c with
    lastNowMs := nowMs
    transactions :=
      if msg.type = .acknowledgement then (c.transactions.complete sender msg.messageId).1
      else c.transactions }

/-- And when `poll` returns after this. -/
def settled (c : Client cfg) : Client cfg := { c.expireDiscovers with control := .idle }

/-- A token that no discovery has is not found at the end either. -/
theorem findDiscover_settled {token : Bytes} (h : c.findDiscover token = none) :
    c.settled.findDiscover token = none := by
  refine Table.find?_eq_none.2 fun j => Bool.eq_false_iff.2 fun hj => ?_
  have hsame := (narrows_expireDiscovers c).discovers j (by simpa using (Bool.and_eq_true _ _ ▸ hj).1)
  have hnone := Table.find?_eq_none.1 h j
  rw [← hsame] at hnone
  exact absurd (hj.symm.trans hnone) (by decide)

theorem noneDue_heard {nowMs : UInt32} (h : c.NoneDue nowMs) (sender : Endpoint) (msg : Message) :
    (c.heard nowMs sender msg).NoneDue nowMs := by
  show TransactionPool.NoneDue (if _ then _ else _) _
  split
  · exact TransactionPool.noneDue_complete h sender msg.messageId
  · exact h

/-- **From the expiry loop to the return.** No discovery is found too old, no transaction is
due, and the scan comes to its end. -/
theorem exec_expire (h : List ClientEvent) {inCallback : Bool}
    (hctl : c.control = .polling .expire inCallback) (hdue : c.NoneDue c.lastNowMs) {n : Nat}
    (hn : cfg.maxTransactions + 2 ≤ n) :
    (machine cfg).exec h c (List.replicate n (.resume true)) = (h, c.settled) := by
  obtain ⟨n, rfl⟩ : ∃ m, n = m + 1 := ⟨n - 1, by omega⟩
  have hstep : c.step (.resume true) = (c.expireDiscovers.goto (.tick 0), []) := by
    rw [step_resume hctl]
    rfl
  rw [exec_resume, hstep, List.append_nil]
  exact exec_scan h n rfl hdue (Nat.zero_le _) (by omega)

/-- Any step to the expiry loop is the last one that does something. -/
theorem exec_last (h : List ClientEvent) {c' : Client cfg} {ev : List ClientEvent}
    {inCallback : Bool} (hstep : c.step (.resume true) = (c', ev))
    (hctl : c'.control = .polling .expire inCallback) (hdue : c'.NoneDue c'.lastNowMs) {n : Nat}
    (hn : cfg.maxTransactions + 3 ≤ n) :
    (machine cfg).exec h c (List.replicate n (.resume true)) = (h ++ ev, c'.settled) := by
  obtain ⟨n, rfl⟩ : ∃ m, n = m + 1 := ⟨n - 1, by omega⟩
  rw [exec_resume, hstep]
  exact exec_expire _ hctl hdue (by omega)

/-- A response code. -/
def IsResponse (msg : Message) : Prop :=
  msg.type ≠ .reset ∧ msg.code ≠ Code.empty ∧ isMethodCode msg.code = false

instance (msg : Message) : Decidable (IsResponse msg) := inferInstanceAs (Decidable (_ ∧ _ ∧ _))

/-- A code of a class other than 0 is one. -/
theorem isResponse_class {msg : Message} (htype : msg.type ≠ .reset) (hclass : codeClass msg.code ≠ 0) :
    IsResponse msg := by
  refine ⟨htype, ?_, ?_⟩
  · intro hempty
    rw [hempty] at hclass
    exact hclass rfl
  · unfold isMethodCode
    simp [hclass]

/-- **Up to the dispatch.** What comes before it, the ACK to a Confirmable response and the ACK
that frees a transaction, is in `ackEvents` and `heard`; the rest of the poll is still to run. -/
theorem exec_message (hidle : c.control = .idle) {data : Bytes} {msg : Message}
    (hdec : Message.decode cfg data = (.none, msg)) (hresp : IsResponse msg) (nowMs : UInt32)
    (sender : Endpoint) :
    (machine cfg).exec [] c (wholePoll cfg nowMs (sender, data)) =
      (machine cfg).exec
        (ackEvents cfg sender msg true ++ ((c.heard nowMs sender msg).dispatchResponse sender msg).2)
        ((c.heard nowMs sender msg).dispatchResponse sender msg).1
        (List.replicate (cfg.maxTransactions + 3) (.resume true)) := by
  have hpoll : c.step (.poll nowMs (some (sender, data))) =
      ((c.heard nowMs sender msg).goto (.dispatch sender msg), []) := by
    have hstep : c.step (.poll nowMs (some (sender, data))) =
        c.poll nowMs (some (sender, data)) := by
      simp only [Client.step, hidle]
    rw [hstep, poll_message c nowMs sender hdec]
    unfold handleMessage heard
    rw [if_neg hresp.1, if_pos ⟨hresp.2.1, by rw [hresp.2.2]; rfl⟩]
    split <;> rfl
  have hfirst : (machine cfg).exec [] c (wholePoll cfg nowMs (sender, data)) =
      (machine cfg).exec ([] ++ (c.step (.poll nowMs (some (sender, data)))).2)
        (c.step (.poll nowMs (some (sender, data)))).1
        (List.replicate (cfg.maxTransactions + 4) (.resume true)) := rfl
  -- what the dispatch comes to does not depend on where the code stands
  have hdispatch : ((c.heard nowMs sender msg).goto (.dispatch sender msg)).dispatchResponse sender
      msg = (c.heard nowMs sender msg).dispatchResponse sender msg := rfl
  rw [hfirst, hpoll, exec_resume, step_resume (c := (c.heard nowMs sender msg).goto _) rfl]
  show (machine cfg).exec ([] ++ [] ++ (ackEvents cfg sender msg true ++
    (dispatchResponse _ sender msg).2)) (dispatchResponse _ sender msg).1 _ = _
  rw [hdispatch]
  rfl

-- ===========================================================================
-- Whole polls
-- ===========================================================================

/-- From a callback on: the slot is closed. -/
theorem exec_response (h : List ClientEvent) (i : Fin cfg.maxTransactions) (res : ClientResponse)
    (fragmented : Bool) (hdue : c.NoneDue c.lastNowMs) :
    (machine cfg).exec h (c.fireResponse i res fragmented).1
        (List.replicate (cfg.maxTransactions + 3) (.resume true)) =
      (h, (c.close i fragmented).settled) := by
  rw [fireResponse_eq]
  have hstep : (c.at' (.close i fragmented (c.slots i).pending.call)
      (c.slots i).pending.onResponse.isSome).step (.resume true) =
      ((c.close i fragmented).goto .expire, []) := by
    rw [step_resume (c := c.at' _ _) rfl]
    show (((c.at' _ _).close i fragmented).goto .expire, []) = _
    rw [close_eq, close_eq]
    rfl
  have hquiet : ((c.close i fragmented).goto .expire).NoneDue
      ((c.close i fragmented).goto .expire).lastNowMs := by
    rw [close_eq]
    exact hdue
  have hlast := exec_last h hstep rfl hquiet (Nat.le_refl _)
  rw [List.append_nil] at hlast
  exact hlast

section Turns

variable {nowMs : UInt32} {sender : Endpoint} {data : Bytes} {msg : Message}
  {i : Fin cfg.maxTransactions}

/-- Up to where the slot that waits for the token has the message. -/
theorem exec_pending (hidle : c.control = .idle) (hdec : Message.decode cfg data = (.none, msg))
    (hresp : IsResponse msg) (hdisc : c.findDiscover msg.token = none)
    (hfind : c.findPendingByToken msg.token = some i) :
    (machine cfg).exec [] c (wholePoll cfg nowMs (sender, data)) =
      (machine cfg).exec
        (ackEvents cfg sender msg true ++ ((c.heard nowMs sender msg).dispatchPending i sender msg).2)
        ((c.heard nowMs sender msg).dispatchPending i sender msg).1
        (List.replicate (cfg.maxTransactions + 3) (.resume true)) := by
  have hdispatch : (c.heard nowMs sender msg).dispatchResponse sender msg =
      (c.heard nowMs sender msg).dispatchPending i sender msg := by
    unfold dispatchResponse
    rw [show (c.heard nowMs sender msg).findDiscover msg.token = none from hdisc,
      show (c.heard nowMs sender msg).findPendingByToken msg.token = some i from hfind]
  rw [exec_message hidle hdec hresp, hdispatch]

/-- The slot when a response in one piece has been given to its handler. -/
def answeredSlot (cfg : Config) (s : ClientSlot) : ClientSlot :=
  closedSlot { s with upload := if cfg.enableBlockwise then uploadDone s.upload else s.upload } false

/-- **A response in one piece** is given to the handler, and its slot is free when the handler
is called. -/
theorem turn_plain (hidle : c.control = .idle) (hdec : Message.decode cfg data = (.none, msg))
    (hresp : IsResponse msg) (hdisc : c.findDiscover msg.token = none)
    (hfind : c.findPendingByToken msg.token = some i)
    (hcont : cfg.enableBlockwise = true →
      ¬ (msg.code = Code.«continue» ∧ (c.slots i).upload.active = true))
    (h2 : cfg.enableBlockwise = true → block2Of msg = none) {handler : Ref}
    (hhandler : (c.slots i).pending.onResponse = some handler) (hdue : c.NoneDue nowMs) :
    (machine cfg).exec [] c (wholePoll cfg nowMs (sender, data)) =
      (ackEvents cfg sender msg true ++ [.response (c.slots i).pending.call handler
          { code := msg.code, payload := msg.payloadBytes, contentFormat := responseFormat msg }
          (c.slots i).pending.userContext],
        ({ c.heard nowMs sender msg with
          slots := c.slots.set i (answeredSlot cfg (c.slots i)) } : Client cfg).settled) := by
  obtain ⟨up, hup, hpending⟩ : ∃ up, up = (if cfg.enableBlockwise then
      uploadDone (c.slots i).upload else (c.slots i).upload) ∧
      (c.heard nowMs sender msg).dispatchPending i sender msg =
        ((c.heard nowMs sender msg).setBlocks i up (c.slots i).recv).handlePlain i msg := by
    by_cases hb : cfg.enableBlockwise = true
    · exact ⟨_, rfl, by rw [if_pos hb]; exact dispatchPending_plain hb (hcont hb) (h2 hb)⟩
    · refine ⟨_, rfl, ?_⟩
      rw [if_neg hb, dispatchPending, if_neg hb]
      exact congrArg (handlePlain · i msg) (setBlocks_self (c.heard nowMs sender msg) i).symm
  have hslot : (((c.heard nowMs sender msg).setBlocks i up (c.slots i).recv).slots i) =
      { c.slots i with upload := up } := Table.set_self _ _ _
  have hquiet : ((c.heard nowMs sender msg).setBlocks i up (c.slots i).recv).NoneDue
      ((c.heard nowMs sender msg).setBlocks i up (c.slots i).recv).lastNowMs :=
    noneDue_heard hdue sender msg
  rw [exec_pending hidle hdec hresp hdisc hfind, hpending, handlePlain,
    exec_response _ _ _ _ hquiet, fireResponse_eq, hslot, close_eq, hslot]
  dsimp only
  rw [hhandler]
  refine Prod.ext rfl ?_
  show settled { (c.heard nowMs sender msg) with slots := (c.slots.set i _).set i _ } = _
  rw [Table.set_set, hup]
  rfl

/-- **The last block** gives it what was put together: the receive state with this block in it. -/
theorem turn_last (hidle : c.control = .idle) (hdec : Message.decode cfg data = (.none, msg))
    (hresp : IsResponse msg) (hdisc : c.findDiscover msg.token = none)
    (hfind : c.findPendingByToken msg.token = some i) (hb : cfg.enableBlockwise = true)
    (hcont : ¬ (msg.code = Code.«continue» ∧ (c.slots i).upload.active = true)) {b : BlockOption}
    (h2 : block2Of msg = some b) (hm : b.m = false) {handler : Ref}
    (hhandler : (c.slots i).pending.onResponse = some handler) (hdue : c.NoneDue nowMs) :
    let recv := recvBlock cfg (c.slots i).recv b sender msg
    (machine cfg).exec [] c (wholePoll cfg nowMs (sender, data)) =
      (ackEvents cfg sender msg true ++ [.response (c.slots i).pending.call handler
          { code := msg.code, payload := recv.buffer, contentFormat := recv.contentFormat }
          (c.slots i).pending.userContext],
        ({ c.heard nowMs sender msg with
          slots := c.slots.set i (closedSlot
            { c.slots i with upload := uploadDone (c.slots i).upload, recv } true) } :
          Client cfg).settled) := by
  intro recv
  have hslot : (((c.heard nowMs sender msg).setBlocks i (uploadDone (c.slots i).upload) recv).slots
      i) = { c.slots i with upload := uploadDone (c.slots i).upload, recv } := Table.set_self _ _ _
  have hpending : (c.heard nowMs sender msg).dispatchPending i sender msg =
      ((c.heard nowMs sender msg).setBlocks i (uploadDone (c.slots i).upload) recv).fireResponse i
        { code := msg.code, payload := recv.buffer, contentFormat := recv.contentFormat } true := by
    rw [dispatchPending_fragment (c := c.heard nowMs sender msg) hb hcont h2]
    dsimp only
    rw [if_neg (by rw [hm]; exact Bool.false_ne_true)]
    rfl
  have hquiet : ((c.heard nowMs sender msg).setBlocks i (uploadDone (c.slots i).upload) recv).NoneDue
      ((c.heard nowMs sender msg).setBlocks i (uploadDone (c.slots i).upload) recv).lastNowMs :=
    noneDue_heard hdue sender msg
  rw [exec_pending hidle hdec hresp hdisc hfind, hpending, exec_response _ _ _ _ hquiet,
    fireResponse_eq, hslot, close_eq, hslot]
  dsimp only
  rw [hhandler]
  refine Prod.ext rfl ?_
  show settled { (c.heard nowMs sender msg) with slots := (c.slots.set i _).set i _ } = _
  rw [Table.set_set]

/-- **A block with more behind it** is followed by the request for the next one. The application
is not called, and the slot stays taken. -/
theorem turn_more (fit : TimersFit cfg) (hidle : c.control = .idle)
    (hdec : Message.decode cfg data = (.none, msg)) (hresp : IsResponse msg)
    (hdisc : c.findDiscover msg.token = none) (hfind : c.findPendingByToken msg.token = some i)
    (hb : cfg.enableBlockwise = true)
    (hcont : ¬ (msg.code = Code.«continue» ∧ (c.slots i).upload.active = true)) {b : BlockOption}
    (h2 : block2Of msg = some b) (hm : b.m = true) {buf : Bytes}
    (hbuf : transmit cfg (buildBlock2 cfg (recvBlock cfg (c.slots i).recv b sender msg)
      (c.slots i).pending.token c.nextMessageId) true = some buf) (hdue : c.NoneDue nowMs) :
    let recv := recvBlock cfg (c.slots i).recv b sender msg
    (machine cfg).exec [] c (wholePoll cfg nowMs (sender, data)) =
      (ackEvents cfg sender msg true ++ [.sent recv.server buf],
        (((c.heard nowMs sender msg).setBlocks i (uploadDone (c.slots i).upload)
          recv).block2Sent i buf).settled) := by
  intro recv
  have hslot : (((c.heard nowMs sender msg).setBlocks i (uploadDone (c.slots i).upload) recv).slots
      i) = { c.slots i with upload := uploadDone (c.slots i).upload, recv } := Table.set_self _ _ _
  generalize hc' : (c.heard nowMs sender msg).setBlocks i (uploadDone (c.slots i).upload) recv = c'
    at hslot
  have hpending : (c.heard nowMs sender msg).dispatchPending i sender msg =
      (c'.goto (.block2 i), []) := by
    rw [dispatchPending_fragment (c := c.heard nowMs sender msg) hb hcont h2, ← hc']
    dsimp only
    rw [if_pos hm]
    rfl
  have hid : c'.nextMessageId = c.nextMessageId := by rw [← hc']; rfl
  have hdatagram : (c'.goto (.block2 i)).block2Datagram i true = some buf := by
    show transmit cfg (buildBlock2 cfg (c'.slots i).recv (c'.slots i).pending.token
      c'.nextMessageId) true = _
    rw [hslot, hid]
    exact hbuf
  have hstep : (c'.goto (.block2 i)).step (.resume true) =
      (((c'.goto (.block2 i)).block2Sent i buf).at' .expire false, [.sent recv.server buf]) := by
    rw [step_resume (c := c'.goto (.block2 i)) rfl]
    rcases (c'.goto (.block2 i)).resumeBlock2_cases i true with ⟨hnone, -⟩ | ⟨buf', hbuf', heq⟩
    · rw [hdatagram] at hnone
      cases hnone
    · rw [hdatagram] at hbuf'
      cases hbuf'
      rw [heq]
      show (_, [ClientEvent.sent (c'.slots i).recv.server buf]) = _
      rw [hslot]
  have hquiet : (((c'.goto (.block2 i)).block2Sent i buf).at' .expire false).NoneDue
      (((c'.goto (.block2 i)).block2Sent i buf).at' .expire false).lastNowMs := by
    refine TransactionPool.noneDue_start fit ?_ _ _ _ _ _
    rw [← hc']
    exact noneDue_heard hdue sender msg
  rw [exec_pending hidle hdec hresp hdisc hfind, hpending,
    exec_last _ hstep rfl hquiet (Nat.le_refl _), List.append_nil]
  rfl

end Turns

end Client

end PulseCoap
