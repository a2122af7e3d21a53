import PulseCoap.Client.Ending
import PulseCoap.Exchange.Block

/-!
# PulseCoAP — what the client sends

The datagrams of a step of the client are those of a call, a block follow-up, an
ACK, and what the pool sends again. So what holds of the first three holds of all
that is ever sent.

`PoolSatisfies` is the invariant that makes this go through for retransmissions:
what the pool holds was sent before, so it satisfies whatever was asked of it then.
A module that wants to know something of all datagrams of a client proves it of a
request, of a block and of an ACK, and has it of every run.

* `PoolSatisfies` — what holds of all messages that wait for an ACK.
* `sendsStarted_call`, `sendsStarted_start` — what enters the pool was sent.
* `PoolSatisfies.step` — a step keeps what its own datagrams satisfy.
-/

namespace PulseCoap

namespace Client

open TransactionPool (Awaiting)

variable {cfg : Config} {P : Endpoint → Bytes → Prop}

/-- All datagrams among the events satisfy `P`. -/
def Sends (P : Endpoint → Bytes → Prop) (events : List ClientEvent) : Prop :=
  ∀ dest data, .sent dest data ∈ events → P dest data

theorem sends_nil (P : Endpoint → Bytes → Prop) : Sends P [] := fun _ _ h => nomatch h

theorem sends_append {ev ev' : List ClientEvent} :
    Sends P (ev ++ ev') ↔ Sends P ev ∧ Sends P ev' := by
  unfold Sends
  simp only [List.mem_append, or_imp, forall_and]

/-- Callbacks send nothing. -/
theorem sends_silent {events : List ClientEvent}
    (h : ∀ dest data, .sent dest data ∉ events) : Sends P events :=
  fun dest data hmem => absurd hmem (h dest data)

/-- All messages that wait for an ACK satisfy `P`. -/
def PoolSatisfies (P : Endpoint → Bytes → Prop) (c : Client cfg) : Prop :=
  ∀ t, Awaiting (c.transactions t) → P (c.transactions t).remote (c.transactions t).message

/-- What an operation adds to the pool it has sent. -/
def SendsStarted (c c' : Client cfg) (events : List ClientEvent) : Prop :=
  ∀ t, c'.transactions t = c.transactions t ∨
    .sent (c'.transactions t).remote (c'.transactions t).message ∈ events

/-- What starts no transaction has nothing to send for it. -/
theorem sendsStarted_same {c c' : Client cfg} (h : c'.transactions = c.transactions)
    (events : List ClientEvent) : SendsStarted c c' events := fun t => .inl (congrFun h t)

/-- `start` is handed what was just sent. -/
theorem sendsStarted_start {c c' : Client cfg} {remote : Endpoint} {messageId : UInt16}
    {token buf : Bytes} {owner : Call} (h : c'.transactions =
      (c.transactions.start remote messageId token buf c.lastNowMs owner).1)
    {events : List ClientEvent} (hsent : .sent remote buf ∈ events) : SendsStarted c c' events := by
  intro t
  rw [h]
  rcases TransactionPool.start_cases c.transactions remote messageId token buf c.lastNowMs owner
    with heq | ⟨j, -, heq⟩
  · exact .inl (congrFun heq t)
  · rw [heq]
    by_cases htj : t = j
    · subst htj
      rw [Table.set_self]
      exact .inr hsent
    · exact .inl (Table.set_ne _ _ htj)

/-- So what holds of the datagrams holds of the pool. -/
theorem PoolSatisfies.started {c c' : Client cfg} (h : c.PoolSatisfies P)
    {events : List ClientEvent} (hs : SendsStarted c c' events) (hsends : Sends P events) :
    c'.PoolSatisfies P := by
  intro t ha
  rcases hs t with heq | hsent
  · rw [heq] at ha ⊢
    exact h t ha
  · exact hsends _ _ hsent

theorem PoolSatisfies.congr {c c' : Client cfg} (h : c.PoolSatisfies P)
    (heq : c'.transactions = c.transactions) : c'.PoolSatisfies P := by
  unfold PoolSatisfies
  rw [heq]
  exact h

-- ===========================================================================
-- Calls
-- ===========================================================================

/-- A request is sent, and handed to the pool if it is confirmable. -/
theorem sendsStarted_issue (c : Client cfg) {a : RequestArgs} (sendOk : Bool)
    (hk : a.blockwise cfg = true → a.markObserving = false) :
    SendsStarted c (c.issue a sendOk).1 (c.issue a sendOk).2.2 := by
  rcases issue_cases c a sendOk hk with ⟨-, c', hr, heq⟩ | ⟨-, i, s, buf, -, -, -, heq⟩
  · rw [heq]
    exact sendsStarted_same hr.transactions _
  · rw [heq]
    by_cases hrel : a.reliable cfg = true
    · exact sendsStarted_start (if_pos hrel) List.mem_cons_self
    · exact sendsStarted_same (if_neg hrel) _

/-- So it is with every call. -/
theorem sendsStarted_call (c : Client cfg) (sendOk : Bool) (call : ClientCall) :
    SendsStarted c (c.call sendOk call).1 (c.call sendOk call).2.2 := by
  rw [call_eq]
  cases hs : call.shape with
  | issue a => exact c.sendsStarted_issue sendOk (shape_blockwise hs)
  | cancel server path =>
    dsimp only
    cases c.findObserve server path with
    | none => exact sendsStarted_same rfl _
    | some i => exact (c.release i).sendsStarted_issue sendOk (by simp [deregister_blockwise])
  | discover ep onDiscover userContext =>
    dsimp only
    rcases discover_cases c ep onDiscover userContext sendOk with
      ⟨token, id, heq, -⟩ | ⟨i, buf, -, -, heq⟩
    · rw [heq]
      exact sendsStarted_same rfl _
    · rw [heq]
      exact sendsStarted_same rfl _
  | handler onTimeout => exact sendsStarted_same rfl _

-- ===========================================================================
-- `poll`
-- ===========================================================================

/-- An ACK only takes from the pool. -/
theorem PoolSatisfies.completed {c : Client cfg} (h : c.PoolSatisfies P) (remote : Endpoint)
    (messageId : UInt16) : (c.completed remote messageId).PoolSatisfies P := by
  unfold PoolSatisfies Client.completed
  dsimp only
  rcases TransactionPool.complete_cases c.transactions remote messageId with ⟨-, heq⟩ | ⟨j, -, heq⟩
  · rw [heq]
    exact h
  · rw [heq]
    refine Table.forall_set (P := fun t => Awaiting t → P t.remote t.message) h fun hfree => ?_
    cases hfree

/-- A timeout callback sends nothing by itself. -/
theorem silent_fireTimeout (c : Client cfg) (call : Call) (ctx : Option Ref) (k : Cont cfg) :
    Sends P (c.fireTimeout call ctx k).2 := by
  rw [fireTimeout_eq]
  refine sends_silent fun dest data hmem => ?_
  obtain ⟨_, -, heq⟩ := Option.map_eq_some_iff.1 (Option.mem_toList.1 hmem)
  cases heq

/-- It leaves the pool alone, too. -/
theorem fireTimeout_pool (c : Client cfg) (call : Call) (ctx : Option Ref) (k : Cont cfg) :
    (c.fireTimeout call ctx k).1.transactions = c.transactions := by
  rw [fireTimeout_eq]
  rfl

/-- Nor does a response callback send anything. -/
theorem silent_fireResponse (c : Client cfg) (i : Fin cfg.maxTransactions) (res : ClientResponse)
    (fragmented : Bool) : Sends P (c.fireResponse i res fragmented).2 := by
  rw [fireResponse_eq]
  refine sends_silent fun dest data hmem => ?_
  obtain ⟨_, -, heq⟩ := Option.map_eq_some_iff.1 (Option.mem_toList.1 hmem)
  cases heq

/-- A poll up to its first cut sends nothing. -/
theorem PoolSatisfies.poll {c : Client cfg} (h : c.PoolSatisfies P) (nowMs : UInt32)
    (rx : Option (Endpoint × Bytes)) :
    (c.poll nowMs rx).1.PoolSatisfies P ∧ Sends P (c.poll nowMs rx).2 := by
  have hat : (c.atTime nowMs).PoolSatisfies P := h
  rcases c.poll_cases nowMs rx with heq | ⟨sender, data, msg, -, -, heq⟩
  · rw [heq]
    exact ⟨hat, sends_nil P⟩
  · rw [heq]
    rcases (c.atTime nowMs).handleMessage_cases sender msg with ⟨-, heq⟩ | ⟨c', hc', heq⟩
    · rw [heq]
      rcases (c.atTime nowMs).handleReset_cases sender msg.messageId with heq | ⟨t, i, -, -, heq⟩
      · rw [heq]
        exact ⟨hat.completed sender msg.messageId, sends_nil P⟩
      · rw [heq]
        exact ⟨(hat.completed sender msg.messageId).congr (fireTimeout_pool ..),
          silent_fireTimeout _ _ _ _⟩
    · have hpool : c'.PoolSatisfies P := by
        rcases hc' with rfl | rfl
        · exact hat
        · exact hat.completed sender msg.messageId
      rcases heq with heq | heq <;> rw [heq] <;> exact ⟨hpool, sends_nil P⟩

/-- The dispatch itself sends nothing. -/
theorem dispatchResponse_silent (c : Client cfg) (sender : Endpoint) (msg : Message) :
    (c.dispatchResponse sender msg).1.transactions = c.transactions ∧
      Sends P (c.dispatchResponse sender msg).2 := by
  rcases c.dispatchResponse_cases sender msg with ⟨i, -, heq⟩ | ⟨i, -, -, heq⟩ | ⟨-, -, heq⟩
  · rw [heq]
    refine ⟨rfl, sends_silent fun dest data hmem => ?_⟩
    obtain ⟨_, -, heq⟩ := Option.map_eq_some_iff.1 (Option.mem_toList.1 hmem)
    cases heq
  · rw [heq]
    obtain ⟨up, recv, -, -, ⟨-, -, hd⟩ | ⟨-, hd⟩ | ⟨res, fragmented, hd⟩⟩ :=
      c.dispatchPending_cases i sender msg
    · rw [hd]
      exact ⟨rfl, sends_nil P⟩
    · rw [hd]
      exact ⟨rfl, sends_nil P⟩
    · rw [hd]
      refine ⟨?_, silent_fireResponse _ _ _ _⟩
      rw [fireResponse_eq]
      rfl
  · rw [heq]
    exact ⟨rfl, sends_nil P⟩

/-- A pass of the pool scan sends what is in the pool. -/
theorem PoolSatisfies.tickAt {c : Client cfg} (h : c.PoolSatisfies P)
    (i : Fin cfg.maxTransactions) (sendOk : Bool) :
    (c.tickAt i sendOk).1.PoolSatisfies P ∧ Sends P (c.tickAt i sendOk).2 := by
  have hset : ∀ {t : Transaction}, (Awaiting t → P t.remote t.message) →
      ∀ j, Awaiting ((c.transactions.set i t) j) →
        P ((c.transactions.set i t) j).remote ((c.transactions.set i t) j).message :=
    Table.forall_set (P := fun t => Awaiting t → P t.remote t.message) h
  rcases c.tickAt_cases i sendOk with ⟨-, heq⟩ | ⟨ha, -, -, heq⟩ | ⟨ha, -, -, heq⟩
  · rw [heq]
    exact ⟨h, sends_nil P⟩
  · rw [heq]
    refine ⟨hset fun _ => h i ha, fun dest data hmem => ?_⟩
    dsimp only at hmem
    split at hmem
    · cases List.mem_singleton.1 hmem
      exact h i ha
    · cases hmem
  · have hfreed : (c.freed i).PoolSatisfies P := hset fun hfree => nomatch hfree
    rw [heq]
    rcases (c.freed i).timeoutTrampoline_cases (c.transactions i).token (c.transactions i).owner
      (.tick (i + 1)) with ⟨j, -, heq⟩ | ⟨-, heq⟩
    · rw [heq]
      exact ⟨hfreed.congr (fireTimeout_pool ..), silent_fireTimeout _ _ _ _⟩
    · rw [heq]
      exact ⟨hfreed.congr (fireTimeout_pool ..), silent_fireTimeout _ _ _ _⟩

/-- A block that follows, an ACK, or what the pool sends again. -/
theorem PoolSatisfies.resume {c : Client cfg} (h : c.PoolSatisfies P) (k : Cont cfg)
    (sendOk : Bool) (hblock : ∀ d ∈ c.followUpOut sendOk k, P d.1 d.2)
    (hack : ∀ sender msg, k = .dispatch sender msg → Sends P (ackEvents cfg sender msg sendOk)) :
    (c.resume k sendOk).1.PoolSatisfies P ∧ Sends P (c.resume k sendOk).2 := by
  -- two cuts send a follow-up and start a transaction with it; the scan sends what it holds
  cases k with
  | dispatch sender msg =>
    obtain ⟨hpool, hsends⟩ := c.dispatchResponse_silent (P := P) sender msg
    exact ⟨h.congr hpool, sends_append.2 ⟨hack sender msg rfl, hsends⟩⟩
  | block1 i =>
    show (c.continueUpload i sendOk).1.PoolSatisfies P ∧ Sends P (c.continueUpload i sendOk).2
    rcases c.continueUpload_cases i sendOk with ⟨-, id, heq⟩ | ⟨buf, hbuf, heq⟩
    · rw [heq]
      exact ⟨h.congr (fireTimeout_pool ..), silent_fireTimeout _ _ _ _⟩
    · rw [heq]
      have hsends : Sends P [.sent (c.slots i).upload.server buf] := by
        intro dest data hmem
        cases List.mem_singleton.1 hmem
        exact hblock ((c.slots i).upload.server, buf) (by simp [followUpOut, hbuf])
      exact ⟨h.started (sendsStarted_start rfl (List.mem_singleton.2 rfl)) hsends, hsends⟩
  | block2 i =>
    rcases c.resumeBlock2_cases i sendOk with ⟨-, heq⟩ | ⟨buf, hbuf, heq⟩
    · rw [heq]
      exact ⟨h, sends_nil P⟩
    · rw [heq]
      have hsends : Sends P [.sent (c.slots i).recv.server buf] := by
        intro dest data hmem
        cases List.mem_singleton.1 hmem
        exact hblock ((c.slots i).recv.server, buf) (by simp [followUpOut, hbuf])
      exact ⟨h.started (sendsStarted_start rfl (List.mem_singleton.2 rfl)) hsends, hsends⟩
  | close i fragmented call =>
    refine ⟨h.congr ?_, sends_nil P⟩
    show (c.close i fragmented).transactions = c.transactions
    rw [close_eq]
  | expire => exact ⟨h, sends_nil P⟩
  | tick index =>
    rw [resume_tick]
    split
    · exact h.tickAt _ sendOk
    · exact ⟨h, sends_nil P⟩
  | ret => exact ⟨h, sends_nil P⟩

/-- **A step** sends only what its own datagrams and the pool satisfy. What the pool has came
from such datagrams, so the property goes on to what is sent again. -/
theorem PoolSatisfies.step {c : Client cfg} (h : c.PoolSatisfies P) (a : Action)
    (hcall : ∀ call sendOk, a = .call call sendOk → c.appHasControl = true →
      Sends P (c.call sendOk call).2.2)
    (hblock : ∀ sendOk k b, a = .resume sendOk → c.control = .polling k b →
      ∀ d ∈ c.followUpOut sendOk k, P d.1 d.2)
    (hack : ∀ sender msg sendOk, Sends P (ackEvents cfg sender msg sendOk)) :
    (c.step a).1.PoolSatisfies P ∧ Sends P (c.step a).2 := by
  rcases c.step_cases a with heq | ⟨call, sendOk, ha, happ, heq⟩ | ⟨nowMs, rx, -, -, heq⟩ |
    ⟨sendOk, k, b, ha, hctl, heq⟩
  · rw [heq]
    exact ⟨h, sends_nil P⟩
  · rw [heq]
    exact ⟨h.started (c.sendsStarted_call sendOk call) (hcall call sendOk ha happ),
      hcall call sendOk ha happ⟩
  · rw [heq]
    exact h.poll nowMs rx
  · rw [heq]
    exact h.resume k sendOk (hblock sendOk k b ha hctl) fun sender msg _ => hack sender msg sendOk

end Client

end PulseCoap
