import PulseCoap.System.Cancelled
import PulseCoap.Server.Deferral
import PulseCoap.Server.Sends

/-!
# PulseCoAP — whom the server sends to

Nothing in the server picks a destination: every datagram goes to the sender of the
request at hand or to an address that an entry of a table has kept. So a server can
be confined to a set of addresses, by looking at the tables once and at the requests
that come in.

There are three places in which an address is kept and later used as a destination:
an observer, a deferred request and a transaction. An observer and a deferred
request come from a request, and a transaction from one of the two. So the set of
senders whose request was read is closed under all that the server does; `Confined`
says this for any set `P` that the senders of new requests belong to.

* `Confined` — the addresses the tables hold.
* `Confined.call`, `Confined.poll`, `Confined.returns` — the three steps.
* `Soliciting` — a server with the senders of the requests it has read.
* `never_unsolicited` — it sends to no one else, whatever happens; what the scan of
  the pool sends again goes to peers whose request was read before.
* `solicitor` — the peer whose request a step reads.
-/

namespace PulseCoap

namespace Server

open TransactionPool (Awaiting)

variable {cfg : Config} {P : Endpoint → Prop} {s : Server cfg}

-- ===========================================================================
-- The addresses in the tables
-- ===========================================================================

/-- All addresses the server has kept satisfy `P`. The slot of the request at
hand is apart: it has the address of its sender. -/
structure Confined (P : Endpoint → Prop) (s : Server cfg) : Prop where
  tokens    : s.TokensFit
  observers : ∀ remote token, s.HasEntry remote token → P remote
  pool      : s.PoolSatisfies fun remote _ => P remote
  deferred  : ∀ i, (s.deferred i).active = true → P (s.deferred i).remote ∨
    ∃ h, s.control = .handling h ∧ h.deferIdx = some i
  running   : ∀ h, s.control = .handling h → Owned h.sender s h

/-- A server just built has kept nothing. -/
theorem confined_init (cfg : Config) (P : Endpoint → Prop) : Confined P ({} : Server cfg) where
  tokens := ⟨fun _ => Nat.zero_le _, fun _ => Nat.zero_le _⟩
  observers := by
    rintro remote token ⟨i, hi⟩
    cases hi
  pool i ha := nomatch ha
  deferred i hi := nomatch hi
  running h hh := nomatch hh

theorem Confined.mono {Q : Endpoint → Prop} (c : Confined P s) (hpq : ∀ a, P a → Q a) :
    Confined Q s where
  tokens := c.tokens
  observers remote token h := hpq _ (c.observers remote token h)
  pool i ha := hpq _ (c.pool i ha)
  deferred i hi := (c.deferred i hi).imp_left (hpq _)
  running := c.running

/-- Datagrams to `P` only. -/
abbrev To (P : Endpoint → Prop) : Endpoint → Bytes → Prop := fun dest _ => P dest

-- ===========================================================================
-- Calls of the API
-- ===========================================================================

/-- A call sends to the observers of a resource, or to the peer of the request it answers. -/
theorem Confined.call_sends (c : Confined P s) {call : ServerCall}
    (hrespond : ∀ handle code payload contentFormat,
      call = .respond handle code payload contentFormat →
        ∀ i : Fin cfg.maxDeferred, handle.toNat = i.val → (s.deferred i).active = true →
          P (s.deferred i).remote) : Sends (To P) (s.call call).2.2 := by
  rcases s.call_cases call with ⟨rs, -, hnone⟩ | ⟨path, payload, contentFormat, confirmable, rfl⟩ |
    ⟨handle, code, payload, contentFormat, rfl⟩
  · rw [hnone]
    exact sends_nil _
  · intro dest data hmem
    obtain ⟨msg, -, hentry⟩ := Cancelling.notify_entry c.tokens hmem
    exact c.observers dest msg.token hentry
  · rcases s.respond_cases handle ⟨code, payload, contentFormat⟩ with ⟨heq, -⟩ |
      ⟨i, hi, hact, -, hnone | ⟨messageId, buf, -, hsent⟩⟩
    · show Sends (To P) (s.respond handle code payload contentFormat).2.2
      rw [heq]
      exact sends_nil _
    · show Sends (To P) (s.respond handle code payload contentFormat).2.2
      rw [hnone]
      exact sends_nil _
    · show Sends (To P) (s.respond handle code payload contentFormat).2.2
      rw [hsent]
      intro dest data hmem
      cases List.mem_singleton.1 hmem
      exact hrespond handle code payload contentFormat rfl i hi hact

/-- A call fills no slot. -/
theorem call_slots (s : Server cfg) (call : ServerCall) (i : Fin cfg.maxDeferred) :
    ((s.call call).1.deferred i).remote = (s.deferred i).remote ∧
      (((s.call call).1.deferred i).active = true → (s.deferred i).active = true) := by
  by_cases hcall : ∃ handle code payload contentFormat,
      call = .respond handle code payload contentFormat
  · obtain ⟨handle, code, payload, contentFormat, rfl⟩ := hcall
    show ((s.respond handle code payload contentFormat).1.deferred i).remote = _ ∧
      (((s.respond handle code payload contentFormat).1.deferred i).active = true → _)
    rcases s.respond_cases handle ⟨code, payload, contentFormat⟩ with ⟨heq, -⟩ | ⟨j, -, -, hdef, -⟩
    · rw [heq]
      exact ⟨rfl, id⟩
    · rw [hdef]
      by_cases hij : i = j
      · subst hij
        rw [Table.set_self]
        exact ⟨rfl, nofun⟩
      · rw [Table.set_ne _ _ hij]
        exact ⟨rfl, id⟩
  · rw [s.call_deferred fun handle code payload contentFormat heq =>
      hcall ⟨handle, code, payload, contentFormat, heq⟩]
    exact ⟨rfl, id⟩

/-- **A call of the API** in a confined server: `notify` sends to observers, and `respond` to
the remote of its slot. -/
theorem Confined.call (c : Confined P s) (call : ServerCall)
    (hrespond : ∀ handle code payload contentFormat,
      call = .respond handle code payload contentFormat →
        ∀ i : Fin cfg.maxDeferred, handle.toNat = i.val → (s.deferred i).active = true →
          P (s.deferred i).remote) :
    Confined P (s.step (.call call)).1 ∧ Sends (To P) (s.step (.call call)).2 := by
  have hsends := c.call_sends hrespond
  have hkeeps := s.call_keeps call
  refine ⟨⟨c.tokens.step (.call call), fun remote token h => ?_, c.pool.call hsends, fun i hi => ?_,
    fun h hh => ?_⟩, sends_append.2 ⟨hsends, sends_cons nofun (sends_nil _)⟩⟩
  · exact c.observers remote token (HasEntry.moved (s.call_observers call) h)
  · obtain ⟨hrem, hact⟩ := s.call_slots call i
    show P ((s.call call).1.deferred i).remote ∨ ∃ h, (s.call call).1.control = _ ∧ _
    rw [hrem, hkeeps.control]
    exact c.deferred i (hact hi)
  · obtain ⟨-, hdeferred, hsession⟩ := c.running h (hkeeps.control.symm.trans hh)
    refine ⟨rfl, fun i hi => (s.call_slots call i).1.trans (hdeferred i hi), fun i hi => ?_⟩
    exact (congrArg Block1Session.remote (congrFun hkeeps.sessions i)).trans (hsession i hi)

-- ===========================================================================
-- The return of the handler
-- ===========================================================================

/-- **The handler returns.** Its slot stays only where the request is deferred, so the remote it
has is one that asked. -/
theorem Confined.returns (c : Confined P s) {hd : Handling cfg} (hctl : s.control = .handling hd)
    (res : Response) (hkept : res.deferred = true → P hd.sender) :
    Confined P (s.step (.handlerReturns res)).1 ∧
      Sends (To fun dest => dest = hd.sender) (s.step (.handlerReturns res)).2 := by
  let r := ({ s with control := .idle } : Server cfg).finish hd res
  have hstep : s.step (.handlerReturns res) = r := step_returns hctl res
  have hidle : r.1.control = .idle := finish_control { s with control := .idle } hd res
  have htables := keepsTables_finish { s with control := .idle } hd res
  have hpool : r.1.PoolSatisfies fun remote _ => P remote :=
    PoolSatisfies.finish (s := { s with control := .idle }) c.pool hd res
  have htokens : (s.step (.handlerReturns res)).1.TokensFit := c.tokens.step (.handlerReturns res)
  obtain ⟨⟨id, hstate⟩, -⟩ := finish_spec { s with control := .idle } hd res
  have hdeferred : r.1.deferred = if res.deferred = true ∧ hd.deferIdx.isSome = true then s.deferred
      else (Server.freeDeferred? { s with control := .idle } hd.deferIdx).deferred :=
    congrArg Server.deferred hstate
  rw [hstep] at htokens ⊢
  refine ⟨⟨htokens, fun remote token h => ?_, hpool, fun i hi => .inl ?_, fun h hh => ?_⟩,
    fun dest data hmem => ?_⟩
  · -- the observers are left alone, and the deferred slot is filled or given back
    refine c.observers remote token ?_
    obtain ⟨i, hi⟩ := h
    rw [htables.observers] at hi
    exact ⟨i, hi⟩
  · -- a slot that is active now was so before, unless it is the one of this request
    rw [hdeferred] at hi ⊢
    by_cases hdef : res.deferred = true ∧ hd.deferIdx.isSome = true
    · rw [if_pos hdef] at hi ⊢
      rcases c.deferred i hi with hp | ⟨h, hh, hidx⟩
      · exact hp
      · -- the deferred request itself
        cases hctl.symm.trans hh
        rw [(c.running hd hctl).deferred i hidx]
        exact hkept hdef.1
    · rw [if_neg hdef] at hi ⊢
      by_cases hslot : hd.deferIdx = some i
      · rw [hslot] at hi
        simp [freeDeferred?, freeDeferred] at hi
      · rw [freeDeferred?_ne _ hslot] at hi ⊢
        rcases c.deferred i hi with hp | ⟨h, hh, hidx⟩
        · exact hp
        · cases hctl.symm.trans hh
          exact absurd hidx hslot
  · rw [hidle] at hh
    cases hh
  · have howned : Owned hd.sender ({ s with control := .idle } : Server cfg) hd :=
      ⟨rfl, (c.running hd hctl).deferred, (c.running hd hctl).session⟩
    exact (howned.finish res).2 dest data hmem

-- ===========================================================================
-- A poll
-- ===========================================================================

/-- The slot of a request is taken while an application's handler runs. -/
theorem runHandler_slots (s : Server cfg) (t : Target) (msg : Message) (sender : Endpoint)
    (ov : Option UInt32) (session : Option (Fin cfg.maxBlock1Sessions)) {i : Fin cfg.maxDeferred}
    (hi : ((s.runHandler t msg sender ov session).1.deferred i).active = true) :
    (s.runHandler t msg sender ov session).1.deferred i = s.deferred i ∨
      ∃ h, (s.runHandler t msg sender ov session).1.control = .handling h ∧ h.deferIdx = some i := by
  have hfill : s.allocateDeferred ≠ some i →
      (s.fillDeferred s.allocateDeferred msg sender).deferred i = s.deferred i :=
    s.fillDeferred_ne msg sender
  rcases s.runHandler_cases t msg sender ov session with ⟨f, -, heq⟩ | ⟨-, heq⟩
  · rw [heq]
    by_cases hslot : s.allocateDeferred = some i
    · exact .inr ⟨_, rfl, hslot⟩
    · exact .inl (hfill hslot)
  · -- the server's own handler gives its slot back
    obtain ⟨⟨id, hstate⟩, -⟩ := finish_spec (s.fillDeferred s.allocateDeferred msg sender)
      (s.handlingFor msg sender ov session)
      (s.fillDeferred s.allocateDeferred msg sender).wellKnownCoreHandler
    have hdeferred : (s.runHandler t msg sender ov session).1.deferred =
        ((s.fillDeferred s.allocateDeferred msg sender).freeDeferred?
          s.allocateDeferred).deferred := by
      rw [heq]
      dsimp only
      rw [hstate]
      rfl
    rw [hdeferred] at hi ⊢
    by_cases hslot : s.allocateDeferred = some i
    · simp [hslot, freeDeferred?, freeDeferred] at hi
    · exact .inl ((freeDeferred?_ne _ hslot).trans (hfill hslot))

/-- A datagram fills the slot of the request it brings, and no other. -/
theorem receive_slots (s : Server cfg) (rx : Option (Endpoint × Bytes)) {i : Fin cfg.maxDeferred}
    (hi : ((s.receive rx).1.deferred i).active = true) :
    (s.receive rx).1.deferred i = s.deferred i ∨
      ∃ h, (s.receive rx).1.control = .handling h ∧ h.deferIdx = some i := by
  obtain ⟨obs, pool, sess, ⟨⟨id, hid⟩, -⟩ | ⟨t, msg, sender, ov, session, heq⟩⟩ := s.comes_receive rx
  · rw [hid]
    exact .inl rfl
  · rw [heq] at hi ⊢
    exact (s.withTables obs pool sess).runHandler_slots t msg sender ov session hi

/-- The peer whose request a step reads. -/
def solicitor (s : Server cfg) : Action → Option Endpoint
  | .poll _ (some (sender, data)) =>
    match s.control, Message.decode cfg data with
    | .idle, (.none, msg) => if IsRequest msg then some sender else none
    | _, _ => none
  | _ => none

/-- The sender of a request that an idle server polls has solicited. -/
theorem solicitor_request {s : Server cfg} (hidle : s.control = .idle) {data : Bytes} {msg : Message}
    (hdec : Message.decode cfg data = (.none, msg)) (hreq : IsRequest msg) (nowMs : UInt32)
    (sender : Endpoint) : solicitor s (.poll nowMs (some (sender, data))) = some sender := by
  simp only [solicitor, hidle, hdec]
  exact if_pos hreq

theorem solicitor_sender {s : Server cfg} {nowMs : UInt32} {dest sender : Endpoint} {data : Bytes}
    (h : solicitor s (.poll nowMs (some (sender, data))) = some dest) : sender = dest := by
  simp only [solicitor] at h
  split at h
  · split at h
    · exact Option.some.inj h
    · cases h
  · cases h

/-- What is no request is not answered, and no handler is called with it. -/
theorem receive_silent (s : Server cfg) (sender : Endpoint) {data : Bytes}
    (h : ∀ msg, Message.decode cfg data = (.none, msg) → ¬ IsRequest msg) :
    (s.receive (some (sender, data))).2 = [] ∧
      (s.receive (some (sender, data))).1.control = s.control := by
  rcases s.receive_cases (some (sender, data)) with heq | ⟨_, _, msg, hrx, -, -, heq⟩ |
    ⟨_, _, msg, hrx, -, -, heq⟩ | ⟨_, _, msg, hrx, hdec, hreq, heq⟩
  · rw [heq]
    exact ⟨rfl, rfl⟩
  · obtain ⟨obs, hobs⟩ := s.handleReset_spec sender msg.messageId
    cases hrx
    rw [heq, hobs]
    exact ⟨rfl, rfl⟩
  · rw [heq]
    exact ⟨rfl, rfl⟩
  · cases hrx
    exact absurd hreq (h msg hdec)

/-- The request at hand after a poll is the one that was read. -/
theorem poll_handles (hidle : s.control = .idle) {nowMs : UInt32} {rx : Option (Endpoint × Bytes)}
    {h : Handling cfg} (hh : (s.step (.poll nowMs rx)).1.control = .handling h) :
    solicitor s (.poll nowMs rx) = some h.sender ∧ Owned h.sender (s.step (.poll nowMs rx)).1 h := by
  have hscan : (s.scanned nowMs).control = .idle := (s.scanned_control nowMs).trans hidle
  rw [step_poll_state hidle] at hh ⊢
  cases rx with
  | none =>
    rw [show ((s.scanned nowMs).receive none).1 = s.scanned nowMs from rfl, hscan] at hh
    cases hh
  | some datagram =>
    obtain ⟨sender, data⟩ := datagram
    have howned := (turned_receive hscan sender data).owned h hh
    obtain rfl := howned.sender
    by_cases hreq : ∃ msg, Message.decode cfg data = (.none, msg) ∧ IsRequest msg
    · obtain ⟨msg, hdec, hreq⟩ := hreq
      exact ⟨solicitor_request hidle hdec hreq nowMs h.sender, howned⟩
    · have hsilent := ((s.scanned nowMs).receive_silent h.sender fun msg hdec hmsg =>
        hreq ⟨msg, hdec, hmsg⟩).2
      cases (hsilent.trans hscan).symm.trans hh

/-- **A poll.** It sends to the sender of a request and to who waits in the pool, and only a
registration puts a new address among the observers. Who waits in the pool was there before the
poll. -/
theorem Confined.poll (c : Confined P s) (hidle : s.control = .idle) (nowMs : UInt32)
    (rx : Option (Endpoint × Bytes))
    (hregisters : ∀ sender msg, Naming.registration s (.poll nowMs rx) = some (sender, msg) →
      P sender) :
    Confined P (s.step (.poll nowMs rx)).1 ∧
      Sends (To fun dest => P dest ∨ solicitor s (.poll nowMs rx) = some dest)
        (s.step (.poll nowMs rx)).2 := by
  have hscan : (s.scanned nowMs).control = .idle := (s.scanned_control nowMs).trans hidle
  obtain ⟨hpool, hticks⟩ := c.pool.scanned nowMs
  obtain ⟨pool, obs, hscanned⟩ := s.scanned_spec nowMs
  have hslots : (s.scanned nowMs).deferred = s.deferred := by rw [hscanned]
  have hstate := step_poll_state hidle nowMs rx
  refine ⟨⟨c.tokens.step (.poll nowMs rx), fun remote token h => ?_, ?_, fun i hi => ?_,
    fun h hh => ?_⟩, ?_⟩
  · -- a new entry is that of a registration, and its sender may be sent to
    rcases entry_step h with hold | ⟨msg, hreg, -⟩
    · exact c.observers remote token hold
    · exact hregisters remote msg hreg
  · rw [hstate]
    exact hpool.receive rx
  · rw [hstate] at hi ⊢
    rcases (s.scanned nowMs).receive_slots rx hi with heq | hrunning
    · -- a deferred slot from before, or the one that the handler has been given
      rw [heq, hslots] at hi ⊢
      rcases c.deferred i hi with hp | ⟨h, hh, -⟩
      · exact .inl hp
      · cases hidle.symm.trans hh
    · exact .inr hrunning
  · exact (poll_handles hidle hh).2
  · rw [step_poll hidle]
    refine sends_append.2 ⟨hticks.mono fun dest data hp => .inl hp, ?_⟩
    show Sends _ ((s.scanned nowMs).receive rx).2
    -- what `poll` sends behind the scan goes to the sender of the datagram
    cases rx with
    | none => exact sends_nil _
    | some datagram =>
      intro dest data hmem
      obtain rfl := (turned_receive hscan datagram.1 datagram.2).keeps.2 dest data hmem
      by_cases hreq : ∃ msg, Message.decode cfg datagram.2 = (.none, msg) ∧ IsRequest msg
      · obtain ⟨msg, hdec, hreq⟩ := hreq
        exact .inr (solicitor_request hidle hdec hreq nowMs datagram.1)
      · rw [((s.scanned nowMs).receive_silent _ fun msg hdec h => hreq ⟨msg, hdec, h⟩).1] at hmem
        cases hmem

end Server

-- ===========================================================================
-- Never unsolicited
-- ===========================================================================

/-- A server with the senders of the requests it has read. -/
structure Soliciting (cfg : Config) where
  server : Server cfg := {}
  asked  : List Endpoint := []

namespace Soliciting

variable {cfg : Config}

def next (w : Soliciting cfg) (a : Server.Action) : Soliciting cfg × List ServerEvent :=
  ({ server := (w.server.step a).1, asked := w.asked ++ (w.server.solicitor a).toList },
    (w.server.step a).2)

def machine (cfg : Config) : Machine (Soliciting cfg) Server.Action ServerEvent where
  init := {}
  next := next

/-- The tables and the request at hand have addresses of requests only. -/
structure Inv (w : Soliciting cfg) : Prop where
  confined : w.server.Confined fun a => a ∈ w.asked
  running  : ∀ h, w.server.control = .handling h → h.sender ∈ w.asked

/-- **One step** sends to who has asked, by the end of the step. -/
theorem Inv.step {w : Soliciting cfg} (inv : Inv w) (a : Server.Action) :
    Inv (w.next a).1 ∧ ∀ dest data, .sent dest data ∈ (w.next a).2 → dest ∈ (w.next a).1.asked := by
  have hgrow : ∀ x ∈ w.asked, x ∈ (w.next a).1.asked := fun x hx => List.mem_append_left _ hx
  have hnew : ∀ x, w.server.solicitor a = some x → x ∈ (w.next a).1.asked := fun x hx =>
    List.mem_append_right _ (by rw [hx]; exact List.mem_singleton_self x)
  cases a with
  -- a call sends to observers, or to the peer of a deferred request
  | call call =>
    obtain ⟨hconfined, hsends⟩ := inv.confined.call call
      fun handle code payload contentFormat _ i _ hact => by
        rcases inv.confined.deferred i hact with hp | ⟨h, hh, hidx⟩
        · exact hp
        · rw [(inv.confined.running h hh).deferred i hidx]
          exact inv.running h hh
    refine ⟨⟨hconfined.mono hgrow, fun h hh => ?_⟩, fun dest data hmem => ?_⟩
    · exact hgrow _ (inv.running h ((w.server.call_keeps call).control.symm.trans hh))
    · exact hgrow _ (hsends dest data hmem)
  | poll nowMs rx =>
    cases hctl : w.server.control with
    | handling hd =>
      have hstay := Server.step_poll_busy hctl nowMs rx
      refine ⟨⟨?_, fun h hh => ?_⟩, fun dest data hmem => ?_⟩
      · show (w.server.step (.poll nowMs rx)).1.Confined _
        rw [hstay]
        exact inv.confined.mono hgrow
      · refine hgrow _ (inv.running h ?_)
        rwa [← congrArg (fun r => r.1.control) hstay]
      · rw [show (w.next (.poll nowMs rx)).2 = [] from congrArg Prod.snd hstay] at hmem
        cases hmem
    -- the sender of the request that is read now is one of the new state
    | idle =>
      obtain ⟨hconfined, hsends⟩ := (inv.confined.mono hgrow).poll hctl nowMs rx
        fun sender msg hreg => by
          obtain ⟨_, data, _, heq, -, hdec, hreq, -⟩ := Server.Naming.registration_some hreg
          cases heq
          exact hnew sender (Server.solicitor_request hctl hdec hreq nowMs sender)
      refine ⟨⟨hconfined, fun h hh => ?_⟩, fun dest data hmem => (hsends dest data hmem).elim id (hnew _)⟩
      exact hnew _ (Server.poll_handles hctl hh).1
  | handlerReturns res =>
    cases hctl : w.server.control with
    | idle =>
      have hstay := Server.step_returns_idle hctl res
      refine ⟨⟨?_, fun h hh => ?_⟩, fun dest data hmem => ?_⟩
      · show (w.server.step (.handlerReturns res)).1.Confined _
        rw [hstay]
        exact inv.confined.mono hgrow
      · cases hctl.symm.trans ((congrArg (fun r => r.1.control) hstay).symm.trans hh)
      · rw [show (w.next (.handlerReturns res)).2 = [] from congrArg Prod.snd hstay] at hmem
        cases hmem
    -- the reply goes to the sender whose request the handler was given
    | handling hd =>
      obtain ⟨hconfined, hsends⟩ := inv.confined.returns hctl res
        fun _ => inv.running hd hctl
      refine ⟨⟨hconfined.mono hgrow, fun h hh => ?_⟩, fun dest data hmem => ?_⟩
      · have hidle := Server.finish_control { w.server with control := .idle } hd res
        rw [← Server.step_returns hctl res] at hidle
        cases hidle.symm.trans hh
      · rw [hsends dest data hmem]
        exact hgrow _ (inv.running hd hctl)

/-- **Never unsolicited**: whatever the application and the network do, every datagram of the
server goes to a peer that has sent it a request; what the pool scan of a poll sends again, to one
whose request was read in a step before. -/
theorem never_unsolicited {hist : List ServerEvent} {w : Soliciting cfg}
    (r : (machine cfg).Run (fun _ _ => True) hist w) (a : Server.Action) :
    (∀ dest data, .sent dest data ∈ (w.next a).2 → dest ∈ (w.next a).1.asked) ∧
      ∀ nowMs dest data, .sent dest data ∈ ({ w.server with lastNowMs := nowMs } : Server cfg).tick.2 →
        dest ∈ w.asked := by
  have hstart : Inv (machine cfg).init := ⟨Server.confined_init cfg _, nofun⟩
  have inv : Inv w := r.invariant (I := fun _ w => Inv w) hstart fun _ inv _ => (inv.step _).1
  exact ⟨(inv.step a).2, fun nowMs => (inv.confined.pool.scanned nowMs).2⟩

/-- A subscription, and a notification of it that waits for its ACK. -/
def notified : Soliciting .default :=
  ((machine .default).exec [] {}
    [.call (.addResource (some [Uri.slash]) methodGet (some 0) none true),
      .poll 0 (some ({ port := 1 }, [0x41, 0x01, 0x00, 0x07, 0xA0, 0x60])), .handlerReturns {},
      .call (.notify [Uri.slash] [0x31] .textPlain true)]).2

/-- It is sent again, and a GET for `/a` of another peer is answered with 4.04. -/
def askedByAnother : Server.Action :=
  .poll 4000 (some ({ port := 2 }, [0x41, 0x01, 0x00, 0x08, 0xA1, 0xB1, 0x61]))

theorem never_unsolicited_observed :
    (notified.next askedByAnother).2.length = 2 ∧
      ({ notified.server with lastNowMs := 4000 } : Server .default).tick.2.length = 1 ∧
      (∀ dest data, .sent dest data ∈ (notified.next askedByAnother).2 →
        dest ∈ (notified.next askedByAnother).1.asked) ∧
      ∀ nowMs dest data,
        .sent dest data ∈ ({ notified.server with lastNowMs := nowMs } : Server .default).tick.2 →
          dest ∈ notified.asked :=
  ⟨by decide +kernel, by decide +kernel,
    never_unsolicited (Machine.Run.start.exec (Machine.meets_of_forall (fun _ _ => trivial) _ _))
      askedByAnother⟩

end Soliciting

end PulseCoap
