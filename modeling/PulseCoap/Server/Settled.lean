import PulseCoap.Server.Frame

/-!
# PulseCoAP — what an ACK or an RST settles

`TransactionPool::complete` is to be called "when an ACK or RST arrives". The
server calls it for an ACK, which frees the first transaction with the sender
and the message ID; an RST removes an observer and leaves the pool alone, so the
notification it rejects is sent again and in the end times out.

A run is watched: each transaction has a name that no other one ever has, and
the scan of a poll says which of them it resends and which it gives up.

The names make "the transaction that this ACK settles" a thing that can be
followed: a slot of the pool is used again, and a message ID too. The scan of
the pool is compared with its report, so that a resend is known by its name and
not only by its bytes. What is settled stays settled because nothing gives a
name a second time.

* `scan_sends`, `scan_removes` — the scan sends what it says it resends, and
  removes the observers of what it says it gives up.
* `settled_iff` — after an ACK or an RST no CON message it names is resent or
  given up, ever, exactly when there was one at most and it was an ACK, or none.
* `not_settled` — a rejected notification is sent again.
-/

namespace PulseCoap

namespace Server

open TransactionPool

variable {cfg : Config}

/-- A CON message that is tracked, by a number no other one has. -/
structure ConMessage where
  number    : Nat := 0
  remote    : Endpoint := default
  messageId : UInt16 := 0
deriving DecidableEq, Repr

/-- A server, the messages it has tracked so far, and the one each slot was last
given to. -/
structure Watched (cfg : Config) where
  server  : Server cfg := {}
  tracked : Nat := 0
  names   : Table cfg.maxTransactions ConMessage := fun _ => {}

namespace Watched

/-- What is seen of a watched run. -/
inductive Event where
  /-- A CON message was sent and is tracked from now on. -/
  | sent (c : ConMessage)
  | resent (c : ConMessage)
  | timedOut (c : ConMessage)
deriving DecidableEq, Repr

/-- A slot that a step has started. -/
def Started (t t' : Transaction) : Prop := ¬ Awaiting t ∧ Awaiting t'

instance (t t' : Transaction) : Decidable (Started t t') := inferInstanceAs (Decidable (_ ∧ _))

/-- The names of the slots after a step: those it has started are new. -/
def rename (w : Watched cfg) (pool : TransactionPool cfg) (i : Fin cfg.maxTransactions) :
    ConMessage :=
  if Started (w.server.txPool i) (pool i) then
    { number := w.tracked + i.val, remote := (pool i).remote, messageId := (pool i).messageId }
  else w.names i

/-- What the scan of a poll does with a slot. -/
def scanEvent (w : Watched cfg) (nowMs : UInt32) (i : Fin cfg.maxTransactions) : Option Event :=
  match (tickSlot cfg nowMs (w.server.txPool i)).2 with
  | none => none
  | some (.resend _ _) => some (.resent (w.names i))
  | some (.timeout _ _) => some (.timedOut (w.names i))

/-- What a step does: a poll scans, and a call may start transactions. -/
def eventsOf (w : Watched cfg) (pool : TransactionPool cfg) : Action → List Event
  | .poll nowMs _ =>
    match w.server.control with
    | .idle => (List.finRange _).filterMap (w.scanEvent nowMs)
    | .handling _ => []
  | _ => ((List.finRange _).filter fun i => Started (w.server.txPool i) (pool i)).map fun i =>
      .sent (w.rename pool i)

/-- One step. -/
def next (w : Watched cfg) (a : Action) : Watched cfg × List Event :=
  let s := (w.server.step a).1
  ({ server := s, tracked := w.tracked + cfg.maxTransactions, names := w.rename s.txPool },
    w.eventsOf s.txPool a)

def machine (cfg : Config) : Machine (Watched cfg) Action Event where
  init := {}
  next := next

/-! ## The scan -/

/-- What the scan sends for a slot. -/
def resentDatagram (cfg : Config) (nowMs : UInt32) (t : Transaction) : Option ServerEvent :=
  match (tickSlot cfg nowMs t).2 with
  | some (.resend remote message) => some (.sent remote message)
  | _ => none

/-- The scan sends again what is due, each transaction once. -/
theorem tickFrom_sent {is : List (Fin cfg.maxTransactions)} (hnodup : is.Nodup) :
    ∀ s : Server cfg, (s.tickFrom is).2 =
      is.filterMap fun i => resentDatagram cfg s.lastNowMs (s.txPool i) := by
  induction is with
  | nil => exact fun _ => rfl
  | cons i is ih =>
    intro s
    obtain ⟨hi, hnodup⟩ := List.nodup_cons.1 hnodup
    obtain ⟨hclock, hpool⟩ := s.tickAt_pool i
    have hat : (s.tickAt i).2 = (resentDatagram cfg s.lastNowMs (s.txPool i)).toList := by
      unfold tickAt resentDatagram
      dsimp only
      split <;> rename_i heq <;> rw [heq] <;> rfl
    -- the slots that are left are as before
    have hrest : ∀ j ∈ is, resentDatagram cfg (s.tickAt i).1.lastNowMs ((s.tickAt i).1.txPool j) =
        resentDatagram cfg s.lastNowMs (s.txPool j) := by
      intro j hj
      have hji : j ≠ i := fun h => hi (h ▸ hj)
      rw [hclock, hpool, Table.set_ne _ _ hji]
    show (s.tickAt i).2 ++ ((s.tickAt i).1.tickFrom is).2 = _
    rw [ih hnodup, hat, List.filterMap_congr hrest, List.filterMap_cons]
    cases resentDatagram cfg s.lastNowMs (s.txPool i) <;> rfl

/-- **The scan** sends the messages of the slots it says it resends, in the order of the slots. -/
theorem scan_sends (w : Watched cfg) (nowMs : UInt32) :
    ({ w.server with lastNowMs := nowMs } : Server cfg).tick.2 =
      (List.finRange _).filterMap fun i =>
        if w.scanEvent nowMs i = some (.resent (w.names i)) then
          some (.sent (w.server.txPool i).remote (w.server.txPool i).message)
        else none := by
  refine (tickFrom_sent (List.nodup_finRange _) _).trans (List.filterMap_congr fun i _ => ?_)
  unfold resentDatagram scanEvent
  rcases tickSlot_cases cfg nowMs (w.server.txPool i) with ⟨heq, -⟩ | ⟨-, -, -, heq⟩ |
    ⟨-, -, -, heq⟩ <;> dsimp only <;> rw [heq] <;> simp

/-- An observer that is gone after some of the slots was timed out by one. -/
theorem tickFrom_removes {is : List (Fin cfg.maxTransactions)} (hnodup : is.Nodup)
    {j : Fin cfg.maxObservers} : ∀ s : Server cfg, (s.observers j).active = true →
      ((s.tickFrom is).1.observers j).active = false →
      ∃ i ∈ is, (tickSlot cfg s.lastNowMs (s.txPool i)).2 =
        some (.timeout (s.observers j).remote (s.observers j).token) := by
  induction is with
  | nil =>
    intro s hact hgone
    rw [show (s.tickFrom []).1 = s from rfl, hact] at hgone
    cases hgone
  | cons i is ih =>
    intro s hact hgone
    obtain ⟨hi, hnodup⟩ := List.nodup_cons.1 hnodup
    obtain ⟨hclock, hpool⟩ := s.tickAt_pool i
    by_cases hstill : (s.tickAt i).1.observers j = s.observers j
    · -- a later slot does it, and that slot is as before
      obtain ⟨k, hmem, hk⟩ := ih hnodup (s.tickAt i).1 (by rw [hstill]; exact hact) hgone
      have hki : k ≠ i := fun h => hi (h ▸ hmem)
      rw [hclock, hpool, hstill, Table.set_ne _ _ hki] at hk
      exact ⟨k, List.mem_cons_of_mem _ hmem, hk⟩
    · refine ⟨i, List.mem_cons_self .., ?_⟩
      unfold tickAt at hstill
      dsimp only at hstill
      split at hstill
      · exact absurd rfl hstill
      · exact absurd rfl hstill
      · rename_i remote token heq
        rw [heq]
        rw [removeObserver_observers] at hstill
        split at hstill
        · rename_i hmatch
          obtain ⟨-, hrem, htok⟩ := observes_iff.1 hmatch
          have hrem : (s.observers j).remote = remote := hrem
          have htok : (s.observers j).token = token := htok
          rw [hrem, htok]
        · exact absurd rfl hstill

/-- **The scan** removes an observer only for a message it says it gives up, and then it is the
observer of that message. -/
theorem scan_removes (w : Watched cfg) (nowMs : UInt32) {j : Fin cfg.maxObservers}
    (hact : (w.server.observers j).active = true)
    (hgone : ((w.server.scanned nowMs).observers j).active = false) :
    ∃ i, w.scanEvent nowMs i = some (.timedOut (w.names i)) ∧
      (w.server.txPool i).remote = (w.server.observers j).remote ∧
      (w.server.txPool i).token = (w.server.observers j).token := by
  obtain ⟨i, -, hi⟩ := tickFrom_removes (List.nodup_finRange _)
    ({ w.server with lastNowMs := nowMs } : Server cfg) hact hgone
  refine ⟨i, ?_⟩
  unfold scanEvent
  rcases tickSlot_cases cfg nowMs (w.server.txPool i) with ⟨heq, -⟩ | ⟨-, -, -, heq⟩ |
    ⟨-, -, -, heq⟩
  · rw [heq] at hi
    cases hi
  · rw [heq] at hi
    cases hi
  · rw [heq] at hi ⊢
    obtain ⟨hrem, htok⟩ := TickEvent.timeout.inj (Option.some.inj hi)
    exact ⟨rfl, hrem, htok⟩

/-! ## The invariant -/

/-- Names are given once, and a waiting transaction is the message it is named
after. -/
structure Inv (h : List Event) (w : Watched cfg) : Prop where
  sent  : ∀ c, .sent c ∈ h → c.number < w.tracked
  named : ∀ i, Awaiting (w.server.txPool i) → .sent (w.names i) ∈ h ∧
    (w.names i).remote = (w.server.txPool i).remote ∧
      (w.names i).messageId = (w.server.txPool i).messageId

/-- A transaction that waits after a poll waited before it, and the scan has left
it. -/
theorem poll_pool (s : Server cfg) (nowMs : UInt32) (rx : Option (Endpoint × Bytes))
    (i : Fin cfg.maxTransactions) (ha : Awaiting ((s.step (.poll nowMs rx)).1.txPool i)) :
    Awaiting (s.txPool i) ∧ ((s.step (.poll nowMs rx)).1.txPool i).remote = (s.txPool i).remote ∧
      ((s.step (.poll nowMs rx)).1.txPool i).messageId = (s.txPool i).messageId ∧
      (s.control = .idle → Awaiting (tickSlot cfg nowMs (s.txPool i)).1) := by
  cases hctl : s.control with
  | handling hd =>
    rw [step_poll_busy hctl] at ha ⊢
    exact ⟨ha, rfl, rfl, nofun⟩
  | idle =>
    rw [step_poll_state hctl] at ha ⊢
    rcases ((s.scanned nowMs).receive_pool rx).2 i with hkept | hfreed
    · rw [hkept, scanned_pool] at ha ⊢
      rcases tickSlot_cases cfg nowMs (s.txPool i) with ⟨heq, -⟩ | ⟨ha', -, -, heq⟩ |
        ⟨-, -, -, heq⟩
      · rw [heq] at ha ⊢
        exact ⟨ha, rfl, rfl, fun _ => ha⟩
      · rw [heq]
        exact ⟨ha', rfl, rfl, fun _ => ha'⟩
      · rw [heq] at ha
        cases ha
    · exact absurd ha hfreed

/-- What a step makes of a waiting transaction's slot: it is as named before, or
the step has started it. -/
theorem step_pool (w : Watched cfg) (a : Action) (i : Fin cfg.maxTransactions)
    (ha : Awaiting ((w.server.step a).1.txPool i)) :
    (Started (w.server.txPool i) ((w.server.step a).1.txPool i) ∧
        .sent (w.rename (w.server.step a).1.txPool i) ∈ (w.next a).2) ∨
      (Awaiting (w.server.txPool i) ∧
        ((w.server.step a).1.txPool i).remote = (w.server.txPool i).remote ∧
        ((w.server.step a).1.txPool i).messageId = (w.server.txPool i).messageId) := by
  cases a with
  | call call =>
    rcases w.server.call_begins call i with heq | ⟨hfree, -⟩
    · have heq' : (w.server.step (.call call)).1.txPool i = w.server.txPool i := heq
      rw [heq'] at ha ⊢
      exact .inr ⟨ha, rfl, rfl⟩
    · refine .inl ⟨⟨hfree, ha⟩, ?_⟩
      show _ ∈ List.map _ _
      exact List.mem_map_of_mem (List.mem_filter.2 ⟨List.mem_finRange i,
        decide_eq_true (⟨hfree, ha⟩ : Started _ _)⟩)
  | poll nowMs rx =>
    obtain ⟨hold, hrem, hid, -⟩ := poll_pool w.server nowMs rx i ha
    exact .inr ⟨hold, hrem, hid⟩
  | handlerReturns res =>
    have hpool : (w.server.step (.handlerReturns res)).1.txPool = w.server.txPool := by
      cases hctl : w.server.control with
      | idle => rw [step_returns_idle hctl]
      | handling hd =>
        rw [step_returns hctl]
        exact (keepsTables_finish _ hd res).txPool
    rw [hpool] at ha ⊢
    exact .inr ⟨ha, rfl, rfl⟩

/-- What the scan reports is the name of a waiting transaction. -/
theorem scanEvent_awaiting {w : Watched cfg} {nowMs : UInt32} {i : Fin cfg.maxTransactions}
    {e : Event} (h : w.scanEvent nowMs i = some e) : Awaiting (w.server.txPool i) ∧
      (e = .resent (w.names i) ∨ e = .timedOut (w.names i)) := by
  unfold scanEvent at h
  rcases tickSlot_cases cfg nowMs (w.server.txPool i) with ⟨heq, -⟩ | ⟨ha, -, -, heq⟩ |
    ⟨ha, -, -, heq⟩
  · rw [heq] at h
    cases h
  · rw [heq] at h
    exact ⟨ha, .inl (Option.some.inj h).symm⟩
  · rw [heq] at h
    exact ⟨ha, .inr (Option.some.inj h).symm⟩

/-- A step sends, resends and gives up. -/
theorem mem_eventsOf {w : Watched cfg} {a : Action} {e : Event} (he : e ∈ (w.next a).2) :
    (∃ i, Started (w.server.txPool i) ((w.server.step a).1.txPool i) ∧
        e = .sent (w.rename (w.server.step a).1.txPool i)) ∨
      ∃ i, Awaiting (w.server.txPool i) ∧ (e = .resent (w.names i) ∨ e = .timedOut (w.names i)) := by
  have hsent : ∀ {b}, e ∈ ((List.finRange _).filter fun i =>
      Started (w.server.txPool i) ((w.server.step b).1.txPool i)).map (fun i =>
        Event.sent (w.rename (w.server.step b).1.txPool i)) →
      ∃ i, Started (w.server.txPool i) ((w.server.step b).1.txPool i) ∧
        e = .sent (w.rename (w.server.step b).1.txPool i) := by
    intro b hmem
    obtain ⟨i, hi, rfl⟩ := List.mem_map.1 hmem
    exact ⟨i, by simpa using (List.mem_filter.1 hi).2, rfl⟩
  cases a with
  | call call => exact .inl (hsent he)
  | handlerReturns res => exact .inl (hsent he)
  | poll nowMs rx =>
    refine .inr ?_
    have he' : e ∈ w.eventsOf (w.server.step (.poll nowMs rx)).1.txPool (.poll nowMs rx) := he
    unfold eventsOf at he'
    dsimp only at he'
    split at he'
    · obtain ⟨i, -, hi⟩ := List.mem_filterMap.1 he'
      exact ⟨i, scanEvent_awaiting hi⟩
    · cases he'

/-- A step keeps the record of what is sent again. -/
theorem Inv.step {h : List Event} {w : Watched cfg} (inv : Inv h w) (a : Action) :
    Inv (h ++ (w.next a).2) (w.next a).1 := by
  refine ⟨fun c hc => ?_, fun i ha => ?_⟩
  · have hlt : ∀ {k}, k < w.tracked + cfg.maxTransactions → k < (w.next a).1.tracked := id
    rcases List.mem_append.1 hc with hc | hc
    · exact hlt (Nat.lt_add_right _ (inv.sent c hc))
    · rcases mem_eventsOf hc with ⟨i, hs, heq⟩ | ⟨i, -, heq | heq⟩
      · cases heq
        refine hlt ?_
        rw [rename, if_pos hs]
        have hi := i.isLt
        dsimp only
        omega
      · cases heq
      · cases heq
  · show Event.sent (w.rename (w.server.step a).1.txPool i) ∈ _ ∧
      (w.rename (w.server.step a).1.txPool i).remote = ((w.server.step a).1.txPool i).remote ∧
      (w.rename (w.server.step a).1.txPool i).messageId = ((w.server.step a).1.txPool i).messageId
    rcases step_pool w a i ha with ⟨hs, hmem⟩ | ⟨hold, hrem, hid⟩
    · refine ⟨List.mem_append_right _ hmem, ?_⟩
      rw [rename, if_pos hs]
      exact ⟨rfl, rfl⟩
    · obtain ⟨hmem, hrem', hid'⟩ := inv.named i hold
      rw [rename, if_neg fun hs => hs.1 hold]
      exact ⟨List.mem_append_left _ hmem, hrem'.trans hrem.symm, hid'.trans hid.symm⟩

theorem inv_of_run {P : Watched cfg → Action → Prop} {h : List Event} {w : Watched cfg}
    (r : (machine cfg).Run P h w) : Inv h w := by
  refine r.invariant (I := fun h w => Inv h w) ?_ fun _ inv _ => inv.step _
  exact ⟨fun _ hc => (nomatch hc), fun i (ha : TransactionState.free = .awaitingAck) => nomatch ha⟩

/-! ## Settled for good -/

/-- No waiting transaction is this message, and none will get its name. -/
structure Gone (c : ConMessage) (w : Watched cfg) : Prop where
  waiting : ∀ i, Awaiting (w.server.txPool i) → w.names i ≠ c
  old     : c.number < w.tracked

/-- A message that is gone stays gone. -/
theorem Gone.step {c : ConMessage} {w : Watched cfg} (g : Gone c w) (a : Action) :
    Gone c (w.next a).1 := by
  refine ⟨fun i ha => ?_, Nat.lt_add_right _ g.old⟩
  show w.rename (w.server.step a).1.txPool i ≠ c
  rcases step_pool w a i ha with ⟨hs, -⟩ | ⟨hold, -⟩
  · rintro rfl
    have hold := g.old
    rw [rename, if_pos hs] at hold
    dsimp only at hold
    omega
  · rw [rename, if_neg fun hs => hs.1 hold]
    exact g.waiting i hold

/-- The events of a message that is sent or given up again. -/
def Again (c : ConMessage) (e : Event) : Prop := e = .resent c ∨ e = .timedOut c

theorem Gone.quiet {c : ConMessage} {w : Watched cfg} (g : Gone c w) (a : Action) :
    ∀ e ∈ (w.next a).2, ¬ Again c e := by
  rintro e he hagain
  rcases mem_eventsOf he with ⟨i, -, rfl⟩ | ⟨i, ha, rfl | rfl⟩
  · rcases hagain with h | h <;> cases h
  · rcases hagain with h | h
    · exact g.waiting i ha (Event.resent.inj h)
    · cases h
  · rcases hagain with h | h
    · cases h
    · exact g.waiting i ha (Event.timedOut.inj h)

/-- What is gone stays quiet in every run that goes on from here. -/
theorem Gone.run {c : ConMessage} (as : List Action) : ∀ {w : Watched cfg} (_ : Gone c w)
    (h : List Event), (∀ e ∈ h, ¬ Again c e) →
      ∀ e ∈ ((machine cfg).exec h w as).1, ¬ Again c e := by
  induction as with
  | nil => exact fun _ _ hquiet => hquiet
  | cons a as ih =>
    intro w g h hquiet
    refine ih (g.step a) _ fun e he => ?_
    rcases List.mem_append.1 he with he | he
    · exact hquiet e he
    · exact g.quiet a e he

/-! ## What the message settles -/

/-- The scan of a poll at `nowMs` leaves the transaction waiting. -/
def Left (cfg : Config) (nowMs : UInt32) (t : Transaction) : Prop :=
  Awaiting t ∧ (notDue nowMs t = true ∨ t.retriesSent < cfg.maxRetransmit)

/-- A transaction that an ACK or an RST of a poll at `nowMs` can be about. -/
def Named (cfg : Config) (nowMs : UInt32) (remote : Endpoint) (messageId : UInt16)
    (t : Transaction) : Prop :=
  Left cfg nowMs t ∧ t.remote = remote ∧ t.messageId = messageId

/-- **The condition**: an ACK is about one transaction at most, and an RST about
none. -/
def Settling (w : Watched cfg) (nowMs : UInt32) (remote : Endpoint) (msg : Message) : Prop :=
  if msg.type = .acknowledgement then
    ∀ i j, Named cfg nowMs remote msg.messageId (w.server.txPool i) →
      Named cfg nowMs remote msg.messageId (w.server.txPool j) → i = j
  else ∀ i, ¬ Named cfg nowMs remote msg.messageId (w.server.txPool i)

/-- What is left after the scan is what it leaves waiting. -/
theorem left_iff (cfg : Config) (nowMs : UInt32) (t : Transaction) :
    Left cfg nowMs t ↔ Awaiting (tickSlot cfg nowMs t).1 := by
  unfold Left
  rcases tickSlot_cases cfg nowMs t with ⟨heq, hdue⟩ | ⟨ha, -, hretry, heq⟩ | ⟨-, hdue, hretry, heq⟩
  · rw [heq]
    exact ⟨fun h => h.1, fun h => ⟨h, .inl (hdue h)⟩⟩
  · rw [heq]
    exact iff_of_true ⟨ha, .inr hretry⟩ ha
  · rw [heq]
    refine iff_of_false (fun h => ?_) nofun
    rcases h.2 with h | h
    · rw [hdue] at h
      cases h
    · exact hretry h

/-- The scan keeps the remote and the message ID. -/
theorem named_iff (w : Watched cfg) (nowMs : UInt32) (remote : Endpoint) (messageId : UInt16)
    (i : Fin cfg.maxTransactions) :
    Named cfg nowMs remote messageId (w.server.txPool i) ↔
      matchesId remote messageId ((w.server.scanned nowMs).txPool i) = true := by
  rw [matchesId_iff, scanned_pool, Named, left_iff]
  have hkeeps : (tickSlot cfg nowMs (w.server.txPool i)).1.remote = (w.server.txPool i).remote ∧
      (tickSlot cfg nowMs (w.server.txPool i)).1.messageId = (w.server.txPool i).messageId := by
    rcases tickSlot_cases cfg nowMs (w.server.txPool i) with ⟨heq, -⟩ | ⟨-, -, -, heq⟩ |
      ⟨-, -, -, heq⟩ <;> rw [heq] <;> exact ⟨rfl, rfl⟩
  rw [hkeeps.1, hkeeps.2]

/-- An ACK or an RST. -/
def Settles (msg : Message) : Prop := msg.type = .acknowledgement ∨ msg.type = .reset

/-- What is left in the pool after the message. -/
theorem receive_settles (s : Server cfg) {remote : Endpoint} {data : Bytes} {msg : Message}
    (hdec : Message.decode cfg data = (.none, msg)) (hmsg : Settles msg) :
    (s.receive (some (remote, data))).1.control = s.control ∧
      (s.receive (some (remote, data))).1.txPool =
        if msg.type = .acknowledgement then (s.txPool.complete remote msg.messageId).1
        else s.txPool := by
  have hlen := Message.decode_length hdec
  have heq : s.receive (some (remote, data)) = s.handleMessage remote msg := by
    unfold receive
    simp only [hdec, hlen, if_true]
  rw [heq]
  unfold handleMessage
  rcases hmsg with hack | hrst
  · rw [if_neg (by rw [hack]; decide), if_pos hack, if_pos hack]
    exact ⟨rfl, rfl⟩
  · obtain ⟨obs, hobs⟩ := s.handleReset_spec remote msg.messageId
    rw [if_pos hrst, if_neg (by rw [hrst]; decide), hobs]
    exact ⟨rfl, rfl⟩

/-- A slot the message is about is freed exactly when the message settles. -/
theorem settling_iff (w : Watched cfg) {nowMs : UInt32} {remote : Endpoint} {data : Bytes}
    {msg : Message} (hidle : w.server.control = .idle)
    (hdec : Message.decode cfg data = (.none, msg)) (hmsg : Settles msg) :
    w.Settling nowMs remote msg ↔
      ∀ i, Named cfg nowMs remote msg.messageId (w.server.txPool i) →
        ¬ Awaiting ((w.next (.poll nowMs (some (remote, data)))).1.server.txPool i) := by
  have hpool : (w.next (.poll nowMs (some (remote, data)))).1.server.txPool =
      if msg.type = .acknowledgement then
        ((w.server.scanned nowMs).txPool.complete remote msg.messageId).1
      else (w.server.scanned nowMs).txPool := by
    rw [← (receive_settles (w.server.scanned nowMs) hdec hmsg).2]
    show (w.server.step _).1.txPool = _
    rw [step_poll_state hidle]
  rw [hpool]
  unfold Settling
  by_cases hack : msg.type = .acknowledgement
  · rw [if_pos hack, if_pos hack]
    rcases complete_cases (w.server.scanned nowMs).txPool remote msg.messageId with ⟨hnone, hc⟩ |
      ⟨j, hf, hc⟩
    · -- nothing is found, so nothing is named
      have hempty : ∀ i, ¬ Named cfg nowMs remote msg.messageId (w.server.txPool i) := by
        intro i hi
        rw [named_iff, Table.find?_eq_none.1 hnone i] at hi
        cases hi
      exact iff_of_true (fun i _ hi => absurd hi (hempty i)) fun i hi => absurd hi (hempty i)
    · have hj := (named_iff w nowMs remote msg.messageId j).2 (Table.find?_spec hf)
      rw [hc]
      constructor
      · intro honly i hi
        rw [honly i j hi hj, Table.set_self]
        exact nofun
      · intro hfreed
        have hfirst : ∀ i, Named cfg nowMs remote msg.messageId (w.server.txPool i) → i = j := by
          intro i hi
          by_contra hij
          refine hfreed i hi ?_
          rw [Table.set_ne _ _ hij]
          exact (matchesId_iff.1 ((named_iff ..).1 hi)).1
        exact fun i i' hi hi' => (hfirst i hi).trans (hfirst i' hi').symm
  · rw [if_neg hack, if_neg hack]
    refine forall_congr' fun i => ⟨fun h hi => absurd hi h, fun h hi => h hi ?_⟩
    exact (matchesId_iff.1 ((named_iff ..).1 hi)).1

/-- At its deadline a waiting transaction is sent or given up again. -/
theorem due_again (w : Watched cfg) (hidle : w.server.control = .idle)
    {i : Fin cfg.maxTransactions} (ha : Awaiting (w.server.txPool i)) :
    ∃ e ∈ (w.next (.poll (w.server.txPool i).nextRetryAtMs none)).2, Again (w.names i) e := by
  have hdue : notDue (w.server.txPool i).nextRetryAtMs (w.server.txPool i) = false := by
    unfold notDue
    rw [UInt32.sub_self]
    rfl
  have hevent : ∃ e, w.scanEvent (w.server.txPool i).nextRetryAtMs i = some e ∧
      Again (w.names i) e := by
    unfold scanEvent
    rcases tickSlot_cases cfg (w.server.txPool i).nextRetryAtMs (w.server.txPool i) with
      ⟨-, hnot⟩ | ⟨-, -, -, heq⟩ | ⟨-, -, -, heq⟩
    · rw [hnot ha] at hdue
      cases hdue
    · rw [heq]
      exact ⟨_, rfl, .inl rfl⟩
    · rw [heq]
      exact ⟨_, rfl, .inr rfl⟩
  obtain ⟨e, he, hagain⟩ := hevent
  refine ⟨e, ?_, hagain⟩
  have hscan : (w.next (.poll (w.server.txPool i).nextRetryAtMs none)).2 =
      (List.finRange _).filterMap (w.scanEvent (w.server.txPool i).nextRetryAtMs) := by
    unfold next eventsOf
    simp only [hidle]
  rw [hscan]
  exact List.mem_filterMap.2 ⟨i, List.mem_finRange i, he⟩

/-- Nothing that was sent under this remote and message ID is resent or given up
in any run that goes on from `w`. -/
def Quiet (h : List Event) (w : Watched cfg) (remote : Endpoint) (messageId : UInt16) : Prop :=
  ∀ c, .sent c ∈ h → c.remote = remote → c.messageId = messageId →
    ∀ (as : List Action), ∀ e ∈ ((machine cfg).exec [] w as).1, ¬ Again c e

/-- **An acknowledged or rejected CON is never resent**, exactly when an ACK is about one
transaction at most and an RST about none. "Never" is over every run that goes on from the poll. -/
theorem settled_iff {h : List Event} {w : Watched cfg}
    (r : (machine cfg).Run (fun _ _ => True) h w) (hidle : w.server.control = .idle)
    (nowMs : UInt32) (remote : Endpoint) {data : Bytes} {msg : Message}
    (hdec : Message.decode cfg data = (.none, msg)) (hmsg : Settles msg) :
    Quiet (h ++ (w.next (.poll nowMs (some (remote, data)))).2)
        (w.next (.poll nowMs (some (remote, data)))).1 remote msg.messageId ↔
      w.Settling nowMs remote msg := by
  have inv := inv_of_run r
  have inv' := inv.step (.poll nowMs (some (remote, data)))
  have hctl : (w.next (.poll nowMs (some (remote, data)))).1.server.control = .idle := by
    have hkeep : ((w.server.scanned nowMs).receive (some (remote, data))).1.control =
        (w.server.scanned nowMs).control := (receive_settles _ hdec hmsg).1
    show (w.server.step _).1.control = _
    rw [step_poll_state hidle, hkeep, scanned_control, hidle]
  rw [settling_iff w hidle hdec hmsg]
  -- a slot that waits after the poll waited before it, under the same name
  have hold : ∀ i, Awaiting ((w.next (.poll nowMs (some (remote, data)))).1.server.txPool i) →
      Left cfg nowMs (w.server.txPool i) ∧
        (w.next (.poll nowMs (some (remote, data)))).1.names i = w.names i := by
    intro i ha
    obtain ⟨hwait, -, -, hleft⟩ := poll_pool w.server nowMs (some (remote, data)) i ha
    refine ⟨(left_iff ..).2 (hleft hidle), ?_⟩
    show w.rename _ i = _
    rw [rename, if_neg fun hs => hs.1 hwait]
  constructor
  · intro hquiet i hi ha
    obtain ⟨hmem, -, -⟩ := inv'.named i ha
    obtain ⟨-, hrem, hid⟩ := inv.named i hi.1.1
    obtain ⟨e, he, hagain⟩ := due_again _ hctl ha
    have hname := (hold i ha).2
    refine hquiet _ hmem ?_ ?_ [.poll _ none] e (List.mem_append_right _ he) hagain
    · rw [hname, hrem]
      exact hi.2.1
    · rw [hname, hid]
      exact hi.2.2
  · intro hfreed c hc hrem hid as
    refine Gone.run as ⟨fun i ha => ?_, inv'.sent c hc⟩ [] fun _ he => nomatch he
    rintro rfl
    obtain ⟨hleft, hname⟩ := hold i ha
    obtain ⟨-, hrem', hid'⟩ := inv.named i hleft.1
    rw [hname] at hrem hid
    exact hfreed i ⟨hleft, hrem'.symm.trans hrem, hid'.symm.trans hid⟩ ha

/-! ## A rejected notification -/

/-- GET for the root with Observe 0, Confirmable, under the token A0. -/
def observeRoot : Bytes := [0x41, 0x01, 0x00, 0x07, 0xA0, 0x60]

/-- An observer is sent a Confirmable notification, with message ID 1. -/
def notified : List Action :=
  [.call (.addResource (some [Uri.slash]) methodGet (some 0) none true),
    .poll 0 (some ({}, observeRoot)), .handlerReturns {},
    .call (.notify [Uri.slash] [0x2A] .textPlain true)]

/-- An empty message of this type with message ID 1. -/
def emptyMessage (type : MessageType) : Message := { type, messageId := 1 }

/-- The ACK of the notification. -/
theorem settled_iff_acked :
    let w := ((machine Config.default).exec [] {} notified).2
    Settles (emptyMessage .acknowledgement) ∧
      (Quiet (((machine Config.default).exec [] {} notified).1 ++
          (w.next (.poll 10 (some ({}, [0x60, 0x00, 0x00, 0x01])))).2)
        (w.next (.poll 10 (some ({}, [0x60, 0x00, 0x00, 0x01])))).1 {} 1 ↔
        w.Settling 10 {} (emptyMessage .acknowledgement)) :=
  ⟨.inl rfl, settled_iff (Machine.Run.start.exec (Machine.meets_of_forall (fun _ _ => trivial) _
    notified)) (by decide +kernel) 10 {} (show _ = (_, emptyMessage .acknowledgement) by
      decide +kernel) (.inl rfl)⟩

/-- **A rejected notification is sent again**: after its RST the next tick at or after the
deadline resends it. The RST branch has removed the observer and left the pool alone. -/
theorem not_settled :
    ¬ ∀ (h : List Event) (w : Watched Config.default),
      (machine Config.default).Run (fun _ _ => True) h w → w.server.control = .idle →
      ∀ (nowMs : UInt32) (remote : Endpoint) (data : Bytes) (msg : Message),
        Message.decode Config.default data = (.none, msg) → Settles msg →
          Quiet (h ++ (w.next (.poll nowMs (some (remote, data)))).2)
            (w.next (.poll nowMs (some (remote, data)))).1 remote msg.messageId := by
  intro hall
  have hquiet := hall _ _ (Machine.Run.start.exec (Machine.meets_of_forall (fun _ _ => trivial) _
    notified)) (by decide +kernel) 10 {} [0x70, 0x00, 0x00, 0x01] (emptyMessage .reset)
    (by decide +kernel) (.inr rfl)
  exact hquiet ⟨12, {}, 1⟩ (by decide +kernel) rfl rfl [.poll 4000 none] (.resent ⟨12, {}, 1⟩)
    (by decide +kernel) (.inl rfl)

end Watched

end Server

end PulseCoap
