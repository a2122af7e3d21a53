import PulseCoap.Server.Deferral

/-!
# PulseCoAP — what a deferred request is owed

`handleRequest` takes a deferred slot before it calls the handler, and keeps it when
the handler sets `res.deferred`; with the pool full there is none to keep and the
result goes out inline. `respond` empties the slot, also when its response does not
encode.

A run is watched: the request in the handler, the requests that have been deferred
and have had no response, and what the server sends of its own accord for a request
from its datagram to the return of its handler.

`Inv` follows the request from its datagram on: it has the slot that was free
when its handler was called, that slot is nobody else's while the handler runs,
and it stays as it was filled until a call of `respond` with its index. What a
call of `respond` sends is read off the slot. The amended guarantee leaves the
request with no slot out: it is answered as if the handler had not deferred it.

* `takes_receive` — a datagram that calls a handler sends nothing and takes a free
  slot, if there is one.
* `Inv.step` — the slot of an owed request keeps its remote, its token and its
  confirmability in every step.
* `answerable_of_run` — what holds of every run.
* `not_answered_by_respond` — a deferred request with the pool full.
* `Answerable` — what is promised, over the history and the slots.
-/

namespace PulseCoap

namespace Server

variable {cfg : Config}

/-- A request that has been handed to a handler. -/
structure Owed (cfg : Config) where
  /-- The slot, if one was free. -/
  slot        : Option (Fin cfg.maxDeferred)
  remote      : Endpoint
  token       : Bytes
  confirmable : Bool
  /-- A response to it has not been encoded. -/
  failed      : Bool := false
deriving DecidableEq

/-- What its slot holds. -/
def Owed.kept (o : Owed cfg) : DeferredRequest where
  active := true
  remote := o.remote
  token := o.token
  wasConfirmable := o.confirmable

/-- The request of the running handler. -/
def owedTo (h : Handling cfg) : Owed cfg where
  slot := h.deferIdx
  remote := h.sender
  token := h.msg.token
  confirmable := decide (h.msg.type = .confirmable)

/-- A server and what it owes. -/
structure Owing (cfg : Config) where
  server  : Server cfg := {}
  /-- The request of the running handler, until it is responded to. -/
  current : Option (Owed cfg) := none
  /-- The datagrams of the poll that called the handler, without those of the pool scan. -/
  before  : List ServerEvent := []
  /-- The deferred requests without a response. -/
  owed    : List (Owed cfg) := []

namespace Owing

/-- What is seen of a step. -/
inductive Event (cfg : Config) where
  /-- A handler has deferred: what has been sent for its request, and what would have been sent if
  it had not deferred. -/
  | deferred (h : Handling cfg) (sent plain : List ServerEvent)
  /-- A call of `respond`, with the slots before and after. -/
  | responded (handle : UInt8) (before after : Table cfg.maxDeferred DeferredRequest)
      (result : Bool) (sent : List ServerEvent)

/-- The events among these that send a datagram. -/
def sentEvents (events : List ServerEvent) : List ServerEvent :=
  events.filter fun
    | .sent .. => true
    | _ => false

/-- `respond` with this handle: a request in its slot has had its response, or has failed to. -/
def settle (handle : UInt8) (result : Bool) (o : Owed cfg) : Option (Owed cfg) :=
  if o.slot.map Fin.val = some handle.toNat then
    if result then none else some { o with failed := true }
  else some o

/-- One step. -/
def next (w : Owing cfg) (a : Action) : Owing cfg × List (Event cfg) :=
  let r := w.server.step a
  match a with
  | .call (.respond handle code payload cf) =>
    let q := w.server.respond handle code payload cf
    ({ w with
        server := r.1
        current := w.current.bind (settle handle q.2.1)
        owed := w.owed.filterMap (settle handle q.2.1) },
      [.responded handle w.server.deferred q.1.deferred q.2.1 q.2.2])
  | .call _ => ({ w with server := r.1 }, [])
  | .poll nowMs rx =>
    match w.server.control, r.1.control with
    | .idle, .handling h =>
      ({ w with
          server := r.1
          current := some (owedTo h)
          before := sentEvents ((w.server.scanned nowMs).receive rx).2 }, [])
    | _, _ => ({ w with server := r.1 }, [])
  | .handlerReturns res =>
    match w.server.control with
    | .idle => (w, [])
    | .handling h =>
      let plain := w.server.step (.handlerReturns { res with deferred := false })
      if res.deferred then
        ({ w with server := r.1, current := none, owed := w.owed ++ w.current.toList },
          [.deferred h (w.before ++ sentEvents r.2) (w.before ++ sentEvents plain.2)])
      else ({ w with server := r.1, current := none }, [])

def machine (cfg : Config) : Machine (Owing cfg) Action (Event cfg) where
  init := {}
  next := next

/-- The empty ACK of a Confirmable request. -/
def ackOnly (cfg : Config) (h : Handling cfg) : List ServerEvent :=
  if h.msg.type = .confirmable then sendEmptyAck cfg h.msg.messageId h.sender else []

/-- **Deferred requests are answered only by `respond`, and remain answerable**, as the interface
describes it. -/
structure AnsweredByRespond (h : List (Event cfg)) (w : Owing cfg) : Prop where
  silent : ∀ hd sent plain, .deferred hd sent plain ∈ h → sent = ackOnly cfg hd
  kept   : ∀ o ∈ w.owed, ∃ i, o.slot = some i ∧ w.server.deferred i = o.kept
  retry  : ∀ handle before after sent, .responded handle before after false sent ∈ h →
    after = before

/-- **What the code does**: the same, for requests that have a slot and while no response to them
has failed to encode. -/
structure Answerable (h : List (Event cfg)) (w : Owing cfg) : Prop where
  /-- A request that has a slot is acknowledged and nothing else. -/
  silent   : ∀ hd sent plain, .deferred hd sent plain ∈ h → hd.deferIdx.isSome = true →
    sent = ackOnly cfg hd
  /-- With the pool full the result is sent as if it had not been deferred. -/
  inline   : ∀ hd sent plain, .deferred hd sent plain ∈ h → hd.deferIdx = none → sent = plain
  /-- The slot keeps the request until a `respond` for it. -/
  kept     : ∀ o ∈ w.owed, o.failed = false → ∀ i, o.slot = some i →
    w.server.deferred i = o.kept
  /-- `respond` returns true when it has sent the response to the request in the slot, which it
  empties; the other slots stay. -/
  answered : ∀ handle before after sent, .responded handle before after true sent ∈ h →
    ∃ i : Fin cfg.maxDeferred, i.val = handle.toNat ∧ (before i).active = true ∧
      (∃ messageId code payload cf buf,
        encoded cfg (separateResponse cfg (before i) messageId code payload cf) = some buf ∧
          sent = [.sent (before i).remote buf]) ∧ ∀ j ≠ i, after j = before j
  /-- A bad handle changes nothing. -/
  refused  : ∀ handle before after result sent, .responded handle before after result sent ∈ h →
    (∀ i : Fin cfg.maxDeferred, i.val = handle.toNat → (before i).active = false) →
      result = false ∧ sent = [] ∧ after = before

/-! ## What a datagram takes -/

theorem sentEvents_append (ev ev' : List ServerEvent) :
    sentEvents (ev ++ ev') = sentEvents ev ++ sentEvents ev' := List.filter_append ..

/-- Where only datagrams are sent, these are all of them. -/
theorem sentEvents_sends {ev : List ServerEvent} (h : OnlySends ev) : sentEvents ev = ev := by
  refine List.filter_eq_self.2 fun e he => ?_
  obtain ⟨dest, data, rfl⟩ := h e he
  rfl

/-- A datagram starts a handler with a free slot, or leaves the slots that are taken alone. -/
inductive Takes (s : Server cfg) (r : Server cfg × List ServerEvent) : Prop where
  | done (idle : r.1.control = .idle)
      (others : ∀ i, (s.deferred i).active = true → r.1.deferred i = s.deferred i)
  | calls (h : Handling cfg) (running : r.1.control = .handling h) (silent : sentEvents r.2 = [])
      (filled : ∀ i, h.deferIdx = some i → r.1.deferred i = (owedTo h).kept)
      (others : ∀ i, (s.deferred i).active = true →
        h.deferIdx ≠ some i ∧ r.1.deferred i = s.deferred i)

/-- A handler call takes a slot for its request if one is free. -/
theorem takes_runHandler {s : Server cfg} (hidle : s.control = .idle) (t : Target) (msg : Message)
    (sender : Endpoint) (ov : Option UInt32) (session : Option (Fin cfg.maxBlock1Sessions)) :
    Takes s (s.runHandler t msg sender ov session) := by
  have hfill : ∀ i, s.allocateDeferred = some i → (s.deferred i).active = false ∧
      (s.fillDeferred s.allocateDeferred msg sender).deferred i =
        (owedTo (s.handlingFor msg sender ov session)).kept := by
    intro i hi
    refine ⟨by simpa using Table.find?_spec hi, ?_⟩
    rw [hi]
    exact Table.set_self ..
  have hother : ∀ i, (s.deferred i).active = true → s.allocateDeferred ≠ some i := by
    intro i hact hi
    rw [(hfill i hi).1] at hact
    cases hact
  rcases s.runHandler_cases t msg sender ov session with ⟨f, -, heq⟩ | ⟨-, heq⟩
  · rw [heq]
    refine .calls (s.handlingFor msg sender ov session) rfl rfl (fun i hi => (hfill i hi).2) ?_
    exact fun i hact => ⟨hother i hact, s.fillDeferred_ne msg sender (hother i hact)⟩
  · -- the server's own handler does not defer, and its slot was free before
    obtain ⟨⟨id, hstate⟩, -⟩ := finish_spec (s.fillDeferred s.allocateDeferred msg sender)
      (s.handlingFor msg sender ov session)
      (s.fillDeferred s.allocateDeferred msg sender).wellKnownCoreHandler
    obtain ⟨d, hd⟩ := s.fillDeferred_spec s.allocateDeferred msg sender
    rw [heq]
    refine .done ?_ fun i hact => ?_
    · dsimp only
      rw [finish_control, hd]
      exact hidle
    · dsimp only
      rw [hstate]
      refine (freeDeferred?_ne _ (hother i hact)).trans ?_
      exact s.fillDeferred_ne msg sender (hother i hact)

/-- **A datagram** takes a slot only for the request whose handler it calls, and frees none. -/
theorem takes_receive {s : Server cfg} (hidle : s.control = .idle)
    (rx : Option (Endpoint × Bytes)) : Takes s (s.receive rx) := by
  obtain ⟨obs, pool, sess, h | ⟨t, msg, sender, ov, session, h⟩⟩ := s.comes_receive rx
  · obtain ⟨⟨id, hid⟩, -⟩ := id h
    refine .done (h.control.trans hidle) fun i _ => ?_
    rw [hid]
    rfl
  · rw [h]
    rcases takes_runHandler (s := s.withTables obs pool sess) hidle t msg sender ov session with
      ⟨idle, others⟩ | ⟨hd, running, silent, filled, others⟩
    · exact .done idle others
    · exact .calls hd running silent filled others

/-! ## The invariant -/

/-- The slots of the requests that are owed a response, and of the one in the handler. -/
structure Inv (h : List (Event cfg)) (w : Owing cfg) : Prop extends Answerable h w where
  current : ∀ o, w.current = some o → o.failed = false → ∀ i, o.slot = some i →
    w.server.deferred i = o.kept
  before  : ∀ hd, w.server.control = .handling hd → w.before = []
  /-- The slot of the running handler is freed when it does not defer. -/
  apart   : ∀ hd, w.server.control = .handling hd → ∀ o ∈ w.owed, o.failed = false →
    ∀ i, o.slot = some i → hd.deferIdx ≠ some i

section

variable {h : List (Event cfg)} {w : Owing cfg}

/-- What holds of the events so far holds with no new one. -/
theorem Answerable.state {w' : Owing cfg} (a : Answerable h w)
    (hkept : ∀ o ∈ w'.owed, o.failed = false → ∀ i, o.slot = some i →
      w'.server.deferred i = o.kept) : Answerable (h ++ []) w' := by
  rw [List.append_nil]
  exact ⟨a.silent, a.inline, hkept, a.answered, a.refused⟩

/-- A request that is still waiting has another slot than the one that is responded to. -/
theorem settle_waiting {handle : UInt8} {result : Bool} {o o' : Owed cfg}
    (hs : settle handle result o = some o') (hwaits : o'.failed = false) :
    o' = o ∧ ∀ i, o'.slot = some i → i.val ≠ handle.toNat := by
  unfold settle at hs
  split at hs
  · split at hs
    · cases hs
    · cases hs
      cases hwaits
  · rename_i hslot
    cases hs
    refine ⟨rfl, fun i hi heq => hslot ?_⟩
    rw [hi, Option.map_some, heq]

/-- **A call of `respond`** pays what was owed under its index, or is refused. -/
theorem Inv.responds (inv : Inv h w) (handle : UInt8) (code : Code) (payload : Bytes)
    (cf : ContentFormat) :
    Inv (h ++ (w.next (.call (.respond handle code payload cf))).2)
      (w.next (.call (.respond handle code payload cf))).1 := by
  set q := w.server.respond handle code payload cf with hq
  have hcases := w.server.respond_cases handle ⟨code, payload, cf⟩
  dsimp only at hcases
  rw [← hq] at hcases
  have hkeeps := w.server.respond_keeps handle code payload cf
  rw [← hq] at hkeeps
  -- every slot but the one of the handle stays
  have hother : ∀ i : Fin cfg.maxDeferred, i.val ≠ handle.toNat →
      q.1.deferred i = w.server.deferred i := by
    intro j hj
    rcases hcases with ⟨heq, -⟩ | ⟨i, hi, -, hdef, -⟩
    · rw [heq]
    · rw [hdef]
      exact Table.set_ne _ _ fun hji => hj (hji ▸ hi.symm)
  -- what still waits keeps its slot, as `respond` has emptied another one
  have hkept : ∀ o' : Owed cfg, ∀ o, settle handle q.2.1 o = some o' → o'.failed = false →
      (o.failed = false → ∀ i, o.slot = some i → w.server.deferred i = o.kept) →
      ∀ i, o'.slot = some i → q.1.deferred i = o'.kept := by
    intro o' o hs hwaits hold i hi
    obtain ⟨rfl, hne⟩ := settle_waiting hs hwaits
    rw [hother i (hne i hi)]
    exact hold hwaits i hi
  have hctl : (w.next (.call (.respond handle code payload cf))).1.server.control =
      w.server.control := hkeeps.control
  refine ⟨⟨?_, ?_, ?_, ?_, ?_⟩, ?_, ?_, ?_⟩
  · intro hd sent plain hmem
    rcases List.mem_append.1 hmem with hmem | hmem
    · exact inv.silent hd sent plain hmem
    · cases List.mem_singleton.1 hmem
  · intro hd sent plain hmem
    rcases List.mem_append.1 hmem with hmem | hmem
    · exact inv.inline hd sent plain hmem
    · cases List.mem_singleton.1 hmem
  · -- a deferred request that waits, then a `respond` that returned true, then one that did not
    intro o' ho' hwaits
    obtain ⟨o, ho, hs⟩ := List.mem_filterMap.1 ho'
    exact hkept o' o hs hwaits (inv.kept o ho)
  · intro handle' before after sent hmem
    rcases List.mem_append.1 hmem with hmem | hmem
    · exact inv.answered handle' before after sent hmem
    · obtain ⟨rfl, rfl, rfl, htrue, rfl⟩ : handle' = handle ∧ before = w.server.deferred ∧
          after = q.1.deferred ∧ true = q.2.1 ∧ sent = q.2.2 := by
        simpa using List.mem_singleton.1 hmem
      -- it has returned true, so the response was encoded and sent
      rcases hcases with ⟨heq, -⟩ | ⟨i, hi, hact, hdef, hnone | ⟨messageId, buf, henc, hsome⟩⟩
      · rw [heq] at htrue
        cases htrue
      · rw [hnone] at htrue
        cases htrue
      · refine ⟨i, hi.symm, hact, ⟨messageId, code, payload, cf, buf, henc, by rw [hsome]⟩, ?_⟩
        intro j hj
        rw [hdef]
        exact Table.set_ne _ _ hj
  · intro handle' before after result sent hmem
    rcases List.mem_append.1 hmem with hmem | hmem
    · exact inv.refused handle' before after result sent hmem
    · obtain ⟨rfl, rfl, rfl, rfl, rfl⟩ : handle' = handle ∧ before = w.server.deferred ∧
          after = q.1.deferred ∧ result = q.2.1 ∧ sent = q.2.2 := by
        simpa using List.mem_singleton.1 hmem
      intro hbad
      rcases hcases with ⟨heq, -⟩ | ⟨i, hi, hact, -, -⟩
      · rw [heq]
        exact ⟨rfl, rfl, rfl⟩
      · rw [hbad i hi.symm] at hact
        cases hact
  · intro o' ho' hwaits
    obtain ⟨o, ho, hs⟩ := Option.bind_eq_some_iff.1 ho'
    exact hkept o' o hs hwaits (inv.current o ho)
  · intro hd hrun
    exact inv.before hd (hctl ▸ hrun)
  · -- the slot of the request in the handler is nobody else's
    intro hd hrun o' ho' hwaits i hi
    obtain ⟨o, ho, hs⟩ := List.mem_filterMap.1 ho'
    obtain ⟨rfl, -⟩ := settle_waiting hs hwaits
    exact inv.apart hd (hctl ▸ hrun) o' ho hwaits i hi

/-- Another call leaves the slots alone. -/
theorem Inv.calls (inv : Inv h w) {c : ServerCall}
    (hc : ∀ handle code payload cf, c ≠ .respond handle code payload cf) :
    Inv (h ++ (w.next (.call c)).2) (w.next (.call c)).1 := by
  have hnext : w.next (.call c) = ({ w with server := (w.server.step (.call c)).1 }, []) := by
    cases c with
    | respond handle code payload cf => exact absurd rfl (hc handle code payload cf)
    | _ => rfl
  have hdef : (w.server.step (.call c)).1.deferred = w.server.deferred := w.server.call_deferred hc
  have hctl : (w.server.step (.call c)).1.control = w.server.control :=
    (w.server.call_keeps c).control
  rw [hnext]
  refine ⟨inv.toAnswerable.state fun o ho hwaits i hi => ?_, fun o ho hwaits i hi => ?_,
    fun hd hrun => inv.before hd (hctl ▸ hrun), fun hd hrun => inv.apart hd (hctl ▸ hrun)⟩
  · dsimp only
    rw [hdef]
    exact inv.kept o ho hwaits i hi
  · dsimp only
    rw [hdef]
    exact inv.current o ho hwaits i hi

/-- **A poll** takes a slot that nobody is owed a response for, since it is free. -/
theorem Inv.polls (inv : Inv h w) (nowMs : UInt32) (rx : Option (Endpoint × Bytes)) :
    Inv (h ++ (w.next (.poll nowMs rx)).2) (w.next (.poll nowMs rx)).1 := by
  cases hidle : w.server.control with
  | handling hd =>
    -- `poll` is not called from a handler
    have hnext : w.next (.poll nowMs rx) = (w, []) := by
      simp only [next, step, hidle]
    rw [hnext, List.append_nil]
    exact inv
  | idle =>
    obtain ⟨pool, obs, hs⟩ := w.server.scanned_spec nowMs
    have hsame : (w.server.scanned nowMs).deferred = w.server.deferred := by rw [hs]
    have hstep : (w.server.step (.poll nowMs rx)).1 =
        ((w.server.scanned nowMs).receive rx).1 := step_poll_state hidle nowMs rx
    have hactive : ∀ o : Owed cfg, (o.failed = false → ∀ i, o.slot = some i →
        w.server.deferred i = o.kept) → o.failed = false → ∀ i, o.slot = some i →
        ((w.server.scanned nowMs).deferred i).active = true := by
      intro o hold hwaits i hi
      rw [hsame, hold hwaits i hi]
      rfl
    have hctl : (w.server.scanned nowMs).control = .idle :=
      (w.server.scanned_control nowMs).trans hidle
    -- the datagram calls no handler, or it calls one and a slot is taken for it
    rcases takes_receive hctl rx with ⟨done, others⟩ | ⟨hd, running, silent, filled, others⟩
    · have hnext : w.next (.poll nowMs rx) =
          ({ w with server := ((w.server.scanned nowMs).receive rx).1 }, []) := by
        unfold next
        simp only [hstep, hidle, done]
      rw [hnext]
      refine ⟨inv.toAnswerable.state fun o ho hwaits i hi => ?_, fun o ho hwaits i hi => ?_,
        fun hd hrun => ?_, fun hd hrun => ?_⟩
      · dsimp only
        rw [others i (hactive o (inv.kept o ho) hwaits i hi), hsame]
        exact inv.kept o ho hwaits i hi
      · dsimp only
        rw [others i (hactive o (inv.current o ho) hwaits i hi), hsame]
        exact inv.current o ho hwaits i hi
      all_goals
        dsimp only at hrun
        rw [done] at hrun
        cases hrun
    · have hnext : w.next (.poll nowMs rx) =
          ({ w with
              server := ((w.server.scanned nowMs).receive rx).1, current := some (owedTo hd)
              before := [] }, []) := by
        unfold next
        simp only [hstep, hidle, running, silent]
      rw [hnext]
      refine ⟨inv.toAnswerable.state fun o ho hwaits i hi => ?_, fun o ho _ i hi => ?_,
        fun _ _ => rfl, fun hd' hrun o ho hwaits i hi => ?_⟩
      · dsimp only
        rw [(others i (hactive o (inv.kept o ho) hwaits i hi)).2, hsame]
        exact inv.kept o ho hwaits i hi
      · obtain rfl := Option.some.inj ho
        exact filled i hi
      · dsimp only at hrun
        rw [running] at hrun
        cases hrun
        exact (others i (hactive o (inv.kept o ho) hwaits i hi)).1

/-! ## The return of a handler -/

/-- A result that is deferred without a slot goes out like any other. -/
theorem finish_plain (s : Server cfg) {hd : Handling cfg} (hnone : hd.deferIdx = none)
    (res : Response) : s.finish hd res = s.finish hd { res with deferred := false } := by
  have hslot : ¬ (res.deferred = true ∧ hd.deferIdx.isSome = true) := by
    rw [hnone]
    exact fun h => nomatch h.2
  unfold finish
  rw [if_neg hslot, if_neg fun h => nomatch h.1]
  rfl

/-- With a slot it is acknowledged. -/
theorem finish_acks (s : Server cfg) {hd : Handling cfg} {res : Response}
    (hdef : res.deferred = true) (hslot : hd.deferIdx.isSome = true) :
    (s.finish hd res).2 = ackOnly cfg hd := by
  unfold finish
  rw [if_pos ⟨hdef, hslot⟩]
  rfl

/-- **The return of a handler** frees its own slot at most: the one it has not used. -/
theorem Inv.returns (inv : Inv h w) (res : Response) :
    Inv (h ++ (w.next (.handlerReturns res)).2) (w.next (.handlerReturns res)).1 := by
  cases hctl : w.server.control with
  | idle =>
    have hnext : w.next (.handlerReturns res) = (w, []) := by
      simp only [next, hctl]
    rw [hnext, List.append_nil]
    exact inv
  | handling hd =>
    have hstep := step_returns hctl
    obtain ⟨⟨id, hstate⟩, hsends⟩ := finish_spec { w.server with control := .idle } hd res
    have hidle : ∀ hd', (finish { w.server with control := .idle } hd res).1.control ≠
        .handling hd' := by
      intro hd' hrun
      rw [hstate] at hrun
      cases hrun
    by_cases hdef : res.deferred = true
    · -- deferred: no slot changes
      have hsame : (finish { w.server with control := .idle } hd res).1.deferred =
          w.server.deferred := by
        rw [hstate]
        dsimp only
        split
        · rfl
        · rename_i hslot
          have hnone : hd.deferIdx = none := by
            simpa [hdef] using hslot
          rw [hnone]
          rfl
      have hnext : w.next (.handlerReturns res) =
          ({ w with
              server := (finish { w.server with control := .idle } hd res).1, current := none
              owed := w.owed ++ w.current.toList },
            [.deferred hd (finish { w.server with control := .idle } hd res).2
              (finish { w.server with control := .idle } hd { res with deferred := false }).2]) := by
        have hplain := (finish_spec { w.server with control := .idle } hd
          { res with deferred := false }).2
        unfold next
        simp only [hctl, hdef, if_true, hstep, sentEvents_sends hsends, sentEvents_sends hplain,
          inv.before hd hctl, List.nil_append]
      rw [hnext]
      refine ⟨⟨?_, ?_, ?_, ?_, ?_⟩, (fun _ ho => nomatch ho),
        fun _ hrun => absurd hrun (hidle _), fun _ hrun => absurd hrun (hidle _)⟩
      · intro hd' sent plain hmem hslot
        rcases List.mem_append.1 hmem with hmem | hmem
        · exact inv.silent hd' sent plain hmem hslot
        · cases List.mem_singleton.1 hmem
          exact finish_acks _ hdef hslot
      · intro hd' sent plain hmem hnone
        rcases List.mem_append.1 hmem with hmem | hmem
        · exact inv.inline hd' sent plain hmem hnone
        · cases List.mem_singleton.1 hmem
          rw [finish_plain _ hnone res]
      · intro o ho hwaits i hi
        dsimp only
        rw [hsame]
        rcases List.mem_append.1 ho with ho | ho
        · exact inv.kept o ho hwaits i hi
        · exact inv.current o (Option.mem_toList.1 ho) hwaits i hi
      · intro handle before after sent hmem
        rcases List.mem_append.1 hmem with hmem | hmem
        · exact inv.answered handle before after sent hmem
        · cases List.mem_singleton.1 hmem
      · intro handle before after result sent hmem
        rcases List.mem_append.1 hmem with hmem | hmem
        · exact inv.refused handle before after result sent hmem
        · cases List.mem_singleton.1 hmem
    · -- not deferred: the slot that is freed is the handler's own
      have hnext : w.next (.handlerReturns res) =
          ({ w with
              server := (finish { w.server with control := .idle } hd res).1
              current := none }, []) := by
        unfold next
        simp only [hctl, hdef, hstep, Bool.false_eq_true, if_false]
      rw [hnext]
      refine ⟨inv.toAnswerable.state fun o ho hwaits i hi => ?_, (fun _ ho => nomatch ho),
        fun _ hrun => absurd hrun (hidle _), fun _ hrun => absurd hrun (hidle _)⟩
      have hfreed : (finish { w.server with control := .idle } hd res).1.deferred i =
          w.server.deferred i := by
        rw [hstate]
        dsimp only
        rw [if_neg fun hboth => hdef hboth.1]
        exact freeDeferred?_ne _ (inv.apart hd hctl o ho hwaits i hi)
      exact hfreed.trans (inv.kept o ho hwaits i hi)

end

/-! ## Every run -/

/-- **A step keeps the invariant**: what is owed has its slot, in the state in which `respond`
will find it. -/
theorem Inv.step {h : List (Event cfg)} {w : Owing cfg} (inv : Inv h w) (a : Action) :
    Inv (h ++ (w.next a).2) (w.next a).1 := by
  cases a with
  | call c =>
    by_cases hc : ∃ handle code payload cf, c = .respond handle code payload cf
    · obtain ⟨handle, code, payload, cf, rfl⟩ := hc
      exact inv.responds handle code payload cf
    · exact inv.calls fun handle code payload cf heq => hc ⟨handle, code, payload, cf, heq⟩
  | poll nowMs rx => exact inv.polls nowMs rx
  | handlerReturns res => exact inv.returns res

/-- **Deferred requests are answered only by `respond`, and remain answerable.** In every run, a
request that has a slot when its handler defers is acknowledged if it is Confirmable and nothing
else is sent for it; its slot keeps its remote, its token and its confirmability until `respond` is
called for it; and a bad handle changes nothing. -/
theorem answerable_of_run (cfg : Config) {h : List (Event cfg)} {w : Owing cfg}
    (r : (machine cfg).Run (fun _ _ => True) h w) : Answerable h w := by
  have inv : Inv h w := by
    refine Machine.Run.invariant (I := fun h w => Inv h w) ?_ ?_ r
    · refine ⟨⟨?_, ?_, ?_, ?_, ?_⟩, ?_, ?_, ?_⟩
      case refine_6 => exact fun _ ho => nomatch ho
      case refine_7 => exact fun _ hrun => nomatch hrun
      case refine_8 => exact fun _ hrun => nomatch hrun
      all_goals intros; contradiction
    · exact fun _ inv _ => inv.step _
  exact inv.toAnswerable

/-! ## A full pool -/

/-- A request that is deferred. -/
def deferredRequest (k : UInt8) : List Action :=
  [.poll 0 (some (Deferral.asker 1, Deferral.slowRequest k k)),
    .handlerReturns { deferred := true }]

/-- One request more than there are slots. -/
def fullPool : List Action :=
  [.call (.addResource (some [Uri.slash]) methodGet (some 1) none false)] ++ deferredRequest 1 ++
    deferredRequest 2 ++ deferredRequest 3

theorem answerable_of_run_full :
    Answerable ((machine Config.default).exec [] {} fullPool).1
      ((machine Config.default).exec [] {} fullPool).2 :=
  answerable_of_run Config.default
    (.exec .start (Machine.meets_of_forall (fun _ _ => trivial) _ fullPool))

/-- **A deferred request is answered without `respond`**: the third handler has no slot, and its
result, which the application never meant to send, goes out as 2.05. There are two slots by
default. -/
theorem not_answered_by_respond :
    ∃ (h : List (Event Config.default)) (w : Owing Config.default),
      (machine Config.default).Run (fun _ _ => True) h w ∧ ¬ AnsweredByRespond h w := by
  refine ⟨_, _, .exec .start (Machine.meets_of_forall (fun _ _ => trivial) _ fullPool), ?_⟩
  intro ha
  have hsome : (((machine Config.default).exec [] {} fullPool).1.any fun
      | .deferred hd sent _ => decide (sent ≠ ackOnly Config.default hd)
      | .responded .. => false) = true := by decide +kernel
  obtain ⟨e, hmem, he⟩ := List.any_eq_true.1 hsome
  cases e with
  | deferred hd sent plain => exact of_decide_eq_true he (ha.silent hd sent plain hmem)
  | responded handle before after result sent => cases he

end Owing

end Server

end PulseCoap
