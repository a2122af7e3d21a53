import PulseCoap.Client.Dispatch
import PulseCoap.Server.Subscribers
import PulseCoap.System.Model

/-!
# PulseCoAP — notifications as the client hears them

The server numbers its notifications in the Observe option. The client never looks
at it: a response with the token of a subscription goes to the handler, whatever was
delivered before. So the handler hears what the network brings, a datagram that is
retransmitted or duplicated once more, and an old notification after a new one.

`Watch` is a client and a server with the `notify` calls on one resource and the
payloads one call of the client has been given.

`Watch` notes each successful `notify` with the datagrams that it sent to this
client. The condition is on the network: behind the initial response, what it brings
the subscription is the datagram of a notification that is newer than the last one
heard. The handler then hears what is delivered, one payload for each, and which of
the calls these are is `heard`.

* `notification_brings` — a notification carries the payload of its call, whole.
* `Inv.dispatch` — what the dispatch of a response delivers.
* `delivered_sublist` — when the network neither repeats nor reorders what comes
  after the initial response, the handler hears a part of the calls, in order.
* `not_sublist` — an ACK is lost, and the notification is delivered again.
* `payloads`, `heard` — the calls up to the last one that the client was given.
* `InFlight` — a response that has been polled and not yet dispatched.
-/

namespace PulseCoap

open Client (Fires Fired block2Of)

variable {cfg : Config}

-- ===========================================================================
-- What is watched
-- ===========================================================================

/-- A `notify` call: its payload and what it has sent to the client. -/
structure Notification where
  payload   : Bytes
  datagrams : List Bytes
deriving DecidableEq, Repr

/-- A client and a server, the `notify` calls on a resource, how many of them are
not newer than the last one the client was given, and what was delivered. -/
structure Watch (cfg : Config) where
  sys       : System cfg := {}
  notified  : List Notification := []
  heard     : Nat := 0
  delivered : List Bytes := []

namespace Watch

/-- The successful `notify` call on the resource with index `r` in this step. -/
def notification (link : Link) (r : Nat) (s : Server cfg) : Server.Action → List Notification
  | .call (.notify path payload contentFormat confirmable) =>
    match s.findTarget path with
    | some t =>
      if t.index = r ∧ t.resource.observable = true then
        [{ payload, datagrams := System.serverData link.client
            (s.notify path payload contentFormat confirmable).2.2 }]
      else []
    | none => []
  | _ => []

/-- The payloads that `onResponse` of this call is given. -/
def deliveries (k : Call) (events : List ClientEvent) : List Bytes :=
  events.filterMap fun
    | .response call _ res _ => if call = k then some res.payload else none
    | _ => none

/-- The message gets to `onResponse` of this call. -/
def FiresFor (c : Client cfg) (k : Call) (msg : Message) : Prop :=
  c.Fires msg ∧ ∃ i, c.findPendingByToken msg.token = some i ∧ (c.slots i).pending.call = k

instance (c : Client cfg) (msg : Message) : Decidable (c.Fires msg) :=
  haveI : Decidable (∀ b2, block2Of msg = some b2 → b2.m = false) :=
    inferInstanceAs (Decidable (∀ b2 ∈ block2Of msg, b2.m = false))
  inferInstanceAs (Decidable (_ ∧ _ ∧ _ ∧ ∃ _, _))

instance (c : Client cfg) (k : Call) (msg : Message) : Decidable (FiresFor c k msg) :=
  inferInstanceAs (Decidable (_ ∧ ∃ _, _))

/-- The datagram of a `poll` that gets to `onResponse` of this call. -/
def given (c : Client cfg) (k : Call) : Client.Action → Option Bytes
  | .poll _ (some (_, data)) =>
    match Message.decode cfg data with
    | (.none, msg) => if c.control = .idle ∧ FiresFor c k msg then some data else none
    | _ => none
  | _ => none

/-- The first notification among those not heard of that this datagram brings. -/
def later (w : Watch cfg) (data : Bytes) : Option Nat :=
  (List.range w.notified.length).find? fun n =>
    decide (w.heard ≤ n) && (w.notified[n]?.any fun x => x.datagrams.contains data)

/-- One step, with the call `k` and the resource with index `r` watched. -/
def next (link : Link) (r : Nat) (k : Call) (w : Watch cfg) (a : System.Action) :
    Watch cfg × List System.Event :=
  let sys := w.sys.next link a
  match a with
  | .client a =>
    ({ w with
        sys := sys.1
        heard := ((given w.sys.client k a).bind w.later).elim w.heard (· + 1)
        delivered := w.delivered ++ deliveries k (w.sys.client.step a).2 }, sys.2)
  | .server a =>
    ({ w with sys := sys.1, notified := w.notified ++ notification link r w.sys.server a }, sys.2)

def machine (cfg : Config) (link : Link) (r : Nat) (k : Call) :
    Machine (Watch cfg) System.Action System.Event where
  init := {}
  next := next link r k

/-- Behind the initial response the network brings the subscription one
notification after the other, each at most once. -/
def InOrder (link : Link) (k : Call) (w : Watch cfg) (a : System.Action) : Prop :=
  System.Carried link w.sys a ∧
    match a with
    | .client a => w.delivered ≠ [] → ∀ data ∈ given w.sys.client k a, (w.later data).isSome = true
    | .server _ => True

instance (link : Link) (k : Call) (w : Watch cfg) : ∀ a, Decidable (InOrder link k w a)
  | .client _ => inferInstanceAs (Decidable (_ ∧ (_ → ∀ _ ∈ _, _)))
  | .server _ => inferInstanceAs (Decidable (_ ∧ True))

/-- What the handler was given behind the initial response is a part of what
`notify` was called with, in order. -/
def Ordered (w : Watch cfg) : Prop :=
  w.delivered.tail.Sublist (w.notified.map Notification.payload)

instance (w : Watch cfg) : Decidable w.Ordered := inferInstanceAs (Decidable (List.Sublist _ _))

-- ===========================================================================
-- A notification on the wire
-- ===========================================================================

/-- A message with nothing in it for the block-wise branches. -/
def Plain (msg : Message) : Prop := block2Of msg = none ∧ msg.code ≠ Code.«continue»

/-- What was noted of a `notify` call is in its datagrams. -/
structure Brings (cfg : Config) (x : Notification) : Prop where
  decodes : ∀ data ∈ x.datagrams, ∃ msg, Message.decode cfg data = (.none, msg) ∧ Plain msg ∧
    msg.payloadBytes = x.payload

/-- What `notify` sends an observer brings its payload. -/
theorem pushed_brings {observers : Table cfg.maxObservers Observer}
    (ht : ∀ i, (observers i).token.length ≤ kMaxTokenLen) {sequence : UInt32} {payload : Bytes}
    {contentFormat : ContentFormat} {confirmable : Bool} {n : Fin cfg.maxObservers × UInt16}
    {d : Endpoint × Bytes}
    (h : Server.pushed cfg observers sequence payload contentFormat confirmable n = some d) :
    ∃ msg, Message.decode cfg d.2 = (.none, msg) ∧ Plain msg ∧ msg.payloadBytes = payload := by
  have hcarries := Server.carries_notification cfg (observers n.1) (ht n.1) n.2 sequence payload
    contentFormat confirmable
  obtain ⟨buf, henc, rfl⟩ := Option.map_eq_some_iff.1 h
  obtain ⟨-, rfl⟩ := (Server.encoded_iff hcarries.built buf).1 henc
  obtain ⟨m, hdec, -, -, -, hcode, -, hpayload⟩ := hcarries.decodes
  have hm : m = (Message.decode cfg (Message.wire _)).2 := congrArg Prod.snd hdec.symm
  refine ⟨m, hdec, ⟨?_, ?_⟩, hpayload⟩
  · -- the options are Observe and Content-Format
    cases hfind : m.findOption OptionNumber.block2 with
    | none =>
      unfold Client.block2Of
      rw [hfind]
    | some o =>
      rw [hm] at hfind
      obtain ⟨v, hmem, -⟩ := hcarries.findOption hfind
      rcases List.mem_cons.1 hmem with hmem | hmem
      · exact absurd (congrArg Prod.fst hmem)
          (by decide : OptionNumber.block2 ≠ OptionNumber.observe)
      · exact absurd (congrArg Prod.fst (List.mem_singleton.1 hmem))
          (by decide : OptionNumber.block2 ≠ OptionNumber.contentFormat)
  · rw [hcode]
    exact (by decide : Code.content ≠ Code.«continue»)

/-- **A notification carries the payload of its call**, whole and with no block option, so the
client hands it on as it is. -/
theorem notification_brings {s : Server cfg} (hs : s.TokensFit) (link : Link) (r : Nat)
    (a : Server.Action) : ∀ x ∈ notification link r s a, Brings cfg x := by
  intro x hx
  cases a with
  | call call =>
    cases call with
    | notify path payload contentFormat confirmable =>
      cases hfind : s.findTarget path with
      | some t =>
        simp only [notification, hfind] at hx
        split at hx
        · next hc =>
          rw [List.mem_singleton.1 hx]
          refine ⟨fun data hdata => ?_⟩
          have hsent := System.mem_serverData.1 hdata
          have hd : (link.client, data) ∈ Server.datagrams _ := List.mem_filterMap.2 ⟨_, hsent, rfl⟩
          rw [(Server.Naming.notify_found hfind hc.2 payload contentFormat confirmable).2] at hd
          obtain ⟨n, -, hn⟩ := List.mem_filterMap.1 hd
          exact pushed_brings hs.observers hn
        · cases hx
      | none =>
        simp only [notification, hfind] at hx
        cases hx
    | begin | addResource | setResourceType | respond => cases hx
  | poll | handlerReturns => cases hx

-- ===========================================================================
-- What a step delivers
-- ===========================================================================

/-- Without a response callback nothing is delivered. -/
theorem deliveries_quiet {events : List ClientEvent} (h : ¬ Fired events) (k : Call) :
    deliveries k events = [] := by
  unfold deliveries
  rw [List.filterMap_eq_nil_iff]
  intro e he
  cases e with
  | response call handler res ctx => exact absurd ⟨call, handler, res, ctx, he⟩ h
  | sent | accepted | timeout | discovered => rfl

/-- `onResponse` of one slot. -/
theorem deliveries_fireResponse (c : Client cfg) (i : Fin cfg.maxTransactions)
    (res : ClientResponse) (fragmented : Bool) (k : Call) :
    deliveries k (c.fireResponse i res fragmented).2 = [] ∨
      (c.slots i).pending.call = k ∧
        deliveries k (c.fireResponse i res fragmented).2 = [res.payload] := by
  rw [Client.fireResponse_eq]
  cases (c.slots i).pending.onResponse with
  | none => exact .inl rfl
  | some handler =>
    show deliveries k [_] = [] ∨ _ ∧ deliveries k [_] = _
    unfold deliveries
    by_cases hk : (c.slots i).pending.call = k
    · refine .inr ⟨hk, ?_⟩
      simp only [List.filterMap_cons, List.filterMap_nil, if_pos hk]
    · refine .inl ?_
      simp only [List.filterMap_cons, List.filterMap_nil, if_neg hk]

/-- The slot of a response: a message with nothing for the block-wise branches is
delivered as it is. -/
theorem deliveries_dispatchPending (c : Client cfg) (i : Fin cfg.maxTransactions)
    (sender : Endpoint) (msg : Message) (k : Call) :
    deliveries k (c.dispatchPending i sender msg).2 = [] ∨
      (c.slots i).pending.call = k ∧ ∃ x, deliveries k (c.dispatchPending i sender msg).2 = [x] ∧
        (Plain msg → x = msg.payloadBytes) := by
  have hpending : ∀ up recv, ((c.setBlocks i up recv).slots i).pending = (c.slots i).pending := by
    intro up recv
    show (c.slots.set i _ i).pending = _
    rw [Table.set_self]
  -- whatever is delivered is delivered by `fireResponse` in a client with the same slot
  have hfire : ∀ up recv res fragmented, (Plain msg → res.payload = msg.payloadBytes) →
      deliveries k ((c.setBlocks i up recv).fireResponse i res fragmented).2 = [] ∨
        (c.slots i).pending.call = k ∧
          ∃ x, deliveries k ((c.setBlocks i up recv).fireResponse i res fragmented).2 = [x] ∧
            (Plain msg → x = msg.payloadBytes) := by
    intro up recv res fragmented hpayload
    rcases deliveries_fireResponse (c.setBlocks i up recv) i res fragmented k with h | ⟨hk, h⟩
    · exact .inl h
    · exact .inr ⟨by rw [← hk, hpending], _, h, hpayload⟩
  by_cases hb : cfg.enableBlockwise = true
  · by_cases hcont : msg.code = Code.«continue» ∧ (c.slots i).upload.active = true
    · refine .inl ?_
      unfold Client.dispatchPending
      rw [if_pos hb, if_pos hcont]
      rfl
    · cases h2 : block2Of msg with
      | none =>
        rw [Client.dispatchPending_plain hb hcont h2]
        exact hfire _ _ _ _ fun _ => rfl
      | some b2 =>
        rw [Client.dispatchPending_fragment hb hcont h2]
        dsimp only
        split
        · exact .inl rfl
        · exact hfire _ _ _ _ fun hplain => nomatch h2.symm.trans hplain.1
  · unfold Client.dispatchPending
    rw [if_neg hb]
    have h := hfire (c.slots i).upload (c.slots i).recv
      { code := msg.code, payload := msg.payloadBytes, contentFormat := Client.responseFormat msg }
      false fun _ => rfl
    rwa [Client.setBlocks_self] at h

/-- **What the dispatch of a response delivers** to one call: nothing, or one payload, which is
that of the message if it has no block option. -/
theorem deliveries_dispatch (c : Client cfg) (sender : Endpoint) {msg : Message}
    (hrst : msg.type ≠ .reset) (hcode : msg.code ≠ Code.empty ∧ !isMethodCode msg.code) (k : Call) :
    deliveries k (c.dispatchResponse sender msg).2 = [] ∨
      FiresFor c k msg ∧ ∃ x, deliveries k (c.dispatchResponse sender msg).2 = [x] ∧
        (Plain msg → x = msg.payloadBytes) := by
  by_cases hfires : c.Fires msg
  · rcases Client.dispatchResponse_cases c sender msg with ⟨j, hj, heq⟩ | ⟨j, -, hj, heq⟩ |
      ⟨-, hj, heq⟩
    · exact nomatch hfires.2.2.1.symm.trans hj
    · rw [heq]
      rcases deliveries_dispatchPending c j sender msg k with h | ⟨hk, x, hx, hplain⟩
      · exact .inl h
      · exact .inr ⟨⟨hfires, j, hj, hk⟩, x, hx, hplain⟩
    · obtain ⟨-, -, -, i, hi, -⟩ := hfires
      exact nomatch hi.symm.trans hj
  · exact .inl (deliveries_quiet
      (fun h => hfires ((Client.dispatchResponse_fired c sender hrst hcode).1 h)) k)

theorem ackEvents_not_fired (cfg : Config) (sender : Endpoint) (msg : Message) (ackOk : Bool) :
    ¬ Fired (Client.ackEvents cfg sender msg ackOk) := by
  unfold Client.ackEvents
  split
  · split
    · exact Client.not_fired_sent _ _
    · exact Client.not_fired_nil
  · exact Client.not_fired_nil

-- ===========================================================================
-- The invariant
-- ===========================================================================

/-- The payloads of the first `n` calls. -/
def payloads (w : Watch cfg) (n : Nat) : List Bytes := (w.notified.take n).map Notification.payload

/-- The response that is about to be dispatched to `k` is notification `n`, the
last one heard, and what was delivered is of earlier ones. -/
structure InFlight (w : Watch cfg) (msg : Message) (n : Nat) : Prop where
  plain   : Plain msg
  heard   : w.heard = n + 1
  payload : (w.notified[n]?).map Notification.payload = some msg.payloadBytes
  before  : w.delivered.tail.Sublist (w.payloads n)

/-- At a dispatch: what is known of the message. -/
def Flight (k : Call) (w : Watch cfg) : Control cfg → Prop
  | .polling (.dispatch _ msg) b => b = false ∧ msg.type ≠ .reset ∧
    (msg.code ≠ Code.empty ∧ !isMethodCode msg.code) ∧
      (FiresFor w.sys.client k msg → w.delivered ≠ [] → ∃ n, w.InFlight msg n)
  | _ => True

/-- What a run in order keeps. -/
structure Inv (k : Call) (w : Watch cfg) : Prop where
  tokens  : w.sys.server.TokensFit
  brings  : ∀ x ∈ w.notified, Brings cfg x
  heard   : w.heard ≤ w.notified.length
  ordered : w.delivered.tail.Sublist (w.payloads w.heard)
  flight  : Flight k w w.sys.client.control

/-- Behind the dispatch nothing is in flight. -/
theorem flight_of_past {k : Call} {w : Watch cfg} {c : Client cfg} (h : c.Past) :
    Flight k w c.control := by
  cases hctl : c.control with
  | idle => trivial
  | polling cont b =>
    have hcont := h cont b hctl
    cases cont with
    | dispatch sender msg => cases hcont
    | block1 | block2 | close | expire | tick | ret => trivial

theorem payloads_mono (w : Watch cfg) {n m : Nat} (h : n ≤ m) :
    (w.payloads n).Sublist (w.payloads m) := by
  unfold payloads
  rw [← Nat.min_eq_left h, ← List.take_take]
  exact (List.take_sublist _ _).map _

/-- The first `n + 1` payloads end with that of call `n`. -/
theorem payloads_succ {w : Watch cfg} {n : Nat} {x : Bytes}
    (h : (w.notified[n]?).map Notification.payload = some x) :
    w.payloads (n + 1) = w.payloads n ++ [x] := by
  obtain ⟨y, hy, rfl⟩ := Option.map_eq_some_iff.1 h
  unfold payloads
  rw [List.take_add_one, hy, List.map_append]
  rfl

/-- The notification a datagram is of: one not heard before, among whose datagrams it is. -/
theorem later_spec {w : Watch cfg} {data : Bytes} {n : Nat} (h : w.later data = some n) :
    w.heard ≤ n ∧ ∃ x, w.notified[n]? = some x ∧ data ∈ x.datagrams := by
  have hp := List.find?_some h
  rw [Bool.and_eq_true, decide_eq_true_eq, Option.any_eq_true] at hp
  obtain ⟨hle, x, hx, hdata⟩ := hp
  exact ⟨hle, x, hx, List.contains_iff_mem.1 hdata⟩

-- ===========================================================================
-- Steps
-- ===========================================================================

/-- A step of the server only adds to the calls. -/
theorem Inv.server {link : Link} {r : Nat} {k : Call} {w : Watch cfg} (inv : Inv k w)
    (a : Server.Action) : Inv k (w.next link r k (.server a)).1 := by
  -- what has been heard is a front of the calls, and a front does not change
  have hpayloads : ∀ n ≤ w.heard, (w.next link r k (.server a)).1.payloads n = w.payloads n := by
    intro n hn
    show ((w.notified ++ _).take n).map _ = _
    rw [List.take_append_of_le_length (hn.trans inv.heard)]
    rfl
  refine ⟨inv.tokens.step a, fun x hx => ?_, ?_, ?_, ?_⟩
  · rcases List.mem_append.1 hx with hx | hx
    · exact inv.brings x hx
    · exact notification_brings inv.tokens link r a x hx
  · exact inv.heard.trans (by
      show _ ≤ (w.notified ++ _).length
      rw [List.length_append]
      omega)
  · show w.delivered.tail.Sublist (Watch.payloads _ w.heard)
    rw [hpayloads _ (Nat.le_refl _)]
    exact inv.ordered
  · have hflight := inv.flight
    show Flight k _ w.sys.client.control
    cases hctl : w.sys.client.control with
    | idle => trivial
    | polling cont b =>
      rw [hctl] at hflight
      cases cont with
      | dispatch sender msg =>
        obtain ⟨hb, hrst, hcode, hfires⟩ := hflight
        refine ⟨hb, hrst, hcode, fun hf hne => ?_⟩
        obtain ⟨n, hin⟩ := hfires hf hne
        have hn := hin.heard
        refine ⟨n, hin.plain, hin.heard, ?_, ?_⟩
        · show ((w.notified ++ _)[n]?).map _ = _
          rw [List.getElem?_append_left (by have := inv.heard; omega)]
          exact hin.payload
        · rw [hpayloads _ (by omega)]
          exact hin.before
      | block1 | block2 | close | expire | tick | ret => trivial

/-- The dispatch: a notification is delivered behind the earlier ones. -/
theorem Inv.dispatch {link : Link} {r : Nat} {k : Call} {w : Watch cfg} (inv : Inv k w)
    {sender : Endpoint} {msg : Message} {b : Bool}
    (hctl : w.sys.client.control = .polling (.dispatch sender msg) b) (sendOk : Bool) :
    Inv k (w.next link r k (.client (.resume sendOk))).1 := by
  have hflight := inv.flight
  rw [hctl] at hflight
  obtain ⟨-, hrst, hcode, hfires⟩ := hflight
  have hstep : w.sys.client.step (.resume sendOk) =
      ((w.sys.client.dispatchResponse sender msg).1,
        Client.ackEvents cfg sender msg sendOk ++ (w.sys.client.dispatchResponse sender msg).2) :=
    Client.step_resume hctl sendOk
  -- the ACK before the dispatch hands nothing over
  have hdelivered : deliveries k (w.sys.client.step (.resume sendOk)).2 =
      deliveries k (w.sys.client.dispatchResponse sender msg).2 := by
    rw [hstep]
    show (Client.ackEvents cfg sender msg sendOk ++ _).filterMap _ = _
    have hack : deliveries k (Client.ackEvents cfg sender msg sendOk) = [] :=
      deliveries_quiet (ackEvents_not_fired cfg sender msg sendOk) k
    rw [List.filterMap_append]
    exact congrArg (· ++ _) hack
  have hpast : (w.sys.client.step (.resume sendOk)).1.Past := by
    rw [hstep]
    exact Client.dispatchResponse_past w.sys.client sender msg
  refine ⟨inv.tokens, inv.brings, inv.heard, ?_, flight_of_past hpast⟩
  show (w.delivered ++ deliveries k (w.sys.client.step (.resume sendOk)).2).tail.Sublist
    (w.payloads w.heard)
  rw [hdelivered]
  -- the response is another call's, or it is handed to this one
  rcases deliveries_dispatch w.sys.client sender hrst hcode k with h | ⟨hf, x, hx, hplain⟩
  · rw [h, List.append_nil]
    exact inv.ordered
  · rw [hx]
    by_cases hne : w.delivered = []
    · -- the initial response
      rw [hne]
      exact List.nil_sublist _
    · -- the datagram is one whose call comes after all that was heard
      obtain ⟨n, hin⟩ := hfires hf hne
      rw [List.tail_append_of_ne_nil hne, hin.heard, payloads_succ hin.payload,
        hplain hin.plain]
      exact hin.before.append (List.Sublist.refl _)

/-- A step that runs no `onResponse` delivers nothing. -/
theorem Inv.quiet {link : Link} {r : Nat} {k : Call} {w : Watch cfg} (inv : Inv k w)
    {a : Client.Action} (hquiet : ¬ Fired (w.sys.client.step a).2)
    (hflight : Flight k (w.next link r k (.client a)).1 (w.sys.client.step a).1.control) :
    Inv k (w.next link r k (.client a)).1 := by
  have hsame : (w.next link r k (.client a)).1.delivered = w.delivered := by
    show w.delivered ++ deliveries k _ = _
    rw [deliveries_quiet hquiet, List.append_nil]
  have hheard : w.heard ≤ (w.next link r k (.client a)).1.heard ∧
      (w.next link r k (.client a)).1.heard ≤ w.notified.length := by
    show w.heard ≤ Option.elim _ _ _ ∧ Option.elim _ _ _ ≤ _
    cases hlater : (given w.sys.client k a).bind w.later with
    | none => exact ⟨Nat.le_refl _, inv.heard⟩
    | some n =>
      obtain ⟨data, -, hn⟩ := Option.bind_eq_some_iff.1 hlater
      obtain ⟨hle, x, hx, -⟩ := later_spec hn
      have hlt := (List.getElem?_eq_some_iff.1 hx).1
      exact ⟨Nat.le_succ_of_le hle, hlt⟩
  refine ⟨inv.tokens, inv.brings, hheard.2, ?_, hflight⟩
  rw [hsame]
  exact inv.ordered.trans (payloads_mono w hheard.1)

theorem firesFor_congr {c c' : Client cfg} (hslots : c'.slots = c.slots)
    (hdisc : c'.discovers = c.discovers) (k : Call) (msg : Message) :
    FiresFor c' k msg ↔ FiresFor c k msg := by
  unfold FiresFor Client.findPendingByToken
  rw [Client.fires_congr hslots hdisc, hslots]

/-- What a `poll` can be: it ends its reading of the network, or is about to dispatch. -/
theorem poll_flight (c : Client cfg) (nowMs : UInt32) (rx : Option (Endpoint × Bytes)) :
    ¬ Fired (c.poll nowMs rx).2 ∧ ((c.poll nowMs rx).1.Past ∨
      ∃ sender data msg, rx = some (sender, data) ∧ Message.decode cfg data = (.none, msg) ∧
        msg.type ≠ .reset ∧ (msg.code ≠ Code.empty ∧ !isMethodCode msg.code) ∧
        (c.poll nowMs rx).1.control = .polling (.dispatch sender msg) false ∧
        (c.poll nowMs rx).1.slots = c.slots ∧ (c.poll nowMs rx).1.discovers = c.discovers) := by
  rcases Client.poll_cases c nowMs rx with heq | ⟨sender, data, msg, rfl, hdec, heq⟩
  · rw [heq]
    exact ⟨Client.not_fired_nil, .inl (Client.past_at _ rfl _)⟩
  · rw [heq]
    -- a reset ends a request, anything else is acknowledged or dispatched
    by_cases hrst : msg.type = .reset
    · rw [show (c.atTime nowMs).handleMessage sender msg =
        (c.atTime nowMs).handleReset sender msg.messageId from if_pos hrst]
      rcases Client.handleReset_cases (c.atTime nowMs) sender msg.messageId with
        heq | ⟨t, i, -, -, heq⟩
      · rw [heq]
        exact ⟨Client.not_fired_nil, .inl (Client.past_at _ rfl _)⟩
      · rw [heq]
        obtain ⟨hquiet, hpast⟩ := Client.fireTimeout_past
          (((c.atTime nowMs).completed sender msg.messageId).release i)
          (c.transactions t).owner (c.slots i).pending.userContext (k := .ret) rfl
        exact ⟨hquiet, .inl hpast⟩
    · obtain ⟨c', hslots, hdisc, heq⟩ := Client.handleMessage_other (c.atTime nowMs) sender hrst
      rw [heq]
      split
      · next hcode =>
        exact ⟨Client.not_fired_nil, .inr ⟨sender, data, msg, rfl, hdec, hrst, hcode, rfl, hslots,
          hdisc⟩⟩
      · exact ⟨Client.not_fired_nil, .inl (Client.past_at c' rfl false)⟩

/-- A `poll` hears the next notification, or none. -/
theorem Inv.poll {link : Link} {r : Nat} {k : Call} {w : Watch cfg} (inv : Inv k w)
    {nowMs : UInt32} {rx : Option (Endpoint × Bytes)} (hidle : w.sys.client.control = .idle)
    (horder : w.delivered ≠ [] → ∀ data ∈ given w.sys.client k (.poll nowMs rx),
      (w.later data).isSome = true) :
    Inv k (w.next link r k (.client (.poll nowMs rx))).1 := by
  have hstep : w.sys.client.step (.poll nowMs rx) = w.sys.client.poll nowMs rx := by
    simp only [Client.step, hidle]
  obtain ⟨hquiet, hpast | ⟨sender, data, msg, rfl, hdec, hrst, hcode, hctl, hslots, hdisc⟩⟩ :=
    poll_flight w.sys.client nowMs rx
  · exact inv.quiet (by rwa [hstep]) (flight_of_past (by rwa [hstep]))
  refine inv.quiet (by rwa [hstep]) ?_
  rw [hstep, hctl]
  refine ⟨rfl, hrst, hcode, fun hf hne => ?_⟩
  -- the client has the same slots as before it read the datagram
  have hf' : FiresFor w.sys.client k msg := by
    refine (firesFor_congr hslots hdisc k msg).1 ?_
    rw [← hstep]
    exact hf
  have hgiven : given w.sys.client k (.poll nowMs (some (sender, data))) = some data := by
    unfold given
    simp only [hdec]
    rw [if_pos ⟨hidle, hf'⟩]
  have hsame : (w.next link r k (.client (.poll nowMs (some (sender, data))))).1.delivered =
      w.delivered := by
    show w.delivered ++ deliveries k _ = _
    rw [deliveries_quiet (by rwa [hstep]), List.append_nil]
  rw [hsame] at hne
  obtain ⟨n, hn⟩ := Option.isSome_iff_exists.1 (horder hne data hgiven)
  obtain ⟨hle, x, hx, hdata⟩ := later_spec hn
  obtain ⟨msg', hdec', hplain, hpayload⟩ :=
    (inv.brings x (List.mem_of_getElem? hx)).decodes data hdata
  obtain rfl : msg = msg' := (Prod.mk.inj (hdec.symm.trans hdec')).2
  refine ⟨n, hplain, ?_, ?_, ?_⟩
  · show Option.elim _ _ _ = n + 1
    rw [hgiven, Option.bind_some, hn, Option.elim_some]
  · show (w.notified[n]?).map _ = _
    rw [hx, Option.map_some, hpayload]
  · rw [hsame]
    exact inv.ordered.trans (payloads_mono w hle)

/-- Inside a poll no other datagram is taken. -/
theorem given_busy {c : Client cfg} {k : Call} (hbusy : c.control ≠ .idle) (nowMs : UInt32)
    (rx : Option (Endpoint × Bytes)) : given c k (.poll nowMs rx) = none := by
  unfold given
  split
  · split
    · rw [if_neg fun h => hbusy h.1]
    · rfl
  · rfl

/-- A step that cannot be taken now. -/
theorem Inv.stuck {link : Link} {r : Nat} {k : Call} {w : Watch cfg} (inv : Inv k w)
    {a : Client.Action} (hstep : w.sys.client.step a = (w.sys.client, []))
    (hgiven : given w.sys.client k a = none) : Inv k (w.next link r k (.client a)).1 := by
  have hnext : (w.next link r k (.client a)).1 =
      { w with sys := (w.sys.next link (.client a)).1 } := by
    unfold next
    simp only [hgiven, hstep, Option.bind_none, Option.elim_none]
    rw [show deliveries k [] = [] from rfl, List.append_nil]
  have hclient : (w.sys.next link (.client a)).1.client = w.sys.client := congrArg Prod.fst hstep
  rw [hnext]
  refine ⟨inv.tokens, inv.brings, inv.heard, inv.ordered, ?_⟩
  show Flight k _ (w.sys.next link (.client a)).1.client.control
  rw [hclient]
  have hflight := inv.flight
  cases hctl : w.sys.client.control with
  | idle => trivial
  | polling cont b =>
    rw [hctl] at hflight
    cases cont with
    | dispatch sender msg =>
      obtain ⟨hb, hrst, hcode, hfires⟩ := hflight
      refine ⟨hb, hrst, hcode, fun hf hne => ?_⟩
      rw [hclient] at hf
      obtain ⟨n, hin⟩ := hfires hf hne
      exact ⟨n, hin.plain, hin.heard, hin.payload, hin.before⟩
    | block1 | block2 | close | expire | tick | ret => trivial

/-- **A step keeps the invariant**: what was delivered is a part of what was notified, in order.
A new notification comes behind the others, and a delivery takes a later one than the last. -/
theorem Inv.step {link : Link} {r : Nat} {k : Call} {w : Watch cfg} (inv : Inv k w)
    {a : System.Action} (ha : InOrder link k w a) : Inv k (w.next link r k a).1 := by
  cases a with
  | server a => exact inv.server a
  | client a =>
    -- a response that waits for its dispatch, or not
    by_cases hpast : w.sys.client.Past
    · cases a with
      | poll nowMs rx =>
        cases hctl : w.sys.client.control with
        | idle => exact inv.poll hctl ha.2
        | polling cont b =>
          -- the application cannot poll inside `poll`
          have hstep : w.sys.client.step (.poll nowMs rx) = (w.sys.client, []) := by
            simp only [Client.step, hctl]
          refine inv.quiet ?_ (flight_of_past ?_) <;> rw [hstep]
          · exact Client.not_fired_nil
          · exact hpast
      | call call sendOk =>
        obtain ⟨hquiet, hpast⟩ := hpast.step (a := .call call sendOk) (by rintro _ _ ⟨⟩)
        exact inv.quiet hquiet (flight_of_past hpast)
      | resume sendOk =>
        obtain ⟨hquiet, hpast⟩ := hpast.step (a := .resume sendOk) (by rintro _ _ ⟨⟩)
        exact inv.quiet hquiet (flight_of_past hpast)
    · -- only the code of `poll` can go on
      obtain ⟨sender, msg, b, hctl⟩ : ∃ sender msg b,
          w.sys.client.control = .polling (.dispatch sender msg) b := by
        unfold Client.Past at hpast
        push Not at hpast
        obtain ⟨cont, b, hctl, hcont⟩ := hpast
        cases cont with
        | dispatch sender msg => exact ⟨sender, msg, b, hctl⟩
        | block1 | block2 | close | expire | tick | ret => exact absurd rfl hcont
      -- `poll` has not called back yet, so neither a call nor a `poll` can come between
      have hb : b = false := by
        have hflight := inv.flight
        rw [hctl] at hflight
        exact hflight.1
      subst hb
      cases a with
      | resume sendOk => exact inv.dispatch hctl sendOk
      | call call sendOk =>
        have hstep : w.sys.client.step (.call call sendOk) = (w.sys.client, []) := by
          simp only [Client.step, Client.appHasControl, hctl, Bool.false_eq_true, if_false]
        exact inv.stuck hstep rfl
      | poll nowMs rx =>
        have hstep : w.sys.client.step (.poll nowMs rx) = (w.sys.client, []) := by
          simp only [Client.step, hctl]
        refine inv.stuck hstep (given_busy ?_ nowMs rx)
        rw [hctl]
        rintro ⟨⟩

theorem inv_init (cfg : Config) (link : Link) (r : Nat) (k : Call) :
    Inv k (machine cfg link r k).init where
  tokens := ⟨fun _ => Nat.zero_le _, fun _ => Nat.zero_le _⟩
  brings _ hx := nomatch hx
  heard := Nat.le_refl _
  ordered := .slnil
  flight := trivial

/-- **The handler hears a part of the `notify` calls, in order**, when the network brings the
client its notifications in order and none of them twice. Any of them may be lost. -/
theorem delivered_sublist {link : Link} {r : Nat} {k : Call} {h : List System.Event} {w : Watch cfg}
    (run : (machine cfg link r k).Run (InOrder link k) h w) : w.Ordered := by
  have inv : Inv k w := Machine.Run.invariant (I := fun _ w => Inv k w) (inv_init cfg link r k)
    (fun _ inv ha => inv.step ha) run
  exact inv.ordered.trans ((List.take_sublist _ _).map _)

def watchLink : Link := { client := { port := 1 }, server := { port := 2 } }

/-- The call of the subscription. -/
def subscription : Call := { kind := .observe, confirmable := true }

def watched : Machine (Watch .default) System.Action System.Event :=
  machine .default watchLink 0 subscription

/-- The client is given a datagram of the server and returns from `poll`. -/
def hear (data : Bytes) : List System.Action :=
  .client (.poll 20 (some (watchLink.server, data))) :: List.replicate 8 (.client (.resume true))

/-- A subscription to `/a` with its initial response, and two notifications, the
first of them Confirmable. -/
def subscribed : List System.Action :=
  [.server (.call (.addResource (some [0x2F, 0x61]) methodGet (some 5) none true)),
    .client (.call (.observe watchLink.server [0x2F, 0x61] (some 1) none) true),
    .server (.poll 10 (some (watchLink.client, [0x41, 0x01, 0x00, 0x01, 0x01, 0x60, 0x51, 0x61]))),
    .server (.handlerReturns { payload := [0x30] })] ++
  hear [0x61, 0x45, 0x00, 0x01, 0x01, 0x60, 0x60, 0xFF, 0x30] ++
  [.server (.call (.notify [0x2F, 0x61] [0x31] .textPlain true)),
    .server (.call (.notify [0x2F, 0x61] [0x32] .textPlain false))]

def firstSent : Bytes := [0x41, 0x45, 0x00, 0x01, 0x01, 0x61, 0x01, 0x60, 0xFF, 0x31]
def secondSent : Bytes := [0x51, 0x45, 0x00, 0x02, 0x01, 0x61, 0x02, 0x60, 0xFF, 0x32]

theorem delivered_sublist_both :
    (watched.exec [] {} (subscribed ++ hear firstSent ++ hear secondSent)).2.delivered =
        [[0x30], [0x31], [0x32]] ∧
      (watched.exec [] {} (subscribed ++ hear firstSent ++ hear secondSent)).2.Ordered :=
  ⟨by decide +kernel, delivered_sublist (Machine.Run.start.exec (by decide +kernel))⟩

/-- **The first notification is delivered again, after the second**: its ACK was lost, and the
client does not look at the Observe option. The retransmission is under the message ID of the
first. -/
theorem not_sublist :
    ¬ ∀ h w, watched.Run (fun w a => System.Carried watchLink w.sys a) h w → w.Ordered := by
  intro hall
  have hrun : watched.Run (fun w a => System.Carried watchLink w.sys a) _
      (watched.exec [] {} (subscribed ++ hear firstSent ++ hear secondSent ++ hear firstSent)).2 :=
    Machine.Run.start.exec (by decide +kernel)
  exact absurd (hall _ _ hrun) (by decide +kernel)

end Watch

end PulseCoap
