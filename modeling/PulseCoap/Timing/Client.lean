import PulseCoap.Timing.Pool
import PulseCoap.Client.Spec

/-!
# PulseCoAP — the client's timers and the moment of the call

The client in real time: a call is made at `tau`, a poll at `t`, and neither
comes before the poll before it. What the code does with its timers is read off
the tables and the callbacks, as `Timing.Event`s.

The two notions of time are kept apart. `OnTime` is about the moment of the call
and is what a caller can see; `Punctual` is about the times at which the code
reads its clock. That the second gives the first is an invariant: every entry of
a table counts from `lastNowMs_`, which was the time of the last poll when its
call was made. Three segments look at a timer, and each of them gets a lemma;
all others are `Calm`.

* `Timed.Punctual` — when the code keeps the time of the call, stated on the
  times of the calls and the polls.
* `Timed.on_time_of_run` — under it every event is on time.
* `Inv.step` — what one step preserves.
* `call_calm`, `poll_calm`, `resume_calm` — the steps that end nothing.
-/

namespace PulseCoap.Client

open TransactionPool Timing
open Pool (clock)

variable {cfg : Config}

/-! ## The client in real time -/

/-- A client, when it was last polled (0 before the first poll) and last used,
and the calls that made the entries of its tables. -/
structure Timed (cfg : Config) where
  client   : Client cfg := {}
  pollTime : Nat := 0
  latest   : Nat := 0
  sentBy   : Stamps cfg.maxTransactions := fun _ => none
  openedBy : Stamps cfg.maxDiscovers := fun _ => none

/-- The discover slot whose handler the next step fires, if it fires one. It is found by the
token, before the pending slots are looked at. -/
def firing (c : Client cfg) : Option (Fin cfg.maxDiscovers) :=
  match c.control with
  | .polling (.dispatch _ msg) _ => c.findDiscover msg.token
  | _ => none

/-- The discover handlers called in a step, with the call the discovery was made by. Nothing is
known of a slot that no call has stamped. -/
def foundBy (events : List ClientEvent) (known : Option Stamp) (time : Nat) : List Event :=
  events.filterMap fun e =>
    match e with
    | .discovered .. => known.map fun st => .found st.call time
    | _ => none

namespace Timed

/-- What happens, and when. -/
inductive Action where
  | call (tau : Nat) (call : ClientCall) (sendOk : Bool)
  | poll (t : Nat) (rx : Option (Endpoint × Bytes))
  | resume (sendOk : Bool)
deriving DecidableEq, Repr

/-- After a step of the client to `r`; entries it made belong to `stamp`. Its events are read
off the tables before and after it. -/
def advance (s : Timed cfg) (r : Client cfg × List ClientEvent) (stamp : Option Stamp) :
    Timed cfg × List Event :=
  ({ s with
      client := r.1
      sentBy := s.sentBy.after waits s.client.transactions r.1.transactions stamp
      openedBy := s.openedBy.after (·.active) s.client.discovers r.1.discovers stamp },
    eventsFor (fun i => sentAgain (s.client.transactions i) (r.1.transactions i)) s.sentBy
        (fun st => .retransmitted st.call s.pollTime) ++
      eventsFor (fun i => (s.client.discovers i).active && !(r.1.discovers i).active) s.openedBy
        (fun st => .expired st.call s.pollTime) ++
      foundBy r.2 ((firing s.client).bind s.openedBy) s.pollTime)

/-- One step. -/
def next (s : Timed cfg) : Action → Timed cfg × List Event
  | .call tau call sendOk =>
    { s with latest := max s.latest tau }.advance (s.client.step (.call call sendOk))
      (some ⟨tau, s.pollTime⟩)
  | .poll t rx =>
    if s.client.control = .idle then
      { s with pollTime := t, latest := t }.advance (s.client.step (.poll (clock t) rx)) none
    else (s, [])
  | .resume sendOk => s.advance (s.client.step (.resume sendOk)) none

/-- The client in real time as a machine. -/
def machine (cfg : Config) : Machine (Timed cfg) Action Event where
  init := {}
  next := next

/-- A call does not come before the last poll, a poll not before the last call. Nothing bounds
the time in between. -/
def InOrder (s : Timed cfg) : Action → Prop
  | .call tau _ _ => s.pollTime ≤ tau
  | .poll t _ => s.latest ≤ t
  | .resume _ => True

instance (s : Timed cfg) : ∀ a, Decidable (s.InOrder a)
  | .call _ _ _ => inferInstanceAs (Decidable (_ ≤ _))
  | .poll _ _ => inferInstanceAs (Decidable (_ ≤ _))
  | .resume _ => inferInstanceAs (Decidable True)

/-! ## When the client keeps the time of the call -/

/-- The next slot of the scan is not reached early: if its deadline has come on the code's
clock, it has come since the call as well. -/
def ScanEarly (s : Timed cfg) (index : Nat) : Prop :=
  ∀ h : index < cfg.maxTransactions,
    Early cfg s.pollTime (s.sentBy ⟨index, h⟩) (s.client.transactions ⟨index, h⟩)

/-- A discovery younger than `PULSECOAP_DISCOVER_TIMEOUT_MS` is so from the poll
before the call on as well. -/
def ExpiryFresh (s : Timed cfg) : Prop :=
  ∀ i, ∀ st ∈ s.openedBy i, (s.client.discovers i).active = true →
    s.pollTime - st.call < cfg.discoverTimeoutMs.toNat →
    (st.elapsed s.pollTime).toNat < cfg.discoverTimeoutMs.toNat

/-- The response the poll received comes for a discovery younger than
`PULSECOAP_DISCOVER_TIMEOUT_MS`, when it comes for an open one. -/
def ResponseInTime (s : Timed cfg) : Prop :=
  ∀ i, firing s.client = some i → ∀ st ∈ s.openedBy i,
    s.pollTime - st.call < cfg.discoverTimeoutMs.toNat

/-- **The condition**, where `poll` has come to the dispatch, to the expiry of
the discoveries or to a slot of its scan. -/
def Punctual (s : Timed cfg) : Action → Prop
  | .resume _ =>
    match s.client.control with
    | .polling (.dispatch _ _) _ => s.ResponseInTime
    | .polling .expire _ => s.ExpiryFresh
    | .polling (.tick index) _ => s.ScanEarly index
    | _ => True
  | _ => True

instance (s : Timed cfg) (index : Nat) : Decidable (s.ScanEarly index) :=
  inferInstanceAs (Decidable (∀ _ : index < cfg.maxTransactions, _))

instance (s : Timed cfg) : Decidable s.ExpiryFresh :=
  inferInstanceAs (Decidable (∀ i, ∀ st ∈ s.openedBy i, _ → _ → _))

instance (s : Timed cfg) : Decidable s.ResponseInTime :=
  inferInstanceAs (Decidable (∀ i, _ → ∀ st ∈ s.openedBy i, _))

instance (s : Timed cfg) (a : Action) : Decidable (s.Punctual a) := by
  unfold Punctual
  split
  · split <;> infer_instance
  · infer_instance

end Timed

/-! ## Steps outside the expiry and the scan -/

/-- A step that frees no discovery and sends nothing again; what it adds counts from the
client's clock. All steps but the expiry and the scan are calm. -/
structure Calm (c c' : Client cfg) : Prop where
  clock     : c'.lastNowMs = c.lastNowMs
  pool      : ∀ i, Moves cfg c.lastNowMs (c.transactions i) (c'.transactions i)
  discovers : ∀ i, c'.discovers i = c.discovers i ∨
    ((c.discovers i).active = false ∧ (c'.discovers i).issuedAt = c.lastNowMs)

/-- The fields it is about. -/
theorem calm_of_eq {c c' : Client cfg} (hclock : c'.lastNowMs = c.lastNowMs)
    (hpool : c'.transactions = c.transactions) (hdisc : c'.discovers = c.discovers) :
    Calm c c' where
  clock := hclock
  pool i := .kept (by rw [hpool])
  discovers i := .inl (by rw [hdisc])

/-- Starting one transaction. Its deadline counts from the client's clock, which is that of the
last poll. -/
theorem calm_of_start {c c' : Client cfg} (hclock : c'.lastNowMs = c.lastNowMs)
    {remote : Endpoint} {messageId : UInt16} {token message : Bytes} {owner : Call}
    (hpool : c'.transactions =
      (c.transactions.start remote messageId token message c.lastNowMs owner).1)
    (hdisc : c'.discovers = c.discovers) : Calm c c' where
  clock := hclock
  pool i := by
    rw [hpool]
    exact moves_start ..
  discovers i := .inl (by rw [hdisc])

/-- An ACK or an RST frees a transaction, and moves no deadline. -/
theorem calm_completed (c : Client cfg) (remote : Endpoint) (messageId : UInt16)
    {c' : Client cfg} (hclock : c'.lastNowMs = c.lastNowMs)
    (hpool : c'.transactions = (c.completed remote messageId).transactions)
    (hdisc : c'.discovers = c.discovers) : Calm c c' where
  clock := hclock
  pool i := by
    rw [hpool]
    exact moves_complete ..
  discovers i := .inl (by rw [hdisc])

/-- None of these is a call of a discover handler. -/
def NoneFound (events : List ClientEvent) : Prop :=
  ∀ e ∈ events, ∀ h server payload ctx, e ≠ .discovered h server payload ctx

/-- A request is stamped with the time of the last poll. If that was long ago, the first
retransmission comes early. -/
theorem issue_calm (c : Client cfg) {a : RequestArgs} (sendOk : Bool)
    (hk : a.blockwise cfg = true → a.markObserving = false) :
    Calm c (c.issue a sendOk).1 ∧ NoneFound (c.issue a sendOk).2.2 := by
  rcases issue_cases c a sendOk hk with ⟨-, c', hrefused, heq⟩ | ⟨-, i, s, buf, -, -, -, heq⟩
  · rw [heq]
    refine ⟨calm_of_eq hrefused.lastNowMs hrefused.transactions hrefused.discovers, ?_⟩
    intro e he
    cases he
  · rw [heq]
    refine ⟨?_, ?_⟩
    · by_cases hrel : a.reliable cfg = true
      · exact calm_of_start rfl (if_pos hrel) rfl
      · exact calm_of_eq rfl (if_neg hrel) rfl
    · intro e he
      simp only [List.mem_cons, List.not_mem_nil, or_false] at he
      rcases he with rfl | rfl
      · exact nofun
      · exact nofun

/-- **A call** changes no deadline that is already there, and finds no discovery. -/
theorem call_calm (c : Client cfg) (sendOk : Bool) (call : ClientCall) :
    Calm c (c.call sendOk call).1 ∧ NoneFound (c.call sendOk call).2.2 := by
  have hnil : NoneFound [] := fun e he => nomatch he
  rw [call_eq]
  cases hs : call.shape with
  | issue a => exact c.issue_calm sendOk (shape_blockwise hs)
  | cancel server path =>
    dsimp only
    cases ho : c.findObserve server path with
    | none => exact ⟨calm_of_eq rfl rfl rfl, hnil⟩
    | some i =>
      -- the slot given back has no timer
      obtain ⟨hcalm, hnone⟩ :=
        (c.release i).issue_calm (a := deregisterArgs server path (c.slots i).pending) sendOk
          (by simp [deregister_blockwise])
      exact ⟨⟨hcalm.clock, hcalm.pool, hcalm.discovers⟩, hnone⟩
  | discover ep onDiscover userContext =>
    dsimp only
    rcases discover_cases c ep onDiscover userContext sendOk with
      ⟨token, id, heq, -⟩ | ⟨i, buf, hi, -, heq⟩
    · rw [heq]
      exact ⟨calm_of_eq rfl rfl rfl, hnil⟩
    · rw [heq]
      refine ⟨⟨rfl, fun _ => .kept rfl, fun j => ?_⟩, ?_⟩
      · by_cases hji : j = i
        · subst hji
          refine .inr ⟨hi, ?_⟩
          dsimp only
          rw [Table.set_self]
        · exact .inl (Table.set_ne _ _ hji)
      · intro e he
        obtain rfl := List.mem_singleton.1 he
        exact nofun
  | handler onTimeout => exact ⟨calm_of_eq rfl rfl rfl, hnil⟩

/-- **The start of `poll`**, from the clock it was given: a message can free transactions, and
nothing else happens to the pool. -/
theorem poll_calm (c : Client cfg) (nowMs : UInt32) (rx : Option (Endpoint × Bytes)) :
    Calm (c.atTime nowMs) (c.poll nowMs rx).1 := by
  rcases poll_cases c nowMs rx with heq | ⟨sender, data, msg, -, -, heq⟩
  · rw [heq]
    exact calm_of_eq rfl rfl rfl
  rw [heq]
  rcases handleMessage_cases (c.atTime nowMs) sender msg with ⟨-, hm⟩ | ⟨c', hc', hm⟩
  · rw [hm]
    rcases handleReset_cases (c.atTime nowMs) sender msg.messageId with hr | ⟨t, i, -, -, hr⟩
    · rw [hr]
      exact calm_completed _ sender msg.messageId rfl rfl rfl
    · rw [hr, fireTimeout_eq]
      exact calm_completed _ sender msg.messageId rfl rfl rfl
  · have hcalm : Calm (c.atTime nowMs) c' := by
      rcases hc' with rfl | rfl
      · exact calm_of_eq rfl rfl rfl
      · exact calm_completed _ sender msg.messageId rfl rfl rfl
    rcases hm with hm | hm
    · rw [hm]
      exact ⟨hcalm.clock, hcalm.pool, hcalm.discovers⟩
    · rw [hm]
      exact ⟨hcalm.clock, hcalm.pool, hcalm.discovers⟩

/-- The dispatch stamps nothing: it looks up a slot and calls back. -/
theorem dispatch_calm (c : Client cfg) (sender : Endpoint) (msg : Message) :
    Calm c (c.dispatchResponse sender msg).1 := by
  rcases dispatchResponse_cases c sender msg with ⟨i, -, heq⟩ | ⟨i, -, -, heq⟩ | ⟨-, -, heq⟩
  · rw [heq]
    exact calm_of_eq rfl rfl rfl
  · rw [heq]
    obtain ⟨up, recv, -, -, hcases⟩ := dispatchPending_cases c i sender msg
    rcases hcases with ⟨-, -, hp⟩ | ⟨-, hp⟩ | ⟨res, fragmented, hp⟩
    · rw [hp]
      exact calm_of_eq rfl rfl rfl
    · rw [hp]
      exact calm_of_eq rfl rfl rfl
    · rw [hp, fireResponse_eq]
      exact calm_of_eq rfl rfl rfl
  · rw [heq]
    exact calm_of_eq rfl rfl rfl

/-- **The other segments of `poll`**, except the expiry and the scan: they start transactions at
the clock of the poll and free others. -/
theorem resume_calm (c : Client cfg) {k : Cont cfg} (sendOk : Bool) (hexpire : k ≠ .expire)
    (htick : ∀ index : Nat, index < cfg.maxTransactions → k ≠ .tick index) :
    Calm c (c.resume k sendOk).1 := by
  cases k with
  | dispatch sender msg => exact c.dispatch_calm sender msg
  | block1 i =>
    show Calm c (c.continueUpload i sendOk).1
    rcases continueUpload_cases c i sendOk with ⟨-, id, heq⟩ | ⟨buf, -, heq⟩
    · rw [heq, fireTimeout_eq]
      exact calm_of_eq rfl rfl rfl
    · rw [heq]
      exact calm_of_start rfl rfl rfl
  | block2 i =>
    rcases resumeBlock2_cases c i sendOk with ⟨-, heq⟩ | ⟨buf, -, heq⟩
    · rw [heq]
      exact calm_of_eq rfl rfl rfl
    · rw [heq]
      exact calm_of_start rfl rfl rfl
  | close i fragmented call =>
    show Calm c ((c.close i fragmented).goto .expire)
    rw [close_eq]
    exact calm_of_eq rfl rfl rfl
  -- the two segments that are left out
  | expire => exact absurd rfl hexpire
  | tick index =>
    rw [resume_tick]
    split
    · rename_i h
      exact absurd rfl (htick index h)
    · exact calm_of_eq rfl rfl rfl
  | ret => exact calm_of_eq rfl rfl rfl

/-! ## The invariant -/

namespace Timed

/-- The code's clock is the last poll's; deadlines and discoveries are where the calls put them,
which is at that clock and not at the time of the call. -/
structure Inv (s : Timed cfg) : Prop where
  now    : s.client.lastNowMs = clock s.pollTime
  order  : s.pollTime ≤ s.latest
  armed  : ∀ i, Armed cfg s.pollTime (s.sentBy i) (s.client.transactions i)
  opened : ∀ i, ∀ st ∈ s.openedBy i, (s.client.discovers i).active = true →
    (s.client.discovers i).issuedAt = clock st.prior

theorem foundBy_none (events : List ClientEvent) (time : Nat) : foundBy events none time = [] := by
  unfold foundBy
  refine List.filterMap_eq_nil_iff.2 fun e _ => ?_
  cases e <;> rfl

theorem foundBy_of_none {events : List ClientEvent} (h : NoneFound events)
    (known : Option Stamp) (time : Nat) : foundBy events known time = [] := by
  unfold foundBy
  refine List.filterMap_eq_nil_iff.2 fun e he => ?_
  cases e with
  | discovered handler server payload ctx => exact absurd rfl (h _ he handler server payload ctx)
  | _ => rfl

/-- What is found was stamped, and the event says by which call. -/
theorem mem_foundBy {events : List ClientEvent} {known : Option Stamp} {time : Nat} {e : Event}
    (he : e ∈ foundBy events known time) : ∃ st ∈ known, e = .found st.call time := by
  obtain ⟨ev, -, hev⟩ := List.mem_filterMap.1 he
  cases ev with
  | discovered =>
    obtain ⟨st, hst, heq⟩ := Option.map_eq_some_iff.1 hev
    exact ⟨st, hst, heq.symm⟩
  | _ => cases hev

/-- What an advance must show for its events to be on time: each of the three kinds by itself. -/
theorem advance_onTime {s : Timed cfg} {r : Client cfg × List ClientEvent} {stamp : Option Stamp}
    (hsent : ∀ i, sentAgain (s.client.transactions i) (r.1.transactions i) = true →
      ∀ st ∈ s.sentBy i, cfg.ackTimeoutMs.toNat ≤ s.pollTime - st.call)
    (hexpired : ∀ i, (s.client.discovers i).active = true → (r.1.discovers i).active = false →
      ∀ st ∈ s.openedBy i, cfg.discoverTimeoutMs.toNat ≤ s.pollTime - st.call)
    (hfound : ∀ e ∈ foundBy r.2 ((firing s.client).bind s.openedBy) s.pollTime, e.OnTime cfg) :
    ∀ e ∈ (s.advance r stamp).2, e.OnTime cfg := by
  intro e he
  rcases List.mem_append.1 he with he | he
  · rcases List.mem_append.1 he with he | he
    · obtain ⟨i, st, hm, hst, rfl⟩ := mem_eventsFor he
      exact hsent i hm st hst
    · obtain ⟨i, st, hm, hst, rfl⟩ := mem_eventsFor he
      simp only [Bool.and_eq_true, Bool.not_eq_true'] at hm
      exact hexpired i hm.1 hm.2 st hst
  · exact hfound e he

/-- **A calm step** keeps the invariant; its events are the discoveries found. What it starts is
stamped with the time of the step and of the poll that the clock is from. -/
theorem Inv.calm {s : Timed cfg} (inv : s.Inv) {r : Client cfg × List ClientEvent}
    (hcalm : Calm s.client r.1) {stamp : Option Stamp}
    (hstamp : ∀ st ∈ stamp, st.prior = s.pollTime)
    (hfound : ∀ e ∈ foundBy r.2 ((firing s.client).bind s.openedBy) s.pollTime, e.OnTime cfg) :
    (s.advance r stamp).1.Inv ∧ ∀ e ∈ (s.advance r stamp).2, e.OnTime cfg := by
  have hnow : ∀ st ∈ stamp, s.client.lastNowMs = clock st.prior := by
    intro st hst
    rw [hstamp st hst]
    exact inv.now
  refine ⟨⟨hcalm.clock.trans inv.now, inv.order, armed_step inv.armed hcalm.pool hnow, ?_⟩, ?_⟩
  · intro i st hst ha
    have ha : (r.1.discovers i).active = true := ha
    show (r.1.discovers i).issuedAt = _
    have hst : st ∈ s.openedBy.after (·.active) s.client.discovers r.1.discovers stamp i := hst
    rcases hcalm.discovers i with hkept | ⟨hidle, hissued⟩
    · rw [hkept] at ha ⊢
      rw [Stamps.after_old ha] at hst
      exact inv.opened i st hst ha
    · -- just opened
      rw [Stamps.after_new hidle ha] at hst
      rw [hissued]
      exact hnow st hst
  · refine advance_onTime (fun i hs => ?_) (fun i hold hnew => ?_) hfound
    · rw [(hcalm.pool i).not_sentAgain] at hs
      cases hs
    · rcases hcalm.discovers i with hkept | ⟨hidle, -⟩
      · rw [hkept, hold] at hnew
        cases hnew
      · rw [hidle] at hold
        cases hold

/-- A calm step that calls no discover handler. -/
theorem Inv.quiet {s : Timed cfg} (inv : s.Inv) {r : Client cfg × List ClientEvent}
    (hcalm : Calm s.client r.1) {stamp : Option Stamp}
    (hstamp : ∀ st ∈ stamp, st.prior = s.pollTime)
    (hnone : foundBy r.2 ((firing s.client).bind s.openedBy) s.pollTime = []) :
    (s.advance r stamp).1.Inv ∧ ∀ e ∈ (s.advance r stamp).2, e.OnTime cfg := by
  refine inv.calm hcalm hstamp fun e he => ?_
  rw [hnone] at he
  cases he

/-- **The expiry** frees what is old enough, by the time that the discovery has noted; the
condition makes that the time of the call as well. -/
theorem Inv.expire {s : Timed cfg} (inv : s.Inv) {b : Bool}
    (hctl : s.client.control = .polling .expire b) (hfresh : s.ExpiryFresh) (sendOk : Bool) :
    (s.advance (s.client.resume .expire sendOk) none).1.Inv ∧
      ∀ e ∈ (s.advance (s.client.resume .expire sendOk) none).2, e.OnTime cfg := by
  -- the discoveries that are left are as before
  have hdisc : ∀ i, (s.client.expireDiscovers.discovers i).active = true →
      s.client.expireDiscovers.discovers i = s.client.discovers i := by
    intro i ha
    unfold expireDiscovers at ha ⊢
    dsimp only at ha ⊢
    split
    · rename_i hold
      rw [if_pos hold] at ha
      cases ha
    · rfl
  have hfiring : (firing s.client).bind s.openedBy = none := by
    rw [firing, hctl]
    rfl
  refine ⟨⟨inv.now, inv.order, ?_, ?_⟩, ?_⟩
  · have hkept : ∀ i, Moves cfg 0 (s.client.transactions i) (s.client.transactions i) :=
      fun _ => .kept rfl
    exact armed_step inv.armed hkept nofun
  · -- which were opened when they say
    intro i st hst ha
    have ha : (s.client.expireDiscovers.discovers i).active = true := ha
    have hst : st ∈ s.openedBy.after (·.active) s.client.discovers
        s.client.expireDiscovers.discovers none i := hst
    show (s.client.expireDiscovers.discovers i).issuedAt = _
    have hsame := hdisc i ha
    rw [hsame] at ha ⊢
    rw [Stamps.after_old ha] at hst
    exact inv.opened i st hst ha
  · -- nothing is resent, an old discovery is dropped, and no reply is found
    refine advance_onTime (fun i hs => ?_) (fun i hold hnew st hst => ?_) fun e he => ?_
    · have hs : sentAgain (s.client.transactions i) (s.client.transactions i) = true := hs
      rw [Moves.not_sentAgain (.kept rfl : Moves cfg 0 (s.client.transactions i) _)] at hs
      cases hs
    · -- freed by the test on `issuedAt`
      have hnew : (s.client.expireDiscovers.discovers i).active = false := hnew
      by_contra hyoung
      have hlt := hfresh i st hst hold (Nat.not_le.1 hyoung)
      have hissued := inv.opened i st hst hold
      unfold expireDiscovers at hnew
      dsimp only at hnew
      split at hnew
      · rename_i hold'
        have hge := UInt32.le_iff_toNat_le.1 hold'.2
        rw [inv.now, hissued] at hge
        exact Nat.not_le.2 hlt hge
      · rw [hold] at hnew
        cases hnew
    · rw [hfiring, foundBy_none] at he
      cases he

/-- **A pass of the scan** sends again what is old enough: the deadline was counted from the
clock, and the condition says how far that may have been behind. -/
theorem Inv.tick {s : Timed cfg} (inv : s.Inv) {index : Nat} {b : Bool}
    (hctl : s.client.control = .polling (.tick index) b) (h : index < cfg.maxTransactions)
    (hearly : s.ScanEarly index) (sendOk : Bool) :
    (s.advance (s.client.resume (.tick index) sendOk) none).1.Inv ∧
      ∀ e ∈ (s.advance (s.client.resume (.tick index) sendOk) none).2, e.OnTime cfg := by
  obtain ⟨-, hclock, hpool, hdisc⟩ := tickAt_pool s.client ⟨index, h⟩ sendOk
  have htick : s.client.resume (.tick index) sendOk = s.client.tickAt ⟨index, h⟩ sendOk := by
    rw [resume_tick, dif_pos h]
  have hfiring : (firing s.client).bind s.openedBy = none := by
    rw [firing, hctl]
    rfl
  obtain ⟨harmed, hlate⟩ := armed_tickSlot (inv.armed ⟨index, h⟩) (hearly h)
  rw [← inv.now] at harmed hlate
  rw [htick]
  -- the scan only takes transactions out
  have hold : ∀ i, waits ((s.client.tickAt ⟨index, h⟩ sendOk).1.transactions i) = true →
      waits (s.client.transactions i) = true := by
    intro i hw
    rw [hpool] at hw
    by_cases hi : i = ⟨index, h⟩
    · subst hi
      rw [Table.set_self] at hw
      exact waits_iff.2 (awaiting_of_tickSlot (waits_iff.1 hw))
    · rwa [Table.set_ne _ _ hi] at hw
  refine ⟨⟨hclock.trans inv.now, inv.order, ?_, ?_⟩, ?_⟩
  · intro i st hst ha
    have ha : Awaiting ((s.client.tickAt ⟨index, h⟩ sendOk).1.transactions i) := ha
    have hst : st ∈ s.sentBy.after waits s.client.transactions
        (s.client.tickAt ⟨index, h⟩ sendOk).1.transactions none i := hst
    -- the scan starts nothing
    rw [Stamps.after_old (hold i (waits_iff.2 ha))] at hst
    show _ ∨ ((s.client.tickAt ⟨index, h⟩ sendOk).1.transactions i).nextRetryAtMs =
      _ + timeoutOf cfg ((s.client.tickAt ⟨index, h⟩ sendOk).1.transactions i)
    rw [hpool] at ha ⊢
    by_cases hi : i = ⟨index, h⟩
    · subst hi
      rw [Table.set_self] at ha ⊢
      exact harmed st hst ha
    · rw [Table.set_ne _ _ hi] at ha ⊢
      exact inv.armed i st hst ha
  · -- the discoveries are not touched
    intro i st hst ha
    have ha : ((s.client.tickAt ⟨index, h⟩ sendOk).1.discovers i).active = true := ha
    have hst : st ∈ s.openedBy.after (·.active) s.client.discovers
        (s.client.tickAt ⟨index, h⟩ sendOk).1.discovers none i := hst
    show ((s.client.tickAt ⟨index, h⟩ sendOk).1.discovers i).issuedAt = _
    rw [hdisc] at ha ⊢
    rw [Stamps.after_old ha] at hst
    exact inv.opened i st hst ha
  · -- a resend is not too early, as `armed_tickSlot` has it
    refine advance_onTime (fun i hs => ?_) (fun i hact hnew => ?_) fun e he => ?_
    · rw [hpool] at hs
      by_cases hi : i = ⟨index, h⟩
      · subst hi
        rw [Table.set_self] at hs
        exact hlate hs
      · rw [Table.set_ne _ _ hi,
          Moves.not_sentAgain (.kept rfl : Moves cfg 0 (s.client.transactions i) _)] at hs
        cases hs
    · rw [hdisc, hact] at hnew
      cases hnew
    · rw [hfiring, foundBy_none] at he
      cases he

/-- **What one step preserves**, by the kind of the action and, within a poll, by its segment. -/
theorem Inv.step {s : Timed cfg} (inv : s.Inv) {a : Action} (horder : s.InOrder a)
    (hpunctual : s.Punctual a) :
    (s.next a).1.Inv ∧ ∀ e ∈ (s.next a).2, e.OnTime cfg := by
  have hsame : Calm s.client s.client := calm_of_eq rfl rfl rfl
  cases a with
  -- the application calls: what it starts has the time of the call and of the poll before
  | call tau call sendOk =>
    have inv' : ({ s with latest := max s.latest tau } : Timed cfg).Inv :=
      ⟨inv.now, Nat.le_trans inv.order (Nat.le_max_left ..), inv.armed, inv.opened⟩
    have hprior : ∀ st ∈ (some ⟨tau, s.pollTime⟩ : Option Stamp), st.prior = s.pollTime := by
      rintro st ⟨⟩
      rfl
    show (advance _ _ _).1.Inv ∧ _
    by_cases happ : s.client.appHasControl = true
    · obtain ⟨hcalm, hnone⟩ := s.client.call_calm sendOk call
      have hstep : s.client.step (.call call sendOk) =
          ((s.client.call sendOk call).1, (s.client.call sendOk call).2.2) := if_pos happ
      refine inv'.quiet ?_ hprior ?_
      · rw [hstep]
        exact hcalm
      · rw [hstep]
        exact foundBy_of_none hnone ..
    · have hstep : s.client.step (.call call sendOk) = (s.client, []) := if_neg happ
      refine inv'.quiet ?_ hprior ?_
      · rw [hstep]
        exact hsame
      · rw [hstep]
        rfl
  -- a poll begins: the clock is set, and nothing is due by that alone
  | poll t rx =>
    unfold next
    dsimp only
    split
    · rename_i hidle
      have hle : s.pollTime ≤ t := Nat.le_trans inv.order horder
      have hstep : s.client.step (.poll (clock t) rx) = s.client.poll (clock t) rx := by
        simp only [Client.step, hidle]
      have hcalm := s.client.poll_calm (clock t) rx
      -- the invariant of the client at the new time, before the datagram is read
      have inv' : ({ s with client := s.client.atTime (clock t), pollTime := t, latest := t } :
          Timed cfg).Inv :=
        ⟨rfl, Nat.le_refl t, fun i => (inv.armed i).later hle, inv.opened⟩
      have hfiring : firing (s.client.atTime (clock t)) = none := by
        unfold firing
        rw [show (s.client.atTime (clock t)).control = .idle from hidle]
      rw [hstep]
      exact inv'.quiet hcalm (by rintro _ ⟨⟩) (by rw [hfiring]; exact foundBy_none ..)
    · exact ⟨inv, List.forall_mem_nil _⟩
  -- the rest of a poll, one part of it after the other
  | resume sendOk =>
    have hnostamp : ∀ st ∈ (none : Option Stamp), st.prior = s.pollTime := by
      rintro _ ⟨⟩
    show (s.advance (s.client.step (.resume sendOk)) none).1.Inv ∧ _
    unfold next
    dsimp only
    cases hctl : s.client.control with
    | idle =>
      rw [step_resume_idle hctl]
      exact inv.quiet hsame hnostamp rfl
    | polling k b =>
      rw [step_resume hctl]
      unfold Punctual at hpunctual
      rw [hctl] at hpunctual
      -- the parts that neither scan nor dispatch
      have hother : k ≠ .expire → (∀ index : Nat, index < cfg.maxTransactions → k ≠ .tick index) →
          (∀ sender msg, k ≠ .dispatch sender msg) →
          (s.advance (s.client.resume k sendOk) none).1.Inv ∧
            ∀ e ∈ (s.advance (s.client.resume k sendOk) none).2, e.OnTime cfg := by
        intro hexpire htick hdispatch
        have hfiring : (firing s.client).bind s.openedBy = none := by
          rw [firing, hctl]
          cases k with
          | dispatch sender msg => exact absurd rfl (hdispatch sender msg)
          | _ => rfl
        refine inv.quiet (s.client.resume_calm sendOk hexpire htick) hnostamp ?_
        rw [hfiring, foundBy_none]
      cases k with
      | dispatch sender msg =>
        have hcalm : Calm s.client (s.client.resume (.dispatch sender msg) sendOk).1 :=
          s.client.dispatch_calm sender msg
        refine inv.calm hcalm hnostamp ?_
        intro e he
        obtain ⟨st, hst, rfl⟩ := mem_foundBy he
        obtain ⟨i, hi, hst⟩ := Option.bind_eq_some_iff.1 hst
        exact hpunctual i hi st hst
      | expire => exact inv.expire hctl hpunctual sendOk
      | tick index =>
        by_cases h : index < cfg.maxTransactions
        · exact inv.tick hctl h hpunctual sendOk
        · refine hother (by rintro ⟨⟩) (fun i hi heq => ?_) (by rintro _ _ ⟨⟩)
          cases heq
          exact h hi
      | block1 | block2 | close | ret =>
        exact hother (by rintro ⟨⟩) (by rintro _ _ ⟨⟩) (by rintro _ _ ⟨⟩)

/-- **Under the condition every event of a run is on time.** The run may have any number of
polls, with callbacks that call the API between their segments. -/
theorem on_time_of_run {h : List Event} {s : Timed cfg}
    (r : (machine cfg).Run (fun s a => s.InOrder a ∧ s.Punctual a) h s) :
    s.Inv ∧ ∀ e ∈ h, e.OnTime cfg :=
  r.invariant_outputs ⟨rfl, Nat.le_refl 0, nofun, nofun⟩ fun inv hp => inv.step hp.1 hp.2

end Timed

end PulseCoap.Client
