import PulseCoap.Timing.Client
import PulseCoap.Clock.Server
import PulseCoap.Server.Frame

/-!
# PulseCoAP — timers from the moment of the call

The server in real time, as the client in `Timing.Client`, and the result for
both. Only `notify` and `respond` start timers here, and only the scan at the
start of `poll` looks at them.

The server has one timer, that of its transactions, where the client has three,
so its condition has one clause. What makes the two alike is `Timing.Pool`: the
steps of both are described by what they add to a pool.

* `Timed.Punctual` — no poll reaches a transaction early.
* `timers_from_call` — runs of a client and of a server under the condition.
-/

namespace PulseCoap

namespace Server

open TransactionPool Timing
open Pool (clock)

variable {cfg : Config}

/-- A server, when it was last polled (0 before the first poll) and last used,
and the calls that started its transactions. -/
structure Timed (cfg : Config) where
  server   : Server cfg := {}
  pollTime : Nat := 0
  latest   : Nat := 0
  sentBy   : Stamps cfg.maxTransactions := fun _ => none

namespace Timed

/-- What happens, and when. -/
inductive Action where
  | call (tau : Nat) (call : ServerCall)
  | poll (t : Nat) (rx : Option (Endpoint × Bytes))
  | handlerReturns (res : Response)
deriving DecidableEq, Repr

/-- After a step of the server; transactions it started belong to `stamp`. -/
def advance (s : Timed cfg) (server : Server cfg) (stamp : Option Stamp) : Timed cfg :=
  { s with server, sentBy := s.sentBy.after waits s.server.txPool server.txPool stamp }

/-- One step; a poll is seen by what its scan makes of the pool. -/
def next (s : Timed cfg) : Action → Timed cfg × List Event
  | .call tau call =>
    ({ s with latest := max s.latest tau }.advance (s.server.step (.call call)).1
      (some ⟨tau, s.pollTime⟩), [])
  | .poll t rx =>
    if s.server.control = .idle then
      ({ s with pollTime := t, latest := t }.advance (s.server.step (.poll (clock t) rx)).1 none,
        eventsFor (fun i => sentAgain (s.server.txPool i) ((s.server.scanned (clock t)).txPool i))
          s.sentBy fun st => .retransmitted st.call t)
    else (s, [])
  | .handlerReturns res => (s.advance (s.server.step (.handlerReturns res)).1 none, [])

/-- The server in real time as a machine. -/
def machine (cfg : Config) : Machine (Timed cfg) Action Event where
  init := {}
  next := next

/-- A call does not come before the last poll, a poll not before the last call. -/
def InOrder (s : Timed cfg) : Action → Prop
  | .call tau _ => s.pollTime ≤ tau
  | .poll t _ => s.latest ≤ t
  | .handlerReturns _ => True

instance (s : Timed cfg) : ∀ a, Decidable (s.InOrder a)
  | .call _ _ => inferInstanceAs (Decidable (_ ≤ _))
  | .poll _ _ => inferInstanceAs (Decidable (_ ≤ _))
  | .handlerReturns _ => inferInstanceAs (Decidable True)

/-- **The condition**: the scan of the poll reaches no transaction early. -/
def Punctual (s : Timed cfg) : Action → Prop
  | .poll t _ => ∀ i, Early cfg t (s.sentBy i) (s.server.txPool i)
  | _ => True

instance (s : Timed cfg) : ∀ a, Decidable (s.Punctual a)
  | .poll t _ => inferInstanceAs (Decidable (∀ i, Early cfg t (s.sentBy i) (s.server.txPool i)))
  | .call _ _ => inferInstanceAs (Decidable True)
  | .handlerReturns _ => inferInstanceAs (Decidable True)

end Timed

/-! ## What the operations do to the pool -/

/-- A slot keeps its transaction, or gets a new one with its deadline counted
from `now`. -/
def Adds (cfg : Config) (now : UInt32) (t t' : Transaction) : Prop :=
  t' = t ∨ (¬ Awaiting t ∧ Awaiting t' ∧ t'.nextRetryAtMs = now + timeoutOf cfg t')

theorem Adds.moves {now : UInt32} {t t' : Transaction} (h : Adds cfg now t t') :
    Moves cfg now t t' := by
  rcases h with heq | ⟨hfree, -, hretry⟩
  · exact .kept heq
  · exact .started hfree hretry

/-- **A call** only adds transactions, from the server's clock, which is that of the last poll. -/
theorem call_adds (s : Server cfg) (call : ServerCall) (i : Fin cfg.maxTransactions) :
    Adds cfg s.lastNowMs (s.txPool i) ((s.call call).1.txPool i) := by
  rcases s.call_begins call i with heq | ⟨hfree, remote, messageId, token, message, heq⟩
  · exact .inl heq
  · rw [heq]
    exact .inr ⟨hfree, rfl, rfl⟩

/-! ## The invariant -/

namespace Timed

/-- The code's clock is the last poll's, and deadlines are where the calls put
them. -/
structure Inv (s : Timed cfg) : Prop where
  now   : s.server.lastNowMs = clock s.pollTime
  order : s.pollTime ≤ s.latest
  armed : ∀ i, Armed cfg s.pollTime (s.sentBy i) (s.server.txPool i)

/-- A step outside the scan. -/
theorem Inv.advance {s : Timed cfg} (inv : s.Inv) {server : Server cfg} {stamp : Option Stamp}
    (hclock : server.lastNowMs = s.server.lastNowMs)
    (hmoves : ∀ i, Moves cfg s.server.lastNowMs (s.server.txPool i) (server.txPool i))
    (hstamp : ∀ st ∈ stamp, st.prior = s.pollTime) : (s.advance server stamp).Inv := by
  refine ⟨hclock.trans inv.now, inv.order, armed_step inv.armed hmoves fun st hst => ?_⟩
  rw [hstamp st hst]
  exact inv.now

/-- **What one step preserves.** A poll scans first and reads its datagram then, so what the
datagram starts is not yet in the scan. -/
theorem Inv.step {s : Timed cfg} (inv : s.Inv) {a : Action} (horder : s.InOrder a)
    (hpunctual : s.Punctual a) : (s.next a).1.Inv ∧ ∀ e ∈ (s.next a).2, e.OnTime cfg := by
  cases a with
  -- a call starts transactions at the time of the poll before
  | call tau call =>
    have inv' : ({ s with latest := max s.latest tau } : Timed cfg).Inv :=
      ⟨inv.now, Nat.le_trans inv.order (Nat.le_max_left ..), inv.armed⟩
    refine ⟨inv'.advance (s.server.call_keeps call).clock
      (fun i => (s.server.call_adds call i).moves) ?_, fun e he => nomatch he⟩
    rintro st ⟨⟩
    rfl
  -- the scan comes first, and then the datagram, which only frees
  | poll t rx =>
    unfold next
    dsimp only
    split
    · rename_i hidle
      have hle : s.pollTime ≤ t := Nat.le_trans inv.order horder
      have hstep : (s.server.step (.poll (clock t) rx)).1 =
          ((s.server.scanned (clock t)).receive rx).1 := Server.step_poll_state hidle (clock t) rx
      obtain ⟨hclock, hpool⟩ := (s.server.scanned (clock t)).receive_pool rx
      have htick := fun i => armed_tickSlot ((inv.armed i).later hle) (hpunctual i)
      have hscan : ∀ i, Armed cfg t (s.sentBy i) ((s.server.scanned (clock t)).txPool i) := by
        intro i
        rw [scanned_pool]
        exact (htick i).1
      rw [hstep]
      refine ⟨⟨hclock.trans (s.server.scanned_clock _), Nat.le_refl t, ?_⟩, ?_⟩
      · intro i st hst ha
        have hst : st ∈ s.sentBy.after waits s.server.txPool
            ((s.server.scanned (clock t)).receive rx).1.txPool none i := hst
        have ha : Awaiting (((s.server.scanned (clock t)).receive rx).1.txPool i) := ha
        show _ ∨ (((s.server.scanned (clock t)).receive rx).1.txPool i).nextRetryAtMs =
          _ + timeoutOf cfg (((s.server.scanned (clock t)).receive rx).1.txPool i)
        rcases hpool i with hkept | hfreed
        · rw [hkept] at ha ⊢
          -- it was waiting before the scan
          have hold : Awaiting (s.server.txPool i) := by
            rw [scanned_pool] at ha
            exact awaiting_of_tickSlot ha
          rw [Stamps.after_old (waits_iff.2 hold)] at hst
          exact hscan i st hst ha
        · exact absurd ha hfreed
      · intro e he
        obtain ⟨i, st, hm, hst, rfl⟩ := mem_eventsFor he
        rw [scanned_pool] at hm
        exact (htick i).2 hm st hst
    · exact ⟨inv, fun e he => nomatch he⟩
  -- the handler returns, and the pool is as it was
  | handlerReturns res =>
    unfold next
    dsimp only
    unfold Server.step
    dsimp only
    refine ⟨?_, fun e he => nomatch he⟩
    split
    · exact inv.advance rfl (fun _ => .kept rfl) fun st hst => nomatch hst
    · rename_i h hctl
      obtain ⟨hclock, hpool⟩ := (clockless_finish h res).keeps { s.server with control := .idle }
      exact inv.advance hclock (fun i => .kept (congrFun hpool i)) fun st hst => nomatch hst

/-- **Under the condition every event of a run is on time.** The handlers' calls are steps
between the poll and the return of the handler. -/
theorem on_time_of_run {h : List Event} {s : Timed cfg}
    (r : (machine cfg).Run (fun s a => s.InOrder a ∧ s.Punctual a) h s) :
    s.Inv ∧ ∀ e ∈ h, e.OnTime cfg :=
  r.invariant_outputs ⟨rfl, Nat.le_refl 0, nofun⟩ fun inv hp => inv.step hp.1 hp.2

end Timed

end Server

/-! ## Both sides -/

section

open Timing

/--
The timers of a client and of a server run from the moment of the call: no
datagram of a call is sent again within `PULSECOAP_ACK_TIMEOUT_MS` of it, and a
discovery is open for exactly `PULSECOAP_DISCOVER_TIMEOUT_MS`, in every run whose
polls meet the two `Punctual` conditions.
-/
theorem timers_from_call (cfg : Config) :
    (∀ {h : List Event} {s : Client.Timed cfg},
      (Client.Timed.machine cfg).Run (fun s a => s.InOrder a ∧ s.Punctual a) h s →
        ∀ e ∈ h, e.OnTime cfg) ∧
      ∀ {h : List Event} {s : Server.Timed cfg},
        (Server.Timed.machine cfg).Run (fun s a => s.InOrder a ∧ s.Punctual a) h s →
          ∀ e ∈ h, e.OnTime cfg := by
  constructor
  · intro h s r
    exact (Client.Timed.on_time_of_run r).2
  · intro h s r
    exact (Server.Timed.on_time_of_run r).2

/-! ## Runs -/

/-- `"/t"`. -/
def timedPath : Bytes := [0x2F, 0x74]

/-- A GET for it that registers an observer. -/
def timedRegistration : Bytes := [0x41, 0x01, 0x00, 0x01, 0x07, 0x60, 0x51, 0x74]

/-- The rest of a poll of the client. -/
def restOfPoll : List Client.Timed.Action := List.replicate 7 (.resume true)

/-- A request and a discovery soon after a poll; the discovery gets a response,
and a later poll comes after both timeouts. -/
def promptClient : List Client.Timed.Action :=
  [.poll 100000 none] ++ restOfPoll ++
    [.call 100100 (.get default timedPath none none true) true,
      .call 100200 (.discover default (some 1) none) true,
      .poll 102000 (some (default, [0x51, 0x45, 0x00, 0x09, 0x02]))] ++ restOfPoll ++
    [.poll 105300 none] ++ restOfPoll

/-- An observer registers; a Confirmable notification goes out at `tau`, and the
next poll is at `t`. -/
def notifying (tau t : Nat) : List Server.Timed.Action :=
  [.call 1000 (.addResource (some timedPath) methodGet (some 1) none true),
    .poll 1000 (some (default, timedRegistration)), .handlerReturns {},
    .call tau (.notify timedPath [0x01] .textPlain true), .poll t none]

theorem timers_from_call_prompt :
    ((Client.Timed.machine Config.default).exec [] {} promptClient).1 =
        [.found 100200 102000, .expired 100200 105300, .retransmitted 100100 105300] ∧
      (∀ e ∈ ((Client.Timed.machine Config.default).exec [] {} promptClient).1,
        e.OnTime Config.default) ∧
      ((Server.Timed.machine Config.default).exec [] {} (notifying 1500 4500)).1 =
        [.retransmitted 1500 4500] ∧
      ∀ e ∈ ((Server.Timed.machine Config.default).exec [] {} (notifying 1500 4500)).1,
        e.OnTime Config.default :=
  ⟨by decide +kernel, (timers_from_call Config.default).1 (.exec .start (by decide +kernel)),
    by decide +kernel, (timers_from_call Config.default).2 (.exec .start (by decide +kernel))⟩

/-- A request and a discovery before the first poll; then a discovery whose
response comes with the poll that is to end it. -/
def unpolledClient : List Client.Timed.Action :=
  [.call 100000 (.get default timedPath none none true) true,
    .call 100000 (.discover default (some 1) none) true, .poll 100000 none] ++ restOfPoll ++
    [.call 100000 (.discover default (some 1) none) true,
      .poll 105000 (some (default, [0x51, 0x45, 0x00, 0x09, 0x03]))] ++ restOfPoll

/-- **The timers run from the poll before the call**: before the first poll that
is time 0, and a request is sent again and a discovery ended in the same
millisecond; a response is dispatched before the discoveries are looked at; and
the server's notifications have the same clock. -/
theorem not_timers_from_call :
    (∃ (h : List Event) (s : Client.Timed Config.default),
      (Client.Timed.machine Config.default).Run (fun s a => s.InOrder a) h s ∧
        ∀ e ∈ [Event.retransmitted 100000 100000, .expired 100000 100000, .found 100000 105000],
          e ∈ h ∧ ¬ e.OnTime Config.default) ∧
      ∃ (h : List Event) (s : Server.Timed Config.default),
        (Server.Timed.machine Config.default).Run (fun s a => s.InOrder a) h s ∧
          .retransmitted 4000 4000 ∈ h ∧ ¬ (Event.retransmitted 4000 4000).OnTime Config.default := by
  constructor
  · have hmeets : (Client.Timed.machine Config.default).Meets (fun s a => s.InOrder a) {}
        unpolledClient := by
      decide +kernel
    exact ⟨_, _, .exec .start hmeets, by decide +kernel⟩
  · have hmeets : (Server.Timed.machine Config.default).Meets (fun s a => s.InOrder a) {}
        (notifying 4000 4000) := by
      decide +kernel
    exact ⟨_, _, .exec .start hmeets, by decide +kernel⟩

end

end PulseCoap
