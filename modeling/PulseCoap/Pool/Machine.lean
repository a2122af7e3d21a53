import PulseCoap.Lib.Run
import PulseCoap.Transaction

/-!
# PulseCoAP — `TransactionPool` on its own

The runs of one pool under any caller: `start`, `complete`, `completeByToken`
and `tick`, in any order, with `tick` callbacks that start transactions
themselves before the scan goes on.

The clock of a run is a natural number that never goes back; the code is given
its value modulo 2^32. The history says what was started, what was freed by a
caller, and what the callbacks of `tick` were told.

A tick takes with it, as data of the action, what the callback of each slot will
start: the callbacks are the caller's code, so all of their behaviours are
covered by all such lists. What `complete` frees is known by its place in the
history, so that "a transaction started at `t0`" can be followed through a run
in which slots are used again and again.

* `StepGap` — every call comes less than `2^31 - 2^17` ms after the call before.
* `TickGap` — the first tick of a transaction comes less than `2^31 - 2^17` ms
  after its start, and every other so soon after the tick before.
* `Watch`, `watch` — what the history says of one transaction.
* `ticksOf`, `firings` — its ticks, and what its callbacks were told.
-/

namespace PulseCoap.Pool

/-- The arguments of `start`. -/
structure StartArgs where
  remote    : Endpoint
  messageId : UInt16
  token     : Bytes
  message   : Bytes
deriving DecidableEq, Repr

/-- What happens in a run. -/
inductive Event where
  /-- `start` took a slot; `n` counts the transactions. -/
  | started (n time : Nat) (a : StartArgs)
  /-- `complete` or `completeByToken` freed the slot of `n`. -/
  | freed (n : Nat)
  /-- `tick` begins its scan. -/
  | ticked (time : Nat)
  /-- A callback of `tick` for `n`; `free` is the state of its slot during the callback. -/
  | fired (n time : Nat) (event : TickEvent) (free : Bool)
deriving DecidableEq, Repr

/-- A call. A tick comes with what its callbacks start, slot by slot. -/
inductive Action (cfg : Config) where
  | start (time : Nat) (a : StartArgs)
  | complete (remote : Endpoint) (messageId : UInt16)
  | completeByToken (remote : Endpoint) (token : Bytes)
  | tick (time : Nat) (callback : Fin cfg.maxTransactions → TickEvent → List StartArgs)

/-- A pool in a run: its clock, its last tick, and how many transactions it has accepted. -/
structure State (cfg : Config) where
  pool     : TransactionPool cfg
  now      : Nat
  lastTick : Nat
  started  : Nat := 0

variable {cfg : Config}

/-- `nowMs` at a time of the run. -/
def clock (time : Nat) : UInt32 := UInt32.ofNat time

/-- `pool.start` at the time of the state. -/
def startNow (s : State cfg) (a : StartArgs) : State cfg × List Event :=
  match s.pool.start a.remote a.messageId a.token a.message (clock s.now) { id := s.started } with
  | (_, none) => (s, [])
  | (pool, some _) =>
    ({ s with pool, started := s.started + 1 }, [.started s.started s.now a])

/-- The calls to `start` of one callback. -/
def startAll (s : State cfg) : List StartArgs → State cfg × List Event
  | [] => (s, [])
  | a :: as =>
    let (s, started) := startNow s a
    let (s, rest) := startAll s as
    (s, started ++ rest)

/-- The body of the loop of `tick`, with its callback. -/
def visit (callback : Fin cfg.maxTransactions → TickEvent → List StartArgs) (s : State cfg)
    (i : Fin cfg.maxTransactions) : State cfg × List Event :=
  match TransactionPool.tickSlot cfg (clock s.now) (s.pool i) with
  | (_, none) => (s, [])
  | (t, some event) =>
    let (s', started) := startAll { s with pool := s.pool.set i t } (callback i event)
    (s', .fired (s.pool i).owner.id s.now event (t.state == .free) :: started)

/-- The loop of `tick` over the slots that are left. -/
def scan (callback : Fin cfg.maxTransactions → TickEvent → List StartArgs) (s : State cfg) :
    List (Fin cfg.maxTransactions) → State cfg × List Event
  | [] => (s, [])
  | i :: is =>
    let (s, events) := visit callback s i
    let (s, rest) := scan callback s is
    (s, events ++ rest)

/-- What `complete` and `completeByToken` leave, when `found` is the slot they found. -/
def release (s : State cfg) (pool : TransactionPool cfg)
    (found : Option (Fin cfg.maxTransactions)) : State cfg × List Event :=
  ({ s with pool }, (found.map fun i => .freed (s.pool i).owner.id).toList)

/-- One call. -/
def next (s : State cfg) : Action cfg → State cfg × List Event
  | .start time a => startNow { s with now := time } a
  | .complete remote messageId =>
    release s (s.pool.complete remote messageId).1
      (s.pool.find? (TransactionPool.matchesId remote messageId))
  | .completeByToken remote token =>
    release s (s.pool.completeByToken remote token).1
      (s.pool.find? fun t => t.state == .awaitingAck && t.remote == remote && t.token == token)
  | .tick time callback =>
    let (s, events) :=
      scan callback { s with now := time, lastTick := time } (List.finRange _)
    (s, .ticked time :: events)

/-- A pool from `reset`, when the clock reads `origin`. -/
def machine (cfg : Config) (origin : Nat) : Machine (State cfg) (Action cfg) Event where
  init := { pool := TransactionPool.reset, now := origin, lastTick := origin }
  next := next

/-! ## How far apart the calls are -/

/-- The `nowMs` of a call that has one. -/
def Action.time : Action cfg → Option Nat
  | .start time _ => some time
  | .tick time _ => some time
  | .complete _ _ => none
  | .completeByToken _ _ => none

/-- The clock does not go back. -/
def Forward (s : State cfg) (a : Action cfg) : Prop := ∀ time ∈ a.time, s.now ≤ time

instance (s : State cfg) (a : Action cfg) : Decidable (Forward s a) :=
  inferInstanceAs (Decidable (∀ _ ∈ _, _))

/-- `2^31 - 2^17`. -/
def maxGap : Nat := 2 ^ 31 - 2 ^ 17

/-- Each call comes soon after the call before it. -/
def StepGap (s : State cfg) (a : Action cfg) : Prop :=
  Forward s a ∧ ∀ time ∈ a.time, time < s.now + maxGap

instance (s : State cfg) (a : Action cfg) : Decidable (StepGap s a) :=
  inferInstanceAs (Decidable (_ ∧ ∀ _ ∈ _, _))

/-! ## Reading the history -/

/-- What is known of transaction `n`: whether it may still be ticked, and its ticks so far. -/
structure Watch where
  live  : Bool := false
  ticks : List Nat := []
deriving DecidableEq, Repr

/-- One event more. -/
def Watch.see (n : Nat) (w : Watch) : Event → Watch
  | .started m _ _ => if m = n then { w with live := true } else w
  | .freed m => if m = n then { w with live := false } else w
  | .ticked time => if w.live then { w with ticks := w.ticks ++ [time] } else w
  | .fired _ _ _ _ => w

/-- What the history says of `n`. -/
def watch (n : Nat) (h : List Event) : Watch := h.foldl (Watch.see n) {}

/-- The ticks after `n` was started and before a caller freed it. -/
def ticksOf (n : Nat) (h : List Event) : List Nat := (watch n h).ticks

/-- The ticks of a transaction started at `t0` come soon after each other. -/
def TickGap (t0 : Nat) (ticks : List Nat) : Prop :=
  (t0 :: ticks).IsChain fun a b => b < a + maxGap

instance (t0 : Nat) (ticks : List Nat) : Decidable (TickGap t0 ticks) :=
  inferInstanceAs (Decidable (List.IsChain _ _))

/-- What a callback was told, when, and whether the slot was free by then. -/
abbrev Firing := Nat × TickEvent × Bool

/-- The callbacks for `n`. -/
def firings (n : Nat) (h : List Event) : List Firing :=
  h.filterMap fun
    | .fired m time event free => if m = n then some (time, event, free) else none
    | _ => none

end PulseCoap.Pool
