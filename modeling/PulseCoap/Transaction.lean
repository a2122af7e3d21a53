import PulseCoap.Lib.Table
import PulseCoap.Transport.Endpoint

/-!
# PulseCoAP — `TransactionPool`

`PulseCoAPTransaction.h` and `.cpp`: the fixed pool of Confirmable messages
waiting for an ACK.

`tick()` scans the slots in order and may call back into the application, which
may start transactions before the scan goes on. The model has the body of the
loop, `tickSlot`; who runs the scan keeps the loop counter.

A transaction carries one field the source does not have: `owner`, the call of
the client's API it was started for. Nothing reads it but the specifications.

A slot whose `state` is `Free` keeps its other fields, as in the source: what a
lookup finds it finds by `Awaiting`, and a deadline in a free slot is never
read. `start` copies the message into the slot, so what is sent again is what
was sent, byte for byte.
-/

namespace PulseCoap

/-- A non-null pointer of the application. -/
abbrev Ref := Nat

/-- The kinds of API calls that occupy a slot of the client. A block-wise follow-up is no call
of its own: it belongs to the request it goes on with. -/
inductive CallKind where
  | request
  | observe
  | deregister
deriving DecidableEq, Repr

/-- An accepted call of the client's API; `id` counts them. `userContext` is the pointer the
application wants back with the outcome. -/
structure Call where
  id          : Nat := 0
  kind        : CallKind := .request
  confirmable : Bool := false
  userContext : Option Ref := none
deriving DecidableEq, Repr

/-- `enum class TransactionState`. There is no third state: a transaction is over when its slot
is free again. -/
inductive TransactionState where
  | free
  | awaitingAck
deriving DecidableEq, Repr

/-- `struct Transaction`. `message` holds the first `messageLen` bytes of the array, which are
what is sent again. -/
structure Transaction where
  state            : TransactionState := .free
  remote           : Endpoint := default
  messageId        : UInt16 := 0
  token            : Bytes := []
  retriesSent      : Nat := 0
  currentTimeoutMs : UInt32 := 0
  nextRetryAtMs    : UInt32 := 0
  message          : Bytes := []
  owner            : Call := {}
deriving DecidableEq, Repr

/-- `class TransactionPool`. Client and server have one each. -/
abbrev TransactionPool (cfg : Config) := Table cfg.maxTransactions Transaction

/-- What the body of the `tick` loop asks for: `resend` or `onTimeout`. -/
inductive TickEvent where
  | resend (remote : Endpoint) (message : Bytes)
  | timeout (remote : Endpoint) (token : Bytes)
deriving DecidableEq, Repr

namespace TransactionPool

variable {cfg : Config}

/-- `TransactionPool::reset`. The counters and messages of all slots are cleared with them. -/
def reset : TransactionPool cfg := fun _ => {}

/-- `TransactionPool::computeInitialTimeoutMs`. The jitter is a hash of the message ID, not a
random number, so the same ID always waits the same time; `upper` wraps around at 32 bits in a
build whose timeout is very long. -/
def computeInitialTimeoutMs (cfg : Config) (seedForJitter : UInt32) : UInt32 :=
  let x := if seedForJitter ≠ 0 then seedForJitter else 0x2545F491
  let x := x ^^^ (x <<< 13)
  let x := x ^^^ (x >>> 17)
  let x := x ^^^ (x <<< 5)
  let base := cfg.ackTimeoutMs
  let upper := (base * cfg.ackRandomNum) / cfg.ackRandomDen
  let span := if upper > base then upper - base else 0
  if span > 0 then base + x % span else base

/-- `t.state == TransactionState::AwaitingAck`. -/
def Awaiting (t : Transaction) : Prop := t.state = .awaitingAck

instance (t : Transaction) : Decidable (Awaiting t) := inferInstanceAs (Decidable (_ = _))

/-- `TransactionPool::start`; the slot, or `none` for -1. The lowest free slot is taken, and the
first timeout counts from the caller's `nowMs`. -/
def start (pool : TransactionPool cfg) (remote : Endpoint) (messageId : UInt16) (token : Bytes)
    (message : Bytes) (nowMs : UInt32) (owner : Call) :
    TransactionPool cfg × Option (Fin cfg.maxTransactions) :=
  if token.length > kMaxTokenLen then (pool, none)
  else if message.length > cfg.maxMsgSize then (pool, none)
  else
    match pool.find? (·.state == .free) with
    | none => (pool, none)
    | some i =>
      let timeout := computeInitialTimeoutMs cfg messageId.toUInt32
      (pool.set i
        { state := .awaitingAck, remote, messageId, token, retriesSent := 0
          currentTimeoutMs := timeout, nextRetryAtMs := nowMs + timeout, message, owner },
        some i)

/-- The test `complete` and `getToken` scan for. -/
def matchesId (remote : Endpoint) (messageId : UInt16) (t : Transaction) : Bool :=
  t.state == .awaitingAck && t.remote == remote && t.messageId == messageId

/-- `TransactionPool::complete`. Only the lowest match is freed; a second transaction of the
same remote and ID would stay. -/
def complete (pool : TransactionPool cfg) (remote : Endpoint) (messageId : UInt16) :
    TransactionPool cfg × Bool :=
  match pool.find? (matchesId remote messageId) with
  | none => (pool, false)
  | some i => (pool.set i { pool i with state := .free }, true)

/-- `TransactionPool::completeByToken`, for a reply that is not an ACK or RST. The token says
which request it belongs to, and the message ID does not count. -/
def completeByToken (pool : TransactionPool cfg) (remote : Endpoint) (token : Bytes) :
    TransactionPool cfg × Bool :=
  match pool.find? fun t => t.state == .awaitingAck && t.remote == remote && t.token == token with
  | none => (pool, false)
  | some i => (pool.set i { pool i with state := .free }, true)

/-- `TransactionPool::getToken`. It is asked before `complete`, which gives the slot back. -/
def getToken (pool : TransactionPool cfg) (remote : Endpoint) (messageId : UInt16) :
    Option Bytes :=
  (pool.find? (matchesId remote messageId)).map fun i => (pool i).token

/-- `remaining > 0`, the signed difference to the deadline. A deadline counts as past for half
of the 32-bit round, which is what makes the scan indifferent to where the clock starts. -/
def notDue (nowMs : UInt32) (t : Transaction) : Bool :=
  let remaining := t.nextRetryAtMs - nowMs
  0 < remaining.toNat && remaining.toNat < 2 ^ 31

/-- The body of the loop of `TransactionPool::tick` on one slot. One scan sends a message again
at most once, however late it comes, and the next timeout counts from the scan and not from the
deadline. -/
def tickSlot (cfg : Config) (nowMs : UInt32) (t : Transaction) : Transaction × Option TickEvent :=
  if t.state ≠ .awaitingAck then (t, none)
  else if notDue nowMs t then (t, none)
  else if t.retriesSent < cfg.maxRetransmit then
    let timeout := t.currentTimeoutMs * 2
    ({ t with
        retriesSent := t.retriesSent + 1
        currentTimeoutMs := timeout
        nextRetryAtMs := nowMs + timeout }, some (.resend t.remote t.message))
  else
    -- freed before the callback, which may start a new transaction
    ({ t with state := .free }, some (.timeout t.remote t.token))

/-- `TransactionPool::activeCount`. -/
def activeCount (pool : TransactionPool cfg) : Nat :=
  (List.finRange _).countP fun i => (pool i).state != .free

end TransactionPool

end PulseCoap
