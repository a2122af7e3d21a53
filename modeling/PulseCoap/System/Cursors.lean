import PulseCoap.System.Model
import PulseCoap.Client.Frame
import PulseCoap.Server.Blocks
import PulseCoap.Server.Upload

/-!
# PulseCoAP — the two cursors of an upload

The client counts the blocks of an upload with `nextNum`, the server with the
`nextExpectedNum` of its session. The client moves on at every 2.31 Continue that
carries its token, whichever block that names, and the server opens a new session
at every first block it has no session for, whenever that arrives. Both are what
a duplicating network turns against them.

`InTurn` is the condition on a step that it does not: the Continue taken names the
block in flight, and a session is not opened behind the client's back.

The invariant is in two parts that are proved apart, one by the steps of the
client and one by those of the server. What connects them are the datagrams:
`Reaches` says that a datagram of the client brings no block past the cursor,
and `Answers` that a datagram of the server names no block that is not accepted.
An adversarial network cannot break either, as it can deliver only what was
sent.

* `Lockstep` — the client is not past the server.
* `Steps` — the runs: the network, one upload, and the condition.
* `ClientSide`, `ServerSide` — the invariant, of each party and what it has sent.
-/

namespace PulseCoap

/-- Block `num` of the payload is not empty. -/
def Block1UploadState.Has (up : Block1UploadState) (num : Nat) : Prop :=
  num * blockSize up.szx < up.fullPayload.length

instance (up : Block1UploadState) (num : Nat) : Decidable (up.Has num) :=
  inferInstanceAs (Decidable (_ < _))

/-- Slot `i` has an upload in progress. -/
def Client.Uploads {cfg : Config} (c : Client cfg) (i : Fin cfg.maxTransactions) : Prop :=
  (c.slots i).pending.active = true ∧ (c.slots i).upload.active = true

instance {cfg : Config} (c : Client cfg) (i : Fin cfg.maxTransactions) : Decidable (c.Uploads i) :=
  inferInstanceAs (Decidable (_ ∧ _))

namespace System

open Server (Sends Lacking Names namedBlock BringsBlock Received uploadBlock)
open TransactionPool (Awaiting)

variable {cfg : Config}

-- ===========================================================================
-- The property
-- ===========================================================================

/-- The session collects the blocks of this upload. -/
def Joined (link : Link) (up : Block1UploadState) (b : Block1Session) : Prop :=
  b.active = true ∧ b.remote = link.client ∧ b.token = [up.token]

instance (link : Link) (up : Block1UploadState) (b : Block1Session) : Decidable (Joined link up b) :=
  inferInstanceAs (Decidable (_ ∧ _))

/-- The client has not moved past a block that the server has not accepted. -/
def Lockstep (link : Link) (sys : System cfg) : Prop :=
  ∀ i, sys.client.Uploads i → ∀ j,
    Joined link (sys.client.slots i).upload (sys.server.block1sessions j) →
      (sys.client.slots i).upload.nextNum.toNat ≤
        (sys.server.block1sessions j).nextExpectedNum.toNat

instance (link : Link) (sys : System cfg) : Decidable (Lockstep link sys) :=
  inferInstanceAs (Decidable (∀ _, _ → ∀ _, _ → _))

-- ===========================================================================
-- The runs
-- ===========================================================================

/-- A client with no request and no discovery in progress. -/
structure Vacant (c : Client cfg) : Prop where
  idle         : c.control = .idle
  slots        : ∀ i, (c.slots i).pending.active = false
  discovers    : ∀ i, (c.discovers i).active = false
  transactions : ∀ t, ¬ Awaiting (c.transactions t)

/-- The client has made a call, and the server was just constructed. -/
def afterCall (link : Link) (c : Client cfg) (call : Client.ClientCall) (sendOk : Bool) :
    System cfg :=
  let r := c.call sendOk call
  { client := r.1, toServer := clientData link.server r.2.2 }

/-- The slot whose next block is about to be sent, and the slot of the pool the scan is at. -/
def sending (c : Client cfg) : Option (Fin cfg.maxTransactions) :=
  match c.control with
  | .polling (.block1 i) _ => some i
  | _ => none
def scanning (c : Client cfg) : Option (Fin cfg.maxTransactions) :=
  match c.control with
  | .polling (.tick index) _ => if h : index < cfg.maxTransactions then some ⟨index, h⟩ else none
  | _ => none

/-- The block about to be sent fits a message and the transport takes it, and the pass of the pool
scan does not give up an unacknowledged one. -/
def GetsThrough (c : Client cfg) (sendOk : Bool) : Prop :=
  (∀ i ∈ sending c, (Client.transmit cfg
    (Client.buildBlock1 cfg (c.slots i).upload c.nextMessageId) sendOk).isSome = true) ∧
  ∀ t ∈ scanning c, Awaiting (c.transactions t) →
    TransactionPool.notDue c.lastNowMs (c.transactions t) = false →
      (c.transactions t).retriesSent < cfg.maxRetransmit

instance (c : Client cfg) (sendOk : Bool) : Decidable (GetsThrough c sendOk) :=
  inferInstanceAs (Decidable (_ ∧ _))

/-- The datagrams of the client get through, as far as this step is concerned. -/
def Delivered (sys : System cfg) : Action → Prop
  | .client (.resume sendOk) => GetsThrough sys.client sendOk
  | _ => True

instance (sys : System cfg) : (a : Action) → Decidable (Delivered sys a)
  | .client (.resume sendOk) => inferInstanceAs (Decidable (GetsThrough sys.client sendOk))
  | .client (.call ..) | .client (.poll ..) | .server _ => .isTrue trivial

/-- One upload: the client makes no other call. -/
def OneUpload : Action → Prop
  | .client (.call ..) => False
  | _ => True

instance : (a : Action) → Decidable (OneUpload a)
  | .client (.call ..) => .isFalse id
  | .client (.resume _) | .client (.poll ..) | .server _ => .isTrue trivial

-- ===========================================================================
-- The condition
-- ===========================================================================

/-- The upload that is about to move on, and the Continue it moves on at. -/
def continuing (c : Client cfg) : Option (Block1UploadState × Message) :=
  match c.control with
  | .polling (.dispatch _ msg) _ =>
    match c.findDiscover msg.token, c.findPendingByToken msg.token with
    | none, some i =>
      if msg.code = Code.«continue» ∧ (c.slots i).upload.active then
        some ((c.slots i).upload, msg)
      else none
    | _, _ => none
  | _ => none

/-- A first block that opens a session comes before the client has moved past the second. -/
def OpensInTime (link : Link) (sys : System cfg) (a : Server.Action) : Prop :=
  sys.server.control = .idle → ∀ b ∈ uploadBlock cfg link.client a,
    (sys.server.admitted b.1).isSome → ∀ b1 ∈ BlockOption.fromOption b.2, b1.num = 0 →
      sys.server.findBlock1Session link.client b.1.token = none →
        (∃ j, (sys.server.block1sessions j).active = false) →
          ∀ i, sys.client.Uploads i → b.1.token = [(sys.client.slots i).upload.token] →
            (sys.client.slots i).upload.nextNum.toNat ≤ 1

instance (link : Link) (sys : System cfg) (a : Server.Action) :
    Decidable (OpensInTime link sys a) :=
  inferInstanceAs (Decidable (_ → _))

/-- The step takes no Continue and opens no session at the wrong time. -/
def InTurn (link : Link) (sys : System cfg) : Action → Prop
  | .client (.resume _) => ∀ x ∈ continuing sys.client, namedBlock x.2 = some x.1.nextNum
  | .server a => OpensInTime link sys a
  | _ => True

instance (link : Link) (sys : System cfg) : (a : Action) → Decidable (InTurn link sys a)
  | .client (.resume _) => inferInstanceAs (Decidable (∀ x ∈ continuing sys.client, _))
  | .server a => inferInstanceAs (Decidable (OpensInTime link sys a))
  | .client (.call ..) | .client (.poll ..) => .isTrue trivial

/-- The network, the one upload, and the condition. -/
def Steps (link : Link) (sys : System cfg) (a : Action) : Prop :=
  Carried link sys a ∧ OneUpload a ∧ InTurn link sys a

instance (link : Link) (sys : System cfg) (a : Action) : Decidable (Steps link sys a) :=
  inferInstanceAs (Decidable (_ ∧ _))

-- ===========================================================================
-- The invariant
-- ===========================================================================

/-- If the datagram brings a block, it is one of this upload, and not past `nextNum`. -/
def Reaches (cfg : Config) (up : Block1UploadState) (data : Bytes) : Prop :=
  ∀ msg opt b1, Message.decode cfg data = (.none, msg) → Server.block1Option cfg msg = some opt →
    BlockOption.fromOption opt = some b1 →
      msg.token = [up.token] ∧ b1.num.toNat ≤ up.nextNum.toNat ∧
        (b1.m = true ↔ up.Has (b1.num.toNat + 1))

/-- If the datagram names a block, the client has sent it and there are more; and if it is the
block in flight, a session has it. -/
def Answers (link : Link) (up : Block1UploadState) (s : Server cfg) (data : Bytes) : Prop :=
  ∀ msg, Message.decode cfg data = (.none, msg) → msg.type ≠ .reset ∧
    ∀ num ∈ namedBlock msg, num.toNat ≤ up.nextNum.toNat ∧ up.Has (num.toNat + 1) ∧
      (num = up.nextNum → ∃ j, Joined link up (s.block1sessions j) ∧
        (s.block1sessions j).nextExpectedNum.toNat = up.nextNum.toNat + 1)

/-- Where the code stands while the upload in slot `i` is in progress. -/
def Underway (i : Fin cfg.maxTransactions) (up : Block1UploadState) (toClient : List Bytes) :
    Control cfg → Prop
  | .polling (.dispatch _ msg) _ => ∃ data ∈ toClient, Message.decode cfg data = (.none, msg)
  | .polling (.block1 j) _ => j = i ∧ up.Has up.nextNum.toNat
  | .polling (.block2 _) _ | .polling (.close ..) _ => False
  | .polling .expire _ | .polling (.tick _) _ | .polling .ret _ | .idle => True

/-- The client, with what it has sent and heard. -/
structure ClientSide (i : Fin cfg.maxTransactions) (c : Client cfg)
    (toServer toClient : List Bytes) : Prop where
  quiet   : ∀ j, (c.discovers j).active = false
  token   : (c.slots i).pending.token = [(c.slots i).upload.token]
  small   : (c.slots i).upload.nextNum.toNat ≤ 2 ^ 20
  control : Underway i (c.slots i).upload toClient c.control
  waiting : ∀ t, Awaiting (c.transactions t) →
    Reaches cfg (c.slots i).upload (c.transactions t).message
  sent    : ∀ data ∈ toServer, Reaches cfg (c.slots i).upload data

/-- The server, with what it has sent. -/
structure ServerSide (link : Link) (up : Block1UploadState) (s : Server cfg)
    (toClient : List Bytes) : Prop where
  tables  : s.Uploading
  tokens  : s.TokensFit
  pool    : s.PoolSatisfies (Lacking cfg)
  running : ∀ h, s.control = .handling h → h.msg.token.length ≤ kMaxTokenLen
  inRange : ∀ j, Joined link up (s.block1sessions j) →
    up.nextNum.toNat ≤ (s.block1sessions j).nextExpectedNum.toNat ∧
      (s.block1sessions j).nextExpectedNum.toNat ≤ up.nextNum.toNat + 1
  isOpen  : ∀ j, Joined link up (s.block1sessions j) →
    up.Has (s.block1sessions j).nextExpectedNum.toNat ∨
      ∃ h, s.control = .handling h ∧ h.session = some j
  ending  : ∀ h j, s.control = .handling h → h.session = some j →
    Joined link up (s.block1sessions j) → ¬ up.Has (s.block1sessions j).nextExpectedNum.toNat
  answers : ∀ data ∈ toClient, Answers link up s data

/-- Block numbers do not wrap. -/
theorem toNat_next {num : UInt32} (h : num.toNat < 2 ^ 20) : (num + 1).toNat = num.toNat + 1 := by
  have h1 : (1 : UInt32).toNat = 1 := rfl
  rw [UInt32.toNat_add, h1]
  omega

end System

end PulseCoap
