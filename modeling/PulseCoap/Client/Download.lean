import PulseCoap.Client.Dispatch
import PulseCoap.Client.Options

/-!
# PulseCoAP — whether a fragmented response makes progress

A response with a Block2 option is a block of a larger one. The client appends it when it
has the number that comes next, and ignores its bytes otherwise. What it does then does
not depend on that: for a block with more to come it asks for the next one, for one
without it calls back. So a server that repeats a block is asked again and again, and a
last block that comes too early ends the transfer with a body that has a gap.

`Transfers` is the client with the numbers each slot has asked for in its transfer.

The condition is on the block that comes next and on the state before it, and it
asks less than that no datagram is repeated: a block that is repeated is not in
its turn, and neither is one that comes too early. `Steady` is the invariant. It
bounds the numbers a slot has asked for by the number it waits for, and knows of
the slot that is about to ask that the request will have the next number.

* `fragment`, `followUp` — a block that is dispatched, and the request for a further one.
* `step_moves` — what a step does to the receive states.
* `Regular` — the server sends the blocks in order, and not too many.
* `Progress` — the numbers go up, there is a bound on them, and the end is in order.
* `regular_progress` — the run.
* `no_progress` — block 0 twice.
* `askedFor_next` — the number of a request, read back from its datagram.
* `Steady` — the invariant; `Steady.step` and `Steady.progress` use it.
-/

namespace PulseCoap

namespace Client

variable {cfg : Config}

-- ===========================================================================
-- Blocks and the requests for them
-- ===========================================================================

/-- A block of a response for a slot. -/
structure Fragment (cfg : Config) where
  slot   : Fin cfg.maxTransactions
  block  : BlockOption
  sender : Endpoint
  msg    : Message

/-- The block in a message that gets as far as the Block2 branch. -/
def fragmentOf (c : Client cfg) (sender : Endpoint) (msg : Message) : Option (Fragment cfg) :=
  match c.findDiscover msg.token, c.findPendingByToken msg.token with
  | none, some i =>
    if cfg.enableBlockwise ∧ ¬ (msg.code = Code.«continue» ∧ (c.slots i).upload.active) then
      (block2Of msg).map fun b => { slot := i, block := b, sender, msg }
    else none
  | _, _ => none

/-- The block a step dispatches. -/
def fragment (c : Client cfg) : Action → Option (Fragment cfg)
  | .resume _ =>
    match c.control with
    | .polling (.dispatch sender msg) _ => c.fragmentOf sender msg
    | _ => none
  | _ => none

/-- The slot that is about to ask for its next block. -/
def asking (c : Client cfg) : Option (Fin cfg.maxTransactions) :=
  match c.control with
  | .polling (.block2 i) _ => some i
  | _ => none

/-- The request for a further block that goes out in a step. -/
def followUp (c : Client cfg) (a : Action) : Option (Fin cfg.maxTransactions × Bytes) :=
  match c.asking, (c.step a).2 with
  | some i, .sent _ data :: _ => some (i, data)
  | _, _ => none

/-- The block a datagram asks for. -/
def askedFor (cfg : Config) (data : Bytes) : Option BlockOption :=
  block2Of (Message.decode cfg data).2

/-- The number a receive state waits for. -/
def expectedNum (recv : Block2RecvState) : UInt32 := if recv.active then recv.nextNum else 0

-- ===========================================================================
-- Receive states
-- ===========================================================================

/-- The receive state of every slot is as before, or off. -/
def KeepsRecv (c c' : Client cfg) : Prop :=
  ∀ i, (c'.slots i).recv = (c.slots i).recv ∨ (c'.slots i).recv.active = false

/-- What leaves the slots alone keeps the transfers. -/
theorem KeepsRecv.of_slots {c c' : Client cfg} (h : c'.slots = c.slots) : KeepsRecv c c' :=
  fun i => .inl (by rw [h])

/-- So does writing one slot with its transfer unchanged, or with none. -/
theorem KeepsRecv.of_set {c c' : Client cfg} {i : Fin cfg.maxTransactions} {s : ClientSlot}
    (h : c'.slots = c.slots.set i s) (hs : s.recv = (c.slots i).recv ∨ s.recv.active = false) :
    KeepsRecv c c' := by
  intro j
  rw [h]
  by_cases hj : j = i
  · subst hj
    rw [Table.set_self]
    exact hs
  · rw [Table.set_ne _ _ hj]
    exact .inl rfl

/-- Writing the `pending_` entry leaves the receive states alone. -/
theorem release_recv (c : Client cfg) (i j : Fin cfg.maxTransactions) :
    ((c.release i).slots j).recv = (c.slots j).recv := by
  show ((c.slots.set i _) j).recv = _
  by_cases hj : j = i
  · rw [hj, Table.set_self]
  · rw [Table.set_ne _ _ hj]

/-- A slot that is given back has no transfer. -/
theorem keepsRecv_release (c : Client cfg) (i : Fin cfg.maxTransactions) :
    KeepsRecv c (c.release i) :=
  fun j => .inl (c.release_recv i j)

/-- Nor has the slot of a new request. -/
theorem keepsRecv_sendRequest (c : Client cfg) (a : RequestArgs) (sendOk : Bool) :
    KeepsRecv c (c.sendRequest a sendOk).1 := by
  rcases sendRequest_cases c a sendOk with ⟨-, heq⟩ | ⟨i, -, -, heq⟩ | ⟨i, buf, -, -, heq⟩
  · rw [heq]
    exact .of_slots rfl
  · rw [heq]
    exact .of_set rfl (.inl rfl)
  · rw [heq]
    refine .of_set rfl ?_
    unfold requestSlot
    dsimp only
    split
    · exact .inr rfl
    · exact .inl rfl

/-- Nor has the slot of an upload. -/
theorem keepsRecv_startUpload (c : Client cfg) (a : RequestArgs) (sendOk : Bool) :
    KeepsRecv c (c.startUpload a sendOk).1 := by
  rcases startUpload_cases c a sendOk with ⟨-, heq⟩ | ⟨i, id, -, -, heq⟩ | ⟨i, buf, -, -, heq⟩
  · rw [heq]
    exact .of_slots rfl
  · -- refused with a path that is too long, or with a block that does not go out
    rw [heq]
    refine .of_set rfl ?_
    unfold refusedSlot
    split
    · exact .inl rfl
    · exact .inr rfl
  · rw [heq]
    exact .of_set rfl (.inr rfl)

/-- A request, in one datagram or in blocks. -/
theorem keepsRecv_issue (c : Client cfg) (a : RequestArgs) (sendOk : Bool) :
    KeepsRecv c (c.issue a sendOk).1 := by
  unfold issue
  split
  · exact keepsRecv_startUpload c a sendOk
  · exact keepsRecv_sendRequest c a sendOk

/-- **A call of the API** starts no download: the first block does. A new request turns the
receive state of its slot off, or leaves it. -/
theorem keepsRecv_call (c : Client cfg) (sendOk : Bool) (call : ClientCall) :
    KeepsRecv c (c.call sendOk call).1 := by
  rw [call_eq]
  cases call.shape with
  | issue a => exact keepsRecv_issue c a sendOk
  | cancel server path =>
    dsimp only
    cases c.findObserve server path with
    | none => exact .of_slots rfl
    | some i =>
      intro j
      rw [← c.release_recv i j]
      exact keepsRecv_issue (c.release i) _ sendOk j
  | discover ep onDiscover userContext =>
    rcases discover_cases c ep onDiscover userContext sendOk with ⟨token, id, heq, -⟩ |
      ⟨i, buf, -, -, heq⟩
    · dsimp only
      rw [heq]
      exact .of_slots rfl
    · dsimp only
      rw [heq]
      exact .of_slots rfl
  | handler h => exact .of_slots rfl

-- ===========================================================================
-- One step
-- ===========================================================================

/-- Nothing is received, and no block is asked for next. -/
structure Rests (c c' : Client cfg) : Prop where
  recv   : KeepsRecv c c'
  asking : c'.asking = none

/-- A timeout callback leaves the transfers alone, and asks for no block. -/
theorem rests_fireTimeout {c c' : Client cfg} (h : KeepsRecv c c') (call : Call) (ctx : Option Ref)
    {k : Cont cfg} (hk : ∀ inCallback, (c'.at' k inCallback).asking = none) :
    Rests c (c'.fireTimeout call ctx k).1 := by
  rw [fireTimeout_eq]
  exact ⟨h, hk _⟩

/-- So does a response callback. -/
theorem rests_fireResponse {c c' : Client cfg} (h : KeepsRecv c c') (i : Fin cfg.maxTransactions)
    (res : ClientResponse) (fragmented : Bool) :
    Rests c (c'.fireResponse i res fragmented).1 := by
  rw [fireResponse_eq]
  exact ⟨h, rfl⟩

/-- So does a poll up to its first cut. -/
theorem rests_poll (c : Client cfg) (nowMs : UInt32) (rx : Option (Endpoint × Bytes)) :
    Rests c (c.poll nowMs rx).1 := by
  rcases poll_cases c nowMs rx with heq | ⟨sender, data, msg, -, -, heq⟩
  · rw [heq]
    exact ⟨.of_slots rfl, rfl⟩
  · rw [heq]
    rcases handleMessage_cases (c.atTime nowMs) sender msg with ⟨-, heq⟩ | ⟨c', hc', heq⟩
    · -- RST
      rw [heq]
      rcases handleReset_cases (c.atTime nowMs) sender msg.messageId with heq | ⟨t, i, -, -, heq⟩
      · rw [heq]
        exact ⟨.of_slots rfl, rfl⟩
      · rw [heq]
        have hkeep : KeepsRecv c (((c.atTime nowMs).completed sender msg.messageId).release i) :=
          keepsRecv_release ((c.atTime nowMs).completed sender msg.messageId) i
        exact rests_fireTimeout (k := .ret) hkeep _ _ fun _ => rfl
    · have hkeep : KeepsRecv c c' := by
        rcases hc' with rfl | rfl
        · exact .of_slots rfl
        · exact .of_slots rfl
      rcases heq with heq | heq
      · rw [heq]
        exact ⟨hkeep, rfl⟩
      · rw [heq]
        exact ⟨hkeep, rfl⟩

/-- So does an entry of the scan. -/
theorem rests_tickAt (c : Client cfg) (i : Fin cfg.maxTransactions) (sendOk : Bool) :
    Rests c (c.tickAt i sendOk).1 := by
  rcases tickAt_cases c i sendOk with ⟨-, heq⟩ | ⟨-, -, -, heq⟩ | ⟨-, -, -, heq⟩
  · rw [heq]
    exact ⟨.of_slots rfl, rfl⟩
  · rw [heq]
    exact ⟨.of_slots rfl, rfl⟩
  · rw [heq]
    have hfreed : KeepsRecv c (c.freed i) := .of_slots rfl
    rcases timeoutTrampoline_cases (c.freed i) (c.transactions i).token (c.transactions i).owner
      (.tick (i + 1)) with ⟨j, -, heq⟩ | ⟨-, heq⟩
    · rw [heq]
      have hkeep : KeepsRecv c ((c.freed i).release j) := keepsRecv_release (c.freed i) j
      exact rests_fireTimeout (k := .tick (i + 1)) hkeep _ _ fun _ => rfl
    · rw [heq]
      exact rests_fireTimeout (k := .tick (i + 1)) hfreed _ _ fun _ => rfl

/-- A slot is closed: its receive state is as before, or off. -/
theorem keepsRecv_close (c : Client cfg) (i : Fin cfg.maxTransactions) (fragmented : Bool) :
    KeepsRecv c (c.close i fragmented) := by
  rw [close_eq]
  refine .of_set rfl ?_
  unfold closedSlot
  cases fragmented with
  | false => exact .inl (by split <;> rfl)
  | true => exact .inr (by split <;> rfl)

/-- A block goes to its slot. With more to come the next one is asked for, without the handler is
called with the body. -/
structure Receives (c : Client cfg) (f : Fragment cfg) (r : Client cfg × List ClientEvent) :
    Prop where
  here  : (r.1.slots f.slot).recv = recvBlock cfg (c.slots f.slot).recv f.block f.sender f.msg
  other : ∀ j, j ≠ f.slot → (r.1.slots j).recv = (c.slots j).recv
  more  : f.block.m = true → r.1.asking = some f.slot ∧ r.1.appHasControl = false
  last  : f.block.m = false → r.1.asking = none ∧
    (∃ call inCallback, r.1.control = .polling (.close f.slot true call) inCallback) ∧
      ∀ h, (c.slots f.slot).pending.onResponse = some h → ∃ call res ctx,
        .response call h res ctx ∈ r.2

/-- What `setBlocks` writes, and that it is in this slot only. -/
theorem setBlocks_recv (c : Client cfg) (i : Fin cfg.maxTransactions) (up : Block1UploadState)
    (recv : Block2RecvState) : ((c.setBlocks i up recv).slots i).recv = recv ∧
      ∀ j, j ≠ i → ((c.setBlocks i up recv).slots j).recv = (c.slots j).recv := by
  refine ⟨?_, fun j hj => ?_⟩
  · show ((c.slots.set i _) i).recv = _
    rw [Table.set_self]
  · show ((c.slots.set i _) j).recv = _
    rw [Table.set_ne _ _ hj]

/-- The upload of a slot may move on beside its download. -/
theorem keepsRecv_setBlocks (c : Client cfg) (i : Fin cfg.maxTransactions)
    (up : Block1UploadState) : KeepsRecv c (c.setBlocks i up (c.slots i).recv) :=
  .of_set rfl (.inl rfl)

/-- A block in the Block2 branch. -/
theorem receives_fragment {c : Client cfg} {i : Fin cfg.maxTransactions} {sender : Endpoint}
    {msg : Message} (hb : cfg.enableBlockwise = true)
    (hcont : ¬ (msg.code = Code.«continue» ∧ (c.slots i).upload.active = true)) {b : BlockOption}
    (h2 : block2Of msg = some b) :
    Receives c { slot := i, block := b, sender, msg } (c.dispatchPending i sender msg) := by
  obtain ⟨hhere, hother⟩ := c.setBlocks_recv i (uploadDone (c.slots i).upload)
    (recvBlock cfg (c.slots i).recv b sender msg)
  rw [dispatchPending_fragment hb hcont h2]
  dsimp only
  by_cases hm : b.m = true
  · rw [if_pos hm]
    refine ⟨hhere, hother, fun _ => ⟨rfl, rfl⟩, fun hlast => ?_⟩
    rw [show b.m = false from hlast] at hm
    cases hm
  · rw [if_neg hm, fireResponse_eq]
    refine ⟨hhere, hother, fun hmore => absurd hmore hm, fun _ => ⟨rfl, ⟨_, _, rfl⟩, ?_⟩⟩
    intro h hh
    have hpending : ((c.setBlocks i (uploadDone (c.slots i).upload)
        (recvBlock cfg (c.slots i).recv b sender msg)).slots i).pending =
        (c.slots i).pending := by
      show ((c.slots.set i _) i).pending = _
      rw [Table.set_self]
    rw [hpending, hh]
    exact ⟨_, _, _, List.mem_singleton.2 rfl⟩

/-- **The dispatch of a response**, by whether it has a block. Without one nothing is stored,
and the slot rests. -/
theorem dispatch_moves (c : Client cfg) (sender : Endpoint) (msg : Message) :
    (c.fragmentOf sender msg = none ∧ Rests c (c.dispatchResponse sender msg).1) ∨
      ∃ f, c.fragmentOf sender msg = some f ∧ Receives c f (c.dispatchResponse sender msg) := by
  unfold fragmentOf
  -- a fragment comes to a pending slot, in the block-wise build, and is no 2.31 of an upload
  rcases dispatchResponse_cases c sender msg with ⟨i, hd, heq⟩ | ⟨i, hd, hp, heq⟩ | ⟨hd, hp, heq⟩
  · rw [heq, hd]
    exact .inl ⟨rfl, .of_slots rfl, rfl⟩
  · rw [heq, hd, hp]
    dsimp only
    by_cases hb : cfg.enableBlockwise = true
    · by_cases hcont : msg.code = Code.«continue» ∧ (c.slots i).upload.active = true
      · -- a Continue for an upload
        rw [if_neg fun hboth => hboth.2 hcont]
        refine .inl ⟨rfl, ?_⟩
        unfold dispatchPending
        rw [if_pos hb, if_pos hcont]
        exact ⟨keepsRecv_setBlocks c i _, rfl⟩
      · rw [if_pos ⟨hb, hcont⟩]
        cases h2 : block2Of msg with
        | none =>
          rw [dispatchPending_plain hb hcont h2]
          exact .inl ⟨rfl, rests_fireResponse (keepsRecv_setBlocks c i _) i _ false⟩
        | some b => exact .inr ⟨_, rfl, receives_fragment hb hcont h2⟩
    · rw [if_neg fun hboth => hb hboth.1]
      refine .inl ⟨rfl, ?_⟩
      unfold dispatchPending
      rw [if_neg hb]
      exact rests_fireResponse (.of_slots rfl) i _ false
  · rw [heq, hd, hp]
    exact .inl ⟨rfl, .of_slots rfl, rfl⟩

/-- The fragment of a step is the one in the message it dispatches. -/
theorem fragment_dispatch {c : Client cfg} {sender : Endpoint} {msg : Message} {inCallback : Bool}
    (hctl : c.control = .polling (.dispatch sender msg) inCallback) (sendOk : Bool) :
    c.fragment (.resume sendOk) = c.fragmentOf sender msg := by
  unfold fragment
  rw [hctl]

/-- What `poll` does at the other cuts. -/
theorem resume_moves (c : Client cfg) {k : Cont cfg} {inCallback : Bool}
    (hctl : c.control = .polling k inCallback) (hk : ∀ sender msg, k ≠ .dispatch sender msg)
    (sendOk : Bool) :
    c.fragment (.resume sendOk) = none ∧ Rests c (c.resume k sendOk).1 := by
  constructor
  · unfold fragment
    rw [hctl]
    cases k with
    | dispatch sender msg => exact absurd rfl (hk sender msg)
    | _ => rfl
  · cases k with
    | dispatch sender msg => exact absurd rfl (hk sender msg)
    | block1 i =>
      -- an upload keeps the receive state of its slot, also when it is abandoned
      rcases continueUpload_cases c i sendOk with ⟨-, id, heq⟩ | ⟨buf, -, heq⟩
      · show Rests c (c.continueUpload i sendOk).1
        have hkeep : KeepsRecv c ((c.withId id).abandon i) := .of_set rfl (.inl rfl)
        rw [heq]
        exact rests_fireTimeout (k := .expire) hkeep _ _ fun _ => rfl
      · show Rests c (c.continueUpload i sendOk).1
        have hkeep : KeepsRecv c (c.block1Sent i buf) := .of_set rfl (.inl rfl)
        rw [heq]
        exact ⟨hkeep, rfl⟩
    | block2 i =>
      rcases resumeBlock2_cases c i sendOk with ⟨-, heq⟩ | ⟨buf, -, heq⟩
      · rw [heq]
        exact ⟨.of_slots rfl, rfl⟩
      · rw [heq]
        exact ⟨.of_slots rfl, rfl⟩
    -- the handler has had the body
    | close i fragmented call => exact ⟨keepsRecv_close c i fragmented, rfl⟩
    | expire => exact ⟨.of_slots rfl, rfl⟩
    | tick index =>
      rw [resume_tick]
      split
      · exact rests_tickAt c _ sendOk
      · exact ⟨.of_slots rfl, rfl⟩
    | ret => exact ⟨.of_slots rfl, rfl⟩

/-- **One step**: it receives a block, or it is ignored, or nothing is received and no block is
asked for next. The segment that asks follows the one that has received. -/
theorem step_moves {c : Client cfg} (hbusy : c.asking.isSome = true → c.appHasControl = false)
    (a : Action) :
    (∃ f, c.fragment a = some f ∧ c.asking = none ∧ Receives c f (c.step a)) ∨
      (c.fragment a = none ∧ (c.step a = (c, []) ∨ Rests c (c.step a).1)) := by
  -- only a `resume` that dispatches a message can receive a block
  cases a with
  | call call sendOk =>
    refine .inr ⟨rfl, ?_⟩
    unfold step
    dsimp only
    by_cases happ : c.appHasControl = true
    · -- no call comes between a block and the request for the next one
      have hnone : c.asking = none := by
        cases hask : c.asking with
        | none => rfl
        | some i =>
          rw [hbusy (by rw [hask]; rfl)] at happ
          cases happ
      rw [if_pos happ]
      refine .inr ⟨keepsRecv_call c sendOk call, ?_⟩
      unfold asking at hnone ⊢
      rw [(call_quiet c sendOk call).2]
      exact hnone
    · rw [if_neg happ]
      exact .inl rfl
  | poll nowMs rx =>
    refine .inr ⟨rfl, ?_⟩
    unfold step
    dsimp only
    cases c.control with
    | idle => exact .inr (rests_poll c nowMs rx)
    | polling k inCallback => exact .inl rfl
  | resume sendOk =>
    cases hctl : c.control with
    | idle =>
      refine .inr ⟨?_, .inl (step_resume_idle hctl sendOk)⟩
      unfold fragment
      rw [hctl]
    | polling k inCallback =>
      rw [step_resume hctl]
      -- the other cuts of `poll` leave the receive states alone
      by_cases hk : ∃ sender msg, k = .dispatch sender msg
      · obtain ⟨sender, msg, rfl⟩ := hk
        rw [fragment_dispatch hctl]
        have hasking : c.asking = none := by
          unfold asking
          rw [hctl]
        rcases c.dispatch_moves sender msg with ⟨hnone, hrests⟩ | ⟨f, hf, hr⟩
        · exact .inr ⟨hnone, .inr hrests⟩
        · refine .inl ⟨f, hf, hasking, hr.here, hr.other, hr.more, fun hm => ?_⟩
          -- the ACK comes before the callback
          obtain ⟨hask, hclose, hfires⟩ := hr.last hm
          refine ⟨hask, hclose, fun h hh => ?_⟩
          obtain ⟨call, res, ctx, hmem⟩ := hfires h hh
          exact ⟨call, res, ctx, List.mem_append_right _ hmem⟩
      · obtain ⟨hnone, hrests⟩ := c.resume_moves hctl
          (fun sender msg heq => hk ⟨sender, msg, heq⟩) sendOk
        exact .inr ⟨hnone, .inr hrests⟩

-- ===========================================================================
-- The request for the next block
-- ===========================================================================

/-- The slot that asks, and what it transmits. -/
theorem followUp_some {c : Client cfg} (hbusy : c.asking.isSome = true → c.appHasControl = false)
    {a : Action} {i : Fin cfg.maxTransactions} {data : Bytes} (h : c.followUp a = some (i, data)) :
    c.asking = some i ∧ ∃ sendOk, c.block2Datagram i sendOk = some data := by
  unfold followUp at h
  cases hask : c.asking with
  | none =>
    rw [hask] at h
    cases h
  | some i' =>
    rw [hask] at h hbusy
    have hfree := hbusy rfl
    obtain ⟨inCallback, hctl⟩ : ∃ inCallback, c.control = .polling (.block2 i') inCallback := by
      unfold asking at hask
      split at hask
      · rename_i i'' inCallback hctl
        rw [← Option.some.inj hask]
        exact ⟨inCallback, hctl⟩
      · cases hask
    -- only the code of `poll` goes on from there
    cases a with
    | call call sendOk =>
      simp only [step, hfree] at h
      cases h
    | poll nowMs rx =>
      simp only [step, hctl] at h
      cases h
    | resume sendOk =>
      rw [step_resume hctl] at h
      rcases resumeBlock2_cases c i' sendOk with ⟨-, heq⟩ | ⟨buf, hbuf, heq⟩
      · rw [heq] at h
        cases h
      · rw [heq] at h
        cases h
        exact ⟨rfl, sendOk, hbuf⟩

/-- There is room for a Block2 option with this number behind the path. -/
def CanAsk (cfg : Config) (recv : Block2RecvState) (num : Nat) : Prop :=
  (Uri.segments recv.path).length < cfg.maxOptions ∧ num < 2 ^ 20

instance (cfg : Config) (recv : Block2RecvState) (num : Nat) : Decidable (CanAsk cfg recv num) :=
  inferInstanceAs (Decidable (_ ∧ _))

/-- **On the wire** the request has the number the receive state waits for, as long as there is
room for the option and the number has twenty bits. -/
theorem askedFor_next {recv : Block2RecvState} {token : Bytes} {messageId : UInt16}
    {sendOk : Bool} {data : Bytes}
    (hsent : transmit cfg (buildBlock2 cfg recv token messageId) sendOk = some data)
    (hcan : CanAsk cfg recv recv.nextNum.toNat) :
    ∃ b, askedFor cfg data = some b ∧ b.num = recv.nextNum := by
  obtain ⟨m, hm, henc⟩ := transmit_some hsent
  have hlist := (lists_block2 hm).1
  obtain rfl := encode_wire hlist.built henc
  obtain ⟨msg, hdec, hopts⟩ := hlist.decoded
  have hall : (nextWanted recv.path recv).length ≤ cfg.maxOptions := by
    have hroom := hcan.1
    unfold nextWanted Wanted.path
    rw [List.length_append, List.length_map, List.length_singleton]
    omega
  rw [List.take_of_length_le hall] at hopts
  have hblock := Message.uintOption_entry OptionNumber.block2
    (BlockOption.toOptionValue recv.nextNum false recv.szx)
  -- the segments of the path are other options
  have hfound : msg.findOption OptionNumber.block2 = some (Message.ofEntry
      (OptionNumber.block2.toNat, Message.uintBytes
        (BlockOption.toOptionValue recv.nextNum false recv.szx))) := by
    have hpath : ∀ w ∈ Wanted.path recv.path,
        ¬ (Message.ofEntry w.entry).number = OptionNumber.block2 := by
      intro w hw hnum
      have hwire : (Message.ofEntry w.entry).number = w.number := by
        unfold Message.ofEntry
        rw [Wanted.entry_number, UInt16.ofNat_toNat]
      rw [hwire, path_number hw] at hnum
      cases hnum
    unfold Message.findOption
    rw [hopts]
    unfold nextWanted
    rw [List.map_append, List.find?_append]
    have hnone : ((Wanted.path recv.path).map fun w => Message.ofEntry w.entry).find?
        (fun o => o.number == OptionNumber.block2) = none := by
      rw [List.find?_eq_none]
      intro o ho
      obtain ⟨w, hw, rfl⟩ := List.mem_map.1 ho
      simpa using hpath w hw
    rw [hnone]
    rfl
  obtain ⟨b, hb, hnum, -⟩ := BlockOption.fromOption_number hblock hcan.2
  refine ⟨b, ?_, hnum⟩
  unfold askedFor block2Of
  rw [hdec, hfound]
  exact hb

-- ===========================================================================
-- Runs
-- ===========================================================================

/-- The client, and the numbers each slot has asked for in its transfer. -/
structure Transfers (cfg : Config) where
  client : Client cfg
  asked  : Table cfg.maxTransactions (List Nat) := fun _ => []

/-- The number in a request for a block. -/
def numberIn (cfg : Config) (data : Bytes) : Nat :=
  ((askedFor cfg data).map (·.num.toNat)).getD 0

/-- A transfer begins with a block for a slot that receives nothing yet. -/
def Transfers.next (st : Transfers cfg) (a : Action) : Transfers cfg × List ClientEvent :=
  let r := st.client.step a
  ({ client := r.1
     asked :=
       match st.client.fragment a, st.client.followUp a with
       | some f, _ =>
         if (st.client.slots f.slot).recv.active then st.asked else st.asked.set f.slot []
       | none, some (i, data) => st.asked.set i (st.asked i ++ [numberIn cfg data])
       | none, none => st.asked }, r.2)

def transfers (cfg : Config) : Machine (Transfers cfg) Action ClientEvent where
  init := { client := {} }
  next := Transfers.next

/-- How many blocks of the smallest size a body has. -/
def maxFollowUps (cfg : Config) : Nat := cfg.block2MaxBody / 16

/-- **A step makes progress.** A request for a block has a number above those before it in the
transfer, which are fewer than the body has smallest blocks; after that many, a block ends the
transfer with a callback. A callback is for a block that was expected. At the end the slot
receives nothing more, and a request that does not observe is over. -/
structure Progress (st : Transfers cfg) (a : Action) : Prop where
  follow : ∀ i data, st.client.followUp a = some (i, data) → ∃ b, askedFor cfg data = some b ∧
    (∀ n ∈ st.asked i, n < b.num.toNat) ∧ (st.asked i).length < maxFollowUps cfg
  ends   : ∀ f, st.client.fragment a = some f → (st.client.slots f.slot).recv.active = true →
    maxFollowUps cfg ≤ (st.asked f.slot).length →
      (∃ call inCallback, (st.client.step a).1.control =
        .polling (.close f.slot true call) inCallback) ∧
      ∀ h, (st.client.slots f.slot).pending.onResponse = some h → ∃ call res ctx,
        .response call h res ctx ∈ (st.client.step a).2
  last   : ∀ f call h res ctx, st.client.fragment a = some f →
    .response call h res ctx ∈ (st.client.step a).2 →
      f.block.num = expectedNum (st.client.slots f.slot).recv
  closes : ∀ i call inCallback sendOk,
    st.client.control = .polling (.close i true call) inCallback → a = .resume sendOk →
      ((st.client.step a).1.slots i).recv.active = false ∧
      (((st.client.step a).1.slots i).pending.observing = false →
        ((st.client.step a).1.slots i).pending.active = false)

/-- A block in its turn: it is the one that is expected, and if there are more to come, it is not
behind the last smallest block of the body, and the next one can be asked for. -/
def InTurn (c : Client cfg) (f : Fragment cfg) : Prop :=
  f.block.num = expectedNum (c.slots f.slot).recv ∧
    (f.block.m = true → f.block.num.toNat < maxFollowUps cfg ∧
      CanAsk cfg (c.slots f.slot).recv (f.block.num.toNat + 1))

instance (c : Client cfg) (f : Fragment cfg) : Decidable (c.InTurn f) :=
  inferInstanceAs (Decidable (_ ∧ (_ → _ ∧ _)))

/-- Every block comes in its turn. -/
def Regular (st : Transfers cfg) (a : Action) : Prop :=
  ∀ f ∈ st.client.fragment a, st.client.InTurn f

instance (st : Transfers cfg) (a : Action) : Decidable (Regular st a) :=
  inferInstanceAs (Decidable (∀ f ∈ st.client.fragment a, st.client.InTurn f))

/-- Numbers up to `n`, and not more than `n`. -/
def UpTo (n : Nat) (asked : List Nat) : Prop := (∀ k ∈ asked, k ≤ n) ∧ asked.length ≤ n

theorem UpTo.mono {n n' : Nat} {asked : List Nat} (h : UpTo n asked) (hle : n ≤ n') :
    UpTo n' asked :=
  ⟨fun k hk => (h.1 k hk).trans hle, h.2.trans hle⟩

/-- The next number is asked for. -/
theorem UpTo.next {n : Nat} {asked : List Nat} (h : UpTo n asked) :
    UpTo (n + 1) (asked ++ [n + 1]) := by
  refine ⟨fun k hk => ?_, ?_⟩
  · rcases List.mem_append.1 hk with hk | hk
    · exact Nat.le_succ_of_le (h.1 k hk)
    · exact (List.mem_singleton.1 hk).le
  · rw [List.length_append, List.length_singleton]
    exact Nat.succ_le_succ h.2

/-- **The invariant.** What a slot has asked for is not above what it waits for, and below it
while the next request is still to be sent. -/
structure Steady (st : Transfers cfg) : Prop where
  busy    : st.client.asking.isSome = true → st.client.appHasControl = false
  waiting : ∀ i, (st.client.slots i).recv.active = true → st.client.asking ≠ some i →
    UpTo (st.client.slots i).recv.nextNum.toNat (st.asked i)
  asking  : ∀ i, st.client.asking = some i → ∃ n,
    (st.client.slots i).recv.nextNum.toNat = n + 1 ∧ UpTo n (st.asked i) ∧
      n < maxFollowUps cfg ∧ CanAsk cfg (st.client.slots i).recv (n + 1)

/-- A block number has twenty bits. -/
theorem fragment_num {c : Client cfg} {a : Action} {f : Fragment cfg} (h : c.fragment a = some f) :
    f.block.num.toNat < 2 ^ 20 := by
  obtain ⟨sender, msg, hf⟩ : ∃ sender msg, c.fragmentOf sender msg = some f := by
    unfold fragment at h
    split at h
    · split at h
      · exact ⟨_, _, h⟩
      · cases h
    · cases h
  unfold fragmentOf at hf
  split at hf
  · split at hf
    · obtain ⟨b, hb, rfl⟩ := Option.map_eq_some_iff.1 hf
      unfold block2Of at hb
      split at hb
      · exact BlockOption.fromOption_num hb
      · cases hb
    · cases hf
  · cases hf

/-- What a receive state is after a block that was expected. -/
theorem recvBlock_expected (cfg : Config) {recv : Block2RecvState} {b : BlockOption} (sender : Endpoint)
    (msg : Message) (hnum : b.num = expectedNum recv) :
    (recvBlock cfg recv b sender msg).nextNum = b.num + 1 ∧
      (recvBlock cfg recv b sender msg).path = recv.path := by
  unfold expectedNum at hnum
  unfold recvBlock
  dsimp only
  cases hact : recv.active with
  | false =>
    simp only [hact, Bool.false_eq_true, if_false] at hnum
    simp [hnum]
  | true =>
    simp only [hact, if_true] at hnum
    simp [hnum]

namespace Steady

variable {st : Transfers cfg}

/-- What a slot has asked for when a block comes, in the transfer that the block belongs to. -/
theorem upTo (h : Steady st) {a : Action} {f : Fragment cfg} (hf : st.client.fragment a = some f)
    (hask : st.client.asking = none) :
    UpTo (expectedNum (st.client.slots f.slot).recv).toNat ((Transfers.next st a).1.asked f.slot) := by
  unfold Transfers.next expectedNum
  simp only [hf]
  by_cases hact : (st.client.slots f.slot).recv.active = true
  · rw [if_pos hact, if_pos hact]
    exact h.waiting f.slot hact (by rw [hask]; nofun)
  · rw [if_neg hact, if_neg hact, Table.set_self]
    exact ⟨fun _ hk => (nomatch hk), Nat.zero_le _⟩

/-- What a slot has asked for after a step that dispatches no block. -/
theorem asked (h : Steady st) {a : Action} (hnone : st.client.fragment a = none)
    {i : Fin cfg.maxTransactions} (hact : (st.client.slots i).recv.active = true) :
    UpTo (st.client.slots i).recv.nextNum.toNat ((Transfers.next st a).1.asked i) := by
  unfold Transfers.next
  simp only [hnone]
  cases hfollow : st.client.followUp a with
  | none =>
    by_cases hi : st.client.asking = some i
    · obtain ⟨n, hnum, hupTo, -⟩ := h.asking i hi
      rw [hnum]
      exact hupTo.mono (Nat.le_succ n)
    · exact h.waiting i hact hi
  | some x =>
    obtain ⟨j, data⟩ := x
    obtain ⟨hask, sendOk, hsent⟩ := followUp_some h.busy hfollow
    by_cases hi : i = j
    · -- the slot that asks has one number more
      subst hi
      obtain ⟨n, hnum, hupTo, -, hcan⟩ := h.asking i hask
      rw [← hnum] at hcan
      obtain ⟨b, hb, hnext⟩ := askedFor_next hsent hcan
      have hin : numberIn cfg data = n + 1 := by
        unfold numberIn
        rw [hb, Option.map_some, Option.getD_some, hnext, hnum]
      dsimp only
      rw [Table.set_self, hin, hnum]
      exact hupTo.next
    · dsimp only
      rw [Table.set_ne _ _ hi]
      exact h.waiting i hact (by rw [hask]; exact fun heq => hi (Option.some.inj heq).symm)

/-- **A regular step** keeps the invariant: a block in its turn moves the number on by one, and
the request that follows asks for that number. -/
theorem step (h : Steady st) {a : Action} (ha : Regular st a) :
    Steady ((transfers cfg).next st a).1 := by
  show Steady (Transfers.next st a).1
  rcases step_moves h.busy a with ⟨f, hf, hask, hr⟩ | ⟨hnone, heq | hrests⟩
  · -- in its turn: the slot has the number, so the one it expects goes up by one
    obtain ⟨hnum, hmore⟩ := ha f hf
    have hupTo := h.upTo hf hask
    rw [← hnum] at hupTo
    have hlt := fragment_num hf
    obtain ⟨hnext, hpath⟩ := recvBlock_expected cfg f.sender f.msg hnum
    have hsucc : ((st.client.step a).1.slots f.slot).recv.nextNum.toNat =
        f.block.num.toNat + 1 := by
      rw [hr.here, hnext, UInt32.toNat_add, show (1 : UInt32).toNat = 1 from rfl]
      omega
    have hother : ∀ j, j ≠ f.slot → (Transfers.next st a).1.asked j = st.asked j := by
      intro j hj
      unfold Transfers.next
      simp only [hf]
      split
      · rfl
      · rw [Table.set_ne _ _ hj]
    refine ⟨fun hsome => ?_, fun i hact hne => ?_, fun i hi => ?_⟩
    · cases hm : f.block.m with
      | false =>
        rw [show (Transfers.next st a).1.client.asking = none from (hr.last hm).1] at hsome
        cases hsome
      | true => exact (hr.more hm).2
    · -- a slot that waits: its own number has gone up, and no other slot is touched
      by_cases hslot : i = f.slot
      · subst hslot
        show UpTo ((st.client.step a).1.slots f.slot).recv.nextNum.toNat _
        rw [hsucc]
        exact hupTo.mono (Nat.le_succ _)
      · have hsame : ((Transfers.next st a).1.client.slots i).recv = (st.client.slots i).recv :=
          hr.other i hslot
        rw [hsame] at hact ⊢
        rw [hother i hslot]
        exact h.waiting i hact (by rw [hask]; nofun)
    · -- the slot that asks is the one of the block, unless the block was the last
      cases hm : f.block.m with
      | false =>
        rw [show (Transfers.next st a).1.client.asking = none from (hr.last hm).1] at hi
        cases hi
      | true =>
        rw [show (Transfers.next st a).1.client.asking = some f.slot from (hr.more hm).1] at hi
        obtain rfl := Option.some.inj hi
        obtain ⟨hmax, hroom, hshort⟩ := hmore hm
        refine ⟨f.block.num.toNat, hsucc, hupTo, hmax, ?_, hshort⟩
        show (Uri.segments ((st.client.step a).1.slots f.slot).recv.path).length < _
        rw [hr.here, hpath]
        exact hroom
  · -- ignored
    have hfollow : st.client.followUp a = none := by
      unfold followUp
      rw [heq]
      cases st.client.asking with
      | _ => rfl
    have hsame : (Transfers.next st a).1 = st := by
      unfold Transfers.next
      simp only [hnone, hfollow, heq]
    rw [hsame]
    exact h
  · -- nothing is received
    have hrecv : ∀ i, ((st.client.step a).1.slots i).recv.active = true →
        ((st.client.step a).1.slots i).recv = (st.client.slots i).recv := by
      intro i hact
      rcases hrests.recv i with hi | hi
      · exact hi
      · rw [hact] at hi
        cases hi
    have hasking : (Transfers.next st a).1.client.asking = none := hrests.asking
    refine ⟨fun hsome => ?_, fun i hact _ => ?_, fun i hi => ?_⟩
    · rw [hasking] at hsome
      cases hsome
    · have hsame : ((Transfers.next st a).1.client.slots i).recv = (st.client.slots i).recv :=
        hrecv i hact
      rw [hsame] at hact ⊢
      exact h.asked hnone hact
    · rw [hasking] at hi
      cases hi

/-- **A regular step makes progress.** A block is stored behind the ones before it, and no
number is asked for twice. -/
theorem progress (h : Steady st) {a : Action} (ha : Regular st a) : Progress st a := by
  refine ⟨fun i data hfollow => ?_, fun f hf hact hfull => ?_, fun f call handler res ctx hf _ => ?_,
    fun i call inCallback sendOk hctl heq => ?_⟩
  · -- the next number
    obtain ⟨hask, sendOk, hsent⟩ := followUp_some h.busy hfollow
    obtain ⟨n, hnum, hupTo, hmax, hcan⟩ := h.asking i hask
    rw [← hnum] at hcan
    obtain ⟨b, hb, hnext⟩ := askedFor_next hsent hcan
    refine ⟨b, hb, fun k hk => ?_, Nat.lt_of_le_of_lt hupTo.2 hmax⟩
    rw [hnext, hnum]
    exact Nat.lt_succ_of_le (hupTo.1 k hk)
  · -- after the last request only a last block is in its turn
    rcases step_moves h.busy a with ⟨f', hf', hask, hr⟩ | ⟨hnone, -⟩
    · obtain rfl := Option.some.inj (hf.symm.trans hf')
      obtain ⟨hnum, hmore⟩ := ha f hf
      have hasked := (h.waiting f.slot hact (by rw [hask]; nofun)).2
      have hlast : f.block.m = false := by
        by_contra hm
        have hmax := (hmore (Bool.eq_true_of_not_eq_false hm)).1
        rw [hnum, expectedNum, if_pos hact] at hmax
        omega
      exact (hr.last hlast).2
    · rw [hf] at hnone
      cases hnone
  · exact (ha f hf).1
  · -- the slot is closed
    subst heq
    have hslot : ((st.client.step (.resume sendOk)).1.slots i) =
        closedSlot (st.client.slots i) true := by
      rw [step_resume hctl]
      show ((st.client.close i true).slots i) = _
      rw [close_eq]
      exact Table.set_self ..
    rw [hslot]
    unfold closedSlot
    refine ⟨rfl, fun hobs => ?_⟩
    dsimp only at hobs ⊢
    split
    · rename_i hobserving
      rw [if_pos hobserving] at hobs
      rw [hobserving] at hobs
      cases hobs
    · rfl

end Steady

/-- **A download makes progress** as long as every block comes in its turn: for every client
that is not about to ask for a block, and every list of calls, datagrams and results of `send`.
There is no assumption on the server, whose blocks may say anything. -/
theorem regular_progress (c : Client cfg) (hstart : c.asking = none) (as : List Action)
    (hregular : (transfers cfg).Meets Regular { client := c } as) :
    (transfers cfg).Meets Progress { client := c } as := by
  refine Machine.meets_imp (I := Steady) (fun st a h ha => h.step ha)
    (fun st a h ha => h.progress ha) as _ ⟨fun hsome => ?_, fun i _ _ => ?_, fun i hi => ?_⟩ hregular
  · rw [hstart] at hsome
    cases hsome
  · exact ⟨fun _ hk => (nomatch hk), Nat.zero_le _⟩
  · rw [hstart] at hi
    cases hi

-- ===========================================================================
-- Block 0 twice
-- ===========================================================================

/-- A call for the root, and a poll with the rest of its code up to the cut `n`. -/
def getWhole : Action := .call (.get default [Uri.slash] (some 0) none true) true
def polled (n : Nat) (data : Bytes) : List Action :=
  .poll 0 (some (default, data)) :: List.replicate n (.resume true)

/-- A 2.05 in an ACK of this message ID, with the token of the call and this Block2 value. -/
def blockReply (messageId value : UInt8) (payload : Bytes) : Bytes :=
  [0x61, 0x45, 0x00, messageId, 0x01, 0xD1, 0x0A, value, 0xFF] ++ payload

/-- Sixteen bytes with more to come, and one byte as the last block. -/
def twoBlocks : List Action :=
  [getWhole] ++ polled 8 (blockReply 1 0x08 (List.replicate 16 0x41)) ++
    polled 8 (blockReply 2 0x10 [0x42])

theorem regular_progress_two :
    (transfers Config.blockwise).Meets Progress { client := {} } twoBlocks :=
  regular_progress {} rfl twoBlocks (by decide +kernel)

/-- The server answers the request for block 1 with block 0 again. -/
def repeatedBlock : List Action :=
  [getWhole] ++ polled 8 (blockReply 1 0x08 (List.replicate 16 0x41)) ++
    polled 1 (blockReply 2 0x08 (List.replicate 16 0x41))

/-- The client asks for block 1 once more. -/
theorem no_progress :
    ¬ (transfers Config.blockwise).Meets Progress { client := {} }
      (repeatedBlock ++ [.resume true]) := by
  intro h
  have hlast := Machine.Meets.last (h := []) repeatedBlock h
  have hfollow : ((transfers Config.blockwise).exec [] { client := {} } repeatedBlock).2.client.followUp
      (.resume true) = some (⟨0, by decide⟩, [0x41, 0x01, 0x00, 0x03, 0x01, 0xD1, 0x0A, 0x10]) := by
    decide +kernel
  have hasked : ((transfers Config.blockwise).exec [] { client := {} } repeatedBlock).2.asked
      ⟨0, by decide⟩ = [1] := by decide +kernel
  have hnum : (askedFor Config.blockwise [0x41, 0x01, 0x00, 0x03, 0x01, 0xD1, 0x0A, 0x10]).map
      (·.num.toNat) = some 1 := by decide +kernel
  obtain ⟨b, hb, habove, -⟩ := hlast.follow _ _ hfollow
  rw [hb] at hnum
  have hone := habove 1 (by rw [hasked]; exact List.mem_singleton.2 rfl)
  have hagain : b.num.toNat = 1 := Option.some.inj hnum
  omega

end Client

end PulseCoap
