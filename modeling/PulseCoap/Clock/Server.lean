import PulseCoap.Clock.Client
import PulseCoap.Server.Spec

/-!
# PulseCoAP — shifted clocks

The server under a shifted clock, as the client in `Clock.Client`: two servers
that have been told times that differ by `d` differ in `lastNowMs_` and the
deadlines of their transactions only. All that handles a request is `Clockless`:
it neither reads nor writes a time.

A run has to begin with a poll for the two to start alike: before it
`lastNowMs_` is 0 under every clock, and a call made then counts from 0. The
proof is a lockstep of the two machines (`exec_lockstep`), with `Shifted` as the
relation.

* `Shifted.step` — one step of the server.
* `clock_invariance` — whole runs of a client or a server whose first operation
  is `poll`: adding `d` to every time changes nothing that is seen.
-/

namespace PulseCoap

namespace Server

open TransactionPool

variable {cfg : Config} {d : UInt32} {s s' : Server cfg}

/-- A server that has been told other times. The pool is given too, because the deadlines in it
are times. -/
def withClock (s : Server cfg) (nowMs : UInt32) (pool : TransactionPool cfg) : Server cfg :=
  { s with lastNowMs := nowMs, txPool := pool }

/-- The same server under a clock shifted by `d`: the last time it was told and the deadlines of
its pool are later by `d`, and all else is equal. -/
inductive Shifted (d : UInt32) (s s' : Server cfg) : Prop where
  | mk (pool : TransactionPool cfg) (eq : s' = s.withClock (s.lastNowMs + d) pool)
      (pools : PoolShift d s.txPool pool)

/-- Two results: the servers are shifted, and all else is the same. -/
def Same {α : Type} (d : UInt32) (r r' : Server cfg × α) : Prop := Shifted d r.1 r'.1 ∧ r'.2 = r.2

/-! ## What looks at no time -/

/-- The operation neither reads nor writes a time: it can be exchanged with any change of the
clock and of the pool. Most of the server is of this kind. -/
def Clockless {α : Type} (f : Server cfg → Server cfg × α) : Prop :=
  ∀ s now pool, f (withClock s now pool) = ((f s).1.withClock now pool, (f s).2)

/-- It leaves the clock and the pool as they are. This is the case of the definition in which
the times are the server's own. -/
theorem Clockless.keeps {α : Type} {f : Server cfg → Server cfg × α} (hf : Clockless f)
    (s : Server cfg) : (f s).1.lastNowMs = s.lastNowMs ∧ (f s).1.txPool = s.txPool := by
  have hown : f s = ((f s).1.withClock s.lastNowMs s.txPool, (f s).2) := hf s _ _
  constructor
  · rw [hown]
    rfl
  · rw [hown]
    rfl

/-- What neither reads nor writes the clock does the same at both times, so for such an
operation nothing else has to be proved. -/
theorem Clockless.same {α : Type} {f : Server cfg → Server cfg × α} (hf : Clockless f)
    (h : Shifted d s s') : Same d (f s) (f s') := by
  obtain ⟨pool, rfl, hpool⟩ := h
  obtain ⟨hnow, htx⟩ := hf.keeps s
  rw [hf]
  refine ⟨⟨pool, ?_, ?_⟩, rfl⟩
  · rw [hnow]
  · rw [htx]
    exact hpool

/-- The same for a change of state alone, where nothing is returned and nothing sent. -/
theorem Shifted.map (h : Shifted d s s') {f : Server cfg → Server cfg}
    (hf : ∀ s now pool, f (withClock s now pool) = (f s).withClock now pool) :
    Shifted d (f s) (f s') :=
  (Clockless.same (f := fun s => (f s, ())) (fun s now pool => by dsimp only; rw [hf]) h).1

/-- The first lines of a reply take at most a message ID. -/
theorem clockless_reply (request : Message) (code : Code) :
    Clockless fun s : Server cfg => s.reply request code := by
  intro s now pool
  unfold reply
  split <;> rfl

theorem clockless_piggybacked (request : Message) (dest : Endpoint) (code : Code)
    (payload : Bytes) (contentFormat : ContentFormat) (ov : Option UInt32) :
    Clockless fun s : Server cfg =>
      s.sendPiggybackedResponse request dest code payload contentFormat ov := by
  intro s now pool
  have hreply := clockless_reply request code s now pool
  unfold sendPiggybackedResponse
  dsimp only at hreply ⊢
  rw [hreply]

/-- An error reply is a reply like another, so there is nothing to show for it. -/
theorem clockless_error (request : Message) (dest : Endpoint) (code : Code) :
    Clockless fun s : Server cfg => s.sendError request dest code :=
  clockless_piggybacked request dest code [] .textPlain none

theorem clockless_continue (request : Message) (dest : Endpoint) (num : UInt32) (m : Bool)
    (szx : UInt8) : Clockless fun s : Server cfg => s.sendContinue request dest num m szx := by
  intro s now pool
  have hreply := clockless_reply request Code.«continue» s now pool
  unfold sendContinue
  dsimp only at hreply ⊢
  rw [hreply]

theorem clockless_block2 (request : Message) (dest : Endpoint) (code : Code)
    (fullPayload : Bytes) (contentFormat : ContentFormat) (ov : Option UInt32) (num : UInt32)
    (more : Bool) (szx : UInt8) :
    Clockless fun s : Server cfg =>
      s.sendBlock2Response request dest code fullPayload contentFormat ov num more szx := by
  intro s now pool
  have hreply := clockless_reply request code s now pool
  unfold sendBlock2Response
  dsimp only at hreply ⊢
  split
  · rfl
  · rw [hreply]

/-- What a handler that does not defer is answered with, in one datagram or in the block that
was asked for. -/
theorem clockless_inline (h : Handling cfg) (res : Response) :
    Clockless fun s : Server cfg => s.replyInline h res := by
  intro s now pool
  unfold replyInline
  dsimp only
  split
  · split
    · split
      · exact clockless_error h.msg h.sender Code.badRequest s now pool
      · exact clockless_block2 _ _ _ _ _ _ _ _ _ s now pool
    · exact clockless_piggybacked _ _ _ _ _ _ s now pool
  · exact clockless_piggybacked _ _ _ _ _ _ s now pool

/-- The return of a handler. The session and the deferred slot it gives back have no deadline. -/
theorem clockless_finish (h : Handling cfg) (res : Response) :
    Clockless fun s : Server cfg => s.finish h res := by
  intro s now pool
  have hfree : (s.withClock now pool).freeBlock1Session? h.session =
      (s.freeBlock1Session? h.session).withClock now pool := by
    cases h.session <;> rfl
  unfold finish
  dsimp only
  rw [hfree]
  generalize s.freeBlock1Session? h.session = s₁
  have hfree' : (s₁.withClock now pool).freeDeferred? h.deferIdx =
      (s₁.freeDeferred? h.deferIdx).withClock now pool := by
    cases h.deferIdx <;> rfl
  split
  · rfl
  · rw [hfree']
    cases h.session with
    | some i => exact clockless_piggybacked _ _ _ _ _ _ _ now pool
    | none => exact clockless_inline h res _ now pool

/-- Calling a handler: the request is noted for the return, and the handler of the server's own
runs at once. -/
theorem clockless_runHandler (t : Target) (msg : Message) (sender : Endpoint)
    (ov : Option UInt32) (session : Option (Fin cfg.maxBlock1Sessions)) :
    Clockless fun s : Server cfg => s.runHandler t msg sender ov session := by
  intro s now pool
  have hfill : ∀ slot, (s.withClock now pool).fillDeferred slot msg sender =
      (s.fillDeferred slot msg sender).withClock now pool := by
    intro slot
    cases slot <;> rfl
  have halloc : (s.withClock now pool).allocateDeferred = s.allocateDeferred := rfl
  unfold runHandler
  dsimp only
  rw [halloc, hfill]
  cases t.resource.handler with
  | app f => rfl
  | wellKnownCore =>
    dsimp only
    generalize s.fillDeferred s.allocateDeferred msg sender = s₁
    have hcore : (s₁.withClock now pool).wellKnownCoreHandler = s₁.wellKnownCoreHandler := rfl
    have hfinish := clockless_finish (s.handlingFor msg sender ov session)
      s₁.wellKnownCoreHandler s₁ now pool
    dsimp only [handlingFor] at hfinish
    rw [hcore, hfinish]
    rfl

/-- A block of an upload; the sessions have no deadline. -/
theorem clockless_handleBlock (i : Fin cfg.maxBlock1Sessions) (b1 : BlockOption) (t : Target)
    (msg : Message) (sender : Endpoint) (ov : Option UInt32) :
    Clockless fun s : Server cfg => s.handleBlock i b1 t msg sender ov := by
  intro s now pool
  have hsess : (s.withClock now pool).block1sessions = s.block1sessions := rfl
  unfold handleBlock
  dsimp only
  rw [hsess]
  split
  · exact clockless_continue _ _ _ _ _ s now pool
  · split
    · exact clockless_error _ _ _ (s.freeBlock1Session i) now pool
    · split
      · exact clockless_continue _ _ _ _ _ (s.appendBlock i msg.payloadBytes) now pool
      · exact clockless_runHandler _ _ _ _ _ (s.appendBlock i msg.payloadBytes) now pool

/-- The session for a block is found or opened, whatever the time. Nothing expires a session, so
an old one is found as well as a new one. -/
theorem sessionFor_clock (b1 : BlockOption) (sender : Endpoint) (token : Bytes) (s : Server cfg)
    (now : UInt32) (pool : TransactionPool cfg) :
    (s.withClock now pool).sessionFor b1 sender token =
      (s.sessionFor b1 sender token).map fun r => (r.1.withClock now pool, r.2) := by
  have hfind : (s.withClock now pool).findBlock1Session sender token =
      s.findBlock1Session sender token := rfl
  have hfree : (s.withClock now pool).block1sessions = s.block1sessions := rfl
  unfold sessionFor
  rw [hfind]
  cases s.findBlock1Session sender token with
  | some i => rfl
  | none =>
    dsimp only
    split
    · rfl
    · unfold allocateBlock1Session
      rw [hfree]
      cases s.block1sessions.find? fun b => !b.active with
      | none => rfl
      | some i => rfl

/-- A request with a Block1 option. -/
theorem clockless_handleBlock1 (opt : CoapOption) (t : Target) (msg : Message)
    (sender : Endpoint) (ov : Option UInt32) :
    Clockless fun s : Server cfg => s.handleBlock1 opt t msg sender ov := by
  intro s now pool
  unfold handleBlock1
  cases BlockOption.fromOption opt with
  | none => exact clockless_error _ _ _ s now pool
  | some b1 =>
    dsimp only
    rw [sessionFor_clock]
    cases s.sessionFor b1 sender msg.token with
    | error code => exact clockless_error msg sender code s now pool
    | ok r => exact clockless_handleBlock r.2 b1 t msg sender ov r.1 now pool

/-- A registration or a deregistration; an entry has no deadline either. -/
theorem clockless_handleObserve (t : Target) (msg : Message) (sender : Endpoint) :
    Clockless fun s : Server cfg => s.handleObserve t msg sender := by
  have hreg : ∀ (s : Server cfg) now pool, (s.withClock now pool).registerObserver
      (UInt8.ofNat t.index) sender msg.token =
        (s.registerObserver (UInt8.ofNat t.index) sender msg.token).withClock now pool := by
    intro s now pool
    unfold registerObserver
    have hobs : (s.withClock now pool).observers = s.observers := rfl
    rw [hobs]
    split
    · rfl
    · split <;> rfl
  have hnote : ∀ (s : Server cfg) now pool, (s.withClock now pool).noteReply sender msg.token
      msg.messageId = (s.noteReply sender msg.token msg.messageId).withClock now pool := by
    intro s now pool
    unfold noteReply
    have hobs : (s.withClock now pool).observers = s.observers := rfl
    rw [hobs]
    split <;> rfl
  intro s now pool
  unfold handleObserve
  dsimp only
  split
  · rfl
  · split
    · split
      · rw [hreg, hnote]
      · rfl
    · rfl

/-- **A request** is answered without a look at the clock. Only what it starts, a Confirmable
response or notification, has a deadline. -/
theorem clockless_handleRequest (msg : Message) (sender : Endpoint) :
    Clockless fun s : Server cfg => s.handleRequest msg sender := by
  intro s now pool
  have hfind : ∀ path, (s.withClock now pool).findTarget path = s.findTarget path := fun _ => rfl
  have htarget : ∀ t, (s.withClock now pool).handleTarget t msg sender =
      ((s.handleTarget t msg sender).1.withClock now pool,
        (s.handleTarget t msg sender).2) := by
    intro t
    have hobserve := clockless_handleObserve t msg sender s now pool
    unfold handleTarget
    dsimp only at hobserve ⊢
    rw [hobserve]
    split
    · exact clockless_handleBlock1 _ t msg sender _ _ now pool
    · exact clockless_runHandler t msg sender _ none _ now pool
  unfold handleRequest
  dsimp only
  split
  · exact clockless_error _ _ _ s now pool
  · rw [hfind]
    split
    · exact clockless_error _ _ _ s now pool
    · split
      · exact clockless_error _ _ _ s now pool
      · split
        · exact clockless_error _ _ _ s now pool
        · exact htarget _

/-! ## `poll` -/

theorem Shifted.removed (h : Shifted d s s') (remote : Endpoint) (token : Bytes) :
    Shifted d (s.removeObserver remote token) (s'.removeObserver remote token) :=
  h.map (f := fun s => s.removeObserver remote token) fun _ _ _ => rfl

/-- One pass of the scan. Both see the same difference to the deadline, so both resend, give up
or go on. -/
theorem Shifted.tickAt (h : Shifted d s s') (i : Fin cfg.maxTransactions) :
    Same d (s.tickAt i) (s'.tickAt i) := by
  obtain ⟨pool, rfl, hpool⟩ := h
  obtain ⟨htick, hevent⟩ := (hpool i).tickSlot cfg s.lastNowMs
  have hset : Shifted d
      (s.withClock s.lastNowMs (s.txPool.set i (tickSlot cfg s.lastNowMs (s.txPool i)).1))
      (s.withClock (s.lastNowMs + d) (pool.set i (tickSlot cfg (s.lastNowMs + d) (pool i)).1)) :=
    ⟨_, rfl, hpool.set i htick⟩
  unfold Server.tickAt
  dsimp only [withClock] at hset ⊢
  rw [hevent]
  split
  · exact ⟨hset, rfl⟩
  · exact ⟨hset, rfl⟩
  · exact ⟨hset.removed .., rfl⟩

/-- The scan, by induction over the pool. What one pass does to the observers, the next one sees
on both sides. -/
theorem tickFrom_shifted (is : List (Fin cfg.maxTransactions)) :
    ∀ {s s' : Server cfg}, Shifted d s s' → Same d (s.tickFrom is) (s'.tickFrom is) := by
  induction is with
  | nil => exact fun h => ⟨h, rfl⟩
  | cons i is ih =>
    intro s s' h
    obtain ⟨hat, hev⟩ := h.tickAt i
    obtain ⟨hrest, hev'⟩ := ih hat
    refine ⟨hrest, ?_⟩
    show (s'.tickAt i).2 ++ ((s'.tickAt i).1.tickFrom is).2 = _
    rw [hev, hev']
    rfl

/-- A datagram: only the pool has seen the time. An ACK and a Reset look a transaction up by
message ID and not by deadline. -/
theorem Shifted.receive (h : Shifted d s s') (rx : Option (Endpoint × Bytes)) :
    Same d (s.receive rx) (s'.receive rx) := by
  have hmessage : ∀ sender msg, Same d (s.handleMessage sender msg)
      (s'.handleMessage sender msg) := by
    intro sender msg
    unfold handleMessage
    split
    · refine ⟨h.map (f := fun s => s.handleReset sender msg.messageId) fun s now pool => ?_, rfl⟩
      unfold handleReset
      dsimp only [withClock]
      split <;> rfl
    · split
      · obtain ⟨pool, rfl, hpool⟩ := h
        exact ⟨⟨_, rfl, hpool.complete sender msg.messageId⟩, rfl⟩
      · split
        · exact (clockless_handleRequest msg sender).same h
        · exact ⟨h, rfl⟩
  unfold Server.receive
  split
  · exact ⟨h, rfl⟩
  · split
    · split
      · exact hmessage _ _
      · exact ⟨h, rfl⟩
    · exact ⟨h, rfl⟩

/-- **A poll** that comes later by the same amount, with the same datagram. -/
theorem Shifted.poll (h : Shifted d s s') (nowMs : UInt32) (rx : Option (Endpoint × Bytes)) :
    Same d (s.poll nowMs rx) (s'.poll (nowMs + d) rx) := by
  have htime : Shifted d { s with lastNowMs := nowMs } { s' with lastNowMs := nowMs + d } := by
    obtain ⟨pool, rfl, hpool⟩ := h
    exact ⟨pool, rfl, hpool⟩
  obtain ⟨htick, hev⟩ := tickFrom_shifted (List.finRange _) htime
  obtain ⟨hrx, hev'⟩ := htick.receive rx
  refine ⟨hrx, ?_⟩
  show (Server.tick _).2 ++ (Server.receive _ rx).2 = _ ++ _
  exact congrArg₂ (· ++ ·) hev hev'

/-! ## Calls -/

/-- A transaction begins later by the same amount. Its first deadline counts from the last time
the server was told. -/
theorem Shifted.start (h : Shifted d s s') (remote : Endpoint) (messageId : UInt16)
    (token message : Bytes) :
    Shifted d (s.startTransaction remote messageId token message)
      (s'.startTransaction remote messageId token message) := by
  obtain ⟨pool, rfl, hpool⟩ := h
  exact ⟨_, rfl, hpool.start remote messageId token message s.lastNowMs {}⟩

/-- What the two servers have in common: the fields that `notify` and `respond` read before they
come to the pool. -/
theorem Shifted.shared (h : Shifted d s s') :
    s'.observers = s.observers ∧ s'.nextMessageId = s.nextMessageId ∧
      s'.deferred = s.deferred ∧ s'.control = s.control ∧
      ∀ path, s'.findTarget path = s.findTarget path := by
  obtain ⟨pool, rfl, -⟩ := h
  exact ⟨rfl, rfl, rfl, rfl, fun _ => rfl⟩

/-- The server with the message ID of the next notification drawn and noted. -/
def noted (s : Server cfg) (i : Fin cfg.maxObservers) : Server cfg :=
  (s.withObservers (s.observers.set i
    { s.observers i with lastSentMessageId := s.nextMessageId })).drawMessageId

/-- The server with one resource replaced. -/
def withResource (s : Server cfg) (index : Nat) (r : Resource) : Server cfg :=
  { s with resources := s.resources.set index r }

/-- A notification for one observer. If it is Confirmable it has a deadline, and that is the
only difference. -/
theorem Shifted.notifyObserver (h : Shifted d s s') (i : Fin cfg.maxObservers)
    (sequence : UInt32) (payload : Bytes) (contentFormat : ContentFormat) (confirmable : Bool) :
    Same d (s.notifyObserver i sequence payload contentFormat confirmable)
      (s'.notifyObserver i sequence payload contentFormat confirmable) := by
  obtain ⟨hobs, hid, -⟩ := h.shared
  have hnoted : Shifted d (s.noted i) (s'.noted i) :=
    h.map (f := fun s => s.noted i) fun _ _ _ => rfl
  unfold noted withObservers at hnoted
  unfold Server.notifyObserver
  dsimp only
  rw [hobs, hid] at hnoted ⊢
  cases encoded cfg (notification cfg (s.observers i) s.nextMessageId sequence payload
      contentFormat confirmable) with
  | none => exact ⟨hnoted, rfl⟩
  | some buf =>
    refine ⟨?_, rfl⟩
    dsimp only
    split
    · exact hnoted.start ..
    · exact hnoted

/-- The notifications for all of them, by induction over the observers that are left. -/
theorem notifyFrom_shifted (index : Nat) (sequence : UInt32) (payload : Bytes)
    (contentFormat : ContentFormat) (confirmable : Bool) (is : List (Fin cfg.maxObservers)) :
    ∀ {s s' : Server cfg}, Shifted d s s' →
      Same d (s.notifyFrom index sequence payload contentFormat confirmable is)
        (s'.notifyFrom index sequence payload contentFormat confirmable is) := by
  induction is with
  | nil => exact fun h => ⟨h, rfl⟩
  | cons i is ih =>
    intro s s' h
    obtain ⟨hobs, -⟩ := h.shared
    rw [notifyFrom, notifyFrom, hobs]
    split
    · obtain ⟨hat, hev⟩ := h.notifyObserver i sequence payload contentFormat confirmable
      obtain ⟨hrest, hev'⟩ := ih hat
      refine ⟨hrest, ?_⟩
      dsimp only
      rw [hev, hev']
    · exact ih h

/-- `notify`, which also counts the sequence number. -/
theorem Shifted.notify (h : Shifted d s s') (path payload : Bytes)
    (contentFormat : ContentFormat) (confirmable : Bool) :
    Same d (s.notify path payload contentFormat confirmable)
      (s'.notify path payload contentFormat confirmable) := by
  obtain ⟨-, -, -, -, hfind⟩ := h.shared
  unfold Server.notify
  rw [hfind]
  cases s.findTarget path with
  | none => exact ⟨h, rfl⟩
  | some t =>
    dsimp only
    split
    · exact ⟨h, rfl⟩
    · obtain ⟨hloop, hev⟩ := notifyFrom_shifted t.index (t.resource.observeSequence + 1) payload
        contentFormat confirmable (List.finRange _)
        (h.map (f := fun s => s.withResource t.index
          { t.resource with observeSequence := t.resource.observeSequence + 1 })
          fun _ _ _ => rfl)
      exact ⟨hloop, congrArg (true, ·) hev⟩

/-- The response to a deferred request. Like a notification it has a deadline if it is
Confirmable. -/
theorem Shifted.respond (h : Shifted d s s') (handle : UInt8) (code : Code) (payload : Bytes)
    (contentFormat : ContentFormat) :
    Same d (s.respond handle code payload contentFormat)
      (s'.respond handle code payload contentFormat) := by
  obtain ⟨-, hid, hdeferred, -⟩ := h.shared
  have hdraw : Shifted d s.drawMessageId s'.drawMessageId :=
    h.map (f := fun s => s.drawMessageId) fun _ _ _ => rfl
  have hfree : ∀ {s₁ s₂ : Server cfg}, Shifted d s₁ s₂ → ∀ i,
      Shifted d (s₁.freeDeferred i) (s₂.freeDeferred i) :=
    fun h i => h.map (f := fun s => s.freeDeferred i) fun _ _ _ => rfl
  unfold Server.respond
  split
  · dsimp only
    rw [hdeferred, hid]
    split
    · exact ⟨h, rfl⟩
    · split
      · exact ⟨hfree hdraw _, rfl⟩
      · refine ⟨hfree ?_ _, rfl⟩
        split
        · exact hdraw.start ..
        · exact hdraw
  · exact ⟨h, rfl⟩

/-- **A call of the API** returns and sends the same at the later time, and what it starts is
due later by the same amount. -/
theorem Shifted.call (h : Shifted d s s') (c : ServerCall) : Same d (s.call c) (s'.call c) := by
  -- used twice: `begin` adds the resource of the server itself
  have hadd : ∀ path methods handler ctx observable,
      Same d (s.addResource path methods handler ctx observable)
        (s'.addResource path methods handler ctx observable) := by
    intro path methods handler ctx observable
    refine Clockless.same (f := fun s => s.addResource path methods handler ctx observable)
      (fun s now pool => ?_) h
    unfold addResource
    dsimp only
    split
    · split
      · rename_i hfull
        have hfull' : s.resources.length ≥ cfg.maxResources := hfull
        simp only [hfull', if_true]
      · rename_i hroom
        have hroom' : ¬ s.resources.length ≥ cfg.maxResources := hroom
        simp only [hroom', if_false]
        rfl
    · rfl
  cases c with
  | begin transportOk =>
    have hcore := hadd (some Uri.wellKnownCore) methodGet (some .wellKnownCore) none false
    show Same d ((s.begin transportOk).1, (s.begin transportOk).2, ([] : List ServerEvent))
      ((s'.begin transportOk).1, (s'.begin transportOk).2, ([] : List ServerEvent))
    unfold begin
    split
    · exact ⟨h, rfl⟩
    · exact ⟨hcore.1, rfl⟩
  | addResource path methods handler userContext observable =>
    obtain ⟨hshift, hres⟩ := hadd path methods (handler.map .app) userContext observable
    exact ⟨hshift, congrArg (·, []) hres⟩
  | setResourceType path rt =>
    obtain ⟨-, -, -, -, hfind⟩ := h.shared
    show Same d ((s.setResourceType path rt).1, (s.setResourceType path rt).2, ([] : List ServerEvent))
      ((s'.setResourceType path rt).1, (s'.setResourceType path rt).2, ([] : List ServerEvent))
    unfold setResourceType
    rw [hfind]
    split
    · exact ⟨h, rfl⟩
    · rename_i target _
      exact ⟨h.map (f := fun s => s.withResource target.index
        { target.resource with resourceType := rt }) fun _ _ _ => rfl, rfl⟩
  | notify path payload cf con => exact h.notify path payload cf con
  | respond handle code payload cf => exact h.respond handle code payload cf

/-! ## Runs -/

/-- The same action, `d` ms later. -/
def Action.later (d : UInt32) : Action → Action
  | .poll nowMs rx => .poll (nowMs + d) rx
  | a => a

/-- One step of the server and of its shift. Only a poll is told a time; everything else counts
from the last one. -/
theorem Shifted.step (h : Shifted d s s') (a : Action) : Same d (s.step a) (s'.step (a.later d)) := by
  obtain ⟨-, -, -, hctl, -⟩ := h.shared
  cases a with
  | call c =>
    obtain ⟨hshift, hres⟩ := h.call c
    refine ⟨hshift, ?_⟩
    show (s'.call c).2.2 ++ [.returned (s'.call c).2.1] = _
    rw [hres]
    rfl
  | poll nowMs rx =>
    unfold Server.step Action.later
    dsimp only
    rw [hctl]
    cases s.control with
    | idle => exact h.poll nowMs rx
    | handling hd => exact ⟨h, rfl⟩
  | handlerReturns res =>
    unfold Server.step Action.later
    dsimp only
    rw [hctl]
    cases s.control with
    | idle => exact ⟨h, rfl⟩
    | handling hd =>
      exact (clockless_finish hd res).same
        (h.map (f := fun s => { s with control := .idle }) fun _ _ _ => rfl)

end Server

/-- **Clock-wrap invariance.** What a client or a server sends, calls back and returns, in a run
that begins with a poll, does not change when the same number is added to every time. The first
poll is needed because both parties start with a clock that reads 0, which is not shifted. -/
theorem clock_invariance (cfg : Config) (d : UInt32) :
    (∀ (nowMs : UInt32) (rx : Option (Endpoint × Bytes)) (actions : List Client.Action),
      ((Client.observedMachine cfg).exec [] {}
          ((Client.Action.poll nowMs rx :: actions).map (·.later d))).1 =
        ((Client.observedMachine cfg).exec [] {} (.poll nowMs rx :: actions)).1) ∧
    ∀ (resources : List Resource) (nowMs : UInt32) (rx : Option (Endpoint × Bytes))
      (actions : List Server.Action),
      ((Server.machine cfg).exec [] { resources }
          ((Server.Action.poll nowMs rx :: actions).map (·.later d))).1 =
        ((Server.machine cfg).exec [] { resources } (.poll nowMs rx :: actions)).1 := by
  constructor
  · intro nowMs rx actions
    -- the first poll overwrites the time the client was built with
    show ((Client.observedMachine cfg).exec [] { lastNowMs := nowMs + d }
      ((Client.Action.poll nowMs rx :: actions).map (·.later d))).1 =
        ((Client.observedMachine cfg).exec [] { lastNowMs := nowMs } (.poll nowMs rx :: actions)).1
    exact Machine.exec_lockstep (R := Client.Shifted d) (fun c c' a h => Client.Shifted.step h a)
      _ _ _ _ (Client.shifted_first cfg d nowMs)
  · intro resources nowMs rx actions
    show ((Server.machine cfg).exec [] { resources, lastNowMs := nowMs + d }
      ((Server.Action.poll nowMs rx :: actions).map (·.later d))).1 =
        ((Server.machine cfg).exec [] { resources, lastNowMs := nowMs } (.poll nowMs rx :: actions)).1
    refine Machine.exec_lockstep (R := Server.Shifted d) (fun s s' a h => ?_) _ _ _ _ ?_
    · obtain ⟨hshift, hout⟩ := Server.Shifted.step h a
      exact ⟨hout, hshift⟩
    · exact ⟨TransactionPool.reset, rfl,
        TransactionPool.poolShift_of_free (by intro i hi; cases hi)⟩

end PulseCoap
