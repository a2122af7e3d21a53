import PulseCoap.Lib.Run
import PulseCoap.Codec.Stream
import PulseCoap.Server.Model
import PulseCoap.Pool.Spec

/-!
# PulseCoAP — what the server's operations do

One lemma for each operation that says what it does to the server; the proofs
about runs use these and never unfold an operation.

`handleRequest` is cut at its checks: `admitted` gives the resource with the
captures if all of them pass, and otherwise the request is answered with a code.
The lemmas of the operations that send say only that they send (`OnlySends`);
what is sent is the matter of `Server.Reply` and of the modules that need it.

* `admitted`, `handleRequest_cases` — the checks before the resource is used.
* `handleObserve_spec`, `sessionFor_cases` — the tables they touch.
* `handleBlock_cases`, `handleTarget_cases` — the Block1 branch.
* `runHandler_cases` — up to the handler call.
-/

namespace PulseCoap

namespace Server

variable {cfg : Config}

/-- The server as a machine: one step at a time, from a server just built. -/
def machine (cfg : Config) : Machine (Server cfg) Action ServerEvent where
  init := {}
  next := step

/-- The server with this message ID next. -/
def withId (s : Server cfg) (id : UInt16) : Server cfg := { s with nextMessageId := id }

/-- The server with these observers. -/
def withObservers (s : Server cfg) (observers : Table cfg.maxObservers Observer) : Server cfg :=
  { s with observers }

/-- The server with this upload session at index `i`. -/
def withSession (s : Server cfg) (i : Fin cfg.maxBlock1Sessions) (b : Block1Session) :
    Server cfg :=
  { s with block1sessions := s.block1sessions.set i b }

/-! ## Sending -/

/-- Only datagrams are sent. -/
def OnlySends (events : List ServerEvent) : Prop := ∀ e ∈ events, ∃ dest data, e = .sent dest data

theorem onlySends_nil : OnlySends [] := fun _ h => nomatch h

/-- A message is sent if it encodes, and nothing else happens. -/
theorem onlySends_sendIfEncoded (cfg : Config) (msg : Message) (dest : Endpoint) :
    OnlySends (sendIfEncoded cfg msg dest) := by
  intro e he
  unfold sendIfEncoded at he
  split at he
  · exact ⟨_, _, List.mem_singleton.1 he⟩
  · cases he

/-- A reply takes a message ID from the counter at most. -/
theorem reply_state (s : Server cfg) (request : Message) (code : Code) :
    ∃ id, (s.reply request code).1 = s.withId id := by
  unfold reply
  split
  · exact ⟨s.nextMessageId, rfl⟩
  · exact ⟨s.nextMessageId + 1, rfl⟩

/-- A reply costs at most a message ID. -/
def JustReplies (s : Server cfg) (r : Server cfg × List ServerEvent) : Prop :=
  (∃ id, r.1 = s.withId id) ∧ OnlySends r.2

theorem OnlySends.append {ev ev' : List ServerEvent} (h : OnlySends ev) (h' : OnlySends ev') :
    OnlySends (ev ++ ev') := by
  intro e he
  rcases List.mem_append.1 he with he | he
  · exact h e he
  · exact h' e he

/-- Among datagrams there is no handler call. -/
theorem OnlySends.not_handled {ev : List ServerEvent} (h : OnlySends ev) {index : Nat}
    {handler : Handler} {req : Request} {ctx : Option Ref} :
    .handled index handler req ctx ∉ ev := by
  intro he
  obtain ⟨dest, data, heq⟩ := h _ he
  cases heq

theorem justReplies_nil (s : Server cfg) : s.JustReplies (s, []) :=
  ⟨⟨s.nextMessageId, rfl⟩, onlySends_nil⟩

/-- A response in the ACK, or in a NON message of its own. -/
theorem justReplies_piggybacked (s : Server cfg) (request : Message) (dest : Endpoint) (code : Code)
    (payload : Bytes) (contentFormat : ContentFormat) (observeValue : Option UInt32) :
    s.JustReplies
      (s.sendPiggybackedResponse request dest code payload contentFormat observeValue) :=
  ⟨s.reply_state request code, onlySends_sendIfEncoded _ _ _⟩

/-- An error is a response without a payload. -/
theorem justReplies_error (s : Server cfg) (request : Message) (dest : Endpoint) (code : Code) :
    s.JustReplies (s.sendError request dest code) :=
  s.justReplies_piggybacked request dest code [] .textPlain none

/-- A 2.31 Continue, with its Block1 option. -/
theorem justReplies_continue (s : Server cfg) (request : Message) (dest : Endpoint) (num : UInt32)
    (m : Bool) (szx : UInt8) : s.JustReplies (s.sendContinue request dest num m szx) :=
  ⟨s.reply_state request _, onlySends_sendIfEncoded _ _ _⟩

/-- One block of a response; a block behind the end of the payload is not sent. -/
theorem justReplies_block2 (s : Server cfg) (request : Message) (dest : Endpoint) (code : Code)
    (fullPayload : Bytes) (contentFormat : ContentFormat) (observeValue : Option UInt32)
    (num : UInt32) (more : Bool) (szx : UInt8) :
    s.JustReplies (s.sendBlock2Response request dest code fullPayload contentFormat observeValue
      num more szx) := by
  unfold sendBlock2Response
  by_cases hend : num.toNat * blockSize szx ≥ fullPayload.length
  · simp only [hend, if_true]
    exact s.justReplies_nil
  · simp only [hend, if_false]
    exact ⟨s.reply_state request code, onlySends_sendIfEncoded _ _ _⟩

/-- What a handler that does not defer is answered with: an error for a bad Block2 option, one
block, or the response as a whole. -/
theorem justReplies_inline (s : Server cfg) (h : Handling cfg) (res : Response) :
    s.JustReplies (s.replyInline h res) := by
  unfold replyInline
  split
  · dsimp only
    split
    · split
      · exact s.justReplies_error ..
      · exact s.justReplies_block2 ..
    · exact s.justReplies_piggybacked ..
  · exact s.justReplies_piggybacked ..

/-! ## The checks -/

/-- The resource a request is for, when its path, its method and the resource's
methods pass. -/
def admitted (s : Server cfg) (msg : Message) : Option Target := do
  let path ← Uri.joinUriPath msg cfg.maxUriPathLen
  let t ← s.findTarget path
  let mask ← requestedMask msg.code
  if t.resource.methods &&& mask = 0 then none else some t

/-- A request is refused with a code or goes to its resource. -/
theorem handleRequest_cases (s : Server cfg) (msg : Message) (sender : Endpoint) :
    (s.admitted msg = none ∧ ∃ code, s.handleRequest msg sender = s.sendError msg sender code) ∨
      ∃ t, s.admitted msg = some t ∧ s.handleRequest msg sender = s.handleTarget t msg sender := by
  unfold admitted handleRequest
  cases hpath : Uri.joinUriPath msg cfg.maxUriPathLen with
  | none => exact .inl ⟨rfl, _, rfl⟩
  | some path =>
    cases ht : s.findTarget path with
    | none => exact .inl ⟨by simp [ht], Code.notFound, by simp [ht]⟩
    | some t =>
      cases hmask : requestedMask msg.code with
      | none => exact .inl ⟨by simp, Code.notImplemented, by simp [ht]⟩
      | some mask =>
        by_cases hallowed : t.resource.methods &&& mask = 0
        · exact .inl ⟨by simp [ht, hallowed], Code.methodNotAllowed, by simp [ht, hallowed]⟩
        · exact .inr ⟨t, by simp [ht, hallowed], by simp [ht, hallowed]⟩

/-- An admitted request names its resource by a path that fits. -/
theorem admitted_path {s : Server cfg} {msg : Message} {t : Target} (h : s.admitted msg = some t) :
    ∃ path, Uri.joinUriPath msg cfg.maxUriPathLen = some path ∧ s.findTarget path = some t := by
  unfold admitted at h
  cases hpath : Uri.joinUriPath msg cfg.maxUriPathLen with
  | none => simp [hpath] at h
  | some path =>
    cases ht : s.findTarget path with
    | none => simp [hpath, ht] at h
    | some t' =>
      cases hmask : requestedMask msg.code with
      | none => simp [hpath, hmask] at h
      | some mask =>
        obtain ⟨-, rfl⟩ : t'.resource.methods &&& mask ≠ 0 ∧ t' = t := by
          simpa [hpath, ht, hmask] using h
        exact ⟨path, rfl, ht⟩

/-! ## The Observe option -/

/-- Registering writes the table of observers and nothing else. -/
theorem registerObserver_spec (s : Server cfg) (index : UInt8) (remote : Endpoint)
    (token : Bytes) : ∃ obs, s.registerObserver index remote token = s.withObservers obs := by
  unfold registerObserver
  split
  · exact ⟨_, rfl⟩
  · split
    · exact ⟨_, rfl⟩
    · exact ⟨s.observers, rfl⟩

/-- So does noting the message ID of the reply. -/
theorem noteReply_spec (s : Server cfg) (remote : Endpoint) (token : Bytes) (messageId : UInt16) :
    ∃ obs, s.noteReply remote token messageId = s.withObservers obs := by
  unfold noteReply
  split
  · exact ⟨_, rfl⟩
  · exact ⟨s.observers, rfl⟩

/-- The Observe option touches the observers only. -/
theorem handleObserve_spec (s : Server cfg) (t : Target) (msg : Message) (sender : Endpoint) :
    ∃ obs, (s.handleObserve t msg sender).1 = s.withObservers obs := by
  unfold handleObserve
  split
  · exact ⟨s.observers, rfl⟩
  · split
    · split
      · obtain ⟨obs, hreg⟩ := s.registerObserver_spec (UInt8.ofNat t.index) sender msg.token
        obtain ⟨obs', hnote⟩ := noteReply_spec (s.withObservers obs) sender msg.token msg.messageId
        exact ⟨obs', by simp only [hreg, hnote]; rfl⟩
      · exact ⟨_, rfl⟩
    · exact ⟨s.observers, rfl⟩

/-- An upload never observes. -/
theorem handleObserve_upload (s : Server cfg) (t : Target) {msg : Message} (sender : Endpoint)
    {opt : CoapOption} (h : block1Option cfg msg = some opt) :
    s.handleObserve t msg sender = (s, none) := by
  have hget : msg.code ≠ Code.get := by
    intro hget
    unfold block1Option at h
    rw [hget, if_neg (fun hc => hc.2.elim (by decide) (by decide))] at h
    cases h
  unfold handleObserve
  split
  · rfl
  · rw [if_neg (fun h => hget h.2)]

/-! ## Upload sessions -/

/-- A session that is found is open, and belongs to this peer and token. -/
theorem findBlock1Session_spec {s : Server cfg} {remote : Endpoint} {token : Bytes}
    {i : Fin cfg.maxBlock1Sessions} (h : s.findBlock1Session remote token = some i) :
    (s.block1sessions i).active = true ∧ (s.block1sessions i).remote = remote ∧
      (s.block1sessions i).token = token := by
  simpa [and_assoc] using Table.find?_spec h

/-- The session opened by a first block. -/
def newSession (remote : Endpoint) (token : Bytes) : Block1Session where
  active := true
  remote := remote
  token := token
  nextExpectedNum := 0
  buffer := []

/-- The session of a block is the one with its token, or is opened by the first
block in a free slot. -/
theorem sessionFor_cases (s : Server cfg) (b1 : BlockOption) (sender : Endpoint) (token : Bytes) :
    (∃ code, s.sessionFor b1 sender token = .error code) ∨
      (∃ i, s.findBlock1Session sender token = some i ∧
        s.sessionFor b1 sender token = .ok (s, i)) ∨
      (∃ i, s.findBlock1Session sender token = none ∧ b1.num = 0 ∧
        (s.block1sessions i).active = false ∧
        s.sessionFor b1 sender token = .ok (s.withSession i (newSession sender token), i)) := by
  unfold sessionFor
  cases hf : s.findBlock1Session sender token with
  | some i => exact .inr (.inl ⟨i, rfl, rfl⟩)
  | none =>
    by_cases hnum : b1.num = 0
    · unfold allocateBlock1Session
      cases hfree : s.block1sessions.find? fun b => !b.active with
      | none => exact .inl ⟨Code.serviceUnavailable, by simp [hnum]⟩
      | some i =>
        have hidle : (s.block1sessions i).active = false := by simpa using Table.find?_spec hfree
        exact .inr (.inr ⟨i, rfl, hnum, hidle, by simp [hnum]; rfl⟩)
    · exact .inl ⟨Code.requestEntityIncomplete, by simp [hnum]⟩

/-- A session after one more block. -/
def appended (b : Block1Session) (payload : Bytes) : Block1Session :=
  { b with buffer := b.buffer ++ payload, nextExpectedNum := b.nextExpectedNum + 1 }

/-- A block is out of turn, too much, one of several or the last one. -/
theorem handleBlock_cases (s : Server cfg) (i : Fin cfg.maxBlock1Sessions) (b1 : BlockOption)
    (t : Target) (msg : Message) (sender : Endpoint) (ov : Option UInt32) :
    (b1.num ≠ (s.block1sessions i).nextExpectedNum ∧
        s.handleBlock i b1 t msg sender ov =
          s.sendContinue msg sender ((s.block1sessions i).nextExpectedNum - 1) true b1.szx) ∨
      (b1.num = (s.block1sessions i).nextExpectedNum ∧
        cfg.block1MaxBody < (s.block1sessions i).buffer.length + msg.payloadBytes.length ∧
        s.handleBlock i b1 t msg sender ov =
          (s.freeBlock1Session i).sendError msg sender Code.requestEntityTooLarge) ∨
      (b1.num = (s.block1sessions i).nextExpectedNum ∧
        (s.block1sessions i).buffer.length + msg.payloadBytes.length ≤ cfg.block1MaxBody ∧
        b1.m = true ∧
        s.handleBlock i b1 t msg sender ov =
          (s.withSession i (appended (s.block1sessions i) msg.payloadBytes)).sendContinue
            msg sender b1.num false b1.szx) ∨
      (b1.num = (s.block1sessions i).nextExpectedNum ∧
        (s.block1sessions i).buffer.length + msg.payloadBytes.length ≤ cfg.block1MaxBody ∧
        b1.m = false ∧
        s.handleBlock i b1 t msg sender ov =
          (s.withSession i (appended (s.block1sessions i) msg.payloadBytes)).runHandler
            t msg sender ov (some i)) := by
  have happ : s.appendBlock i msg.payloadBytes =
    s.withSession i (appended (s.block1sessions i) msg.payloadBytes) := rfl
  unfold handleBlock
  -- the checks in the order of the source
  by_cases hnum : b1.num = (s.block1sessions i).nextExpectedNum
  · by_cases hbig : (s.block1sessions i).buffer.length + msg.payloadBytes.length > cfg.block1MaxBody
    · exact .inr (.inl ⟨hnum, hbig, by simp only [hnum, ne_eq, not_true_eq_false, if_false, hbig,
        if_true]⟩)
    · refine .inr (.inr ?_)
      cases hm : b1.m with
      | true =>
        exact .inl ⟨hnum, by omega, rfl, by simp only [hnum, ne_eq, not_true_eq_false, if_false,
          hbig, if_true, happ]⟩
      | false =>
        exact .inr ⟨hnum, by omega, rfl, by simp only [hnum, ne_eq, not_true_eq_false, if_false,
          hbig, happ, Bool.false_eq_true]⟩
  · exact .inl ⟨hnum, if_pos hnum⟩

/-! ## The handler call -/

/-- The request a handler is called with. -/
def requestFor (s : Server cfg) (t : Target) (msg : Message) (sender : Endpoint)
    (session : Option (Fin cfg.maxBlock1Sessions)) : Request where
  method := msg.code
  message := msg
  remote := sender
  deferHandle := (s.allocateDeferred.map fun i => UInt8.ofNat i.val).getD kInvalidDeferHandle
  block1Body := session.map fun i => (s.block1sessions i).buffer
  params := t.params
  paramCount := t.paramCount

/-- What the server keeps across the handler call. -/
def handlingFor (s : Server cfg) (msg : Message) (sender : Endpoint) (ov : Option UInt32)
    (session : Option (Fin cfg.maxBlock1Sessions)) : Handling cfg where
  msg := msg
  sender := sender
  observeValue := ov
  deferIdx := s.allocateDeferred
  session := session

/-- The call of a resource's handler. -/
def handlerCall (s : Server cfg) (t : Target) (msg : Message) (sender : Endpoint)
    (session : Option (Fin cfg.maxBlock1Sessions)) : ServerEvent :=
  .handled t.index t.resource.handler (s.requestFor t msg sender session) t.resource.userContext

/-- The application's handler gets control; the server's own runs to the end. -/
theorem runHandler_cases (s : Server cfg) (t : Target) (msg : Message) (sender : Endpoint)
    (ov : Option UInt32) (session : Option (Fin cfg.maxBlock1Sessions)) :
    (∃ f, t.resource.handler = .app f ∧ s.runHandler t msg sender ov session =
        ({ s.fillDeferred s.allocateDeferred msg sender with
            control := .handling (s.handlingFor msg sender ov session) },
          [s.handlerCall t msg sender session])) ∨
      (t.resource.handler = .wellKnownCore ∧ s.runHandler t msg sender ov session =
        let s' := s.fillDeferred s.allocateDeferred msg sender
        let r := s'.finish (s.handlingFor msg sender ov session) s'.wellKnownCoreHandler
        (r.1, s.handlerCall t msg sender session :: r.2)) := by
  unfold runHandler handlerCall
  cases hh : t.resource.handler with
  | app f => exact .inl ⟨f, rfl, rfl⟩
  | wellKnownCore => exact .inr ⟨rfl, rfl⟩

/-- What a request for an admitted resource comes to. -/
theorem handleTarget_cases (s : Server cfg) (t : Target) (msg : Message) (sender : Endpoint) :
    (block1Option cfg msg = none ∧ ∃ obs, s.handleTarget t msg sender =
        (s.withObservers obs).runHandler t msg sender (s.handleObserve t msg sender).2 none) ∨
      ∃ opt, block1Option cfg msg = some opt ∧
        s.handleTarget t msg sender = s.handleBlock1 opt t msg sender none := by
  unfold handleTarget
  cases hopt : block1Option cfg msg with
  | none =>
    obtain ⟨obs, hobs⟩ := s.handleObserve_spec t msg sender
    exact .inl ⟨rfl, obs, by simp only [hobs]⟩
  | some opt => exact .inr ⟨opt, rfl, by simp only [s.handleObserve_upload t sender hopt]⟩

/-! ## What the rest of a request leaves alone -/

/-- A reply leaves the server where it was. -/
theorem JustReplies.control {s : Server cfg} {r : Server cfg × List ServerEvent}
    (h : s.JustReplies r) : r.1.control = s.control := by
  obtain ⟨⟨id, heq⟩, -⟩ := h
  rw [heq]
  rfl

/-- The ACK of a confirmable request that is answered later. -/
theorem onlySends_emptyAck (cfg : Config) (msg : Message) (dest : Endpoint) :
    OnlySends (if msg.type = .confirmable then sendEmptyAck cfg msg.messageId dest else []) := by
  split
  · exact onlySends_sendIfEncoded _ _ _
  · exact onlySends_nil

/-- After the handler: the session is freed, the deferred slot too unless the
handler has claimed it, and something may be sent. -/
theorem finish_spec (s : Server cfg) (h : Handling cfg) (res : Response) :
    (∃ id, (s.finish h res).1 =
      { s with
        block1sessions := (s.freeBlock1Session? h.session).block1sessions
        deferred :=
          if res.deferred ∧ h.deferIdx.isSome then s.deferred
          else (s.freeDeferred? h.deferIdx).deferred
        nextMessageId := id }) ∧ OnlySends (s.finish h res).2 := by
  have hfree : (s.freeBlock1Session? h.session) =
      { s with block1sessions := (s.freeBlock1Session? h.session).block1sessions } := by
    cases h.session <;> rfl
  have hslot : ∀ b, ({ s with block1sessions := b } : Server cfg).freeDeferred? h.deferIdx =
      { s with block1sessions := b, deferred := (s.freeDeferred? h.deferIdx).deferred } := by
    intro b
    cases h.deferIdx <;> rfl
  unfold finish
  -- a handler that answers later sends an empty ACK at most, and keeps its slot
  by_cases hdef : res.deferred = true ∧ h.deferIdx.isSome = true
  · simp only [hdef, and_self, if_true]
    exact ⟨⟨s.nextMessageId, hfree⟩, onlySends_emptyAck cfg h.msg h.sender⟩
  · simp only [hdef, if_false]
    rw [hfree, hslot]
    cases h.session with
    | none =>
      obtain ⟨⟨id, hstate⟩, hsends⟩ := justReplies_inline
        { s with
          block1sessions := (s.freeBlock1Session? none).block1sessions
          deferred := (s.freeDeferred? h.deferIdx).deferred } h res
      exact ⟨⟨id, hstate⟩, hsends⟩
    | some i =>
      obtain ⟨⟨id, hstate⟩, hsends⟩ := justReplies_piggybacked
        { s with
          block1sessions := (s.freeBlock1Session? (some i)).block1sessions
          deferred := (s.freeDeferred? h.deferIdx).deferred }
        h.msg h.sender res.code res.payload res.contentFormat h.observeValue
      exact ⟨⟨id, hstate⟩, hsends⟩

/-- The end of a handler leaves the control to the step that called it. -/
theorem finish_control (s : Server cfg) (h : Handling cfg) (res : Response) :
    (s.finish h res).1.control = s.control := by
  obtain ⟨⟨id, hstate⟩, -⟩ := s.finish_spec h res
  rw [hstate]

/-- A slot for a deferred request is filled before the handler runs, and nothing else is written. -/
theorem fillDeferred_spec (s : Server cfg) (slot : Option (Fin cfg.maxDeferred)) (msg : Message)
    (sender : Endpoint) : ∃ d, s.fillDeferred slot msg sender = { s with deferred := d } := by
  cases slot with
  | none => exact ⟨s.deferred, rfl⟩
  | some i => exact ⟨_, rfl⟩

/-! ## What a request does to the upload sessions -/

/-- A call of a handler and replies. -/
def CallsWith (body : Option Bytes) (t : Target) (msg : Message) (sender : Endpoint)
    (events : List ServerEvent) : Prop :=
  ∃ req rest, events = .handled t.index t.resource.handler req t.resource.userContext :: rest ∧
    req.method = msg.code ∧ req.message = msg ∧ req.remote = sender ∧ req.block1Body = body ∧
    OnlySends rest

/-- The handler call frees the session of the request or keeps it. -/
theorem runHandler_sessions (s : Server cfg) (t : Target) (msg : Message) (sender : Endpoint)
    (ov : Option UInt32) (session : Option (Fin cfg.maxBlock1Sessions)) :
    ((s.runHandler t msg sender ov session).1.block1sessions = s.block1sessions ∨
      (s.runHandler t msg sender ov session).1.block1sessions =
        (s.freeBlock1Session? session).block1sessions) ∧
      CallsWith (session.map fun i => (s.block1sessions i).buffer) t msg sender
        (s.runHandler t msg sender ov session).2 := by
  obtain ⟨d, hd⟩ := s.fillDeferred_spec s.allocateDeferred msg sender
  rcases s.runHandler_cases t msg sender ov session with ⟨f, -, heq⟩ | ⟨-, heq⟩
  · rw [heq, hd]
    exact ⟨.inl rfl, _, [], rfl, rfl, rfl, rfl, rfl, onlySends_nil⟩
  · obtain ⟨⟨id, hstate⟩, hsends⟩ := finish_spec (s.fillDeferred s.allocateDeferred msg sender)
      (s.handlingFor msg sender ov session)
      (s.fillDeferred s.allocateDeferred msg sender).wellKnownCoreHandler
    rw [heq]
    refine ⟨.inr ?_, _, _, rfl, rfl, rfl, rfl, rfl, hsends⟩
    dsimp only
    rw [hstate, hd]
    cases session <;> rfl

/-- The session a block meets: the one with its token, or a new one. -/
def Meets (s : Server cfg) (i : Fin cfg.maxBlock1Sessions) (sender : Endpoint) (token : Bytes)
    (b : Block1Session) : Prop :=
  (s.findBlock1Session sender token = some i ∧ b = s.block1sessions i) ∨
    (s.findBlock1Session sender token = none ∧ (s.block1sessions i).active = false ∧
      b = newSession sender token)

/-- The session a block meets is open, and is of the block's sender and token. -/
theorem Meets.owner {s : Server cfg} {i : Fin cfg.maxBlock1Sessions} {sender : Endpoint}
    {token : Bytes} {b : Block1Session} (h : s.Meets i sender token b) :
    b.remote = sender ∧ b.token = token ∧ b.active = true := by
  rcases h with ⟨hf, rfl⟩ | ⟨-, -, rfl⟩
  · obtain ⟨hact, hrem, htok⟩ := findBlock1Session_spec hf
    exact ⟨hrem, htok, hact⟩
  · exact ⟨rfl, rfl, rfl⟩

/-- A block that its session expects: too much, one of several, or the last. -/
structure TakesBlock (s : Server cfg) (b1 : BlockOption) (i : Fin cfg.maxBlock1Sessions)
    (b : Block1Session) (t : Target) (msg : Message) (sender : Endpoint)
    (r : Server cfg × List ServerEvent) : Prop where
  meets : s.Meets i sender msg.token b
  num   : b1.num = b.nextExpectedNum
  takes :
    (r.1.block1sessions = s.block1sessions.set i { b with active := false } ∧ OnlySends r.2) ∨
    (b1.m = true ∧ r.1.block1sessions = s.block1sessions.set i (appended b msg.payloadBytes) ∧
      OnlySends r.2) ∨
    (b1.m = false ∧ CallsWith (some (appended b msg.payloadBytes).buffer) t msg sender r.2 ∧
      (r.1.block1sessions = s.block1sessions.set i (appended b msg.payloadBytes) ∨
        r.1.block1sessions =
          s.block1sessions.set i { appended b msg.payloadBytes with active := false }))
  fits  : (r.1.block1sessions i).active = true →
    (r.1.block1sessions i).buffer.length ≤ cfg.block1MaxBody

/-- A Block1 request leaves the sessions alone or is a block its session
expects. -/
theorem handleBlock1_cases (s : Server cfg) (opt : CoapOption) (t : Target) (msg : Message)
    (sender : Endpoint) (ov : Option UInt32) :
    ((s.handleBlock1 opt t msg sender ov).1.block1sessions = s.block1sessions ∧
        OnlySends (s.handleBlock1 opt t msg sender ov).2) ∨
      ∃ b1 i b, BlockOption.fromOption opt = some b1 ∧
        TakesBlock s b1 i b t msg sender (s.handleBlock1 opt t msg sender ov) := by
  have hquiet : ∀ {s' : Server cfg} {r : Server cfg × List ServerEvent}, s'.JustReplies r →
      r.1.block1sessions = s'.block1sessions ∧ OnlySends r.2 := by
    rintro s' r ⟨⟨id, hid⟩, hsends⟩
    exact ⟨by rw [hid]; rfl, hsends⟩
  unfold handleBlock1
  cases hb1 : BlockOption.fromOption opt with
  | none => exact .inl (hquiet (s.justReplies_error ..))
  | some b1 =>
    dsimp only
    -- the session a block comes to, and the state with that session in place
    suffices hblock : ∀ (s' : Server cfg) i b, s.Meets i sender msg.token b →
        s'.block1sessions = s.block1sessions.set i b →
        (b1.num ≠ b.nextExpectedNum → s'.block1sessions = s.block1sessions) →
        ((s'.handleBlock i b1 t msg sender ov).1.block1sessions = s.block1sessions ∧
          OnlySends (s'.handleBlock i b1 t msg sender ov).2) ∨
        TakesBlock s b1 i b t msg sender (s'.handleBlock i b1 t msg sender ov) by
      -- no session for the block, the one it belongs to, or a new one
      rcases s.sessionFor_cases b1 sender msg.token with ⟨code, hs⟩ | ⟨i, hf, hs⟩ |
        ⟨i, hf, hnum, hidle, hs⟩
      · rw [hs]
        exact .inl (hquiet (s.justReplies_error ..))
      · rw [hs]
        rcases hblock s i _ (.inl ⟨hf, rfl⟩) (Table.set_eq_self _ _).symm (fun _ => rfl) with h | h
        · exact .inl h
        · exact .inr ⟨b1, i, _, rfl, h⟩
      · rw [hs]
        rcases hblock (s.withSession i (newSession sender msg.token)) i _ (.inr ⟨hf, hidle, rfl⟩)
          rfl (fun hne => absurd hnum hne) with h | h
        · exact .inl h
        · exact .inr ⟨b1, i, _, rfl, h⟩
    intro s' i b hmeets hset hsame
    have hb : s'.block1sessions i = b := by rw [hset, Table.set_self]
    have hover : ∀ b', s'.block1sessions.set i b' = s.block1sessions.set i b' := by
      intro b'
      rw [hset, Table.set_set]
    -- the four exits of `handleBlock`, each with the state it leaves
    rcases s'.handleBlock_cases i b1 t msg sender ov with ⟨hnum, heq⟩ | ⟨hnum, -, heq⟩ |
      ⟨hnum, hfits, hm, heq⟩ | ⟨hnum, hfits, hm, heq⟩
    · obtain ⟨hkeep, hsends⟩ := hquiet (s'.justReplies_continue msg sender
        ((s'.block1sessions i).nextExpectedNum - 1) true b1.szx)
      rw [heq]
      exact .inl ⟨hkeep.trans (hsame (hb ▸ hnum)), hsends⟩
    all_goals rw [hb] at hnum
    · obtain ⟨hkeep, hsends⟩ := hquiet ((s'.freeBlock1Session i).justReplies_error msg sender
        Code.requestEntityTooLarge)
      have hset : (s'.handleBlock i b1 t msg sender ov).1.block1sessions =
          s.block1sessions.set i { b with active := false } := by
        rw [heq, hkeep, ← hover, ← hb]
        rfl
      refine .inr ⟨hmeets, hnum, .inl ⟨hset, by rw [heq]; exact hsends⟩, fun hact => ?_⟩
      rw [hset, Table.set_self] at hact
      cases hact
    · obtain ⟨hkeep, hsends⟩ := hquiet ((s'.withSession i (appended (s'.block1sessions i)
        msg.payloadBytes)).justReplies_continue msg sender b1.num false b1.szx)
      have hset : (s'.handleBlock i b1 t msg sender ov).1.block1sessions =
          s.block1sessions.set i (appended b msg.payloadBytes) := by
        rw [heq, hkeep, ← hover, ← hb]
        rfl
      refine .inr ⟨hmeets, hnum, .inr (.inl ⟨hm, hset, by rw [heq]; exact hsends⟩), fun _ => ?_⟩
      rw [hset, Table.set_self]
      show (b.buffer ++ msg.payloadBytes).length ≤ _
      rw [List.length_append, ← hb]
      exact hfits
    · obtain ⟨hsess, hcall⟩ := runHandler_sessions
        (s'.withSession i (appended (s'.block1sessions i) msg.payloadBytes)) t msg sender ov (some i)
      have hi : (s'.withSession i (appended (s'.block1sessions i) msg.payloadBytes)).block1sessions =
          s.block1sessions.set i (appended b msg.payloadBytes) := by
        rw [← hover, ← hb]
        rfl
      have hset : (s'.handleBlock i b1 t msg sender ov).1.block1sessions =
            s.block1sessions.set i (appended b msg.payloadBytes) ∨
          (s'.handleBlock i b1 t msg sender ov).1.block1sessions =
            s.block1sessions.set i { appended b msg.payloadBytes with active := false } := by
        rw [heq]
        rcases hsess with h | h
        · exact .inl (h.trans hi)
        · refine .inr (h.trans ?_)
          show (Server.block1sessions (withSession s' i _)).set i
            { (Server.block1sessions (withSession s' i _)) i with active := false } = _
          rw [hi, Table.set_self, Table.set_set]
      -- the handler runs on the body, or has returned and the session is free
      refine .inr ⟨hmeets, hnum, .inr (.inr ⟨hm, ?_, hset⟩), fun hact => ?_⟩
      · rw [heq]
        rw [hi, Option.map_some, Table.set_self] at hcall
        exact hcall
      · rcases hset with h | h
        · rw [h, Table.set_self]
          show (b.buffer ++ msg.payloadBytes).length ≤ _
          rw [List.length_append, ← hb]
          exact hfits
        · rw [h, Table.set_self] at hact
          cases hact

/-! ## `poll` -/

/-- `poll` after its pool scan. -/
def scanned (s : Server cfg) (nowMs : UInt32) : Server cfg := { s with lastNowMs := nowMs }.tick.1

/-- One entry of the pool scan writes the pool, and the observer it gives up on. -/
theorem tickAt_spec (s : Server cfg) (i : Fin cfg.maxTransactions) :
    ∃ pool obs, (s.tickAt i).1 = { s with txPool := pool, observers := obs } := by
  unfold tickAt
  dsimp only
  split <;> exact ⟨_, _, rfl⟩

/-- The pool scan touches the pool and the observers only. -/
theorem tickFrom_spec : ∀ (is : List (Fin cfg.maxTransactions)) (s : Server cfg),
    ∃ pool obs, (s.tickFrom is).1 = { s with txPool := pool, observers := obs }
  | [], s => ⟨s.txPool, s.observers, rfl⟩
  | i :: is, s => by
    obtain ⟨pool, obs, h⟩ := s.tickAt_spec i
    obtain ⟨pool', obs', h'⟩ := tickFrom_spec is (s.tickAt i).1
    refine ⟨pool', obs', ?_⟩
    rw [tickFrom]
    dsimp only
    rw [h', h]

/-- The scan sends again, and does nothing else to be seen. -/
theorem tickFrom_sends : ∀ (is : List (Fin cfg.maxTransactions)) (s : Server cfg),
    OnlySends (s.tickFrom is).2
  | [], _ => onlySends_nil
  | i :: is, s => by
    have hat : OnlySends (s.tickAt i).2 := by
      unfold tickAt
      dsimp only
      split
      · exact onlySends_nil
      · exact fun e he => ⟨_, _, List.mem_singleton.1 he⟩
      · exact onlySends_nil
    exact hat.append (tickFrom_sends is _)

/-- `poll` is the pool scan and then the datagram. -/
theorem poll_eq (s : Server cfg) (nowMs : UInt32) (rx : Option (Endpoint × Bytes)) :
    ∃ ticks, OnlySends ticks ∧ s.poll nowMs rx =
      (((s.scanned nowMs).receive rx).1, ticks ++ ((s.scanned nowMs).receive rx).2) :=
  ⟨_, tickFrom_sends _ _, rfl⟩

/-- The scan of a poll writes the clock, the pool and the observers. -/
theorem scanned_spec (s : Server cfg) (nowMs : UInt32) :
    ∃ pool obs, s.scanned nowMs = { s with lastNowMs := nowMs, txPool := pool, observers := obs } :=
  tickFrom_spec (List.finRange _) { s with lastNowMs := nowMs }

section Scanned

variable (s : Server cfg) (nowMs : UInt32)

theorem scanned_control : (s.scanned nowMs).control = s.control := by
  obtain ⟨pool, obs, hscan⟩ := s.scanned_spec nowMs
  rw [hscan]

theorem scanned_resources : (s.scanned nowMs).resources = s.resources := by
  obtain ⟨pool, obs, hscan⟩ := s.scanned_spec nowMs
  rw [hscan]

theorem scanned_sessions : (s.scanned nowMs).block1sessions = s.block1sessions := by
  obtain ⟨pool, obs, hscan⟩ := s.scanned_spec nowMs
  rw [hscan]

end Scanned

/-! ## `step` -/

section Step

variable {s : Server cfg} {h : Handling cfg}

/-- Between two handlers a poll is made. -/
theorem step_poll (hidle : s.control = .idle) (nowMs : UInt32) (rx : Option (Endpoint × Bytes)) :
    s.step (.poll nowMs rx) = s.poll nowMs rx := by
  simp only [step, hidle]

/-- It leaves what the datagram makes of the state after the scan. -/
theorem step_poll_state (hidle : s.control = .idle) (nowMs : UInt32)
    (rx : Option (Endpoint × Bytes)) :
    (s.step (.poll nowMs rx)).1 = ((s.scanned nowMs).receive rx).1 := by
  rw [step_poll hidle]
  rfl

/-- `poll` is not called from a handler. -/
theorem step_poll_busy (hctl : s.control = .handling h) (nowMs : UInt32)
    (rx : Option (Endpoint × Bytes)) : s.step (.poll nowMs rx) = (s, []) := by
  simp only [step, hctl]

/-- A handler that returns is finished from an idle server. -/
theorem step_returns (hctl : s.control = .handling h) (res : Response) :
    s.step (.handlerReturns res) = finish { s with control := .idle } h res := by
  simp only [step, hctl]

/-- No handler runs that could return. -/
theorem step_returns_idle (hidle : s.control = .idle) (res : Response) :
    s.step (.handlerReturns res) = (s, []) := by
  simp only [step, hidle]

end Step

/-- No timer of the server is due at this time. -/
def NoneDue (s : Server cfg) (nowMs : UInt32) : Prop :=
  ∀ i, TransactionPool.Awaiting (s.txPool i) → TransactionPool.notDue nowMs (s.txPool i) = true

instance (s : Server cfg) (nowMs : UInt32) : Decidable (s.NoneDue nowMs) :=
  inferInstanceAs (Decidable (∀ _, _ → _))

/-- No timer is due, so the scan passes this entry over. -/
theorem tickAt_quiet {s : Server cfg} (h : s.NoneDue s.lastNowMs) (i : Fin cfg.maxTransactions) :
    s.tickAt i = (s, []) := by
  have htick : TransactionPool.tickSlot cfg s.lastNowMs (s.txPool i) = (s.txPool i, none) := by
    rcases TransactionPool.tickSlot_cases cfg s.lastNowMs (s.txPool i) with ⟨heq, -⟩ |
      ⟨ha, hdue, -⟩ | ⟨ha, hdue, -⟩
    · exact heq
    · rw [h i ha] at hdue
      cases hdue
    · rw [h i ha] at hdue
      cases hdue
  unfold tickAt
  rw [htick]
  dsimp only
  rw [Table.set_eq_self]

/-- No timer is due, so the scan does nothing at all. -/
theorem tickFrom_quiet (is : List (Fin cfg.maxTransactions)) {s : Server cfg}
    (h : s.NoneDue s.lastNowMs) : s.tickFrom is = (s, []) := by
  induction is with
  | nil => rfl
  | cons i is ih =>
    unfold tickFrom
    rw [tickAt_quiet h]
    dsimp only
    rw [ih]
    rfl

/-- A poll with no timer due is its datagram. -/
theorem poll_quiet {s : Server cfg} {nowMs : UInt32} (h : s.NoneDue nowMs)
    (rx : Option (Endpoint × Bytes)) :
    s.poll nowMs rx = ({ s with lastNowMs := nowMs } : Server cfg).receive rx := by
  have htick : ({ s with lastNowMs := nowMs } : Server cfg).tick =
      ({ s with lastNowMs := nowMs }, []) := tickFrom_quiet _ h
  unfold poll
  dsimp only
  rw [htick]
  rfl

/-- A message that is dispatched to `handleRequest`. -/
def IsRequest (msg : Message) : Prop :=
  msg.type ≠ .reset ∧ msg.type ≠ .acknowledgement ∧ isMethodCode msg.code = true

instance (msg : Message) : Decidable (IsRequest msg) :=
  inferInstanceAs (Decidable (_ ∧ _ ∧ _))

/-- A datagram that decodes to a request reaches `handleRequest`. -/
theorem receive_request (s : Server cfg) (sender : Endpoint) {data : Bytes} {msg : Message}
    (hdec : Message.decode cfg data = (.none, msg)) (hreq : IsRequest msg) :
    s.receive (some (sender, data)) = s.handleRequest msg sender := by
  obtain ⟨hrst, hack, hmethod⟩ := hreq
  have hlen := Message.decode_length hdec
  unfold receive
  simp only [hdec, hlen, if_true]
  unfold handleMessage
  rw [if_neg hrst, if_neg hack, if_pos hmethod]

/-- A poll between two handlers that reads a request. -/
theorem step_request {s : Server cfg} (hidle : s.control = .idle) {data : Bytes} {msg : Message}
    (hdec : Message.decode cfg data = (.none, msg)) (hreq : IsRequest msg) (nowMs : UInt32)
    (sender : Endpoint) : (s.step (.poll nowMs (some (sender, data)))).1 =
      ((s.scanned nowMs).handleRequest msg sender).1 := by
  rw [step_poll_state hidle, receive_request _ sender hdec hreq]

/-- A datagram is dropped, is an RST, is an ACK or is a request. -/
theorem receive_cases (s : Server cfg) (rx : Option (Endpoint × Bytes)) :
    s.receive rx = (s, []) ∨
      (∃ sender data msg, rx = some (sender, data) ∧ Message.decode cfg data = (.none, msg) ∧
        msg.type = .reset ∧ s.receive rx = (s.handleReset sender msg.messageId, [])) ∨
      (∃ sender data msg, rx = some (sender, data) ∧ Message.decode cfg data = (.none, msg) ∧
        msg.type = .acknowledgement ∧ s.receive rx =
          ({ s with txPool := (s.txPool.complete sender msg.messageId).1 }, [])) ∨
      (∃ sender data msg, rx = some (sender, data) ∧ Message.decode cfg data = (.none, msg) ∧
        IsRequest msg ∧ s.receive rx = s.handleRequest msg sender) := by
  match rx with
  | none => exact .inl rfl
  | some (sender, data) =>
    unfold receive
    by_cases hlen : data.length > 0
    · simp only [hlen, if_true]
      cases hdec : Message.decode cfg data with
      | mk err msg =>
        cases err
        case none =>
          dsimp only
          unfold handleMessage
          -- the type comes before the code
          by_cases hrst : msg.type = .reset
          · exact .inr (.inl ⟨sender, data, msg, rfl, hdec, hrst, if_pos hrst⟩)
          by_cases hack : msg.type = .acknowledgement
          · exact .inr (.inr (.inl ⟨sender, data, msg, rfl, hdec, hack,
              by rw [if_neg hrst, if_pos hack]⟩))
          by_cases hmethod : isMethodCode msg.code = true
          · exact .inr (.inr (.inr ⟨sender, data, msg, rfl, hdec, ⟨hrst, hack, hmethod⟩,
              by rw [if_neg hrst, if_neg hack, if_pos hmethod]⟩))
          · exact .inl (by rw [if_neg hrst, if_neg hack, if_neg hmethod])
        all_goals exact .inl rfl
    · exact .inl (by simp only [hlen, if_false])

/-- An RST takes observers off the list and does no more. -/
theorem handleReset_spec (s : Server cfg) (sender : Endpoint) (messageId : UInt16) :
    ∃ obs, s.handleReset sender messageId = s.withObservers obs := by
  unfold handleReset
  split
  · exact ⟨_, rfl⟩
  · exact ⟨s.observers, rfl⟩

/-! ## API calls -/

/-! ## What comes of a datagram -/

/-- The same server with these observers, transactions and upload sessions. -/
def withTables (s : Server cfg) (observers : Table cfg.maxObservers Observer)
    (txPool : TransactionPool cfg) (block1sessions : Table cfg.maxBlock1Sessions Block1Session) :
    Server cfg :=
  { s with observers, txPool, block1sessions }

/-- Replies or the call of a handler, once some tables have been written. -/
def Comes (s : Server cfg) (r : Server cfg × List ServerEvent) : Prop :=
  ∃ obs pool sess, (s.withTables obs pool sess).JustReplies r ∨ ∃ t msg sender ov session,
    r = (s.withTables obs pool sess).runHandler t msg sender ov session

/-- A reply calls no handler. -/
theorem JustReplies.comes {s : Server cfg} {r : Server cfg × List ServerEvent}
    (h : s.JustReplies r) : s.Comes r :=
  ⟨s.observers, s.txPool, s.block1sessions, .inl h⟩

/-- Whatever was done to the tables before, the datagram comes to this. -/
theorem Comes.of_tables {s s' : Server cfg} {r : Server cfg × List ServerEvent} (h : s'.Comes r)
    (hs : ∃ obs pool sess, s' = s.withTables obs pool sess) : s.Comes r := by
  obtain ⟨obs, pool, sess, rfl⟩ := hs
  obtain ⟨obs', pool', sess', hr⟩ := h
  exact ⟨obs', pool', sess', hr⟩

/-- A block of an upload: a handler call for the last one, else a reply. -/
theorem comes_handleBlock (s : Server cfg) (i : Fin cfg.maxBlock1Sessions) (b1 : BlockOption)
    (t : Target) (msg : Message) (sender : Endpoint) (ov : Option UInt32) :
    s.Comes (s.handleBlock i b1 t msg sender ov) := by
  have hsession : ∀ b, ∃ obs pool sess, s.withSession i b = s.withTables obs pool sess :=
    fun b => ⟨s.observers, s.txPool, s.block1sessions.set i b, rfl⟩
  rcases s.handleBlock_cases i b1 t msg sender ov with ⟨-, h⟩ | ⟨-, -, h⟩ | ⟨-, -, -, h⟩ |
    ⟨-, -, -, h⟩
  · rw [h]
    exact (s.justReplies_continue ..).comes
  · rw [h]
    exact ((s.freeBlock1Session i).justReplies_error ..).comes.of_tables (hsession _)
  · rw [h]
    exact ((s.withSession i _).justReplies_continue ..).comes.of_tables (hsession _)
  · rw [h]
    exact ⟨s.observers, s.txPool, s.block1sessions.set i _, .inr ⟨t, msg, sender, ov, _, rfl⟩⟩

/-- **What comes of a request**: replies, or a handler that runs on the server as the checks and
the Observe option have left it. -/
theorem comes_handleRequest (s : Server cfg) (msg : Message) (sender : Endpoint) :
    s.Comes (s.handleRequest msg sender) := by
  rcases s.handleRequest_cases msg sender with ⟨-, code, h⟩ | ⟨t, -, h⟩
  · rw [h]
    exact (s.justReplies_error ..).comes
  rw [h]
  rcases s.handleTarget_cases t msg sender with ⟨-, obs, h⟩ | ⟨opt, -, h⟩
  · rw [h]
    exact ⟨obs, s.txPool, s.block1sessions, .inr ⟨t, msg, sender, _, none, rfl⟩⟩
  rw [h]
  unfold handleBlock1
  cases BlockOption.fromOption opt with
  | none => exact (s.justReplies_error ..).comes
  | some b1 =>
    dsimp only
    rcases s.sessionFor_cases b1 sender msg.token with ⟨code, hs⟩ | ⟨i, -, hs⟩ | ⟨i, -, -, -, hs⟩
    · rw [hs]
      exact (s.justReplies_error ..).comes
    · rw [hs]
      exact s.comes_handleBlock i b1 t msg sender none
    · -- the first block opens its session
      rw [hs]
      exact (comes_handleBlock ..).of_tables ⟨s.observers, s.txPool, s.block1sessions.set i _, rfl⟩

/-- **What comes of a datagram**: what comes of its message, or nothing if it does not decode. -/
theorem comes_receive (s : Server cfg) (rx : Option (Endpoint × Bytes)) : s.Comes (s.receive rx) := by
  rcases s.receive_cases rx with h | ⟨sender, data, msg, -, -, -, h⟩ |
    ⟨sender, data, msg, -, -, -, h⟩ | ⟨sender, data, msg, -, -, -, h⟩
  · rw [h]
    exact s.justReplies_nil.comes
  · obtain ⟨obs, hobs⟩ := s.handleReset_spec sender msg.messageId
    rw [h, hobs]
    exact ⟨obs, s.txPool, s.block1sessions, .inl (justReplies_nil _)⟩
  · rw [h]
    exact ⟨s.observers, _, s.block1sessions, .inl (justReplies_nil _)⟩
  · rw [h]
    exact s.comes_handleRequest msg sender

/-- The index of a target is where its resource stands in the table. -/
theorem findTarget_index {s : Server cfg} {path : Bytes} {t : Target}
    (h : s.findTarget path = some t) : s.resources[t.index]? = some t.resource := by
  unfold findTarget at h
  cases hf : Resource.find cfg s.resources (Uri.cString path) with
  | none => simp [hf] at h
  | some r =>
    obtain ⟨index, params, count⟩ := r
    cases hr : s.resources[index]? with
    | none => simp [hf, hr] at h
    | some resource =>
      obtain rfl : _ = t := by simpa [hf, hr] using h
      exact hr

/-- A resource that is added changes the table of resources only. -/
theorem addResource_only (s : Server cfg) (path : Option Bytes) (methods : UInt8)
    (handler : Option Handler) (userContext : Option Ref) (observable : Bool) :
    ∃ rs, (s.addResource path methods handler userContext observable).1 =
      { s with resources := rs } := by
  unfold addResource
  split
  · split
    · exact ⟨_, rfl⟩
    · exact ⟨_, rfl⟩
  · exact ⟨_, rfl⟩

/-- **A call** that is no `notify` and no `respond` sends nothing and writes the resources only.
The other two have lemmas of their own. -/
theorem call_cases (s : Server cfg) (call : ServerCall) :
    (∃ rs, (s.call call).1 = { s with resources := rs } ∧ (s.call call).2.2 = []) ∨
      (∃ path payload contentFormat confirmable,
        call = .notify path payload contentFormat confirmable) ∨
      ∃ handle code payload contentFormat, call = .respond handle code payload contentFormat := by
  cases call with
  | begin transportOk =>
    refine .inl ?_
    cases transportOk with
    | false => exact ⟨_, rfl, rfl⟩
    | true =>
      obtain ⟨rs, heq⟩ := s.addResource_only (some Uri.wellKnownCore) methodGet
        (some .wellKnownCore) none false
      exact ⟨rs, heq, rfl⟩
  | addResource path methods handler userContext observable =>
    obtain ⟨rs, heq⟩ := s.addResource_only path methods (handler.map .app) userContext observable
    exact .inl ⟨rs, heq, rfl⟩
  | setResourceType path rt =>
    refine .inl ?_
    show ∃ rs, (s.setResourceType path rt).1 = _ ∧ _
    unfold setResourceType
    split
    · exact ⟨_, rfl, rfl⟩
    · exact ⟨_, rfl, rfl⟩
  | notify path payload contentFormat confirmable =>
    exact .inr (.inl ⟨path, payload, contentFormat, confirmable, rfl⟩)
  | respond handle code payload contentFormat =>
    exact .inr (.inr ⟨handle, code, payload, contentFormat, rfl⟩)

/-- A call of the API leaves the upload sessions, the clock and a running
handler alone; what it sends are datagrams. -/
structure CallKeeps (s s' : Server cfg) (events : List ServerEvent) : Prop where
  sessions : s'.block1sessions = s.block1sessions
  clock    : s'.lastNowMs = s.lastNowMs
  control  : s'.control = s.control
  sends    : OnlySends events

theorem CallKeeps.refl (s : Server cfg) : s.CallKeeps s [] := ⟨rfl, rfl, rfl, onlySends_nil⟩

theorem CallKeeps.append {s s' s'' : Server cfg} {ev ev' : List ServerEvent}
    (h : s.CallKeeps s' ev) (h' : s'.CallKeeps s'' ev') : s.CallKeeps s'' (ev ++ ev') where
  sessions := h'.sessions.trans h.sessions
  clock := h'.clock.trans h.clock
  control := h'.control.trans h.control
  sends := h.sends.append h'.sends

/-- The notification for one observer. -/
theorem notifyObserver_keeps (s : Server cfg) (i : Fin cfg.maxObservers) (sequence : UInt32)
    (payload : Bytes) (contentFormat : ContentFormat) (confirmable : Bool) :
    s.CallKeeps (s.notifyObserver i sequence payload contentFormat confirmable).1
      (s.notifyObserver i sequence payload contentFormat confirmable).2 := by
  unfold notifyObserver
  dsimp only
  split
  · exact ⟨rfl, rfl, rfl, onlySends_nil⟩
  · refine ⟨?_, ?_, ?_, fun e he => ⟨_, _, List.mem_singleton.1 he⟩⟩
    all_goals cases confirmable <;> rfl

/-- The notifications for the observers that are left of the list. -/
theorem notifyFrom_keeps (index : Nat) (sequence : UInt32) (payload : Bytes)
    (contentFormat : ContentFormat) (confirmable : Bool) :
    ∀ (is : List (Fin cfg.maxObservers)) (s : Server cfg),
      s.CallKeeps (s.notifyFrom index sequence payload contentFormat confirmable is).1
        (s.notifyFrom index sequence payload contentFormat confirmable is).2 := by
  intro is
  induction is with
  | nil => exact fun s => .refl s
  | cons i is ih =>
    intro s
    rw [notifyFrom]
    split
    · exact (s.notifyObserver_keeps i sequence payload contentFormat confirmable).append (ih _)
    · exact ih s

/-- A notification writes resources, observers and the pool, whoever it is for. -/
theorem notify_keeps (s : Server cfg) (path payload : Bytes) (contentFormat : ContentFormat)
    (confirmable : Bool) :
    s.CallKeeps (s.notify path payload contentFormat confirmable).1
      (s.notify path payload contentFormat confirmable).2.2 := by
  unfold notify
  split
  · exact .refl s
  · split
    · exact .refl s
    · obtain ⟨hsess, hclock, hctl, hsends⟩ := notifyFrom_keeps _ _ payload contentFormat
        confirmable (List.finRange cfg.maxObservers) { s with resources := _ }
      exact ⟨hsess, hclock, hctl, hsends⟩

/-- So does the response to a deferred request, which also empties its slot. -/
theorem respond_keeps (s : Server cfg) (handle : UInt8) (code : Code) (payload : Bytes)
    (contentFormat : ContentFormat) :
    s.CallKeeps (s.respond handle code payload contentFormat).1
      (s.respond handle code payload contentFormat).2.2 := by
  unfold respond
  split
  · dsimp only
    split
    · exact .refl s
    · split
      · exact ⟨rfl, rfl, rfl, onlySends_nil⟩
      · refine ⟨?_, ?_, ?_, fun e he => ⟨_, _, List.mem_singleton.1 he⟩⟩
        all_goals split <;> rfl
  · exact .refl s

/-- **A call of the API** leaves the control, the sessions and the clock alone, and only sends.
It may be made while a handler runs. -/
theorem call_keeps (s : Server cfg) (c : ServerCall) : s.CallKeeps (s.call c).1 (s.call c).2.2 := by
  rcases s.call_cases c with ⟨rs, heq, hquiet⟩ | ⟨path, payload, cf, con, rfl⟩ |
    ⟨handle, code, payload, cf, rfl⟩
  · rw [heq, hquiet]
    exact ⟨rfl, rfl, rfl, onlySends_nil⟩
  · exact s.notify_keeps ..
  · exact s.respond_keeps ..

end Server

end PulseCoap
