import PulseCoap.Server.Resource
import PulseCoap.Blockwise

/-!
# PulseCoAP — `Server`

`PulseCoAPServer.h` and `.cpp`: the server's tables, the calls of its API and
`poll()`.

A resource handler may call the server before it returns, so `handleRequest` is
cut at the handler call. What it still needs afterwards is kept in the server's
`Control`; `finish` is the code after the call. The server's own handler for
`/.well-known/core` calls nothing back, so its requests have no cut.

The code never looks at the result of `Transport::send`, so an event `sent` is a
datagram handed to the transport. With `PULSECOAP_ENABLE_BLOCKWISE` 0 the table
of upload sessions keeps its initial value.

The branches of `handleRequest` have names of their own: the checks are
`admitted`, the Observe option is `handleObserve`, the Block1 branch is
`handleBlock1` and `handleBlock`, and what comes behind the handler is `finish`
with `replyInline`. They are called in the order of the source, and each returns
the server with the events so far. A response or a notification that does not
encode is no event.

* `Server.step` — a call, a `poll()` up to the handler, or the return of the
  handler.
-/

namespace PulseCoap

/-- `Server::Observer`. -/
structure Observer where
  active            : Bool := false
  resourceIndex     : UInt8 := 0
  remote            : Endpoint := default
  token             : Bytes := []
  lastSentMessageId : UInt16 := 0
deriving DecidableEq, Repr

/-- `Server::DeferredRequest`. -/
structure DeferredRequest where
  active         : Bool := false
  remote         : Endpoint := default
  token          : Bytes := []
  wasConfirmable : Bool := false
deriving DecidableEq, Repr

/-- `kInvalidDeferHandle`. -/
def kInvalidDeferHandle : UInt8 := 0xFF

/-- `struct Request`; `block1Body` is `none` for a null pointer. -/
structure Request where
  method      : Code
  message     : Message
  remote      : Endpoint
  deferHandle : UInt8
  block1Body  : Option Bytes
  params      : List PathParamEntry
  paramCount  : UInt8
deriving DecidableEq, Repr

/-- `Request::payload`. -/
def Request.payload (req : Request) : Bytes := req.block1Body.getD req.message.payloadBytes

/-- `struct Response`; an empty payload is a null pointer or a length of 0,
which the server does not tell apart. -/
structure Response where
  code          : Code := Code.content
  contentFormat : ContentFormat := .textPlain
  payload       : Bytes := []
  deferred      : Bool := false
deriving DecidableEq, Repr

/-- The locals of `handleRequest` that are read after the handler call: the request, the value
for the Observe option, the slot for a deferral and the session of an upload. -/
structure Handling (cfg : Config) where
  msg          : Message
  sender       : Endpoint
  observeValue : Option UInt32
  deferIdx     : Option (Fin cfg.maxDeferred)
  /-- The upload session, in the Block1 branch. -/
  session      : Option (Fin cfg.maxBlock1Sessions)
deriving DecidableEq

/-- Where the server's code stands. -/
inductive ServerControl (cfg : Config) where
  | idle
  /-- In `poll()`, while an application's handler runs. -/
  | handling (h : Handling cfg)
deriving DecidableEq

/-- `class Server`. -/
structure Server (cfg : Config) where
  resources      : List Resource := []
  observers      : Table cfg.maxObservers Observer := fun _ => {}
  deferred       : Table cfg.maxDeferred DeferredRequest := fun _ => {}
  txPool         : TransactionPool cfg := TransactionPool.reset
  lastNowMs      : UInt32 := 0
  nextMessageId  : UInt16 := 1
  block1sessions : Table cfg.maxBlock1Sessions Block1Session := fun _ => {}
  control        : ServerControl cfg := .idle

/-- What a step does to the world outside. What a handler does with its request is the steps
that follow, up to the one in which it returns. -/
inductive ServerEvent where
  /-- A datagram handed to the transport. -/
  | sent (dest : Endpoint) (data : Bytes)
  /-- The handler of the resource with this index is called. -/
  | handled (index : Nat) (handler : Handler) (req : Request) (userContext : Option Ref)
  /-- A call of the API returns. -/
  | returned (result : Bool)
deriving DecidableEq, Repr

namespace Server

variable {cfg : Config}

/-! ## Sending -/

/-- `encode` into a buffer of `PULSECOAP_MAX_MSG_SIZE` bytes; `none` for 0. The result of
`Transport::send` is looked at nowhere in the server. -/
def encoded (cfg : Config) (msg : Message) : Option Bytes :=
  match msg.encode cfg.maxMsgSize with
  | .ok buf => some buf
  | .error _ => none

/-- `if (len > 0) transport_.send(…)`. -/
def sendIfEncoded (cfg : Config) (msg : Message) (dest : Endpoint) : List ServerEvent :=
  match encoded cfg msg with
  | some buf => [.sent dest buf]
  | none => []

/-- `nextMessageId_++`. -/
def drawMessageId (s : Server cfg) : Server cfg := { s with nextMessageId := s.nextMessageId + 1 }

/-- The first lines of every reply: its type, message ID, token and code. The
reply to a NON request takes a message ID of the server. -/
def reply (s : Server cfg) (request : Message) (code : Code) : Server cfg × Message :=
  if request.type = .confirmable then
    let r := (Message.reset.setType .acknowledgement).setMessageId request.messageId
    (s, (r.setToken request.token).1.setCode code)
  else
    let r := (Message.reset.setType .nonConfirmable).setMessageId s.nextMessageId
    (s.drawMessageId, (r.setToken request.token).1.setCode code)

/-- `if (observeValue >= 0)`: the Observe option. -/
def addObserve (cfg : Config) (msg : Message) (observeValue : Option UInt32) : Message :=
  match observeValue with
  | some v => (msg.addOptionUint cfg OptionNumber.observe v).1
  | none => msg

/-- `if (payload && payloadLength > 0)`: Content-Format and payload. -/
def addContent (cfg : Config) (msg : Message) (payload : Bytes) (contentFormat : ContentFormat) :
    Message :=
  if payload.length > 0 then
    let msg := (msg.addOptionUint cfg OptionNumber.contentFormat contentFormat.raw.toUInt32).1
    msg.setPayload (some payload) payload.length
  else msg

/-- `Server::sendEmptyAck`. -/
def sendEmptyAck (cfg : Config) (messageId : UInt16) (dest : Endpoint) : List ServerEvent :=
  sendIfEncoded cfg
    (((Message.reset.setType .acknowledgement).setCode Code.empty).setMessageId messageId) dest

/-- `Server::sendPiggybackedResponse`. An add call that finds no room is not noticed, and a
message that does not encode is not sent. -/
def sendPiggybackedResponse (s : Server cfg) (request : Message) (dest : Endpoint) (code : Code)
    (payload : Bytes) (contentFormat : ContentFormat) (observeValue : Option UInt32) :
    Server cfg × List ServerEvent :=
  let r := s.reply request code
  (r.1, sendIfEncoded cfg (addContent cfg (addObserve cfg r.2 observeValue) payload contentFormat)
    dest)

/-- A reply that is only a code: no payload, no options. -/
def sendError (s : Server cfg) (request : Message) (dest : Endpoint) (code : Code) :
    Server cfg × List ServerEvent :=
  s.sendPiggybackedResponse request dest code [] .textPlain none

/-- `Server::sendBlock2Response`. It computes and checks the offset, as its caller has done. -/
def sendBlock2Response (s : Server cfg) (request : Message) (dest : Endpoint) (code : Code)
    (fullPayload : Bytes) (contentFormat : ContentFormat) (observeValue : Option UInt32)
    (num : UInt32) (more : Bool) (szx : UInt8) : Server cfg × List ServerEvent :=
  let sz := blockSize szx
  let offset := num.toNat * sz
  if offset ≥ fullPayload.length then (s, [])
  else
    let remaining := fullPayload.length - offset
    let blockLen := if remaining > sz then sz else remaining
    let r := s.reply request code
    -- option order: Observe, Content-Format, Block2
    let response := addObserve cfg r.2 observeValue
    let response :=
      (response.addOptionUint cfg OptionNumber.contentFormat contentFormat.raw.toUInt32).1
    let response :=
      (response.addOptionUint cfg OptionNumber.block2 (BlockOption.toOptionValue num more szx)).1
    (r.1, sendIfEncoded cfg (response.setPayload (some (fullPayload.drop offset)) blockLen) dest)

/-- The two `2.31 Continue` replies of the Block1 branch. They are the same but for the number
and the flag. -/
def sendContinue (s : Server cfg) (request : Message) (dest : Endpoint) (num : UInt32) (m : Bool)
    (szx : UInt8) : Server cfg × List ServerEvent :=
  let r := s.reply request Code.«continue»
  let cont :=
    (r.2.addOptionUint cfg OptionNumber.block1 (BlockOption.toOptionValue num m szx)).1
  (r.1, sendIfEncoded cfg cont dest)

/-! ## Observers -/

/-- `o.active && o.remote == remote && o.token == token`. -/
def observes (remote : Endpoint) (token : Bytes) (o : Observer) : Bool :=
  o.active && o.remote == remote && o.token == token

/-- `Server::registerObserver`; a full table drops the registration. An entry with the same
remote and token is moved to the resource and keeps its place. -/
def registerObserver (s : Server cfg) (resourceIndex : UInt8) (remote : Endpoint) (token : Bytes) :
    Server cfg :=
  match s.observers.find? (observes remote token) with
  | some i => { s with observers := s.observers.set i { s.observers i with resourceIndex } }
  | none =>
    match s.observers.find? fun o => !o.active with
    | some i =>
      { s with
        observers := s.observers.set i
          { s.observers i with active := true, resourceIndex, remote, token } }
    | none => s

/-- `Server::removeObserver`: every entry with the remote and the token, whatever its resource. -/
def removeObserver (s : Server cfg) (remote : Endpoint) (token : Bytes) : Server cfg :=
  { s with observers := fun i =>
      if observes remote token (s.observers i) then { s.observers i with active := false }
      else s.observers i }

/-- The loop that notes the message ID of the reply to a registration. It is the ID of the
request, noted before there is a reply. -/
def noteReply (s : Server cfg) (remote : Endpoint) (token : Bytes) (messageId : UInt16) :
    Server cfg :=
  match s.observers.find? (observes remote token) with
  | some i =>
    { s with
      observers := s.observers.set i { s.observers i with lastSentMessageId := messageId } }
  | none => s

/-- `static_cast<int32_t>`; a negative value sends no Observe option. -/
def observeValueOf (sequence : UInt32) : Option UInt32 :=
  if sequence.toNat < 2 ^ 31 then some sequence else none

/-- `Server::observerCount`. -/
def observerCount (s : Server cfg) : Nat := s.observers.count fun o => o.active = true

/-! ## Deferred requests and upload sessions -/

/-- `Server::allocateDeferred` finds the slot; writing it is the caller's. Every request takes
one for the time of its handler, if there is one. -/
def allocateDeferred (s : Server cfg) : Option (Fin cfg.maxDeferred) :=
  s.deferred.find? fun d => !d.active

/-- Writing the slot of a request about to be handled. -/
def fillDeferred (s : Server cfg) (slot : Option (Fin cfg.maxDeferred)) (msg : Message)
    (sender : Endpoint) : Server cfg :=
  match slot with
  | some i =>
    { s with
      deferred := s.deferred.set i
        { active := true, remote := sender, token := msg.token
          wasConfirmable := decide (msg.type = .confirmable) } }
  | none => s

/-- `deferred_[i].active = false`. -/
def freeDeferred (s : Server cfg) (i : Fin cfg.maxDeferred) : Server cfg :=
  { s with deferred := s.deferred.set i { s.deferred i with active := false } }

/-- `Server::findBlock1Session`. -/
def findBlock1Session (s : Server cfg) (remote : Endpoint) (token : Bytes) :
    Option (Fin cfg.maxBlock1Sessions) :=
  s.block1sessions.find? fun b => b.active && b.remote == remote && b.token == token

/-- `Server::allocateBlock1Session`. -/
def allocateBlock1Session (s : Server cfg) (remote : Endpoint) (token : Bytes) :
    Option (Server cfg × Fin cfg.maxBlock1Sessions) :=
  match s.block1sessions.find? fun b => !b.active with
  | some i =>
    some ({ s with
        block1sessions := s.block1sessions.set i
          { active := true, remote, token, nextExpectedNum := 0, buffer := [] } }, i)
  | none => none

/-- `Server::freeBlock1Session`. The source checks the index, which is in range wherever it is
called. -/
def freeBlock1Session (s : Server cfg) (i : Fin cfg.maxBlock1Sessions) : Server cfg :=
  { s with
    block1sessions := s.block1sessions.set i { s.block1sessions i with active := false } }

/-- `freeDeferred` and `freeBlock1Session` where there is something to free. -/
def freeDeferred? (s : Server cfg) : Option (Fin cfg.maxDeferred) → Server cfg
  | some i => s.freeDeferred i
  | none => s
def freeBlock1Session? (s : Server cfg) : Option (Fin cfg.maxBlock1Sessions) → Server cfg
  | some i => s.freeBlock1Session i
  | none => s

/-! ## After the handler -/

/-- `Server::wellKnownCoreHandler`: a handler like any other, but in the server's own code, so
its run is no step of the application. -/
def wellKnownCoreHandler (s : Server cfg) : Response where
  code := Code.content
  contentFormat := .linkFormat
  payload := Resource.buildLinkFormat cfg s.resources

/-- The Block2 option of a request, when it is well formed. -/
def block2Requested (msg : Message) : Option BlockOption :=
  match msg.findOption OptionNumber.block2 with
  | some opt => BlockOption.fromOption opt
  | none => none

/-- The inline reply to a request outside the Block1 branch. A Block2 option in the request asks
for a block even if the payload is shorter; without one the payload is cut if it is longer than
a block of the default size. -/
def replyInline (s : Server cfg) (h : Handling cfg) (res : Response) :
    Server cfg × List ServerEvent :=
  let piggybacked :=
    s.sendPiggybackedResponse h.msg h.sender res.code res.payload res.contentFormat h.observeValue
  if cfg.enableBlockwise ∧ res.payload.length > 0 then
    let b2 := block2Requested h.msg
    let szx := (b2.map (·.szx)).getD cfg.blockSzx
    let num := (b2.map (·.num)).getD 0
    let sz := blockSize szx
    let offset := num.toNat * sz
    if res.payload.length > sz ∨ b2.isSome then
      if offset ≥ res.payload.length then s.sendError h.msg h.sender Code.badRequest
      else
        s.sendBlock2Response h.msg h.sender res.code res.payload res.contentFormat h.observeValue
          num (decide (res.payload.length - offset > sz)) szx
    else piggybacked
  else piggybacked

/-- `handleRequest` from the return of the handler on. The session is freed first. A result
marked as deferred is sent at once if there was no slot for the request. -/
def finish (s : Server cfg) (h : Handling cfg) (res : Response) : Server cfg × List ServerEvent :=
  let s := s.freeBlock1Session? h.session
  if res.deferred ∧ h.deferIdx.isSome then
    -- the slot stays active, `respond()` frees it
    (s, if h.msg.type = .confirmable then sendEmptyAck cfg h.msg.messageId h.sender else [])
  else
    let s := s.freeDeferred? h.deferIdx
    match h.session with
    | some _ =>
      s.sendPiggybackedResponse h.msg h.sender res.code res.payload res.contentFormat
        h.observeValue
    | none => s.replyInline h res

/-! ## `handleRequest` -/

/-- What `findResource` came to: the resource and the captures. -/
structure Target where
  index      : Nat
  resource   : Resource
  params     : List PathParamEntry
  paramCount : UInt8
deriving DecidableEq, Repr

/-- `findResource` and `resources_[idx]`. The path is a C string, so it ends at its first zero
byte. -/
def findTarget (s : Server cfg) (path : Bytes) : Option Target := do
  let (index, params, paramCount) ← Resource.find cfg s.resources (Uri.cString path)
  let resource ← s.resources[index]?
  some { index, resource, params, paramCount }

/-- The `switch` over the method. Any other code of class 0 is answered 5.01. -/
def requestedMask (code : Code) : Option UInt8 :=
  if code = Code.get then some methodGet
  else if code = Code.post then some methodPost
  else if code = Code.put then some methodPut
  else if code = Code.delete then some methodDelete
  else none

/-- GET with Observe 0 registers and with any other value deregisters. That is done before the
handler runs and is not undone if it fails. -/
def handleObserve (s : Server cfg) (t : Target) (msg : Message) (sender : Endpoint) :
    Server cfg × Option UInt32 :=
  match msg.findOption OptionNumber.observe with
  | none => (s, none)
  | some opt =>
    if t.resource.observable ∧ msg.code = Code.get then
      if Message.optionAsUint opt = kObserveRegister then
        let s := s.registerObserver (UInt8.ofNat t.index) sender msg.token
        (s.noteReply sender msg.token msg.messageId, observeValueOf t.resource.observeSequence)
      else (s.removeObserver sender msg.token, none)
    else (s, none)

/-- From the allocation of the deferred slot up to the handler call, and on to the end when the
handler is the server's own. For the application's handlers the rest is `finish`, at the step in
which they return. -/
def runHandler (s : Server cfg) (t : Target) (msg : Message) (sender : Endpoint)
    (observeValue : Option UInt32) (session : Option (Fin cfg.maxBlock1Sessions)) :
    Server cfg × List ServerEvent :=
  let deferIdx := s.allocateDeferred
  let req : Request :=
    { method := msg.code, message := msg, remote := sender
      deferHandle := (deferIdx.map fun i => UInt8.ofNat i.val).getD kInvalidDeferHandle
      block1Body := session.map fun i => (s.block1sessions i).buffer
      params := t.params, paramCount := t.paramCount }
  let s := s.fillDeferred deferIdx msg sender
  let h : Handling cfg := { msg, sender, observeValue, deferIdx, session }
  let call : ServerEvent := .handled t.index t.resource.handler req t.resource.userContext
  match t.resource.handler with
  | .app _ => ({ s with control := .handling h }, [call])
  | .wellKnownCore =>
    let r := s.finish h s.wellKnownCoreHandler
    (r.1, call :: r.2)

/-- The session a block belongs to, opened if it is the first one; otherwise the code of the
error. A session is known by its remote and token; its resource is not noted. -/
def sessionFor (s : Server cfg) (b1 : BlockOption) (sender : Endpoint) (token : Bytes) :
    Except Code (Server cfg × Fin cfg.maxBlock1Sessions) :=
  match s.findBlock1Session sender token with
  | some i => .ok (s, i)
  | none =>
    -- earlier blocks were missed
    if b1.num ≠ 0 then .error Code.requestEntityIncomplete
    else
      match s.allocateBlock1Session sender token with
      | some r => .ok r
      | none => .error Code.serviceUnavailable

/-- Appending a block to its session. -/
def appendBlock (s : Server cfg) (i : Fin cfg.maxBlock1Sessions) (payload : Bytes) : Server cfg :=
  let sess := s.block1sessions i
  { s with
    block1sessions := s.block1sessions.set i
      { sess with
        buffer := sess.buffer ++ payload, nextExpectedNum := sess.nextExpectedNum + 1 } }

/-- A block for session `i`. The number must be the next one; neither the size nor the length of
the block is looked at. -/
def handleBlock (s : Server cfg) (i : Fin cfg.maxBlock1Sessions) (b1 : BlockOption) (t : Target)
    (msg : Message) (sender : Endpoint) (observeValue : Option UInt32) :
    Server cfg × List ServerEvent :=
  let sess := s.block1sessions i
  if b1.num ≠ sess.nextExpectedNum then
    -- duplicate or out of order: echo the last block seen
    s.sendContinue msg sender (sess.nextExpectedNum - 1) true b1.szx
  else if sess.buffer.length + msg.payloadBytes.length > cfg.block1MaxBody then
    (s.freeBlock1Session i).sendError msg sender Code.requestEntityTooLarge
  else
    let s := s.appendBlock i msg.payloadBytes
    if b1.m then s.sendContinue msg sender b1.num false b1.szx
    else s.runHandler t msg sender observeValue (some i)

/-- The Block1 branch. It replies to everything but the last block, and that one goes on to the
handler. -/
def handleBlock1 (s : Server cfg) (opt : CoapOption) (t : Target) (msg : Message)
    (sender : Endpoint) (observeValue : Option UInt32) : Server cfg × List ServerEvent :=
  match BlockOption.fromOption opt with
  | none => s.sendError msg sender Code.badOption
  | some b1 =>
    match s.sessionFor b1 sender msg.token with
    | .error code => s.sendError msg sender code
    | .ok (s, i) => s.handleBlock i b1 t msg sender observeValue

/-- The Block1 option of a request that the Block1 branch takes: a PUT or a POST. -/
def block1Option (cfg : Config) (msg : Message) : Option CoapOption :=
  if cfg.enableBlockwise ∧ (msg.code = Code.put ∨ msg.code = Code.post) then
    msg.findOption OptionNumber.block1
  else none

/-- `handleRequest` for a method the resource allows. The Observe option comes before the Block1
option; the one is for GET and the other for PUT and POST, so no request has both handled. -/
def handleTarget (s : Server cfg) (t : Target) (msg : Message) (sender : Endpoint) :
    Server cfg × List ServerEvent :=
  let r := s.handleObserve t msg sender
  match block1Option cfg msg with
  | some opt => r.1.handleBlock1 opt t msg sender r.2
  | none => r.1.runHandler t msg sender r.2 none

/-- `Server::handleRequest`. The checks are made in this order, and the first that fails has the
reply. -/
def handleRequest (s : Server cfg) (msg : Message) (sender : Endpoint) :
    Server cfg × List ServerEvent :=
  match Uri.joinUriPath msg cfg.maxUriPathLen with
  | none => s.sendError msg sender Code.badOption
  | some path =>
    match s.findTarget path with
    | none => s.sendError msg sender Code.notFound
    | some t =>
      match requestedMask msg.code with
      | none => s.sendError msg sender Code.notImplemented
      | some mask =>
        if t.resource.methods &&& mask = 0 then s.sendError msg sender Code.methodNotAllowed
        else s.handleTarget t msg sender

/-! ## `poll` -/

/-- One pass of the pool scan with the server's two trampolines. A message that is given up
removes the observer with its remote and token. -/
def tickAt (s : Server cfg) (i : Fin cfg.maxTransactions) : Server cfg × List ServerEvent :=
  let r := TransactionPool.tickSlot cfg s.lastNowMs (s.txPool i)
  let s := { s with txPool := s.txPool.set i r.1 }
  match r.2 with
  | none => (s, [])
  | some (.resend remote message) => (s, [.sent remote message])
  | some (.timeout remote token) => (s.removeObserver remote token, [])

/-- The scan over the slots that are left. -/
def tickFrom (s : Server cfg) : List (Fin cfg.maxTransactions) → Server cfg × List ServerEvent
  | [] => (s, [])
  | i :: rest =>
    let r := s.tickAt i
    let r' := r.1.tickFrom rest
    (r'.1, r.2 ++ r'.2)

/-- `txPool_.tick`. -/
def tick (s : Server cfg) : Server cfg × List ServerEvent := s.tickFrom (List.finRange _)

/-- The RST branch: the first observer whose last message this is. Its transaction, if it has
one, stays in the pool. -/
def handleReset (s : Server cfg) (sender : Endpoint) (messageId : UInt16) : Server cfg :=
  match s.observers.find? fun o =>
      o.active && o.remote == sender && o.lastSentMessageId == messageId with
  | some i =>
    { s with observers := s.observers.set i { s.observers i with active := false } }
  | none => s

/-- A decoded datagram. A response, or an empty message that is neither ACK nor RST, is dropped. -/
def handleMessage (s : Server cfg) (sender : Endpoint) (msg : Message) :
    Server cfg × List ServerEvent :=
  if msg.type = .reset then (s.handleReset sender msg.messageId, [])
  else if msg.type = .acknowledgement then
    ({ s with txPool := (s.txPool.complete sender msg.messageId).1 }, [])
  else if isMethodCode msg.code then s.handleRequest msg sender
  else (s, [])

/-- `poll` from `receive` on: `rx` is the datagram it has returned. -/
def receive (s : Server cfg) (rx : Option (Endpoint × Bytes)) : Server cfg × List ServerEvent :=
  match rx with
  | none => (s, [])
  | some (sender, data) =>
    if data.length > 0 then
      match Message.decode cfg data with
      | (.none, msg) => s.handleMessage sender msg
      | _ => (s, [])
    else (s, [])

/-- `Server::poll`, up to the return or the call of an application's handler. The scan comes
before the datagram. -/
def poll (s : Server cfg) (nowMs : UInt32) (rx : Option (Endpoint × Bytes)) :
    Server cfg × List ServerEvent :=
  let r := { s with lastNowMs := nowMs }.tick
  let r' := r.1.receive rx
  (r'.1, r.2 ++ r'.2)

/-! ## API calls -/

/-- `Server::addResource`; `none` is a null pointer. Whether a path is there already is not
looked at. -/
def addResource (s : Server cfg) (path : Option Bytes) (methods : UInt8) (handler : Option Handler)
    (userContext : Option Ref) (observable : Bool) : Server cfg × Bool :=
  match path, handler with
  | some path, some handler =>
    if s.resources.length ≥ cfg.maxResources then (s, false)
    else
      let r : Resource :=
        { path, methods, handler, userContext, observable, isTemplate := Resource.hasParam path }
      ({ s with resources := s.resources ++ [r] }, true)
  | _, _ => (s, false)

/-- `Server::begin`, with the result of `Transport::begin`; that of
`addResource` is not looked at. -/
def begin (s : Server cfg) (transportOk : Bool) : Server cfg × Bool :=
  if !transportOk then (s, false)
  else
    ((s.addResource (some Uri.wellKnownCore) methodGet (some .wellKnownCore) none false).1,
      true)

/-- `Server::setResourceType`. The lookup is that of a request, so a path may come to a
template. -/
def setResourceType (s : Server cfg) (path : Bytes) (rt : Option Bytes) : Server cfg × Bool :=
  match s.findTarget path with
  | none => (s, false)
  | some t =>
    ({ s with resources := s.resources.set t.index { t.resource with resourceType := rt } }, true)

/-- The notification for one observer. Content-Format is there also without a payload. -/
def notification (cfg : Config) (o : Observer) (messageId : UInt16) (sequence : UInt32)
    (payload : Bytes) (contentFormat : ContentFormat) (confirmable : Bool) : Message :=
  let type : MessageType := if confirmable then .confirmable else .nonConfirmable
  let msg := (((Message.reset.setType type).setMessageId messageId).setToken o.token).1
  let msg := ((msg.setCode Code.content).addOptionUint cfg OptionNumber.observe sequence).1
  let msg := (msg.addOptionUint cfg OptionNumber.contentFormat contentFormat.raw.toUInt32).1
  msg.setPayload (some payload) payload.length

/-- `txPool_.start`, whose result is not looked at. -/
def startTransaction (s : Server cfg) (remote : Endpoint) (messageId : UInt16)
    (token message : Bytes) : Server cfg :=
  { s with txPool := (s.txPool.start remote messageId token message s.lastNowMs {}).1 }

/-- The body of the loop of `notify` for an observer of the resource. The ID is noted before it
is known whether the message goes out. -/
def notifyObserver (s : Server cfg) (i : Fin cfg.maxObservers) (sequence : UInt32)
    (payload : Bytes) (contentFormat : ContentFormat) (confirmable : Bool) :
    Server cfg × List ServerEvent :=
  let o := s.observers i
  let messageId := s.nextMessageId
  let s := { s with
    observers := s.observers.set i { o with lastSentMessageId := messageId } }.drawMessageId
  match encoded cfg (notification cfg o messageId sequence payload contentFormat confirmable) with
  | none => (s, [])
  | some buf =>
    (if confirmable then s.startTransaction o.remote messageId o.token buf else s,
      [.sent o.remote buf])

/-- The loop of `notify` over the observers that are left. -/
def notifyFrom (s : Server cfg) (index : Nat) (sequence : UInt32) (payload : Bytes)
    (contentFormat : ContentFormat) (confirmable : Bool) :
    List (Fin cfg.maxObservers) → Server cfg × List ServerEvent
  | [] => (s, [])
  | i :: rest =>
    if (s.observers i).active ∧ (s.observers i).resourceIndex = UInt8.ofNat index then
      let r := s.notifyObserver i sequence payload contentFormat confirmable
      let r' := r.1.notifyFrom index sequence payload contentFormat confirmable rest
      (r'.1, r.2 ++ r'.2)
    else s.notifyFrom index sequence payload contentFormat confirmable rest

/-- `Server::notify`. The sequence number goes up by one for the call, whether or not anybody is
notified. -/
def notify (s : Server cfg) (path payload : Bytes) (contentFormat : ContentFormat)
    (confirmable : Bool) : Server cfg × Bool × List ServerEvent :=
  match s.findTarget path with
  | none => (s, false, [])
  | some t =>
    if !t.resource.observable then (s, false, [])
    else
      let sequence := t.resource.observeSequence + 1
      let s := { s with
        resources := s.resources.set t.index { t.resource with observeSequence := sequence } }
      let r := s.notifyFrom t.index sequence payload contentFormat confirmable (List.finRange _)
      (r.1, true, r.2)

/-- The separate response to a deferred request. -/
def separateResponse (cfg : Config) (dr : DeferredRequest) (messageId : UInt16) (code : Code)
    (payload : Bytes) (contentFormat : ContentFormat) : Message :=
  let type : MessageType := if dr.wasConfirmable then .confirmable else .nonConfirmable
  let msg := (((Message.reset.setType type).setMessageId messageId).setToken dr.token).1
  addContent cfg (msg.setCode code) payload contentFormat

/-- `Server::respond`. The slot is freed also when the response does not encode, and then the
call returns false. A handle is an index and nothing more. -/
def respond (s : Server cfg) (handle : UInt8) (code : Code) (payload : Bytes)
    (contentFormat : ContentFormat) : Server cfg × Bool × List ServerEvent :=
  if h : handle.toNat < cfg.maxDeferred then
    let i : Fin cfg.maxDeferred := ⟨handle.toNat, h⟩
    let dr := s.deferred i
    if !dr.active then (s, false, [])
    else
      let messageId := s.nextMessageId
      let s := s.drawMessageId
      match encoded cfg (separateResponse cfg dr messageId code payload contentFormat) with
      | none => (s.freeDeferred i, false, [])
      | some buf =>
        let s :=
          if dr.wasConfirmable then s.startTransaction dr.remote messageId dr.token buf else s
        (s.freeDeferred i, true, [.sent dr.remote buf])
  else (s, false, [])

/-- A call of the API. -/
inductive ServerCall where
  | begin (transportOk : Bool)
  | addResource (path : Option Bytes) (methods : UInt8) (handler userContext : Option Ref)
      (observable : Bool)
  | setResourceType (path : Bytes) (rt : Option Bytes)
  | notify (path payload : Bytes) (contentFormat : ContentFormat) (confirmable : Bool)
  | respond (handle : UInt8) (code : Code) (payload : Bytes) (contentFormat : ContentFormat)
deriving DecidableEq, Repr

/-- The call and what it returns. -/
def call (s : Server cfg) : ServerCall → Server cfg × Bool × List ServerEvent
  | .begin transportOk => ((s.begin transportOk).1, (s.begin transportOk).2, [])
  | .addResource path methods handler userContext observable =>
    let r := s.addResource path methods (handler.map .app) userContext observable
    (r.1, r.2, [])
  | .setResourceType path rt => ((s.setResourceType path rt).1, (s.setResourceType path rt).2, [])
  | .notify path payload cf con => s.notify path payload cf con
  | .respond handle code payload cf => s.respond handle code payload cf

/-! ## Steps -/

/-- What happens next. -/
inductive Action where
  /-- The application calls the server, from its loop or from a handler. -/
  | call (call : ServerCall)
  | poll (nowMs : UInt32) (rx : Option (Endpoint × Bytes))
  /-- The running handler returns. -/
  | handlerReturns (res : Response)
deriving DecidableEq, Repr

/-- One step; an action that cannot happen now changes nothing. -/
def step (s : Server cfg) : Action → Server cfg × List ServerEvent
  | .call call =>
    let r := s.call call
    (r.1, r.2.2 ++ [.returned r.2.1])
  | .poll nowMs rx =>
    match s.control with
    | .idle => s.poll nowMs rx
    | .handling _ => (s, [])
  | .handlerReturns res =>
    match s.control with
    | .idle => (s, [])
    | .handling h => { s with control := .idle }.finish h res

end Server

end PulseCoap
