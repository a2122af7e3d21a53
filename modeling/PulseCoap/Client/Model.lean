import PulseCoap.Transaction
import PulseCoap.Uri
import PulseCoap.Blockwise

/-!
# PulseCoAP — `Client`

`PulseCoAPClient.h` and `.cpp`: the client's tables, the calls of its API and
the parts of `poll()`.

A callback of `poll()` may call the client again, so `poll()` is cut where it
calls back. It is also cut before the dispatch of a response and before it sends
a block, so that the state each of these starts from is a state of the run.
What the code still has to do at a cut is the client's `Control`; the step
function `Client.step` runs the code from one cut to the next. API calls never
call back and are one step each.

The arrays `pending_`, `block1up_` and `block2recv_` are always indexed
together, so a slot is the three entries. The pool is the client's own. A
pointer of the application (a handler, a context) is a number. Two fields are
not in the source and nothing reads them but the specifications: `calls` counts
the accepted calls, and `PendingRequest.call` says which of them has the slot.

A step that sends takes the results of its `Transport::send` calls as an
argument. With `PULSECOAP_ENABLE_BLOCKWISE` 0 the two block states of a slot
keep their initial value.

Each definition is written branch by branch as in the source, and in its order:
what is allocated before a test that fails is given back behind it, and the
message ID and the token are drawn before `send` is tried. Where the source
compares two members of a class, the model has the same two fields.
`Client.step` ignores an action that cannot happen at that point, such as a call
while the code of `poll()` runs, so a run is any list of actions.
-/

namespace PulseCoap

/-- `struct ClientResponse`. -/
structure ClientResponse where
  code          : Code
  payload       : Bytes
  contentFormat : ContentFormat
deriving DecidableEq, Repr

/-- `Client::PendingRequest`. -/
structure PendingRequest where
  active      : Bool := false
  server      : Endpoint := default
  token       : Bytes := []
  onResponse  : Option Ref := none
  userContext : Option Ref := none
  observing   : Bool := false
  path        : Bytes := []
  call        : Call := {}
deriving DecidableEq, Repr

/-- The entries of the three slot arrays at one index. The source indexes `pending_`,
`block1up_` and `block2recv_` by the slot number throughout. -/
structure ClientSlot where
  pending : PendingRequest := {}
  upload  : Block1UploadState := {}
  recv    : Block2RecvState := {}
deriving DecidableEq, Repr

/-- `Client::DiscoverSlot`. -/
structure DiscoverSlot where
  active      : Bool := false
  token       : Bytes := []
  onDiscover  : Option Ref := none
  userContext : Option Ref := none
  issuedAt    : UInt32 := 0
deriving DecidableEq, Repr

/-- What `poll()` still has to do at a cut. Each constructor is a place in the source, with the
locals that the rest of the code reads. -/
inductive Cont (cfg : Config) where
  /-- The dispatch of a message with a response code. -/
  | dispatch (sender : Endpoint) (msg : Message)
  /-- `sendBlock1` after a 2.31 Continue. -/
  | block1 (slot : Fin cfg.maxTransactions)
  /-- `sendBlock2Request` after a block with more to come. -/
  | block2 (slot : Fin cfg.maxTransactions)
  /-- After `onResponse` of a slot, or of the last block of a fragmented one. -/
  | close (slot : Fin cfg.maxTransactions) (fragmented : Bool) (call : Call)
  /-- From the discover expiry on. -/
  | expire
  /-- From this index of the pool scan on. -/
  | tick (index : Nat)
  /-- `return`. -/
  | ret
deriving DecidableEq

/-- Where the client's code stands. -/
inductive Control (cfg : Config) where
  | idle
  /-- In `poll()`, with `inCallback` while the application has control. -/
  | polling (k : Cont cfg) (inCallback : Bool)
deriving DecidableEq

/-- `class Client`, with its pool. -/
structure Client (cfg : Config) where
  slots         : Table cfg.maxTransactions ClientSlot := fun _ => {}
  discovers     : Table cfg.maxDiscovers DiscoverSlot := fun _ => {}
  transactions  : TransactionPool cfg := TransactionPool.reset
  nextMessageId : UInt16 := 1
  nextTokenByte : UInt8 := 1
  lastNowMs     : UInt32 := 0
  onTimeout     : Option Ref := none
  calls         : Nat := 0
  control       : Control cfg := .idle

/-- What a step does to the world outside. A callback is the event that it is called; what the
application does in it are the steps that follow. -/
inductive ClientEvent where
  /-- A datagram the transport accepted. -/
  | sent (dest : Endpoint) (data : Bytes)
  /-- A call that occupies a slot returned true. -/
  | accepted (call : Call)
  | response (call : Call) (handler : Ref) (res : ClientResponse) (userContext : Option Ref)
  | timeout (call : Call) (handler : Ref) (userContext : Option Ref)
  | discovered (handler : Ref) (server : Endpoint) (linkFormat : Bytes) (userContext : Option Ref)
deriving DecidableEq, Repr

namespace Client

variable {cfg : Config}

/-! ## Slots -/

/-- The first free slot, the one `allocatePending` takes. `active` is the only field it looks
at. -/
def freeSlot (c : Client cfg) : Option (Fin cfg.maxTransactions) :=
  c.slots.find? fun s => !s.pending.active

/-- `Client::findPendingByToken`: the first active slot with the token, whoever the sender is. -/
def findPendingByToken (c : Client cfg) (token : Bytes) : Option (Fin cfg.maxTransactions) :=
  c.slots.find? fun s => s.pending.active && s.pending.token == token

/-- Writing the `pending_` entry of a slot. -/
def setPending (c : Client cfg) (i : Fin cfg.maxTransactions) (p : PendingRequest) : Client cfg :=
  { c with slots := c.slots.set i { c.slots i with pending := p } }

/-- Writing the `block1up_` and the `block2recv_` entry of a slot. -/
def setUpload (c : Client cfg) (i : Fin cfg.maxTransactions) (upload : Block1UploadState) :
    Client cfg :=
  { c with slots := c.slots.set i { c.slots i with upload } }
def setRecv (c : Client cfg) (i : Fin cfg.maxTransactions) (recv : Block2RecvState) :
    Client cfg :=
  { c with slots := c.slots.set i { c.slots i with recv } }

/-- `pending_[i].active = false`. -/
def release (c : Client cfg) (i : Fin cfg.maxTransactions) : Client cfg :=
  c.setPending i { (c.slots i).pending with active := false }

/-- `Client::allocatePending`: it resets the entry and marks it active, and the two block states
of the slot stay what they were. -/
def allocatePending (c : Client cfg) : Option (Fin cfg.maxTransactions × Client cfg) :=
  (freeSlot c).map fun i => (i, c.setPending i { active := true })

/-- The two counters after a request took its message ID and its token. -/
def drawMessageId (c : Client cfg) : Client cfg := { c with nextMessageId := c.nextMessageId + 1 }
def drawToken (c : Client cfg) : Client cfg := { c with nextTokenByte := c.nextTokenByte + 1 }

/-- `memcpy` of a path that fits its array, and an empty string otherwise. -/
def storedPath (cfg : Config) (path : Bytes) : Bytes :=
  if path.length < cfg.maxUriPathLen then path else []

/-! ## Building requests -/

/-- The request of `sendRequest`; `none` when the path has too many segments. The results of the
other two add calls are not looked at, as in the source. -/
def buildRequest (cfg : Config) (type : MessageType) (messageId : UInt16) (token : Bytes)
    (method : Code) (observe : Option UInt32) (path payload : Bytes)
    (contentFormat : ContentFormat) : Option Message :=
  let req := ((Message.reset.setType type).setMessageId messageId).setToken token |>.1
  let req := req.setCode method
  let req := match observe with
    | some v => (req.addOptionUint cfg OptionNumber.observe v).1
    | none => req
  let r := Uri.addUriPathOptions cfg req path
  if !r.2 then none
  else if payload.length > 0 then
    let req := (r.1.addOptionUint cfg OptionNumber.contentFormat contentFormat.raw.toUInt32).1
    some (req.setPayload (some payload) payload.length)
  else some r.1

/-- One block of an upload. It is Confirmable whatever the call has asked for, and the results
of `addOptionUint` are not looked at. -/
def buildBlock1 (cfg : Config) (up : Block1UploadState) (messageId : UInt16) : Option Message :=
  let sz := blockSize up.szx
  let offset := up.nextNum.toNat * sz
  let remaining := up.fullPayload.length - offset
  let blockLen := if remaining > sz then sz else remaining
  let more := decide (remaining > sz)
  let req := ((Message.reset.setType .confirmable).setMessageId messageId).setToken [up.token] |>.1
  let r := Uri.addUriPathOptions cfg (req.setCode up.method) up.path
  if !r.2 then none
  else
    let req := (r.1.addOptionUint cfg OptionNumber.contentFormat up.contentFormat.raw.toUInt32).1
    let req := (req.addOptionUint cfg OptionNumber.block1
      (BlockOption.toOptionValue up.nextNum more up.szx)).1
    some (req.setPayload (some (up.fullPayload.drop offset)) blockLen)

/-- The request for the next block of a fragmented response: a Confirmable GET to the stored
path, whatever the method of the call was. -/
def buildBlock2 (cfg : Config) (recv : Block2RecvState) (token : Bytes) (messageId : UInt16) :
    Option Message :=
  let req := ((Message.reset.setType .confirmable).setMessageId messageId).setToken token |>.1
  let r := Uri.addUriPathOptions cfg (req.setCode Code.get) recv.path
  if !r.2 then none
  else
    some (r.1.addOptionUint cfg OptionNumber.block2
      (BlockOption.toOptionValue recv.nextNum false recv.szx)).1

/-- `encode` into a buffer of `PULSECOAP_MAX_MSG_SIZE` bytes, and `send`: the
datagram, or `none` when one of the steps fails. -/
def transmit (cfg : Config) (req : Option Message) (sendOk : Bool) : Option Bytes :=
  match req with
  | none => none
  | some req =>
    match req.encode cfg.maxMsgSize with
    | .error _ => none
    | .ok buf => if sendOk then some buf else none

/-- `transactions_.start`, whose result no caller looks at: with the pool full the datagram has
gone out and nothing sends it again. Deadlines count from the clock of the last poll. -/
def startTransaction (c : Client cfg) (remote : Endpoint) (messageId : UInt16) (token : Bytes)
    (message : Bytes) (owner : Call) : Client cfg :=
  { c with
    transactions :=
      (c.transactions.start remote messageId token message c.lastNowMs owner).1 }

/-! ## API calls -/

/-- The arguments of `sendRequest`. The two flags for Observe are one value here, which is the
value of the option. -/
structure RequestArgs where
  server        : Endpoint
  path          : Bytes
  method        : Code
  payload       : Bytes := []
  contentFormat : ContentFormat := .textPlain
  confirmable   : Bool := true
  observe       : Option UInt32 := none
  onResponse    : Option Ref := none
  userContext   : Option Ref := none
  markObserving : Bool := false
deriving DecidableEq, Repr

/-- The kind of request these arguments make. -/
def RequestArgs.kind (a : RequestArgs) : CallKind :=
  if a.markObserving then .observe else if a.observe.isSome then .deregister else .request

/-- The call these arguments make. -/
def RequestArgs.call (a : RequestArgs) (id : Nat) : Call :=
  { id, kind := a.kind, confirmable := a.confirmable, userContext := a.userContext }

/-- The request `sendRequest` builds with these counters. -/
def RequestArgs.request (cfg : Config) (a : RequestArgs) (messageId : UInt16) (token : UInt8) :
    Option Message :=
  buildRequest cfg (if a.confirmable then .confirmable else .nonConfirmable) messageId [token]
    a.method a.observe a.path a.payload a.contentFormat

/-- `Client::sendRequest`. The token and the message ID are drawn before the path is looked at,
and a call that fails gives the slot back but not the numbers. The transaction is started behind
`send`, and its result is not looked at. -/
def sendRequest (c : Client cfg) (a : RequestArgs) (sendOk : Bool) :
    Client cfg × Bool × List ClientEvent :=
  match c.allocatePending with
  | none => (c, false, [])
  | some (i, c) =>
    let token := c.nextTokenByte
    let messageId := c.nextMessageId
    let c := c.drawToken.drawMessageId
    match transmit cfg (a.request cfg messageId token) sendOk with
    | none => (c.release i, false, [])
    | some buf =>
      let call := a.call c.calls
      let c := { c with calls := c.calls + 1 }
      let c := if a.confirmable then c.startTransaction a.server messageId [token] buf call else c
      let c := c.setPending i
        { active := true, server := a.server, token := [token], onResponse := a.onResponse
          userContext := a.userContext, observing := a.markObserving
          path := storedPath cfg a.path, call }
      let c :=
        if cfg.enableBlockwise then
          { c with slots := c.slots.set i { c.slots i with
              upload := { (c.slots i).upload with active := false }
              recv := { (c.slots i).recv with active := false, path := storedPath cfg a.path } } }
        else c
      (c, true, [.sent a.server buf, .accepted call])

/-- `Client::sendBlock1`. It fails without a number drawn if the block is behind the end, and
draws its message ID before the rest. The clean-up is the caller's. -/
def sendBlock1 (c : Client cfg) (i : Fin cfg.maxTransactions) (sendOk : Bool) :
    Client cfg × Bool × List ClientEvent :=
  let up := (c.slots i).upload
  if up.nextNum.toNat * blockSize up.szx ≥ up.fullPayload.length then (c, false, [])
  else
    let messageId := c.nextMessageId
    let c := c.drawMessageId
    match transmit cfg (buildBlock1 cfg up messageId) sendOk with
    | none => (c, false, [])
    | some buf =>
      let c := c.startTransaction up.server messageId [up.token] buf (c.slots i).pending.call
      (c.setUpload i { up with waitingForContinue := true }, true, [.sent up.server buf])

/-- `Client::sendBlock2Request`. The datagram goes to where the first block came from, under the
token of the request. -/
def sendBlock2Request (c : Client cfg) (i : Fin cfg.maxTransactions) (sendOk : Bool) :
    Client cfg × Bool × List ClientEvent :=
  let recv := (c.slots i).recv
  let p := (c.slots i).pending
  let messageId := c.nextMessageId
  let c := c.drawMessageId
  match transmit cfg (buildBlock2 cfg recv p.token messageId) sendOk with
  | none => (c, false, [])
  | some buf =>
    (c.startTransaction recv.server messageId p.token buf p.call, true, [.sent recv.server buf])

/-- The entries the Block1 branch writes before it looks at the path. They stay as they are if
it turns out to be too long, but for the two flags. -/
def uploadSlot (cfg : Config) (old : ClientSlot) (a : RequestArgs) (token : UInt8) (call : Call) :
    ClientSlot :=
  { old with
    pending :=
      { active := true, server := a.server, token := [token], onResponse := a.onResponse
        userContext := a.userContext, observing := false, call }
    upload :=
      { old.upload with
        active := true, fullPayload := a.payload, nextNum := 0, szx := cfg.blockSzx
        contentFormat := a.contentFormat, method := a.method, server := a.server, token } }

/-- What it writes when the path fits. -/
def withPath (s : ClientSlot) (path : Bytes) : ClientSlot :=
  { pending := { s.pending with path }, upload := { s.upload with path }
    recv := { s.recv with active := false } }

/-- `pending_[slot].active = false; up.active = false`. -/
def abandonSlot (s : ClientSlot) : ClientSlot :=
  { s with pending := { s.pending with active := false }, upload := { s.upload with active := false } }

def abandon (c : Client cfg) (i : Fin cfg.maxTransactions) : Client cfg :=
  { c with slots := c.slots.set i (abandonSlot (c.slots i)) }

/-- The Block1 branch that `put` and `post` share. The message ID is drawn by `sendBlock1`, so a
path that is too long takes a token and no message ID. -/
def startUpload (c : Client cfg) (a : RequestArgs) (sendOk : Bool) :
    Client cfg × Bool × List ClientEvent :=
  match c.allocatePending with
  | none => (c, false, [])
  | some (i, c) =>
    let s := uploadSlot cfg (c.slots i) a c.nextTokenByte (a.call c.calls)
    let c := { c.drawToken with slots := c.slots.set i s }
    if a.path.length ≥ cfg.maxUriPathLen then (c.abandon i, false, [])
    else
      let c := { c with slots := c.slots.set i (withPath s a.path) }
      let r := c.sendBlock1 i sendOk
      if r.2.1 then
        ({ r.1 with calls := c.calls + 1 }, true, r.2.2 ++ [.accepted (a.call c.calls)])
      else (r.1.abandon i, false, r.2.2)

/-- `Client::get`. -/
def get (c : Client cfg) (server : Endpoint) (path : Bytes) (onResponse userContext : Option Ref)
    (confirmable sendOk : Bool) : Client cfg × Bool × List ClientEvent :=
  c.sendRequest { server, path, method := Code.get, confirmable, onResponse, userContext } sendOk

/-- `Client::del`. -/
def del (c : Client cfg) (server : Endpoint) (path : Bytes) (onResponse userContext : Option Ref)
    (confirmable sendOk : Bool) : Client cfg × Bool × List ClientEvent :=
  c.sendRequest { server, path, method := Code.delete, confirmable, onResponse, userContext } sendOk

/-- `Client::put` and `Client::post`, which differ in the method. `confirmable` is not looked at
for an upload in blocks. -/
def upload (c : Client cfg) (method : Code) (server : Endpoint) (path payload : Bytes)
    (contentFormat : ContentFormat) (onResponse userContext : Option Ref)
    (confirmable sendOk : Bool) : Client cfg × Bool × List ClientEvent :=
  let a : RequestArgs :=
    { server, path, method, payload, contentFormat, confirmable, onResponse, userContext }
  if cfg.enableBlockwise ∧ payload.length > blockSize cfg.blockSzx then c.startUpload a sendOk
  else c.sendRequest a sendOk

def put (c : Client cfg) (server : Endpoint) (path payload : Bytes)
    (contentFormat : ContentFormat) (onResponse userContext : Option Ref)
    (confirmable sendOk : Bool) : Client cfg × Bool × List ClientEvent :=
  c.upload Code.put server path payload contentFormat onResponse userContext confirmable sendOk

def post (c : Client cfg) (server : Endpoint) (path payload : Bytes)
    (contentFormat : ContentFormat) (onResponse userContext : Option Ref)
    (confirmable sendOk : Bool) : Client cfg × Bool × List ClientEvent :=
  c.upload Code.post server path payload contentFormat onResponse userContext confirmable sendOk

/-- `Client::observe`: always Confirmable, with the slot marked as observing. -/
def observe (c : Client cfg) (server : Endpoint) (path : Bytes)
    (onResponse userContext : Option Ref) (sendOk : Bool) : Client cfg × Bool × List ClientEvent :=
  c.sendRequest
    { server, path, method := Code.get, observe := some kObserveRegister, onResponse, userContext
      markObserving := true } sendOk

/-- The subscription `cancelObserve` matches: by server and stored path, the first one in the
table. -/
def findObserve (c : Client cfg) (server : Endpoint) (path : Bytes) :
    Option (Fin cfg.maxTransactions) :=
  c.slots.find? fun s => s.pending.active && s.pending.observing && s.pending.server == server &&
    s.pending.path == path

/-- `Client::cancelObserve`. The slot is given back before the request is tried, and stays so if
that fails. -/
def cancelObserve (c : Client cfg) (server : Endpoint) (path : Bytes) (sendOk : Bool) :
    Client cfg × Bool × List ClientEvent :=
  match c.findObserve server path with
  | none => (c, false, [])
  | some i =>
    let p := (c.slots i).pending
    -- the deregister GET gets its own token and slot
    (c.release i).sendRequest
      { server, path, method := Code.get, observe := some kObserveDeregister
        onResponse := p.onResponse, userContext := p.userContext } sendOk

/-- `Client::discover` to a multicast endpoint. It has a slot table of its own and no
transaction; the slot is written only when the request has gone out. -/
def discover (c : Client cfg) (multicastEp : Endpoint) (onDiscover userContext : Option Ref)
    (sendOk : Bool) : Client cfg × Bool × List ClientEvent :=
  match c.discovers.find? fun d => !d.active with
  | none => (c, false, [])
  | some i =>
    let token := c.nextTokenByte
    let messageId := c.nextMessageId
    let c := c.drawToken.drawMessageId
    -- multicast requests must be NON
    match transmit cfg (buildRequest cfg .nonConfirmable messageId [token] Code.get none
        Uri.wellKnownCore [] .textPlain) sendOk with
    | none => (c, false, [])
    | some buf =>
      ({ c with discovers := c.discovers.set i {
          active := true, token := [token], onDiscover, userContext, issuedAt := c.lastNowMs } },
        true, [.sent multicastEp buf])

/-- A call of the API. -/
inductive ClientCall where
  | get (server : Endpoint) (path : Bytes) (onResponse userContext : Option Ref)
      (confirmable : Bool)
  | put (server : Endpoint) (path payload : Bytes) (contentFormat : ContentFormat)
      (onResponse userContext : Option Ref) (confirmable : Bool)
  | post (server : Endpoint) (path payload : Bytes) (contentFormat : ContentFormat)
      (onResponse userContext : Option Ref) (confirmable : Bool)
  | del (server : Endpoint) (path : Bytes) (onResponse userContext : Option Ref)
      (confirmable : Bool)
  | observe (server : Endpoint) (path : Bytes) (onResponse userContext : Option Ref)
  | cancelObserve (server : Endpoint) (path : Bytes)
  | discover (multicastEp : Endpoint) (onDiscover userContext : Option Ref)
  | setTimeoutHandler (onTimeout : Option Ref)
deriving DecidableEq, Repr

/-- The call and what it returns. -/
def call (c : Client cfg) (sendOk : Bool) : ClientCall → Client cfg × Bool × List ClientEvent
  | .get server path h ctx con => c.get server path h ctx con sendOk
  | .put server path data cf h ctx con => c.put server path data cf h ctx con sendOk
  | .post server path data cf h ctx con => c.post server path data cf h ctx con sendOk
  | .del server path h ctx con => c.del server path h ctx con sendOk
  | .observe server path h ctx => c.observe server path h ctx sendOk
  | .cancelObserve server path => c.cancelObserve server path sendOk
  | .discover ep h ctx => c.discover ep h ctx sendOk
  | .setTimeoutHandler h => ({ c with onTimeout := h }, true, [])

/-! ## `poll` -/

/-- Going on with `k`, or calling back first. -/
def goto (c : Client cfg) (k : Cont cfg) : Client cfg := { c with control := .polling k false }
def callback (c : Client cfg) (k : Cont cfg) : Client cfg := { c with control := .polling k true }

/-- `if (onTimeout_) onTimeout_(ctx)`, and then `k`. -/
def fireTimeout (c : Client cfg) (call : Call) (ctx : Option Ref) (k : Cont cfg) :
    Client cfg × List ClientEvent :=
  match c.onTimeout with
  | some h => (c.callback k, [.timeout call h ctx])
  | none => (c.goto k, [])

/-- `Client::timeoutTrampoline`. The slot is found by the token that the transaction has kept;
the handler is called with a null context if there is none. -/
def timeoutTrampoline (c : Client cfg) (token : Bytes) (owner : Call) (k : Cont cfg) :
    Client cfg × List ClientEvent :=
  match c.findPendingByToken token with
  | some i => (c.release i).fireTimeout owner (c.slots i).pending.userContext k
  | none => c.fireTimeout owner none k

/-- The request whose transaction an RST names. -/
def ownerOf (c : Client cfg) (sender : Endpoint) (messageId : UInt16) : Call :=
  ((c.transactions.find? (TransactionPool.matchesId sender messageId)).map fun i =>
    (c.transactions i).owner).getD {}

/-- The RST branch. `poll` returns behind it, so neither the expiry nor the scan is run. The
slot is the one under the token of the transaction, and need not be the request's own. -/
def handleReset (c : Client cfg) (sender : Endpoint) (messageId : UInt16) :
    Client cfg × List ClientEvent :=
  -- `getToken` comes before `complete`, which frees the slot
  let rstToken := (c.transactions.getToken sender messageId).getD []
  let owner := c.ownerOf sender messageId
  let c := { c with transactions := (c.transactions.complete sender messageId).1 }
  if rstToken.length > 0 then
    match c.findPendingByToken rstToken with
    | some i => (c.release i).fireTimeout owner (c.slots i).pending.userContext .ret
    | none => (c.goto .ret, [])
  else (c.goto .ret, [])

/-- `res.contentFormat` of a message. -/
def responseFormat (msg : Message) : ContentFormat :=
  match msg.findOption OptionNumber.contentFormat with
  | some cf => ⟨(Message.optionAsUint cf).toUInt16⟩
  | none => .textPlain

/-- `if (p.onResponse) p.onResponse(res, p.userContext)`, and then closing the slot. What is
left to do after the callback is in the control, since the callback may call the client. -/
def fireResponse (c : Client cfg) (i : Fin cfg.maxTransactions) (res : ClientResponse)
    (fragmented : Bool) : Client cfg × List ClientEvent :=
  let p := (c.slots i).pending
  match p.onResponse with
  | some h => (c.callback (.close i fragmented p.call), [.response p.call h res p.userContext])
  | none => (c.goto (.close i fragmented p.call), [])

/-- `2.31 Continue` for an upload: the block before is acknowledged. Which block the Continue
names is not looked at. -/
def handleContinue (c : Client cfg) (i : Fin cfg.maxTransactions) : Client cfg :=
  let up := (c.slots i).upload
  c.setUpload i { up with nextNum := up.nextNum + 1, waitingForContinue := false }

/-- The next block of an upload, or the end of the call when it cannot be sent; the application
is told by the timeout handler then. -/
def continueUpload (c : Client cfg) (i : Fin cfg.maxTransactions) (sendOk : Bool) :
    Client cfg × List ClientEvent :=
  let r := c.sendBlock1 i sendOk
  if r.2.1 then (r.1.goto .expire, r.2.2)
  else
    let p := (r.1.slots i).pending
    let f := (r.1.abandon i).fireTimeout p.call p.userContext .expire
    (f.1, r.2.2 ++ f.2)

/-- The receive state of a fragmented response after one block. A block with another number than
the one expected changes nothing, and what goes beyond the buffer is dropped. -/
def recvBlock (cfg : Config) (recv : Block2RecvState) (b2 : BlockOption) (sender : Endpoint)
    (msg : Message) : Block2RecvState :=
  let recv :=
    if !recv.active then
      -- the path was stored by `sendRequest`
      { recv with
        active := true, nextNum := 0, szx := b2.szx, buffer := [], server := sender
        contentFormat := responseFormat msg }
    else recv
  if b2.num = recv.nextNum then
    let avail := cfg.block2MaxBody - recv.buffer.length
    { recv with buffer := recv.buffer ++ msg.payloadBytes.take avail, nextNum := recv.nextNum + 1 }
  else recv

/-- A block of a fragmented response. Whether there are more is read off this block, also when
it was not the one expected. -/
def handleBlock2 (c : Client cfg) (i : Fin cfg.maxTransactions) (b2 : BlockOption)
    (sender : Endpoint) (msg : Message) : Client cfg × List ClientEvent :=
  let recv := recvBlock cfg (c.slots i).recv b2 sender msg
  let c := c.setRecv i recv
  if b2.m then (c.goto (.block2 i), [])
  else
    c.fireResponse i
      { code := msg.code, payload := recv.buffer, contentFormat := recv.contentFormat } true

/-- The Block2 option of a message, when it is well formed. -/
def block2Of (msg : Message) : Option BlockOption :=
  match msg.findOption OptionNumber.block2 with
  | some opt => BlockOption.fromOption opt
  | none => none

/-- The plain end of the dispatch: one message is the whole response. -/
def handlePlain (c : Client cfg) (i : Fin cfg.maxTransactions) (msg : Message) :
    Client cfg × List ClientEvent :=
  c.fireResponse i
    { code := msg.code, payload := msg.payloadBytes, contentFormat := responseFormat msg } false

/-- A response for the slot that carries its token. A final response ends the upload before the
Block2 option is looked at. -/
def dispatchPending (c : Client cfg) (i : Fin cfg.maxTransactions) (sender : Endpoint)
    (msg : Message) : Client cfg × List ClientEvent :=
  if cfg.enableBlockwise then
    if msg.code = Code.«continue» ∧ (c.slots i).upload.active then
      ((c.handleContinue i).goto (.block1 i), [])
    else
      let c := c.setUpload i { (c.slots i).upload with active := false }
      match block2Of msg with
      | some b2 => c.handleBlock2 i b2 sender msg
      | none => c.handlePlain i msg
  else c.handlePlain i msg

/-- The discover slot that carries this token. -/
def findDiscover (c : Client cfg) (token : Bytes) : Option (Fin cfg.maxDiscovers) :=
  c.discovers.find? fun d => d.active && d.token == token

/-- Discover slots come first, then the pending ones. A discovery stays open for further
replies. -/
def dispatchResponse (c : Client cfg) (sender : Endpoint) (msg : Message) :
    Client cfg × List ClientEvent :=
  match c.findDiscover msg.token with
  | some i =>
    let d := c.discovers i
    match d.onDiscover with
    | some h => (c.callback .expire, [.discovered h sender msg.payloadBytes d.userContext])
    | none => (c.goto .expire, [])
  | none =>
    match c.findPendingByToken msg.token with
    | some i => c.dispatchPending i sender msg
    | none => (c.goto .expire, [])

/-- The empty ACK of a Confirmable response. -/
def emptyAck (messageId : UInt16) : Message :=
  ((Message.reset.setType .acknowledgement).setCode Code.empty).setMessageId messageId

/-- The ACK `poll` sends for a Confirmable response, before it looks for whom the response is. -/
def ackEvents (cfg : Config) (sender : Endpoint) (msg : Message) (ackOk : Bool) :
    List ClientEvent :=
  if msg.type = .confirmable then
    match transmit cfg (some (emptyAck msg.messageId)) ackOk with
    | some buf => [.sent sender buf]
    | none => []
  else []

/-- A decoded datagram, up to the dispatch. A message with an empty code or a method is dropped;
an ACK has ended its transaction by then. -/
def handleMessage (c : Client cfg) (sender : Endpoint) (msg : Message) :
    Client cfg × List ClientEvent :=
  if msg.type = .reset then c.handleReset sender msg.messageId
  else
    let c :=
      if msg.type = .acknowledgement then
        { c with transactions := (c.transactions.complete sender msg.messageId).1 }
      else c
    if msg.code ≠ Code.empty ∧ !isMethodCode msg.code then (c.goto (.dispatch sender msg), [])
    else (c.goto .expire, [])

/-- `poll` up to its first cut: `rx` is the datagram `receive` has returned. One datagram is
read in a poll. -/
def poll (c : Client cfg) (nowMs : UInt32) (rx : Option (Endpoint × Bytes)) :
    Client cfg × List ClientEvent :=
  let c := { c with lastNowMs := nowMs }
  match rx with
  | none => (c.goto .expire, [])
  | some (sender, data) =>
    if data.length > 0 then
      match Message.decode cfg data with
      | (.none, msg) => c.handleMessage sender msg
      | _ => (c.goto .expire, [])
    else (c.goto .expire, [])

/-- After `onResponse`: one-shot slots are done, observing ones stay. The flag is read now,
after the callback. -/
def close (c : Client cfg) (i : Fin cfg.maxTransactions) (fragmented : Bool) : Client cfg :=
  let c := if fragmented then c.setRecv i { (c.slots i).recv with active := false } else c
  if !(c.slots i).pending.observing then c.release i else c

/-- The expiry loop over the discover slots. The difference of the clocks is taken modulo 2^32. -/
def expireDiscovers (c : Client cfg) : Client cfg :=
  { c with discovers := fun i =>
      let d := c.discovers i
      if d.active ∧ c.lastNowMs - d.issuedAt ≥ cfg.discoverTimeoutMs then { d with active := false }
      else d }

/-- One pass of the pool scan with the client's two trampolines. Whether the resend is accepted
makes no difference to the pool. -/
def tickAt (c : Client cfg) (i : Fin cfg.maxTransactions) (sendOk : Bool) :
    Client cfg × List ClientEvent :=
  let r := TransactionPool.tickSlot cfg c.lastNowMs (c.transactions i)
  let owner := (c.transactions i).owner
  let c := { c with transactions := c.transactions.set i r.1 }
  match r.2 with
  | none => (c.goto (.tick (i + 1)), [])
  | some (.resend remote message) =>
    (c.goto (.tick (i + 1)), if sendOk then [.sent remote message] else [])
  | some (.timeout _ token) => c.timeoutTrampoline token owner (.tick (i + 1))

/-- The code after a cut, up to the next one. -/
def resume (c : Client cfg) (k : Cont cfg) (sendOk : Bool) : Client cfg × List ClientEvent :=
  match k with
  | .dispatch sender msg =>
    let r := c.dispatchResponse sender msg
    (r.1, ackEvents cfg sender msg sendOk ++ r.2)
  | .block1 i => c.continueUpload i sendOk
  | .block2 i =>
    -- whether the request got out is not looked at
    let r := c.sendBlock2Request i sendOk
    (r.1.goto .expire, r.2.2)
  | .close i fragmented _ => ((c.close i fragmented).goto .expire, [])
  | .expire => (c.expireDiscovers.goto (.tick 0), [])
  | .tick index =>
    if h : index < cfg.maxTransactions then c.tickAt ⟨index, h⟩ sendOk
    else ({ c with control := .idle }, [])
  | .ret => ({ c with control := .idle }, [])

/-! ## Steps -/

/-- What happens next. -/
inductive Action where
  /-- The application calls the client, from its loop or from a callback. -/
  | call (call : ClientCall) (sendOk : Bool)
  | poll (nowMs : UInt32) (rx : Option (Endpoint × Bytes))
  /-- The code of `poll` goes on; a running callback has returned. -/
  | resume (sendOk : Bool)
deriving DecidableEq, Repr

/-- Whether the application has control: between two polls, or in a callback. -/
def appHasControl (c : Client cfg) : Bool :=
  match c.control with
  | .idle => true
  | .polling _ inCallback => inCallback

/-- One step; an action that cannot happen now changes nothing. -/
def step (c : Client cfg) : Action → Client cfg × List ClientEvent
  | .call call sendOk =>
    if c.appHasControl then
      let r := c.call sendOk call
      (r.1, r.2.2)
    else (c, [])
  | .poll nowMs rx =>
    match c.control with
    | .idle => c.poll nowMs rx
    | .polling _ _ => (c, [])
  | .resume sendOk =>
    match c.control with
    | .idle => (c, [])
    | .polling k _ => c.resume k sendOk

end Client

end PulseCoap
