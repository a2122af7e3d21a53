import PulseCoap.Exchange.Path
import PulseCoap.Pool.Spec
import PulseCoap.Server.Reply
import PulseCoap.Server.Spec

/-!
# PulseCoAP — a plain exchange, on the server

A request for a registered resource is polled, its handler runs and returns, and
the reply goes out. Block-wise transfer is off.

`Serves` is a condition on the state alone: the resource table finds this
resource for the path, and the method is in its mask. That the datagram then
reaches the handler follows from the checks of `handleRequest` one by one; that
nothing else happens follows from what the request does not have, an Observe
option and a Block1 option.

* `Request` — a request message, as the client builds it.
* `Serves` — the resource a server has under a path.
* `turn_serves` — the two steps and all they do.
-/

namespace PulseCoap

namespace Server

open TransactionPool

variable {cfg : Config}

/-! ## The request -/

/-- A request with this method, path and payload. Behind the segments of the path there is at
most a Content-Format, so it registers nobody and is no block. -/
structure RequestFor (cfg : Config) (m : Message) (segs : List Bytes) (method : Code)
    (payload : Bytes) : Prop where
  built   : Message.Built cfg m
  type    : m.type = .confirmable ∨ m.type = .nonConfirmable
  code    : m.code = method
  options : ∃ rest, m.options = segs.map Uri.segmentOption ++ rest ∧
    ∀ o ∈ rest, o.number = OptionNumber.contentFormat
  payload : m.payloadBytes = payload

/-! ## The resource -/

/-- `r` is the first resource under this path, at index `k`, and allows the
method; the server is between two polls. -/
structure Serves (s : Server cfg) (k : Nat) (r : Resource) (path : Bytes) (method : Code) :
    Prop where
  idle   : s.control = .idle
  found  : s.resources[k]? = some r
  first  : ∀ j < k, ∀ r' ∈ s.resources[j]?, r'.path ≠ path
  path   : r.path = path
  simple : r.isTemplate = false
  allows : ∃ mask, requestedMask method = some mask ∧ r.methods &&& mask ≠ 0

/-- The methods with a mask are the four of the API, and all of them have codes of class 0, so a
request with one is not taken for a response. -/
theorem isMethodCode_of_mask {code : Code} {mask : UInt8} (h : requestedMask code = some mask) :
    isMethodCode code = true := by
  unfold requestedMask at h
  split at h
  · rename_i heq
    rw [heq]
    rfl
  · split at h
    · rename_i heq
      rw [heq]
      rfl
    · split at h
      · rename_i heq
        rw [heq]
        rfl
      · split at h
        · rename_i heq
          rw [heq]
          rfl
        · cases h

/-- The target of a request for it. The resource is no template, so there are no parameters. -/
def targetAt (k : Nat) (r : Resource) : Target where
  index := k
  resource := r
  params := []
  paramCount := 0

theorem Serves.findTarget {s : Server cfg} {k : Nat} {r : Resource} {path : Bytes} {method : Code}
    (h : s.Serves k r path method) (hstring : Uri.cString path = path) :
    s.findTarget path = some (targetAt k r) := by
  have hk : k < s.resources.length := (List.getElem?_eq_some_iff.1 h.found).1
  have hget : s.resources[k] = r := (List.getElem?_eq_some_iff.1 h.found).2
  have hidx : (s.resources.findIdx? fun r => !r.isTemplate && r.path == path) = some k := by
    refine List.findIdx?_eq_some_iff_getElem.2 ⟨hk, ?_, fun j hj => ?_⟩
    · rw [hget, h.simple, h.path]
      simp
    · have hne := h.first j hj s.resources[j] (List.getElem?_eq_getElem (by omega))
      simp [hne]
  unfold Server.findTarget Resource.find
  rw [hstring, hidx]
  simp only [Option.bind_eq_bind, Option.bind_some, h.found]
  rfl

/-! ## From the datagram to the handler -/

/-- **A request for the resource reaches its handler**, whatever else the server does: nothing
in it registers an observer or belongs to an upload. The resource is the first one under the
path and allows the method. -/
theorem handleRequest_serves {s : Server cfg} {k : Nat} {r : Resource} {path : Bytes}
    {segs : List Bytes} {method : Code} {payload : Bytes} (hserves : s.Serves k r path method)
    (hpath : Uri.NormalForm path segs) (hshort : path.length < cfg.maxUriPathLen)
    (hplain : cfg.enableBlockwise = false) {m : Message}
    (hm : RequestFor cfg m segs method payload) (sender : Endpoint) :
    s.handleRequest (Message.decode cfg m.wire).2 sender =
      s.runHandler (targetAt k r) (Message.decode cfg m.wire).2 sender none none := by
  have hsame := Message.sameContent_decode hm.built.toWellFormed
  have hopts := Message.sameOptions_decode hm.built.toWellFormed
  generalize (Message.decode cfg m.wire).2 = d at hsame hopts ⊢
  obtain ⟨rest, hmopts, hrest⟩ := hm.options
  obtain ⟨mask, hmask, hallows⟩ := hserves.allows
  have hjoin : Uri.joinUriPath d cfg.maxUriPathLen = some path := by
    rw [hopts.joinUriPath]
    refine Uri.joinUriPath_segments hpath hshort
      (fun o ho => Message.bytes_length (hm.built.readable o ho)) hmopts fun o ho => ?_
    rw [hrest o ho]
    decide
  -- neither an Observe nor a Block1 option: `handleObserve` and `handleBlock1` are passed by
  have hobserve : d.findOption OptionNumber.observe = none := by
    refine hopts.findOption_none fun o ho => ?_
    rw [hmopts] at ho
    rcases List.mem_append.1 ho with ho | ho
    · obtain ⟨seg, -, rfl⟩ := List.mem_map.1 ho
      exact (by decide : OptionNumber.uriPath ≠ OptionNumber.observe)
    · rw [hrest o ho]
      decide
  have hcode : d.code = method := hsame.code.trans hm.code
  have hblock : block1Option cfg d = none := by
    unfold block1Option
    rw [hplain]
    simp
  unfold handleRequest
  rw [hjoin]
  dsimp only
  rw [hserves.findTarget hpath.cString_eq]
  dsimp only
  rw [hcode, hmask]
  dsimp only
  rw [if_neg (show ¬ (targetAt k r).resource.methods &&& mask = 0 from hallows)]
  unfold handleTarget handleObserve
  rw [hobserve, hblock]

/-- So does the datagram that carries it, when no timer is due. The scan then changes nothing,
and what the poll sends and calls is what the request makes of it. -/
theorem poll_serves {s : Server cfg} {k : Nat} {r : Resource} {path : Bytes} {segs : List Bytes}
    {method : Code} {payload : Bytes} (hserves : s.Serves k r path method)
    (hpath : Uri.NormalForm path segs) (hshort : path.length < cfg.maxUriPathLen)
    (hplain : cfg.enableBlockwise = false) {m : Message}
    (hm : RequestFor cfg m segs method payload) (hmethod : isMethodCode method = true)
    {nowMs : UInt32} (hdue : s.NoneDue nowMs) (sender : Endpoint) :
    s.step (.poll nowMs (some (sender, m.wire))) =
      ({ s with lastNowMs := nowMs } : Server cfg).runHandler (targetAt k r)
        (Message.decode cfg m.wire).2 sender none none := by
  have hserves' : ({ s with lastNowMs := nowMs } : Server cfg).Serves k r path method :=
    ⟨hserves.idle, hserves.found, hserves.first, hserves.path, hserves.simple, hserves.allows⟩
  have hreaches := handleRequest_serves hserves' hpath hshort hplain hm sender
  have hsame := Message.sameContent_decode hm.built.toWellFormed
  have hpair := Message.decodes_wire hm.built.toWellFormed
  have hlen := Message.decode_length hpair
  have hisMethod : isMethodCode (Message.decode cfg m.wire).2.code = true := by
    rw [hsame.code, hm.code]
    exact hmethod
  have htype := hm.type
  rw [← hsame.type] at htype
  generalize (Message.decode cfg m.wire).2 = d at hpair hisMethod hreaches htype ⊢
  rw [step_poll hserves.idle, poll_quiet hdue, ← hreaches]
  unfold receive
  dsimp only
  rw [if_pos hlen, hpair]
  dsimp only
  unfold handleMessage
  rw [if_neg, if_neg, if_pos hisMethod]
  · rcases htype with h | h <;> simp [h]
  · rcases htype with h | h <;> simp [h]

/-! ## The reply -/

/-- The reply that goes out when the handler has returned: in one datagram, with the code and
the payload of the result and a Content-Format if there is a payload. -/
theorem finish_plain (s : Server cfg) (hplain : cfg.enableBlockwise = false) {d : Message}
    (htoken : d.token.length ≤ kMaxTokenLen) (sender : Endpoint)
    (deferIdx : Option (Fin cfg.maxDeferred)) {res : Response} (hinline : res.deferred = false)
    (hfits : replySize cfg d.token.length (contentUint res.payload res.contentFormat)
      res.payload.length ≤ cfg.maxMsgSize) :
    ∃ m hd, Carries cfg m hd (contentUint res.payload res.contentFormat) res.payload ∧
      hd = s.replyHeader d res.code ∧
      (s.finish { msg := d, sender, observeValue := none, deferIdx, session := none } res).2 =
        [.sent sender m.wire] := by
  unfold finish
  dsimp only
  rw [hinline, if_neg (by simp)]
  have hid : ((s.freeBlock1Session? none).freeDeferred? deferIdx).nextMessageId =
      s.nextMessageId := by
    cases deferIdx <;> rfl
  generalize (s.freeBlock1Session? none).freeDeferred? deferIdx = s' at hid ⊢
  have hcarries : Carries cfg (addContent cfg (addObserve cfg (s'.reply d res.code).2 none)
      res.payload res.contentFormat) (s'.replyHeader d res.code)
      (contentUint res.payload res.contentFormat) res.payload :=
    s'.carries_content res.code res.payload res.contentFormat none htoken
  have hheader : s'.replyHeader d res.code = s.replyHeader d res.code := by
    unfold replyHeader
    rw [hid]
  rw [hheader] at hcarries
  have htok : (s.replyHeader d res.code).token = d.token := by
    unfold replyHeader
    split <;> rfl
  refine ⟨_, _, hcarries, rfl, ?_⟩
  unfold replyInline
  dsimp only
  rw [hplain, if_neg (by simp)]
  unfold sendPiggybackedResponse
  dsimp only
  refine sendIfEncoded_fits hcarries.built sender ?_
  rw [hcarries.size, htok]
  exact hfits

theorem fillDeferred_keeps (s : Server cfg) (slot : Option (Fin cfg.maxDeferred)) (msg : Message)
    (sender : Endpoint) :
    (s.fillDeferred slot msg sender).nextMessageId = s.nextMessageId ∧
      (s.fillDeferred slot msg sender).control = s.control ∧
      (s.fillDeferred slot msg sender).wellKnownCoreHandler = s.wellKnownCoreHandler := by
  cases slot with
  | none => exact ⟨rfl, rfl, rfl⟩
  | some i => exact ⟨rfl, rfl, rfl⟩

/-- From the handler call to the reply, for either kind of handler. The application's returns in
a step of its own, the server's own in the same poll. -/
theorem runHandler_turn {s : Server cfg} (hidle : s.control = .idle)
    (hplain : cfg.enableBlockwise = false) {d : Message} (htoken : d.token.length ≤ kMaxTokenLen)
    (t : Target) (sender : Endpoint) {res : Response} (hinline : res.deferred = false)
    (hown : t.resource.handler = .wellKnownCore → res = s.wellKnownCoreHandler)
    (hfits : replySize cfg d.token.length (contentUint res.payload res.contentFormat)
      res.payload.length ≤ cfg.maxMsgSize) :
    ∃ reply, Carries cfg reply (s.replyHeader d res.code)
        (contentUint res.payload res.contentFormat) res.payload ∧
      (s.runHandler t d sender none none).2 ++
          ((s.runHandler t d sender none none).1.step (.handlerReturns res)).2 =
        [s.handlerCall t d sender none, .sent sender reply.wire] := by
  obtain ⟨hid, hctl, hwkc⟩ := s.fillDeferred_keeps s.allocateDeferred d sender
  obtain ⟨reply, hd, hcarries, rfl, hsent⟩ :=
    (s.fillDeferred s.allocateDeferred d sender).finish_plain hplain htoken sender
      s.allocateDeferred hinline hfits
  have hheader : (s.fillDeferred s.allocateDeferred d sender).replyHeader d res.code =
      s.replyHeader d res.code := by
    unfold replyHeader
    rw [hid]
  rw [hheader] at hcarries
  refine ⟨reply, hcarries, ?_⟩
  have hsent : ((s.fillDeferred s.allocateDeferred d sender).finish
      (s.handlingFor d sender none none) res).2 = [.sent sender reply.wire] := hsent
  rcases s.runHandler_cases t d sender none none with ⟨f, -, heq⟩ | ⟨hwk, heq⟩
  · -- the application's handler runs between the two steps
    have hback : ({ s.fillDeferred s.allocateDeferred d sender with control := .idle } :
        Server cfg) = s.fillDeferred s.allocateDeferred d sender := by
      rw [← hidle, ← hctl]
    rw [heq]
    show [s.handlerCall t d sender none] ++
      (({ s.fillDeferred s.allocateDeferred d sender with control := .idle } : Server cfg).finish
        (s.handlingFor d sender none none) res).2 = _
    rw [hback, hsent]
    rfl
  · -- the server's own handler has run to the end in the first step
    have hres : (s.fillDeferred s.allocateDeferred d sender).wellKnownCoreHandler = res := by
      rw [hwkc, hown hwk]
    have hdone : ((s.fillDeferred s.allocateDeferred d sender).finish
        (s.handlingFor d sender none none) res).1.control = .idle := by
      rw [finish_control, hctl, hidle]
    have hrest : (Server.step ((s.fillDeferred s.allocateDeferred d sender).finish
        (s.handlingFor d sender none none) res).1 (.handlerReturns res)).2 = [] := by
      rw [step_returns_idle hdone]
    rw [heq]
    dsimp only
    rw [hres, hrest, hsent]
    rfl

/-- **The server's turn.** The request is polled and its handler returns: one handler call, with
the method and the payload of the request, and then the reply. The scan of the poll has nothing
to do. -/
theorem turn_serves {s : Server cfg} {k : Nat} {r : Resource} {path : Bytes} {segs : List Bytes}
    {method : Code} {payload : Bytes} (hserves : s.Serves k r path method)
    (hpath : Uri.NormalForm path segs) (hshort : path.length < cfg.maxUriPathLen)
    (hplain : cfg.enableBlockwise = false) {m : Message}
    (hm : RequestFor cfg m segs method payload) (hmethod : isMethodCode method = true)
    {nowMs : UInt32} (hdue : s.NoneDue nowMs) (sender : Endpoint) {res : Response}
    (hinline : res.deferred = false)
    (hown : r.handler = .wellKnownCore → res = s.wellKnownCoreHandler)
    (hfits : replySize cfg m.token.length (contentUint res.payload res.contentFormat)
      res.payload.length ≤ cfg.maxMsgSize) :
    ∃ req reply, req.method = method ∧ req.payload = payload ∧
      Carries cfg reply (s.replyHeader m res.code) (contentUint res.payload res.contentFormat)
        res.payload ∧
      ((machine cfg).exec [] s [.poll nowMs (some (sender, m.wire)), .handlerReturns res]).1 =
        [.handled k r.handler req r.userContext, .sent sender reply.wire] := by
  have hsame := Message.sameContent_decode hm.built.toWellFormed
  have hstep := poll_serves hserves hpath hshort hplain hm hmethod hdue sender
  have htoken : (Message.decode cfg m.wire).2.token.length ≤ kMaxTokenLen := by
    rw [hsame.token]
    exact hm.built.token
  rw [← hsame.token] at hfits
  have hheader : ({ s with lastNowMs := nowMs } : Server cfg).replyHeader
      (Message.decode cfg m.wire).2 res.code = s.replyHeader m res.code := by
    unfold replyHeader
    rw [hsame.type, hsame.messageId, hsame.token]
  obtain ⟨reply, hcarries, hevents⟩ :=
    runHandler_turn (s := { s with lastNowMs := nowMs }) hserves.idle hplain htoken (targetAt k r)
      sender hinline hown hfits
  rw [hheader] at hcarries
  refine ⟨({ s with lastNowMs := nowMs } : Server cfg).requestFor (targetAt k r)
    (Message.decode cfg m.wire).2 sender none, reply, hsame.code.trans hm.code,
    hsame.payload.trans hm.payload, hcarries, ?_⟩
  show ([] ++ (s.step (.poll nowMs (some (sender, m.wire)))).2) ++
    ((s.step (.poll nowMs (some (sender, m.wire)))).1.step (.handlerReturns res)).2 = _
  rw [List.nil_append, hstep, hevents]
  rfl

end Server

end PulseCoap
