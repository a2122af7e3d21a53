import PulseCoap.Client.Model
import PulseCoap.Codec.Stream
import PulseCoap.Lib.Run
import PulseCoap.Pool.Spec

/-!
# PulseCoAP — what the client's operations do

One lemma for each operation that says everything it can do to the client, with
its guards; the proofs about runs use these and never unfold an operation.

The shape of a call is what most proofs look at: `get`, `put`, `post`, `del` and
`observe` differ in their arguments only, and all of them are `issue`. The
states that an operation can leave have names of their own (`issued`,
`block1Sent`, `resent`, `freed`, …), with lemmas for the fields that they leave
alone.

* `sendRequest_cases`, `startUpload_cases` — a call is refused with its slot
  free again, or its slot is registered.
* `sendBlock1_cases`, `sendBlock2_cases` — the block follow-ups.
* `issue_cases`, `call_eq` — all calls that take a slot, as one operation.
* `dispatchPending_cases`, `handleReset_cases`, `tickAt_cases` — `poll`.
* `step_cases` — ignored, a call, the start of `poll`, or a segment of it.
-/

namespace PulseCoap

namespace Client

variable {cfg : Config}

/-- The client as a machine: one step at a time, from a client just built. -/
def machine (cfg : Config) : Machine (Client cfg) Action ClientEvent where
  init := {}
  next := step

/-! ## Slots -/

theorem freeSlot_spec {c : Client cfg} {i : Fin cfg.maxTransactions} (h : c.freeSlot = some i) :
    (c.slots i).pending.active = false := by
  simpa using Table.find?_spec h

/-- The slot that is found is in use under this token. -/
theorem findPendingByToken_spec {c : Client cfg} {token : Bytes} {i : Fin cfg.maxTransactions}
    (h : c.findPendingByToken token = some i) :
    (c.slots i).pending.active = true ∧ (c.slots i).pending.token = token := by
  simpa using Table.find?_spec h

theorem findPendingByToken_none {c : Client cfg} {token : Bytes}
    (h : c.findPendingByToken token = none) (i : Fin cfg.maxTransactions)
    (ha : (c.slots i).pending.active = true) : (c.slots i).pending.token ≠ token := by
  have := Table.find?_eq_none.1 h i
  simpa [ha] using this

/-- The same for discoveries. -/
theorem findDiscover_spec {c : Client cfg} {token : Bytes} {i : Fin cfg.maxDiscovers}
    (h : c.findDiscover token = some i) :
    (c.discovers i).active = true ∧ (c.discovers i).token = token := by
  simpa using Table.find?_spec h

/-- A subscription is found by its server and its path, as they were given to `observe`. -/
theorem findObserve_spec {c : Client cfg} {server : Endpoint} {path : Bytes}
    {i : Fin cfg.maxTransactions} (h : c.findObserve server path = some i) :
    (c.slots i).pending.active = true ∧ (c.slots i).pending.observing = true ∧
      (c.slots i).pending.server = server ∧ (c.slots i).pending.path = path := by
  simpa [and_assoc] using Table.find?_spec h

/-! ## Calls -/

/-- The slot a successful `sendRequest` registers. -/
def requestSlot (cfg : Config) (old : ClientSlot) (a : RequestArgs) (token : UInt8) (call : Call) :
    ClientSlot where
  pending :=
    { active := true, server := a.server, token := [token], onResponse := a.onResponse
      userContext := a.userContext, observing := a.markObserving
      path := storedPath cfg a.path, call }
  upload := if cfg.enableBlockwise then { old.upload with active := false } else old.upload
  recv :=
    if cfg.enableBlockwise then { old.recv with active := false, path := storedPath cfg a.path }
    else old.recv

/-- The datagram `sendRequest` gets out from this state, if it does. -/
def requestDatagram (c : Client cfg) (a : RequestArgs) (sendOk : Bool) : Option Bytes :=
  transmit cfg (a.request cfg c.nextMessageId c.nextTokenByte) sendOk

/-- `sendRequest` is refused for want of a slot, gives its slot back, or
registers it. -/
theorem sendRequest_cases (c : Client cfg) (a : RequestArgs) (sendOk : Bool) :
    (c.freeSlot = none ∧ c.sendRequest a sendOk = (c, false, [])) ∨
      (∃ i, c.freeSlot = some i ∧ c.requestDatagram a sendOk = none ∧
        c.sendRequest a sendOk =
          ({ c with
              slots := c.slots.set i { c.slots i with pending := {} }
              nextTokenByte := c.nextTokenByte + 1
              nextMessageId := c.nextMessageId + 1 }, false, [])) ∨
      (∃ i buf, c.freeSlot = some i ∧ c.requestDatagram a sendOk = some buf ∧
        c.sendRequest a sendOk =
          ({ c with
              slots := c.slots.set i (requestSlot cfg (c.slots i) a c.nextTokenByte (a.call c.calls))
              transactions :=
                if a.confirmable then
                  (c.transactions.start a.server c.nextMessageId [c.nextTokenByte] buf
                    c.lastNowMs (a.call c.calls)).1
                else c.transactions
              nextTokenByte := c.nextTokenByte + 1
              nextMessageId := c.nextMessageId + 1
              calls := c.calls + 1 }, true,
            [.sent a.server buf, .accepted (a.call c.calls)])) := by
  cases hf : c.freeSlot with
  | none => exact .inl ⟨rfl, by rw [sendRequest, allocatePending, hf]; rfl⟩
  | some i =>
    refine .inr ?_
    have hdat : transmit cfg (a.request cfg c.nextMessageId c.nextTokenByte) sendOk =
      c.requestDatagram a sendOk := rfl
    -- the slot, the token and the message ID are taken before the datagram is built
    cases hd : c.requestDatagram a sendOk with
    | none =>
      refine .inl ⟨i, rfl, rfl, ?_⟩
      rw [sendRequest, allocatePending, hf]
      simp only [Option.map_some, drawToken, drawMessageId, setPending, hdat.trans hd, release,
        Table.set_self, Table.set_set]
    | some buf =>
      refine .inr ⟨i, buf, rfl, rfl, ?_⟩
      rw [sendRequest, allocatePending, hf]
      simp only [Option.map_some, drawToken, drawMessageId, setPending, hdat.trans hd,
        startTransaction]
      by_cases hb : cfg.enableBlockwise <;> by_cases hc : a.confirmable <;>
        simp [hb, hc, requestSlot]

/-- The block `sendBlock1` gets out for an upload, if it does. -/
def block1Datagram (c : Client cfg) (up : Block1UploadState) (sendOk : Bool) : Option Bytes :=
  if up.nextNum.toNat * blockSize up.szx ≥ up.fullPayload.length then none
  else transmit cfg (buildBlock1 cfg up c.nextMessageId) sendOk

/-- The client with this message ID next. -/
def withId (c : Client cfg) (id : UInt16) : Client cfg := { c with nextMessageId := id }

/-- The client after a block of slot `i` went out in `buf`. -/
def block1Sent (c : Client cfg) (i : Fin cfg.maxTransactions) (buf : Bytes) : Client cfg :=
  { c with
    slots := c.slots.set i { c.slots i with
      upload := { (c.slots i).upload with waitingForContinue := true } }
    transactions :=
      (c.transactions.start (c.slots i).upload.server c.nextMessageId [(c.slots i).upload.token]
        buf c.lastNowMs (c.slots i).pending.call).1
    nextMessageId := c.nextMessageId + 1 }

/-- `sendBlock1` fails, at most with a message ID used up, or starts a
transaction for the next block. -/
theorem sendBlock1_cases (c : Client cfg) (i : Fin cfg.maxTransactions) (sendOk : Bool) :
    (c.block1Datagram (c.slots i).upload sendOk = none ∧
        ∃ id, c.sendBlock1 i sendOk = (c.withId id, false, [])) ∨
      (∃ buf, c.block1Datagram (c.slots i).upload sendOk = some buf ∧
        c.sendBlock1 i sendOk =
          (c.block1Sent i buf, true, [.sent (c.slots i).upload.server buf])) := by
  unfold sendBlock1 block1Datagram
  by_cases hend : (c.slots i).upload.nextNum.toNat * blockSize (c.slots i).upload.szx ≥
      (c.slots i).upload.fullPayload.length
  · exact .inl ⟨if_pos hend, c.nextMessageId, by simp only [hend, if_true]; rfl⟩
  · simp only [hend, if_false]
    cases hd : transmit cfg (buildBlock1 cfg (c.slots i).upload c.nextMessageId) sendOk with
    | none => exact .inl ⟨rfl, _, rfl⟩
    | some buf => exact .inr ⟨buf, rfl, rfl⟩

/-- The request for the next block, if it gets out. -/
def block2Datagram (c : Client cfg) (i : Fin cfg.maxTransactions) (sendOk : Bool) : Option Bytes :=
  transmit cfg (buildBlock2 cfg (c.slots i).recv (c.slots i).pending.token c.nextMessageId) sendOk

/-- The client after the request for a block went out in `buf`. -/
def block2Sent (c : Client cfg) (i : Fin cfg.maxTransactions) (buf : Bytes) : Client cfg :=
  { c with
    transactions :=
      (c.transactions.start (c.slots i).recv.server c.nextMessageId (c.slots i).pending.token
        buf c.lastNowMs (c.slots i).pending.call).1
    nextMessageId := c.nextMessageId + 1 }

/-- The request for a further block draws a message ID whether it goes out or not. -/
theorem sendBlock2_cases (c : Client cfg) (i : Fin cfg.maxTransactions) (sendOk : Bool) :
    (c.block2Datagram i sendOk = none ∧
        c.sendBlock2Request i sendOk = (c.withId (c.nextMessageId + 1), false, [])) ∨
      (∃ buf, c.block2Datagram i sendOk = some buf ∧
        c.sendBlock2Request i sendOk =
          (c.block2Sent i buf, true, [.sent (c.slots i).recv.server buf])) := by
  unfold sendBlock2Request block2Datagram
  simp only [drawMessageId]
  cases hd : transmit cfg (buildBlock2 cfg (c.slots i).recv (c.slots i).pending.token
      c.nextMessageId) sendOk with
  | none => exact .inl ⟨rfl, rfl⟩
  | some buf => exact .inr ⟨buf, rfl, rfl⟩

/-- The slot the Block1 branch sends its first block from. -/
def openSlot (cfg : Config) (old : ClientSlot) (a : RequestArgs) (token : UInt8) (call : Call) :
    ClientSlot :=
  withPath (uploadSlot cfg old a token call) a.path

/-- The first block the Block1 branch gets out in slot `i`, if it does. -/
def uploadDatagram (c : Client cfg) (i : Fin cfg.maxTransactions) (a : RequestArgs)
    (sendOk : Bool) : Option Bytes :=
  if a.path.length ≥ cfg.maxUriPathLen then none
  else c.block1Datagram (openSlot cfg (c.slots i) a c.nextTokenByte (a.call c.calls)).upload sendOk

/-- The slot a successful upload call registers. -/
def startedSlot (cfg : Config) (old : ClientSlot) (a : RequestArgs) (token : UInt8) (call : Call) :
    ClientSlot :=
  let s := openSlot cfg old a token call
  { s with upload := { s.upload with waitingForContinue := true } }

/-- The slot an upload call leaves when its first block did not get out. -/
def refusedSlot (cfg : Config) (old : ClientSlot) (a : RequestArgs) (token : UInt8) (call : Call) :
    ClientSlot :=
  abandonSlot (if a.path.length ≥ cfg.maxUriPathLen then uploadSlot cfg old a token call
    else openSlot cfg old a token call)

/-- The client as the Block1 branch hands it to `sendBlock1`. -/
def uploading (c : Client cfg) (i : Fin cfg.maxTransactions) (a : RequestArgs) : Client cfg :=
  { c with
    slots := c.slots.set i (openSlot cfg (c.slots i) a c.nextTokenByte (a.call c.calls))
    nextTokenByte := c.nextTokenByte + 1 }

/-- An upload whose path fits fills its slot before the first block is sent. -/
theorem startUpload_short {c : Client cfg} {i : Fin cfg.maxTransactions} (hf : c.freeSlot = some i)
    {a : RequestArgs} (hp : ¬ a.path.length ≥ cfg.maxUriPathLen) (sendOk : Bool) :
    c.startUpload a sendOk =
      let r := (c.uploading i a).sendBlock1 i sendOk
      if r.2.1 then
        ({ r.1 with calls := c.calls + 1 }, true,
          r.2.2 ++ [.accepted (a.call c.calls)])
      else (r.1.abandon i, false, r.2.2) := by
  unfold startUpload allocatePending
  rw [hf]
  simp only [Option.map_some, setPending, hp, if_false, Table.set_self, drawToken, Table.set_set]
  rfl

/-- The Block1 branch is refused for want of a slot, gives its slot back, or
registers it. -/
theorem startUpload_cases (c : Client cfg) (a : RequestArgs) (sendOk : Bool) :
    (c.freeSlot = none ∧ c.startUpload a sendOk = (c, false, [])) ∨
      (∃ i id, c.freeSlot = some i ∧ c.uploadDatagram i a sendOk = none ∧
        c.startUpload a sendOk =
          ({ c with
              slots := c.slots.set i (refusedSlot cfg (c.slots i) a c.nextTokenByte (a.call c.calls))
              nextTokenByte := c.nextTokenByte + 1
              nextMessageId := id }, false, [])) ∨
      (∃ i buf, c.freeSlot = some i ∧ c.uploadDatagram i a sendOk = some buf ∧
        c.startUpload a sendOk =
          ({ c with
              slots := c.slots.set i (startedSlot cfg (c.slots i) a c.nextTokenByte (a.call c.calls))
              transactions :=
                (c.transactions.start a.server c.nextMessageId [c.nextTokenByte] buf
                  c.lastNowMs (a.call c.calls)).1
              nextTokenByte := c.nextTokenByte + 1
              nextMessageId := c.nextMessageId + 1
              calls := c.calls + 1 }, true,
            [.sent a.server buf, .accepted (a.call c.calls)])) := by
  cases hf : c.freeSlot with
  | none => exact .inl ⟨rfl, by rw [startUpload, allocatePending, hf]; rfl⟩
  | some i =>
    refine .inr ?_
    -- a path that is too long is refused before a message ID is drawn
    by_cases hp : a.path.length ≥ cfg.maxUriPathLen
    · refine .inl ⟨i, c.nextMessageId, rfl, if_pos hp, ?_⟩
      unfold startUpload allocatePending refusedSlot
      rw [hf, if_pos hp]
      simp only [Option.map_some, setPending, hp, if_true, Table.set_self, drawToken,
        Table.set_set, abandon]
      rfl
    · have hup : ((c.uploading i a).slots i) =
          openSlot cfg (c.slots i) a c.nextTokenByte (a.call c.calls) := Table.set_self ..
      have hdat : (c.uploading i a).block1Datagram ((c.uploading i a).slots i).upload sendOk =
          c.uploadDatagram i a sendOk := by
        rw [hup, uploadDatagram, if_neg hp]
        rfl
      rw [startUpload_short hf hp]
      rcases sendBlock1_cases (c.uploading i a) i sendOk with ⟨hd, id, hr⟩ | ⟨buf, hd, hr⟩
      · refine .inl ⟨i, id, rfl, hdat ▸ hd, ?_⟩
        rw [hr, refusedSlot, if_neg hp]
        simp only [Bool.false_eq_true, if_false, abandon, withId, uploading, Table.set_self,
          Table.set_set]
      · refine .inr ⟨i, buf, rfl, hdat ▸ hd, ?_⟩
        rw [hr]
        simp only [if_true, block1Sent, uploading, Table.set_self, Table.set_set]
        rfl

/-! ## All calls that take a slot -/

/-- A refused call: one free slot may have been written and given back, and the
counters may have moved. -/
structure Refused (c c' : Client cfg) : Prop where
  slots        : ∀ j, c'.slots j = c.slots j ∨
    (c.slots j).pending.active = false ∧ (c'.slots j).pending.active = false
  discovers    : c'.discovers = c.discovers
  transactions : c'.transactions = c.transactions
  calls        : c'.calls = c.calls
  onTimeout    : c'.onTimeout = c.onTimeout
  control      : c'.control = c.control
  lastNowMs    : c'.lastNowMs = c.lastNowMs

theorem Refused.refl (c : Client cfg) : Refused c c :=
  ⟨fun _ => .inl rfl, rfl, rfl, rfl, rfl, rfl, rfl⟩

/-- A slot as an accepted call leaves it. -/
structure NewSlot (c : Client cfg) (a : RequestArgs) (s : ClientSlot) : Prop where
  active      : s.pending.active = true
  server      : s.pending.server = a.server
  token       : s.pending.token = [c.nextTokenByte]
  call        : s.pending.call = a.call c.calls
  onResponse  : s.pending.onResponse = a.onResponse
  userContext : s.pending.userContext = a.userContext
  observing   : s.pending.observing = a.markObserving
  path        : s.pending.path = storedPath cfg a.path
  upload      : cfg.enableBlockwise → s.upload.active = true → s.upload.token = c.nextTokenByte
  recv        : cfg.enableBlockwise → s.recv.active = false

/-- Whether `put` or `post` sends these arguments block by block. -/
def RequestArgs.blockwise (cfg : Config) (a : RequestArgs) : Bool :=
  cfg.enableBlockwise && decide (a.payload.length > blockSize cfg.blockSzx)

/-- The request starts a transaction: it is Confirmable, or an upload, whose
blocks always are. -/
def RequestArgs.reliable (cfg : Config) (a : RequestArgs) : Bool := a.blockwise cfg || a.confirmable

/-- What `get`, `put`, `post`, `del` and `observe` come to. -/
def issue (c : Client cfg) (a : RequestArgs) (sendOk : Bool) :
    Client cfg × Bool × List ClientEvent :=
  if a.blockwise cfg then c.startUpload a sendOk else c.sendRequest a sendOk

/-- The first datagram such a call gets out of slot `i`, if it does. -/
def issueDatagram (c : Client cfg) (i : Fin cfg.maxTransactions) (a : RequestArgs)
    (sendOk : Bool) : Option Bytes :=
  if a.blockwise cfg then c.uploadDatagram i a sendOk else c.requestDatagram a sendOk

/-- The call finds a slot and gets its first datagram out. -/
def Issues (c : Client cfg) (a : RequestArgs) (sendOk : Bool) : Prop :=
  ∃ i, c.freeSlot = some i ∧ (c.issueDatagram i a sendOk).isSome

instance (c : Client cfg) (a : RequestArgs) (sendOk : Bool) : Decidable (c.Issues a sendOk) :=
  inferInstanceAs (Decidable (∃ _, _))

/-- The client after an accepted call. -/
def issued (c : Client cfg) (i : Fin cfg.maxTransactions) (s : ClientSlot) (a : RequestArgs)
    (buf : Bytes) : Client cfg :=
  { c with
    slots := c.slots.set i s
    transactions :=
      if a.reliable cfg then
        (c.transactions.start a.server c.nextMessageId [c.nextTokenByte] buf c.lastNowMs
          (a.call c.calls)).1
      else c.transactions
    nextTokenByte := c.nextTokenByte + 1
    nextMessageId := c.nextMessageId + 1
    calls := c.calls + 1 }

/-- The slot of a request of one datagram. -/
theorem newSlot_request (c : Client cfg) (a : RequestArgs) (old : ClientSlot) :
    NewSlot c a (requestSlot cfg old a c.nextTokenByte (a.call c.calls)) := by
  refine ⟨rfl, rfl, rfl, rfl, rfl, rfl, rfl, rfl, fun h hu => ?_, fun h => ?_⟩
  · simp [requestSlot, h] at hu
  · simp [requestSlot, h]

/-- The slot of an upload. It is never a subscription's. -/
theorem newSlot_started (c : Client cfg) {a : RequestArgs} (hobs : a.markObserving = false)
    (hpath : a.path.length < cfg.maxUriPathLen) (old : ClientSlot) :
    NewSlot c a (startedSlot cfg old a c.nextTokenByte (a.call c.calls)) := by
  refine ⟨rfl, rfl, rfl, rfl, rfl, rfl, hobs.symm, ?_, fun _ _ => rfl, fun _ => rfl⟩
  show a.path = storedPath cfg a.path
  rw [storedPath, if_pos hpath]

theorem uploadDatagram_some {c : Client cfg} {i : Fin cfg.maxTransactions} {a : RequestArgs}
    {sendOk : Bool} {buf : Bytes} (h : c.uploadDatagram i a sendOk = some buf) :
    a.path.length < cfg.maxUriPathLen := by
  by_contra hlen
  rw [uploadDatagram, if_pos (Nat.not_lt.1 hlen)] at h
  cases h

/-- Writing a free slot and leaving it free is a refusal. -/
theorem refused_set {c : Client cfg} {i : Fin cfg.maxTransactions} (hf : c.freeSlot = some i)
    {s : ClientSlot} (hs : s.pending.active = false) (id : UInt16) :
    Refused c { c with
      slots := c.slots.set i s, nextTokenByte := c.nextTokenByte + 1, nextMessageId := id } := by
  refine ⟨fun j => ?_, rfl, rfl, rfl, rfl, rfl, rfl⟩
  by_cases hj : j = i
  · subst hj
    exact .inr ⟨freeSlot_spec hf, by simpa using hs⟩
  · exact .inl (Table.set_ne _ _ hj)

/-- **A call is refused or registered.** A refused call sends nothing; a registered one has a
slot with a new token and a datagram on its way. -/
theorem issue_cases (c : Client cfg) (a : RequestArgs) (sendOk : Bool)
    (hk : a.blockwise cfg = true → a.markObserving = false) :
    (¬ c.Issues a sendOk ∧ ∃ c', Refused c c' ∧ c.issue a sendOk = (c', false, [])) ∨
      (c.Issues a sendOk ∧ ∃ i s buf, c.freeSlot = some i ∧ c.issueDatagram i a sendOk = some buf ∧
        NewSlot c a s ∧
        c.issue a sendOk = (c.issued i s a buf, true,
          [.sent a.server buf, .accepted (a.call c.calls)])) := by
  -- a call is not issued without a slot or without its datagram
  have hnone : ∀ {i}, c.freeSlot = some i → c.issueDatagram i a sendOk = none →
      ¬ c.Issues a sendOk := by
    rintro i hf hd ⟨j, hj, hs⟩
    rw [hf] at hj
    cases hj
    rw [hd] at hs
    cases hs
  have hempty : c.freeSlot = none → ¬ c.Issues a sendOk := by
    rintro hf ⟨i, hi, -⟩
    rw [hf] at hi
    cases hi
  by_cases hb : a.blockwise cfg = true
  · have hdat : ∀ i, c.issueDatagram i a sendOk = c.uploadDatagram i a sendOk := fun i => if_pos hb
    rw [issue, if_pos hb]
    rcases startUpload_cases c a sendOk with ⟨hf, hr⟩ | ⟨i, id, hf, hd, hr⟩ |
      ⟨i, buf, hf, hd, hr⟩
    · exact .inl ⟨hempty hf, c, Refused.refl c, hr⟩
    · exact .inl ⟨hnone hf ((hdat i).trans hd), _, refused_set hf rfl id, hr⟩
    · refine .inr ⟨⟨i, hf, by rw [hdat, hd]; rfl⟩, i,
        startedSlot cfg (c.slots i) a c.nextTokenByte (a.call c.calls), buf, hf, (hdat i).trans hd,
        newSlot_started c (hk hb) (uploadDatagram_some hd) _, ?_⟩
      rw [hr, issued, RequestArgs.reliable, hb]
      rfl
  · have hdat : ∀ i, c.issueDatagram i a sendOk = c.requestDatagram a sendOk := fun i => if_neg hb
    rw [issue, if_neg hb]
    rcases sendRequest_cases c a sendOk with ⟨hf, hr⟩ | ⟨i, hf, hd, hr⟩ | ⟨i, buf, hf, hd, hr⟩
    · exact .inl ⟨hempty hf, c, Refused.refl c, hr⟩
    · exact .inl ⟨hnone hf ((hdat i).trans hd), _, refused_set hf rfl _, hr⟩
    · refine .inr ⟨⟨i, hf, by rw [hdat, hd]; rfl⟩, i,
        requestSlot cfg (c.slots i) a c.nextTokenByte (a.call c.calls), buf, hf, (hdat i).trans hd,
        newSlot_request c a _, ?_⟩
      rw [hr, issued, RequestArgs.reliable, Bool.eq_false_iff.2 hb]
      rfl

/-- The calls by what they do: take a slot, give one back first, take a
discover slot, or none of these. -/
inductive CallShape where
  | issue (a : RequestArgs)
  | cancel (server : Endpoint) (path : Bytes)
  | discover (multicastEp : Endpoint) (onDiscover userContext : Option Ref)
  | handler (onTimeout : Option Ref)

def ClientCall.shape : ClientCall → CallShape
  | .get server path onResponse userContext confirmable =>
    .issue { server, path, method := Code.get, confirmable, onResponse, userContext }
  | .put server path payload contentFormat onResponse userContext confirmable =>
    .issue { server, path, method := Code.put, payload, contentFormat, confirmable, onResponse
             userContext }
  | .post server path payload contentFormat onResponse userContext confirmable =>
    .issue { server, path, method := Code.post, payload, contentFormat, confirmable, onResponse
             userContext }
  | .del server path onResponse userContext confirmable =>
    .issue { server, path, method := Code.delete, confirmable, onResponse, userContext }
  | .observe server path onResponse userContext =>
    .issue { server, path, method := Code.get, observe := some kObserveRegister, onResponse
             userContext, markObserving := true }
  | .cancelObserve server path => .cancel server path
  | .discover multicastEp onDiscover userContext => .discover multicastEp onDiscover userContext
  | .setTimeoutHandler onTimeout => .handler onTimeout

/-- The deregistration `cancelObserve` sends for a subscription. -/
def deregisterArgs (server : Endpoint) (path : Bytes) (p : PendingRequest) : RequestArgs :=
  { server, path, method := Code.get, observe := some kObserveDeregister
    onResponse := p.onResponse, userContext := p.userContext }

/-- Without a payload there is nothing to send in blocks. -/
theorem issue_noPayload (c : Client cfg) {a : RequestArgs} (h : a.payload = []) (sendOk : Bool) :
    c.issue a sendOk = c.sendRequest a sendOk := by
  rw [issue, RequestArgs.blockwise, h]
  simp

/-- `put` and `post` are the same but for the method. -/
theorem upload_eq (c : Client cfg) (method : Code) (server : Endpoint) (path payload : Bytes)
    (contentFormat : ContentFormat) (onResponse userContext : Option Ref)
    (confirmable sendOk : Bool) :
    c.upload method server path payload contentFormat onResponse userContext confirmable sendOk =
      c.issue { server, path, method, payload, contentFormat, confirmable, onResponse
                userContext } sendOk := by
  rw [upload, issue, RequestArgs.blockwise]
  simp

/-- Every call in terms of the operations above. -/
theorem call_eq (c : Client cfg) (sendOk : Bool) (call : ClientCall) :
    c.call sendOk call =
      match call.shape with
      | .issue a => c.issue a sendOk
      | .cancel server path =>
        match c.findObserve server path with
        | none => (c, false, [])
        | some i =>
          (c.release i).issue (deregisterArgs server path (c.slots i).pending) sendOk
      | .discover ep onDiscover userContext => c.discover ep onDiscover userContext sendOk
      | .handler h => ({ c with onTimeout := h }, true, []) := by
  -- the calls that take a payload go to one of two functions, the others to `sendRequest`
  cases call with
  | get => exact (issue_noPayload c rfl sendOk).symm
  | put => exact upload_eq ..
  | post => exact upload_eq ..
  | del => exact (issue_noPayload c rfl sendOk).symm
  | observe => exact (issue_noPayload c rfl sendOk).symm
  | cancelObserve server path =>
    show c.cancelObserve server path sendOk = _
    unfold cancelObserve
    simp only [ClientCall.shape]
    cases c.findObserve server path with
    | none => rfl
    | some i => exact (issue_noPayload _ rfl sendOk).symm
  | discover => rfl
  | setTimeoutHandler => rfl

/-- Only plain requests are sent block by block. -/
theorem shape_blockwise {call : ClientCall} {a : RequestArgs} (hs : call.shape = .issue a)
    (hb : a.blockwise cfg = true) : a.markObserving = false := by
  have hempty : ∀ {a : RequestArgs}, a.payload = [] → a.blockwise cfg = true → False := by
    intro a hp hb
    rw [RequestArgs.blockwise, hp] at hb
    simp at hb
  cases call <;> cases hs
  case get | del | observe => exact (hempty rfl hb).elim
  case put | post => rfl

/-- A deregistration is one datagram. -/
theorem deregister_blockwise (cfg : Config) (server : Endpoint) (path : Bytes)
    (p : PendingRequest) : (deregisterArgs server path p).blockwise cfg = false := by
  simp [RequestArgs.blockwise, deregisterArgs]

/-- The request `discover` gets out, if it does. -/
def discoverDatagram (c : Client cfg) (sendOk : Bool) : Option Bytes :=
  transmit cfg (buildRequest cfg .nonConfirmable c.nextMessageId [c.nextTokenByte] Code.get none
    Uri.wellKnownCore [] .textPlain) sendOk

/-- `discover` is refused or takes a free discover slot. -/
theorem discover_cases (c : Client cfg) (ep : Endpoint) (onDiscover userContext : Option Ref)
    (sendOk : Bool) :
    (∃ token id, c.discover ep onDiscover userContext sendOk =
        ({ c with nextTokenByte := token, nextMessageId := id }, false, []) ∧
        ¬ ((∃ i, (c.discovers i).active = false) ∧ (c.discoverDatagram sendOk).isSome)) ∨
      (∃ i buf, (c.discovers i).active = false ∧ c.discoverDatagram sendOk = some buf ∧
        c.discover ep onDiscover userContext sendOk =
          ({ c with
              discovers := c.discovers.set i
                { active := true, token := [c.nextTokenByte], onDiscover, userContext
                  issuedAt := c.lastNowMs }
              nextTokenByte := c.nextTokenByte + 1
              nextMessageId := c.nextMessageId + 1 }, true, [.sent ep buf])) := by
  unfold discover
  cases hf : c.discovers.find? fun d => !d.active with
  | none =>
    refine .inl ⟨c.nextTokenByte, c.nextMessageId, rfl, ?_⟩
    rintro ⟨⟨i, hi⟩, -⟩
    have := Table.find?_eq_none.1 hf i
    simp [hi] at this
  | some i =>
    have hi : (c.discovers i).active = false := by simpa using Table.find?_spec hf
    -- the token and the message ID are drawn whether the datagram is sent or not
    have hdat : transmit cfg (buildRequest cfg .nonConfirmable c.nextMessageId [c.nextTokenByte]
      Code.get none Uri.wellKnownCore [] .textPlain) sendOk = c.discoverDatagram sendOk := rfl
    simp only [drawToken, drawMessageId, hdat]
    cases hd : c.discoverDatagram sendOk with
    | none =>
      refine .inl ⟨_, _, rfl, ?_⟩
      rintro ⟨-, h⟩
      cases h
    | some buf => exact .inr ⟨i, buf, hi, rfl, rfl⟩

/-! ## The segments of `poll` -/

/-- Standing at `k`, in a callback or not. -/
def at' (c : Client cfg) (k : Cont cfg) (inCallback : Bool) : Client cfg :=
  { c with control := .polling k inCallback }

/-- Both block states of a slot. -/
def setBlocks (c : Client cfg) (i : Fin cfg.maxTransactions) (upload : Block1UploadState)
    (recv : Block2RecvState) : Client cfg :=
  { c with slots := c.slots.set i { c.slots i with upload, recv } }

/-- The timeout handler is called if there is one, and `poll` goes on behind it. -/
theorem fireTimeout_eq (c : Client cfg) (call : Call) (ctx : Option Ref) (k : Cont cfg) :
    c.fireTimeout call ctx k = (c.at' k c.onTimeout.isSome,
      (c.onTimeout.map fun h => ClientEvent.timeout call h ctx).toList) := by
  unfold fireTimeout
  cases c.onTimeout <;> rfl

/-- So is the handler of a slot; behind it `poll` closes the slot. -/
theorem fireResponse_eq (c : Client cfg) (i : Fin cfg.maxTransactions) (res : ClientResponse)
    (fragmented : Bool) :
    c.fireResponse i res fragmented =
      (c.at' (.close i fragmented (c.slots i).pending.call) (c.slots i).pending.onResponse.isSome,
        ((c.slots i).pending.onResponse.map fun h =>
          ClientEvent.response (c.slots i).pending.call h res
            (c.slots i).pending.userContext).toList) := by
  simp only [fireResponse]
  cases (c.slots i).pending.onResponse <;> rfl

/-- The upload state once a final response is there. -/
def uploadDone (up : Block1UploadState) : Block1UploadState := { up with active := false }

theorem setBlocks_self (c : Client cfg) (i : Fin cfg.maxTransactions) :
    c.setBlocks i (c.slots i).upload (c.slots i).recv = c := by
  simp only [setBlocks]
  rw [show ({ c.slots i with upload := (c.slots i).upload, recv := (c.slots i).recv } :
    ClientSlot) = c.slots i from rfl, Table.set_eq_self]

/-- A fragment goes into the receive state; the last one is delivered. -/
theorem dispatchPending_fragment {c : Client cfg} {i : Fin cfg.maxTransactions} {sender : Endpoint}
    {msg : Message} (hb : cfg.enableBlockwise = true)
    (hcont : ¬ (msg.code = Code.«continue» ∧ (c.slots i).upload.active = true)) {b2 : BlockOption}
    (h2 : block2Of msg = some b2) :
    c.dispatchPending i sender msg =
      let recv := recvBlock cfg (c.slots i).recv b2 sender msg
      let c' := c.setBlocks i (uploadDone (c.slots i).upload) recv
      if b2.m then (c'.at' (.block2 i) false, [])
      else c'.fireResponse i
        { code := msg.code, payload := recv.buffer, contentFormat := recv.contentFormat } true := by
  unfold dispatchPending
  rw [if_pos hb, if_neg hcont, h2]
  simp only [handleBlock2, setUpload, setRecv, Table.set_self, Table.set_set]
  rfl

/-- Any other response is delivered as it is. -/
theorem dispatchPending_plain {c : Client cfg} {i : Fin cfg.maxTransactions} {sender : Endpoint}
    {msg : Message} (hb : cfg.enableBlockwise = true)
    (hcont : ¬ (msg.code = Code.«continue» ∧ (c.slots i).upload.active = true))
    (h2 : block2Of msg = none) :
    c.dispatchPending i sender msg =
      (c.setBlocks i (uploadDone (c.slots i).upload) (c.slots i).recv).handlePlain i msg := by
  unfold dispatchPending
  rw [if_pos hb, if_neg hcont, h2]
  rfl

/-- Where the pending dispatch leads: to the next block of an upload, to the
request of a further block, or to `onResponse`. Only block states change. -/
theorem dispatchPending_cases (c : Client cfg) (i : Fin cfg.maxTransactions) (sender : Endpoint)
    (msg : Message) :
    ∃ up recv, (up.active = true → (c.slots i).upload.active = true) ∧
      up.token = (c.slots i).upload.token ∧
      ((cfg.enableBlockwise = true ∧ up.active = true ∧ c.dispatchPending i sender msg =
          ((c.setBlocks i up recv).at' (.block1 i) false, [])) ∨
        (cfg.enableBlockwise = true ∧ c.dispatchPending i sender msg =
          ((c.setBlocks i up recv).at' (.block2 i) false, [])) ∨
        ∃ res fragmented, c.dispatchPending i sender msg =
          (c.setBlocks i up recv).fireResponse i res fragmented) := by
  by_cases hb : cfg.enableBlockwise = true
  · -- a Continue during an upload asks for its next block
    by_cases hcont : msg.code = Code.«continue» ∧ (c.slots i).upload.active = true
    · refine ⟨{ (c.slots i).upload with
          nextNum := (c.slots i).upload.nextNum + 1, waitingForContinue := false },
        (c.slots i).recv, id, rfl, .inl ⟨hb, hcont.2, ?_⟩⟩
      rw [dispatchPending, if_pos hb, if_pos hcont]
      rfl
    · cases h2 : block2Of msg with
      | none =>
        -- a response without Block2 ends the upload and is the answer
        refine ⟨uploadDone (c.slots i).upload, (c.slots i).recv, ?_, rfl, .inr (.inr ⟨_, _,
          dispatchPending_plain hb hcont h2⟩)⟩
        exact fun h => by cases h
      | some b2 =>
        refine ⟨uploadDone (c.slots i).upload, recvBlock cfg (c.slots i).recv b2 sender msg, ?_,
          rfl, .inr ?_⟩
        · exact fun h => by cases h
        rw [dispatchPending_fragment hb hcont h2]
        -- a fragment with more to come asks for the next one
        by_cases hm : b2.m = true
        · exact .inl ⟨hb, if_pos hm⟩
        · exact .inr ⟨_, _, if_neg hm⟩
  · refine ⟨(c.slots i).upload, (c.slots i).recv, id, rfl,
      .inr (.inr ⟨{ code := msg.code, payload := msg.payloadBytes
                    contentFormat := responseFormat msg }, false, ?_⟩)⟩
    rw [setBlocks_self, dispatchPending, if_neg hb]
    rfl

/-- Where a response goes: to the discover slot or to the pending slot that
carries its token, in this order, or nowhere. -/
theorem dispatchResponse_cases (c : Client cfg) (sender : Endpoint) (msg : Message) :
    (∃ i, c.findDiscover msg.token = some i ∧ c.dispatchResponse sender msg =
        (c.at' .expire (c.discovers i).onDiscover.isSome,
          ((c.discovers i).onDiscover.map fun h => ClientEvent.discovered h sender
            msg.payloadBytes (c.discovers i).userContext).toList)) ∨
      (∃ i, c.findDiscover msg.token = none ∧ c.findPendingByToken msg.token = some i ∧
        c.dispatchResponse sender msg = c.dispatchPending i sender msg) ∨
      (c.findDiscover msg.token = none ∧ c.findPendingByToken msg.token = none ∧
        c.dispatchResponse sender msg = (c.at' .expire false, [])) := by
  unfold dispatchResponse
  cases hd : c.findDiscover msg.token with
  | some i =>
    refine .inl ⟨i, rfl, ?_⟩
    simp only
    cases (c.discovers i).onDiscover <;> rfl
  | none =>
    refine .inr ?_
    cases hp : c.findPendingByToken msg.token with
    | some i => exact .inl ⟨i, rfl, rfl, rfl⟩
    | none => exact .inr ⟨rfl, rfl, rfl⟩

/-- The pool after `complete`. -/
def completed (c : Client cfg) (remote : Endpoint) (messageId : UInt16) : Client cfg :=
  { c with transactions := (c.transactions.complete remote messageId).1 }

/-- A Reset ends the transaction it names and the request whose token that
transaction carries. -/
theorem handleReset_cases (c : Client cfg) (sender : Endpoint) (messageId : UInt16) :
    (c.handleReset sender messageId = ((c.completed sender messageId).at' .ret false, [])) ∨
      ∃ t i, c.transactions.find? (TransactionPool.matchesId sender messageId) = some t ∧
        c.findPendingByToken (c.transactions t).token = some i ∧
        c.handleReset sender messageId =
          ((c.completed sender messageId).release i).fireTimeout (c.transactions t).owner
            (c.slots i).pending.userContext .ret := by
  have hsame : ∀ token, findPendingByToken { c with
      transactions := (c.transactions.complete sender messageId).1 } token =
      c.findPendingByToken token := fun _ => rfl
  cases ht : c.transactions.find? (TransactionPool.matchesId sender messageId) with
  | none =>
    have htok : c.transactions.getToken sender messageId = none := by
      rw [TransactionPool.getToken, ht]
      rfl
    refine .inl ?_
    simp only [handleReset, htok]
    rfl
  | some t =>
    have htok : c.transactions.getToken sender messageId = some (c.transactions t).token := by
      rw [TransactionPool.getToken, ht]
      rfl
    have howner : c.ownerOf sender messageId = (c.transactions t).owner := by
      rw [ownerOf, ht]
      rfl
    simp only [handleReset, htok, howner, Option.getD_some, hsame]
    -- a Reset to a transaction without a token frees no slot
    by_cases hlen : (c.transactions t).token.length > 0
    · simp only [hlen, if_true]
      cases hp : c.findPendingByToken (c.transactions t).token with
      | none => exact .inl rfl
      | some i => exact .inr ⟨t, i, rfl, hp, rfl⟩
    · simp only [hlen, if_false]
      exact .inl rfl

/-- A decoded message is a Reset, or it completes what it acknowledges and is
dispatched when it carries a response. -/
theorem handleMessage_cases (c : Client cfg) (sender : Endpoint) (msg : Message) :
    (msg.type = .reset ∧ c.handleMessage sender msg = c.handleReset sender msg.messageId) ∨
      ∃ c', (c' = c ∨ c' = c.completed sender msg.messageId) ∧
        (c.handleMessage sender msg = (c'.at' (.dispatch sender msg) false, []) ∨
          c.handleMessage sender msg = (c'.at' .expire false, [])) := by
  by_cases hr : msg.type = .reset
  · exact .inl ⟨hr, if_pos hr⟩
  refine .inr ?_
  simp only [handleMessage, hr, if_false]
  by_cases ha : msg.type = .acknowledgement
  · refine ⟨c.completed sender msg.messageId, .inr rfl, ?_⟩
    simp only [ha, if_true]
    split
    · exact .inl rfl
    · exact .inr rfl
  · refine ⟨c, .inl rfl, ?_⟩
    simp only [ha, if_false]
    split
    · exact .inl rfl
    · exact .inr rfl

/-- The client with the clock `poll` was given. -/
def atTime (c : Client cfg) (nowMs : UInt32) : Client cfg := { c with lastNowMs := nowMs }

/-- A poll goes straight to the discoveries, or has a message to look at. -/
theorem poll_cases (c : Client cfg) (nowMs : UInt32) (rx : Option (Endpoint × Bytes)) :
    c.poll nowMs rx = ((c.atTime nowMs).at' .expire false, []) ∨
      ∃ sender data msg, rx = some (sender, data) ∧ Message.decode cfg data = (.none, msg) ∧
        c.poll nowMs rx = (c.atTime nowMs).handleMessage sender msg := by
  simp only [poll]
  cases rx with
  | none => exact .inl rfl
  | some r =>
    obtain ⟨sender, data⟩ := r
    simp only
    by_cases hlen : data.length > 0
    · rw [if_pos hlen]
      rcases hd : Message.decode cfg data with ⟨e, msg⟩
      cases e with
      | none => exact .inr ⟨sender, data, msg, rfl, hd, rfl⟩
      | _ => exact .inl rfl
    · rw [if_neg hlen]
      exact .inl rfl

/-- A datagram that decodes is handled as its message. -/
theorem poll_message (c : Client cfg) (nowMs : UInt32) (sender : Endpoint) {data : Bytes}
    {msg : Message} (hdec : Message.decode cfg data = (.none, msg)) :
    c.poll nowMs (some (sender, data)) = (c.atTime nowMs).handleMessage sender msg := by
  unfold poll
  dsimp only
  rw [if_pos (Message.decode_length hdec), hdec]
  rfl

/-- Any message but an RST: an ACK completes its transaction first, and a response
is dispatched. -/
theorem handleMessage_other (c : Client cfg) (sender : Endpoint) {msg : Message}
    (hrst : msg.type ≠ .reset) :
    ∃ c' : Client cfg, c'.slots = c.slots ∧ c'.discovers = c.discovers ∧
      c.handleMessage sender msg =
        if msg.code ≠ Code.empty ∧ !isMethodCode msg.code then
          (c'.goto (.dispatch sender msg), [])
        else (c'.goto .expire, []) := by
  unfold handleMessage
  rw [if_neg hrst]
  by_cases hack : msg.type = .acknowledgement
  · exact ⟨c.completed sender msg.messageId, rfl, rfl, by rw [if_pos hack]; rfl⟩
  · exact ⟨c, rfl, rfl, by rw [if_neg hack]⟩

/-- `sendBlock1` after a Continue: the upload goes on, or the call ends. -/
theorem continueUpload_cases (c : Client cfg) (i : Fin cfg.maxTransactions) (sendOk : Bool) :
    (c.block1Datagram (c.slots i).upload sendOk = none ∧
        ∃ id, c.continueUpload i sendOk =
          ((c.withId id).abandon i).fireTimeout (c.slots i).pending.call
            (c.slots i).pending.userContext .expire) ∨
      (∃ buf, c.block1Datagram (c.slots i).upload sendOk = some buf ∧
        c.continueUpload i sendOk =
          ((c.block1Sent i buf).at' .expire false, [.sent (c.slots i).upload.server buf])) := by
  unfold continueUpload
  rcases sendBlock1_cases c i sendOk with ⟨hd, id, heq⟩ | ⟨buf, hd, heq⟩
  · refine .inl ⟨hd, id, ?_⟩
    rw [heq]
    rfl
  · refine .inr ⟨buf, hd, ?_⟩
    rw [heq]
    rfl

/-- After a request with more blocks to come. -/
theorem resumeBlock2_cases (c : Client cfg) (i : Fin cfg.maxTransactions) (sendOk : Bool) :
    (c.block2Datagram i sendOk = none ∧ c.resume (.block2 i) sendOk =
        ((c.withId (c.nextMessageId + 1)).at' .expire false, [])) ∨
      (∃ buf, c.block2Datagram i sendOk = some buf ∧ c.resume (.block2 i) sendOk =
        ((c.block2Sent i buf).at' .expire false, [.sent (c.slots i).recv.server buf])) := by
  simp only [resume]
  rcases sendBlock2_cases c i sendOk with ⟨hd, heq⟩ | ⟨buf, hd, heq⟩
  · refine .inl ⟨hd, ?_⟩
    rw [heq]
    rfl
  · refine .inr ⟨buf, hd, ?_⟩
    rw [heq]
    rfl

/-- What `close` leaves in the slot. -/
def closedSlot (s : ClientSlot) (fragmented : Bool) : ClientSlot :=
  { s with
    pending := if s.pending.observing then s.pending else { s.pending with active := false }
    recv := if fragmented then { s.recv with active := false } else s.recv }

/-- What is left of a slot when its handler has returned. -/
theorem close_eq (c : Client cfg) (i : Fin cfg.maxTransactions) (fragmented : Bool) :
    c.close i fragmented = { c with slots := c.slots.set i (closedSlot (c.slots i) fragmented) } := by
  have hself : c.slots.set i (c.slots i) = c.slots := Table.set_eq_self ..
  simp only [close, closedSlot]
  cases fragmented <;> cases ho : (c.slots i).pending.observing <;>
    simp [setRecv, release, setPending, ho]

/-- Writing a slot of the pool. -/
def setTransaction (c : Client cfg) (i : Fin cfg.maxTransactions) (t : Transaction) : Client cfg :=
  { c with transactions := c.transactions.set i t }

/-- The client after a retransmission of slot `i`. -/
def resent (c : Client cfg) (i : Fin cfg.maxTransactions) : Client cfg :=
  c.setTransaction i { c.transactions i with
    retriesSent := (c.transactions i).retriesSent + 1
    currentTimeoutMs := (c.transactions i).currentTimeoutMs * 2
    nextRetryAtMs := c.lastNowMs + (c.transactions i).currentTimeoutMs * 2 }

/-- The client with slot `i` of the pool free. -/
def freed (c : Client cfg) (i : Fin cfg.maxTransactions) : Client cfg :=
  c.setTransaction i { c.transactions i with state := .free }

/-- One pass of the scan in the client: nothing, a resend, or a timeout. -/
theorem tickAt_cases (c : Client cfg) (i : Fin cfg.maxTransactions) (sendOk : Bool) :
    ((TransactionPool.Awaiting (c.transactions i) →
          TransactionPool.notDue c.lastNowMs (c.transactions i) = true) ∧
        c.tickAt i sendOk = (c.at' (.tick (i + 1)) false, [])) ∨
      (TransactionPool.Awaiting (c.transactions i) ∧
        TransactionPool.notDue c.lastNowMs (c.transactions i) = false ∧
        (c.transactions i).retriesSent < cfg.maxRetransmit ∧
        c.tickAt i sendOk =
          ((c.resent i).at' (.tick (i + 1)) false,
            if sendOk then [.sent (c.transactions i).remote (c.transactions i).message] else [])) ∨
      (TransactionPool.Awaiting (c.transactions i) ∧
        TransactionPool.notDue c.lastNowMs (c.transactions i) = false ∧
        ¬ (c.transactions i).retriesSent < cfg.maxRetransmit ∧
        c.tickAt i sendOk =
          (c.freed i).timeoutTrampoline (c.transactions i).token (c.transactions i).owner
            (.tick (i + 1))) := by
  -- the three outcomes of `tickSlot`, and what `poll` makes of each
  simp only [tickAt]
  rcases TransactionPool.tickSlot_cases cfg c.lastNowMs (c.transactions i) with
    ⟨ht, hnd⟩ | ⟨ha, hd, hr, ht⟩ | ⟨ha, hd, hr, ht⟩
  · refine .inl ⟨hnd, ?_⟩
    rw [ht, Table.set_eq_self]
    rfl
  · refine .inr (.inl ⟨ha, hd, hr, ?_⟩)
    rw [ht]
    rfl
  · refine .inr (.inr ⟨ha, hd, hr, ?_⟩)
    rw [ht]
    rfl

/-- The loop condition of the scan. -/
theorem resume_tick (c : Client cfg) (index : Nat) (sendOk : Bool) :
    c.resume (.tick index) sendOk =
      if h : index < cfg.maxTransactions then c.tickAt ⟨index, h⟩ sendOk
      else ({ c with control := .idle }, []) := rfl

/-- The timeout trampoline frees the slot it reports, if there is one. -/
theorem timeoutTrampoline_cases (c : Client cfg) (token : Bytes) (owner : Call) (k : Cont cfg) :
    (∃ i, c.findPendingByToken token = some i ∧ c.timeoutTrampoline token owner k =
        (c.release i).fireTimeout owner (c.slots i).pending.userContext k) ∨
      (c.findPendingByToken token = none ∧
        c.timeoutTrampoline token owner k = c.fireTimeout owner none k) := by
  unfold timeoutTrampoline
  cases hp : c.findPendingByToken token with
  | some i => exact .inl ⟨i, rfl, rfl⟩
  | none => exact .inr ⟨rfl, rfl⟩

/-- What one pass does to the pool, the clock and the control. -/
theorem tickAt_pool (c : Client cfg) (i : Fin cfg.maxTransactions) (sendOk : Bool) :
    (∃ b, (c.tickAt i sendOk).1.control = .polling (.tick (i + 1)) b) ∧
      (c.tickAt i sendOk).1.lastNowMs = c.lastNowMs ∧
      (c.tickAt i sendOk).1.transactions =
        c.transactions.set i (TransactionPool.tickSlot cfg c.lastNowMs (c.transactions i)).1 ∧
      (c.tickAt i sendOk).1.discovers = c.discovers := by
  rcases ht : TransactionPool.tickSlot cfg c.lastNowMs (c.transactions i) with ⟨t, e⟩
  simp only [tickAt, ht]
  rcases e with _ | ⟨remote, message⟩ | ⟨remote, token⟩
  · exact ⟨⟨_, rfl⟩, rfl, rfl, rfl⟩
  · exact ⟨⟨_, rfl⟩, rfl, rfl, rfl⟩
  · simp only
    rcases timeoutTrampoline_cases { c with transactions := c.transactions.set i t } token
      (c.transactions i).owner (.tick (i + 1)) with ⟨j, -, heq⟩ | ⟨-, heq⟩
    · rw [heq, fireTimeout_eq]
      exact ⟨⟨_, rfl⟩, rfl, rfl, rfl⟩
    · rw [heq, fireTimeout_eq]
      exact ⟨⟨_, rfl⟩, rfl, rfl, rfl⟩

/-! ## Steps -/

/-- **What a step can be**: nothing, when the action does not fit the place where the client
stands; a call; the start of a poll; or its next segment. -/
theorem step_cases (c : Client cfg) (a : Action) :
    c.step a = (c, []) ∨
      (∃ call sendOk, a = .call call sendOk ∧ c.appHasControl = true ∧
        c.step a = ((c.call sendOk call).1, (c.call sendOk call).2.2)) ∨
      (∃ nowMs rx, a = .poll nowMs rx ∧ c.control = .idle ∧ c.step a = c.poll nowMs rx) ∨
      (∃ sendOk k inCallback, a = .resume sendOk ∧ c.control = .polling k inCallback ∧
        c.step a = c.resume k sendOk) := by
  cases a with
  | call call sendOk =>
    by_cases happ : c.appHasControl = true
    · exact .inr (.inl ⟨call, sendOk, rfl, happ, if_pos happ⟩)
    · exact .inl (if_neg happ)
  | poll nowMs rx =>
    cases hc : c.control with
    | idle => exact .inr (.inr (.inl ⟨nowMs, rx, rfl, rfl, by simp only [step, hc]⟩))
    | polling => exact .inl (by simp only [step, hc])
  | resume sendOk =>
    cases hc : c.control with
    | idle => exact .inl (by simp only [step, hc])
    | polling k b => exact .inr (.inr (.inr ⟨sendOk, k, b, rfl, rfl, by simp only [step, hc]⟩))

/-- A `resume` runs the segment the client stands at. -/
theorem step_resume {c : Client cfg} {k : Cont cfg} {inCallback : Bool}
    (hc : c.control = .polling k inCallback) (sendOk : Bool) :
    c.step (.resume sendOk) = c.resume k sendOk := by
  simp only [step, hc]

/-- Outside `poll` there is nothing to resume. -/
theorem step_resume_idle {c : Client cfg} (hc : c.control = .idle) (sendOk : Bool) :
    c.step (.resume sendOk) = (c, []) := by
  simp only [step, hc]

end Client

end PulseCoap
