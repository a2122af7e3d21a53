import PulseCoap.Clock.Pool
import PulseCoap.Client.Spec

/-!
# PulseCoAP — a client under a shifted clock

Two clients that have been told times that differ by `d` differ in nothing but
`lastNowMs_`, the deadlines of their transactions and the times their discover
slots were opened, and these by `d`. Whatever happens to both alike, they stay
so and do the same.

A clock that has wrapped is one that has been shifted, so "nothing happens when
the clock wraps" is a statement about two runs. The relation leaves out what is
never read: the deadline of a free slot and the opening time of a discovery that
is closed.

* `Shifted` — the relation; `Shifted.map` for what touches no time.
* `Shifted.call`, `Shifted.poll`, `Shifted.resume` — the segments of the code.
* `Shifted.step` — one step.
* `observedMachine` — all that a run shows, the results of the calls included.
-/

namespace PulseCoap.Client

open TransactionPool

variable {cfg : Config} {d : UInt32} {c c' : Client cfg}

/-- A client that has been told other times: the last one, the deadlines in its pool and the
times at which discoveries were made. -/
def withClock (c : Client cfg) (nowMs : UInt32) (pool : TransactionPool cfg)
    (discovers : Table cfg.maxDiscovers DiscoverSlot) : Client cfg :=
  { c with lastNowMs := nowMs, transactions := pool, discovers }

/-- The same discover slot opened at a shifted time, where it is open. In a free slot the time
is not read, and may be any. -/
def SlotShift (d : UInt32) (s s' : DiscoverSlot) : Prop :=
  ∃ time, s' = { s with issuedAt := time } ∧ (s.active = true → time = s.issuedAt + d)

/-- The same client under a clock shifted by `d`. The pending slots hold no time, so they are
equal. -/
inductive Shifted (d : UInt32) (c c' : Client cfg) : Prop where
  | mk (pool : TransactionPool cfg) (discovers : Table cfg.maxDiscovers DiscoverSlot)
      (eq : c' = c.withClock (c.lastNowMs + d) pool discovers)
      (pools : PoolShift d c.transactions pool)
      (slots : ∀ i, SlotShift d (c.discovers i) (discovers i))

/-- Two results: the clients are shifted, and all else is the same. -/
def Same {α : Type} (d : UInt32) (r r' : Client cfg × α) : Prop := Shifted d r.1 r'.1 ∧ r'.2 = r.2

/-- What neither reads nor writes a time does the same on both sides, and so keeps the two
clients shifted. -/
theorem Shifted.map (h : Shifted d c c') {f : Client cfg → Client cfg}
    (hf : ∀ c now pool ds, f (withClock c now pool ds) = (f c).withClock now pool ds) :
    Shifted d (f c) (f c') := by
  obtain ⟨pool, ds, rfl, hpool, hds⟩ := h
  have hown : f c = (f c).withClock c.lastNowMs c.transactions c.discovers := hf c _ _ _
  have hnow : (f c).lastNowMs = c.lastNowMs := by rw [hown]; rfl
  have htx : (f c).transactions = c.transactions := by rw [hown]; rfl
  have hdisc : (f c).discovers = c.discovers := by rw [hown]; rfl
  refine ⟨pool, ds, ?_, ?_, ?_⟩
  · rw [hf, hnow]
  · rw [htx]
    exact hpool
  · rw [hdisc]
    exact hds

/-- The same with a result, which is then equal: what is returned and what is sent. -/
theorem Shifted.run {α : Type} (h : Shifted d c c') {f : Client cfg → Client cfg × α}
    (hf : ∀ c now pool ds, f (withClock c now pool ds) = ((f c).1.withClock now pool ds, (f c).2)) :
    Same d (f c) (f c') := by
  refine ⟨h.map (f := fun c => (f c).1) fun c now pool ds => by rw [hf], ?_⟩
  obtain ⟨pool, ds, rfl, -, -⟩ := h
  rw [hf]

/-! ## Calls -/

/-- A transaction begins later by the same amount. -/
theorem Shifted.start (h : Shifted d c c') (remote : Endpoint) (messageId : UInt16)
    (token message : Bytes) (owner : Call) :
    Shifted d (c.startTransaction remote messageId token message owner)
      (c'.startTransaction remote messageId token message owner) := by
  obtain ⟨pool, ds, rfl, hpool, hds⟩ := h
  exact ⟨_, ds, rfl, hpool.start remote messageId token message c.lastNowMs owner, hds⟩

/-- What the two clients have in common: the fields that a request is built from and the place
in `poll`. -/
theorem Shifted.shared (h : Shifted d c c') :
    c'.slots = c.slots ∧ c'.nextMessageId = c.nextMessageId ∧
      c'.nextTokenByte = c.nextTokenByte ∧ c'.calls = c.calls ∧ c'.control = c.control := by
  obtain ⟨pool, ds, rfl, -, -⟩ := h
  exact ⟨rfl, rfl, rfl, rfl, rfl⟩

/-- The client after a request went out in `buf`. Only the transaction has a deadline. -/
def requested (c : Client cfg) (i : Fin cfg.maxTransactions) (a : RequestArgs) (buf : Bytes) :
    Client cfg :=
  { c with
    slots := c.slots.set i (requestSlot cfg (c.slots i) a c.nextTokenByte (a.call c.calls))
    transactions :=
      if a.confirmable then
        (c.transactions.start a.server c.nextMessageId [c.nextTokenByte] buf c.lastNowMs
          (a.call c.calls)).1
      else c.transactions
    nextTokenByte := c.nextTokenByte + 1
    nextMessageId := c.nextMessageId + 1
    calls := c.calls + 1 }

/-- The client after a request that did not go out. The token and the message ID are drawn all
the same. -/
def unsent (c : Client cfg) (i : Fin cfg.maxTransactions) : Client cfg :=
  { c with
    slots := c.slots.set i { c.slots i with pending := {} }
    nextTokenByte := c.nextTokenByte + 1
    nextMessageId := c.nextMessageId + 1 }

/-- `sendRequest` in one equation: no slot, no datagram, or a request that is sent. -/
theorem sendRequest_eq (c : Client cfg) (a : RequestArgs) (sendOk : Bool) :
    c.sendRequest a sendOk =
      match c.freeSlot with
      | none => (c, false, [])
      | some i =>
        match c.requestDatagram a sendOk with
        | none => (c.unsent i, false, [])
        | some buf =>
          (c.requested i a buf, true, [.sent a.server buf, .accepted (a.call c.calls)]) := by
  rcases c.sendRequest_cases a sendOk with ⟨hf, h⟩ | ⟨i, hf, hd, h⟩ | ⟨i, buf, hf, hd, h⟩
  · rw [h, hf]
  · rw [h, hf, hd]
    rfl
  · rw [h, hf, hd]
    rfl

/-- An accepted request: the slot does not hold the time, its transaction does. -/
theorem Shifted.requested (h : Shifted d c c') (i : Fin cfg.maxTransactions) (a : RequestArgs)
    (buf : Bytes) : Shifted d (c.requested i a buf) (c'.requested i a buf) := by
  obtain ⟨pool, ds, rfl, hpool, hds⟩ := h
  refine ⟨_, ds, rfl, ?_, hds⟩
  show PoolShift d (if a.confirmable = true then _ else _) (if a.confirmable = true then _ else _)
  split
  · exact hpool.start a.server c.nextMessageId [c.nextTokenByte] buf c.lastNowMs (a.call c.calls)
  · exact hpool

/-- A request of one datagram. Whether there is a slot and whether it encodes does not depend on
the time. -/
theorem Shifted.sendRequest (h : Shifted d c c') (a : RequestArgs) (sendOk : Bool) :
    Same d (c.sendRequest a sendOk) (c'.sendRequest a sendOk) := by
  obtain ⟨hslots, hid, htoken, hcalls, -⟩ := h.shared
  have hfree : c'.freeSlot = c.freeSlot := by rw [freeSlot, hslots]; rfl
  have hdat : c'.requestDatagram a sendOk = c.requestDatagram a sendOk := by
    rw [requestDatagram, hid, htoken]
    rfl
  rw [sendRequest_eq, sendRequest_eq, hfree, hdat, hcalls]
  cases c.freeSlot with
  | none => exact ⟨h, rfl⟩
  | some i =>
    cases c.requestDatagram a sendOk with
    | none => exact ⟨h.map (f := fun c => c.unsent i) fun _ _ _ _ => rfl, rfl⟩
    | some buf => exact ⟨h.requested i a buf, rfl⟩

theorem Shifted.sendBlock1 (h : Shifted d c c') (i : Fin cfg.maxTransactions) (sendOk : Bool) :
    Same d (c.sendBlock1 i sendOk) (c'.sendBlock1 i sendOk) := by
  obtain ⟨hslots, hid, -⟩ := h.shared
  unfold Client.sendBlock1
  rw [hslots, hid]
  dsimp only
  split
  · exact ⟨h, rfl⟩
  · cases transmit cfg (buildBlock1 cfg (c.slots i).upload c.nextMessageId) sendOk with
    | none => exact ⟨h.map (f := fun c => c.drawMessageId) fun _ _ _ _ => rfl, rfl⟩
    | some buf =>
      have hdraw := h.map (f := fun c => c.drawMessageId) fun _ _ _ _ => rfl
      have hcall : (c'.drawMessageId.slots i).pending.call =
          (c.drawMessageId.slots i).pending.call := by
        obtain ⟨hs, -⟩ := hdraw.shared
        rw [hs]
      dsimp only
      rw [hcall]
      exact ⟨(hdraw.start ..).map (f := fun c => c.setUpload i _) fun _ _ _ _ => rfl, rfl⟩

/-- The request for a further block. -/
theorem Shifted.sendBlock2Request (h : Shifted d c c') (i : Fin cfg.maxTransactions)
    (sendOk : Bool) : Same d (c.sendBlock2Request i sendOk) (c'.sendBlock2Request i sendOk) := by
  obtain ⟨hslots, hid, -⟩ := h.shared
  have hdraw := h.map (f := fun c => c.drawMessageId) fun _ _ _ _ => rfl
  unfold Client.sendBlock2Request
  rw [hslots, hid]
  dsimp only
  cases transmit cfg (buildBlock2 cfg (c.slots i).recv (c.slots i).pending.token
      c.nextMessageId) sendOk with
  | none => exact ⟨hdraw, rfl⟩
  | some buf => exact ⟨hdraw.start .., rfl⟩

/-- The first block of an upload, which is built and tracked like a request. -/
theorem Shifted.startUpload (h : Shifted d c c') (a : RequestArgs) (sendOk : Bool) :
    Same d (c.startUpload a sendOk) (c'.startUpload a sendOk) := by
  obtain ⟨hslots, hid, htoken, hcalls, -⟩ := h.shared
  have hfree : c'.freeSlot = c.freeSlot := by rw [freeSlot, hslots]; rfl
  cases hf : c.freeSlot with
  | none =>
    unfold Client.startUpload Client.allocatePending
    rw [hfree, hf]
    exact ⟨h, rfl⟩
  | some i =>
    by_cases hp : a.path.length ≥ cfg.maxUriPathLen
    · unfold Client.startUpload Client.allocatePending
      rw [hfree, hf]
      simp only [Option.map_some, hp, if_true]
      exact ⟨h.map (f := fun c => (abandon { (c.setPending i { active := true }).drawToken with
        slots := (c.setPending i { active := true }).slots.set i (uploadSlot cfg
          ((c.setPending i { active := true }).slots i) a c.nextTokenByte (a.call c.calls)) } i))
        fun _ _ _ _ => rfl, rfl⟩
    · rw [startUpload_short hf hp, startUpload_short (hfree.trans hf) hp, hcalls]
      obtain ⟨hshift, hout⟩ :=
        (h.map (f := fun c => c.uploading i a) fun _ _ _ _ => rfl).sendBlock1 i sendOk
      dsimp only
      rw [hout]
      split
      · exact ⟨hshift.map (f := fun b => { b with calls := c.calls + 1 }) fun _ _ _ _ => rfl, rfl⟩
      · exact ⟨hshift.map (f := fun b => b.abandon i) fun _ _ _ _ => rfl, rfl⟩

/-- A request, in one datagram or in blocks. -/
theorem Shifted.issue (h : Shifted d c c') (a : RequestArgs) (sendOk : Bool) :
    Same d (c.issue a sendOk) (c'.issue a sendOk) := by
  unfold Client.issue
  split
  · exact h.startUpload a sendOk
  · exact h.sendRequest a sendOk

/-- A discovery notes the time it was made, so its deadline moves along. -/
theorem Shifted.discover (h : Shifted d c c') (ep : Endpoint) (onDiscover userContext : Option Ref)
    (sendOk : Bool) :
    Same d (c.discover ep onDiscover userContext sendOk)
      (c'.discover ep onDiscover userContext sendOk) := by
  obtain ⟨pool, ds, rfl, hpool, hds⟩ := h
  -- a shift keeps `active`, so the same slot is found
  have hfind : ds.find? (fun s => !s.active) = c.discovers.find? fun s => !s.active := by
    refine Table.find?_congr fun i => ?_
    obtain ⟨time, heq, -⟩ := hds i
    rw [heq]
  have hdraw : Shifted d c.drawToken.drawMessageId
      (c.withClock (c.lastNowMs + d) pool ds).drawToken.drawMessageId :=
    ⟨pool, ds, rfl, hpool, hds⟩
  unfold Client.discover
  rw [show (c.withClock (c.lastNowMs + d) pool ds).discovers.find? (fun s => !s.active) = _
    from hfind]
  cases c.discovers.find? fun s => !s.active with
  | none => exact ⟨⟨pool, ds, rfl, hpool, hds⟩, rfl⟩
  | some i =>
    dsimp only [withClock]
    cases transmit cfg (buildRequest cfg .nonConfirmable c.nextMessageId [c.nextTokenByte]
        Code.get none Uri.wellKnownCore [] .textPlain) sendOk with
    | none => exact ⟨hdraw, rfl⟩
    | some buf =>
      have hset : ∀ s s', SlotShift d s s' →
          ∀ j, SlotShift d (c.discovers.set i s j) (ds.set i s' j) := by
        intro s s' hs j
        by_cases hji : j = i
        · rw [hji, Table.set_self, Table.set_self]
          exact hs
        · rw [Table.set_ne _ _ hji, Table.set_ne _ _ hji]
          exact hds j
      exact ⟨⟨pool, _, rfl, hpool, hset _ _ ⟨c.lastNowMs + d, rfl, fun _ => rfl⟩⟩, rfl⟩

/-- **A call of the API** returns and sends the same at the later time. What it stores of the
time, a deadline or the time of a discovery, is later by the same amount. -/
theorem Shifted.call (h : Shifted d c c') (sendOk : Bool) (call : ClientCall) :
    Same d (c.call sendOk call) (c'.call sendOk call) := by
  obtain ⟨hslots, -⟩ := h.shared
  rw [call_eq, call_eq]
  cases call.shape with
  | issue a => exact h.issue a sendOk
  | cancel server path =>
    have hfind : c'.findObserve server path = c.findObserve server path := by
      rw [findObserve, hslots]
      rfl
    dsimp only
    rw [hfind, hslots]
    cases c.findObserve server path with
    | none => exact ⟨h, rfl⟩
    | some i =>
      exact (h.map (f := fun c => c.release i) fun _ _ _ _ => rfl).issue _ sendOk
  | discover ep onDiscover userContext => exact h.discover ep onDiscover userContext sendOk
  | handler onTimeout =>
    exact ⟨h.map (f := fun c => { c with onTimeout }) fun _ _ _ _ => rfl, rfl⟩

/-! ## The segments of `poll` -/

/-- A timeout callback knows nothing of the clock. -/
theorem fireTimeout_clock (call : Call) (ctx : Option Ref) (k : Cont cfg) (c : Client cfg)
    (now : UInt32) (pool : TransactionPool cfg) (ds : Table cfg.maxDiscovers DiscoverSlot) :
    (c.withClock now pool ds).fireTimeout call ctx k =
      ((c.fireTimeout call ctx k).1.withClock now pool ds, (c.fireTimeout call ctx k).2) := by
  rw [fireTimeout_eq, fireTimeout_eq]
  rfl

/-- Nor does a response callback. -/
theorem fireResponse_clock (i : Fin cfg.maxTransactions) (res : ClientResponse)
    (fragmented : Bool) (c : Client cfg) (now : UInt32) (pool : TransactionPool cfg)
    (ds : Table cfg.maxDiscovers DiscoverSlot) :
    (c.withClock now pool ds).fireResponse i res fragmented =
      ((c.fireResponse i res fragmented).1.withClock now pool ds,
        (c.fireResponse i res fragmented).2) := by
  rw [fireResponse_eq, fireResponse_eq]
  rfl

/-- Nor does a block of a response. -/
theorem handleBlock2_clock (i : Fin cfg.maxTransactions) (b2 : BlockOption) (sender : Endpoint)
    (msg : Message) (c : Client cfg) (now : UInt32) (pool : TransactionPool cfg)
    (ds : Table cfg.maxDiscovers DiscoverSlot) :
    (c.withClock now pool ds).handleBlock2 i b2 sender msg =
      ((c.handleBlock2 i b2 sender msg).1.withClock now pool ds,
        (c.handleBlock2 i b2 sender msg).2) := by
  unfold handleBlock2
  by_cases hm : b2.m = true
  · simp only [hm, if_true]
    rfl
  · simp only [hm, Bool.false_eq_true, if_false]
    exact fireResponse_clock i _ true (c.setRecv i (recvBlock cfg (c.slots i).recv b2 sender msg))
      now pool ds

/-- Nor does the dispatch to a slot. -/
theorem dispatchPending_clock (i : Fin cfg.maxTransactions) (sender : Endpoint) (msg : Message)
    (c : Client cfg) (now : UInt32) (pool : TransactionPool cfg)
    (ds : Table cfg.maxDiscovers DiscoverSlot) :
    (c.withClock now pool ds).dispatchPending i sender msg =
      ((c.dispatchPending i sender msg).1.withClock now pool ds,
        (c.dispatchPending i sender msg).2) := by
  unfold dispatchPending
  by_cases hb : cfg.enableBlockwise = true
  · rw [if_pos hb, if_pos hb]
    by_cases hcont : msg.code = Code.«continue» ∧ (c.slots i).upload.active = true
    · have hcont' : msg.code = Code.«continue» ∧
        ((c.withClock now pool ds).slots i).upload.active = true := hcont
      rw [if_pos hcont, if_pos hcont']
      rfl
    · have hcont' : ¬ (msg.code = Code.«continue» ∧
        ((c.withClock now pool ds).slots i).upload.active = true) := hcont
      rw [if_neg hcont, if_neg hcont']
      dsimp only
      cases block2Of msg with
      | some b2 => exact handleBlock2_clock i b2 sender msg (c.setUpload i _) now pool ds
      | none => exact fireResponse_clock i _ false (c.setUpload i _) now pool ds
  · rw [if_neg hb, if_neg hb]
    exact fireResponse_clock i _ false c now pool ds

theorem Shifted.goto (h : Shifted d c c') (k : Cont cfg) : Shifted d (c.goto k) (c'.goto k) :=
  h.map (f := fun c => c.goto k) fun _ _ _ _ => rfl

/-- The callbacks are the same at both times. -/
theorem Shifted.fireTimeout (h : Shifted d c c') (call : Call) (ctx : Option Ref) (k : Cont cfg) :
    Same d (c.fireTimeout call ctx k) (c'.fireTimeout call ctx k) :=
  h.run (f := fun c => c.fireTimeout call ctx k) (fireTimeout_clock call ctx k)

/-- A slot given back, and the timeout handler, which is told the context of the slot. -/
theorem Shifted.releaseAndFire (h : Shifted d c c') (i : Fin cfg.maxTransactions) (call : Call)
    (k : Cont cfg) :
    Same d ((c.release i).fireTimeout call (c.slots i).pending.userContext k)
      ((c'.release i).fireTimeout call (c'.slots i).pending.userContext k) := by
  obtain ⟨hslots, -⟩ := h.shared
  rw [hslots]
  exact (h.map (f := fun c => c.release i) fun _ _ _ _ => rfl).fireTimeout ..

/-- The slot is found by its token, whatever the time. Nothing of a pending slot depends on the
clock. -/
theorem Shifted.findPending (h : Shifted d c c') (token : Bytes) :
    c'.findPendingByToken token = c.findPendingByToken token := by
  obtain ⟨hslots, -⟩ := h.shared
  rw [findPendingByToken, hslots]
  rfl

/-- The slot of a transaction that has timed out. It is the first one with the token, at both
times the same. -/
theorem Shifted.timeoutTrampoline (h : Shifted d c c') (token : Bytes) (owner : Call)
    (k : Cont cfg) :
    Same d (c.timeoutTrampoline token owner k) (c'.timeoutTrampoline token owner k) := by
  unfold Client.timeoutTrampoline
  rw [h.findPending]
  cases c.findPendingByToken token with
  | some i => exact h.releaseAndFire i owner k
  | none => exact h.fireTimeout owner none k

/-- An ACK frees the same entry of both pools, since remote and message ID are equal in them. -/
theorem Shifted.completed (h : Shifted d c c') (remote : Endpoint) (messageId : UInt16) :
    Shifted d { c with transactions := (c.transactions.complete remote messageId).1 }
      { c' with transactions := (c'.transactions.complete remote messageId).1 } := by
  obtain ⟨pool, ds, rfl, hpool, hds⟩ := h
  exact ⟨_, ds, rfl, hpool.complete remote messageId, hds⟩

/-- An RST ends the same request in both. -/
theorem Shifted.handleReset (h : Shifted d c c') (sender : Endpoint) (messageId : UInt16) :
    Same d (c.handleReset sender messageId) (c'.handleReset sender messageId) := by
  have htoken : c'.transactions.getToken sender messageId =
      c.transactions.getToken sender messageId := by
    obtain ⟨pool, ds, rfl, hpool, -⟩ := h
    exact hpool.getToken sender messageId
  have howner : c'.ownerOf sender messageId = c.ownerOf sender messageId := by
    obtain ⟨pool, ds, rfl, hpool, -⟩ := h
    unfold ownerOf
    rw [show (c.withClock (c.lastNowMs + d) pool ds).transactions.find?
      (matchesId sender messageId) = _ from hpool.matches sender messageId]
    cases c.transactions.find? (matchesId sender messageId) with
    | none => rfl
    | some i =>
      obtain ⟨deadline, heq, -⟩ := hpool i
      have howner : (pool i).owner = (c.transactions i).owner := by rw [heq]
      exact howner
  have hdone := h.completed sender messageId
  unfold Client.handleReset
  rw [htoken, howner]
  dsimp only
  split
  · rw [hdone.findPending]
    split
    · exact hdone.releaseAndFire ..
    · exact ⟨hdone.goto _, rfl⟩
  · exact ⟨hdone.goto _, rfl⟩

theorem Shifted.handleMessage (h : Shifted d c c') (sender : Endpoint) (msg : Message) :
    Same d (c.handleMessage sender msg) (c'.handleMessage sender msg) := by
  have hdone : Shifted d
      (if msg.type = .acknowledgement then
        { c with transactions := (c.transactions.complete sender msg.messageId).1 } else c)
      (if msg.type = .acknowledgement then
        { c' with transactions := (c'.transactions.complete sender msg.messageId).1 } else c') := by
    split
    · exact h.completed sender msg.messageId
    · exact h
  unfold Client.handleMessage
  split
  · exact h.handleReset ..
  · dsimp only
    split
    · exact ⟨hdone.goto _, rfl⟩
    · exact ⟨hdone.goto _, rfl⟩

/-- **A poll** that comes later by the same amount, with the same datagram. The times it stores
are compared by their differences only. -/
theorem Shifted.poll (h : Shifted d c c') (nowMs : UInt32) (rx : Option (Endpoint × Bytes)) :
    Same d (c.poll nowMs rx) (c'.poll (nowMs + d) rx) := by
  have htime : Shifted d { c with lastNowMs := nowMs } { c' with lastNowMs := nowMs + d } := by
    obtain ⟨pool, ds, rfl, hpool, hds⟩ := h
    exact ⟨pool, ds, rfl, hpool, hds⟩
  unfold Client.poll
  dsimp only
  split
  · exact ⟨htime.goto _, rfl⟩
  · split
    · split
      · exact htime.handleMessage ..
      · exact ⟨htime.goto _, rfl⟩
    · exact ⟨htime.goto _, rfl⟩

/-- The dispatch of a response. The discover slots are looked at first, and they are open at
both times or at neither. -/
theorem Shifted.dispatchResponse (h : Shifted d c c') (sender : Endpoint) (msg : Message) :
    Same d (c.dispatchResponse sender msg) (c'.dispatchResponse sender msg) := by
  have hfind : c'.findDiscover msg.token = c.findDiscover msg.token := by
    obtain ⟨pool, ds, rfl, -, hds⟩ := h
    refine Table.find?_congr fun i => ?_
    obtain ⟨time, heq, -⟩ := hds i
    show ((ds i).active && (ds i).token == msg.token) = _
    rw [heq]
  unfold Client.dispatchResponse
  rw [hfind, h.findPending]
  cases c.findDiscover msg.token with
  | some i =>
    have hslot : (c'.discovers i).onDiscover = (c.discovers i).onDiscover ∧
        (c'.discovers i).userContext = (c.discovers i).userContext := by
      obtain ⟨pool, ds, rfl, -, hds⟩ := h
      obtain ⟨time, heq, -⟩ := hds i
      show (ds i).onDiscover = _ ∧ (ds i).userContext = _
      rw [heq]
      exact ⟨rfl, rfl⟩
    dsimp only
    rw [hslot.1, hslot.2]
    split
    · exact ⟨h.map (f := fun c => c.callback .expire) fun _ _ _ _ => rfl, rfl⟩
    · exact ⟨h.goto _, rfl⟩
  | none =>
    cases c.findPendingByToken msg.token with
    | some i =>
      exact h.run (f := fun c => c.dispatchPending i sender msg) (dispatchPending_clock i sender msg)
    | none => exact ⟨h.goto _, rfl⟩

/-- The next block of an upload is sent, or the slot is given up. -/
theorem Shifted.continueUpload (h : Shifted d c c') (i : Fin cfg.maxTransactions) (sendOk : Bool) :
    Same d (c.continueUpload i sendOk) (c'.continueUpload i sendOk) := by
  obtain ⟨hsent, hout⟩ := h.sendBlock1 i sendOk
  unfold Client.continueUpload
  dsimp only
  rw [hout]
  split
  · exact ⟨hsent.goto _, rfl⟩
  · obtain ⟨hslots, -⟩ := hsent.shared
    rw [hslots]
    obtain ⟨hfire, hev⟩ :=
      (hsent.map (f := fun c => c.abandon i) fun _ _ _ _ => rfl).fireTimeout
        ((c.sendBlock1 i sendOk).1.slots i).pending.call
        ((c.sendBlock1 i sendOk).1.slots i).pending.userContext .expire
    exact ⟨hfire, by dsimp only; rw [hev]⟩

/-- The end of a request frees its slot at either time. -/
theorem Shifted.close (h : Shifted d c c') (i : Fin cfg.maxTransactions) (fragmented : Bool) :
    Shifted d (c.close i fragmented) (c'.close i fragmented) := by
  refine h.map (f := fun c => c.close i fragmented) fun c now pool ds => ?_
  rw [close_eq, close_eq]
  rfl

/-- The expiry of the discover slots looks at a difference, and both times in it are shifted. -/
theorem Shifted.expireDiscovers (h : Shifted d c c') :
    Shifted d c.expireDiscovers c'.expireDiscovers := by
  obtain ⟨pool, ds, rfl, hpool, hds⟩ := h
  refine ⟨pool, _, rfl, hpool, fun i => ?_⟩
  obtain ⟨time, heq, htime⟩ := hds i
  show SlotShift d
    (if (c.discovers i).active = true ∧
        c.lastNowMs - (c.discovers i).issuedAt ≥ cfg.discoverTimeoutMs then
      { c.discovers i with active := false } else c.discovers i)
    (if (ds i).active = true ∧ c.lastNowMs + d - (ds i).issuedAt ≥ cfg.discoverTimeoutMs then
      { ds i with active := false } else ds i)
  rw [heq]
  by_cases hactive : (c.discovers i).active = true
  · have hdiff : c.lastNowMs + d - time = c.lastNowMs - (c.discovers i).issuedAt := by
      rw [htime hactive]
      exact shift_sub _ _ _
    dsimp only
    rw [hdiff]
    split
    · exact ⟨time, rfl, (by intro hfree; cases hfree)⟩
    · exact ⟨time, rfl, htime⟩
  · rw [if_neg fun hc => hactive hc.1, if_neg fun hc => hactive hc.1]
    exact ⟨time, rfl, htime⟩

/-- One entry of the scan: it is due at both times or at neither, since only differences are
compared. -/
theorem Shifted.tickAt (h : Shifted d c c') (i : Fin cfg.maxTransactions) (sendOk : Bool) :
    Same d (c.tickAt i sendOk) (c'.tickAt i sendOk) := by
  obtain ⟨pool, ds, rfl, hpool, hds⟩ := h
  obtain ⟨htick, hevent⟩ := (hpool i).tickSlot cfg c.lastNowMs
  have howner : (pool i).owner = (c.transactions i).owner := by
    obtain ⟨deadline, heq, -⟩ := hpool i
    rw [heq]
  have hset : Shifted d
      (c.setTransaction i (tickSlot cfg c.lastNowMs (c.transactions i)).1)
      ((c.withClock (c.lastNowMs + d) pool ds).setTransaction i
        (tickSlot cfg (c.lastNowMs + d) (pool i)).1) :=
    ⟨_, ds, rfl, hpool.set i htick, hds⟩
  unfold Client.tickAt
  dsimp only [withClock] at hset ⊢
  rw [hevent, howner]
  split
  · exact ⟨hset.goto _, rfl⟩
  · exact ⟨hset.goto _, rfl⟩
  · exact hset.timeoutTrampoline ..

/-- **A segment of `poll`** after its cut, with the callbacks' calls in between. The scan
compares deadlines as signed differences and the expiry subtracts, so neither sees the amount. -/
theorem Shifted.resume (h : Shifted d c c') (k : Cont cfg) (sendOk : Bool) :
    Same d (c.resume k sendOk) (c'.resume k sendOk) := by
  have hidle : Shifted d { c with control := .idle } { c' with control := .idle } :=
    h.map (f := fun c => { c with control := .idle }) fun _ _ _ _ => rfl
  cases k with
  | dispatch sender msg =>
    obtain ⟨hshift, hev⟩ := h.dispatchResponse sender msg
    refine ⟨hshift, ?_⟩
    show ackEvents cfg sender msg sendOk ++ _ = ackEvents cfg sender msg sendOk ++ _
    rw [hev]
  | block1 i => exact h.continueUpload i sendOk
  | block2 i =>
    obtain ⟨hshift, hev⟩ := h.sendBlock2Request i sendOk
    have hsent := congrArg Prod.snd hev
    exact ⟨hshift.goto _, hsent⟩
  | close i fragmented call => exact ⟨(h.close i fragmented).goto _, rfl⟩
  | expire => exact ⟨h.expireDiscovers.goto _, rfl⟩
  | tick index =>
    unfold Client.resume
    dsimp only
    split
    · exact h.tickAt ..
    · exact ⟨hidle, rfl⟩
  | ret => exact ⟨hidle, rfl⟩

/-! ## Runs -/

/-- What a run shows: what the client does to the world, and what its calls return. -/
inductive Observation where
  | event (e : ClientEvent)
  | returned (result : Bool)
deriving DecidableEq, Repr

/-- What a step shows: its events, and the result of a call if the application has control. -/
def observed (c : Client cfg) (a : Action) : List Observation :=
  (c.step a).2.map .event ++
    match a with
    | .call call sendOk => if c.appHasControl then [.returned (c.call sendOk call).2.1] else []
    | _ => []

/-- The client with all that a run shows, from a client just built. -/
def observedMachine (cfg : Config) : Machine (Client cfg) Action Observation where
  init := {}
  next c a := ((c.step a).1, c.observed a)

/-- The same action, `d` ms later. -/
def Action.later (d : UInt32) : Action → Action
  | .poll nowMs rx => .poll (nowMs + d) rx
  | a => a

/-- One step of the client and of its shift. -/
theorem Shifted.step (h : Shifted d c c') (a : Action) :
    c'.observed (a.later d) = c.observed a ∧ Shifted d (c.step a).1 (c'.step (a.later d)).1 := by
  obtain ⟨-, -, -, -, hctl⟩ := h.shared
  -- whether the step is taken depends on `control` alone
  have happ : c'.appHasControl = c.appHasControl := by
    rw [appHasControl, hctl]
    rfl
  cases a with
  | call call sendOk =>
    obtain ⟨hshift, hres⟩ := h.call sendOk call
    unfold observed Client.step Action.later
    dsimp only
    rw [happ, hres]
    split
    · exact ⟨rfl, hshift⟩
    · exact ⟨rfl, h⟩
  | poll nowMs rx =>
    obtain ⟨hshift, hres⟩ := h.poll nowMs rx
    unfold observed Client.step Action.later
    dsimp only
    rw [hctl]
    cases c.control with
    | idle => exact ⟨by dsimp only; rw [hres], hshift⟩
    | polling k b => exact ⟨rfl, h⟩
  | resume sendOk =>
    unfold observed Client.step Action.later
    dsimp only
    rw [hctl]
    cases c.control with
    | idle => exact ⟨rfl, h⟩
    | polling k b =>
      obtain ⟨hshift, hres⟩ := h.resume k sendOk
      exact ⟨by dsimp only; rw [hres], hshift⟩

/-- The first poll of a client just built, under either clock. -/
theorem shifted_first (cfg : Config) (d nowMs : UInt32) :
    Shifted d ({ lastNowMs := nowMs } : Client cfg) { lastNowMs := nowMs + d } :=
  ⟨TransactionPool.reset, fun _ => {}, rfl, poolShift_of_free (by intro i hi; cases hi),
    fun _ => ⟨0, rfl, (by intro hopen; cases hopen)⟩⟩

end PulseCoap.Client
