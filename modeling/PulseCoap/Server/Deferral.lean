import PulseCoap.Server.Spec

/-!
# PulseCoAP — deferred requests and their handles

A handler that sets `res.deferred` keeps `req.deferHandle` and answers later
with `respond(handle, …)`, which is to return false when the handle is "already
consumed". The handle is the index of the slot and nothing else, and the next
request that is deferred may be given the same one.

A run is traced: requests are numbered as their handlers are called, each slot
remembers the request it was filled for, and a call of `respond` says which
request its handle was stored from.

`Inv` is about the slots that are taken: each is as it was filled for its owner,
no two have one owner, and whoever was answered has none. A new request takes a
free slot and has a number that is larger than all before it, and `respond`
frees the slot of the owner whom it answers. Nothing is assumed of the handles
that are not stored ones, since `respond` with another handle is a step like any
other.

* `poll_defers` — a poll fills at most one slot, a free one, for the request
  whose handler it calls.
* `single_use` — while no stored handle is used whose slot has gone to a later
  request, each handle answers its own request, once.
* `not_single_use` — a handle used again after its slot has been given away.
* `Fresh` — the condition: a stored handle is used only while its slot is not
  another's.
* `respondWith_cases` — what a call of `respond` comes to.
-/

namespace PulseCoap

namespace Server

variable {cfg : Config}

/-! ## The slots -/

/-- The requests handlers are called with. -/
def askedBy (events : List ServerEvent) : List Request :=
  events.filterMap fun
    | .handled _ _ req _ => some req
    | _ => none

/-- What only sends calls no handler. -/
theorem OnlySends.askedBy {events : List ServerEvent} (h : OnlySends events) :
    askedBy events = [] := by
  refine List.filterMap_eq_nil_iff.2 fun e he => ?_
  obtain ⟨dest, data, rfl⟩ := h e he
  rfl

/-- The slot of a request whose handler has been called. -/
def slotFor (req : Request) : DeferredRequest where
  active := true
  remote := req.remote
  token := req.message.token
  wasConfirmable := decide (req.message.type = .confirmable)

/-- The handle of a slot. -/
def handleOf (slot : Option (Fin cfg.maxDeferred)) : UInt8 :=
  (slot.map fun i => UInt8.ofNat i.val).getD kInvalidDeferHandle

/-- What a datagram does to the slots. -/
inductive Defers (s : Server cfg) (r : Server cfg × List ServerEvent) : Prop where
  /-- No handler is called. -/
  | quiet (kept : r.1.deferred = s.deferred) (asked : askedBy r.2 = [])
  /-- A handler is called, with a free slot if there is one. -/
  | asks (slot : Option (Fin cfg.maxDeferred)) (req : Request)
      (free : ∀ i, slot = some i → (s.deferred i).active = false)
      (handle : req.deferHandle = handleOf slot) (asked : askedBy r.2 = [req])
      (filled : ∀ i, slot = some i → (r.1.deferred i).active = true →
        r.1.deferred i = slotFor req)
      (others : ∀ i, slot ≠ some i → r.1.deferred i = s.deferred i)

/-- Whatever was done before, the slots were left alone. -/
theorem Defers.of_eq {s s' : Server cfg} {r : Server cfg × List ServerEvent}
    (h : s'.Defers r) (heq : s'.deferred = s.deferred) : s.Defers r := by
  rcases h with ⟨kept, asked⟩ | ⟨slot, req, free, handle, asked, filled, others⟩
  · exact .quiet (kept.trans heq) asked
  · rw [heq] at free others
    exact .asks slot req free handle asked filled others

theorem JustReplies.defers {s : Server cfg} {r : Server cfg × List ServerEvent}
    (h : s.JustReplies r) : s.Defers r := by
  obtain ⟨⟨id, heq⟩, hsends⟩ := h
  exact .quiet (by rw [heq]; rfl) hsends.askedBy

/-- The other slots. -/
theorem fillDeferred_ne (s : Server cfg) {slot : Option (Fin cfg.maxDeferred)} (msg : Message)
    (sender : Endpoint) {i : Fin cfg.maxDeferred} (hi : slot ≠ some i) :
    (s.fillDeferred slot msg sender).deferred i = s.deferred i := by
  cases slot with
  | none => rfl
  | some j => exact Table.set_ne _ _ fun hij => hi (congrArg some hij.symm)

theorem freeDeferred?_ne (s : Server cfg) {slot : Option (Fin cfg.maxDeferred)}
    {i : Fin cfg.maxDeferred} (hi : slot ≠ some i) :
    (s.freeDeferred? slot).deferred i = s.deferred i := by
  cases slot with
  | none => rfl
  | some j => exact Table.set_ne _ _ fun hij => hi (congrArg some hij.symm)

/-- The handler call takes the slot `allocateDeferred` has found. -/
theorem runHandler_defers (s : Server cfg) (t : Target) (msg : Message) (sender : Endpoint)
    (ov : Option UInt32) (session : Option (Fin cfg.maxBlock1Sessions)) :
    s.Defers (s.runHandler t msg sender ov session) := by
  have hfree : ∀ i, s.allocateDeferred = some i → (s.deferred i).active = false := by
    intro i hi
    simpa using Table.find?_spec hi
  have hfilled : ∀ i, s.allocateDeferred = some i →
      (s.fillDeferred s.allocateDeferred msg sender).deferred i =
        slotFor (s.requestFor t msg sender session) := by
    intro i hi
    rw [hi]
    exact Table.set_self _ _ _
  have hothers : ∀ i, s.allocateDeferred ≠ some i →
      (s.fillDeferred s.allocateDeferred msg sender).deferred i = s.deferred i :=
    fun i hi => s.fillDeferred_ne msg sender hi
  -- the handler is called and has the slot, or it has returned already
  rcases s.runHandler_cases t msg sender ov session with ⟨f, -, heq⟩ | ⟨-, heq⟩
  · rw [heq]
    exact .asks s.allocateDeferred (s.requestFor t msg sender session) hfree rfl rfl
      (fun i hi _ => hfilled i hi) hothers
  · -- the server's own handler never defers, so its slot is free again
    obtain ⟨⟨id, hstate⟩, hsends⟩ := finish_spec (s.fillDeferred s.allocateDeferred msg sender)
      (s.handlingFor msg sender ov session)
      (s.fillDeferred s.allocateDeferred msg sender).wellKnownCoreHandler
    rw [heq]
    have hasked : askedBy (s.handlerCall t msg sender session ::
        ((s.fillDeferred s.allocateDeferred msg sender).finish
          (s.handlingFor msg sender ov session)
          (s.fillDeferred s.allocateDeferred msg sender).wellKnownCoreHandler).2) =
        [s.requestFor t msg sender session] := by
      have hrest := hsends.askedBy
      unfold askedBy at hrest ⊢
      rw [handlerCall, List.filterMap_cons, hrest]
    have hdeferred : ((s.fillDeferred s.allocateDeferred msg sender).finish
        (s.handlingFor msg sender ov session)
        (s.fillDeferred s.allocateDeferred msg sender).wellKnownCoreHandler).1.deferred =
        ((s.fillDeferred s.allocateDeferred msg sender).freeDeferred?
          s.allocateDeferred).deferred := by
      rw [hstate]
      rfl
    refine .asks s.allocateDeferred (s.requestFor t msg sender session) hfree rfl hasked ?_ ?_
    · intro i hi hactive
      dsimp only at hactive
      rw [hdeferred, hi] at hactive
      simp [freeDeferred?, freeDeferred] at hactive
    · intro i hi
      dsimp only
      rw [hdeferred, ← hothers i hi]
      exact freeDeferred?_ne _ hi

/-- **A datagram** fills one slot at most, and for the request whose handler it calls. The slot
was free. -/
theorem receive_defers (s : Server cfg) (rx : Option (Endpoint × Bytes)) :
    s.Defers (s.receive rx) := by
  obtain ⟨obs, pool, sess, h | ⟨t, msg, sender, ov, session, h⟩⟩ := s.comes_receive rx
  · exact h.defers.of_eq rfl
  · rw [h]
    exact ((s.withTables obs pool sess).runHandler_defers ..).of_eq rfl

/-- A poll fills at most one slot. -/
theorem poll_defers (s : Server cfg) (nowMs : UInt32) (rx : Option (Endpoint × Bytes)) :
    s.Defers (s.poll nowMs rx) := by
  obtain ⟨ticks, hticks, heq⟩ := s.poll_eq nowMs rx
  obtain ⟨pool, obs, hscanned⟩ := s.scanned_spec nowMs
  have hsame : (s.scanned nowMs).deferred = s.deferred := by rw [hscanned]
  have hasked : ∀ ev, askedBy (ticks ++ ev) = askedBy ev := by
    intro ev
    have hnone := hticks.askedBy
    unfold askedBy at hnone ⊢
    rw [List.filterMap_append, hnone, List.nil_append]
  rw [heq]
  rcases ((s.scanned nowMs).receive_defers rx).of_eq hsame with ⟨kept, asked⟩ |
    ⟨slot, req, free, handle, asked, filled, others⟩
  · exact .quiet kept ((hasked _).trans asked)
  · exact .asks slot req free handle ((hasked _).trans asked) filled others

/-! ## The calls -/

/-- A notification is no matter of the slots. -/
theorem notifyFrom_deferred (index : Nat) (sequence : UInt32) (payload : Bytes)
    (contentFormat : ContentFormat) (confirmable : Bool) (is : List (Fin cfg.maxObservers)) :
    ∀ s : Server cfg,
      (s.notifyFrom index sequence payload contentFormat confirmable is).1.deferred =
        s.deferred := by
  induction is with
  | nil =>
    intro s
    rfl
  | cons i is ih =>
    intro s
    rw [notifyFrom]
    split
    · refine (ih _).trans ?_
      unfold Server.notifyObserver
      dsimp only
      split
      · rfl
      · cases confirmable <;> rfl
    · exact ih s

/-- Only `respond` touches the slots. -/
theorem call_deferred (s : Server cfg) {c : ServerCall}
    (hc : ∀ handle code payload cf, c ≠ .respond handle code payload cf) :
    (s.call c).1.deferred = s.deferred := by
  rcases s.call_cases c with ⟨rs, heq, -⟩ |
    ⟨path, payload, cf, con, rfl⟩ | ⟨handle, code, payload, cf, rfl⟩
  · rw [heq]
  · show (s.notify path payload cf con).1.deferred = _
    unfold notify
    split
    · rfl
    · split
      · rfl
      · exact notifyFrom_deferred _ _ payload cf con _ { s with resources := _ }
  · exact absurd rfl (hc handle code payload cf)

/-- What the application answers with. -/
structure Answer where
  code          : Code
  payload       : Bytes
  contentFormat : ContentFormat
deriving DecidableEq, Repr

/-- A handle of a slot is its index; there are fewer than 256. -/
theorem toNat_of_handle {i : Fin cfg.maxDeferred} {handle : UInt8}
    (h : UInt8.ofNat i.val = handle) : handle.toNat = i.val := by
  have hlt := cfg.deferred_lt
  have hsize := i.isLt
  rw [← h, UInt8.toNat_ofNat']
  show i.val % 256 = i.val
  omega

/-- `respond` is refused with nothing sent, or empties a slot that was taken; what it sends then
goes to the sender the slot was filled for. -/
theorem respond_cases (s : Server cfg) (handle : UInt8) (ans : Answer) :
    (s.respond handle ans.code ans.payload ans.contentFormat = (s, false, []) ∧
      ∀ i : Fin cfg.maxDeferred, UInt8.ofNat i.val = handle → (s.deferred i).active = false) ∨
    ∃ i : Fin cfg.maxDeferred, handle.toNat = i.val ∧ (s.deferred i).active = true ∧
      (s.respond handle ans.code ans.payload ans.contentFormat).1.deferred =
        s.deferred.set i { s.deferred i with active := false } ∧
      ((s.respond handle ans.code ans.payload ans.contentFormat).2 = (false, []) ∨
        ∃ messageId buf, encoded cfg (separateResponse cfg (s.deferred i) messageId ans.code
            ans.payload ans.contentFormat) = some buf ∧
          (s.respond handle ans.code ans.payload ans.contentFormat).2 =
            (true, [.sent (s.deferred i).remote buf])) := by
  unfold respond
  -- the handle is an index into the table
  by_cases hrange : handle.toNat < cfg.maxDeferred
  · rw [dif_pos hrange]
    dsimp only
    by_cases hactive : (s.deferred ⟨handle.toNat, hrange⟩).active = true
    · refine .inr ⟨⟨handle.toNat, hrange⟩, rfl, hactive, ?_⟩
      rw [if_neg (by simp [hactive])]
      -- the slot is empty from here on, also where nothing can be sent
      cases henc : encoded cfg (separateResponse cfg (s.deferred ⟨handle.toNat, hrange⟩)
          s.nextMessageId ans.code ans.payload ans.contentFormat) with
      | none => exact ⟨rfl, .inl rfl⟩
      | some buf =>
        refine ⟨?_, .inr ⟨s.nextMessageId, buf, henc, rfl⟩⟩
        dsimp only
        split <;> rfl
    · refine .inl ⟨?_, ?_⟩
      · rw [if_pos (by simp [hactive])]
      · intro i hi
        have hval : i = ⟨handle.toNat, hrange⟩ := Fin.ext (toNat_of_handle hi).symm
        rw [hval]
        exact Bool.eq_false_iff.2 hactive
  · rw [dif_neg hrange]
    refine .inl ⟨rfl, fun i hi => absurd ?_ hrange⟩
    rw [toNat_of_handle hi]
    exact i.isLt

/-! ## Traced runs -/

/-- A server, the requests of its handlers so far, and the request each slot was last filled
for. -/
structure Deferral (cfg : Config) where
  server   : Server cfg := {}
  requests : List Request := []
  owner    : Table cfg.maxDeferred Nat := fun _ => 0

namespace Deferral

/-- What happens in a traced run. -/
inductive Event where
  /-- The handler of request `n` is called. -/
  | asked (n : Nat) (req : Request)
  /-- A call of `respond` with a handle stored from request `source`, or made up. It has returned
  `result` and sent `sent`; `answered` is the request it has answered. -/
  | responded (source : Option Nat) (answer : Answer) (result : Bool) (answered : Option Nat)
      (sent : List ServerEvent)
deriving DecidableEq, Repr

/-- A step of the server, or `respond` with a stored handle. -/
inductive CallOrStep where
  | act (a : Action)
  | respond (n : Nat) (answer : Answer)
deriving DecidableEq, Repr

/-- The handle stored from request `n`. -/
def storedHandle (t : Deferral cfg) (n : Nat) : UInt8 :=
  ((t.requests[n]?).map (·.deferHandle)).getD kInvalidDeferHandle

/-- The request whose slot has the handle. -/
def ownerOf (t : Deferral cfg) (handle : UInt8) : Option Nat :=
  if h : handle.toNat < cfg.maxDeferred then some (t.owner ⟨handle.toNat, h⟩) else none

/-- `respond`, with a handle from `source`. -/
def respondWith (t : Deferral cfg) (source : Option Nat) (handle : UInt8) (ans : Answer) :
    Deferral cfg × List Event :=
  let r := t.server.respond handle ans.code ans.payload ans.contentFormat
  ({ t with server := r.1 },
    [.responded source ans r.2.1 (if r.2.1 then t.ownerOf handle else none) r.2.2])

/-- The server is in state `s` and its handlers were called with `asked`. -/
def note (t : Deferral cfg) (s : Server cfg) : (asked : List Request) → Deferral cfg × List Event
  | [] => ({ t with server := s }, [])
  | req :: _ =>
    let n := t.requests.length
    ({ server := s, requests := t.requests ++ [req]
       owner := fun i => if UInt8.ofNat i.val = req.deferHandle then n else t.owner i },
      [.asked n req])

/-- One step. -/
def next (t : Deferral cfg) : CallOrStep → Deferral cfg × List Event
  | .act (.call (.respond handle code payload contentFormat)) =>
    t.respondWith none handle { code, payload, contentFormat }
  | .act a => t.note (t.server.step a).1 (askedBy (t.server.step a).2)
  | .respond n ans => t.respondWith (some n) (t.storedHandle n) ans

/-- A server just built. -/
def machine (cfg : Config) : Machine (Deferral cfg) CallOrStep Event where
  init := {}
  next := next

/-- No stored handle is used whose slot is taken for another request. -/
def Fresh (t : Deferral cfg) : CallOrStep → Prop
  | .act _ => True
  | .respond n _ => ∀ i : Fin cfg.maxDeferred, UInt8.ofNat i.val = t.storedHandle n →
      (t.server.deferred i).active = true → t.owner i = n

instance (t : Deferral cfg) (a : CallOrStep) : Decidable (Fresh t a) :=
  match a with
  | .act _ => .isTrue trivial
  | .respond n _ => inferInstanceAs (Decidable (∀ i : Fin cfg.maxDeferred,
      UInt8.ofNat i.val = t.storedHandle n → (t.server.deferred i).active = true → t.owner i = n))

/-- The event answers request `n`. -/
def answers (n : Nat) : Event → Bool
  | .responded _ _ _ (some m) _ => m == n
  | _ => false

/-- Each handle answers its own request, and once. -/
structure SingleUse (cfg : Config) (h : List Event) : Prop where
  once : ∀ n, h.countP (answers n) ≤ 1
  own : ∀ n ans answered sent, .responded (some n) ans true answered sent ∈ h →
    answered = some n ∧ ∃ req messageId buf, .asked n req ∈ h ∧
      encoded cfg (separateResponse cfg (slotFor req) messageId ans.code ans.payload
        ans.contentFormat) = some buf ∧ sent = [.sent req.remote buf]
  spent : h.Pairwise fun e e' => ∀ n ans result answered sent, answers n e = true →
    e' = .responded (some n) ans result answered sent → result = false ∧ sent = []

/-! ## The invariant -/

/-- A slot that is taken is that of its owner, no owner has two, and whoever has been answered has
none. -/
structure Inv (h : List Event) (t : Deferral cfg) : Prop where
  asked  : ∀ n req, t.requests[n]? = some req → .asked n req ∈ h
  owned  : ∀ i, (t.server.deferred i).active = true →
    ∃ req, t.requests[t.owner i]? = some req ∧ t.server.deferred i = slotFor req
  keyed  : ∀ i j, (t.server.deferred i).active = true → (t.server.deferred j).active = true →
    t.owner i = t.owner j → i = j
  closed : ∀ n e, e ∈ h → answers n e = true →
    n < t.requests.length ∧ ∀ i, (t.server.deferred i).active = true → t.owner i ≠ n
  once   : ∀ n, h.countP (answers n) ≤ 1

variable {h : List Event} {t : Deferral cfg}

/-- The owner of a slot is a request that was counted. -/
theorem Inv.owner_lt (inv : Inv h t) {i : Fin cfg.maxDeferred}
    (hi : (t.server.deferred i).active = true) : t.owner i < t.requests.length := by
  obtain ⟨req, hreq, -⟩ := inv.owned i hi
  exact (List.getElem?_eq_some_iff.1 hreq).1

/-- A step that only empties slots. -/
theorem Inv.emptied (inv : Inv h t) {s' : Server cfg}
    (hsub : ∀ i, (s'.deferred i).active = true → s'.deferred i = t.server.deferred i) :
    Inv h { t with server := s' } := by
  have hactive : ∀ i, (s'.deferred i).active = true → (t.server.deferred i).active = true := by
    intro i hi
    rw [← hsub i hi]
    exact hi
  refine ⟨inv.asked, ?_, ?_, ?_, inv.once⟩
  · intro i hi
    obtain ⟨req, hreq, hslot⟩ := inv.owned i (hactive i hi)
    exact ⟨req, hreq, (hsub i hi).trans hslot⟩
  · exact fun i j hi hj => inv.keyed i j (hactive i hi) (hactive j hj)
  · intro n e he hans
    obtain ⟨hlt, hnone⟩ := inv.closed n e he hans
    exact ⟨hlt, fun i hi => hnone i (hactive i hi)⟩

/-- A poll gives a free slot to the request it is about, and no other. -/
theorem Inv.noted (inv : Inv h t) {s' : Server cfg} {events : List ServerEvent}
    (hd : t.server.Defers (s', events)) :
    Inv (h ++ (t.note s' (askedBy events)).2) (t.note s' (askedBy events)).1 := by
  rcases hd with ⟨kept, asked⟩ | ⟨slot, req, free, handle, asked, filled, others⟩
  · have hkept : s'.deferred = t.server.deferred := kept
    have hasked : askedBy events = [] := asked
    rw [hasked]
    show Inv (h ++ []) _
    rw [List.append_nil]
    exact inv.emptied fun i _ => by rw [hkept]
  have hasked : askedBy events = [req] := asked
  rw [hasked]
  -- the slot of the new request is the one with its handle
  have hhandle : ∀ i : Fin cfg.maxDeferred,
      UInt8.ofNat i.val = req.deferHandle ↔ slot = some i := by
    -- 255 stands for no slot, and no slot has that index
    intro i
    have hlt := cfg.deferred_lt
    have hsize := i.isLt
    rw [handle]
    cases hslot : slot with
    | none =>
      refine ⟨fun heq => ?_, fun heq => by cases heq⟩
      have hval := toNat_of_handle heq
      have hbig : (handleOf (none : Option (Fin cfg.maxDeferred))).toNat = 255 := rfl
      omega
    | some j =>
      have hj : (UInt8.ofNat j.val).toNat = j.val := toNat_of_handle rfl
      constructor
      · intro heq
        have hval := toNat_of_handle heq
        have hval' : (handleOf (some j)).toNat = j.val := hj
        exact congrArg some (Fin.ext (by omega))
      · intro heq
        cases heq
        rfl
  -- only the slot of the new request changes its owner
  have howner : ∀ i, (t.note s' [req]).1.owner i =
      if slot = some i then t.requests.length else t.owner i := by
    intro i
    show (if UInt8.ofNat i.val = req.deferHandle then _ else _) = _
    by_cases hi : slot = some i
    · rw [if_pos hi, if_pos ((hhandle i).2 hi)]
    · rw [if_neg hi, if_neg fun heq => hi ((hhandle i).1 heq)]
  have hold : ∀ i, slot ≠ some i → (s'.deferred i).active = true →
      (t.server.deferred i).active = true := by
    intro i hi hactive
    rw [← others i hi]
    exact hactive
  refine ⟨?_, ?_, ?_, ?_, ?_⟩
  · -- the requests that were asked, with the new one at the end
    intro n r hr
    have hr' : (t.requests ++ [req])[n]? = some r := hr
    by_cases hn : n < t.requests.length
    · rw [List.getElem?_append_left hn] at hr'
      exact List.mem_append_left _ (inv.asked n r hr')
    · rw [List.getElem?_append_right (by omega), List.getElem?_singleton] at hr'
      split at hr'
      · cases hr'
        have hlen : n = t.requests.length := by omega
        rw [hlen]
        exact List.mem_append_right _ (List.mem_singleton.2 rfl)
      · cases hr'
  · intro i hi
    rw [howner]
    by_cases hslot : slot = some i
    · rw [if_pos hslot]
      exact ⟨req, List.getElem?_concat_length, filled i hslot hi⟩
    · rw [if_neg hslot]
      obtain ⟨r, hr, heq⟩ := inv.owned i (hold i hslot hi)
      refine ⟨r, ?_, (others i hslot).trans heq⟩
      have hlt := (List.getElem?_eq_some_iff.1 hr).1
      exact (List.getElem?_append_left hlt).trans hr
  · -- no two slots have one owner: the new one's number is larger than all others
    intro i j hi hj heq
    rw [howner, howner] at heq
    by_cases hsi : slot = some i
    · by_cases hsj : slot = some j
      · exact Option.some.inj (hsi.symm.trans hsj)
      · rw [if_pos hsi, if_neg hsj] at heq
        have hlt := inv.owner_lt (hold j hsj hj)
        omega
    · by_cases hsj : slot = some j
      · rw [if_neg hsi, if_pos hsj] at heq
        have hlt := inv.owner_lt (hold i hsi hi)
        omega
      · rw [if_neg hsi, if_neg hsj] at heq
        exact inv.keyed i j (hold i hsi hi) (hold j hsj hj) heq
  · -- a request that is answered has no slot, and it is none of the new one's
    intro n e he hans
    rcases List.mem_append.1 he with he | he
    · obtain ⟨hlt, hnone⟩ := inv.closed n e he hans
      have hlen : (t.note s' [req]).1.requests.length = t.requests.length + 1 :=
        List.length_append
      refine ⟨by omega, fun i hi => ?_⟩
      rw [howner]
      by_cases hslot : slot = some i
      · rw [if_pos hslot]
        omega
      · rw [if_neg hslot]
        exact hnone i (hold i hslot hi)
    · cases List.mem_singleton.1 he
      cases hans
  · intro n
    rw [List.countP_append]
    exact inv.once n

/-- What `respond` answers is the owner of a slot that was taken. -/
theorem respondWith_cases (inv : Inv h t) (source : Option Nat) (handle : UInt8) (ans : Answer) :
    (∃ s', (t.respondWith source handle ans) =
        ({ t with server := s' }, [.responded source ans false none []]) ∧
      Inv h { t with server := s' }) ∨
    ∃ (i : Fin cfg.maxDeferred) (s' : Server cfg) (req : Request) (messageId : UInt16)
        (buf : Bytes), UInt8.ofNat i.val = handle ∧ (t.server.deferred i).active = true ∧
      s'.deferred = t.server.deferred.set i { t.server.deferred i with active := false } ∧
      .asked (t.owner i) req ∈ h ∧
      encoded cfg (separateResponse cfg (slotFor req) messageId ans.code ans.payload
        ans.contentFormat) = some buf ∧
      t.respondWith source handle ans = ({ t with server := s' },
        [.responded source ans true (some (t.owner i)) [.sent req.remote buf]]) := by
  unfold respondWith
  -- `respond` finds no slot, or has one and sends or does not
  rcases t.server.respond_cases handle ans with ⟨heq, -⟩ | ⟨i, hi, hactive, hdef, hres⟩
  · rw [heq]
    exact .inl ⟨_, rfl, inv.emptied fun _ _ => rfl⟩
  · rcases hres with hnone | ⟨messageId, buf, henc, hsent⟩
    · refine .inl ⟨_, by dsimp only; rw [hnone]; rfl, inv.emptied fun j hj => ?_⟩
      rw [hdef] at hj ⊢
      by_cases hji : j = i
      · rw [hji, Table.set_self] at hj
        cases hj
      · exact Table.set_ne _ _ hji
    · -- what fills the slot is what was put there for its owner
      obtain ⟨req, hreq, hslot⟩ := inv.owned i hactive
      have hhandle : UInt8.ofNat i.val = handle := by
        rw [← hi]
        exact UInt8.ofNat_toNat
      have howner : t.ownerOf handle = some (t.owner i) := by
        unfold ownerOf
        rw [dif_pos (by rw [hi]; exact i.isLt)]
        exact congrArg (fun j => some (t.owner j)) (Fin.ext hi)
      rw [hslot] at henc
      refine .inr ⟨i, _, req, messageId, buf, hhandle, hactive, hdef, inv.asked _ _ hreq, henc, ?_⟩
      dsimp only
      rw [hsent, hslot, ← howner]
      rfl

/-- `respond` empties the slot of the request it answers, so no later call does. -/
theorem Inv.responded (inv : Inv h t) (source : Option Nat) (handle : UInt8) (ans : Answer) :
    Inv (h ++ (t.respondWith source handle ans).2) (t.respondWith source handle ans).1 := by
  rcases respondWith_cases inv source handle ans with ⟨s', heq, hinv⟩ |
    ⟨i, s', req, messageId, buf, -, hactive, hdef, hmem, henc, heq⟩
  · rw [heq]
    refine ⟨?_, hinv.owned, hinv.keyed, ?_, ?_⟩
    · exact fun n r hr => List.mem_append_left _ (hinv.asked n r hr)
    · intro n e he hans
      rcases List.mem_append.1 he with he | he
      · exact hinv.closed n e he hans
      · cases List.mem_singleton.1 he
        cases hans
    · intro n
      rw [List.countP_append]
      exact inv.once n
  · rw [heq]
    have hemptied : Inv h { t with server := s' } := by
      refine inv.emptied fun j hj => ?_
      rw [hdef] at hj ⊢
      by_cases hji : j = i
      · rw [hji, Table.set_self] at hj
        cases hj
      · exact Table.set_ne _ _ hji
    -- the slot that was emptied was the only one of its owner
    have hgone : ∀ j, (s'.deferred j).active = true → t.owner j ≠ t.owner i := by
      intro j hj hown
      rw [hdef] at hj
      by_cases hji : j = i
      · rw [hji, Table.set_self] at hj
        cases hj
      · rw [Table.set_ne _ _ hji] at hj
        exact hji (inv.keyed j i hj hactive hown)
    refine ⟨?_, hemptied.owned, hemptied.keyed, ?_, ?_⟩
    · exact fun n r hr => List.mem_append_left _ (inv.asked n r hr)
    · intro n e he hans
      rcases List.mem_append.1 he with he | he
      · exact hemptied.closed n e he hans
      · cases List.mem_singleton.1 he
        have hn : t.owner i = n := by simpa [answers] using hans
        rw [← hn]
        exact ⟨inv.owner_lt hactive, hgone⟩
    · intro n
      rw [List.countP_append]
      by_cases hn : t.owner i = n
      · -- not answered before: an answered request has no slot
        have hzero : h.countP (answers n) = 0 := by
          refine List.countP_eq_zero.2 fun e he hans => ?_
          exact (inv.closed n e he hans).2 i hactive hn
        rw [hzero]
        simp [answers, hn]
      · have hone : List.countP (answers n)
            [.responded source ans true (some (t.owner i)) [.sent req.remote buf]] = 0 := by
          simp [answers, hn]
        rw [hone]
        exact inv.once n

/-- Any step of the server but `respond` fills a slot as a poll does, or only empties one. -/
theorem step_defers (s : Server cfg) {a : Action}
    (ha : ∀ handle code payload cf, a ≠ .call (.respond handle code payload cf)) :
    s.Defers (s.step a) ∨ askedBy (s.step a).2 = [] ∧
      ∀ i, ((s.step a).1.deferred i).active = true →
        (s.step a).1.deferred i = s.deferred i := by
  cases a with
  | call c =>
    refine .inl (.quiet (s.call_deferred fun handle code payload cf heq => ?_) ?_)
    · exact ha handle code payload cf (by rw [heq])
    · have hnone := (s.call_keeps c).sends.askedBy
      show askedBy ((s.call c).2.2 ++ [_]) = []
      unfold askedBy at hnone ⊢
      rw [List.filterMap_append, hnone]
      rfl
  | poll nowMs rx =>
    cases hctl : s.control with
    | idle =>
      rw [step_poll hctl]
      exact .inl (s.poll_defers nowMs rx)
    | handling hd =>
      rw [step_poll_busy hctl]
      exact .inl (.quiet rfl rfl)
  | handlerReturns res =>
    cases hctl : s.control with
    | idle =>
      rw [step_returns_idle hctl]
      exact .inl (.quiet rfl rfl)
    | handling hd =>
      -- the handler keeps the slot, or it is given back
      obtain ⟨⟨id, hstate⟩, hsends⟩ := finish_spec { s with control := .idle } hd res
      rw [step_returns hctl]
      refine .inr ⟨hsends.askedBy, fun i hi => ?_⟩
      rw [hstate] at hi ⊢
      dsimp only at hi ⊢
      split
      · rfl
      · rename_i hkeep
        rw [if_neg hkeep] at hi
        cases hslot : hd.deferIdx with
        | none => rfl
        | some j =>
          rw [hslot] at hi
          refine Table.set_ne _ _ fun hij => ?_
          rw [hij] at hi
          simp [freeDeferred?, freeDeferred] at hi

/-- A step other than `respond` keeps the invariant. -/
theorem Inv.act (inv : Inv h t) {a : Action}
    (ha : ∀ handle code payload cf, a ≠ .call (.respond handle code payload cf)) :
    Inv (h ++ (t.note (t.server.step a).1 (askedBy (t.server.step a).2)).2)
      (t.note (t.server.step a).1 (askedBy (t.server.step a).2)).1 := by
  rcases step_defers t.server ha with hd | ⟨hnone, hsub⟩
  · exact inv.noted hd
  · rw [hnone]
    show Inv (h ++ []) _
    rw [List.append_nil]
    exact inv.emptied hsub

/-- A step is a call of `respond` with a handle, or is noted. -/
theorem next_cases (t : Deferral cfg) (a : CallOrStep) :
    (∃ n ans, a = .respond n ans ∧ t.next a = t.respondWith (some n) (t.storedHandle n) ans) ∨
      (∃ handle ans, t.next a = t.respondWith none handle ans) ∨
      ∃ b, (∀ handle code payload cf, b ≠ .call (.respond handle code payload cf)) ∧
        t.next a = t.note (t.server.step b).1 (askedBy (t.server.step b).2) := by
  cases a with
  | respond n ans => exact .inl ⟨n, ans, rfl, rfl⟩
  | act b =>
    by_cases hb : ∃ handle code payload cf, b = .call (.respond handle code payload cf)
    · obtain ⟨handle, code, payload, cf, rfl⟩ := hb
      exact .inr (.inl ⟨handle, ⟨code, payload, cf⟩, rfl⟩)
    · refine .inr (.inr ⟨b, ?_, ?_⟩)
      · intro handle code payload cf heq
        exact hb ⟨handle, code, payload, cf, heq⟩
      · rw [next.eq_def]
        split
        · rename_i heq
          cases heq
          exact absurd ⟨_, _, _, _, rfl⟩ hb
        · rename_i heq
          cases heq
          rfl
        · rename_i heq
          cases heq

theorem Inv.next (inv : Inv h t) (a : CallOrStep) :
    Inv (h ++ (t.next a).2) (t.next a).1 := by
  rcases next_cases t a with ⟨n, ans, -, heq⟩ | ⟨handle, ans, heq⟩ | ⟨b, hb, heq⟩
  · rw [heq]
    exact inv.responded ..
  · rw [heq]
    exact inv.responded ..
  · rw [heq]
    exact inv.act hb

/-- **In every run** each slot in use has the request it was filled for, and no request has two. -/
theorem inv_of_run {P : Deferral cfg → CallOrStep → Prop} (r : (machine cfg).Run P h t) :
    Inv h t := by
  refine Machine.Run.invariant (I := fun h t => Inv h t) ?_ ?_ r
  · refine ⟨?_, ?_, ?_, ?_, fun n => Nat.zero_le _⟩
    · intro n req hreq
      cases hreq
    · intro i hi
      cases hi
    · intro i j hi
      cases hi
    · intro n e he
      cases he
  · intro h t a _ inv _
    exact inv.next a

/-- One event more, when it is not a call of `respond` with a stored handle that goes wrong. -/
theorem SingleUse.concat (hs : SingleUse cfg h) {e : Event}
    (honce : ∀ n, (h ++ [e]).countP (answers n) ≤ 1)
    (hnew : ∀ n ans result answered sent, e = .responded (some n) ans result answered sent →
      (result = true → answered = some n ∧ ∃ req messageId buf, .asked n req ∈ h ∧
        encoded cfg (separateResponse cfg (slotFor req) messageId ans.code ans.payload
          ans.contentFormat) = some buf ∧ sent = [.sent req.remote buf]) ∧
      ((∃ e₀ ∈ h, answers n e₀ = true) → result = false ∧ sent = [])) :
    SingleUse cfg (h ++ [e]) := by
  refine ⟨honce, ?_, ?_⟩
  · intro n ans answered sent hmem
    rcases List.mem_append.1 hmem with hmem | hmem
    · obtain ⟨hans, req, messageId, buf, hasked, hrest⟩ := hs.own n ans answered sent hmem
      exact ⟨hans, req, messageId, buf, List.mem_append_left _ hasked, hrest⟩
    · obtain ⟨hans, req, messageId, buf, hasked, hrest⟩ :=
        (hnew n ans true answered sent (List.mem_singleton.1 hmem).symm).1 rfl
      exact ⟨hans, req, messageId, buf, List.mem_append_left _ hasked, hrest⟩
  · refine List.pairwise_append.2 ⟨hs.spent, List.pairwise_singleton _ _, ?_⟩
    intro e₀ he₀ e' he' n ans result answered sent hans heq
    rw [List.mem_singleton.1 he'] at heq
    exact (hnew n ans result answered sent heq).2 ⟨e₀, he₀, hans⟩

/-- A step whose handle, if it uses one, is fresh. -/
theorem SingleUse.step (hs : SingleUse cfg h) (inv : Inv h t) {a : CallOrStep}
    (hfresh : Fresh t a) : SingleUse cfg (h ++ (t.next a).2) := by
  have honce := (inv.next a).once
  rcases next_cases t a with ⟨n, ans, rfl, heq⟩ | ⟨handle, ans, heq⟩ | ⟨b, hb, heq⟩
  · rw [heq] at honce ⊢
    rcases respondWith_cases inv (some n) (t.storedHandle n) ans with ⟨s', hr, -⟩ |
      ⟨i, s', req, messageId, buf, hhandle, hactive, -, hasked, henc, hr⟩
    · rw [hr] at honce ⊢
      refine hs.concat honce fun m ans' result answered sent hev => ?_
      cases hev
      exact ⟨(by intro hres; cases hres), fun _ => ⟨rfl, rfl⟩⟩
    · -- the slot is still that of request `n`, which therefore has not been answered
      rw [hr] at honce ⊢
      have hown : t.owner i = n := hfresh i hhandle hactive
      rw [hown] at hasked
      refine hs.concat honce fun m ans' result answered sent hev => ?_
      cases hev
      refine ⟨fun _ => ⟨congrArg some hown, req, messageId, buf, hasked, henc, rfl⟩, ?_⟩
      rintro ⟨e₀, he₀, hans⟩
      exact absurd hown ((inv.closed n e₀ he₀ hans).2 i hactive)
  · rw [heq] at honce ⊢
    refine hs.concat honce fun m ans' result answered sent hev => ?_
    cases hev
  · rw [heq] at honce ⊢
    cases hasked : askedBy (t.server.step b).2 with
    | nil =>
      show SingleUse cfg (h ++ [])
      rw [List.append_nil]
      exact hs
    | cons req rest =>
      rw [hasked] at honce
      refine hs.concat honce fun m ans' result answered sent hev => ?_
      cases hev

/-- **Deferred handles are single-use** in every run that uses no stored handle while its slot
is taken for another request: a handle answers its own request, at most once, and once the
request has been answered the handle is refused and nothing is sent. Handles that were never
given out may be used at will. -/
theorem single_use (cfg : Config) {h : List Event} {t : Deferral cfg}
    (r : (machine cfg).Run Fresh h t) : SingleUse cfg h := by
  have hboth : SingleUse cfg h ∧ Inv h t := by
    refine Machine.Run.invariant (I := fun h t => SingleUse cfg h ∧ Inv h t) ?_ ?_ r
    · have hown : SingleUse cfg [] :=
        ⟨fun _ => Nat.zero_le _, (by intro _ _ _ _ hmem; cases hmem), List.Pairwise.nil⟩
      exact ⟨hown, inv_of_run (P := Fresh) .start⟩
    · rintro h t a - ⟨hs, inv⟩ hfresh
      exact ⟨hs.step inv hfresh, inv.next a⟩
  exact hboth.1

/-! ## A recycled handle -/

/-- A Confirmable GET for the root with this message ID and token. -/
def slowRequest (messageId token : UInt8) : Bytes := [0x41, 0x01, 0x00, messageId, token]

/-- The endpoints that ask. -/
def asker (port : UInt16) : Endpoint := { address := .v4 10 0 0 1, port }

/-- What the application answers. -/
def slowAnswer : Answer where
  code := Code.content
  payload := [0x6F, 0x6B]
  contentFormat := .textPlain

/-- One request is deferred and answered. -/
def answeredOnce : List CallOrStep :=
  [.act (.call (.addResource (some [Uri.slash]) methodGet (some 1) none false)),
    .act (.poll 0 (some (asker 1, slowRequest 1 0xA1))),
    .act (.handlerReturns { deferred := true }),
    .respond 0 slowAnswer]

theorem single_use_answered :
    SingleUse Config.default ((machine Config.default).exec [] {} answeredOnce).1 :=
  single_use Config.default (.exec .start (by decide +kernel))

/-- Then another request is deferred, and the first handle is used again. -/
def answeredAgain : List CallOrStep :=
  answeredOnce ++
    [.act (.poll 1 (some (asker 2, slowRequest 1 0xA2))),
      .act (.handlerReturns { deferred := true }),
      .respond 0 slowAnswer]

/-- **Handles are not single-use**: the slot of the first request has gone to the second one,
and the first handle answers that. The application has kept the handle too long, and nothing
tells it so. -/
theorem not_single_use :
    ∃ (h : List Event) (t : Deferral Config.default),
      (machine Config.default).Run (fun _ _ => True) h t ∧ ¬ SingleUse Config.default h := by
  refine ⟨_, _, .exec .start (Machine.meets_of_forall (fun _ _ => trivial) _ answeredAgain), ?_⟩
  intro hs
  have hstale : .responded (some 0) slowAnswer true (some 1)
      [.sent (asker 2) [0x41, 0x45, 0x00, 0x02, 0xA2, 0xC0, 0xFF, 0x6F, 0x6B]] ∈
        ((machine Config.default).exec [] (machine Config.default).init answeredAgain).1 := by
    decide +kernel
  have hown := (hs.own 0 slowAnswer (some 1) _ hstale).1
  cases hown

end Deferral

end Server

end PulseCoap
