import PulseCoap.Codec.Operations
import PulseCoap.Lib.Serial
import PulseCoap.Server.Lookup

/-!
# PulseCoAP — the sequence numbers of Observe

`notify` counts its calls in 32 bits, and the Observe option of a notification
is that count. RFC 7641 orders the values modulo 2^24 and gives the option three
bytes; `addOptionUint` takes the fourth as well when it needs one. The response
to a registration carries the count through an `int32_t`, where a negative value
stands for no option.

A server is watched together with how many calls ago each resource last notified
each remote and token.

A value of 24 bits that has gone round is smaller than the one before it, and
RFC 7641 has a receiver compare modulo 2^24 for that reason. The count is kept
in 32 bits and sent as it is, so from 2^24 on the option has four bytes. The
condition is that no count leaves the 24 bits in the step and that less than
half of the circle lies between two values an observer is sent.

* `pushed_observe`, `finish_observe` — the option of one notification and of one
  response.
* `count_values` — the values that an observer is sent, one call further.
* `Inv.step` — a step in which no count leaves the 24 bits.
* `sequenced_of_run` — in such runs the option is there, in three bytes at most,
  and its values go up.
* `not_sequenced` — the notification number 2^24.
* `Counts`, `Fresh` — the count of a resource, and how long ago an observer last
  had a value.
-/

namespace PulseCoap

namespace Server

open Serial (Newer)

variable {cfg : Config}

-- ===========================================================================
-- What is watched
-- ===========================================================================

instance (s : Server cfg) (remote : Endpoint) (token : Bytes) :
    Decidable (s.HasRoom remote token) :=
  inferInstanceAs (Decidable ((∃ i, observes remote token (s.observers i) = true) ∨
    ∃ i, (s.observers i).active = false))

/-- The resource whose observers a step is to notify. -/
def notifying (s : Server cfg) : Action → Option Target
  | .call (.notify path _ _ _) => (s.findTarget path).filter fun t => t.resource.observable
  | _ => none

/-- The resource that a step registers an observer for, which finds room. -/
def enrolled (s : Server cfg) : Action → Option Target
  | .poll nowMs rx => do
    let (sender, msg) ← Naming.registration s (.poll nowMs rx)
    let t ← (s.scanned nowMs).admitted msg
    if (s.scanned nowMs).HasRoom sender msg.token then some t else none
  | _ => none

/-- What goes out that has to do with a resource's count. -/
inductive Output where
  /-- A notification of the resource with this index. -/
  | notified (index : Nat) (dest : Endpoint) (data : Bytes)
  /-- The inline response to a registration that found room. -/
  | replied (data : Bytes)
deriving DecidableEq, Repr

/-- A server, and how many calls of `notify` ago a resource last notified a remote and token. -/
structure Counting (cfg : Config) where
  server      : Server cfg := {}
  since       : Nat → Endpoint → Bytes → Option Nat := fun _ _ _ => none
  /-- The handler that runs is called for a registration that found room. -/
  registering : Bool := false

namespace Counting

/-- A key of an observer. -/
def keyOf (remote : Endpoint) (token : Bytes) : Observer := { remote, token }

/-- One more call for the resource at `index`, with what it sends. -/
def count (cfg : Config) (since : Nat → Endpoint → Bytes → Option Nat) (index : Nat)
    (ds : List (Endpoint × Bytes)) : Nat → Endpoint → Bytes → Option Nat :=
  fun index' remote token =>
    if index' = index then
      if carried cfg (keyOf remote token) ds = [] then (since index' remote token).map (· + 1)
      else some 0
    else since index' remote token

/-- The response of a step to a registration. -/
def replies (w : Counting cfg) : Action → List (Endpoint × Bytes)
  | .poll nowMs rx =>
    if (w.server.enrolled (.poll nowMs rx)).isSome then
      datagrams ((w.server.scanned nowMs).receive rx).2
    else []
  | .handlerReturns res =>
    if w.registering then datagrams (w.server.step (.handlerReturns res)).2 else []
  | .call _ => []

def registeringAfter (w : Counting cfg) (a : Action) : Bool :=
  match a, w.server.control with
  | .poll nowMs rx, .idle => (w.server.enrolled (.poll nowMs rx)).isSome
  | .handlerReturns _, _ => false
  | _, _ => w.registering

def next (w : Counting cfg) (a : Action) : Counting cfg × List Output :=
  let r := w.server.step a
  match w.server.notifying a with
  | some t =>
    ({ w with server := r.1, since := count cfg w.since t.index (datagrams r.2) },
      (datagrams r.2).map fun d => .notified t.index d.1 d.2)
  | none =>
    ({ w with server := r.1, registering := w.registeringAfter a },
      (w.replies a).map fun d => .replied d.2)

def machine (cfg : Config) : Machine (Counting cfg) Action Output where
  init := {}
  next := next

-- ===========================================================================
-- What is claimed
-- ===========================================================================

/-- An Observe option with at most 3 bytes. -/
def HasObserve (m : Message) : Prop :=
  ∃ o, m.findOption OptionNumber.observe = some o ∧ o.length.toNat ≤ 3

/-- The notifications of one resource. -/
def notedBy (index : Nat) (hist : List Output) : List (Endpoint × Bytes) :=
  hist.filterMap fun
    | .notified index' dest data => if index' = index then some (dest, data) else none
    | .replied _ => none

/-- The Observe values that one resource has sent to a remote under a token, modulo 2^24. -/
def values (cfg : Config) (index : Nat) (remote : Endpoint) (token : Bytes) (hist : List Output) :
    List Nat :=
  (carried cfg (keyOf remote token) (notedBy index hist)).filterMap fun m =>
    (observeOf m).map fun v => v.toNat % 2 ^ 24

/-- **The sequence numbers** of all that is sent. -/
structure Sequenced (cfg : Config) (hist : List Output) : Prop where
  notified : ∀ index dest data, .notified index dest data ∈ hist →
    ∃ m, Message.decode cfg data = (.none, m) ∧ HasObserve m
  replied  : ∀ data, .replied data ∈ hist →
    ∃ m, Message.decode cfg data = (.none, m) ∧ (codeClass m.code = 2 → HasObserve m)
  newer    : ∀ index remote token,
    (values cfg index remote token hist).IsChain (Newer (2 ^ 23))

/-- The call that comes after `k` others since the last notification, if there was one. -/
def Fresh : Option Nat → Prop
  | none => True
  | some k => 0 < (k + 1) % 2 ^ 24 ∧ (k + 1) % 2 ^ 24 < 2 ^ 23

instance (since : Option Nat) : Decidable (Fresh since) :=
  match since with
  | none => .isTrue trivial
  | some _ => inferInstanceAs (Decidable (_ ∧ _))

open Noting (notificationSize)

/-- **No count leaves the 24 bits**: a notification that is sent has a smaller one, and comes
within 2^23 calls of the one before; so has a resource that an observer is registered for. -/
def Regular (w : Counting cfg) (a : Action) : Prop :=
  (∀ t ∈ w.server.enrolled a, t.resource.observeSequence.toNat < 2 ^ 24) ∧
    ∀ path payload contentFormat confirmable,
      a = .call (.notify path payload contentFormat confirmable) →
      ∀ t ∈ w.server.notifying a, ∀ i, (w.server.observers i).active = true →
        (w.server.observers i).resourceIndex = UInt8.ofNat t.index →
        notificationSize cfg (w.server.observers i) (t.resource.observeSequence + 1) payload
          contentFormat ≤ cfg.maxMsgSize →
        (t.resource.observeSequence + 1).toNat < 2 ^ 24 ∧
          Fresh (w.since t.index (w.server.observers i).remote (w.server.observers i).token)

-- ===========================================================================
-- One datagram
-- ===========================================================================

/-- The first option of a message, where there is room for one. -/
theorem carries_observe {m : Message} {hd : ReplyHeader} {us : List (UInt16 × UInt32)}
    {payload : Bytes} {v : UInt32} (h : Carries cfg m hd ((OptionNumber.observe, v) :: us) payload)
    (hroom : 0 < cfg.maxOptions) : ∃ o,
      (Message.decode cfg m.wire).2.findOption OptionNumber.observe = some o ∧
        Message.UintOption o OptionNumber.observe v := by
  have hfound := h.found OptionNumber.observe
  obtain ⟨k, hk⟩ := Nat.exists_eq_add_one.2 hroom
  rw [hk, List.take_succ_cons] at hfound
  simp only [List.find?_cons, beq_self_eq_true] at hfound
  exact ⟨_, hfound, Message.uintOption_entry _ _⟩

/-- Below 2^24 it has 3 bytes at most. -/
theorem carries_hasObserve {m : Message} {hd : ReplyHeader} {us : List (UInt16 × UInt32)}
    {payload : Bytes} {v : UInt32} (h : Carries cfg m hd ((OptionNumber.observe, v) :: us) payload)
    (hroom : 0 < cfg.maxOptions) (hv : v.toNat < 2 ^ 24) :
    HasObserve (Message.decode cfg m.wire).2 := by
  obtain ⟨o, hfound, hopt⟩ := carries_observe h hroom
  exact ⟨o, hfound, (hopt.minimal 3).2 (by simpa using hv)⟩

/-- The option of a notification. -/
theorem pushed_observe {observers : Table cfg.maxObservers Observer}
    (ht : ∀ i, (observers i).token.length ≤ kMaxTokenLen) {sequence : UInt32} {payload : Bytes}
    {contentFormat : ContentFormat} {confirmable : Bool} {n : Fin cfg.maxObservers × UInt16}
    {d : Endpoint × Bytes} (hroom : 0 < cfg.maxOptions) (hseq : sequence.toNat < 2 ^ 24)
    (h : pushed cfg observers sequence payload contentFormat confirmable n = some d) :
    ∃ m, Message.decode cfg d.2 = (.none, m) ∧ HasObserve m := by
  have hcarries := carries_notification cfg (observers n.1) (ht n.1) n.2 sequence payload
    contentFormat confirmable
  obtain ⟨buf, henc, rfl⟩ := Option.map_eq_some_iff.1 h
  obtain ⟨-, rfl⟩ := (encoded_iff hcarries.built buf).1 henc
  obtain ⟨m, hdec, -⟩ := hcarries.decodes
  have hobserve := carries_hasObserve hcarries hroom hseq
  rw [congrArg Prod.snd hdec] at hobserve
  exact ⟨m, hdec, hobserve⟩

/-- A response of class 2 has the option, in 3 bytes at most. -/
def Replies (cfg : Config) (_ : Endpoint) (data : Bytes) : Prop :=
  ∃ m, Message.decode cfg data = (.none, m) ∧ (codeClass m.code = 2 → HasObserve m)

/-- The option of what a handler's return sends. -/
theorem finish_observe (s : Server cfg) (h : Handling cfg)
    (ht : h.msg.token.length ≤ kMaxTokenLen) (hs : h.session = none) {v : UInt32}
    (hv : h.observeValue = some v) (hsmall : v.toNat < 2 ^ 24) (hroom : 0 < cfg.maxOptions)
    (res : Response) : Sends (Replies cfg) (s.finish h res).2 := by
  unfold finish
  dsimp only
  split
  · split
    · -- the empty ACK of a deferral
      have hack := carries_emptyAck cfg h.msg.messageId
      refine sends_encoded hack.built ?_
      obtain ⟨m, hdec, -, -, -, hcode, -⟩ := hack.decodes
      refine ⟨m, hdec, fun hclass => ?_⟩
      rw [hcode] at hclass
      exact absurd hclass (by decide : codeClass Code.empty ≠ 2)
    · exact sends_nil _
  · rw [hs]
    obtain ⟨m, uints, payload, ⟨hcarries, -, us, huints, -⟩, hsent⟩ :=
      ((s.freeBlock1Session? none).freeDeferred? h.deferIdx).replyInline_carries h res ht
    dsimp only
    rw [hsent]
    refine sends_encoded hcarries.built ?_
    obtain ⟨m', hdec, -, -, -, hcode, -⟩ := hcarries.decodes
    refine ⟨m', hdec, fun hclass => ?_⟩
    rw [hcode, (replyHeader_names _ _ _).2] at hclass
    -- an error has no option
    have hnot : ¬ PastEnd cfg h.msg res := by
      intro hpast
      rw [inlineCode, if_pos hpast] at hclass
      exact absurd hclass (by decide)
    rw [huints, if_neg hnot, hv] at hcarries
    have hobserve := carries_hasObserve hcarries hroom hsmall
    rwa [congrArg Prod.snd hdec] at hobserve

-- ===========================================================================
-- One registration
-- ===========================================================================

/-- A handler call whose response is to have the option. -/
structure Awaits (h : Handling cfg) : Prop where
  token   : h.msg.token.length ≤ kMaxTokenLen
  session : h.session = none
  value   : ∃ v, h.observeValue = some v ∧ v.toNat < 2 ^ 24
  room    : 0 < cfg.maxOptions

/-- The end of a handler that waits for its registration sends replies only. -/
theorem Awaits.finish {h : Handling cfg} (ha : Awaits h) (s : Server cfg) (res : Response) :
    Sends (Replies cfg) (s.finish h res).2 := by
  obtain ⟨v, hv, hsmall⟩ := ha.value
  exact finish_observe s h ha.token ha.session hv hsmall ha.room res

/-- What is registered, and what for. -/
theorem enrolled_some {s : Server cfg} {a : Action} {t : Target} (h : s.enrolled a = some t) :
    ∃ nowMs sender data msg, a = .poll nowMs (some (sender, data)) ∧ s.control = .idle ∧
      Message.decode cfg data = (.none, msg) ∧ IsRequest msg ∧
      (s.scanned nowMs).admitted msg = some t ∧ Registers t msg := by
  cases a with
  | call c => cases h
  | handlerReturns res => cases h
  | poll nowMs rx =>
    simp only [enrolled, Option.bind_eq_bind, Option.bind_eq_some_iff] at h
    obtain ⟨⟨sender, msg⟩, hreg, t', hadm, hif⟩ := h
    obtain ⟨nowMs', data, t'', ha, hidle, hdec, hreq, hadm', hregs⟩ :=
      Naming.registration_some hreg
    cases ha
    obtain rfl : t' = t'' := Option.some.inj (hadm.symm.trans hadm')
    split at hif
    · cases hif
      exact ⟨_, sender, data, msg, rfl, hidle, hdec, hreq, hadm, hregs⟩
    · cases hif

/-- A registration has an option, so there is room for one. -/
theorem registers_room {data : Bytes} {msg : Message} {t : Target}
    (hdec : Message.decode cfg data = (.none, msg)) (h : Registers t msg) :
    0 < cfg.maxOptions := by
  by_contra hnone
  have hobserve := h.2.2
  have hmsg : msg = (Message.decode cfg data).2 := congrArg Prod.snd hdec.symm
  rw [hmsg, Message.findOption_noRoom (by omega)] at hobserve
  cases hobserve

/-- **The response to a registration**, or the handler call that it waits for. The count is read
before the handler runs, so calls of `notify` in the handler do not change it. -/
theorem registers_observe {s : Server cfg} (hidle : s.control = .idle) {data : Bytes}
    {msg : Message} {t : Target} (hdec : Message.decode cfg data = (.none, msg))
    (hreq : IsRequest msg) (hadm : s.admitted msg = some t) (hregs : Registers t msg)
    (hsmall : t.resource.observeSequence.toNat < 2 ^ 24) (sender : Endpoint) :
    Sends (Replies cfg) (s.receive (some (sender, data))).2 ∧
      ∀ h, (s.receive (some (sender, data))).1.control = .handling h → Awaits h := by
  rw [receive_request s sender hdec hreq]
  rcases s.handleRequest_cases msg sender with ⟨hnone, -⟩ | ⟨t', hadm', heq⟩
  · rw [hadm] at hnone
    cases hnone
  obtain rfl : t = t' := Option.some.inj (hadm.symm.trans hadm')
  rw [heq]
  -- a GET has no Block1 option
  rcases s.handleTarget_cases t msg sender with ⟨-, obs, heq⟩ | ⟨opt, hopt, -⟩
  swap
  · rw [block1Option_get hregs.2.1] at hopt
    cases hopt
  have hvalue : (s.handleObserve t msg sender).2 = some t.resource.observeSequence := by
    rw [s.handleObserve_registers hregs]
    exact if_pos (Nat.lt_trans hsmall (by decide))
  rw [heq, hvalue]
  have hawaits : Awaits ((s.withObservers obs).handlingFor msg sender
      (some t.resource.observeSequence) none) :=
    ⟨Message.decode_token hdec, rfl, ⟨_, rfl, hsmall⟩, registers_room hdec hregs⟩
  rcases (s.withObservers obs).runHandler_cases t msg sender (some t.resource.observeSequence)
    none with ⟨f, -, hrun⟩ | ⟨-, hrun⟩
  · rw [hrun]
    refine ⟨sends_cons nofun (sends_nil _), fun h hctl => ?_⟩
    cases hctl
    exact hawaits
  · -- the server's own handler has returned already
    rw [hrun]
    refine ⟨sends_cons nofun (hawaits.finish _ _), fun h hctl => ?_⟩
    dsimp only at hctl
    rw [finish_control] at hctl
    have hkept : ((s.withObservers obs).fillDeferred (s.withObservers obs).allocateDeferred msg
        sender).control = .idle := by
      unfold fillDeferred
      split <;> exact hidle
    rw [hkept] at hctl
    cases hctl

-- ===========================================================================
-- One call of `notify`
-- ===========================================================================

theorem notifying_some {s : Server cfg} {a : Action} {t : Target} (h : s.notifying a = some t) :
    ∃ path payload contentFormat confirmable,
      a = .call (.notify path payload contentFormat confirmable) ∧ s.findTarget path = some t ∧
        t.resource.observable = true := by
  unfold notifying at h
  split at h
  · obtain ⟨hfind, hobservable⟩ := Option.filter_eq_some_iff.1 h
    exact ⟨_, _, _, _, rfl, hfind, hobservable⟩
  · cases h

/-- It counts the resource's sequence number up by one. -/
theorem notify_resources {s : Server cfg} {path : Bytes} {t : Target}
    (hfind : s.findTarget path = some t) (hobservable : t.resource.observable = true)
    (payload : Bytes) (contentFormat : ContentFormat) (confirmable : Bool) :
    (s.notify path payload contentFormat confirmable).1.resources =
      s.resources.set t.index
        { t.resource with observeSequence := t.resource.observeSequence + 1 } := by
  unfold notify
  rw [hfind]
  dsimp only
  rw [if_neg (by simp [hobservable])]
  exact notifyFrom_resources ..

/-- What a call sends, but for its return. -/
theorem datagrams_notify (s : Server cfg) (path payload : Bytes) (contentFormat : ContentFormat)
    (confirmable : Bool) :
    datagrams (s.step (.call (.notify path payload contentFormat confirmable))).2 =
      datagrams (s.notify path payload contentFormat confirmable).2.2 := by
  show datagrams ((s.notify path payload contentFormat confirmable).2.2 ++ [.returned _]) = _
  rw [datagrams_append]
  exact List.append_nil _

section

variable {observers : Table cfg.maxObservers Observer} {index : Nat} {id : UInt16}
  {sequence : UInt32} {payload : Bytes} {contentFormat : ContentFormat} {confirmable : Bool}

/-- A remote and token are sent nothing, or one notification for their entry. -/
theorem carried_key (ht : ∀ i, (observers i).token.length ≤ kMaxTokenLen)
    (hkeyed : observers.Keyed (fun o => o.active = true) fun o => (o.remote, o.token))
    (remote : Endpoint) (token : Bytes) :
    let ds := (numbered observers index id (List.finRange _)).filterMap
      (pushed cfg observers sequence payload contentFormat confirmable)
    carried cfg (keyOf remote token) ds = [] ∨
      ∃ i m, ((observers i).active = true ∧ (observers i).resourceIndex = UInt8.ofNat index ∧
          notificationSize cfg (observers i) sequence payload contentFormat ≤ cfg.maxMsgSize) ∧
        (observers i).remote = remote ∧ (observers i).token = token ∧
        carried cfg (keyOf remote token) ds = [m] ∧
        (0 < cfg.maxOptions → observeOf m = some sequence) := by
  intro ds
  refine or_iff_not_imp_left.2 fun hsome => ?_
  obtain ⟨m, hm⟩ := List.exists_mem_of_ne_nil _ hsome
  obtain ⟨d, hd, hmd⟩ := List.mem_filterMap.1 hm
  obtain ⟨⟨i, k⟩, hn, hpush⟩ := List.mem_filterMap.1 hd
  obtain ⟨m', hdec, hdest, htok, -⟩ := pushed_some ht hpush
  rw [hdec] at hmd
  dsimp only at hmd
  split at hmd
  · next hsame =>
    -- the key is that of the entry it was made for
    obtain rfl : (observers i).remote = remote := hdest.symm.trans hsame.1
    obtain rfl : (observers i).token = token := htok.symm.trans hsame.2
    have hfits := (pushed_isSome ht sequence payload contentFormat confirmable (i, k)).1
      (Option.isSome_iff_exists.2 ⟨d, hpush⟩)
    obtain ⟨-, hactive, hindex⟩ := mem_numbered.1 (List.mem_map_of_mem hn)
    obtain ⟨m'', hone, -, hvalue, hshown⟩ := carried_numbered ht hkeyed hn hfits
    refine ⟨i, m'', ⟨hactive, hindex, hfits⟩, rfl, rfl, hone, fun hroom => ?_⟩
    obtain ⟨v, hv⟩ := Option.isSome_iff_exists.1 (hshown.2 hroom)
    rw [hv, hvalue v hv]
  · cases hmd

end

theorem values_append (index : Nat) (remote : Endpoint) (token : Bytes) (h h' : List Output) :
    values cfg index remote token (h ++ h') =
      values cfg index remote token h ++ values cfg index remote token h' := by
  simp only [values, notedBy, carried, List.filterMap_append]

/-- A response is no notification. -/
@[simp] theorem values_replied (index : Nat) (remote : Endpoint) (token : Bytes)
    (ds : List (Endpoint × Bytes)) :
    values cfg index remote token (ds.map fun d => .replied d.2) = [] := by
  simp [values, notedBy, carried, List.filterMap_map]

/-- A notification is noted for its own resource, and for no other. -/
@[simp] theorem notedBy_notified (index : Nat) (ds : List (Endpoint × Bytes)) :
    notedBy index (ds.map fun d => .notified index d.1 d.2) = ds := by
  simp [notedBy, List.filterMap_map]

theorem notedBy_other {index index' : Nat} (h : index' ≠ index) (ds : List (Endpoint × Bytes)) :
    notedBy index (ds.map fun d => .notified index' d.1 d.2) = [] := by
  simp [notedBy, List.filterMap_map, h]

-- ===========================================================================
-- The count of a resource
-- ===========================================================================

/-- The resource at `index` has counted on from the last of these values. -/
def Counts (rs : List Resource) (index : Nat) : Option Nat → List Nat → Prop
  | none, vs => vs = []
  | some k, vs => ∃ r v, rs[index]? = some r ∧ vs.getLast? = some v ∧ v < 2 ^ 24 ∧
      r.observeSequence.toNat % 2 ^ 24 = (v + k) % 2 ^ 24

/-- The next count of 24 bits. -/
theorem succ_mod (sequence : UInt32) :
    (sequence + 1).toNat % 2 ^ 24 = (sequence.toNat % 2 ^ 24 + 1) % 2 ^ 24 := by
  rw [UInt32.toNat_add, show (1 : UInt32).toNat = 1 from rfl]
  omega

section

variable {rs : List Resource} {index : Nat} {since : Option Nat} {vs : List Nat}

theorem Counts.mono {rs' : List Resource} (h : Counts rs index since vs)
    (hsame : ∀ r, rs[index]? = some r →
      ∃ r', rs'[index]? = some r' ∧ r'.observeSequence = r.observeSequence) :
    Counts rs' index since vs := by
  cases since with
  | none => exact h
  | some k =>
    obtain ⟨r, v, hr, hlast, hv, hcount⟩ := h
    obtain ⟨r', hr', hseq⟩ := hsame r hr
    exact ⟨r', v, hr', hlast, hv, by rwa [hseq]⟩

variable {r : Resource}

/-- A call that sends nothing. -/
theorem Counts.pass (h : Counts rs index since vs) (hr : rs[index]? = some r) :
    Counts (rs.set index { r with observeSequence := r.observeSequence + 1 }) index
      (since.map (· + 1)) vs := by
  cases since with
  | none => exact h
  | some k =>
    obtain ⟨r', v, hr', hlast, hv, hcount⟩ := h
    obtain rfl : r = r' := Option.some.inj (hr.symm.trans hr')
    obtain ⟨hlt, -⟩ := List.getElem?_eq_some_iff.1 hr
    refine ⟨_, v, List.getElem?_set_self hlt, hlast, hv, ?_⟩
    dsimp only
    rw [succ_mod, hcount]
    omega

/-- A call that sends its count. -/
theorem counts_sent (hr : rs[index]? = some r) (vs : List Nat) :
    Counts (rs.set index { r with observeSequence := r.observeSequence + 1 }) index (some 0)
      (vs ++ [(r.observeSequence + 1).toNat % 2 ^ 24]) := by
  obtain ⟨hlt, -⟩ := List.getElem?_eq_some_iff.1 hr
  refine ⟨_, _, List.getElem?_set_self hlt, List.getLast?_concat, Nat.mod_lt _ (by decide), ?_⟩
  simp

/-- **The count that is sent** is newer than the last one, if it comes soon enough. Between the
two the count has gone on by one for each call. -/
theorem Counts.newer (h : Counts rs index since vs) (hr : rs[index]? = some r)
    (hfresh : Fresh since) (hchain : vs.IsChain (Newer (2 ^ 23))) :
    (vs ++ [(r.observeSequence + 1).toNat % 2 ^ 24]).IsChain (Newer (2 ^ 23)) := by
  refine Serial.isChain_snoc.2 ⟨hchain, fun b hb => ?_⟩
  cases since with
  | none =>
    rw [show vs = [] from h] at hb
    cases hb
  | some k =>
    obtain ⟨r', v, hr', hlast, hv, hcount⟩ := h
    obtain rfl : r = r' := Option.some.inj (hr.symm.trans hr')
    obtain rfl : v = b := Option.some.inj (hlast.symm.trans hb)
    have hnext : (r.observeSequence + 1).toNat % 2 ^ 24 = (v + (k + 1)) % (2 * 2 ^ 23) := by
      rw [succ_mod, hcount]
      omega
    rw [hnext]
    exact (Serial.newer_iff hv (k + 1)).2 hfresh

end

-- ===========================================================================
-- The invariant
-- ===========================================================================

/-- What holds in every state of a run. -/
structure Inv (hist : List Output) (w : Counting cfg) : Prop where
  observing : w.server.Observing
  tokens    : w.server.TokensFit
  room      : ∀ i, (w.server.observers i).active = true → 0 < cfg.maxOptions
  pending   : w.registering = true → ∀ h, w.server.control = .handling h → Awaits h
  counted   : ∀ index remote token, Counts w.server.resources index
    (w.since index remote token) (values cfg index remote token hist)
  sequenced : Sequenced cfg hist

theorem inv_init : Inv [] ({} : Counting cfg) where
  observing := ⟨fun _ _ hi => (nomatch hi), fun _ hi => (nomatch hi), Nat.zero_le _⟩
  tokens    := ⟨fun _ => Nat.zero_le _, fun _ => Nat.zero_le _⟩
  room      := fun _ hi => (nomatch hi)
  pending   := fun h => (nomatch h)
  counted   := fun _ _ _ => rfl
  sequenced := ⟨fun _ _ _ h => (nomatch h), fun _ h => (nomatch h), fun _ _ _ => .nil⟩

/-- An entry is new only after a registration, which has an option. -/
theorem room_step {s : Server cfg}
    (h : ∀ i, (s.observers i).active = true → 0 < cfg.maxOptions) (a : Action)
    (i : Fin cfg.maxObservers) (hi : ((s.step a).1.observers i).active = true) :
    0 < cfg.maxOptions := by
  by_contra hnone
  cases hreg : Naming.registration s a with
  | none => exact hnone (h i (Naming.step_moves hreg i hi).1)
  | some r =>
    obtain ⟨nowMs, data, t, -, -, hdec, -, -, hregs⟩ := Naming.registration_some hreg
    exact hnone (registers_room hdec hregs)

/-- Only `notify` counts. -/
theorem counts_step {s : Server cfg} {a : Action} (hnot : s.notifying a = none) {index : Nat}
    {r : Resource} (hr : s.resources[index]? = some r) :
    ∃ r', (s.step a).1.resources[index]? = some r' ∧ r'.observeSequence = r.observeSequence := by
  obtain ⟨hlt, -⟩ := List.getElem?_eq_some_iff.1 hr
  have hadd : ∀ path methods handler userContext observable, ∃ r',
      (s.addResource path methods handler userContext observable).1.resources[index]? = some r' ∧
        r'.observeSequence = r.observeSequence := by
    intro path methods handler userContext observable
    rcases s.addResource_resources path methods handler userContext observable with heq |
      ⟨-, q, -, -, -, heq⟩
    · exact ⟨r, by rw [heq, hr], rfl⟩
    · exact ⟨r, by rw [heq, List.getElem?_append_left hlt, hr], rfl⟩
  have hkept : (s.step a).1.resources = s.resources → ∃ r',
      (s.step a).1.resources[index]? = some r' ∧ r'.observeSequence = r.observeSequence :=
    fun heq => ⟨r, by rw [heq, hr], rfl⟩
  cases a with
  | poll nowMs rx => exact hkept (resources_step nofun)
  | handlerReturns res => exact hkept (resources_step nofun)
  | call c =>
    cases c with
    | begin transportOk =>
      show ∃ r', (s.begin transportOk).1.resources[index]? = some r' ∧ _
      unfold begin
      split
      · exact ⟨r, hr, rfl⟩
      · exact hadd ..
    | addResource path methods handler userContext observable => exact hadd ..
    | setResourceType path rt =>
      -- the one call that writes a resource without counting
      show ∃ r', (s.setResourceType path rt).1.resources[index]? = some r' ∧ _
      unfold setResourceType
      split
      · exact ⟨r, hr, rfl⟩
      · next t ht =>
        by_cases hindex : t.index = index
        · subst hindex
          obtain rfl : t.resource = r := Option.some.inj ((findTarget_index ht).symm.trans hr)
          exact ⟨_, List.getElem?_set_self hlt, rfl⟩
        · exact ⟨r, (List.getElem?_set_ne hindex).trans hr, rfl⟩
    | notify path payload contentFormat confirmable =>
      refine hkept ?_
      show (s.notify path payload contentFormat confirmable).1.resources = _
      rw [Naming.notify_missing]
      intro t ht hobservable
      simp [notifying, ht, hobservable] at hnot
    | respond handle code payload contentFormat =>
      exact hkept (s.respond_frame handle code payload contentFormat).2

-- ===========================================================================
-- The steps
-- ===========================================================================

/-- The datagrams among the events. -/
theorem mem_datagrams {d : Endpoint × Bytes} {ev : List ServerEvent} :
    d ∈ datagrams ev ↔ .sent d.1 d.2 ∈ ev := by
  unfold datagrams
  rw [List.mem_filterMap]
  constructor
  · rintro ⟨e, he, heq⟩
    cases e with
    | sent dest data =>
      cases heq
      exact he
    | handled | returned => cases heq
  · exact fun hmem => ⟨_, hmem, rfl⟩

/-- What a registering step leaves behind: its response, or a handler call that waits for it. -/
theorem poll_observe {s : Server cfg} {nowMs : UInt32} {rx : Option (Endpoint × Bytes)}
    {t : Target} (h : s.enrolled (.poll nowMs rx) = some t)
    (hsmall : t.resource.observeSequence.toNat < 2 ^ 24) :
    Sends (Replies cfg) ((s.scanned nowMs).receive rx).2 ∧
      ∀ h, (s.step (.poll nowMs rx)).1.control = .handling h → Awaits h := by
  obtain ⟨_, sender, data, msg, ha, hidle, hdec, hreq, hadm, hregs⟩ := enrolled_some h
  cases ha
  have hctl : (s.scanned nowMs).control = .idle := (s.scanned_control nowMs).trans hidle
  rw [step_poll_state hidle]
  exact registers_observe hctl hdec hreq hadm hregs hsmall sender

variable {hist : List Output} {w : Counting cfg} {a : Action}

/-- The responses to registrations have the option. -/
theorem Inv.replies (inv : Inv hist w) (hp : Regular w a) :
    ∀ d ∈ w.replies a, Replies cfg d.1 d.2 := by
  cases a with
  | call c => exact fun _ hd => (nomatch hd)
  | poll nowMs rx =>
    dsimp only [Counting.replies]
    split
    · next hsome =>
      obtain ⟨t, ht⟩ := Option.isSome_iff_exists.1 hsome
      intro d hd
      exact (poll_observe ht (hp.1 t ht)).1 d.1 d.2 (mem_datagrams.1 hd)
    · exact fun _ hd => (nomatch hd)
  | handlerReturns res =>
    dsimp only [Counting.replies]
    split
    · next hreg =>
      intro d hd
      have hsent := mem_datagrams.1 hd
      unfold step at hsent
      dsimp only at hsent
      split at hsent
      · cases hsent
      · next h hctl => exact (inv.pending hreg h hctl).finish _ res d.1 d.2 hsent
    · exact fun _ hd => (nomatch hd)

/-- The handler that runs next. -/
theorem Inv.next_pending (inv : Inv hist w) (hp : Regular w a)
    (hreg : w.registeringAfter a = true) (h : Handling cfg)
    (hctl : (w.server.step a).1.control = .handling h) : Awaits h := by
  cases a with
  | call c =>
    have hkept : (w.server.call c).1.control = w.server.control := (w.server.call_keeps c).control
    exact inv.pending hreg h (hkept.symm.trans hctl)
  | handlerReturns res => cases hreg
  | poll nowMs rx =>
    cases hold : w.server.control with
    | idle =>
      simp only [registeringAfter, hold] at hreg
      obtain ⟨t, ht⟩ := Option.isSome_iff_exists.1 hreg
      exact (poll_observe ht (hp.1 t ht)).2 h hctl
    | handling h' =>
      -- the same handler as before
      simp only [registeringAfter, hold] at hreg
      refine inv.pending hreg h ?_
      rw [step_poll_busy hold] at hctl
      exact hctl

/-- A reply that carries no Observe option leaves the sequence alone. -/
theorem Sequenced.replies (h : Sequenced cfg hist) {ds : List (Endpoint × Bytes)}
    (hds : ∀ d ∈ ds, Replies cfg d.1 d.2) :
    Sequenced cfg (hist ++ ds.map fun d => .replied d.2) where
  notified index dest data hmem := by
    rcases List.mem_append.1 hmem with hmem | hmem
    · exact h.notified index dest data hmem
    · simp at hmem
  replied data hmem := by
    rcases List.mem_append.1 hmem with hmem | hmem
    · exact h.replied data hmem
    · obtain ⟨d, hd, heq⟩ := List.mem_map.1 hmem
      cases heq
      exact hds d hd
  newer index remote token := by
    simpa [values_append] using h.newer index remote token

/-- A step that notifies nobody. -/
theorem Inv.other (inv : Inv hist w) (hp : Regular w a) (hnot : w.server.notifying a = none) :
    Inv (hist ++ (w.next a).2) (w.next a).1 := by
  unfold next
  rw [hnot]
  dsimp only
  refine ⟨inv.observing.step a, inv.tokens.step a, room_step inv.room a,
    inv.next_pending hp, fun index remote token => ?_, inv.sequenced.replies (inv.replies hp)⟩
  have hkept := (inv.counted index remote token).mono fun r hr => counts_step hnot hr
  simpa [values_append] using hkept

/-- **The values that a remote and token are sent**, one call further: the new one at the end,
or nothing new. -/
theorem count_values {observers : Table cfg.maxObservers Observer}
    (ht : ∀ i, (observers i).token.length ≤ kMaxTokenLen)
    (hkeyed : observers.Keyed (fun o => o.active = true) fun o => (o.remote, o.token))
    {rs : List Resource} {t : Target} (hr : rs[t.index]? = some t.resource) (id : UInt16)
    {payload : Bytes} {contentFormat : ContentFormat} (confirmable : Bool)
    (hroom : ∀ i, (observers i).active = true → 0 < cfg.maxOptions)
    {since : Nat → Endpoint → Bytes → Option Nat}
    (hfresh : ∀ i, (observers i).active = true →
      (observers i).resourceIndex = UInt8.ofNat t.index →
      notificationSize cfg (observers i) (t.resource.observeSequence + 1) payload contentFormat ≤
        cfg.maxMsgSize → Fresh (since t.index (observers i).remote (observers i).token))
    (index : Nat) (remote : Endpoint) (token : Bytes)
    (hcounts : Counts rs index (since index remote token) (values cfg index remote token hist))
    (hchain : (values cfg index remote token hist).IsChain (Newer (2 ^ 23))) :
    let ds := (numbered observers t.index id (List.finRange _)).filterMap
      (pushed cfg observers (t.resource.observeSequence + 1) payload contentFormat confirmable)
    let hist' := hist ++ ds.map fun d => .notified t.index d.1 d.2
    Counts (rs.set t.index { t.resource with observeSequence := t.resource.observeSequence + 1 })
        index (count cfg since t.index ds index remote token)
        (values cfg index remote token hist') ∧
      (values cfg index remote token hist').IsChain (Newer (2 ^ 23)) := by
  intro ds hist'
  dsimp only [hist', count]
  rw [values_append]
  -- the series of this resource gets at most one value more, and the others get none
  by_cases hindex : index = t.index
  · subst hindex
    rw [if_pos rfl]
    simp only [values, notedBy_notified]
    -- an observer has one entry, so it is sent one notification or none
    rcases carried_key ht hkeyed remote token with hnil | ⟨i, m, ⟨hi, hres, hfits⟩, hrem, htok,
      hone, hvalue⟩
    · rw [if_pos hnil, hnil]
      simpa [values] using ⟨hcounts.pass hr, hchain⟩
    · rw [if_neg (by rw [hone]; exact List.cons_ne_nil _ _), hone]
      have hfresh := hfresh i hi hres hfits
      rw [hrem, htok] at hfresh
      simp only [List.filterMap_cons, hvalue (hroom i hi), Option.map_some, List.filterMap_nil]
      exact ⟨counts_sent hr _, hcounts.newer hr hfresh hchain⟩
  · -- another resource
    rw [if_neg hindex]
    have hnone : values cfg index remote token
        (ds.map fun d => .notified t.index d.1 d.2) = [] := by
      simp only [values, notedBy_other (Ne.symm hindex)]
      rfl
    rw [hnone, List.append_nil]
    refine ⟨hcounts.mono fun r hr' => ⟨r, ?_, rfl⟩, hchain⟩
    exact (List.getElem?_set_ne (Ne.symm hindex)).trans hr'

/-- A step that notifies the observers of a resource. -/
theorem Inv.notify (inv : Inv hist w) (hp : Regular w a) {t : Target}
    (hnot : w.server.notifying a = some t) : Inv (hist ++ (w.next a).2) (w.next a).1 := by
  obtain ⟨path, payload, contentFormat, confirmable, rfl, hfind, hobservable⟩ :=
    notifying_some hnot
  have hregular := hp.2 path payload contentFormat confirmable rfl t hnot
  have hds : datagrams (w.server.step (.call (.notify path payload contentFormat confirmable))).2 =
      _ := (datagrams_notify ..).trans
        (Naming.notify_found hfind hobservable payload contentFormat confirmable).2
  have hres : (w.server.step (.call (.notify path payload contentFormat confirmable))).1.resources =
      _ := notify_resources hfind hobservable payload contentFormat confirmable
  have hctl : (w.server.step (.call (.notify path payload contentFormat confirmable))).1.control =
      w.server.control := (w.server.call_keeps _).control
  have hvalues := fun index remote token => count_values inv.tokens.observers
    inv.observing.keyed (findTarget_index hfind) w.server.nextMessageId confirmable inv.room
    (fun i hi hsame hfits => (hregular i hi hsame hfits).2) index remote token
    (inv.counted index remote token) (inv.sequenced.newer index remote token)
  unfold next
  rw [hnot]
  dsimp only
  rw [hds]
  refine ⟨inv.observing.step _, inv.tokens.step _, room_step inv.room _, fun hreg h hh =>
    inv.pending hreg h (hctl.symm.trans hh), fun index remote token => ?_, ?_⟩
  · rw [hres]
    exact (hvalues index remote token).1
  · refine ⟨fun index dest data hmem => ?_, fun data hmem => ?_, fun index remote token =>
      (hvalues index remote token).2⟩
    · rcases List.mem_append.1 hmem with hmem | hmem
      · exact inv.sequenced.notified index dest data hmem
      · -- one of the new ones
        obtain ⟨d, hd, heq⟩ := List.mem_map.1 hmem
        cases heq
        obtain ⟨⟨i, k⟩, hn, hpush⟩ := List.mem_filterMap.1 hd
        obtain ⟨-, hi, hsame⟩ := mem_numbered.1 (List.mem_map_of_mem hn)
        have hfits := (pushed_isSome inv.tokens.observers _ payload contentFormat confirmable
          (i, k)).1 (Option.isSome_iff_exists.2 ⟨d, hpush⟩)
        exact pushed_observe inv.tokens.observers (inv.room i hi) (hregular i hi hsame hfits).1
          hpush
    · rcases List.mem_append.1 hmem with hmem | hmem
      · exact inv.sequenced.replied data hmem
      · simp at hmem

/-- **What one step preserves.** Only `notify` counts; the other steps send no notification. -/
theorem Inv.step (inv : Inv hist w) (hp : Regular w a) :
    Inv (hist ++ (w.next a).2) (w.next a).1 := by
  cases hnot : w.server.notifying a with
  | none => exact inv.other hp hnot
  | some t => exact inv.notify hp hnot

/-- **The sequence numbers**: in every run whose counts do not leave the 24 bits, the Observe
option is in all that is to have it, with 3 bytes at most, and each notification has a newer
value than the one before. The order is that of RFC 7641 on 24 bits. -/
theorem sequenced_of_run (run : (machine cfg).Run Regular hist w) : Sequenced cfg hist :=
  (run.invariant (I := Inv) inv_init fun _ inv hp => inv.step hp).sequenced

-- ===========================================================================
-- Two runs
-- ===========================================================================

def addRoot : Action := .call (.addResource (some [Uri.slash]) methodGet (some 0) none true)

/-- A notification of the resource `"/"`. -/
def notifyRoot : Action := .call (.notify [Uri.slash] [0x2A] .textPlain false)

/-- A registration for it, and the return of the handler. -/
def registerRoot : List Action :=
  [.poll 0 (some ({}, registration 7 0xA0)), .handlerReturns oneByte]

/-- `"/"` after `k` calls of `notify` that have found no observer. -/
def rootAfter (k : Nat) : Counting .default where
  server :=
    { resources := [{ observableTarget.resource with observeSequence := UInt32.ofNat k }] }

/-- Without observers nothing is sent. -/
theorem notifyFrom_idle (index : Nat) (sequence : UInt32) (payload : Bytes)
    (contentFormat : ContentFormat) (confirmable : Bool) {s : Server cfg}
    (h : ∀ i, (s.observers i).active = false) (is : List (Fin cfg.maxObservers)) :
    s.notifyFrom index sequence payload contentFormat confirmable is = (s, []) := by
  induction is with
  | nil => rfl
  | cons i is ih =>
    unfold notifyFrom
    rw [if_neg (by simp [h i]), ih]

/-- Each `notify` counts, also when nobody is there to hear it. -/
theorem next_rootAfter (k : Nat) : (rootAfter k).next notifyRoot = (rootAfter (k + 1), []) := by
  have hfind : (rootAfter k).server.findTarget [Uri.slash] = some
      ⟨0, { observableTarget.resource with observeSequence := UInt32.ofNat k }, [], 0⟩ := rfl
  have hsequence : UInt32.ofNat k + 1 = UInt32.ofNat (k + 1) := (UInt32.ofNat_add k 1).symm
  have hnotify : (rootAfter k).server.notify [Uri.slash] [0x2A] .textPlain false =
      ((rootAfter (k + 1)).server, true, []) := by
    unfold Server.notify
    rw [hfind]
    dsimp only
    rw [if_neg (by decide), notifyFrom_idle _ _ _ _ _ (fun _ => rfl), hsequence]
    rfl
  have hstep : (rootAfter k).server.step notifyRoot =
      ((rootAfter (k + 1)).server, [.returned true]) := by
    show ((Server.notify _ _ _ _ _).1, (Server.notify _ _ _ _ _).2.2 ++ [.returned _]) = _
    rw [hnotify]
    rfl
  have hnotifying : (rootAfter k).server.notifying notifyRoot = some
      ⟨0, { observableTarget.resource with observeSequence := UInt32.ofNat k }, [], 0⟩ := by
    simp only [notifying, notifyRoot, hfind]
    rfl
  unfold next
  rw [hnotifying, hstep]
  refine Prod.ext ?_ rfl
  dsimp only [rootAfter]
  congr 1
  funext index remote token
  simp [count, datagrams, carried]

/-- Any number of them. -/
theorem run_rootAfter (k : Nat) : (machine .default).Run (fun _ _ => True) [] (rootAfter k) := by
  induction k with
  | zero =>
    exact .step (a := addRoot) .start trivial
  | succ k ih =>
    have hstep := ih.step (a := notifyRoot) trivial
    rw [show (machine .default).next (rootAfter k) notifyRoot = _ from next_rootAfter k] at hstep
    exact hstep

/-- The first two notifications of a registration. -/
def twoNotifications : List Output × Counting .default :=
  (machine .default).exec [] (rootAfter 0) (registerRoot ++ [notifyRoot, notifyRoot])

/-- A step that neither registers nor notifies is regular. -/
theorem regular_quiet {w : Counting cfg} {a : Action} (henrolled : w.server.enrolled a = none)
    (hnot : w.server.notifying a = none) : Regular w a := by
  refine ⟨fun t ht => ?_, fun _ _ _ _ _ t ht => ?_⟩
  · rw [henrolled] at ht
    cases ht
  · rw [hnot] at ht
    cases ht

/-- Their values are 1 and 2. -/
theorem sequenced_of_run_two : Sequenced .default twoNotifications.1 ∧
    values .default 0 {} [0xA0] twoNotifications.1 = [1, 2] := by
  have hstart : (machine .default).Run Regular [] (rootAfter 0) :=
    .step (a := addRoot) .start (regular_quiet (by decide) (by decide))
  have hnotify : ∀ w : Counting .default, (∀ t ∈ w.server.notifying notifyRoot,
      ∀ i, notificationSize .default (w.server.observers i) (t.resource.observeSequence + 1)
        [0x2A] .textPlain ≤ 256 → (t.resource.observeSequence + 1).toNat < 2 ^ 24 ∧
          Fresh (w.since t.index (w.server.observers i).remote (w.server.observers i).token)) →
      Regular w notifyRoot := by
    intro w h
    refine ⟨fun t ht => (nomatch ht), ?_⟩
    rintro _ _ _ _ ⟨⟩ t ht i - - hfits
    exact h t ht i hfits
  refine ⟨sequenced_of_run (hstart.exec ⟨⟨?_, nofun⟩, ?_, hnotify _ ?_, hnotify _ ?_, trivial⟩), ?_⟩
  · decide +kernel
  · exact regular_quiet (by decide +kernel) (by decide +kernel)
  · decide +kernel
  · decide +kernel
  · decide +kernel

/-- A registration when `notify` has been called 2^24 - 1 times, and the next notification. -/
def lastNotification : List Output × Counting .default :=
  (machine .default).exec [] (rootAfter (2 ^ 24 - 1)) (registerRoot ++ [notifyRoot])

/-- Its Observe option has 4 bytes. -/
theorem not_sequenced : ¬ ∀ hist w, (machine .default).Run (fun _ _ => True) hist w →
    Sequenced .default hist := by
  intro hall
  have hrun : (machine .default).Run (fun _ _ => True) lastNotification.1 lastNotification.2 :=
    (run_rootAfter _).exec (Machine.meets_of_forall (fun _ _ => trivial) _ _)
  have hmem : Output.notified 0 {} [0x51, 0x45, 0x00, 0x01, 0xA0, 0x64, 0x01, 0x00, 0x00, 0x00,
      0x60, 0xFF, 0x2A] ∈ lastNotification.1 := by
    decide +kernel
  obtain ⟨m, hdec, o, ho, hlen⟩ := (hall _ _ hrun).notified _ _ _ hmem
  have hoption : ((Message.decode .default [0x51, 0x45, 0x00, 0x01, 0xA0, 0x64, 0x01, 0x00, 0x00,
      0x00, 0x60, 0xFF, 0x2A]).2.findOption OptionNumber.observe).map (·.length) = some 4 := by
    decide +kernel
  rw [hdec, ho] at hoption
  rw [show o.length = 4 from Option.some.inj hoption] at hlen
  exact absurd hlen (by decide)

end Counting

end Server

end PulseCoap
