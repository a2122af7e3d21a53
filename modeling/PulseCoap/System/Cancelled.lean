import PulseCoap.Client.Correlation
import PulseCoap.Client.Ending
import PulseCoap.Codec.Operations
import PulseCoap.Exchange.Block
import PulseCoap.Server.LastSent
import PulseCoap.Server.Registration
import PulseCoap.Server.Settled
import PulseCoap.Server.Subscribers
import PulseCoap.System.Model

/-!
# PulseCoAP — a cancelled subscription

`cancelObserve` frees the slot of the subscription and sends a GET with Observe 1.
The server removes the entry with the remote and the token of that request. But the
request is one of its own, with the next token byte, and the entry has the token of
the registration: it stays, unless the byte has come round to it.

`Cancelling` is a client and a server with the registrations and the deregister
requests that the client has sent, the registrations that are revoked, as the server
has read the request, the registration that each entry was last written by, and the
other subscriptions that have lost their entry at the server or their slot at the
client: the token is one byte, so the subscription that a request or an answer names
by it may be another one by then.

The condition `InTime` has six parts: the deregister request is given the token of
the subscription, when the server reads it no other open subscription has that
token, its path leads to a resource that can be observed, no registration that is
revoked arrives behind it, and when the server gives up a message with this token,
or the client this request or the registration it is for, what goes with it does not
belong to an open subscription. What is concluded is about the other subscriptions of
the client as well: none of this costs one of them its entry or its slot.

* `observe_decode` — a request with an Observe option, as the server reads it.
* `entry_step` — where an entry of the table comes from.
* `entry_removed` — a deregister request that has the token of the entry.
* `Inv.stands_server` — every entry of the client stands on a registration that is
  not revoked.
* `Inv.disturbs`, `Inv.drops`, `closes_nil` — a request or a message whose token no
  open subscription has leaves their entries and their slots alone.
* `deregistered` — with the token of its subscription, and of no other that is open,
  the request ends it for good, and nothing else.
* `spend` — the token byte comes round when calls are refused.
* `not_deregistered` — the token is another one, and the notifications go on.
* `Cancels` — the conclusion, in every state of a run.
* `disturbed_run`, `dropped_run`, `closed_run` — runs in which the token has come
  round to another subscription.
-/

namespace PulseCoap

variable {cfg : Config}

-- ===========================================================================
-- The deregister request on the wire
-- ===========================================================================

namespace Client

/-- The first option of a message always finds room. -/
theorem addOptionUint_first {m : Message} (hm : m.options = []) (hroom : 0 < cfg.maxOptions)
    (number : UInt16) (v : UInt32) : (m.addOptionUint cfg number v).2 = true := by
  rw [Message.addOptionUint_eq]
  unfold Message.addOption
  rw [hm, if_neg (by rw [List.length_nil]; omega),
    if_neg (fun h => absurd h.1 (by rw [List.length_nil]; omega))]

/-- **A GET with an Observe option on the wire**: the option goes first, so it is there whenever
there is room for any. Its value says whether it registers or deregisters. -/
theorem observe_decode {messageId : UInt16} {token : UInt8} {v : UInt32} {path : Bytes}
    {sendOk : Bool} {buf : Bytes}
    (h : transmit cfg (buildRequest cfg .confirmable messageId [token] Code.get (some v) path []
      .textPlain) sendOk = some buf) :
    ∃ msg, Message.decode cfg buf = (.none, msg) ∧ msg.type = .confirmable ∧
      msg.code = Code.get ∧ msg.token = [token] ∧
      (msg.findOption OptionNumber.observe).map Message.optionAsUint =
        if 0 < cfg.maxOptions then some v else none := by
  -- the message is built in three steps, and the Observe option comes before the path
  obtain ⟨m, hm, henc⟩ := transmit_some h
  let bare := opened .confirmable messageId [token] Code.get
  let first := (bare.addOptionUint cfg OptionNumber.observe v).1
  have hshape : (Uri.addSegments cfg first (Uri.segments path)).2 = true ∧
      m = (Uri.addSegments cfg first (Uri.segments path)).1 := by
    have hrequest : (if !(Uri.addSegments cfg first (Uri.segments path)).2 then none
        else some (Uri.addSegments cfg first (Uri.segments path)).1) = some m := hm
    split at hrequest
    · cases hrequest
    · next hok => exact ⟨by simpa using hok, (Option.some.inj hrequest).symm⟩
  obtain ⟨hok, hsegs⟩ := hshape
  have hopened : Message.Built cfg bare :=
    ((((Message.built_reset cfg).run (.setType .confirmable)).run (.setMessageId messageId)).run
      (.setToken [token])).run (.setCode Code.get)
  have hbuilt : Message.Built cfg m := by
    rw [hsegs]
    exact Uri.addSegments_built (Uri.segments path) (hopened.run (.addOptionUint _ v))
  have hheader : Message.SameHeader bare m := by
    rw [hsegs]
    exact (Message.sameHeader_addOptionUint cfg bare OptionNumber.observe v).trans
      (Message.sameHeader_addUriPathOptions cfg first path)
  obtain rfl := encode_wire hbuilt henc
  have hsame := Message.sameContent_decode hbuilt.toWellFormed
  refine ⟨(Message.decode cfg m.wire).2, Message.decodes_wire hbuilt.toWellFormed,
    hsame.type.trans hheader.type, hsame.code.trans hheader.code,
    hsame.token.trans hheader.token, ?_⟩
  -- the option is there if the table has any room at all
  by_cases hroom : 0 < cfg.maxOptions
  · rw [if_pos hroom, Message.findOption_decode hbuilt.toWellFormed]
    obtain ⟨o, hopts, hentry⟩ := Message.addOptionUint_accepted
      (addOptionUint_first (m := bare) rfl hroom OptionNumber.observe v)
    -- the Uri-Path options, if they all fitted, stand behind it
    have hfirst : m.options = o :: (Uri.segments path).map Uri.segmentOption := by
      rw [hsegs, Uri.addSegments_eq _ _ hok]
      show first.options ++ _ = _
      rw [hopts]
      rfl
    have hnum : o.number = OptionNumber.observe :=
      UInt16.toNat_inj.1 (congrArg Prod.fst hentry)
    have hfind : m.findOption OptionNumber.observe = some o := by
      unfold Message.findOption
      rw [hfirst, List.find?_cons_of_pos (by simpa using hnum)]
    rw [hfind, Option.map_some, Option.map_some, hentry]
    exact congrArg some (Message.uintOption_entry _ _).value
  · rw [if_neg hroom, Message.findOption_noRoom (by omega)]
    rfl

/-- An `observe` that gets a datagram out has sent its registration. -/
theorem observe_sent {c : Client cfg} {server dest : Endpoint} {path data : Bytes}
    {onResponse userContext : Option Ref} {sendOk : Bool}
    (h : .sent dest data ∈ (c.observe server path onResponse userContext sendOk).2.2) :
    transmit cfg (buildRequest cfg .confirmable c.nextMessageId [c.nextTokenByte] Code.get
      (some kObserveRegister) path [] .textPlain) sendOk = some data := by
  unfold observe at h
  rcases sendRequest_cases c _ sendOk with ⟨-, heq⟩ | ⟨j, -, -, heq⟩ | ⟨j, buf, -, hdat, heq⟩
  · rw [heq] at h
    cases h
  · rw [heq] at h
    cases h
  · rw [heq] at h
    rcases List.mem_cons.1 h with h | h
    · cases h
      exact hdat
    · cases List.mem_singleton.1 h

/-- `cancelObserve` gives the slot of the subscription back and sends a request of its own. -/
theorem cancelObserve_eq {c : Client cfg} {server : Endpoint} {path : Bytes}
    {i : Fin cfg.maxTransactions} (hfind : c.findObserve server path = some i) (sendOk : Bool) :
    c.cancelObserve server path sendOk =
      (c.release i).sendRequest (deregisterArgs server path (c.slots i).pending) sendOk := by
  unfold cancelObserve
  simp only [hfind]
  rfl

/-- A `cancelObserve` that gets a datagram out has found its subscription. -/
theorem cancelObserve_sent {c : Client cfg} {server dest : Endpoint} {path data : Bytes}
    {sendOk : Bool} (h : .sent dest data ∈ (c.cancelObserve server path sendOk).2.2) :
    ∃ i, c.findObserve server path = some i ∧
      transmit cfg ((deregisterArgs server path (c.slots i).pending).request cfg c.nextMessageId
        c.nextTokenByte) sendOk = some data := by
  cases hfind : c.findObserve server path with
  | none =>
    unfold cancelObserve at h
    simp only [hfind] at h
    cases h
  | some i =>
    refine ⟨i, rfl, ?_⟩
    rw [cancelObserve_eq hfind] at h
    rcases sendRequest_cases (c.release i) (deregisterArgs server path (c.slots i).pending)
      sendOk with ⟨-, heq⟩ | ⟨j, -, -, heq⟩ | ⟨j, buf, -, hdat, heq⟩
    · rw [heq] at h
      cases h
    · rw [heq] at h
      cases h
    · rw [heq] at h
      rcases List.mem_cons.1 h with h | h
      · cases h
        exact hdat
      · cases List.mem_singleton.1 h

/-- `cancelObserve` leaves the slots of the other requests alone. -/
theorem cancelObserve_slots (c : Client cfg) {server : Endpoint} {path : Bytes} (sendOk : Bool)
    {i j : Fin cfg.maxTransactions} (hfind : c.findObserve server path = some i) (hij : j ≠ i)
    (hj : (c.slots j).pending.active = true) :
    (c.cancelObserve server path sendOk).1.slots j = c.slots j := by
  have hkept : (c.release i).slots j = c.slots j := Table.set_ne _ _ hij
  rw [cancelObserve_eq hfind, ← issue_noPayload _ rfl, issue_slots (c.release i) sendOk
    (fun hb => by rw [deregister_blockwise] at hb; cases hb) (by rwa [hkept]), hkept]

end Client

-- ===========================================================================
-- The entries of the server
-- ===========================================================================

namespace Server

/-- An entry that is there after the observers moved was there before. -/
theorem HasEntry.moved {s s' : Server cfg}
    (h : ∀ i, ObserverMoves (s.observers i) (s'.observers i)) {remote : Endpoint} {token : Bytes}
    (hentry : s'.HasEntry remote token) : s.HasEntry remote token := by
  obtain ⟨i, hi⟩ := hentry
  obtain ⟨hact, hrem, htok⟩ := observes_iff.1 hi
  obtain ⟨hold, hrem', htok', -⟩ := h i hact
  exact ⟨i, observes_iff.2 ⟨hold, hrem'.symm.trans hrem, htok'.symm.trans htok⟩⟩

/-- **Where an entry comes from**: it was there, or this step registers it. No other step writes
an entry that was free. -/
theorem entry_step {s : Server cfg} {a : Action} {remote : Endpoint} {token : Bytes}
    (h : (s.step a).1.HasEntry remote token) :
    s.HasEntry remote token ∨
      ∃ msg, Naming.registration s a = some (remote, msg) ∧ msg.token = token := by
  -- a step that registers writes one entry; any other only takes entries away
  cases hreg : Naming.registration s a with
  | some r =>
    obtain ⟨sender, msg⟩ := r
    obtain ⟨nowMs, data, t, rfl, hidle, hdec, hreq, hadm, hregs⟩ := Naming.registration_some hreg
    rw [step_request hidle hdec hreq] at h
    have hobs := ((s.scanned nowMs).keepsTables_registers hadm hregs sender).observers
    have hscan : (s.scanned nowMs).HasEntry remote token → s.HasEntry remote token :=
      HasEntry.moved (s.scanned_observers nowMs)
    obtain ⟨j, hj⟩ := h
    rw [hobs] at hj
    rcases (s.scanned nowMs).register_cases (UInt8.ofNat t.index) sender msg.token msg.messageId
      with ⟨i, -, heq⟩ | ⟨-, -, heq⟩
    · rw [heq] at hj
      by_cases hji : j = i
      · -- the new entry
        subst hji
        dsimp only [withObservers] at hj
        rw [Table.set_self] at hj
        obtain ⟨-, hrem, htok⟩ := observes_iff.1 hj
        exact .inr ⟨msg, by rw [← hrem]; rfl, htok⟩
      · dsimp only [withObservers] at hj
        rw [Table.set_ne _ _ hji] at hj
        exact .inl (hscan ⟨j, hj⟩)
    · rw [heq] at hj
      exact .inl (hscan ⟨j, hj⟩)
  | none => exact .inl (HasEntry.moved (Naming.step_moves hreg) h)

/-- What the Observe option of a request that is not a registration makes of the entries. -/
theorem handleRequest_observers (s : Server cfg) {msg : Message} (sender : Endpoint)
    (hnot : ∀ t, ¬ Registers t msg) (i : Fin cfg.maxObservers) :
    ((s.handleRequest msg sender).1.observers i = s.observers i) ∨
      observes sender msg.token (s.observers i) = true := by
  by_cases hi : observes sender msg.token (s.observers i) = true
  · exact .inr hi
  refine .inl ?_
  rcases s.keepsTables_request msg sender with ⟨-, hk⟩ | ⟨t, -, hk⟩
  · rw [hk.observers]
  · rw [hk.observers]
    rcases s.handleObserve_cases t msg sender with ⟨hreg, -⟩ | ⟨-, heq⟩ | ⟨-, -, heq⟩
    · exact absurd hreg (hnot t)
    · rw [heq, removeObserver_observers, if_neg hi]
    · rw [heq]

/-- **A deregister request ends the subscription whose token it has**, if it comes to an
observable resource; which path it names does not matter beyond that. -/
theorem entry_removed {s : Server cfg} {msg : Message} {t : Target}
    (hadm : s.admitted msg = some t) (hdereg : Deregisters t msg) (sender : Endpoint) :
    ¬ (s.handleRequest msg sender).1.HasEntry sender msg.token := by
  rintro ⟨i, hi⟩
  rcases s.keepsTables_request msg sender with ⟨hnone, -⟩ | ⟨t', had, hk⟩
  · exact nomatch hadm.symm.trans hnone
  · obtain rfl : t = t' := Option.some.inj (hadm.symm.trans had)
    rw [hk.observers] at hi
    rcases s.handleObserve_cases t msg sender with ⟨hreg, -⟩ | ⟨-, heq⟩ | ⟨-, hnot, -⟩
    · obtain ⟨v, hv, hne⟩ := hdereg.2.2
      rw [hreg.2.2] at hv
      exact absurd (Option.some.inj hv).symm hne
    · rw [heq, removeObserver_observers] at hi
      split at hi
      · exact nomatch (observes_iff.1 hi).1
      · exact absurd hi ‹_›
    · exact absurd hdereg hnot

end Server

-- ===========================================================================
-- Cancelled subscriptions
-- ===========================================================================

/-- A client and a server. With them the registrations that the client has asked for and
the deregister requests it has sent, both with the tokens of their subscriptions; the
registrations that are revoked, as the server has read the request, and the registration
that each entry of the client was last written by (the newest first). The last three are
the open subscriptions that have lost something by it: their entry when the server read such
a request or gave up a message with its token, or their slot when the client gave up a request
of one that is over. -/
structure Cancelling (cfg : Config) where
  sys       : System cfg := {}
  asked     : List (Bytes × Bytes) := []
  cancelled : List (Bytes × Bytes) := []
  revoked   : List Bytes := []
  entered   : List (Bytes × Bytes) := []
  disturbed : List Bytes := []
  dropped   : List Bytes := []
  closed    : List Bytes := []

namespace Cancelling

open Server (Naming)

/-- The subscription that this step cancels, by its token, and the request that is sent. -/
def cancellation (link : Link) (c : Client cfg) : Client.Action → List (Bytes × Bytes)
  | .call (.cancelObserve server path) sendOk =>
    match c.findObserve server path with
    | some i =>
      (System.clientData link.server (c.step (.call (.cancelObserve server path) sendOk)).2).map
        fun data => ((c.slots i).pending.token, data)
    | none => []
  | _ => []

/-- The subscription that this step asks for, by its token, and the request that is sent. -/
def subscription (link : Link) (c : Client cfg) : Client.Action → List (Bytes × Bytes)
  | .call (.observe server path onResponse userContext) sendOk =>
    (System.clientData link.server
      (c.step (.call (.observe server path onResponse userContext) sendOk)).2).map
        fun data => ([c.nextTokenByte], data)
  | _ => []

/-- The slots of the subscriptions the client has open, at this server or another. -/
def openSlots (c : Client cfg) : List (Fin cfg.maxTransactions) :=
  (List.finRange cfg.maxTransactions).filter fun j =>
    (c.slots j).pending.active && (c.slots j).pending.observing

/-- The tokens of those at the server. -/
def openTokens (link : Link) (c : Client cfg) : List Bytes :=
  ((openSlots c).filter fun j => (c.slots j).pending.server == link.server).map fun j =>
    (c.slots j).pending.token

/-- The call deregisters, or it has subscribed and the subscription has no slot any more. -/
def Over (c : Client cfg) (owner : Call) : Prop :=
  owner.kind = .deregister ∨
    owner.kind = .observe ∧ ∀ j ∈ openSlots c, (c.slots j).pending.call ≠ owner

instance (c : Client cfg) (owner : Call) : Decidable (Over c owner) :=
  inferInstanceAs (Decidable (_ ∨ _ ∧ _))

/-- The token of the request that the client gives up in this step, when it is one of a
subscription that is over: it is reset, or its last wait has passed. -/
def givesUp (c : Client cfg) (a : Client.Action) : Option Bytes :=
  ((c.givenUp a).filter fun t => Over c (c.transactions t).owner).map
    fun t => (c.transactions t).token

/-- The open subscriptions whose slots the end of such a request changes. -/
def closes (c : Client cfg) (a : Client.Action) : List Bytes :=
  match givesUp c a with
  | some _ =>
    ((openSlots c).filter fun j =>
      ((c.step a).1.slots j).pending ≠ (c.slots j).pending).map fun j => (c.slots j).pending.token
  | none => []

/-- The tokens whose deregister request the server reads in this step. -/
def endsNow (link : Link) (w : Cancelling cfg) : Server.Action → List Bytes
  | .poll _ (some (sender, data)) =>
    if w.sys.server.control = .idle ∧ sender = link.client then
      (w.cancelled.filter fun x => x.2 = data).map Prod.fst
    else []
  | _ => []

/-- The registrations that are over with that: all the client has sent under this token. -/
def revokes (link : Link) (w : Cancelling cfg) (a : Server.Action) : List Bytes :=
  (w.asked.filter fun x => x.1 ∈ w.endsNow link a).map Prod.snd

/-- The registration of the client that the server reads in this step, with its token. -/
def enters (link : Link) (s : Server cfg) : Server.Action → List (Bytes × Bytes)
  | .poll nowMs (some (sender, data)) =>
    match Naming.registration s (.poll nowMs (some (sender, data))) with
    | some (remote, msg) => if remote = link.client then [(msg.token, data)] else []
    | none => []
  | _ => []

/-- The tokens of the messages to the client that the pool scan of this step gives up. -/
def expires (link : Link) (s : Server cfg) : Server.Action → List Bytes
  | .poll nowMs _ =>
    match s.control with
    | .idle =>
      (List.finRange _).filterMap fun i =>
        match (TransactionPool.tickSlot cfg nowMs (s.txPool i)).2 with
        | some (.timeout remote token) => if remote = link.client then some token else none
        | _ => none
    | .handling _ => []
  | _ => []

/-- The open subscriptions whose entries go with a message that is given up, when a deregister
request was sent with its token. -/
def drops (link : Link) (w : Cancelling cfg) (a : Server.Action) : List Bytes :=
  match a with
  | .poll nowMs _ =>
    (openTokens link w.sys.client).filter fun token =>
      token ∈ w.cancelled.map Prod.fst ∧ w.sys.server.control = .idle ∧
        ∃ i, Server.observes link.client token (w.sys.server.observers i) = true ∧
          (w.sys.server.scanned nowMs).observers i ≠ w.sys.server.observers i
  | _ => []

/-- The open subscriptions whose entries a deregister request changes. -/
def disturbs (link : Link) (w : Cancelling cfg) (a : Server.Action) : List Bytes :=
  match a with
  | .poll nowMs (some _) =>
    if w.endsNow link a = [] then []
    else
      (openTokens link w.sys.client).filter fun token =>
        ∃ i, Server.observes link.client token ((w.sys.server.scanned nowMs).observers i) = true ∧
          (w.sys.server.step a).1.observers i ≠ (w.sys.server.scanned nowMs).observers i
  | _ => []

/-- One step. -/
def next (link : Link) (w : Cancelling cfg) (a : System.Action) :
    Cancelling cfg × List System.Event :=
  let sys := w.sys.next link a
  match a with
  | .client a =>
    ({ w with
        sys := sys.1
        asked := w.asked ++ subscription link w.sys.client a
        cancelled := w.cancelled ++ cancellation link w.sys.client a
        closed := w.closed ++ closes w.sys.client a }, sys.2)
  | .server a =>
    ({ w with
        sys := sys.1
        revoked := w.revoked ++ w.revokes link a
        entered := enters link w.sys.server a ++ w.entered
        disturbed := w.disturbed ++ w.disturbs link a
        dropped := w.dropped ++ w.drops link a }, sys.2)

def machine (cfg : Config) (link : Link) :
    Machine (Cancelling cfg) System.Action System.Event where
  init := {}
  next := next link

/-- The path of the request leads to a resource that can be observed. -/
def LeadsToObservable (s : Server cfg) : Server.Action → Prop
  | .poll nowMs (some (_, data)) =>
    ∃ t ∈ (s.scanned nowMs).admitted (Message.decode cfg data).2, t.resource.observable = true
  | _ => True

instance (s : Server cfg) : ∀ a, Decidable (LeadsToObservable s a)
  | .poll _ (some _) => inferInstanceAs (Decidable (∃ _ ∈ _, _))
  | .poll _ none | .call _ | .handlerReturns _ => .isTrue trivial

/-- The request of a `cancelObserve` is given the token of the subscription. When the server
reads it no other subscription with this token is open, and the resource is found; and no
registration that is revoked comes late. When the server gives up a message with the token of
such a request, no subscription with this token is open either. When the client gives up the
request or the registration, the first slot with its token is not that of an open
subscription. -/
def InTime (link : Link) (w : Cancelling cfg) (a : System.Action) : Prop :=
  System.Carried link w.sys a ∧
    match a with
    | .client a =>
      (∀ x ∈ cancellation link w.sys.client a, x.1 = [w.sys.client.nextTokenByte]) ∧
        ∀ token ∈ givesUp w.sys.client a, ∀ j ∈ openSlots w.sys.client,
          w.sys.client.findPendingByToken token ≠ some j
    | .server a =>
      (∀ x ∈ enters link w.sys.server a, x.2 ∉ w.revoked) ∧
        (w.endsNow link a ≠ [] → LeadsToObservable w.sys.server a) ∧
        (∀ token ∈ w.endsNow link a, token ∉ openTokens link w.sys.client) ∧
        ∀ token ∈ expires link w.sys.server a, token ∈ w.cancelled.map Prod.fst →
          token ∉ openTokens link w.sys.client

instance (link : Link) (w : Cancelling cfg) : ∀ a, Decidable (InTime link w a)
  | .client _ => inferInstanceAs (Decidable (_ ∧ (∀ _ ∈ _, _) ∧ ∀ _ ∈ _, ∀ _ ∈ _, _))
  | .server _ =>
    inferInstanceAs (Decidable (_ ∧ (∀ _ ∈ _, _) ∧ (_ → _) ∧ (∀ _ ∈ _, _) ∧ ∀ _ ∈ _, _ → _))

/-- The entry with the token is one that a registration has made that is not revoked. -/
def Stands (w : Cancelling cfg) (token : Bytes) : Prop :=
  ∃ data, w.entered.lookup token = some data ∧ data ∉ w.revoked

/-- Of a registration whose deregister request was read nothing is left in the table, and
`notify` sends the client nothing on behalf of it. A `cancelObserve` leaves the other
requests of the client alone, and a deregister request the other entries: those of
other tokens whenever it is read, and no open subscription has ever lost its own to one, or
to a message with its token that the server gave up, or its slot at the client. -/
structure Cancels (link : Link) (w : Cancelling cfg) : Prop where
  gone        : ∀ token, w.sys.server.HasEntry link.client token → w.Stands token
  silent      : ∀ path payload contentFormat confirmable data,
    .sent link.client data ∈
        (w.sys.server.notify path payload contentFormat confirmable).2.2 →
      ∃ msg, Message.decode cfg data = (.none, msg) ∧ w.Stands msg.token
  clientKeeps : ∀ server path sendOk i j, w.sys.client.findObserve server path = some i → j ≠ i →
    (w.sys.client.slots j).pending.active = true →
      (w.sys.client.cancelObserve server path sendOk).1.slots j = w.sys.client.slots j
  serverKeeps : ∀ x ∈ w.cancelled, w.sys.server.control = .idle → ∀ nowMs i,
    ¬ Server.observes link.client x.1 ((w.sys.server.scanned nowMs).observers i) = true →
      (w.sys.server.step (.poll nowMs (some (link.client, x.2)))).1.observers i =
        (w.sys.server.scanned nowMs).observers i
  undisturbed : w.disturbed = []
  undropped   : w.dropped = []
  unclosed    : w.closed = []

-- ===========================================================================
-- The invariant
-- ===========================================================================

/-- What is known of the deregister request of a subscription. -/
structure Asks (cfg : Config) (token : Bytes) (msg : Message) : Prop where
  request : Server.IsRequest msg
  code    : msg.code = Code.get
  token   : msg.token = token
  option  : (msg.findOption OptionNumber.observe).map Message.optionAsUint =
    if 0 < cfg.maxOptions then some kObserveDeregister else none

/-- A deregister request registers nobody. -/
theorem Asks.not_registers {token : Bytes} {msg : Message} (h : Asks cfg token msg)
    (t : Server.Target) : ¬ Server.Registers t msg := by
  rintro ⟨-, -, hopt⟩
  rw [h.option] at hopt
  split at hopt
  · exact absurd (Option.some.inj hopt) (by decide : kObserveDeregister ≠ kObserveRegister)
  · cases hopt

/-- It deregisters, if there is room to read its Observe option. -/
theorem Asks.deregisters {token : Bytes} {msg : Message} (h : Asks cfg token msg)
    (hroom : 0 < cfg.maxOptions) {t : Server.Target} (hobs : t.resource.observable = true) :
    Server.Deregisters t msg :=
  ⟨hobs, h.code, kObserveDeregister, by rw [h.option, if_pos hroom],
    (by decide : kObserveDeregister ≠ kObserveRegister)⟩

/-- **A deregister request with the token of its subscription** is what the server has to read
to drop the entry. Its Observe option has value 1. -/
theorem cancellation_asks {link : Link} {c : Client cfg} {a : Client.Action} {x : Bytes × Bytes}
    (hx : x ∈ cancellation link c a) (htoken : x.1 = [c.nextTokenByte]) :
    ∃ msg, Message.decode cfg x.2 = (.none, msg) ∧ Asks cfg x.1 msg := by
  -- the deregister request is the one datagram of the call
  unfold cancellation at hx
  split at hx
  · rename_i server path sendOk
    split at hx
    · rename_i i hfind
      obtain ⟨data, hdata, rfl⟩ := List.mem_map.1 hx
      have hsent := System.mem_clientData.1 hdata
      rcases Client.step_cases c (.call (.cancelObserve server path) sendOk) with heq |
        ⟨call, ok, hcall, -, heq⟩ | ⟨_, _, h, -, -⟩ | ⟨_, _, _, h, -, -⟩
      · rw [heq] at hsent
        cases hsent
      · cases hcall
        rw [heq] at hsent
        obtain ⟨j, -, hdat⟩ := Client.cancelObserve_sent hsent
        obtain ⟨msg, hdec, htype, hcode, htok, hopt⟩ := Client.observe_decode hdat
        refine ⟨msg, hdec, ⟨?_, ?_, ?_⟩, hcode, htok.trans htoken.symm, hopt⟩
        · rw [htype]
          exact nofun
        · rw [htype]
          exact nofun
        · rw [hcode]
          rfl
      · cases h
      · cases h
    · cases hx
  · cases hx

/-- A registration is noted under the token that it has. -/
theorem subscription_token {link : Link} {c : Client cfg} {a : Client.Action} {x : Bytes × Bytes}
    (hx : x ∈ subscription link c a) :
    ∃ msg, Message.decode cfg x.2 = (.none, msg) ∧ msg.token = x.1 := by
  unfold subscription at hx
  split at hx
  · rename_i server path onResponse userContext sendOk
    obtain ⟨data, hdata, rfl⟩ := List.mem_map.1 hx
    have hsent := System.mem_clientData.1 hdata
    rcases Client.step_cases c (.call (.observe server path onResponse userContext) sendOk) with
      heq | ⟨call, ok, hcall, -, heq⟩ | ⟨_, _, h, -, -⟩ | ⟨_, _, _, h, -, -⟩
    · rw [heq] at hsent
      cases hsent
    · cases hcall
      rw [heq] at hsent
      obtain ⟨msg, hdec, -, -, htok, -⟩ := Client.observe_decode (Client.observe_sent hsent)
      exact ⟨msg, hdec, htok⟩
    · cases h
    · cases h
  · cases hx

theorem mem_of_lookup {l : List (Bytes × Bytes)} {token data : Bytes}
    (h : l.lookup token = some data) : (token, data) ∈ l := by
  obtain ⟨_, _, heq, -⟩ := List.lookup_eq_some_iff.1 h
  rw [heq]
  exact List.mem_append_right _ (List.mem_cons_self ..)

/-- What a run in time keeps. -/
structure Inv (link : Link) (w : Cancelling cfg) : Prop where
  tokens : w.sys.server.TokensFit
  asked  : ∀ x ∈ w.asked, ∃ msg, Message.decode cfg x.2 = (.none, msg) ∧ msg.token = x.1
  asks   : ∀ x ∈ w.cancelled, ∃ msg, Message.decode cfg x.2 = (.none, msg) ∧ Asks cfg x.1 msg
  noRoom : cfg.maxOptions = 0 → ∀ remote token, ¬ w.sys.server.HasEntry remote token
  noted  : ∀ x ∈ w.entered, ∃ msg, Message.decode cfg x.2 = (.none, msg) ∧ msg.token = x.1
  stands : ∀ token, w.sys.server.HasEntry link.client token → w.Stands token
  calm   : w.disturbed = []
  held   : w.dropped = []
  kept   : w.closed = []

/-- **No open subscription loses its slot** when the client gives up a request of one that is
over: the slot that goes with it is the first one with its token, and that is another. -/
theorem closes_nil {c : Client cfg} {a : Client.Action}
    (hfirst : ∀ token ∈ givesUp c a, ∀ j ∈ openSlots c, c.findPendingByToken token ≠ some j) :
    closes c a = [] := by
  unfold closes
  split
  · next token hgives =>
    refine List.map_eq_nil_iff.2 (List.filter_eq_nil_iff.2 fun j hj => ?_)
    rw [decide_eq_true_iff, not_not]
    obtain ⟨t, ht, rfl⟩ := Option.map_eq_some_iff.1 hgives
    have hup : c.givenUp a = some t := (Option.filter_eq_some_iff.1 ht).1
    have hactive : (c.slots j).pending.active = true := by
      have hopen := (List.mem_filter.1 hj).2
      rw [Bool.and_eq_true] at hopen
      exact hopen.1
    exact Client.pending_kept hactive fun hends =>
      hfirst _ hgives j hj (Client.givenUp_ends hup hends)
  · rfl

/-- **A step of the client** under its next token: what it sends to deregister names the token
of the slot that it frees. -/
theorem Inv.client {link : Link} {w : Cancelling cfg} (inv : Inv link w) {a : Client.Action}
    (htoken : ∀ x ∈ cancellation link w.sys.client a, x.1 = [w.sys.client.nextTokenByte])
    (hfirst : ∀ token ∈ givesUp w.sys.client a, ∀ j ∈ openSlots w.sys.client,
      w.sys.client.findPendingByToken token ≠ some j) :
    Inv link (w.next link (.client a)).1 where
  tokens := inv.tokens
  asked x hx := by
    rcases List.mem_append.1 hx with hx | hx
    · exact inv.asked x hx
    · exact subscription_token hx
  asks x hx := by
    rcases List.mem_append.1 hx with hx | hx
    · exact inv.asks x hx
    · exact cancellation_asks hx (htoken x hx)
  noRoom := inv.noRoom
  noted := inv.noted
  stands := inv.stands
  calm := inv.calm
  held := inv.held
  kept := by
    show w.closed ++ closes w.sys.client a = []
    rw [inv.kept, closes_nil hfirst, List.append_nil]

/-- A deregister request, in a step that reads it. -/
theorem mem_endsNow {link : Link} {w : Cancelling cfg} {a : Server.Action} {token : Bytes}
    (ht : token ∈ w.endsNow link a) :
    ∃ nowMs data, a = .poll nowMs (some (link.client, data)) ∧ w.sys.server.control = .idle ∧
      (token, data) ∈ w.cancelled := by
  unfold endsNow at ht
  split at ht
  · rename_i nowMs sender data
    split at ht
    · next hc =>
      obtain ⟨hidle, rfl⟩ := hc
      obtain ⟨x, hx, rfl⟩ := List.mem_map.1 ht
      obtain ⟨hmem, hdata⟩ := List.mem_filter.1 hx
      obtain rfl : x.2 = data := by simpa using hdata
      exact ⟨nowMs, x.2, rfl, hidle, hmem⟩
    · cases ht
  · cases ht

/-- A deregister request changes no entry of another token. -/
theorem Inv.keeps {link : Link} {w : Cancelling cfg} (inv : Inv link w) {x : Bytes × Bytes}
    (hx : x ∈ w.cancelled) (hidle : w.sys.server.control = .idle) (nowMs : UInt32)
    {i : Fin cfg.maxObservers}
    (hi : ¬ Server.observes link.client x.1 ((w.sys.server.scanned nowMs).observers i) = true) :
    (w.sys.server.step (.poll nowMs (some (link.client, x.2)))).1.observers i =
      (w.sys.server.scanned nowMs).observers i := by
  obtain ⟨msg, hdec, hasks⟩ := inv.asks x hx
  rw [Server.step_request hidle hdec hasks.request]
  rcases (w.sys.server.scanned nowMs).handleRequest_observers link.client hasks.not_registers i
    with h | h
  · exact h
  · rw [hasks.token] at h
    exact absurd h hi

/-- **No open subscription loses its entry** to a request whose token none of them has. -/
theorem Inv.disturbs {link : Link} {w : Cancelling cfg} (inv : Inv link w) {a : Server.Action}
    (hopen : ∀ token ∈ w.endsNow link a, token ∉ openTokens link w.sys.client) :
    w.disturbs link a = [] := by
  unfold Cancelling.disturbs
  split
  · rename_i nowMs rx
    split
    · rfl
    · next hends =>
      obtain ⟨ended, hended⟩ := List.exists_mem_of_ne_nil _ hends
      obtain ⟨_, data, heq, hidle, hmem⟩ := mem_endsNow hended
      cases heq
      refine List.filter_eq_nil_iff.2 fun token htoken => ?_
      rw [decide_eq_true_iff]
      rintro ⟨i, hi, hne⟩
      -- what the request changes is an entry of its own token
      by_cases hown : Server.observes link.client ended
          ((w.sys.server.scanned nowMs).observers i) = true
      · have heq : ended = token :=
          (Server.observes_iff.1 hown).2.2.symm.trans (Server.observes_iff.1 hi).2.2
        exact hopen ended hended (heq ▸ htoken)
      · exact hne (inv.keeps hmem hidle nowMs hown)
  · rfl

/-- The server reads a deregister request. -/
theorem Inv.removed {link : Link} {w : Cancelling cfg} (inv : Inv link w) {a : Server.Action}
    (hobs : w.endsNow link a ≠ [] → LeadsToObservable w.sys.server a) :
    ∀ token ∈ w.endsNow link a, ¬ (w.sys.server.step a).1.HasEntry link.client token := by
  intro token ht
  have hleads := hobs (List.ne_nil_of_mem ht)
  obtain ⟨nowMs, data, rfl, hidle, hmem⟩ := mem_endsNow ht
  obtain ⟨msg, hdec, hasks⟩ := inv.asks _ hmem
  obtain ⟨t, hadm, hobservable⟩ := hleads
  rw [hdec] at hadm
  by_cases hroom : 0 < cfg.maxOptions
  · have hgone := Server.entry_removed hadm (hasks.deregisters hroom hobservable) link.client
    rw [hasks.token] at hgone
    rwa [Server.step_request hidle hdec hasks.request]
  · -- with no room for an option the request reads as a plain GET, but then no entry was
    -- ever made
    intro hentry
    rcases Server.entry_step hentry with h | ⟨m, hreg, -⟩
    · exact inv.noRoom (by omega) _ _ h
    · obtain ⟨_, _, t', ha, -, hdec', -, -, hregs⟩ := Naming.registration_some hreg
      cases ha
      obtain rfl : msg = m := (Prod.mk.inj (hdec.symm.trans hdec')).2
      exact hasks.not_registers t' hregs

/-- **No open subscription loses its entry** to a message that the server gives up: the scan only
removes the observer of the message, and no open subscription has its token. -/
theorem Inv.drops {link : Link} {w : Cancelling cfg} {a : Server.Action}
    (hopen : ∀ token ∈ expires link w.sys.server a, token ∈ w.cancelled.map Prod.fst →
      token ∉ openTokens link w.sys.client) : w.drops link a = [] := by
  unfold Cancelling.drops
  split
  · rename_i nowMs rx
    refine List.filter_eq_nil_iff.2 fun token htoken => ?_
    rw [decide_eq_true_iff]
    rintro ⟨hcancelled, hidle, j, hj, hne⟩
    refine hopen token ?_ hcancelled htoken
    obtain ⟨hact, hrem, htok⟩ := Server.observes_iff.1 hj
    have hgone : ((w.sys.server.scanned nowMs).observers j).active = false := by
      by_contra h
      exact hne (Server.Noting.scanned_entry w.sys.server nowMs (by simpa using h))
    obtain ⟨i, -, hi⟩ := Server.Watched.tickFrom_removes (List.nodup_finRange _)
      ({ w.sys.server with lastNowMs := nowMs } : Server cfg) hact hgone
    unfold expires
    simp only [hidle]
    refine List.mem_filterMap.2 ⟨i, List.mem_finRange i, ?_⟩
    have hi : (TransactionPool.tickSlot cfg nowMs (w.sys.server.txPool i)).2 =
        some (.timeout (w.sys.server.observers j).remote (w.sys.server.observers j).token) := hi
    rw [hi, hrem, htok]
    exact if_pos rfl
  · rfl

/-- A registration that the server reads is noted, under its token. -/
theorem enters_registration {link : Link} {s : Server cfg} {a : Server.Action} {msg : Message}
    (h : Naming.registration s a = some (link.client, msg)) :
    ∃ data, enters link s a = [(msg.token, data)] ∧ Message.decode cfg data = (.none, msg) := by
  obtain ⟨nowMs, data, -, rfl, -, hdec, -⟩ := Naming.registration_some h
  refine ⟨data, ?_, hdec⟩
  unfold enters
  simp only [h, if_true]

/-- What is noted is a registration. -/
theorem mem_enters {link : Link} {s : Server cfg} {a : Server.Action} {x : Bytes × Bytes}
    (hx : x ∈ enters link s a) :
    ∃ nowMs msg t, a = .poll nowMs (some (link.client, x.2)) ∧
      Message.decode cfg x.2 = (.none, msg) ∧ msg.token = x.1 ∧ Server.Registers t msg := by
  unfold enters at hx
  split at hx
  · rename_i nowMs sender data
    split at hx
    · rename_i remote msg hreg
      split at hx
      · next heq =>
        subst heq
        obtain rfl := List.mem_singleton.1 hx
        obtain ⟨_, _, t, ha, -, hdec, -, -, hregs⟩ := Naming.registration_some hreg
        cases ha
        exact ⟨nowMs, msg, t, rfl, hdec, rfl, hregs⟩
      · cases hx
    · cases hx
  · cases hx

/-- A registration is no deregister request, so nothing is revoked when it is read. -/
theorem Inv.revokes_nil {link : Link} {w : Cancelling cfg} (inv : Inv link w) {a : Server.Action}
    {x : Bytes × Bytes} (hx : x ∈ enters link w.sys.server a) : w.revokes link a = [] := by
  obtain ⟨nowMs, msg, t, rfl, hdec, -, hregs⟩ := mem_enters hx
  unfold Cancelling.revokes
  rw [List.map_eq_nil_iff, List.filter_eq_nil_iff]
  intro y _ hy
  rw [decide_eq_true_iff] at hy
  obtain ⟨_, data, ha, -, hmem⟩ := mem_endsNow hy
  cases ha
  obtain ⟨m, hdec', hasks⟩ := inv.asks _ hmem
  obtain rfl : msg = m := (Prod.mk.inj (hdec.symm.trans hdec')).2
  exact hasks.not_registers t hregs

/-- **What stands after a step of the server.** An entry that this step has written stands on
the registration it has read; any other stands as before, as the request that revokes its
registration takes it away. -/
theorem Inv.stands_server {link : Link} {w : Cancelling cfg} (inv : Inv link w) {a : Server.Action}
    (hlate : ∀ x ∈ enters link w.sys.server a, x.2 ∉ w.revoked)
    (hobs : w.endsNow link a ≠ [] → LeadsToObservable w.sys.server a) {token : Bytes}
    (hentry : (w.sys.server.step a).1.HasEntry link.client token) :
    (w.next link (.server a)).1.Stands token := by
  cases hnow : (enters link w.sys.server a).lookup token with
  | some data =>
    have hmem := mem_of_lookup hnow
    refine ⟨data, ?_, ?_⟩
    · show (enters link w.sys.server a ++ w.entered).lookup token = some data
      rw [List.lookup_append, hnow, Option.some_or]
    · show data ∉ w.revoked ++ w.revokes link a
      rw [inv.revokes_nil hmem, List.append_nil]
      exact hlate _ hmem
  | none =>
    rcases Server.entry_step hentry with h | ⟨msg, hreg, rfl⟩
    · obtain ⟨data, hdata, hnot⟩ := inv.stands token h
      refine ⟨data, ?_, fun hrevoked => ?_⟩
      · show (enters link w.sys.server a ++ w.entered).lookup token = some data
        rw [List.lookup_append, hnow, Option.none_or, hdata]
      · rcases List.mem_append.1 hrevoked with hrevoked | hrevoked
        · exact hnot hrevoked
        · -- the request that revokes it has its token, and takes the entry away
          obtain ⟨x, hx, rfl⟩ := List.mem_map.1 hrevoked
          obtain ⟨hasked, hends⟩ := List.mem_filter.1 hx
          rw [decide_eq_true_iff] at hends
          obtain ⟨msg, hdec, htok⟩ := inv.noted _ (mem_of_lookup hdata)
          obtain ⟨msg', hdec', htok'⟩ := inv.asked x hasked
          obtain rfl : msg = msg' := (Prod.mk.inj (hdec.symm.trans hdec')).2
          have hsame : x.1 = token := htok'.symm.trans htok
          exact inv.removed hobs x.1 hends (hsame ▸ hentry)
    · obtain ⟨data, heq, -⟩ := enters_registration hreg
      rw [heq, List.lookup_cons_self] at hnow
      cases hnow

/-- **A step of the server**, in time: it reads no registration that is revoked, and the tokens
of what it ends and gives up are under no token that is open. -/
theorem Inv.server {link : Link} {w : Cancelling cfg} (inv : Inv link w) {a : Server.Action}
    (hlate : ∀ x ∈ enters link w.sys.server a, x.2 ∉ w.revoked)
    (hobs : w.endsNow link a ≠ [] → LeadsToObservable w.sys.server a)
    (hopen : ∀ token ∈ w.endsNow link a, token ∉ openTokens link w.sys.client)
    (hexpired : ∀ token ∈ expires link w.sys.server a, token ∈ w.cancelled.map Prod.fst →
      token ∉ openTokens link w.sys.client) :
    Inv link (w.next link (.server a)).1 where
  tokens := inv.tokens.step a
  asked := inv.asked
  asks := inv.asks
  noRoom hnone remote token hentry := by
    rcases Server.entry_step hentry with h | ⟨msg, hreg, -⟩
    · exact inv.noRoom hnone remote token h
    · obtain ⟨_, data, t, -, -, hdec, -, -, hregs⟩ := Naming.registration_some hreg
      have hopt := hregs.2.2
      have hfind := Message.findOption_noRoom hnone data OptionNumber.observe
      rw [hdec] at hfind
      rw [show msg.findOption OptionNumber.observe = none from hfind] at hopt
      cases hopt
  noted x hx := by
    rcases List.mem_append.1 hx with hx | hx
    · obtain ⟨_, msg, _, -, hdec, htok, -⟩ := mem_enters hx
      exact ⟨msg, hdec, htok⟩
    · exact inv.noted x hx
  stands token hentry := inv.stands_server hlate hobs hentry
  calm := by
    show w.disturbed ++ w.disturbs link a = []
    rw [inv.calm, inv.disturbs hopen, List.append_nil]
  held := by
    show w.dropped ++ w.drops link a = []
    rw [inv.held, Inv.drops hexpired, List.append_nil]
  kept := inv.kept

theorem Inv.step {link : Link} {w : Cancelling cfg} (inv : Inv link w) {a : System.Action}
    (ha : InTime link w a) : Inv link (w.next link a).1 := by
  cases a with
  | client a => exact inv.client ha.2.1 ha.2.2
  | server a => exact inv.server ha.2.1 ha.2.2.1 ha.2.2.2.1 ha.2.2.2.2

theorem inv_init (cfg : Config) (link : Link) : Inv link (machine cfg link).init where
  tokens := ⟨fun _ => Nat.zero_le _, fun _ => Nat.zero_le _⟩
  asked _ hx := nomatch hx
  asks _ hx := nomatch hx
  noRoom := by
    rintro - remote token ⟨i, hi⟩
    exact nomatch (Server.observes_iff.1 hi).1
  noted _ hx := nomatch hx
  stands := by
    rintro token ⟨i, hi⟩
    exact nomatch (Server.observes_iff.1 hi).1
  calm := rfl
  held := rfl
  kept := rfl

/-- A notification goes to an entry of the table, with its token. -/
theorem notify_entry {s : Server cfg} (hs : s.TokensFit) {path payload : Bytes}
    {contentFormat : ContentFormat} {confirmable : Bool} {dest : Endpoint} {data : Bytes}
    (h : .sent dest data ∈ (s.notify path payload contentFormat confirmable).2.2) :
    ∃ msg, Message.decode cfg data = (.none, msg) ∧ s.HasEntry dest msg.token := by
  by_cases hfound : ∃ t, s.findTarget path = some t ∧ t.resource.observable = true
  · obtain ⟨t, hfind, hobservable⟩ := hfound
    have hd : (dest, data) ∈ Server.datagrams
        (s.notify path payload contentFormat confirmable).2.2 :=
      List.mem_filterMap.2 ⟨_, h, rfl⟩
    rw [(Naming.notify_found hfind hobservable payload contentFormat confirmable).2] at hd
    obtain ⟨n, hn, hpush⟩ := List.mem_filterMap.1 hd
    obtain ⟨-, hi, -⟩ := Server.mem_numbered.1 (List.mem_map_of_mem hn)
    obtain ⟨msg, hdec, hdest, htok, -⟩ := Server.pushed_some hs.observers hpush
    exact ⟨msg, hdec, n.1, Server.observes_iff.2 ⟨hi, hdest.symm, htok.symm⟩⟩
  · rw [Naming.notify_missing (fun t hfind hobs => hfound ⟨t, hfind, hobs⟩)] at h
    cases h

/-- What the invariant says of the two sides. -/
theorem Inv.cancels {link : Link} {w : Cancelling cfg} (inv : Inv link w) : Cancels link w where
  gone := inv.stands
  silent path payload contentFormat confirmable data hsent := by
    obtain ⟨msg, hdec, hentry⟩ := notify_entry inv.tokens hsent
    exact ⟨msg, hdec, inv.stands _ hentry⟩
  clientKeeps server path sendOk i j hfind hij hj :=
    Client.cancelObserve_slots w.sys.client sendOk hfind hij hj
  serverKeeps x hx hidle nowMs _ hi := inv.keeps hx hidle nowMs hi
  undisturbed := inv.calm
  undropped := inv.held
  unclosed := inv.kept

/-- **`cancelObserve` deregisters**, and no other subscription, when its request is given the
token of the subscription, that of no other one open when it is read or given up, and reaches the
resource, and no registration comes behind it. The network may lose, delay, repeat and reorder
all the rest. -/
theorem deregistered {link : Link} {h : List System.Event} {w : Cancelling cfg}
    (run : (machine cfg link).Run (InTime link) h w) : Cancels link w :=
  (run.invariant (I := fun _ w => Inv link w) (inv_init cfg link)
    fun _ inv ha => inv.step ha).cancels

/-- A call that the transport refuses. -/
def refused : System.Action := .client (.call (.discover {} none none) false)

theorem inTime_refused (link : Link) (w : Cancelling cfg) : InTime link w refused :=
  ⟨trivial, nofun, nofun⟩

/-- `n` token bytes and message IDs further. -/
def spent (w : Cancelling cfg) (n : Nat) : Cancelling cfg :=
  { w with sys := { w.sys with client := w.sys.client.advanced n } }

/-- A refused call costs a token byte and a message ID, when there is a slot for it. -/
theorem next_refused {w : Cancelling cfg} (link : Link) {i : Fin cfg.maxDiscovers}
    (happ : w.sys.client.appHasControl = true)
    (hfree : (w.sys.client.discovers.find? fun d => !d.active) = some i) :
    w.next link refused = (w.spent 1, []) := by
  have hstep : w.sys.client.step (.call (.discover {} none none) false) =
      (w.sys.client.advanced 1, []) := by
    show (if w.sys.client.appHasControl then _ else _) = _
    rw [if_pos happ]
    show ((w.sys.client.discover {} none none false).1,
      (w.sys.client.discover {} none none false).2.2) = _
    rw [Client.discover_unsent hfree]
  unfold next refused System.next
  simp only [hstep]
  simp [subscription, cancellation, closes, givesUp, Client.givenUp, System.clientData, spent]

/-- **The token byte comes round** with so many refused calls. -/
theorem spend {link : Link} {P : Cancelling cfg → System.Action → Prop}
    (hP : ∀ w, P w refused) (n : Nat) {h : List System.Event} {w : Cancelling cfg}
    (run : (machine cfg link).Run P h w) (happ : w.sys.client.appHasControl = true)
    (hfree : (w.sys.client.discovers.find? fun d => !d.active).isSome = true) :
    (machine cfg link).Run P h (w.spent n) := by
  induction n generalizing w with
  | zero => rwa [spent, Client.advanced_zero]
  | succ n ih =>
    obtain ⟨i, hi⟩ := Option.isSome_iff_exists.1 hfree
    have hstep := run.step (hP w)
    rw [show (machine cfg link).next w refused = _ from next_refused link happ hi,
      List.append_nil] at hstep
    have hrest := ih (w := w.spent 1) hstep happ hfree
    rwa [spent, show (w.spent 1).sys.client = w.sys.client.advanced 1 from rfl,
      Client.advanced_succ] at hrest

/-- And goes on from there. -/
theorem spend_exec {link : Link} {P : Cancelling cfg → System.Action → Prop}
    (hP : ∀ w, P w refused) (n : Nat) (as : List System.Action) {h : List System.Event}
    {w : Cancelling cfg} (run : (machine cfg link).Run P h w)
    (happ : w.sys.client.appHasControl = true)
    (hfree : (w.sys.client.discovers.find? fun d => !d.active).isSome = true)
    (hmeets : (machine cfg link).Meets P (w.spent n) as) :
    (machine cfg link).Run P ((machine cfg link).exec h (w.spent n) as).1
      ((machine cfg link).exec h (w.spent n) as).2 :=
  (spend hP n run happ hfree).exec hmeets

def cancelLink : Link := { client := { port := 1 }, server := { port := 2 } }

def cancelling : Machine (Cancelling .default) System.Action System.Event :=
  machine .default cancelLink

/-- The registration for `/a`: the client has no message ID and no token before it. -/
def registration : Bytes := [0x41, 0x01, 0x00, 0x01, 0x01, 0x60, 0x51, 0x61]

/-- A subscription to `/a` that the server has registered. -/
def subscribed : List System.Action :=
  [.server (.call (.addResource (some [0x2F, 0x61]) methodGet (some 5) none true)),
    .client (.call (.observe cancelLink.server [0x2F, 0x61] (some 1) none) true),
    .server (.poll 10 (some (cancelLink.client, registration))),
    .server (.handlerReturns {})]

/-- A subscription to `/b`, of which the server reads the request. -/
def subscribes (nowMs : UInt32) (request : Bytes) : List System.Action :=
  [.server (.call (.addResource (some [0x2F, 0x62]) methodGet (some 6) none true)),
    .client (.call (.observe cancelLink.server [0x2F, 0x62] (some 2) none) true),
    .server (.poll nowMs (some (cancelLink.client, request))),
    .server (.handlerReturns {})]

/-- The subscription to `/a` is cancelled, and the server is given the request. -/
def cancels (request : Bytes) : List System.Action :=
  [.client (.call (.cancelObserve cancelLink.server [0x2F, 0x61]) true),
    .server (.poll 20 (some (cancelLink.client, request))),
    .server (.handlerReturns {})]

def sameToken : Bytes := [0x41, 0x01, 0x01, 0x01, 0x01, 0x61, 0x01, 0x51, 0x61]
def nextToken : Bytes := [0x41, 0x01, 0x00, 0x02, 0x02, 0x61, 0x01, 0x51, 0x61]

/-- The registrations for `/b`: with the next token, or when the byte has come round to that of
`/a`, once and twice. -/
def secondToken : Bytes := [0x41, 0x01, 0x00, 0x02, 0x02, 0x60, 0x51, 0x62]
def onceRound : Bytes := [0x41, 0x01, 0x01, 0x01, 0x01, 0x60, 0x51, 0x62]
def twiceRound : Bytes := [0x41, 0x01, 0x02, 0x01, 0x01, 0x60, 0x51, 0x62]

/-- The byte has come round to the token of `/a`, and the subscription to `/b` stays open. -/
theorem deregistered_sameToken :
    ∃ h w, cancelling.Run (InTime cancelLink) h w ∧ w.revoked = [registration] ∧
      openTokens cancelLink w.sys.client = [[2]] ∧ Cancels cancelLink w := by
  have hopen : cancelling.Run (InTime cancelLink) _
      (cancelling.exec [] {} (subscribed ++ subscribes 15 secondToken)).2 :=
    Machine.Run.start.exec (by decide +kernel)
  have hlast := spend_exec (inTime_refused cancelLink) 254 (cancels sameToken) hopen
    (by decide +kernel) (by decide +kernel) (by decide +kernel)
  exact ⟨_, _, hlast, by decide +kernel, by decide +kernel, deregistered hlast⟩

/-- Any run that the network can carry. -/
def Carries (w : Cancelling .default) (a : System.Action) : Prop :=
  System.Carried cancelLink w.sys a

instance (w : Cancelling .default) (a : System.Action) : Decidable (Carries w a) :=
  inferInstanceAs (Decidable (System.Carried cancelLink w.sys a))

theorem run_subscribed :
    cancelling.Run Carries (cancelling.exec [] {} subscribed).1
      (cancelling.exec [] {} subscribed).2 :=
  Machine.Run.start.exec (by decide +kernel)

/-- The token of `/a` comes round to a second subscription, and then to the request that
cancels the first. -/
theorem disturbed_run : ∃ h w, cancelling.Run Carries h w ∧ w.disturbed = [[1]] := by
  have hsecond := spend_exec (fun _ => trivial) 255 (subscribes 15 onceRound) run_subscribed
    (by decide +kernel) (by decide +kernel) (by decide +kernel)
  have hlast := spend_exec (fun _ => trivial) 255
    (cancels [0x41, 0x01, 0x02, 0x01, 0x01, 0x61, 0x01, 0x51, 0x61]) hsecond
    (by decide +kernel) (by decide +kernel) (by decide +kernel)
  exact ⟨_, _, hlast, by decide +kernel⟩

/-- Times that are late enough for every resend of a message and for its end. -/
def lateTimes : List UInt32 := [4000, 12000, 30000, 60000, 120000]

/-- A CON notification to the first subscription is never acknowledged. When it is given up a
second one has the token. -/
theorem dropped_run : ∃ h w, cancelling.Run Carries h w ∧ w.dropped = [[1]] := by
  have hnotified : cancelling.Run Carries _ (cancelling.exec [] {} (subscribed ++
      [.server (.call (.notify [0x2F, 0x61] [0x78] .textPlain true))])).2 :=
    Machine.Run.start.exec (by decide +kernel)
  have hcancelled := spend_exec (fun _ => trivial) 255 (cancels sameToken) hnotified
    (by decide +kernel) (by decide +kernel) (by decide +kernel)
  have hlast := spend_exec (fun _ => trivial) 255
    (subscribes 25 twiceRound ++ lateTimes.map fun nowMs => .server (.poll nowMs none)) hcancelled
    (by decide +kernel) (by decide +kernel) (by decide +kernel)
  exact ⟨_, _, hlast, by decide +kernel⟩

/-- One poll of the client without a datagram, with its scan of the pool. -/
def idlePoll (nowMs : UInt32) : List System.Action :=
  .client (.poll nowMs none) :: List.replicate 6 (.client (.resume true))

/-- The answers are lost, and the second subscription is given the token while the client still
repeats the deregister request for the first. Then it gives it up. -/
theorem closed_run : ∃ h w, cancelling.Run Carries h w ∧ w.closed = [[1]] := by
  have hcancelled := spend_exec (fun _ => trivial) 255 (cancels sameToken) run_subscribed
    (by decide +kernel) (by decide +kernel) (by decide +kernel)
  have hlast := spend_exec (fun _ => trivial) 255
    (subscribes 25 twiceRound ++ lateTimes.flatMap idlePoll) hcancelled
    (by decide +kernel) (by decide +kernel) (by decide +kernel)
  exact ⟨_, _, hlast, by decide +kernel⟩

/-- **The entry stays**: the subscription has token 1 and the deregister request token 2. And where
the request has the token of its subscription, it may be that of another one by then, which loses
its entry at the server, or its slot when the client gives the request up; and what the server
still sends with this token costs it the entry as well. -/
theorem not_deregistered :
    (¬ ∀ h w, cancelling.Run Carries h w → Cancels cancelLink w) ∧
    (∃ h w, cancelling.Run Carries h w ∧ w.disturbed = [[1]]) ∧
    (∃ h w, cancelling.Run Carries h w ∧ w.dropped = [[1]]) ∧
    ∃ h w, cancelling.Run Carries h w ∧ w.closed = [[1]] := by
  refine ⟨fun hall => ?_, disturbed_run, dropped_run, closed_run⟩
  have hrun : cancelling.Run Carries _
      (cancelling.exec [] {} (subscribed ++ cancels nextToken)).2 :=
    Machine.Run.start.exec (by decide +kernel)
  obtain ⟨data, hdata, hnot⟩ := (hall _ _ hrun).gone [1]
    ⟨⟨0, by decide⟩, by decide +kernel⟩
  -- the entry is the one of the registration, which is revoked
  have hentered : (cancelling.exec [] {} (subscribed ++ cancels nextToken)).2.entered =
      [([1], registration)] := by decide +kernel
  have hrevoked : (cancelling.exec [] {} (subscribed ++ cancels nextToken)).2.revoked =
      [registration] := by decide +kernel
  rw [hentered, List.lookup_cons_self] at hdata
  rw [hrevoked, ← Option.some.inj hdata] at hnot
  exact hnot (List.mem_singleton_self _)

end Cancelling

end PulseCoap
