import PulseCoap.Tracking.Pool
import PulseCoap.Server.Spec

/-!
# PulseCoAP — what the server hands to its pool

The Confirmable datagrams of `notify` and `respond`, in terms of the state
before the call, are the ones it sends and the ones it hands to `start`: one for
each observer of the resource, in the order of the table, and one for a deferred
Confirmable request.

`notify` may send as many datagrams as there are observers, and it takes their
slots in the order of the table: the first ones are tracked and the others are
not. `callOut` is therefore a list, in that order, and `Starts` says that
`start` was called for it from the front.

* `call_starts` — one lemma for all calls of the API.
* `TokensFit` — in every state reached the stored tokens fit their arrays.
-/

namespace PulseCoap

namespace Server

open TransactionPool

variable {cfg : Config}

/-! ## The datagrams -/

/-- The Confirmable datagrams among what a step does. They are told apart by their first byte,
so this is about what is on the wire and not about what the code meant to send. -/
def confirmableSent (events : List ServerEvent) : List Datagram :=
  events.filterMap fun e =>
    match e with
    | .sent dest data => if IsConfirmable (dest, data) then some (dest, data) else none
    | _ => none

/-- The notifications for the observers that are left, from this message ID on. An observer of
another resource draws none; one whose notification does not encode draws one all the same. -/
def notifyOut (cfg : Config) (observers : Table cfg.maxObservers Observer) (index : Nat)
    (sequence : UInt32) (payload : Bytes) (contentFormat : ContentFormat) :
    (messageId : UInt16) → List (Fin cfg.maxObservers) → List Datagram
  | _, [] => []
  | messageId, i :: rest =>
    let o := observers i
    if o.active ∧ o.resourceIndex = UInt8.ofNat index then
      ((encoded cfg (notification cfg o messageId sequence payload contentFormat true)).toList.map
        fun buf => (o.remote, buf)) ++
        notifyOut cfg observers index sequence payload contentFormat (messageId + 1) rest
    else notifyOut cfg observers index sequence payload contentFormat messageId rest

/-- The Confirmable datagrams a call is about to send, read off the state before it. Only
`notify` and `respond` send any; replies from within a poll are never Confirmable. -/
def callOut (s : Server cfg) : ServerCall → List Datagram
  | .notify path payload contentFormat confirmable =>
    match s.findTarget path with
    | none => []
    | some t =>
      if t.resource.observable ∧ confirmable then
        notifyOut cfg s.observers t.index (t.resource.observeSequence + 1) payload contentFormat
          s.nextMessageId (List.finRange _)
      else []
  | .respond handle code payload contentFormat =>
    if h : handle.toNat < cfg.maxDeferred then
      let dr := s.deferred ⟨handle.toNat, h⟩
      if dr.active ∧ dr.wasConfirmable then
        (encoded cfg (separateResponse cfg dr s.nextMessageId code payload contentFormat)).toList.map
          fun buf => (dr.remote, buf)
      else []
    else []
  | .begin _ | .addResource .. | .setResourceType .. => []

/-! ## Stored tokens -/

/-- Every stored token fits its array. It is what makes `TransactionPool::start` accept the
token of an observer or of a deferred request. -/
structure TokensFit (s : Server cfg) : Prop where
  observers : ∀ i, (s.observers i).token.length ≤ kMaxTokenLen
  deferred  : ∀ i, (s.deferred i).token.length ≤ kMaxTokenLen

/-- The fields it is about. Two servers with the same tokens in their tables have it or lack it
together. -/
theorem TokensFit.congr {s s' : Server cfg} (t : s.TokensFit)
    (hobs : ∀ i, (s'.observers i).token = (s.observers i).token)
    (hdef : ∀ i, (s'.deferred i).token = (s.deferred i).token) : s'.TokensFit where
  observers i := by
    rw [hobs]
    exact t.observers i
  deferred i := by
    rw [hdef]
    exact t.deferred i

/-- Writing an entry under a token that fits. -/
theorem fits_set {α : Type} {n : Nat} {t : Table n α} {token : α → Bytes}
    (h : ∀ i, (token (t i)).length ≤ kMaxTokenLen) {i : Fin n} {a : α}
    (ha : (token a).length ≤ kMaxTokenLen) (j : Fin n) :
    (token (t.set i a j)).length ≤ kMaxTokenLen :=
  Table.forall_set (P := fun a => (token a).length ≤ kMaxTokenLen) h ha j

/-- Removing an observer stores no token. -/
theorem TokensFit.removeObserver {s : Server cfg} (t : s.TokensFit) (remote : Endpoint)
    (token : Bytes) : (s.removeObserver remote token).TokensFit := by
  refine t.congr (fun i => ?_) fun _ => rfl
  unfold Server.removeObserver
  dsimp only
  split <;> rfl

/-- A registration stores the token of a message that was decoded. -/
theorem TokensFit.handleObserve {s : Server cfg} (t : s.TokensFit) (target : Target)
    {msg : Message} (htoken : msg.token.length ≤ kMaxTokenLen) (sender : Endpoint) :
    (s.handleObserve target msg sender).1.TokensFit := by
  have hreg : (s.registerObserver (UInt8.ofNat target.index) sender msg.token).TokensFit := by
    unfold registerObserver
    split
    · rename_i i _
      exact ⟨fits_set t.observers (t.observers i), t.deferred⟩
    · split
      · exact ⟨fits_set t.observers htoken, t.deferred⟩
      · exact t
  have hnote : ∀ {s' : Server cfg}, s'.TokensFit →
      (s'.noteReply sender msg.token msg.messageId).TokensFit := by
    intro s' t'
    unfold noteReply
    split
    · rename_i i _
      exact ⟨fits_set t'.observers (t'.observers i), t'.deferred⟩
    · exact t'
  unfold Server.handleObserve
  split
  · exact t
  · split
    · split
      · exact hnote hreg
      · exact t.removeObserver ..
    · exact t

/-- The end of a handler stores none. -/
theorem TokensFit.finish {s : Server cfg} (t : s.TokensFit) (h : Handling cfg) (res : Response) :
    (s.finish h res).1.TokensFit := by
  have hfree : ∀ i, ((s.freeDeferred? h.deferIdx).deferred i).token.length ≤ kMaxTokenLen := by
    cases h.deferIdx with
    | none => exact t.deferred
    | some j => exact fits_set t.deferred (t.deferred j)
  obtain ⟨⟨id, hstate⟩, -⟩ := s.finish_spec h res
  rw [hstate]
  refine ⟨t.observers, ?_⟩
  dsimp only
  split
  · exact t.deferred
  · exact hfree

/-- A deferred request keeps the token of its message. -/
theorem TokensFit.runHandler {s : Server cfg} (t : s.TokensFit) (target : Target) {msg : Message}
    (htoken : msg.token.length ≤ kMaxTokenLen) (sender : Endpoint) (ov : Option UInt32)
    (session : Option (Fin cfg.maxBlock1Sessions)) :
    (s.runHandler target msg sender ov session).1.TokensFit := by
  have hfill : (s.fillDeferred s.allocateDeferred msg sender).TokensFit := by
    cases s.allocateDeferred with
    | none => exact t
    | some i => exact ⟨t.observers, fits_set t.deferred htoken⟩
  rcases s.runHandler_cases target msg sender ov session with ⟨f, -, heq⟩ | ⟨-, heq⟩
  · rw [heq]
    exact ⟨hfill.observers, hfill.deferred⟩
  · rw [heq]
    exact hfill.finish ..

/-- A reply changes no table. -/
theorem TokensFit.justReplies {s : Server cfg} (t : s.TokensFit)
    {r : Server cfg × List ServerEvent} (h : s.JustReplies r) : r.1.TokensFit := by
  obtain ⟨⟨id, heq⟩, -⟩ := h
  rw [heq]
  exact ⟨t.observers, t.deferred⟩

theorem TokensFit.handleBlock1 {s : Server cfg} (t : s.TokensFit) (opt : CoapOption)
    (target : Target) {msg : Message} (htoken : msg.token.length ≤ kMaxTokenLen)
    (sender : Endpoint) (ov : Option UInt32) :
    (s.handleBlock1 opt target msg sender ov).1.TokensFit := by
  -- a session says nothing about the observers and the deferred responses
  have hsession : ∀ {s' : Server cfg} i b, s'.TokensFit → (s'.withSession i b).TokensFit :=
    fun i b t' => ⟨t'.observers, t'.deferred⟩
  have hblock : ∀ {s' : Server cfg} i b1, s'.TokensFit →
      (s'.handleBlock i b1 target msg sender ov).1.TokensFit := by
    intro s' i b1 t'
    rcases s'.handleBlock_cases i b1 target msg sender ov with ⟨-, heq⟩ | ⟨-, -, heq⟩ |
      ⟨-, -, -, heq⟩ | ⟨-, -, -, heq⟩
    · rw [heq]
      exact t'.justReplies (s'.justReplies_continue ..)
    · rw [heq]
      exact (hsession i _ t').justReplies (justReplies_error ..)
    · rw [heq]
      exact (hsession i _ t').justReplies (justReplies_continue ..)
    · rw [heq]
      exact (hsession i _ t').runHandler target htoken sender ov _
  unfold Server.handleBlock1
  split
  · exact t.justReplies (s.justReplies_error ..)
  · rename_i b1 _
    -- no session, the session of the sender, or a fresh one
    rcases s.sessionFor_cases b1 sender msg.token with ⟨code, hs⟩ | ⟨i, -, hs⟩ | ⟨i, -, -, -, hs⟩
    · rw [hs]
      exact t.justReplies (s.justReplies_error ..)
    · rw [hs]
      exact hblock i b1 t
    · rw [hs]
      exact hblock i b1 (hsession i _ t)

/-- A request stores its token in at most two places, as an observer and in a deferred slot, and
it is the token `decode` has checked. -/
theorem TokensFit.handleRequest {s : Server cfg} (t : s.TokensFit) {msg : Message}
    (htoken : msg.token.length ≤ kMaxTokenLen) (sender : Endpoint) :
    (s.handleRequest msg sender).1.TokensFit := by
  rcases s.handleRequest_cases msg sender with ⟨-, code, heq⟩ | ⟨target, -, heq⟩
  · rw [heq]
    exact t.justReplies (s.justReplies_error ..)
  · rw [heq]
    have hobs := t.handleObserve target htoken sender
    unfold handleTarget
    dsimp only
    split
    · exact hobs.handleBlock1 _ target htoken sender _
    · exact hobs.runHandler target htoken sender _ none

/-- The pool scan stores nothing: what times out takes an observer away, and the rest is resent. -/
theorem TokensFit.tickFrom : ∀ (is : List (Fin cfg.maxTransactions)) {s : Server cfg},
    s.TokensFit → (s.tickFrom is).1.TokensFit := by
  intro is
  induction is with
  | nil => exact fun t => t
  | cons i is ih =>
    intro s t
    have hset : ∀ pool, ({ s with txPool := pool } : Server cfg).TokensFit :=
      fun _ => ⟨t.observers, t.deferred⟩
    have hat : (s.tickAt i).1.TokensFit := by
      unfold tickAt
      dsimp only
      split
      · exact hset _
      · exact hset _
      · exact (hset _).removeObserver ..
    exact ih hat

/-- **A poll**: every token that is stored comes out of `decode`, which lets no more than eight
bytes in. -/
theorem TokensFit.poll {s : Server cfg} (t : s.TokensFit) (nowMs : UInt32)
    (rx : Option (Endpoint × Bytes)) : (s.poll nowMs rx).1.TokensFit := by
  have hscan : (s.scanned nowMs).TokensFit :=
    TokensFit.tickFrom _ ⟨t.observers, t.deferred⟩
  show ((s.scanned nowMs).receive rx).1.TokensFit
  rcases (s.scanned nowMs).receive_cases rx with heq | ⟨sender, data, msg, -, -, -, heq⟩ |
    ⟨sender, data, msg, -, -, -, heq⟩ | ⟨sender, data, msg, -, hdec, -, heq⟩
  · rw [heq]
    exact hscan
  · rw [heq]
    unfold handleReset
    split
    · rename_i i _
      exact ⟨fits_set hscan.observers (hscan.observers i), hscan.deferred⟩
    · exact hscan
  · rw [heq]
    exact ⟨hscan.observers, hscan.deferred⟩
  · rw [heq]
    exact hscan.handleRequest (Message.decode_token hdec) sender

/-! ## What is sent is what is started -/

/-- What an operation sends and what it hands to `start` are these datagrams: the Confirmable
ones on the wire and the ones given to the pool are the same, in the same order. -/
def SendsAndStarts (s : Server cfg) (ds : List Datagram) (s' : Server cfg)
    (events : List ServerEvent) : Prop :=
  Starts s.txPool ds s'.txPool ∧ confirmableSent events = ds

theorem sendsAndStarts_nil {s s' : Server cfg} (hpool : s'.txPool = s.txPool)
    {events : List ServerEvent} (hev : confirmableSent events = []) :
    s.SendsAndStarts [] s' events := by
  refine ⟨?_, hev⟩
  rw [hpool]
  exact .done _

/-- One operation after the other: the datagrams are those of the first and then those of the
second. This carries the loop of `notify`. -/
theorem SendsAndStarts.append {s s' s'' : Server cfg} {ds ds' : List Datagram}
    {ev ev' : List ServerEvent} (h : s.SendsAndStarts ds s' ev)
    (h' : s'.SendsAndStarts ds' s'' ev') : s.SendsAndStarts (ds ++ ds') s'' (ev ++ ev') := by
  refine ⟨h.1.append h'.1, ?_⟩
  unfold confirmableSent at *
  rw [List.filterMap_append]
  exact congrArg₂ _ h.2 h'.2

/-- The type of a datagram can be read off its first byte, so a datagram whose header is known
counts as Confirmable exactly if its type says so. -/
theorem confirmableSent_one {type : MessageType} {messageId : UInt16} {buf : Bytes}
    (h : Header cfg type messageId buf) (dest : Endpoint) :
    confirmableSent [.sent dest buf] = if type = .confirmable then [(dest, buf)] else [] := by
  have hcon := isConfirmable_iff h dest
  by_cases ht : type = .confirmable
  · rw [if_pos ht]
    exact List.filterMap_cons_some (if_pos (hcon.2 ht))
  · rw [if_neg ht]
    exact List.filterMap_cons_none (if_neg (mt hcon.1 ht))

theorem encoded_some {m : Message} {buf : Bytes} (h : encoded cfg m = some buf) :
    m.encode cfg.maxMsgSize = .ok buf := by
  unfold encoded at h
  split at h
  · cases h
    assumption
  · cases h

/-- The header of a notification: the type is what the call of `notify` asked for, the message
ID the one that was drawn. -/
theorem notification_header {o : Observer} {messageId : UInt16} {sequence : UInt32}
    {payload : Bytes} {contentFormat : ContentFormat} {confirmable : Bool} {buf : Bytes}
    (h : encoded cfg (notification cfg o messageId sequence payload contentFormat confirmable) =
      some buf) :
    Header cfg (if confirmable then .confirmable else .nonConfirmable) messageId buf :=
  header_of_opened o.token Code.content
    (((Message.sameHeader_addOptionUint ..).trans (Message.sameHeader_addOptionUint ..)).trans
      (Message.sameHeader_setPayload ..)) (encoded_some h)

/-- A payload and its format leave the header alone. -/
theorem sameHeader_addContent (cfg : Config) (m : Message) (payload : Bytes)
    (contentFormat : ContentFormat) :
    Message.SameHeader m (addContent cfg m payload contentFormat) := by
  unfold addContent
  split
  · exact (Message.sameHeader_addOptionUint ..).trans (Message.sameHeader_setPayload ..)
  · exact .refl m

/-- The header of a separate response: confirmable if its request was. So a client that asked
without a need for an ACK is answered without one. -/
theorem separateResponse_header {dr : DeferredRequest} {messageId : UInt16} {code : Code}
    {payload : Bytes} {contentFormat : ContentFormat} {buf : Bytes}
    (h : encoded cfg (separateResponse cfg dr messageId code payload contentFormat) = some buf) :
    Header cfg (if dr.wasConfirmable then .confirmable else .nonConfirmable) messageId buf := by
  refine header_of_opened dr.token code ?_ (encoded_some h)
  exact sameHeader_addContent ..

/-- One observer is notified. If the notification is Confirmable and encodes, it is sent and
handed to the pool; otherwise the pool is not touched. -/
theorem notifyObserver_starts {s : Server cfg} (t : s.TokensFit) (i : Fin cfg.maxObservers)
    (sequence : UInt32) (payload : Bytes) (contentFormat : ContentFormat) (confirmable : Bool) :
    s.SendsAndStarts
      (if confirmable then
        (encoded cfg (notification cfg (s.observers i) s.nextMessageId sequence payload
          contentFormat true)).toList.map fun buf => ((s.observers i).remote, buf)
      else [])
      (s.notifyObserver i sequence payload contentFormat confirmable).1
      (s.notifyObserver i sequence payload contentFormat confirmable).2 := by
  unfold notifyObserver
  dsimp only
  cases henc : encoded cfg (notification cfg (s.observers i) s.nextMessageId sequence payload
      contentFormat confirmable) with
  | none =>
    cases confirmable with
    | false => exact sendsAndStarts_nil rfl rfl
    | true =>
      rw [henc]
      exact sendsAndStarts_nil rfl rfl
  | some buf =>
    have hheader := notification_header henc
    cases confirmable with
    | false => exact sendsAndStarts_nil rfl (confirmableSent_one hheader _)
    | true =>
      rw [henc]
      exact ⟨.start (t.observers i) hheader.length hheader.id (.done _),
        confirmableSent_one hheader _⟩

/-- A notification stores the message ID in the entry, not a token. -/
theorem TokensFit.notifyObserver {s : Server cfg} (t : s.TokensFit) (i : Fin cfg.maxObservers)
    (sequence : UInt32) (payload : Bytes) (contentFormat : ContentFormat) (confirmable : Bool) :
    (s.notifyObserver i sequence payload contentFormat confirmable).1.TokensFit := by
  have hobs := fits_set (i := i) (a := { s.observers i with lastSentMessageId := s.nextMessageId })
    t.observers (t.observers i)
  unfold Server.notifyObserver
  dsimp only
  split
  · exact ⟨hobs, t.deferred⟩
  · split <;> exact ⟨hobs, t.deferred⟩

/-- A notification changes no more of the observers than the message ID noted. So the loop reads
the same remotes and tokens throughout. -/
theorem notifyObserver_observers (s : Server cfg) (i : Fin cfg.maxObservers) (sequence : UInt32)
    (payload : Bytes) (contentFormat : ContentFormat) (confirmable : Bool)
    (j : Fin cfg.maxObservers) :
    ∃ id, (s.notifyObserver i sequence payload contentFormat confirmable).1.observers j =
      { s.observers j with lastSentMessageId := id } := by
  have hset : ∃ id, s.observers.set i { s.observers i with lastSentMessageId := s.nextMessageId } j =
      { s.observers j with lastSentMessageId := id } := by
    by_cases hji : j = i
    · rw [hji, Table.set_self]
      exact ⟨_, rfl⟩
    · rw [Table.set_ne _ _ hji]
      exact ⟨_, rfl⟩
  unfold Server.notifyObserver
  dsimp only
  split
  · exact hset
  · split <;> exact hset

/-- Each notification draws one message ID, sent or not. A notification that is too large for a
datagram leaves a gap in the numbers. -/
theorem notifyObserver_id (s : Server cfg) (i : Fin cfg.maxObservers) (sequence : UInt32)
    (payload : Bytes) (contentFormat : ContentFormat) (confirmable : Bool) :
    (s.notifyObserver i sequence payload contentFormat confirmable).1.nextMessageId =
      s.nextMessageId + 1 := by
  unfold Server.notifyObserver
  dsimp only
  split
  · rfl
  · split <;> rfl

/-- **The loop of `notify`** starts a transaction for each Confirmable notification that is
sent, in the order of the observers. -/
theorem notifyFrom_starts (observers : Table cfg.maxObservers Observer) (index : Nat)
    (sequence : UInt32) (payload : Bytes) (contentFormat : ContentFormat) (confirmable : Bool)
    (is : List (Fin cfg.maxObservers)) {s : Server cfg} (t : s.TokensFit)
    (hobs : ∀ j, ∃ id, s.observers j = { observers j with lastSentMessageId := id }) :
    s.SendsAndStarts
      (if confirmable then
        notifyOut cfg observers index sequence payload contentFormat s.nextMessageId is
      else [])
      (s.notifyFrom index sequence payload contentFormat confirmable is).1
      (s.notifyFrom index sequence payload contentFormat confirmable is).2 := by
  induction is generalizing s with
  | nil => cases confirmable <;> exact sendsAndStarts_nil rfl rfl
  | cons i is ih =>
    obtain ⟨id, hi⟩ := hobs i
    unfold notifyFrom notifyOut
    rw [hi]
    dsimp only
    by_cases hmine : (observers i).active = true ∧ (observers i).resourceIndex = UInt8.ofNat index
    · -- what one observer is sent, and then the rest of the table with the ids that are left
      rw [if_pos hmine, if_pos hmine]
      have hone := notifyObserver_starts t i sequence payload contentFormat confirmable
      have hrest := ih (t.notifyObserver i sequence payload contentFormat confirmable) fun j => by
        obtain ⟨id, hj⟩ := s.notifyObserver_observers i sequence payload contentFormat confirmable j
        obtain ⟨id', hj'⟩ := hobs j
        exact ⟨id, by rw [hj, hj']⟩
      rw [notifyObserver_id] at hrest
      rw [hi] at hone
      have hboth := hone.append hrest
      cases confirmable with
      | false => exact hboth
      | true => exact hboth
    · rw [if_neg hmine, if_neg hmine]
      exact ih t hobs

/-- `respond` hands its datagram to `start` if and only if the deferred request was confirmable.
A handle that is out of range or no longer active sends nothing and starts nothing. -/
theorem respond_starts {s : Server cfg} (t : s.TokensFit) (handle : UInt8) (code : Code)
    (payload : Bytes) (contentFormat : ContentFormat) :
    s.SendsAndStarts (s.callOut (.respond handle code payload contentFormat))
      (s.respond handle code payload contentFormat).1
      (s.respond handle code payload contentFormat).2.2 := by
  unfold respond callOut
  dsimp only
  split
  case isFalse => exact sendsAndStarts_nil rfl rfl
  case isTrue hlt =>
    generalize hdr : s.deferred ⟨handle.toNat, hlt⟩ = dr
    have htoken : dr.token.length ≤ kMaxTokenLen := by
      rw [← hdr]
      exact t.deferred _
    by_cases hactive : dr.active = true
    · simp only [hactive, Bool.not_true, Bool.false_eq_true, if_false, true_and]
      cases henc : encoded cfg (separateResponse cfg dr s.nextMessageId code payload
          contentFormat) with
      | none =>
        split <;> exact sendsAndStarts_nil rfl rfl
      | some buf =>
        have hheader := separateResponse_header henc
        by_cases hcon : dr.wasConfirmable = true
        · simp only [hcon, if_true] at hheader ⊢
          exact ⟨.start htoken hheader.length hheader.id (.done _), confirmableSent_one hheader _⟩
        · simp only [hcon] at hheader ⊢
          exact sendsAndStarts_nil rfl (confirmableSent_one hheader _)
    · simp only [hactive, Bool.not_false, if_true, false_and, if_false, Bool.false_eq_true]
      exact sendsAndStarts_nil rfl rfl

/-- **A call** sends the Confirmable datagrams it starts transactions for; of the server's calls
these are `notify` and `respond`. -/
theorem call_starts {s : Server cfg} (t : s.TokensFit) (call : ServerCall) :
    s.SendsAndStarts (s.callOut call) (s.call call).1 (s.call call).2.2 := by
  have hadd : ∀ path methods handler ctx observable,
      (s.addResource path methods handler ctx observable).1.txPool = s.txPool := by
    intro path methods handler ctx observable
    obtain ⟨rs, heq⟩ := s.addResource_only path methods handler ctx observable
    rw [heq]
  cases call with
  | begin transportOk =>
    refine sendsAndStarts_nil ?_ rfl
    show (s.begin transportOk).1.txPool = _
    unfold begin
    split
    · rfl
    · exact hadd ..
  | addResource path methods handler userContext observable =>
    exact sendsAndStarts_nil (hadd ..) rfl
  | setResourceType path rt =>
    refine sendsAndStarts_nil ?_ rfl
    show (s.setResourceType path rt).1.txPool = _
    unfold setResourceType
    split <;> rfl
  | notify path payload contentFormat confirmable =>
    show s.SendsAndStarts _ (s.notify path payload contentFormat confirmable).1
      (s.notify path payload contentFormat confirmable).2.2
    unfold notify callOut
    dsimp only
    cases ht : s.findTarget path with
    | none => exact sendsAndStarts_nil rfl rfl
    | some target =>
      dsimp only
      by_cases hobs : target.resource.observable = true
      · rw [if_neg (show ¬ (!target.resource.observable) = true by simp [hobs]),
          if_congr (and_iff_right hobs : _ ↔ confirmable = true) rfl rfl]
        -- the sequence number is written before the loop
        obtain ⟨hstart, hsent⟩ := notifyFrom_starts s.observers target.index
          (target.resource.observeSequence + 1) payload contentFormat confirmable (List.finRange _)
          (s := { s with
            resources := s.resources.set target.index
              { target.resource with
                observeSequence := target.resource.observeSequence + 1 } })
          ⟨t.observers, t.deferred⟩ fun j => ⟨(s.observers j).lastSentMessageId, rfl⟩
        exact ⟨hstart, hsent⟩
      · simp only [hobs, Bool.not_false, if_true, false_and, if_false, Bool.false_eq_true]
        exact sendsAndStarts_nil rfl rfl
  | respond handle code payload contentFormat =>
    exact respond_starts t handle code payload contentFormat

/-! ## No datagram twice -/

/-- The message IDs of notifications count up: the one of each datagram is the first one plus
its place among the observers that are notified. -/
theorem notifyOut_id {observers : Table cfg.maxObservers Observer} {index : Nat}
    {sequence : UInt32} {payload : Bytes} {contentFormat : ContentFormat}
    {is : List (Fin cfg.maxObservers)} {messageId : UInt16} {d : Datagram}
    (hd : d ∈ notifyOut cfg observers index sequence payload contentFormat messageId is) :
    ∃ k < is.length, datagramId d.2 = some (messageId + UInt16.ofNat k) := by
  induction is generalizing messageId with
  | nil => cases hd
  | cons i is ih =>
    unfold notifyOut at hd
    dsimp only at hd
    split at hd
    · rcases List.mem_append.1 hd with hd | hd
      · obtain ⟨buf, hbuf, rfl⟩ := List.mem_map.1 hd
        have henc := Option.mem_toList.1 hbuf
        exact ⟨0, Nat.succ_pos _, by rw [(notification_header henc).id]; simp⟩
      · obtain ⟨k, hk, hid⟩ := ih hd
        refine ⟨k + 1, Nat.succ_lt_succ hk, ?_⟩
        rw [hid, Nat.add_comm k 1, UInt16.ofNat_add, UInt16.add_assoc]
        rfl
    · obtain ⟨k, hk, hid⟩ := ih hd
      exact ⟨k, Nat.lt_succ_of_lt hk, hid⟩

/-- The notifications of one call have different message IDs: the counter does not come round within
a table of observers. -/
theorem notifyOut_nodup (observers : Table cfg.maxObservers Observer) (index : Nat)
    (sequence : UInt32) (payload : Bytes) (contentFormat : ContentFormat)
    {is : List (Fin cfg.maxObservers)} (hlen : is.length ≤ 65536) (messageId : UInt16) :
    (notifyOut cfg observers index sequence payload contentFormat messageId is).Nodup := by
  induction is generalizing messageId with
  | nil => exact List.nodup_nil
  | cons i is ih =>
    rw [List.length_cons] at hlen
    unfold notifyOut
    dsimp only
    split
    · refine List.Nodup.append ?_ (ih (by omega) _) ?_
      · cases encoded cfg (notification cfg (observers i) messageId sequence payload contentFormat
            true) with
        | none => exact List.nodup_nil
        | some buf => exact List.nodup_singleton _
      · -- the IDs behind start one higher, and do not come round
        intro d hd hd'
        obtain ⟨buf, hbuf, rfl⟩ := List.mem_map.1 hd
        have hid := (notification_header (Option.mem_toList.1 hbuf)).id
        obtain ⟨k, hk, hid'⟩ := notifyOut_id hd'
        rw [hid, Option.some.injEq] at hid'
        have hnat := congrArg UInt16.toNat hid'
        simp only [UInt16.toNat_add, UInt16.toNat_ofNat', UInt16.toNat_one] at hnat
        have hlt := messageId.toNat_lt
        omega
    · exact ih (by omega) messageId

/-- So no call sends a confirmable datagram twice. The message IDs alone tell them apart. -/
theorem callOut_nodup (s : Server cfg) (call : ServerCall) : (s.callOut call).Nodup := by
  have hone : ∀ (dest : Endpoint) (buf : Option Bytes),
      (buf.toList.map fun data => (dest, data)).Nodup := by
    intro dest buf
    cases buf with
    | none => exact List.nodup_nil
    | some buf => exact List.nodup_singleton _
  cases call with
  | begin transportOk => exact List.nodup_nil
  | addResource path methods handler userContext observable => exact List.nodup_nil
  | setResourceType path rt => exact List.nodup_nil
  | notify path payload contentFormat confirmable =>
    unfold callOut
    dsimp only
    split
    · exact List.nodup_nil
    · split
      · refine notifyOut_nodup _ _ _ _ _ ?_ _
        rw [List.length_finRange]
        exact Nat.le_of_lt (Nat.lt_trans cfg.observers_lt (by omega))
      · exact List.nodup_nil
  | respond handle code payload contentFormat =>
    unfold callOut
    dsimp only
    split
    · split
      · exact hone _ _
      · exact List.nodup_nil
    · exact List.nodup_nil

/-! ## Runs -/

/-- The loop over the observers. It writes message IDs into the entries and no token. -/
theorem TokensFit.notifyFrom (index : Nat) (sequence : UInt32) (payload : Bytes)
    (contentFormat : ContentFormat) (confirmable : Bool) (is : List (Fin cfg.maxObservers))
    {s : Server cfg} (t : s.TokensFit) :
    (s.notifyFrom index sequence payload contentFormat confirmable is).1.TokensFit := by
  induction is generalizing s with
  | nil => exact t
  | cons i is ih =>
    unfold Server.notifyFrom
    split
    · exact ih (t.notifyObserver ..)
    · exact ih t

/-- A call of the API stores no token at all: what it sends carries tokens that are there
already. -/
theorem TokensFit.call {s : Server cfg} (t : s.TokensFit) (call : ServerCall) :
    (s.call call).1.TokensFit := by
  rcases s.call_cases call with ⟨rs, heq, -⟩ |
    ⟨path, payload, contentFormat, confirmable, rfl⟩ | ⟨handle, code, payload, contentFormat, rfl⟩
  · rw [heq]
    exact ⟨t.observers, t.deferred⟩
  · show (s.notify path payload contentFormat confirmable).1.TokensFit
    unfold notify
    split
    · exact t
    · split
      · exact t
      · exact TokensFit.notifyFrom _ _ _ _ _ _ ⟨t.observers, t.deferred⟩
  · show (s.respond handle code payload contentFormat).1.TokensFit
    unfold respond
    split
    · dsimp only
      have hfree := fun i => fits_set (i := i) (a := { s.deferred i with active := false })
        t.deferred (t.deferred i)
      split
      · exact t
      · split
        · exact ⟨t.observers, hfree _⟩
        · split <;> exact ⟨t.observers, hfree _⟩
    · exact t

/-- **What one step preserves.** A token gets into the tables in a poll only, and there out of a
message that was decoded. -/
theorem TokensFit.step {s : Server cfg} (t : s.TokensFit) (a : Action) :
    (s.step a).1.TokensFit := by
  cases a with
  | call call => exact t.call call
  | poll nowMs rx =>
    unfold Server.step
    dsimp only
    split
    · exact t.poll nowMs rx
    · exact t
  | handlerReturns res =>
    unfold Server.step
    dsimp only
    split
    · exact t
    · have hidle : ({ s with control := .idle } : Server cfg).TokensFit :=
        ⟨t.observers, t.deferred⟩
      exact hidle.finish ..

/-- **Every token of a run fits its array.** -/
theorem tokensFit_of_run {P : Server cfg → Action → Prop} {h : List ServerEvent} {s : Server cfg}
    (r : (machine cfg).Run P h s) : s.TokensFit :=
  r.invariant (I := fun _ s => s.TokensFit)
    ⟨fun _ => Nat.zero_le _, fun _ => Nat.zero_le _⟩ fun _ t _ => t.step _

end Server

end PulseCoap
