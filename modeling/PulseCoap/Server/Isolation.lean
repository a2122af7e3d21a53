import PulseCoap.Server.Frame

/-!
# PulseCoAP — what one endpoint's datagram can touch

The server's tables are shared by all peers, and each branch of `poll()` scans
them by a key of its own: an RST by the remote and a message ID, the Observe
option and the Block1 branch by the remote and the token, the deferral by what
is free. Every key has the remote in it, and what is taken without a key is free.

`Turned` is the shape of the argument: a step for a request of `a` has changed
only entries of `a`, has sent to `a` only, and if a handler runs now, what was
kept for after it (its slot, its session) is `a`'s as well. The scan of the pool
is the one thing in `poll()` that is about all peers at once; a condition says
that nothing is due.

* `KeepsOthers` — what belongs to other endpoints is as before.
* `isolated` — a whole turn, from `poll()` to the return of the handler, keeps
  what belongs to others and sends to the sender only.
* `Turned`, `Owned` — while the handler runs.
-/

namespace PulseCoap

namespace Server

variable {cfg : Config}

open TransactionPool

/-- No active entry of another endpoint than `a` has changed. -/
structure KeepsOthers (a : Endpoint) (s s' : Server cfg) : Prop where
  observers : ∀ i, (s.observers i).active = true → (s.observers i).remote ≠ a →
    s'.observers i = s.observers i
  deferred  : ∀ i, (s.deferred i).active = true → (s.deferred i).remote ≠ a →
    s'.deferred i = s.deferred i
  sessions  : ∀ i, (s.block1sessions i).active = true → (s.block1sessions i).remote ≠ a →
    s'.block1sessions i = s.block1sessions i
  txPool    : ∀ i, Awaiting (s.txPool i) → (s.txPool i).remote ≠ a → s'.txPool i = s.txPool i

/-- Datagrams go to `a` only. -/
def SendsOnlyTo (a : Endpoint) (events : List ServerEvent) : Prop :=
  ∀ dest data, .sent dest data ∈ events → dest = a

/-- The two together. -/
def Local (a : Endpoint) (s : Server cfg) (r : Server cfg × List ServerEvent) : Prop :=
  KeepsOthers a s r.1 ∧ SendsOnlyTo a r.2

/-- What the code has kept for after the handler belongs to `a`. -/
structure Owned (a : Endpoint) (s : Server cfg) (h : Handling cfg) : Prop where
  sender   : h.sender = a
  deferred : ∀ i, h.deferIdx = some i → (s.deferred i).remote = a
  session  : ∀ i, h.session = some i → (s.block1sessions i).remote = a

/-! ## Composition -/

theorem KeepsOthers.refl (a : Endpoint) (s : Server cfg) : KeepsOthers a s s :=
  ⟨fun _ _ _ => rfl, fun _ _ _ => rfl, fun _ _ _ => rfl, fun _ _ _ => rfl⟩

theorem KeepsOthers.trans {a : Endpoint} {s s' s'' : Server cfg} (h : KeepsOthers a s s')
    (h' : KeepsOthers a s' s'') : KeepsOthers a s s'' where
  observers i ha hr := by
    have heq := h.observers i ha hr
    rw [← heq] at ha hr
    exact (h'.observers i ha hr).trans heq
  deferred i ha hr := by
    have heq := h.deferred i ha hr
    rw [← heq] at ha hr
    exact (h'.deferred i ha hr).trans heq
  sessions i ha hr := by
    have heq := h.sessions i ha hr
    rw [← heq] at ha hr
    exact (h'.sessions i ha hr).trans heq
  txPool i ha hr := by
    have heq := h.txPool i ha hr
    rw [← heq] at ha hr
    exact (h'.txPool i ha hr).trans heq

/-- Overwriting a slot that is free or belongs to `a`. -/
theorem kept_set {α : Type} {n : Nat} (P : α → Prop) (R : α → Endpoint) {a : Endpoint}
    {t : Table n α} {i : Fin n} (hi : ¬ P (t i) ∨ R (t i) = a) (x : α) :
    ∀ j, P (t j) → R (t j) ≠ a → t.set i x j = t j := by
  intro j hj hr
  refine Table.set_ne _ _ ?_
  rintro rfl
  rcases hi with hi | hi
  · exact hi hj
  · exact hr hi

theorem sendsOnlyTo_nil (a : Endpoint) : SendsOnlyTo a [] := fun _ _ h => nomatch h

theorem SendsOnlyTo.append {a : Endpoint} {ev ev' : List ServerEvent} (h : SendsOnlyTo a ev)
    (h' : SendsOnlyTo a ev') : SendsOnlyTo a (ev ++ ev') := by
  intro dest data hmem
  rcases List.mem_append.1 hmem with hmem | hmem
  · exact h dest data hmem
  · exact h' dest data hmem

theorem sendsOnlyTo_sendIfEncoded (msg : Message) (a : Endpoint) :
    SendsOnlyTo a (sendIfEncoded cfg msg a) := by
  intro dest data hmem
  unfold sendIfEncoded at hmem
  split at hmem
  · cases List.mem_singleton.1 hmem
    rfl
  · cases hmem

/-! ## Replies -/

/-- A reply takes a message ID and goes to its destination. -/
theorem local_reply (s : Server cfg) (request : Message) (code : Code) (msg : Message)
    (a : Endpoint) : Local a s ((s.reply request code).1, sendIfEncoded cfg msg a) := by
  obtain ⟨id, hid⟩ := s.reply_state request code
  refine ⟨?_, sendsOnlyTo_sendIfEncoded _ _⟩
  dsimp only
  rw [hid]
  exact ⟨fun _ _ _ => rfl, fun _ _ _ => rfl, fun _ _ _ => rfl, fun _ _ _ => rfl⟩

/-- A response touches nobody else. -/
theorem local_piggybacked (s : Server cfg) (request : Message) (a : Endpoint) (code : Code)
    (payload : Bytes) (contentFormat : ContentFormat) (observeValue : Option UInt32) :
    Local a s (s.sendPiggybackedResponse request a code payload contentFormat observeValue) :=
  s.local_reply request code _ a

theorem local_error (s : Server cfg) (request : Message) (a : Endpoint) (code : Code) :
    Local a s (s.sendError request a code) :=
  s.local_piggybacked request a code [] .textPlain none

theorem local_continue (s : Server cfg) (request : Message) (a : Endpoint) (num : UInt32)
    (m : Bool) (szx : UInt8) : Local a s (s.sendContinue request a num m szx) :=
  s.local_reply request _ _ a

/-- What a handler that does not defer is answered with touches nobody else. -/
theorem local_inline (s : Server cfg) (h : Handling cfg) (res : Response) :
    Local h.sender s (s.replyInline h res) := by
  unfold replyInline
  split
  · dsimp only
    split
    · split
      · exact s.local_error ..
      · unfold sendBlock2Response
        dsimp only
        split
        · exact ⟨KeepsOthers.refl _ s, sendsOnlyTo_nil _⟩
        · exact s.local_reply h.msg res.code _ h.sender
    · exact s.local_piggybacked ..
  · exact s.local_piggybacked ..

/-! ## After the handler -/

/-- A slot for a deferred request is freed by the peer it was filled for. -/
theorem keeps_freeDeferred {a : Endpoint} {s : Server cfg} {slot : Option (Fin cfg.maxDeferred)}
    (h : ∀ i, slot = some i → (s.deferred i).remote = a) :
    KeepsOthers a s (s.freeDeferred? slot) := by
  cases slot with
  | none => exact KeepsOthers.refl a s
  | some i =>
    exact ⟨fun _ _ _ => rfl,
      kept_set (fun d => d.active = true) DeferredRequest.remote (.inr (h i rfl)) _,
      fun _ _ _ => rfl, fun _ _ _ => rfl⟩

/-- So is the session of an upload. -/
theorem keeps_freeSession {a : Endpoint} {s : Server cfg}
    {session : Option (Fin cfg.maxBlock1Sessions)}
    (h : ∀ i, session = some i → (s.block1sessions i).remote = a) :
    KeepsOthers a s (s.freeBlock1Session? session) := by
  cases session with
  | none => exact KeepsOthers.refl a s
  | some i =>
    exact ⟨fun _ _ _ => rfl, fun _ _ _ => rfl,
      kept_set (fun b => b.active = true) Block1Session.remote (.inr (h i rfl)) _,
      fun _ _ _ => rfl⟩

/-- **After the handler**: its slot and its session are freed, and it is answered. Both are of
the peer that the handler was called for. -/
theorem Owned.finish {a : Endpoint} {s : Server cfg} {h : Handling cfg} (o : Owned a s h)
    (res : Response) : Local a s (s.finish h res) := by
  obtain ⟨hsender, hdeferred, hsession⟩ := o
  have hsess := keeps_freeSession hsession
  have hdef : KeepsOthers a (s.freeBlock1Session? h.session)
      ((s.freeBlock1Session? h.session).freeDeferred? h.deferIdx) := by
    refine keeps_freeDeferred fun i hi => ?_
    rw [← hdeferred i hi]
    cases h.session <;> rfl
  unfold Server.finish
  dsimp only
  split
  · refine ⟨hsess, ?_⟩
    split
    · rw [hsender]
      exact sendsOnlyTo_sendIfEncoded _ _
    · exact sendsOnlyTo_nil _
  · -- the reply comes last
    have hreply : ∀ r, Local a ((s.freeBlock1Session? h.session).freeDeferred? h.deferIdx) r →
        Local a s r := fun r hr => ⟨(hsess.trans hdef).trans hr.1, hr.2⟩
    split
    · refine hreply _ ?_
      rw [hsender]
      exact local_piggybacked ..
    · refine hreply _ ?_
      rw [← hsender]
      exact local_inline ..

/-! ## The Observe option -/

/-- An entry that is free, or of this peer, may be written. -/
theorem keeps_setObserver {a : Endpoint} {s : Server cfg} {i : Fin cfg.maxObservers}
    (hi : ¬ (s.observers i).active = true ∨ (s.observers i).remote = a) (o : Observer) :
    KeepsOthers a s { s with observers := s.observers.set i o } :=
  ⟨kept_set (fun o => o.active = true) Observer.remote hi o, fun _ _ _ => rfl,
    fun _ _ _ => rfl, fun _ _ _ => rfl⟩

/-- A registration takes such an entry: the peer's own or a free one. -/
theorem keeps_registerObserver (s : Server cfg) (index : UInt8) (a : Endpoint) (token : Bytes) :
    KeepsOthers a s (s.registerObserver index a token) := by
  unfold registerObserver
  cases hf : s.observers.find? (observes a token) with
  | some i => exact keeps_setObserver (.inr (observes_iff.1 (Table.find?_spec hf)).2.1) _
  | none =>
    dsimp only
    cases hfree : s.observers.find? fun o => !o.active with
    | some i =>
      have hidle : (s.observers i).active = false := by simpa using Table.find?_spec hfree
      exact keeps_setObserver (.inl (by simp [hidle])) _
    | none => exact KeepsOthers.refl a s

/-- The message ID of the reply is noted in the peer's own entry. -/
theorem keeps_noteReply (s : Server cfg) (a : Endpoint) (token : Bytes) (messageId : UInt16) :
    KeepsOthers a s (s.noteReply a token messageId) := by
  unfold noteReply
  cases hf : s.observers.find? (observes a token) with
  | some i => exact keeps_setObserver (.inr (observes_iff.1 (Table.find?_spec hf)).2.1) _
  | none => exact KeepsOthers.refl a s

/-- A deregistration removes the peer's own entries. -/
theorem keeps_removeObserver (s : Server cfg) (a : Endpoint) (token : Bytes) :
    KeepsOthers a s (s.removeObserver a token) := by
  refine ⟨fun i hi hr => ?_, fun _ _ _ => rfl, fun _ _ _ => rfl, fun _ _ _ => rfl⟩
  show (if observes a token (s.observers i) then _ else s.observers i) = s.observers i
  rw [if_neg fun h => hr (observes_iff.1 h).2.1]

/-- The Observe option of a request. -/
theorem keeps_handleObserve (s : Server cfg) (t : Target) (msg : Message) (a : Endpoint) :
    KeepsOthers a s (s.handleObserve t msg a).1 := by
  unfold handleObserve
  split
  · exact KeepsOthers.refl a s
  · split
    · split
      · exact (s.keeps_registerObserver _ a msg.token).trans (keeps_noteReply ..)
      · exact s.keeps_removeObserver a msg.token
    · exact KeepsOthers.refl a s

/-! ## The handler call -/

/-- What a request leaves: only `a`'s entries have changed, only `a` is sent to,
and a running handler has only what is `a`'s. -/
structure Turned (a : Endpoint) (s : Server cfg) (r : Server cfg × List ServerEvent) : Prop where
  keeps : Local a s r
  owned : ∀ h, r.1.control = .handling h → Owned a r.1 h

/-- Without a handler call nothing is kept. -/
theorem turned_idle {a : Endpoint} {s : Server cfg} {r : Server cfg × List ServerEvent}
    (h : Local a s r) (hidle : r.1.control = .idle) : Turned a s r :=
  ⟨h, fun h' hctl => by rw [hidle] at hctl; cases hctl⟩

theorem Turned.after {a : Endpoint} {s s' : Server cfg} {r : Server cfg × List ServerEvent}
    (h : Turned a s' r) (hk : KeepsOthers a s s') : Turned a s r :=
  ⟨⟨hk.trans h.keeps.1, h.keeps.2⟩, h.owned⟩

theorem turned_runHandler {a : Endpoint} {s : Server cfg} (hidle : s.control = .idle) (t : Target)
    (msg : Message) (ov : Option UInt32) {session : Option (Fin cfg.maxBlock1Sessions)}
    (hsession : ∀ i, session = some i → (s.block1sessions i).remote = a) :
    Turned a s (s.runHandler t msg a ov session) := by
  -- the slot that is taken is a free one, so nobody loses it
  have hfill : KeepsOthers a s (s.fillDeferred s.allocateDeferred msg a) := by
    unfold allocateDeferred
    cases hf : s.deferred.find? fun d => !d.active with
    | none => exact KeepsOthers.refl a s
    | some i =>
      have hfree : (s.deferred i).active = false := by simpa using Table.find?_spec hf
      exact ⟨fun _ _ _ => rfl, kept_set (fun d => d.active = true)
        DeferredRequest.remote (.inl (by simp [hfree])) _, fun _ _ _ => rfl,
        fun _ _ _ => rfl⟩
  have howned : Owned a (s.fillDeferred s.allocateDeferred msg a)
      (s.handlingFor msg a ov session) := by
    refine ⟨rfl, fun i hi => ?_, fun i hi => ?_⟩
    · have halloc : s.allocateDeferred = some i := hi
      rw [halloc]
      show ((s.deferred.set i _) i).remote = a
      rw [Table.set_self]
    · obtain ⟨d, hd⟩ := s.fillDeferred_spec s.allocateDeferred msg a
      rw [hd]
      exact hsession i hi
  have hcall : ∀ ev, SendsOnlyTo a ev → SendsOnlyTo a (s.handlerCall t msg a session :: ev) := by
    intro ev hev dest data hmem
    rcases List.mem_cons.1 hmem with hmem | hmem
    · cases hmem
    · exact hev dest data hmem
  -- the application's handler is running now, with what it may touch its own
  rcases s.runHandler_cases t msg a ov session with ⟨f, -, heq⟩ | ⟨-, heq⟩
  · rw [heq]
    refine ⟨⟨⟨hfill.observers, hfill.deferred, hfill.sessions, hfill.txPool⟩,
      hcall _ (sendsOnlyTo_nil a)⟩, fun h hctl => ?_⟩
    cases hctl
    exact ⟨howned.sender, howned.deferred, howned.session⟩
  · -- the server's own handler returns at once
    rw [heq]
    dsimp only
    obtain ⟨hkeeps, hsends⟩ := howned.finish
      (s.fillDeferred s.allocateDeferred msg a).wellKnownCoreHandler
    refine turned_idle ⟨hfill.trans hkeeps, hcall _ hsends⟩ ?_
    obtain ⟨d, hd⟩ := s.fillDeferred_spec s.allocateDeferred msg a
    dsimp only
    rw [finish_control, hd]
    exact hidle

/-! ## Block1 -/

theorem keeps_withSession {a : Endpoint} {s : Server cfg} {i : Fin cfg.maxBlock1Sessions}
    (hi : ¬ (s.block1sessions i).active = true ∨ (s.block1sessions i).remote = a)
    (b : Block1Session) : KeepsOthers a s (s.withSession i b) :=
  ⟨fun _ _ _ => rfl, fun _ _ _ => rfl,
    kept_set (fun b => b.active = true) Block1Session.remote hi b,
    fun _ _ _ => rfl⟩

/-- A block for a session of `a`. -/
theorem turned_handleBlock {a : Endpoint} {s : Server cfg} (hidle : s.control = .idle)
    {i : Fin cfg.maxBlock1Sessions} (hi : (s.block1sessions i).remote = a) (b1 : BlockOption)
    (t : Target) (msg : Message) (ov : Option UInt32) :
    Turned a s (s.handleBlock i b1 t msg a ov) := by
  have happ : ∀ b, KeepsOthers a s (s.withSession i b) := fun b => keeps_withSession (.inr hi) b
  have hquiet : ∀ (s' : Server cfg) {r : Server cfg × List ServerEvent}, s'.control = .idle →
      KeepsOthers a s s' → Local a s' r → s'.JustReplies r → Turned a s r := by
    intro s' r hctl hk hlocal hreplies
    exact (turned_idle hlocal (hreplies.control.trans hctl)).after hk
  rcases s.handleBlock_cases i b1 t msg a ov with ⟨-, heq⟩ | ⟨-, -, heq⟩ | ⟨-, -, -, heq⟩ |
    ⟨-, -, -, heq⟩
  · rw [heq]
    exact hquiet s hidle (KeepsOthers.refl a s) (s.local_continue ..) (s.justReplies_continue ..)
  · rw [heq]
    exact hquiet (s.freeBlock1Session i) hidle (happ _) (local_error ..) (justReplies_error ..)
  · rw [heq]
    exact hquiet (s.withSession i _) hidle (happ _) (local_continue ..) (justReplies_continue ..)
  · rw [heq]
    have hctl : (s.withSession i (appended (s.block1sessions i) msg.payloadBytes)).control = .idle :=
      hidle
    refine (turned_runHandler hctl t msg ov fun j hj => ?_).after (happ _)
    obtain rfl : i = j := Option.some.inj hj
    show ((s.block1sessions.set i _) i).remote = a
    rw [Table.set_self]
    exact hi

/-- A block of an upload, to its end or up to the handler. -/
theorem turned_handleBlock1 {a : Endpoint} {s : Server cfg} (hidle : s.control = .idle)
    (opt : CoapOption) (t : Target) (msg : Message) (ov : Option UInt32) :
    Turned a s (s.handleBlock1 opt t msg a ov) := by
  have herror : ∀ code, Turned a s (s.sendError msg a code) := fun code =>
    turned_idle (s.local_error msg a code) ((s.justReplies_error msg a code).control.trans hidle)
  unfold handleBlock1
  cases hopt : BlockOption.fromOption opt with
  | none => exact herror Code.badOption
  | some b1 =>
    dsimp only
    rcases s.sessionFor_cases b1 a msg.token with ⟨code, hs⟩ | ⟨i, hf, hs⟩ | ⟨i, hf, -, hfree, hs⟩
    · rw [hs]
      exact herror code
    · rw [hs]
      exact turned_handleBlock hidle (findBlock1Session_spec hf).2.1 b1 t msg ov
    · rw [hs]
      have hnew : KeepsOthers a s (s.withSession i (newSession a msg.token)) :=
        keeps_withSession (.inl (by simp [hfree])) _
      have hctl : (s.withSession i (newSession a msg.token)).control = .idle := hidle
      refine (turned_handleBlock hctl ?_ b1 t msg ov).after hnew
      show ((s.block1sessions.set i _) i).remote = a
      rw [Table.set_self]
      rfl

/-! ## A whole turn -/

/-- **A request** is a matter of its sender: the entries it changes have the sender's remote, or
were free. -/
theorem turned_handleRequest {a : Endpoint} {s : Server cfg} (hidle : s.control = .idle)
    (msg : Message) : Turned a s (s.handleRequest msg a) := by
  rcases s.handleRequest_cases msg a with ⟨-, code, heq⟩ | ⟨t, -, heq⟩
  · rw [heq]
    exact turned_idle (s.local_error msg a code)
      ((s.justReplies_error msg a code).control.trans hidle)
  rw [heq]
  unfold handleTarget
  dsimp only
  have hobs := s.keeps_handleObserve t msg a
  have hctl : (s.handleObserve t msg a).1.control = .idle := by
    obtain ⟨obs, h⟩ := s.handleObserve_spec t msg a
    rw [h]
    exact hidle
  cases block1Option cfg msg with
  | some opt => exact (turned_handleBlock1 hctl opt t msg _).after hobs
  | none =>
    have hnone : ∀ i, (none : Option (Fin cfg.maxBlock1Sessions)) = some i →
        ((s.handleObserve t msg a).1.block1sessions i).remote = a := nofun
    exact (turned_runHandler hctl t msg _ hnone).after hobs

/-- So is any datagram, well formed or not. -/
theorem turned_receive {s : Server cfg} (hidle : s.control = .idle) (a : Endpoint) (data : Bytes) :
    Turned a s (s.receive (some (a, data))) := by
  rcases s.receive_cases (some (a, data)) with h | ⟨_, _, msg, hrx, -, -, h⟩ |
    ⟨_, _, msg, hrx, -, -, h⟩ | ⟨_, _, msg, hrx, -, -, h⟩
  · rw [h]
    exact turned_idle ⟨KeepsOthers.refl a s, sendsOnlyTo_nil a⟩ hidle
  · -- an RST
    cases hrx
    rw [h]
    refine turned_idle ⟨?_, sendsOnlyTo_nil a⟩ ?_
    · unfold handleReset
      split
      · rename_i i hf
        have hi := Table.find?_spec hf
        simp only [Bool.and_eq_true, beq_iff_eq] at hi
        exact keeps_setObserver (.inr hi.1.2) _
      · exact KeepsOthers.refl a s
    · obtain ⟨obs, hobs⟩ := s.handleReset_spec a msg.messageId
      dsimp only
      rw [hobs]
      exact hidle
  · -- an ACK
    cases hrx
    rw [h]
    refine turned_idle ⟨?_, sendsOnlyTo_nil a⟩ hidle
    rcases complete_cases s.txPool a msg.messageId with ⟨-, hc⟩ | ⟨i, hf, hc⟩
    · rw [hc]
      exact KeepsOthers.refl a s
    · rw [hc]
      exact ⟨fun _ _ _ => rfl, fun _ _ _ => rfl, fun _ _ _ => rfl,
        kept_set Awaiting Transaction.remote
          (.inr (matchesId_iff.1 (Table.find?_spec hf)).2.1) _⟩
  · cases hrx
    rw [h]
    exact turned_handleRequest hidle msg

/-- `poll` with a datagram and the return of the handler it may have called,
which has not called the server. -/
def wholeTurn (nowMs : UInt32) (sender : Endpoint) (data : Bytes) (res : Response) : List Action :=
  [.poll nowMs (some (sender, data)), .handlerReturns res]

/-- **Endpoint isolation.** When no timer is due, a datagram from `a` changes no active entry of
another endpoint and has nothing sent to one. The bytes of the datagram and the result of the
handler are arbitrary. -/
theorem isolated {s : Server cfg} (hidle : s.control = .idle) {nowMs : UInt32}
    (hdue : s.NoneDue nowMs) (a : Endpoint) (data : Bytes) (res : Response) :
    KeepsOthers a s ((machine cfg).exec [] s (wholeTurn nowMs a data res)).2 ∧
      SendsOnlyTo a ((machine cfg).exec [] s (wholeTurn nowMs a data res)).1 := by
  have hpoll : s.step (.poll nowMs (some (a, data))) =
      ({ s with lastNowMs := nowMs } : Server cfg).receive (some (a, data)) := by
    rw [step_poll hidle, poll_quiet hdue]
  -- up to the handler
  have hturn : Turned a s (s.step (.poll nowMs (some (a, data)))) := by
    rw [hpoll]
    have hctl : ({ s with lastNowMs := nowMs } : Server cfg).control = .idle := hidle
    refine (turned_receive hctl a data).after ?_
    exact ⟨fun _ _ _ => rfl, fun _ _ _ => rfl, fun _ _ _ => rfl, fun _ _ _ => rfl⟩
  generalize hr : s.step (.poll nowMs (some (a, data))) = r at hturn
  have hexec : (machine cfg).exec [] s (wholeTurn nowMs a data res) =
      ([] ++ r.2 ++ (r.1.step (.handlerReturns res)).2, (r.1.step (.handlerReturns res)).1) := by
    show ([] ++ (s.step (.poll nowMs (some (a, data)))).2 ++
      ((s.step (.poll nowMs (some (a, data)))).1.step (.handlerReturns res)).2,
      ((s.step (.poll nowMs (some (a, data)))).1.step (.handlerReturns res)).1) = _
    rw [hr]
  rw [hexec, List.nil_append]
  -- and from there on
  have hret : Local a r.1 (r.1.step (.handlerReturns res)) := by
    cases hctl : r.1.control with
    | idle =>
      rw [step_returns_idle hctl]
      exact ⟨KeepsOthers.refl a _, sendsOnlyTo_nil a⟩
    | handling h =>
      obtain ⟨hsender, hdeferred, hsession⟩ := hturn.owned h hctl
      have howned : Owned a ({ r.1 with control := .idle } : Server cfg) h :=
        ⟨hsender, hdeferred, hsession⟩
      obtain ⟨hkeeps, hsends⟩ := howned.finish res
      rw [step_returns hctl]
      exact ⟨⟨hkeeps.observers, hkeeps.deferred, hkeeps.sessions, hkeeps.txPool⟩, hsends⟩
  exact ⟨hturn.keeps.1.trans hret.1, hturn.keeps.2.append hret.2⟩

/-- A server with one resource, observed by the endpoint with port 1. -/
def observedServer : Server Config.default :=
  ((machine Config.default).exec [] {}
    (.call (.addResource (some [Uri.slash]) methodGet (some 0) none true) ::
      wholeTurn 0 { port := 1 } [0x41, 0x01, 0x00, 0x07, 0xA0, 0x60] {})).2

/-- An RST from port 2 with the message ID of the observer with port 1. -/
theorem isolated_observed :
    observedServer.control = .idle ∧ (observedServer.observers ⟨0, by decide⟩).active = true ∧
      KeepsOthers { port := 2 } observedServer
        ((machine Config.default).exec [] observedServer
          (wholeTurn 5 { port := 2 } [0x70, 0x00, 0x00, 0x07] {})).2 :=
  ⟨rfl, by decide +kernel, (isolated (by decide +kernel) (by decide +kernel) _ _ _).1⟩

end Server

end PulseCoap
