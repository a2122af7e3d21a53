import PulseCoap.Server.Spec

/-!
# PulseCoAP — what a step of the server leaves alone

The tables of the server are written in few places: the observers by the Observe
option, the RST branch, `notify` and the pool scan, the pool by the scan, the
ACK branch, `notify` and `respond`, the resources by the calls.

Most invariants of the server are about one table and the writers of that table.
The lemmas here say of every operation which tables it leaves alone, and of the
others what they can write; the invariants then look at the writers only. That a
resource keeps its index, its path and its handler as long as the server lives
is among them.

* `handleObserve_cases` — the Observe option in all its outcomes.
* `keepsTables_request` — what comes after the Observe option.
* `ObserverMoves`, `call_observers`, `scanned_observers` — the other writes to
  the observers.
* `Begins`, `call_begins`, `scanned_pool`, `receive_pool` — the pool.
* `call_resources_cases`, `forall_resources_call`, `resource_call` — the resources.
-/

namespace PulseCoap

namespace Server

open TransactionPool

variable {cfg : Config}

/-! ## The Observe option -/

/-- The entry of a registration. It is written over an old entry of the same peer and token, or
over a free one. -/
def registered (o : Observer) (index : UInt8) (remote : Endpoint) (token : Bytes)
    (messageId : UInt16) : Observer :=
  { o with active := true, resourceIndex := index, remote, token, lastSentMessageId := messageId }

/-- The entry is of this peer and token, and in use. The resource does not matter, so one token
has one entry. -/
theorem observes_iff {remote : Endpoint} {token : Bytes} {o : Observer} :
    observes remote token o = true ↔ o.active = true ∧ o.remote = remote ∧ o.token = token := by
  simp [observes, and_assoc]

/-- A registration refreshes its entry, takes a free one, or is dropped. In the last case
nothing at all is written. -/
theorem register_cases (s : Server cfg) (index : UInt8) (remote : Endpoint) (token : Bytes)
    (messageId : UInt16) :
    (∃ i, (s.observers.find? (observes remote token) = some i ∨
          s.observers.find? (observes remote token) = none ∧
            s.observers.find? (fun o => !o.active) = some i) ∧
        (s.registerObserver index remote token).noteReply remote token messageId =
          s.withObservers (s.observers.set i
            (registered (s.observers i) index remote token messageId))) ∨
      (s.observers.find? (observes remote token) = none ∧
        s.observers.find? (fun o => !o.active) = none ∧
        (s.registerObserver index remote token).noteReply remote token messageId = s) := by
  unfold registerObserver
  cases hf : s.observers.find? (observes remote token) with
  | some i =>
    obtain ⟨hact, hrem, htok⟩ := observes_iff.1 (Table.find?_spec hf)
    -- the reply's ID is noted in the entry that was refreshed
    have hagain : (s.observers.set i { s.observers i with resourceIndex := index }).find?
        (observes remote token) = some i :=
      Table.find?_set_self hf (observes_iff.2 ⟨hact, hrem, htok⟩)
    refine .inl ⟨i, .inl rfl, ?_⟩
    unfold noteReply
    simp only [hagain, Table.set_self, Table.set_set]
    unfold registered
    rw [← hact, ← hrem, ← htok]
    rfl
  | none =>
    dsimp only
    cases hfree : s.observers.find? fun o => !o.active with
    | none => exact .inr ⟨rfl, rfl, by unfold noteReply; rw [hf]⟩
    | some i =>
      refine .inl ⟨i, .inr ⟨rfl, rfl⟩, ?_⟩
      -- or in the one that was taken
      have hnew : (s.observers.set i { s.observers i with
          active := true, resourceIndex := index, remote, token }).find?
            (observes remote token) = some i :=
        Table.find?_set_new hf (observes_iff.2 ⟨rfl, rfl, rfl⟩)
      unfold noteReply
      simp only [hnew, Table.set_self, Table.set_set]
      rfl

/-- The request asks to be registered: a GET with Observe 0 for a resource that can be observed. -/
def Registers (t : Target) (msg : Message) : Prop :=
  t.resource.observable = true ∧ msg.code = Code.get ∧
    (msg.findOption OptionNumber.observe).map Message.optionAsUint = some kObserveRegister

instance (t : Target) (msg : Message) : Decidable (Registers t msg) :=
  inferInstanceAs (Decidable (_ ∧ _ ∧ _))

/-- The request asks to be deregistered. Every value but 0 does so, as in the source. -/
def Deregisters (t : Target) (msg : Message) : Prop :=
  t.resource.observable = true ∧ msg.code = Code.get ∧
    ∃ v, (msg.findOption OptionNumber.observe).map Message.optionAsUint = some v ∧
      v ≠ kObserveRegister

/-- The Observe option registers, deregisters or is not looked at. Which entry a deregistration
hits is decided by peer and token alone. -/
theorem handleObserve_cases (s : Server cfg) (t : Target) (msg : Message) (sender : Endpoint) :
    (Registers t msg ∧ s.handleObserve t msg sender =
        ((s.registerObserver (UInt8.ofNat t.index) sender msg.token).noteReply sender msg.token
          msg.messageId, observeValueOf t.resource.observeSequence)) ∨
      (Deregisters t msg ∧
        s.handleObserve t msg sender = (s.removeObserver sender msg.token, none)) ∨
      (¬ Registers t msg ∧ ¬ Deregisters t msg ∧ s.handleObserve t msg sender = (s, none)) := by
  unfold handleObserve Registers Deregisters
  cases hopt : msg.findOption OptionNumber.observe with
  | none => exact .inr (.inr ⟨by simp, by simp, rfl⟩)
  | some opt =>
    dsimp only
    by_cases hobs : t.resource.observable = true ∧ msg.code = Code.get
    · rw [if_pos hobs]
      by_cases hreg : Message.optionAsUint opt = kObserveRegister
      · rw [if_pos hreg]
        exact .inl ⟨⟨hobs.1, hobs.2, by rw [Option.map_some, hreg]⟩, rfl⟩
      · rw [if_neg hreg]
        exact .inr (.inl ⟨⟨hobs.1, hobs.2, _, rfl, hreg⟩, rfl⟩)
    · rw [if_neg hobs]
      exact .inr (.inr ⟨fun h => hobs ⟨h.1, h.2.1⟩, fun h => hobs ⟨h.1, h.2.1⟩, rfl⟩)

/-- The value of the option is one of the two. -/
theorem Deregisters.not_registers {t : Target} {msg : Message} (h : Deregisters t msg) :
    ¬ Registers t msg := by
  rintro ⟨-, -, hzero⟩
  obtain ⟨-, -, v, hv, hne⟩ := h
  rw [hzero] at hv
  exact hne (Option.some.inj hv).symm

/-- A GET with Observe 0 for an observable resource registers its sender, and the reply carries the
sequence number of the resource. -/
theorem handleObserve_registers (s : Server cfg) {t : Target} {msg : Message}
    (h : Registers t msg) (sender : Endpoint) : s.handleObserve t msg sender =
      ((s.registerObserver (UInt8.ofNat t.index) sender msg.token).noteReply sender msg.token
        msg.messageId, observeValueOf t.resource.observeSequence) := by
  rcases s.handleObserve_cases t msg sender with ⟨-, heq⟩ | ⟨hdereg, -⟩ | ⟨hnot, -⟩
  · exact heq
  · exact absurd h hdereg.not_registers
  · exact absurd h hnot

/-! ## After the Observe option -/

/-- Resources, observers, transactions and clock are the same. The sessions, the deferred slots
and the message ID may have changed. -/
structure KeepsTables (s s' : Server cfg) : Prop where
  resources : s'.resources = s.resources
  observers : s'.observers = s.observers
  txPool    : s'.txPool = s.txPool
  clock     : s'.lastNowMs = s.lastNowMs

theorem KeepsTables.refl (s : Server cfg) : KeepsTables s s := ⟨rfl, rfl, rfl, rfl⟩

theorem KeepsTables.trans {s s' s'' : Server cfg} (h : KeepsTables s s')
    (h' : KeepsTables s' s'') : KeepsTables s s'' :=
  ⟨h'.resources.trans h.resources, h'.observers.trans h.observers, h'.txPool.trans h.txPool,
    h'.clock.trans h.clock⟩

/-- A reply writes none of these tables. -/
theorem JustReplies.keepsTables {s : Server cfg} {r : Server cfg × List ServerEvent}
    (h : s.JustReplies r) : KeepsTables s r.1 := by
  obtain ⟨⟨id, heq⟩, -⟩ := h
  rw [heq]
  exact ⟨rfl, rfl, rfl, rfl⟩

/-- Nor does the end of a handler. -/
theorem keepsTables_finish (s : Server cfg) (h : Handling cfg) (res : Response) :
    KeepsTables s (s.finish h res).1 := by
  obtain ⟨⟨id, hstate⟩, -⟩ := s.finish_spec h res
  rw [hstate]
  exact ⟨rfl, rfl, rfl, rfl⟩

/-- Nor does a handler call, whether the handler is the application's or the server's own. -/
theorem keepsTables_runHandler (s : Server cfg) (t : Target) (msg : Message) (sender : Endpoint)
    (ov : Option UInt32) (session : Option (Fin cfg.maxBlock1Sessions)) :
    KeepsTables s (s.runHandler t msg sender ov session).1 := by
  obtain ⟨d, hd⟩ := s.fillDeferred_spec s.allocateDeferred msg sender
  rcases s.runHandler_cases t msg sender ov session with ⟨f, -, heq⟩ | ⟨-, heq⟩
  · rw [heq, hd]
    exact ⟨rfl, rfl, rfl, rfl⟩
  · have hfinish := keepsTables_finish (s.fillDeferred s.allocateDeferred msg sender)
      (s.handlingFor msg sender ov session)
      (s.fillDeferred s.allocateDeferred msg sender).wellKnownCoreHandler
    rw [heq]
    refine KeepsTables.trans ?_ hfinish
    rw [hd]
    exact ⟨rfl, rfl, rfl, rfl⟩

/-- Nor does a block of an upload; the sessions are no such table. -/
theorem keepsTables_handleBlock1 (s : Server cfg) (opt : CoapOption) (t : Target) (msg : Message)
    (sender : Endpoint) (ov : Option UInt32) :
    KeepsTables s (s.handleBlock1 opt t msg sender ov).1 := by
  have hsession : ∀ (s' : Server cfg) i b, KeepsTables s' (s'.withSession i b) :=
    fun _ _ _ => ⟨rfl, rfl, rfl, rfl⟩
  have hblock : ∀ (s' : Server cfg) i b1, KeepsTables s' (s'.handleBlock i b1 t msg sender ov).1 := by
    intro s' i b1
    rcases s'.handleBlock_cases i b1 t msg sender ov with ⟨-, heq⟩ | ⟨-, -, heq⟩ |
      ⟨-, -, -, heq⟩ | ⟨-, -, -, heq⟩
    · rw [heq]
      exact (s'.justReplies_continue ..).keepsTables
    · rw [heq]
      exact (hsession s' i _).trans (justReplies_error ..).keepsTables
    · rw [heq]
      exact (hsession s' i _).trans (justReplies_continue ..).keepsTables
    · rw [heq]
      exact (hsession s' i _).trans (keepsTables_runHandler ..)
  unfold handleBlock1
  split
  · exact (s.justReplies_error ..).keepsTables
  · rename_i b1 _
    rcases s.sessionFor_cases b1 sender msg.token with ⟨code, hs⟩ | ⟨i, -, hs⟩ | ⟨i, -, -, -, hs⟩
    · rw [hs]
      exact (s.justReplies_error ..).keepsTables
    · rw [hs]
      exact hblock s i b1
    · rw [hs]
      exact (hsession s i _).trans (hblock _ i b1)

/-- **A request** writes the tables only through the Observe option: what it leaves is what
`handleObserve` has left, or what was there before. -/
theorem keepsTables_request (s : Server cfg) (msg : Message) (sender : Endpoint) :
    (s.admitted msg = none ∧ KeepsTables s (s.handleRequest msg sender).1) ∨
      ∃ t, s.admitted msg = some t ∧
        KeepsTables (s.handleObserve t msg sender).1 (s.handleRequest msg sender).1 := by
  rcases s.handleRequest_cases msg sender with ⟨had, code, heq⟩ | ⟨t, had, heq⟩
  · rw [heq]
    exact .inl ⟨had, (s.justReplies_error msg sender code).keepsTables⟩
  · refine .inr ⟨t, had, ?_⟩
    rw [heq]
    unfold handleTarget
    dsimp only
    split
    · exact keepsTables_handleBlock1 ..
    · exact keepsTables_runHandler ..

/-- A request that registers writes them as `handleObserve` does, and the handler that runs
afterwards adds nothing to it. -/
theorem keepsTables_registers (s : Server cfg) {t : Target} {msg : Message}
    (had : s.admitted msg = some t) (hregs : Registers t msg) (sender : Endpoint) :
    KeepsTables ((s.registerObserver (UInt8.ofNat t.index) sender msg.token).noteReply sender
      msg.token msg.messageId) (s.handleRequest msg sender).1 := by
  rcases s.keepsTables_request msg sender with ⟨hnone, -⟩ | ⟨t', had', hk⟩
  · rw [had] at hnone
    cases hnone
  · obtain rfl : t = t' := Option.some.inj (had.symm.trans had')
    rwa [s.handleObserve_registers hregs] at hk

/-- A datagram leaves the resources alone. -/
theorem receive_resources (s : Server cfg) (rx : Option (Endpoint × Bytes)) :
    (s.receive rx).1.resources = s.resources := by
  obtain ⟨obs, pool, sess, h | ⟨t, msg, sender, ov, session, h⟩⟩ := s.comes_receive rx
  · exact h.keepsTables.resources
  · rw [h]
    exact (keepsTables_runHandler ..).resources

/-- Only the API writes the resources. So what holds of them holds until the next call. -/
theorem resources_step {s : Server cfg} {a : Action} (ha : ∀ call, a ≠ .call call) :
    (s.step a).1.resources = s.resources := by
  cases a with
  | call call => exact absurd rfl (ha call)
  | poll nowMs rx =>
    cases hctl : s.control with
    | idle => rw [step_poll_state hctl, receive_resources, scanned_resources]
    | handling h => rw [step_poll_busy hctl]
  | handlerReturns res =>
    cases hctl : s.control with
    | idle => rw [step_returns_idle hctl]
    | handling h => rw [step_returns hctl, (keepsTables_finish _ h res).resources]

/-! ## The other writes to the observers -/

/-- An entry is dropped or keeps its owner, its resource and whether it is active. A refresh of
an entry is no such move, and neither is a new one. -/
def ObserverMoves (o o' : Observer) : Prop :=
  o'.active = true → o.active = true ∧ o'.remote = o.remote ∧ o'.token = o.token ∧
    o'.resourceIndex = o.resourceIndex

theorem ObserverMoves.refl (o : Observer) : ObserverMoves o o := fun h => ⟨h, rfl, rfl, rfl⟩

theorem ObserverMoves.trans {o o' o'' : Observer} (h : ObserverMoves o o')
    (h' : ObserverMoves o' o'') : ObserverMoves o o'' := by
  intro ha
  obtain ⟨ha', hrem', htok', hidx'⟩ := h' ha
  obtain ⟨ha'', hrem, htok, hidx⟩ := h ha'
  exact ⟨ha'', hrem'.trans hrem, htok'.trans htok, hidx'.trans hidx⟩

theorem observerMoves_dropped (o : Observer) : ObserverMoves o { o with active := false } := nofun

/-- Every entry of this peer and token is switched off, not only the first one. -/
theorem removeObserver_observers (s : Server cfg) (remote : Endpoint) (token : Bytes)
    (i : Fin cfg.maxObservers) :
    (s.removeObserver remote token).observers i =
      if observes remote token (s.observers i) then { s.observers i with active := false }
      else s.observers i := rfl

/-- So an entry is left or switched off. Whose it was can still be read in it. -/
theorem removeObserver_moves (s : Server cfg) (remote : Endpoint) (token : Bytes)
    (i : Fin cfg.maxObservers) :
    ObserverMoves (s.observers i) ((s.removeObserver remote token).observers i) := by
  rw [removeObserver_observers]
  split
  · exact observerMoves_dropped _
  · exact .refl _

/-- An RST switches entries off, and registers nobody. -/
theorem handleReset_moves (s : Server cfg) (sender : Endpoint) (messageId : UInt16)
    (i : Fin cfg.maxObservers) :
    ObserverMoves (s.observers i) ((s.handleReset sender messageId).observers i) := by
  unfold handleReset
  split
  · rename_i j _
    dsimp only
    by_cases hij : i = j
    · subst hij
      rw [Table.set_self]
      exact observerMoves_dropped _
    · rw [Table.set_ne _ _ hij]
      exact .refl _
  · exact .refl _

/-- A notification writes the message ID into its own entry, and nobody else's. -/
theorem notifyObserver_moves (s : Server cfg) (i : Fin cfg.maxObservers) (sequence : UInt32)
    (payload : Bytes) (contentFormat : ContentFormat) (confirmable : Bool)
    (j : Fin cfg.maxObservers) :
    ObserverMoves (s.observers j)
      ((s.notifyObserver i sequence payload contentFormat confirmable).1.observers j) := by
  have hobs : (s.notifyObserver i sequence payload contentFormat confirmable).1.observers =
      s.observers.set i { s.observers i with lastSentMessageId := s.nextMessageId } := by
    unfold notifyObserver
    dsimp only
    split
    · rfl
    · split <;> rfl
  rw [hobs]
  by_cases hji : j = i
  · subst hji
    rw [Table.set_self]
    exact fun h => ⟨h, rfl, rfl, rfl⟩
  · rw [Table.set_ne _ _ hji]
    exact .refl _

/-- The loop over the observers registers nobody. -/
theorem notifyFrom_moves (index : Nat) (sequence : UInt32) (payload : Bytes)
    (contentFormat : ContentFormat) (confirmable : Bool) (is : List (Fin cfg.maxObservers))
    (j : Fin cfg.maxObservers) : ∀ s : Server cfg, ObserverMoves (s.observers j)
      ((s.notifyFrom index sequence payload contentFormat confirmable is).1.observers j) := by
  induction is with
  | nil => exact fun s => .refl _
  | cons i is ih =>
    intro s
    unfold notifyFrom
    split
    · exact (s.notifyObserver_moves i sequence payload contentFormat confirmable j).trans (ih _)
    · exact ih s

/-- `respond` writes no entry and no resource. The message ID noted for an observer under the
same token stays what it was. -/
theorem respond_frame (s : Server cfg) (handle : UInt8) (code : Code) (payload : Bytes)
    (contentFormat : ContentFormat) :
    (s.respond handle code payload contentFormat).1.observers = s.observers ∧
      (s.respond handle code payload contentFormat).1.resources = s.resources := by
  unfold respond
  split
  · dsimp only
    split
    · exact ⟨rfl, rfl⟩
    · split
      · exact ⟨rfl, rfl⟩
      · split <;> exact ⟨rfl, rfl⟩
  · exact ⟨rfl, rfl⟩

/-- A call registers no observer, and drops none. Notifications only write the message ID. -/
theorem call_observers (s : Server cfg) (call : ServerCall) (j : Fin cfg.maxObservers) :
    ObserverMoves (s.observers j) ((s.call call).1.observers j) := by
  rcases s.call_cases call with ⟨rs, heq, -⟩ |
    ⟨path, payload, contentFormat, confirmable, rfl⟩ | ⟨handle, code, payload, contentFormat, rfl⟩
  · rw [heq]
    exact .refl _
  · show ObserverMoves _ ((s.notify path payload contentFormat confirmable).1.observers j)
    unfold notify
    split
    · exact .refl _
    · split
      · exact .refl _
      · exact notifyFrom_moves _ _ _ _ _ _ j { s with resources := _ }
  · show ObserverMoves _ ((s.respond handle code payload contentFormat).1.observers j)
    rw [(s.respond_frame handle code payload contentFormat).1]
    exact .refl _

/-- Nor does the scan, which drops the observers that do not acknowledge. -/
theorem tickFrom_moves (j : Fin cfg.maxObservers) :
    ∀ (is : List (Fin cfg.maxTransactions)) (s : Server cfg),
      ObserverMoves (s.observers j) ((s.tickFrom is).1.observers j) := by
  intro is
  induction is with
  | nil => exact fun s => .refl _
  | cons i is ih =>
    intro s
    have hat : ObserverMoves (s.observers j) ((s.tickAt i).1.observers j) := by
      unfold tickAt
      dsimp only
      split
      · exact .refl _
      · exact .refl _
      · exact removeObserver_moves { s with txPool := s.txPool.set i _ } _ _ j
    exact hat.trans (ih _)

/-- The scan of a poll only drops observers. They are those of the transactions that were given
up. -/
theorem scanned_observers (s : Server cfg) (nowMs : UInt32) (j : Fin cfg.maxObservers) :
    ObserverMoves (s.observers j) ((s.scanned nowMs).observers j) :=
  tickFrom_moves j _ { s with lastNowMs := nowMs }

/-! ## The pool -/

/-- A slot keeps its transaction, or was free and has been started at `now`. So a deadline that
runs is not touched. -/
def Begins (cfg : Config) (now : UInt32) (t t' : Transaction) : Prop :=
  t' = t ∨ (¬ Awaiting t ∧ ∃ remote messageId token message,
    t' = started cfg remote messageId token message now {})

theorem Begins.trans {now : UInt32} {t t' t'' : Transaction} (h : Begins cfg now t t')
    (h' : Begins cfg now t' t'') : Begins cfg now t t'' := by
  rcases h' with rfl | ⟨hfree', hnew'⟩
  · exact h
  · rcases h with rfl | ⟨-, remote, messageId, token, message, rfl⟩
    · exact .inr ⟨hfree', hnew'⟩
    · exact absurd rfl hfree'

/-- `start` takes a free entry and leaves the others. If there is none, or the message is too
long, it leaves them all. -/
theorem begins_start (s : Server cfg) (remote : Endpoint) (messageId : UInt16)
    (token message : Bytes) (i : Fin cfg.maxTransactions) :
    Begins cfg s.lastNowMs (s.txPool i)
      ((s.startTransaction remote messageId token message).txPool i) := by
  unfold startTransaction
  dsimp only
  rcases start_cases s.txPool remote messageId token message s.lastNowMs {} with heq | ⟨j, hj, heq⟩
  · rw [heq]
    exact .inl rfl
  · rw [heq]
    by_cases hij : i = j
    · subst hij
      rw [Table.set_self]
      refine .inr ⟨?_, remote, messageId, token, message, rfl⟩
      rw [Awaiting, hj]
      rintro ⟨⟩
    · exact .inl (Table.set_ne _ _ hij)

/-- A confirmable notification starts one transaction at most. -/
theorem notifyObserver_begins (s : Server cfg) (j : Fin cfg.maxObservers) (sequence : UInt32)
    (payload : Bytes) (contentFormat : ContentFormat) (confirmable : Bool)
    (i : Fin cfg.maxTransactions) :
    Begins cfg s.lastNowMs (s.txPool i)
      ((s.notifyObserver j sequence payload contentFormat confirmable).1.txPool i) := by
  unfold notifyObserver
  dsimp only
  split
  · exact .inl rfl
  · cases confirmable with
    | true => exact begins_start { s with observers := _, nextMessageId := _ } ..
    | false => exact .inl rfl

/-- The loop over the observers starts transactions in free entries only. -/
theorem notifyFrom_begins (index : Nat) (sequence : UInt32) (payload : Bytes)
    (contentFormat : ContentFormat) (confirmable : Bool) (is : List (Fin cfg.maxObservers))
    (i : Fin cfg.maxTransactions) : ∀ s : Server cfg,
    Begins cfg s.lastNowMs (s.txPool i)
      ((s.notifyFrom index sequence payload contentFormat confirmable is).1.txPool i) := by
  induction is with
  | nil => exact fun s => .inl rfl
  | cons j is ih =>
    intro s
    unfold notifyFrom
    split
    · have hclock := (s.notifyObserver_keeps j sequence payload contentFormat confirmable).clock
      have hrest := ih (s.notifyObserver j sequence payload contentFormat confirmable).1
      rw [hclock] at hrest
      exact (s.notifyObserver_begins j sequence payload contentFormat confirmable i).trans hrest
    · exact ih s

/-- **A call** only starts transactions, at the server's clock, and frees none. -/
theorem call_begins (s : Server cfg) (call : ServerCall) (i : Fin cfg.maxTransactions) :
    Begins cfg s.lastNowMs (s.txPool i) ((s.call call).1.txPool i) := by
  rcases s.call_cases call with ⟨rs, heq, -⟩ |
    ⟨path, payload, contentFormat, confirmable, rfl⟩ | ⟨handle, code, payload, contentFormat, rfl⟩
  · rw [heq]
    exact .inl rfl
  · show Begins cfg _ _ ((s.notify path payload contentFormat confirmable).1.txPool i)
    unfold notify
    split
    · exact .inl rfl
    · split
      · exact .inl rfl
      · exact notifyFrom_begins _ _ _ _ _ _ _ { s with resources := _ }
  · show Begins cfg _ _ ((s.respond handle code payload contentFormat).1.txPool i)
    unfold respond
    split
    · dsimp only
      split
      · exact .inl rfl
      · split
        · exact .inl rfl
        · split
          · exact begins_start s.drawMessageId ..
          · exact .inl rfl
    · exact .inl rfl

/-- One entry of the scan writes its own slot of the pool. -/
theorem tickAt_pool (s : Server cfg) (i : Fin cfg.maxTransactions) :
    (s.tickAt i).1.lastNowMs = s.lastNowMs ∧
      (s.tickAt i).1.txPool =
        s.txPool.set i (tickSlot cfg s.lastNowMs (s.txPool i)).1 := by
  unfold tickAt
  dsimp only
  split <;> exact ⟨rfl, rfl⟩

/-- The scan visits every slot of the list once. -/
theorem tickFrom_pool {is : List (Fin cfg.maxTransactions)} (hnodup : is.Nodup)
    (i : Fin cfg.maxTransactions) : ∀ s : Server cfg,
    (s.tickFrom is).1.txPool i =
      if i ∈ is then (tickSlot cfg s.lastNowMs (s.txPool i)).1 else s.txPool i := by
  induction is with
  | nil =>
    intro s
    rw [if_neg List.not_mem_nil]
    rfl
  | cons j is ih =>
    intro s
    obtain ⟨hj, hnodup⟩ := List.nodup_cons.1 hnodup
    obtain ⟨hclock, hpool⟩ := s.tickAt_pool j
    show ((s.tickAt j).1.tickFrom is).1.txPool i = _
    rw [ih hnodup, hclock, hpool]
    by_cases hij : i = j
    · -- visited now, and not again
      subst hij
      rw [if_neg hj, if_pos (List.mem_cons_self ..), Table.set_self]
    · rw [Table.set_ne _ _ hij]
      simp only [List.mem_cons, hij, false_or]

/-- The scan treats every entry by itself, at the time of the poll. What the timeouts of the
others do to the observers does not come back to the pool. -/
theorem scanned_pool (s : Server cfg) (nowMs : UInt32) (i : Fin cfg.maxTransactions) :
    (s.scanned nowMs).txPool i = (tickSlot cfg nowMs (s.txPool i)).1 := by
  have h := tickFrom_pool (List.nodup_finRange cfg.maxTransactions) i { s with lastNowMs := nowMs }
  rw [if_pos (List.mem_finRange i)] at h
  exact h

/-- The scan is where the server learns the time. -/
theorem scanned_clock (s : Server cfg) (nowMs : UInt32) : (s.scanned nowMs).lastNowMs = nowMs := by
  obtain ⟨pool, obs, heq⟩ := s.scanned_spec nowMs
  rw [heq]

/-- The Observe option does not touch the pool. -/
theorem handleObserve_pool (s : Server cfg) (t : Target) (msg : Message) (sender : Endpoint) :
    (s.handleObserve t msg sender).1.lastNowMs = s.lastNowMs ∧
      (s.handleObserve t msg sender).1.txPool = s.txPool := by
  obtain ⟨obs, hobs⟩ := s.handleObserve_spec t msg sender
  rw [hobs]
  exact ⟨rfl, rfl⟩

/-- A datagram ends at most a transaction. Nothing that a request leads to starts one within the
poll. -/
theorem receive_pool (s : Server cfg) (rx : Option (Endpoint × Bytes)) :
    (s.receive rx).1.lastNowMs = s.lastNowMs ∧
      ∀ i, (s.receive rx).1.txPool i = s.txPool i ∨ ¬ Awaiting ((s.receive rx).1.txPool i) := by
  rcases s.receive_cases rx with heq | ⟨sender, data, msg, -, -, -, heq⟩ |
    ⟨sender, data, msg, -, -, -, heq⟩ | ⟨sender, data, msg, -, -, -, heq⟩
  · rw [heq]
    exact ⟨rfl, fun _ => .inl rfl⟩
  · obtain ⟨obs, hobs⟩ := s.handleReset_spec sender msg.messageId
    rw [heq, hobs]
    exact ⟨rfl, fun _ => .inl rfl⟩
  · rw [heq]
    refine ⟨rfl, fun i => ?_⟩
    dsimp only
    rcases complete_cases s.txPool sender msg.messageId with ⟨-, hpool⟩ | ⟨j, -, hpool⟩
    · exact .inl (by rw [hpool])
    · rw [hpool]
      by_cases hij : i = j
      · subst hij
        rw [Table.set_self]
        exact .inr nofun
      · exact .inl (Table.set_ne _ _ hij)
  · rw [heq]
    rcases s.keepsTables_request msg sender with ⟨-, h⟩ | ⟨t, -, h⟩
    · exact ⟨h.clock, fun i => .inl (congrFun h.txPool i)⟩
    · obtain ⟨hclock, hpool⟩ := s.handleObserve_pool t msg sender
      exact ⟨h.clock.trans hclock, fun i => .inl (congrFun (h.txPool.trans hpool) i)⟩

/-! ## Resources -/

/-- The resources of `rs` are still there and as observable as before. Their index does not
change, so an observer's stays right. -/
def Continues (rs rs' : List Resource) : Prop :=
  ∀ (i : Nat) (r : Resource), rs[i]? = some r →
    ∃ r', rs'[i]? = some r' ∧ r'.observable = r.observable

theorem Continues.refl (rs : List Resource) : Continues rs rs := fun _ r h => ⟨r, h, rfl⟩

/-- A resource as it is registered: a template by its path, and the server's own is hidden. -/
structure Entered (r : Resource) : Prop where
  marked : r.isTemplate = Resource.hasParam r.path
  hidden : r.handler = .wellKnownCore → r.observable = false

/-- What an update leaves. The attributes and the sequence number are what an update may write. -/
structure Updated (r r' : Resource) : Prop where
  path       : r'.path = r.path
  isTemplate : r'.isTemplate = r.isTemplate
  handler    : r'.handler = r.handler
  observable : r'.observable = r.observable

theorem Updated.refl (r : Resource) : Updated r r := ⟨rfl, rfl, rfl, rfl⟩

/-- `addResource` is refused, or appends one resource that is a template exactly when its path has a
parameter. -/
theorem addResource_resources (s : Server cfg) (path : Option Bytes) (methods : UInt8)
    (handler : Option Handler) (userContext : Option Ref) (observable : Bool) :
    (s.addResource path methods handler userContext observable).1.resources = s.resources ∨
      s.resources.length < cfg.maxResources ∧ ∃ r, r.isTemplate = Resource.hasParam r.path ∧
        handler = some r.handler ∧ r.observable = observable ∧
        (s.addResource path methods handler userContext observable).1.resources =
          s.resources ++ [r] := by
  unfold addResource
  split
  · split
    · exact .inl rfl
    · rename_i hroom
      exact .inr ⟨Nat.not_le.1 hroom, _, rfl, rfl, rfl, rfl⟩
  · exact .inl rfl

/-- The sequence number is counted by `notify`, once for all observers. -/
theorem notifyObserver_resources (s : Server cfg) (i : Fin cfg.maxObservers) (sequence : UInt32)
    (payload : Bytes) (contentFormat : ContentFormat) (confirmable : Bool) :
    (s.notifyObserver i sequence payload contentFormat confirmable).1.resources = s.resources := by
  unfold notifyObserver
  dsimp only
  split
  · rfl
  · split <;> rfl

/-- So the loop leaves the resources alone. -/
theorem notifyFrom_resources (index : Nat) (sequence : UInt32) (payload : Bytes)
    (contentFormat : ContentFormat) (confirmable : Bool) (is : List (Fin cfg.maxObservers)) :
    ∀ s : Server cfg,
      (s.notifyFrom index sequence payload contentFormat confirmable is).1.resources =
        s.resources := by
  induction is with
  | nil => exact fun s => rfl
  | cons i is ih =>
    intro s
    unfold notifyFrom
    split
    · exact (ih _).trans (s.notifyObserver_resources ..)
    · exact ih s

/-- **What a call does to the resources**: nothing, one more behind the others, or an update of
one that leaves its path and its handler alone. -/
theorem call_resources_cases (s : Server cfg) (call : ServerCall) :
    (s.call call).1.resources = s.resources ∨
      (s.resources.length < cfg.maxResources ∧ ∃ r, Entered r ∧
        (s.call call).1.resources = s.resources ++ [r]) ∨
      ∃ (i : Nat) (r r' : Resource), s.resources[i]? = some r ∧ Updated r r' ∧
        (s.call call).1.resources = s.resources.set i r' := by
  -- only `begin` and `addResource` append an entry, and two calls rewrite one in place
  cases call with
  | begin transportOk =>
    show (s.begin transportOk).1.resources = _ ∨
      (_ ∧ ∃ r, _ ∧ (s.begin transportOk).1.resources = _) ∨
        ∃ i r r', _ ∧ _ ∧ (s.begin transportOk).1.resources = _
    unfold begin
    split
    · exact .inl rfl
    · rcases s.addResource_resources (some Uri.wellKnownCore) methodGet (some .wellKnownCore)
        none false with h | ⟨hroom, r, hmarked, -, hobservable, h⟩
      · exact .inl h
      · exact .inr (.inl ⟨hroom, r, ⟨hmarked, fun _ => hobservable⟩, h⟩)
  | addResource path methods handler userContext observable =>
    rcases s.addResource_resources path methods (handler.map .app) userContext observable
      with h | ⟨hroom, r, hmarked, hhandler, -, h⟩
    · exact .inl h
    · -- the application's handlers are not the server's own
      refine .inr (.inl ⟨hroom, r, ⟨hmarked, fun hown => ?_⟩, h⟩)
      rw [hown] at hhandler
      cases handler <;> cases hhandler
  | setResourceType path rt =>
    unfold call setResourceType
    dsimp only
    split
    · -- an unknown path changes nothing
      exact .inl rfl
    · rename_i t ht
      exact .inr (.inr ⟨t.index, t.resource, { t.resource with resourceType := rt },
        findTarget_index ht, ⟨rfl, rfl, rfl, rfl⟩, rfl⟩)
  | notify path payload contentFormat confirmable =>
    unfold call notify
    dsimp only
    split
    · exact .inl rfl
    · rename_i t ht
      split
      · exact .inl rfl
      · -- the sequence number of the resource goes up, and the loop does not touch the table
        dsimp only
        rw [notifyFrom_resources]
        exact .inr (.inr ⟨t.index, t.resource,
          { t.resource with observeSequence := t.resource.observeSequence + 1 },
          findTarget_index ht, ⟨rfl, rfl, rfl, rfl⟩, rfl⟩)
  | respond handle code payload contentFormat =>
    exact .inl (s.respond_frame handle code payload contentFormat).2

/-- What holds of each resource as it is registered, and stays over an update, holds of all. -/
theorem forall_resources_call {s : Server cfg} {P : Resource → Prop}
    (hentered : ∀ r, Entered r → P r) (hupdated : ∀ r r', Updated r r' → P r → P r')
    (h : ∀ r ∈ s.resources, P r) (call : ServerCall) : ∀ r ∈ (s.call call).1.resources, P r := by
  rcases s.call_resources_cases call with heq | ⟨-, q, hq, heq⟩ | ⟨i, q, q', hq, hq', heq⟩ <;>
    rw [heq]
  · exact h
  · exact List.forall_mem_append.2 ⟨h, List.forall_mem_singleton.2 (hentered q hq)⟩
  · intro r hr
    rcases List.mem_or_eq_of_mem_set hr with hold | rfl
    · exact h r hold
    · exact hupdated q r hq' (h q (List.mem_of_getElem? hq))

/-- A resource stays where it is. Its attributes may have changed, and its sequence number if it
was notified. -/
theorem resource_call {s : Server cfg} {i : Nat} {r : Resource} (hr : s.resources[i]? = some r)
    (call : ServerCall) : ∃ r', (s.call call).1.resources[i]? = some r' ∧ Updated r r' := by
  obtain ⟨hlt, -⟩ := List.getElem?_eq_some_iff.1 hr
  rcases s.call_resources_cases call with h | ⟨-, q, -, h⟩ | ⟨k, q, q', hq, hq', h⟩ <;> rw [h]
  · exact ⟨r, hr, .refl r⟩
  · exact ⟨r, (List.getElem?_append_left hlt).trans hr, .refl r⟩
  · by_cases hki : k = i
    · subst hki
      obtain rfl : r = q := Option.some.inj (hr.symm.trans hq)
      exact ⟨q', List.getElem?_set_self hlt, hq'⟩
    · exact ⟨r, (List.getElem?_set_ne hki).trans hr, .refl r⟩

/-- No other table depends on what a call writes: the resources an index points to are still
there, and there are no more than the build allows. -/
theorem call_resources (s : Server cfg) (call : ServerCall)
    (hlen : s.resources.length ≤ cfg.maxResources) :
    Continues s.resources (s.call call).1.resources ∧
      (s.call call).1.resources.length ≤ cfg.maxResources := by
  constructor
  · intro i r hr
    obtain ⟨r', hr', hupdated⟩ := resource_call hr call
    exact ⟨r', hr', hupdated.observable⟩
  · rcases s.call_resources_cases call with h | ⟨hroom, q, -, h⟩ | ⟨_, _, _, -, -, h⟩ <;> rw [h]
    · exact hlen
    · rw [List.length_append, List.length_singleton]
      exact hroom
    · rw [List.length_set]
      exact hlen

end Server

end PulseCoap
