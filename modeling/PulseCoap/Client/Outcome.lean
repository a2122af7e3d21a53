import PulseCoap.Client.Correlation

/-!
# PulseCoAP — at most one outcome per request

A Confirmable request is over when `onResponse` or the timeout handler fires for
it. Two tables remember it until then: the pending slots by its token and the
pool by the message ID of its transmissions, and `poll()` empties them on
different events. A response frees the slot and leaves the transaction to the
ACK, so a response that comes before the ACK, or without one, leaves a
transaction that goes on and ends in a timeout for a request that is over.

`Ledger` ties the two tables together, request by request, and `Tally` ties them
to the outcomes so far. Both are kept by every step that meets `OrderlyStep`: no
token in use is handed out again, a response to a Confirmable request is
dispatched only once its transaction is out of the pool, and no other request
takes over the slot of a subscription that its callback cancels.

The two invariants are kept apart because they are kept for different reasons. A
step that takes entries away keeps `Ledger`, whatever it calls back, as long as
it does not take the slot of a call that still waits; and `Tally` counts, so it
is kept when the events of a step are outcomes of calls that had none. Each
segment of `poll()` has one lemma that gives both, and `Stands` says what
`poll()` knows of the slot it is about to close.

* `at_most_one_outcome` — in such a run every Confirmable request has at most
  one outcome, its own context, and no transaction once it has its response.
* `response_then_timeout` — a response without an ACK, and then a timeout.
* `Ledger`, `Tally`, `Orderly` — the invariant.
* `Orderly.step` — one lemma for each segment, put together.
-/

namespace PulseCoap

/-- A Confirmable `get`, `put`, `post` or `del`. -/
def Call.Tracked (k : Call) : Prop := k.kind = .request ∧ k.confirmable = true

instance (k : Call) : Decidable k.Tracked := inferInstanceAs (Decidable (_ ∧ _))

/-- The call an outcome is for. Datagrams, acceptances and discoveries are no outcomes. -/
def ClientEvent.outcome? : ClientEvent → Option Call
  | .response k _ _ _ => some k
  | .timeout k _ _ => some k
  | _ => none

/-- How often `onResponse` and the timeout handler fired for a call. -/
def outcomes (h : List ClientEvent) (k : Call) : Nat := h.countP fun e => e.outcome? = some k

namespace Client

open TransactionPool

variable {cfg : Config}

/-- What is promised for an accepted call: one outcome at most, under its own context, and after
a response no transaction of the call is left to time out. -/
structure AtMostOneOutcome (h : List ClientEvent) (c : Client cfg) (k : Call) : Prop where
  once    : outcomes h k ≤ 1
  context : ∀ handler ctx, .timeout k handler ctx ∈ h → ctx = k.userContext
  settled : ∀ handler res ctx, .response k handler res ctx ∈ h →
    ∀ t, Awaiting (c.transactions t) → (c.transactions t).owner ≠ k

/-! ## The condition on a step -/

/-- The token of an accepted call is not that of a tracked call and, when the
call is tracked itself, of no other call that is waiting for anything. -/
def UnusedToken (c : Client cfg) (a : RequestArgs) : Prop :=
  (∀ i, (c.slots i).pending.active = true →
      (c.slots i).pending.call.Tracked ∨ (a.call c.calls).Tracked →
      (c.slots i).pending.token ≠ [c.nextTokenByte]) ∧
    ((a.call c.calls).Tracked → ∀ t, Awaiting (c.transactions t) →
      (c.transactions t).token ≠ [c.nextTokenByte])

/-- The condition on a call of the API. What is asked of it is asked only if the request gets
out, since a call that fails registers nothing. -/
def OrderlyCall (c : Client cfg) (sendOk : Bool) : CallShape → Prop
  | .issue a => c.Issues a sendOk → c.UnusedToken a
  | .cancel server path => ∀ i, c.findObserve server path = some i →
    (c.release i).Issues (deregisterArgs server path (c.slots i).pending) sendOk →
      (c.release i).UnusedToken (deregisterArgs server path (c.slots i).pending)
  | .discover _ _ _ => True
  | .handler _ => True

/-- A response to a tracked call finds its transaction out of the pool, and a
slot is closed for the call that was dispatched. -/
def OrderlyResume (c : Client cfg) : Control cfg → Prop
  | .polling (.dispatch _ msg) _ =>
    c.findDiscover msg.token = none → ∀ i, c.findPendingByToken msg.token = some i →
      (c.slots i).pending.call.Tracked → ∀ t, Awaiting (c.transactions t) →
        (c.transactions t).token ≠ msg.token
  | .polling (.close i _ k) _ =>
    (c.slots i).pending.active = true → (c.slots i).pending.call.Tracked →
      (c.slots i).pending.call = k
  | _ => True

/-- The condition on one step: on a call, on the dispatch of a message and on the closing of a
slot. The other segments of `poll` go on without one. -/
def OrderlyStep (c : Client cfg) : Action → Prop
  | .call call sendOk => c.appHasControl = true → c.OrderlyCall sendOk call.shape
  | .poll _ _ => True
  | .resume _ => c.OrderlyResume c.control

instance (c : Client cfg) (a : RequestArgs) : Decidable (c.UnusedToken a) :=
  inferInstanceAs (Decidable (_ ∧ _))

instance (c : Client cfg) (sendOk : Bool) : ∀ shape, Decidable (c.OrderlyCall sendOk shape)
  | .issue a => inferInstanceAs (Decidable (c.Issues a sendOk → c.UnusedToken a))
  | .cancel server path => inferInstanceAs (Decidable (∀ i, c.findObserve server path = some i →
      Issues .. → UnusedToken ..))
  | .discover _ _ _ => .isTrue trivial
  | .handler _ => .isTrue trivial

instance (c : Client cfg) : ∀ control, Decidable (c.OrderlyResume control)
  | .idle => .isTrue trivial
  | .polling (.dispatch _ msg) _ =>
    inferInstanceAs (Decidable (_ → ∀ i, c.findPendingByToken msg.token = some i → _ → ∀ _, _))
  | .polling (.close _ _ _) _ => inferInstanceAs (Decidable (_ → _ → _))
  | .polling (.block1 _) _ => .isTrue trivial
  | .polling (.block2 _) _ => .isTrue trivial
  | .polling .expire _ => .isTrue trivial
  | .polling (.tick _) _ => .isTrue trivial
  | .polling .ret _ => .isTrue trivial

instance (c : Client cfg) : ∀ a, Decidable (c.OrderlyStep a)
  | .call _ _ => inferInstanceAs (Decidable (_ → c.OrderlyCall _ _))
  | .poll _ _ => .isTrue trivial
  | .resume _ => inferInstanceAs (Decidable (c.OrderlyResume c.control))

/-! ## The tables -/

/-- Slot `i` holds a tracked call. Notifications and NON requests have slots as well, and
nothing is promised for these. -/
def Live (c : Client cfg) (i : Fin cfg.maxTransactions) : Prop :=
  (c.slots i).pending.active = true ∧ (c.slots i).pending.call.Tracked

/-- What the slots and the pool say about tracked calls: a call has one slot and
its token is its own, and whatever still waits for an ACK on its behalf waits
under this token, once. -/
structure Ledger (c : Client cfg) : Prop where
  known    : ∀ i, (c.slots i).pending.active = true → (c.slots i).pending.call.id < c.calls
  knownTx  : ∀ t, Awaiting (c.transactions t) → (c.transactions t).owner.id < c.calls
  tokens   : ∀ i j, c.Live i → (c.slots j).pending.active = true →
    (c.slots j).pending.token = (c.slots i).pending.token → j = i
  calls    : ∀ i j, c.Live i → (c.slots j).pending.active = true →
    (c.slots j).pending.call = (c.slots i).pending.call → j = i
  recorded : ∀ i, c.Live i →
    (c.slots i).pending.userContext = (c.slots i).pending.call.userContext ∧
      (c.slots i).pending.observing = false
  uploads  : cfg.enableBlockwise → ∀ i, (c.slots i).pending.active = true →
    (c.slots i).upload.active = true → (c.slots i).pending.token = [(c.slots i).upload.token]
  owners   : ∀ i t, c.Live i → Awaiting (c.transactions t) →
    (c.transactions t).token = (c.slots i).pending.token →
      (c.transactions t).owner = (c.slots i).pending.call
  waiting  : ∀ t, Awaiting (c.transactions t) → (c.transactions t).owner.Tracked →
    ∃ i, c.Live i ∧ (c.slots i).pending.call = (c.transactions t).owner ∧
      (c.slots i).pending.token = (c.transactions t).token
  once     : ∀ t t', Awaiting (c.transactions t) → Awaiting (c.transactions t') →
    (c.transactions t).owner.Tracked → (c.transactions t').owner = (c.transactions t).owner →
      t' = t

/-- What the outcomes so far say about the tables. `closing` is the call whose
response is being delivered: it still has its slot. -/
structure Tally (h : List ClientEvent) (c : Client cfg) (closing : Option Call) : Prop where
  known   : ∀ e ∈ h, ∀ k, e.outcome? = some k → k.id < c.calls
  waiting : ∀ t, Awaiting (c.transactions t) → (c.transactions t).owner.Tracked →
    closing ≠ some (c.transactions t).owner
  opened  : ∀ i, c.Live i → closing ≠ some (c.slots i).pending.call →
    outcomes h (c.slots i).pending.call = 0
  once    : ∀ k : Call, k.Tracked → outcomes h k ≤ 1
  context : ∀ k handler ctx, k.Tracked → .timeout k handler ctx ∈ h → ctx = k.userContext

/-- The call whose response is being delivered. Its callback is running, and its slot is freed
only behind that. -/
def closingCall : Control cfg → Option Call
  | .polling (.close _ _ k) _ => some k
  | _ => none

/-- What `poll` knows where it stands. A block is sent for a slot that is in use and has nothing
waiting for an ACK; a slot is closed for the call that was dispatched. -/
def Stands (c : Client cfg) : Control cfg → Prop
  | .polling (.block1 i) inCallback =>
    inCallback = false ∧ cfg.enableBlockwise = true ∧ (c.slots i).pending.active = true ∧
      (c.slots i).upload.active = true ∧ (c.Live i → ∀ t, Awaiting (c.transactions t) →
        (c.transactions t).owner ≠ (c.slots i).pending.call)
  | .polling (.block2 i) inCallback =>
    inCallback = false ∧ (c.slots i).pending.active = true ∧
      (c.Live i → ∀ t, Awaiting (c.transactions t) →
        (c.transactions t).owner ≠ (c.slots i).pending.call)
  | .polling (.close i _ k) _ =>
    k.id < c.calls ∧ (k.Tracked → c.Live i ∧ (c.slots i).pending.call = k)
  | _ => True

/-- The invariant of an orderly run: the tables, the outcomes so far, and the place in `poll`. -/
structure Orderly (h : List ClientEvent) (c : Client cfg) : Prop where
  ledger : c.Ledger
  tally  : Tally h c (closingCall c.control)
  stands : c.Stands c.control

/-! ## Taking entries away -/

/-- What holds a call after such a step held it before. -/
theorem Narrows.live {c c' : Client cfg} (n : Narrows c c') {i : Fin cfg.maxTransactions}
    (hi : c'.Live i) : c.Live i := by
  obtain ⟨ha, hk⟩ := hi
  rw [n.slots i ha] at hk
  exact ⟨n.active ha, hk⟩

/-- The ledger reads the slots, the pool and the number of calls. A step that leaves the three
alone has nothing to show. -/
theorem Ledger.congr {c c' : Client cfg} (l : c.Ledger) (hs : c'.slots = c.slots)
    (ht : c'.transactions = c.transactions) (hc : c'.calls = c.calls) : c'.Ledger := by
  cases c
  cases c'
  cases hs
  cases ht
  cases hc
  exact ⟨l.known, l.knownTx, l.tokens, l.calls, l.recorded, l.uploads, l.owners, l.waiting, l.once⟩

/-- A tracked call may lose its slot once nothing waits for an ACK on its behalf. What is left
is a part of the old tables, so what was unique in them is so still. -/
theorem Ledger.narrow {c c' : Client cfg} (l : c.Ledger) (n : Narrows c c')
    (keep : ∀ i, c.Live i → (c'.slots i).pending.active = true ∨
      ∀ t, Awaiting (c'.transactions t) →
        (c'.transactions t).owner ≠ (c.slots i).pending.call) : c'.Ledger where
  known i hi := by
    rw [n.slots i hi, n.calls]
    exact l.known i (n.active hi)
  knownTx t ht := by
    obtain ⟨ht, -, -, -, ho⟩ := n.transactions t ht
    rw [ho, n.calls]
    exact l.knownTx t ht
  tokens i j hi hj heq := by
    rw [n.slots i hi.1, n.slots j hj] at heq
    exact l.tokens i j (n.live hi) (n.active hj) heq
  calls i j hi hj heq := by
    rw [n.slots i hi.1, n.slots j hj] at heq
    exact l.calls i j (n.live hi) (n.active hj) heq
  recorded i hi := by
    rw [n.slots i hi.1]
    exact l.recorded i (n.live hi)
  uploads hb i hi hu := by
    obtain ⟨hu', htok⟩ := n.uploads i hi hu
    rw [n.slots i hi, htok]
    exact l.uploads hb i (n.active hi) hu'
  owners i t hi ht heq := by
    obtain ⟨ht, -, -, htok, ho⟩ := n.transactions t ht
    rw [htok, n.slots i hi.1] at heq
    rw [ho, n.slots i hi.1]
    exact l.owners i t (n.live hi) ht heq
  -- a transaction of a live call keeps its slot, as `keep` has it
  waiting t ht hk := by
    obtain ⟨ht', -, -, htok, ho⟩ := n.transactions t ht
    rw [ho] at hk
    obtain ⟨i, hi, hcall, htoken⟩ := l.waiting t ht' hk
    -- the slot is still there, as its transaction is
    have hactive : (c'.slots i).pending.active = true := by
      rcases keep i hi with hactive | hgone
      · exact hactive
      · exact absurd (ho.trans hcall.symm) (hgone t ht)
    have hsame := n.slots i hactive
    refine ⟨i, ⟨hactive, ?_⟩, ?_, ?_⟩
    · rw [hsame]
      exact hi.2
    · rw [hsame, ho]
      exact hcall
    · rw [hsame, htok]
      exact htoken
  -- two transactions of one call were two before
  once t t' ht ht' hk heq := by
    obtain ⟨ht, -, -, -, ho⟩ := n.transactions t ht
    obtain ⟨ht', -, -, -, ho'⟩ := n.transactions t' ht'
    rw [ho] at hk
    rw [ho, ho'] at heq
    exact l.once t t' ht ht' hk heq

@[simp] theorem outcomes_append (h es : List ClientEvent) (k : Call) :
    outcomes (h ++ es) k = outcomes h k + outcomes es k := List.countP_append

/-- Events that are no outcome of a tracked call, but may be one of a call that is not tracked. -/
def Quiet (c : Client cfg) (es : List ClientEvent) : Prop :=
  ∀ e ∈ es, ∀ k, e.outcome? = some k → ¬ k.Tracked ∧ k.id < c.calls

theorem quiet_of_none {c : Client cfg} {es : List ClientEvent}
    (h : ∀ e ∈ es, e.outcome? = none) : c.Quiet es := by
  intro e he k hk
  rw [h e he] at hk
  cases hk

theorem quiet_nil {c : Client cfg} : c.Quiet [] := fun _ he => by cases he

/-- A datagram is no outcome. -/
theorem sent_quiet {c : Client cfg} (dest : Endpoint) (data : Bytes) :
    c.Quiet [.sent dest data] := quiet_of_none (by simp [ClientEvent.outcome?])

/-- A quiet step brings a tracked call nothing. -/
theorem Quiet.outcomes {c : Client cfg} {es : List ClientEvent} (q : c.Quiet es) {k : Call}
    (hk : k.Tracked) : outcomes es k = 0 := by
  refine List.countP_eq_zero.2 fun e he => ?_
  intro heq
  exact (q e he k (by simpa using heq)).1 hk

/-- A step that registers nothing and is quiet keeps the count: what was open is open still, or was
open for nobody. -/
theorem Tally.narrow {h : List ClientEvent} {c c' : Client cfg} {closing : Option Call}
    (y : Tally h c closing) (n : Narrows c c') {es : List ClientEvent} (q : c.Quiet es) :
    Tally (h ++ es) c' closing where
  known e he k hk := by
    rw [n.calls]
    rcases List.mem_append.1 he with he | he
    · exact y.known e he k hk
    · exact (q e he k hk).2
  waiting t ht hk := by
    obtain ⟨ht, -, -, -, ho⟩ := n.transactions t ht
    rw [ho] at hk ⊢
    exact y.waiting t ht hk
  opened i hi hne := by
    have hlive := n.live hi
    rw [n.slots i hi.1] at hne ⊢
    rw [outcomes_append, y.opened i hlive hne, q.outcomes hlive.2]
  once k hk := by
    rw [outcomes_append, q.outcomes hk]
    exact y.once k hk
  context k handler ctx hk he := by
    rcases List.mem_append.1 he with he | he
    · exact y.context k handler ctx hk he
    · exact absurd hk (q _ he k rfl).1

/-- The outcome of a tracked call, when nothing waits on its behalf any more. Its slot is gone
with it, or it is the call that is being closed. -/
theorem Tally.fire {h : List ClientEvent} {c c' : Client cfg} (y : Tally h c none) (l : c.Ledger)
    (n : Narrows c c') {i : Fin cfg.maxTransactions} (hi : c.Live i) {closing : Option Call}
    (hclosing : closing = none ∧ (c'.slots i).pending.active = false ∨
      closing = some (c.slots i).pending.call)
    (hgone : ∀ t, Awaiting (c'.transactions t) →
      (c'.transactions t).owner ≠ (c.slots i).pending.call)
    {es : List ClientEvent} (hone : es.length ≤ 1)
    (hes : ∀ e ∈ es, e.outcome? = some (c.slots i).pending.call)
    (hctx : ∀ k handler ctx, .timeout k handler ctx ∈ es → ctx = k.userContext) :
    Tally (h ++ es) c' closing where
  known e he k hk := by
    rw [n.calls]
    -- the event is an old one, or it belongs to the call of slot `i`
    rcases List.mem_append.1 he with he | he
    · exact y.known e he k hk
    · rw [hes e he] at hk
      cases hk
      exact l.known i hi.1
  -- what still waits is not the call that closes
  waiting t ht _ := by
    rcases hclosing with ⟨hc, -⟩ | hc
    · rw [hc]
      exact nofun
    · rw [hc]
      intro heq
      exact hgone t ht (Option.some.inj heq).symm
  opened j hj hne := by
    have hlive := n.live hj
    rw [n.slots j hj.1] at hne ⊢
    -- another slot holds another call, which has had no outcome
    have hother : (c.slots j).pending.call ≠ (c.slots i).pending.call := by
      intro heq
      have hji : j = i := l.calls i j hi hlive.1 heq
      subst hji
      rcases hclosing with ⟨-, hoff⟩ | hc
      · rw [hj.1] at hoff
        cases hoff
      · exact hne hc
    have hnone : outcomes es (c.slots j).pending.call = 0 := by
      refine List.countP_eq_zero.2 fun e he => ?_
      intro heq
      rw [hes e he] at heq
      exact hother (Option.some.inj (of_decide_eq_true heq)).symm
    rw [outcomes_append, hnone, y.opened j hlive nofun]
  -- the call of slot `i` had none before this event, and all others have none in it
  once k hk := by
    rw [outcomes_append]
    by_cases hki : k = (c.slots i).pending.call
    · have hzero : outcomes h k = 0 := by
        rw [hki]
        exact y.opened i hi nofun
      have hle : outcomes es k ≤ es.length := List.countP_le_length
      omega
    · have hnone : outcomes es k = 0 := by
        refine List.countP_eq_zero.2 fun e he => ?_
        intro heq
        rw [hes e he] at heq
        exact hki (Option.some.inj (of_decide_eq_true heq)).symm
      rw [hnone]
      exact y.once k hk
  context k handler ctx hk he := by
    rcases List.mem_append.1 he with he | he
    · exact y.context k handler ctx hk he
    · exact hctx k handler ctx he

/-- The response is delivered and the slot of its call is gone, so the exception for the call
that is being closed can be dropped. -/
theorem Tally.closed {h : List ClientEvent} {c c' : Client cfg} {k : Call}
    (y : Tally h c (some k)) (n : Narrows c c')
    (hk : ∀ i, c'.Live i → (c.slots i).pending.call ≠ k) : Tally h c' none where
  known e he k hk := by
    rw [n.calls]
    exact y.known e he k hk
  waiting _ _ _ := nofun
  opened i hi _ := by
    have hlive := n.live hi
    have hne := hk i hi
    rw [n.slots i hi.1]
    exact y.opened i hlive fun heq => hne (Option.some.inj heq).symm
  once := y.once
  context := y.context

/-! ## Adding entries -/

/-- The slot of a request has the context it was called with, and is no subscription's. -/
theorem NewSlot.recorded {c : Client cfg} {a : RequestArgs} {s : ClientSlot} (hs : NewSlot c a s)
    (hk : s.pending.call.Tracked) :
    s.pending.userContext = s.pending.call.userContext ∧ s.pending.observing = false := by
  rw [hs.call] at hk
  refine ⟨?_, ?_⟩
  · rw [hs.userContext, hs.call]
    rfl
  · rw [hs.observing]
    by_contra hobs
    have hkind : a.kind = .observe := if_pos (by simpa using hobs)
    have := hkind.symm.trans hk.1
    cases this

/-- Registering a call under an unused token. The slot was free, so no other call loses its own,
and the number of calls makes this one new. -/
theorem Ledger.register {c : Client cfg} (l : c.Ledger) {i : Fin cfg.maxTransactions}
    (hfree : (c.slots i).pending.active = false) {a : RequestArgs} {s : ClientSlot}
    (hs : NewSlot c a s) (hu : c.UnusedToken a) :
    Ledger { c with slots := c.slots.set i s, calls := c.calls + 1 } where
  known j hj := by
    by_cases hji : j = i
    · subst hji
      simp only [Table.set_self, hs.call]
      exact Nat.lt_succ_self _
    · simp only [Table.set_ne _ _ hji] at hj ⊢
      exact Nat.lt_succ_of_lt (l.known j hj)
  knownTx t ht := Nat.lt_succ_of_lt (l.knownTx t ht)
  -- one of the two slots may be the new one, whose token nobody else has
  tokens j k hj hk heq := by
    unfold Live at hj
    by_cases hji : j = i <;> by_cases hki : k = i
    · rw [hji, hki]
    · subst hji
      simp only [Table.set_self, Table.set_ne _ _ hki] at hj hk heq
      rw [hs.token] at heq
      rw [hs.call] at hj
      exact absurd heq (hu.1 k hk (.inr hj.2))
    · subst hki
      simp only [Table.set_self, Table.set_ne _ _ hji] at hj hk heq
      rw [hs.token] at heq
      exact absurd heq.symm (hu.1 j hj.1 (.inl hj.2))
    · simp only [Table.set_ne _ _ hji, Table.set_ne _ _ hki] at hj hk heq
      exact l.tokens j k hj hk heq
  -- and the number of its call is above all others
  calls j k hj hk heq := by
    unfold Live at hj
    by_cases hji : j = i <;> by_cases hki : k = i
    · rw [hji, hki]
    · subst hji
      simp only [Table.set_self, Table.set_ne _ _ hki] at hk heq
      have hlt := l.known k hk
      rw [heq, hs.call] at hlt
      exact absurd hlt (Nat.lt_irrefl _)
    · subst hki
      simp only [Table.set_self, Table.set_ne _ _ hji] at hj heq
      have hlt := l.known j hj.1
      rw [← heq, hs.call] at hlt
      exact absurd hlt (Nat.lt_irrefl _)
    · simp only [Table.set_ne _ _ hji, Table.set_ne _ _ hki] at hj hk heq
      exact l.calls j k hj hk heq
  recorded j hj := by
    unfold Live at hj
    by_cases hji : j = i
    · subst hji
      simp only [Table.set_self] at hj ⊢
      exact hs.recorded hj.2
    · simp only [Table.set_ne _ _ hji] at hj ⊢
      exact l.recorded j hj
  uploads hb j hj hup := by
    by_cases hji : j = i
    · subst hji
      simp only [Table.set_self] at hup ⊢
      rw [hs.token, hs.upload hb hup]
    · simp only [Table.set_ne _ _ hji] at hj hup ⊢
      exact l.uploads hb j hj hup
  -- what waits in the pool is not under the new token either
  owners j t hj ht heq := by
    unfold Live at hj
    by_cases hji : j = i
    · subst hji
      simp only [Table.set_self] at hj heq
      rw [hs.call] at hj
      rw [hs.token] at heq
      exact absurd heq (hu.2 hj.2 t ht)
    · simp only [Table.set_ne _ _ hji] at hj heq ⊢
      exact l.owners j t hj ht heq
  -- a slot with a waiting transaction is not the free one
  waiting t ht hk := by
    obtain ⟨j, hj, hcall, htok⟩ := l.waiting t ht hk
    have hji : j ≠ i := by
      rintro rfl
      rw [hj.1] at hfree
      cases hfree
    refine ⟨j, ?_, ?_, ?_⟩
    · unfold Live
      simp only [Table.set_ne _ _ hji]
      exact hj
    · simp only [Table.set_ne _ _ hji]
      exact hcall
    · simp only [Table.set_ne _ _ hji]
      exact htok
  once := l.once

/-- After `start`, what waits is what waited before or the new transaction. If the pool is full
there is no new one. -/
theorem start_awaiting (pool : TransactionPool cfg) (remote : Endpoint) (messageId : UInt16)
    (token message : Bytes) (nowMs : UInt32) (owner : Call) :
    ∃ new : Option (Fin cfg.maxTransactions), ∀ t,
      Awaiting ((pool.start remote messageId token message nowMs owner).1 t) →
        some t ≠ new ∧ (pool.start remote messageId token message nowMs owner).1 t = pool t ∨
          some t = new ∧
            ((pool.start remote messageId token message nowMs owner).1 t).token = token ∧
            ((pool.start remote messageId token message nowMs owner).1 t).owner = owner := by
  rcases start_cases pool remote messageId token message nowMs owner with heq | ⟨i, -, heq⟩
  · rw [heq]
    exact ⟨none, fun t _ => .inl ⟨nofun, rfl⟩⟩
  · rw [heq]
    refine ⟨some i, fun t _ => ?_⟩
    by_cases hti : t = i
    · subst hti
      rw [Table.set_self]
      exact .inr ⟨rfl, rfl, rfl⟩
    · rw [Table.set_ne _ _ hti]
      exact .inl ⟨fun heq => hti (Option.some.inj heq), rfl⟩

/-- Starting a transaction for a call that has a slot, under its token. A tracked call may have
only one, so there must be none by then. -/
theorem Ledger.start {c : Client cfg} (l : c.Ledger) {i : Fin cfg.maxTransactions}
    (hi : (c.slots i).pending.active = true)
    (hgone : c.Live i → ∀ t, Awaiting (c.transactions t) →
      (c.transactions t).owner ≠ (c.slots i).pending.call)
    (remote : Endpoint) (messageId : UInt16) (message : Bytes) :
    Ledger { c with
      transactions := (c.transactions.start remote messageId (c.slots i).pending.token message
        c.lastNowMs (c.slots i).pending.call).1 } := by
  obtain ⟨new, hnew⟩ := start_awaiting c.transactions remote messageId (c.slots i).pending.token
    message c.lastNowMs (c.slots i).pending.call
  refine ⟨l.known, fun t ht => ?_, l.tokens, l.calls, l.recorded, l.uploads,
    fun j t hj ht heq => ?_, fun t ht hk => ?_, fun t t' ht ht' hk heq => ?_⟩
  -- the new transaction has the slot's own call and token, whichever entry it takes
  · rcases hnew t ht with ⟨-, hold⟩ | ⟨-, -, ho⟩
    · simp only [hold] at ht ⊢
      exact l.knownTx t ht
    · simp only [ho]
      exact l.known i hi
  · rcases hnew t ht with ⟨-, hold⟩ | ⟨-, htok, ho⟩
    · simp only [hold] at ht heq ⊢
      exact l.owners j t hj ht heq
    · -- the token is that of slot `i`, and a live slot shares it with no other
      simp only [htok] at heq
      have hij : i = j := l.tokens j i hj hi heq
      simp only [ho]
      rw [hij]
  · rcases hnew t ht with ⟨-, hold⟩ | ⟨-, htok, ho⟩
    · simp only [hold] at ht hk ⊢
      exact l.waiting t ht hk
    · simp only [ho] at hk ⊢
      exact ⟨i, ⟨hi, hk⟩, rfl, htok.symm⟩
  · -- an old and a new transaction are of different calls, as `hgone` says
    rcases hnew t ht with ⟨-, hold⟩ | ⟨hn, -, ho⟩ <;>
      rcases hnew t' ht' with ⟨-, hold'⟩ | ⟨hn', -, ho'⟩
    · simp only [hold, hold'] at ht ht' hk heq
      exact l.once t t' ht ht' hk heq
    · simp only [hold, ho'] at ht hk heq
      rw [← heq] at hk
      exact absurd heq.symm (hgone ⟨hi, hk⟩ t ht)
    · simp only [ho, hold'] at ht' hk heq
      exact absurd heq (hgone ⟨hi, hk⟩ t' ht')
    · exact Option.some.inj (hn'.trans hn.symm)

/-- Outcomes are for calls that were accepted before. A number that was not given out yet has
none. -/
theorem Tally.fresh {h : List ClientEvent} {c : Client cfg} {closing : Option Call}
    (y : Tally h c closing) {k : Call} (hk : c.calls ≤ k.id) : outcomes h k = 0 := by
  refine List.countP_eq_zero.2 fun e he => ?_
  intro heq
  have hlt := y.known e he k (of_decide_eq_true heq)
  omega

/-- The tables may gain a transaction while no response is being delivered. A datagram is no
outcome, so nothing else changes. -/
theorem Tally.send {h : List ClientEvent} {c c' : Client cfg} (y : Tally h c none)
    (hlive : ∀ i, c'.Live i → c.Live i ∧ (c'.slots i).pending.call = (c.slots i).pending.call)
    (hcalls : c'.calls = c.calls) : Tally h c' none where
  known e he k hk := by
    rw [hcalls]
    exact y.known e he k hk
  waiting _ _ _ := nofun
  opened i hi _ := by
    obtain ⟨hi, heq⟩ := hlive i hi
    rw [heq]
    exact y.opened i hi nofun
  once := y.once
  context := y.context

/-- An accepted call has had no outcome, because its number is new. -/
theorem Tally.issued {h : List ClientEvent} {c : Client cfg} {closing : Option Call}
    (y : Tally h c closing) (hclosing : ∀ k, closing = some k → k.id < c.calls)
    (i : Fin cfg.maxTransactions) {s : ClientSlot} {a : RequestArgs} (hs : NewSlot c a s)
    (buf : Bytes) : Tally h (c.issued i s a buf) closing where
  known e he k hk := Nat.lt_succ_of_lt (y.known e he k hk)
  waiting t ht hk := by
    by_cases hrel : a.reliable cfg = true
    · obtain ⟨new, hnew⟩ := start_awaiting c.transactions a.server c.nextMessageId
        [c.nextTokenByte] buf c.lastNowMs (a.call c.calls)
      simp only [Client.issued, hrel, if_true] at ht hk ⊢
      rcases hnew t ht with ⟨-, hold⟩ | ⟨-, -, ho⟩
      · rw [hold] at ht hk ⊢
        exact y.waiting t ht hk
      · rw [ho]
        intro heq
        exact absurd (hclosing _ heq) (Nat.lt_irrefl _)
    · simp only [Client.issued, hrel] at ht hk ⊢
      exact y.waiting t ht hk
  opened j hj hne := by
    unfold Live Client.issued at hj
    simp only [Client.issued] at hne ⊢
    -- the slot of the new call is a live one, and a call that is new has no outcome yet
    by_cases hji : j = i
    · subst hji
      rw [Table.set_self, hs.call]
      exact y.fresh (Nat.le_refl _)
    · simp only [Table.set_ne _ _ hji] at hj hne ⊢
      exact y.opened j hj hne
  once := y.once
  context := y.context

/-! ## Calls -/

/-- A request under a token that is in use nowhere keeps the books in order. -/
theorem Ledger.issued {c : Client cfg} (l : c.Ledger) {i : Fin cfg.maxTransactions}
    (hf : c.freeSlot = some i) {a : RequestArgs} {s : ClientSlot} (hs : NewSlot c a s)
    (hu : c.UnusedToken a) (buf : Bytes) : (c.issued i s a buf).Ledger := by
  have hreg := l.register (freeSlot_spec hf) hs hu
  unfold Client.issued
  by_cases hrel : a.reliable cfg = true
  · -- nothing waits on behalf of a call that is only now accepted
    have hfresh : ∀ t, Awaiting (c.transactions t) →
        (c.transactions t).owner ≠ a.call c.calls := by
      intro t ht heq
      have hlt := l.knownTx t ht
      rw [heq] at hlt
      exact Nat.lt_irrefl _ hlt
    have hstart := hreg.start (i := i) (by simpa using hs.active)
      (fun _ t ht => by simpa [hs.call] using hfresh t ht) a.server c.nextMessageId buf
    simp only [Table.set_self, hs.token, hs.call] at hstart
    rw [if_pos hrel]
    exact hstart.congr rfl rfl rfl
  · rw [if_neg hrel]
    exact hreg.congr rfl rfl rfl

/-- What `poll` knows survives what the application does in a callback: it may make calls, which
fill free slots, and the slot that is being closed is not free. -/
theorem stands_of_app {c c' : Client cfg} (happ : c.appHasControl = true)
    (st : c.Stands c.control) (hcontrol : c'.control = c.control) (hcalls : c.calls ≤ c'.calls)
    (hlive : ∀ i, c.Live i → (c'.slots i).pending = (c.slots i).pending) :
    c'.Stands c'.control := by
  rw [hcontrol]
  unfold appHasControl at happ
  cases hc : c.control with
  | idle => trivial
  | polling k inCallback =>
    rw [hc] at happ st
    cases k with
    | block1 i => exact absurd (happ.symm.trans st.1) nofun
    | block2 i => exact absurd (happ.symm.trans st.1) nofun
    | close i fragmented k =>
      refine ⟨Nat.lt_of_lt_of_le st.1 hcalls, fun hk => ?_⟩
      obtain ⟨hi, heq⟩ := st.2 hk
      have hsame := hlive i hi
      refine ⟨?_, by rw [hsame]; exact heq⟩
      unfold Live
      rw [hsame]
      exact hi
    | _ => trivial

/-- The call whose response is being delivered is a known one. -/
theorem closing_known {c : Client cfg} (st : c.Stands c.control) {k : Call}
    (hk : closingCall c.control = some k) : k.id < c.calls := by
  unfold closingCall at hk
  split at hk
  · rename_i heq
    rw [heq] at st
    cases hk
    exact st.1
  · cases hk

/-- A request that is accepted or refused. If it is accepted its token is unused, and if it is
refused the tables are what they were. -/
theorem Orderly.issue {h : List ClientEvent} {c : Client cfg} (o : Orderly h c)
    (happ : c.appHasControl = true) {a : RequestArgs} {sendOk : Bool}
    (hk : a.blockwise cfg = true → a.markObserving = false)
    (hu : c.Issues a sendOk → c.UnusedToken a) :
    Orderly (h ++ (c.issue a sendOk).2.2) (c.issue a sendOk).1 := by
  rcases issue_cases c a sendOk hk with ⟨-, c', hr, heq⟩ | ⟨hok, i, s, buf, hf, -, hs, heq⟩
  · rw [heq]
    -- a refused call touches inactive slots only
    have hsame : ∀ j, c.Live j → c'.slots j = c.slots j := by
      intro j hj
      rcases hr.slots j with heq | ⟨hoff, -⟩
      · exact heq
      · rw [hj.1] at hoff
        cases hoff
    have htally := o.tally.narrow hr.narrows (quiet_nil : c.Quiet [])
    refine ⟨o.ledger.narrow hr.narrows fun j hj => .inl ?_, ?_,
      stands_of_app happ o.stands hr.control (Nat.le_of_eq hr.calls.symm) fun j hj => ?_⟩
    · rw [hsame j hj]
      exact hj.1
    · rw [hr.control]
      exact htally
    · rw [hsame j hj]
  · rw [heq]
    -- an accepted one adds its number to those that have had no outcome
    have htally : Tally h (c.issued i s a buf) (closingCall c.control) :=
      o.tally.issued (fun k hk => closing_known o.stands hk) i hs buf
    refine ⟨o.ledger.issued hf hs (hu hok) buf, ?_,
      stands_of_app happ o.stands rfl (Nat.le_succ _) fun j hj => ?_⟩
    · have hquiet : (c.issued i s a buf).Quiet
          [.sent a.server buf, .accepted (a.call c.calls)] :=
        quiet_of_none (by simp [ClientEvent.outcome?])
      exact htally.narrow (Narrows.refl _) hquiet
    · have hji : j ≠ i := by
        rintro rfl
        have hoff := freeSlot_spec hf
        rw [hj.1] at hoff
        cases hoff
      show ((c.slots.set i s) j).pending = _
      rw [Table.set_ne _ _ hji]

/-- A call of the API keeps the invariant. `cancelObserve` first gives a slot back, which is
that of a subscription and so of no tracked call. -/
theorem Orderly.call {h : List ClientEvent} {c : Client cfg} (o : Orderly h c)
    (happ : c.appHasControl = true) {call : ClientCall} {sendOk : Bool}
    (hu : c.OrderlyCall sendOk call.shape) :
    Orderly (h ++ (c.call sendOk call).2.2) (c.call sendOk call).1 := by
  -- a call that registers nothing and keeps the control
  have hkeep : ∀ {c' : Client cfg} {es : List ClientEvent}, Narrows c c' →
      (∀ i, c.Live i → (c'.slots i).pending = (c.slots i).pending) → c'.control = c.control →
      (∀ e ∈ es, e.outcome? = none) → Orderly (h ++ es) c' := by
    intro c' es n hlive hcontrol hes
    refine ⟨o.ledger.narrow n fun i hi => .inl ?_, ?_,
      stands_of_app happ o.stands hcontrol (Nat.le_of_eq n.calls.symm) hlive⟩
    · rw [hlive i hi]
      exact hi.1
    · rw [hcontrol]
      exact o.tally.narrow n (quiet_of_none hes)
  rw [call_eq]
  cases hs : call.shape with
  | issue a =>
    rw [hs] at hu
    exact o.issue happ (shape_blockwise hs) hu
  | cancel server path =>
    rw [hs] at hu
    simp only
    cases ho : c.findObserve server path with
    | none =>
      rw [List.append_nil]
      exact o
    | some i =>
      -- a subscription is not a tracked call
      obtain ⟨-, hobs, -, -⟩ := findObserve_spec ho
      have hne : ∀ j, c.Live j → j ≠ i := by
        rintro j hj rfl
        rw [(o.ledger.recorded j hj).2] at hobs
        cases hobs
      have hrel : Orderly (h ++ []) (c.release i) := hkeep (narrows_release c i) (fun j hj => by
        show ((c.slots.set i _) j).pending = _
        rw [Table.set_ne _ _ (hne j hj)]) rfl nofun
      rw [List.append_nil] at hrel
      exact hrel.issue happ (by simp [deregister_blockwise]) (hu i ho)
  | discover ep onDiscover userContext =>
    simp only
    rcases discover_cases c ep onDiscover userContext sendOk with
      ⟨token, id, heq, -⟩ | ⟨i, buf, -, -, heq⟩
    · rw [heq]
      exact hkeep (narrows_of_eq rfl rfl rfl rfl) (fun _ _ => rfl) rfl nofun
    · rw [heq]
      have htally := o.tally.narrow (Narrows.refl c) (sent_quiet ep buf)
      exact ⟨o.ledger.congr rfl rfl rfl, ⟨htally.known, htally.waiting, htally.opened, htally.once,
        htally.context⟩, stands_of_app happ o.stands rfl (Nat.le_refl _) fun _ _ => rfl⟩
  | handler onTimeout =>
    exact hkeep (narrows_of_eq rfl rfl rfl rfl) (fun _ _ => rfl) rfl nofun

/-! ## The segments of `poll` -/

/-- Places of `poll` where nothing is left to be done for a request. -/
def Between (cfg : Config) (k : Cont cfg) : Prop :=
  ∀ (c : Client cfg) (b : Bool), closingCall (.polling k b) = none ∧ c.Stands (.polling k b)

theorem between_expire : Between cfg .expire := fun _ _ => ⟨rfl, trivial⟩
theorem between_tick (n : Nat) : Between cfg (.tick n) := fun _ _ => ⟨rfl, trivial⟩
theorem between_ret : Between cfg .ret := fun _ _ => ⟨rfl, trivial⟩
theorem between_dispatch (sender : Endpoint) (msg : Message) :
    Between cfg (.dispatch sender msg) := fun _ _ => ⟨rfl, trivial⟩

/-- A segment with no outcome of a tracked call that takes no slot of one. -/
theorem orderly_quiet {h : List ClientEvent} {c c' : Client cfg} (l : c.Ledger)
    (y : Tally h c none) (n : Narrows c c')
    (keep : ∀ i, c.Live i → (c'.slots i).pending.active = true) {es : List ClientEvent}
    (q : c.Quiet es) {k : Cont cfg} (hk : Between cfg k) (b : Bool) :
    Orderly (h ++ es) (c'.at' k b) where
  ledger := l.narrow (n.trans (narrows_at ..)) fun i hi => .inl (keep i hi)
  tally := by
    show Tally _ _ (closingCall (.polling k b))
    rw [(hk c b).1]
    exact y.narrow (n.trans (narrows_at ..)) q
  stands := (hk _ b).2

/-- The outcome of a tracked call whose slot is given back. -/
theorem orderly_fire {h : List ClientEvent} {c c' : Client cfg} (l : c.Ledger)
    (y : Tally h c none) (n : Narrows c c') {i : Fin cfg.maxTransactions} (hi : c.Live i)
    (hoff : (c'.slots i).pending.active = false)
    (keep : ∀ j, j ≠ i → c.Live j → (c'.slots j).pending.active = true)
    (hgone : ∀ t, Awaiting (c'.transactions t) →
      (c'.transactions t).owner ≠ (c.slots i).pending.call)
    (call : Call) (hcall : call = (c.slots i).pending.call) (ctx : Option Ref)
    (hctx : ctx = (c.slots i).pending.userContext) {k : Cont cfg} (hk : Between cfg k) :
    Orderly (h ++ (c'.fireTimeout call ctx k).2) (c'.fireTimeout call ctx k).1 := by
  have hn := n.trans (narrows_fireTimeout c' call ctx k)
  rw [fireTimeout_eq] at hn ⊢
  refine ⟨l.narrow hn fun j hj => ?_, ?_, (hk _ _).2⟩
  · -- every slot but `i` is still active, and the call of `i` has no transaction left
    by_cases hji : j = i
    · subst hji
      exact .inr hgone
    · exact .inl (keep j hji hj)
  · show Tally _ _ (closingCall (.polling k _))
    rw [(hk c c'.onTimeout.isSome).1]
    -- there is one event if a handler is set, and none otherwise
    refine y.fire l hn hi (.inl ⟨rfl, hoff⟩) hgone ?_ ?_ ?_
    · cases c'.onTimeout <;> simp
    · cases c'.onTimeout <;> simp [ClientEvent.outcome?, hcall]
    · cases c'.onTimeout with
      | none => simp
      | some f =>
        simp only [Option.map_some, Option.toList_some, List.mem_singleton]
        rintro k' handler ctx' heq
        cases heq
        rw [hctx, hcall]
        exact (l.recorded i hi).1

/-- A timeout that is reported for a call which is not tracked. -/
theorem fireTimeout_quiet {c : Client cfg} (c' : Client cfg) {call : Call} (hk : ¬ call.Tracked)
    (hid : call.id < c.calls) (ctx : Option Ref) (k : Cont cfg) :
    c.Quiet (c'.fireTimeout call ctx k).2 := by
  rw [fireTimeout_eq]
  intro e he k' hk'
  cases ht : c'.onTimeout with
  | none =>
    rw [ht] at he
    cases he
  | some f =>
    rw [ht] at he
    simp only [Option.map_some, Option.toList_some, List.mem_singleton] at he
    subst he
    cases hk'
    exact ⟨hk, hid⟩

/-- Nothing waits on behalf of a live slot when nothing waits under its token. -/
theorem Ledger.noOwner {c : Client cfg} (l : c.Ledger) {i : Fin cfg.maxTransactions}
    (hi : c.Live i) (htok : ∀ t, Awaiting (c.transactions t) →
      (c.transactions t).token ≠ (c.slots i).pending.token) :
    ∀ t, Awaiting (c.transactions t) → (c.transactions t).owner ≠ (c.slots i).pending.call := by
  intro t ht heq
  obtain ⟨j, hj, hcall, htoken⟩ := l.waiting t ht (by rw [heq]; exact hi.2)
  have hji : j = i := l.calls i j hi hj.1 (hcall.trans heq)
  subst hji
  exact htok t ht htoken.symm

/-- A transaction under the token of a slot that is not live is of no tracked call. -/
theorem Ledger.untracked {c : Client cfg} (l : c.Ledger) {t : Fin cfg.maxTransactions}
    (ht : Awaiting (c.transactions t))
    (hnone : ∀ i, c.Live i → (c.slots i).pending.token ≠ (c.transactions t).token) :
    ¬ (c.transactions t).owner.Tracked := by
  intro hk
  obtain ⟨i, hi, -, htok⟩ := l.waiting t ht hk
  exact hnone i hi htok

/-- **A transaction ends.** Its call, if tracked, has its outcome now: the slot under the token
is the slot of the owner. No response of the call can follow, since its slot is free. -/
theorem orderly_ended {h : List ClientEvent} {c c' : Client cfg} (l : c.Ledger)
    (y : Tally h c none) (n : Narrows c c') (hslots : c'.slots = c.slots)
    {t : Fin cfg.maxTransactions} (ht : Awaiting (c.transactions t))
    (hfree : ¬ Awaiting (c'.transactions t)) {i : Fin cfg.maxTransactions}
    (hi : (c.slots i).pending.active = true)
    (htok : (c.slots i).pending.token = (c.transactions t).token) {k : Cont cfg}
    (hk : Between cfg k) :
    Orderly
      (h ++ ((c'.release i).fireTimeout (c.transactions t).owner
        (c.slots i).pending.userContext k).2)
      ((c'.release i).fireTimeout (c.transactions t).owner (c.slots i).pending.userContext k).1 := by
  have hn := n.trans (narrows_release c' i)
  have hother : ∀ j, j ≠ i → ((c'.release i).slots j) = c.slots j := by
    intro j hji
    show (c'.slots.set i _) j = _
    rw [Table.set_ne _ _ hji, hslots]
  by_cases hlive : c.Live i
  · have howner := l.owners i t hlive ht htok.symm
    refine orderly_fire l y hn hlive ?_ (fun j hji hj => ?_) (fun t' ht' heq => ?_) _ howner _ rfl hk
    · show ((c'.slots.set i _) i).pending.active = false
      rw [Table.set_self]
    · rw [hother j hji]
      exact hj.1
    · -- the ended transaction was the only one of its call
      obtain ⟨ht'', -, -, -, ho⟩ := n.transactions t' ht'
      have hone := l.once t t' ht ht'' (by rw [howner]; exact hlive.2)
        ((ho.symm.trans heq).trans howner.symm)
      subst hone
      exact hfree ht'
  · -- nobody tracks the call of this transaction, so its timeout counts for no request
    have hunt : ¬ (c.transactions t).owner.Tracked := by
      refine l.untracked ht fun j hj heq => ?_
      have hij : i = j := l.tokens j i hj hi (htok.trans heq.symm)
      exact hlive (hij ▸ hj)
    have hq := fireTimeout_quiet (c := c) (c'.release i) hunt (l.knownTx t ht)
      (c.slots i).pending.userContext k
    rw [fireTimeout_eq] at hq ⊢
    refine orderly_quiet l y hn (fun j hj => ?_) hq hk _
    rw [hother j fun heq => hlive (heq ▸ hj)]
    exact hj.1

/-- A transaction ends whose token no slot has. -/
theorem orderly_orphan {h : List ClientEvent} {c c' : Client cfg} (l : c.Ledger)
    (y : Tally h c none) (n : Narrows c c') (hslots : c'.slots = c.slots)
    {t : Fin cfg.maxTransactions} (ht : Awaiting (c.transactions t))
    (hnone : c.findPendingByToken (c.transactions t).token = none) (ctx : Option Ref)
    {k : Cont cfg} (hk : Between cfg k) :
    Orderly (h ++ (c'.fireTimeout (c.transactions t).owner ctx k).2)
      (c'.fireTimeout (c.transactions t).owner ctx k).1 := by
  have hunt : ¬ (c.transactions t).owner.Tracked :=
    l.untracked ht fun i hi => findPendingByToken_none hnone i hi.1
  have hq := fireTimeout_quiet (c := c) c' hunt (l.knownTx t ht) ctx k
  rw [fireTimeout_eq] at hq ⊢
  refine orderly_quiet l y n (fun j hj => ?_) hq hk _
  rw [hslots]
  exact hj.1

/-- An RST ends the request whose message ID it has, and reports that once. -/
theorem Orderly.handleReset {h : List ClientEvent} {c : Client cfg} (l : c.Ledger)
    (y : Tally h c none) (sender : Endpoint) (messageId : UInt16) :
    Orderly (h ++ (c.handleReset sender messageId).2) (c.handleReset sender messageId).1 := by
  have hdone := narrows_completed c sender messageId
  rcases handleReset_cases c sender messageId with heq | ⟨t, i, hfind, hpend, heq⟩
  · rw [heq]
    exact orderly_quiet l y hdone (fun _ hi => hi.1) quiet_nil between_ret false
  · rw [heq]
    obtain ⟨ht, -, -⟩ := matchesId_iff.1 (Table.find?_spec hfind)
    obtain ⟨hi, htok⟩ := findPendingByToken_spec hpend
    have hfree : ¬ Awaiting ((c.completed sender messageId).transactions t) := by
      rcases complete_cases c.transactions sender messageId with ⟨hnone, -⟩ | ⟨t', hfind', hc⟩
      · rw [hnone] at hfind
        cases hfind
      · rw [hfind] at hfind'
        cases hfind'
        show ¬ Awaiting ((c.transactions.complete sender messageId).1 t)
        rw [hc, Table.set_self]
        exact nofun
    exact orderly_ended l y hdone rfl ht hfree hi htok between_ret

/-- A poll up to its first cut. -/
theorem Orderly.poll {h : List ClientEvent} {c : Client cfg} (o : Orderly h c)
    (hidle : c.control = .idle) (nowMs : UInt32) (rx : Option (Endpoint × Bytes)) :
    Orderly (h ++ (c.poll nowMs rx).2) (c.poll nowMs rx).1 := by
  have y : Tally h c none := by
    have hy := o.tally
    rw [hidle] at hy
    exact hy
  -- the new time touches neither slots nor pool
  have l : (c.atTime nowMs).Ledger := o.ledger.congr rfl rfl rfl
  have y' : Tally h (c.atTime nowMs) none := y.send (fun _ hi => ⟨hi, rfl⟩) rfl
  rcases poll_cases c nowMs rx with heq | ⟨sender, data, msg, -, -, heq⟩
  · rw [heq]
    exact orderly_quiet l y' (Narrows.refl _) (fun _ hi => hi.1) quiet_nil
      between_expire false
  rw [heq]
  rcases handleMessage_cases (c.atTime nowMs) sender msg with ⟨-, hm⟩ | ⟨c', hc', hm⟩
  · rw [hm]
    exact Orderly.handleReset l y' sender msg.messageId
  -- the ACK completes a transaction before the message is looked at
  have hn : Narrows (c.atTime nowMs) c' ∧ c'.slots = c.slots := by
    rcases hc' with rfl | rfl
    · exact ⟨Narrows.refl _, rfl⟩
    · exact ⟨narrows_completed .., rfl⟩
  have hkeep : ∀ i, (c.atTime nowMs).Live i → (c'.slots i).pending.active = true := by
    intro i hi
    rw [hn.2]
    exact hi.1
  rcases hm with hm | hm
  · rw [hm]
    exact orderly_quiet l y' hn.1 hkeep quiet_nil (between_dispatch sender msg) false
  · rw [hm]
    exact orderly_quiet l y' hn.1 hkeep quiet_nil between_expire false

/-- One entry of the scan. The transaction that times out is gone before its slot is reported. -/
theorem Orderly.tickAt {h : List ClientEvent} {c : Client cfg} (l : c.Ledger)
    (y : Tally h c none) (i : Fin cfg.maxTransactions) (sendOk : Bool) :
    Orderly (h ++ (c.tickAt i sendOk).2) (c.tickAt i sendOk).1 := by
  rcases tickAt_cases c i sendOk with ⟨-, heq⟩ | ⟨ha, -, -, heq⟩ | ⟨ha, -, -, heq⟩
  · rw [heq]
    exact orderly_quiet l y (Narrows.refl c) (fun _ hj => hj.1) quiet_nil
      (between_tick _) false
  · rw [heq]
    refine orderly_quiet l y (narrows_resent ha) (fun _ hj => hj.1) (quiet_of_none ?_)
      (between_tick _) false
    cases sendOk <;> simp [ClientEvent.outcome?]
  rw [heq]
  have hfree : ¬ Awaiting ((c.freed i).transactions i) := by
    show ¬ Awaiting ((c.transactions.set i _) i)
    rw [Table.set_self]
    exact nofun
  rcases timeoutTrampoline_cases (c.freed i) (c.transactions i).token
    (c.transactions i).owner (.tick (i + 1)) with ⟨j, hpend, ht⟩ | ⟨hnone, ht⟩
  · rw [ht]
    have hpend : c.findPendingByToken (c.transactions i).token = some j := hpend
    obtain ⟨hj, htok⟩ := findPendingByToken_spec hpend
    exact orderly_ended l y (narrows_freed c i) rfl ha hfree hj htok (between_tick _)
  · rw [ht]
    exact orderly_orphan l y (narrows_freed c i) rfl ha hnone none (between_tick _)

/-- Being delivered is no news for a call that is not tracked. -/
theorem Tally.deliver {h : List ClientEvent} {c : Client cfg} (y : Tally h c none) {k : Call}
    (hk : ¬ k.Tracked) : Tally h c (some k) where
  known := y.known
  waiting t _ ht heq := by
    cases heq
    exact hk ht
  opened i hi _ := y.opened i hi nofun
  once := y.once
  context := y.context

/-- The delivery of a response, from a state whose block states may have moved. -/
theorem orderly_fireResponse {h : List ClientEvent} {c c' : Client cfg} (l : c.Ledger)
    (y : Tally h c none) (n : Narrows c c') {i : Fin cfg.maxTransactions}
    (hi : (c.slots i).pending.active = true)
    (hpend : ∀ j, (c'.slots j).pending = (c.slots j).pending)
    (hgone : c.Live i → ∀ t, Awaiting (c.transactions t) →
      (c.transactions t).owner ≠ (c.slots i).pending.call)
    (res : ClientResponse) (fragmented : Bool) :
    Orderly (h ++ (c'.fireResponse i res fragmented).2) (c'.fireResponse i res fragmented).1 := by
  rw [fireResponse_eq, hpend i]
  have hn := n.trans (narrows_at c' (.close i fragmented (c.slots i).pending.call)
    (c.slots i).pending.onResponse.isSome)
  refine ⟨l.narrow hn fun j hj => .inl ?_, ?_, ?_, fun hk => ⟨?_, ?_⟩⟩
  · show (c'.slots j).pending.active = true
    rw [hpend j]
    exact hj.1
  · show Tally _ _ (some (c.slots i).pending.call)
    -- a tracked call has its outcome here; that of another call is not counted
    by_cases hlive : c.Live i
    · refine y.fire l hn hlive (.inr rfl) (fun t ht => ?_) ?_ ?_ ?_
      · obtain ⟨ht, -, -, -, ho⟩ := n.transactions t ht
        intro heq
        exact hgone hlive t ht (ho.symm.trans heq)
      · cases (c.slots i).pending.onResponse <;> simp
      · cases (c.slots i).pending.onResponse <;> simp [ClientEvent.outcome?]
      · cases (c.slots i).pending.onResponse <;> simp
    · have hunt : ¬ (c.slots i).pending.call.Tracked := fun hk => hlive ⟨hi, hk⟩
      refine (y.narrow hn ?_).deliver hunt
      intro e he k hk
      cases ho : (c.slots i).pending.onResponse with
      | none =>
        rw [ho] at he
        cases he
      | some f =>
        rw [ho] at he
        simp only [Option.map_some, Option.toList_some, List.mem_singleton] at he
        subst he
        cases hk
        exact ⟨hunt, l.known i hi⟩
  · show (c.slots i).pending.call.id < c'.calls
    rw [n.calls]
    exact l.known i hi
  · show (c'.slots i).pending.active = true ∧ (c'.slots i).pending.call.Tracked
    rw [hpend i]
    exact ⟨hi, hk⟩
  · show (c'.slots i).pending.call = _
    rw [hpend i]

/-- The dispatch of a response, the one place where a handler is called with one. -/
theorem Orderly.dispatchResponse {h : List ClientEvent} {c : Client cfg} (l : c.Ledger)
    (y : Tally h c none) {sender : Endpoint} {msg : Message} {b : Bool}
    (hu : c.OrderlyResume (.polling (.dispatch sender msg) b)) :
    Orderly (h ++ (c.dispatchResponse sender msg).2) (c.dispatchResponse sender msg).1 := by
  rcases dispatchResponse_cases c sender msg with
    ⟨i, -, heq⟩ | ⟨i, hdisc, hpend, heq⟩ | ⟨-, -, heq⟩
  · rw [heq]
    refine orderly_quiet l y (Narrows.refl c) (fun _ hj => hj.1) (quiet_of_none ?_)
      between_expire _
    cases (c.discovers i).onDiscover <;> simp [ClientEvent.outcome?]
  · rw [heq]
    obtain ⟨hi, htok⟩ := findPendingByToken_spec hpend
    -- no transaction of the call waits any more: it was acknowledged, or completed by token
    have hgone : c.Live i → ∀ t, Awaiting (c.transactions t) →
        (c.transactions t).owner ≠ (c.slots i).pending.call := by
      intro hlive
      refine l.noOwner hlive fun t ht => ?_
      rw [htok]
      exact hu hdisc i hpend hlive.2 t ht
    obtain ⟨up, recv, hup, huptok, hp⟩ := dispatchPending_cases c i sender msg
    have hn := narrows_setBlocks c i hup huptok recv
    have hself : (c.setBlocks i up recv).slots i = { c.slots i with upload := up, recv } :=
      Table.set_self ..
    have hpending : ∀ j, ((c.setBlocks i up recv).slots j).pending = (c.slots j).pending := by
      intro j
      by_cases hji : j = i
      · subst hji
        rw [hself]
      · show ((c.slots.set i _) j).pending = _
        rw [Table.set_ne _ _ hji]
    have hledger : (c.setBlocks i up recv).Ledger := l.narrow hn fun j hj => .inl (by
      rw [hpending j]
      exact hj.1)
    have htally : Tally h (c.setBlocks i up recv) none :=
      y.send (fun j hj => ⟨hn.live hj, by rw [hpending j]⟩) rfl
    -- the next block of an upload, the next of a download, or the handler
    rcases hp with ⟨hb, hupa, hp⟩ | ⟨hb, hp⟩ | ⟨res, fragmented, hp⟩
    · rw [hp, List.append_nil]
      refine ⟨hledger.congr rfl rfl rfl, htally.send (fun _ hj => ⟨hj, rfl⟩) rfl,
        rfl, hb, ?_, ?_, fun hlive t ht => ?_⟩
      · show ((c.setBlocks i up recv).slots i).pending.active = true
        rw [hpending i]
        exact hi
      · show ((c.setBlocks i up recv).slots i).upload.active = true
        rw [hself]
        exact hupa
      · show (c.transactions t).owner ≠ ((c.setBlocks i up recv).slots i).pending.call
        rw [hpending i]
        exact hgone (hn.live hlive) t ht
    · rw [hp, List.append_nil]
      refine ⟨hledger.congr rfl rfl rfl, htally.send (fun _ hj => ⟨hj, rfl⟩) rfl,
        rfl, ?_, fun hlive t ht => ?_⟩
      · show ((c.setBlocks i up recv).slots i).pending.active = true
        rw [hpending i]
        exact hi
      · show (c.transactions t).owner ≠ ((c.setBlocks i up recv).slots i).pending.call
        rw [hpending i]
        exact hgone (hn.live hlive) t ht
    · rw [hp]
      exact orderly_fireResponse l y hn hi hpending hgone res fragmented
  · rw [heq]
    exact orderly_quiet l y (Narrows.refl c) (fun _ hj => hj.1) quiet_nil between_expire _

/-- A Continue moves an upload on, or gives its slot up without an outcome. -/
theorem Orderly.continueUpload {h : List ClientEvent} {c : Client cfg} (l : c.Ledger)
    (y : Tally h c none) {i : Fin cfg.maxTransactions} {b : Bool}
    (st : c.Stands (.polling (.block1 i) b)) (sendOk : Bool) :
    Orderly (h ++ (c.continueUpload i sendOk).2) (c.continueUpload i sendOk).1 := by
  obtain ⟨-, hb, hi, hup, hgone⟩ := st
  rcases continueUpload_cases c i sendOk with ⟨-, id, heq⟩ | ⟨buf, -, heq⟩
  · rw [heq]
    -- the block is not sent: the upload is given up with its timeout
    have hn := (narrows_withId c id).trans (narrows_abandon _ i)
    have hother : ∀ j, j ≠ i → ((c.withId id).abandon i).slots j = c.slots j := by
      intro j hji
      show (c.slots.set i _) j = _
      rw [Table.set_ne _ _ hji]
    by_cases hlive : c.Live i
    · refine orderly_fire l y hn hlive ?_ (fun j hji hj => ?_) (hgone hlive) _ rfl _ rfl
        between_expire
      · show ((c.slots.set i _) i).pending.active = false
        rw [Table.set_self]
        rfl
      · rw [hother j hji]
        exact hj.1
    · have hunt : ¬ (c.slots i).pending.call.Tracked := fun hk => hlive ⟨hi, hk⟩
      have hq := fireTimeout_quiet (c := c) ((c.withId id).abandon i) hunt (l.known i hi)
        (c.slots i).pending.userContext .expire
      rw [fireTimeout_eq] at hq ⊢
      refine orderly_quiet l y hn (fun j hj => ?_) hq between_expire _
      rw [hother j fun heq => hlive (heq ▸ hj)]
      exact hj.1
  · rw [heq]
    -- the block is sent, and its transaction is owned by the call of the slot
    have hstart := l.start hi hgone (c.slots i).upload.server c.nextMessageId buf
    rw [l.uploads hb i hi hup] at hstart
    have hslot := hstart.narrow (narrows_setSlot _ i (s := { c.slots i with
      upload := { (c.slots i).upload with waitingForContinue := true } }) (fun _ => rfl)
      fun _ hu => ⟨hu, rfl⟩) fun j hj => .inl ?_
    · refine ⟨hslot.congr rfl rfl rfl, ?_, trivial⟩
      show Tally _ _ none
      have hsent := y.narrow (Narrows.refl c) (sent_quiet (c.slots i).upload.server buf)
      refine hsent.send (fun j hj => ?_) rfl
      unfold Live at hj ⊢
      by_cases hji : j = i
      · subst hji
        simp only [at', block1Sent, Table.set_self] at hj ⊢
        exact ⟨hj, trivial⟩
      · simp only [at', block1Sent, Table.set_ne _ _ hji] at hj ⊢
        exact ⟨hj, trivial⟩
    · by_cases hji : j = i
      · subst hji
        simp only [Table.set_self]
        exact hj.1
      · simp only [Table.set_ne _ _ hji]
        exact hj.1

/-- The request for a further block goes out, or the slot is given up. -/
theorem Orderly.resumeBlock2 {h : List ClientEvent} {c : Client cfg} (l : c.Ledger)
    (y : Tally h c none) {i : Fin cfg.maxTransactions} {b : Bool}
    (st : c.Stands (.polling (.block2 i) b)) (sendOk : Bool) :
    Orderly (h ++ (c.resume (.block2 i) sendOk).2) (c.resume (.block2 i) sendOk).1 := by
  obtain ⟨-, hi, hgone⟩ := st
  rcases resumeBlock2_cases c i sendOk with ⟨-, heq⟩ | ⟨buf, -, heq⟩
  · rw [heq]
    exact orderly_quiet l y (narrows_withId c (c.nextMessageId + 1)) (fun _ hj => hj.1) quiet_nil
      between_expire false
  · rw [heq]
    have hstart := l.start hi hgone (c.slots i).recv.server c.nextMessageId buf
    have hsent := y.narrow (Narrows.refl c) (sent_quiet (c.slots i).recv.server buf)
    exact ⟨hstart.congr rfl rfl rfl, hsent.send (fun _ hj => ⟨hj, rfl⟩) rfl, trivial⟩

/-- The slot is closed for the call that was dispatched. -/
theorem Orderly.close {h : List ClientEvent} {c : Client cfg} (l : c.Ledger)
    {i : Fin cfg.maxTransactions} {fragmented : Bool} {k : Call} {b : Bool}
    (y : Tally h c (some k)) (st : c.Stands (.polling (.close i fragmented k) b))
    (hu : c.OrderlyResume (.polling (.close i fragmented k) b)) :
    Orderly (h ++ []) ((c.close i fragmented).at' .expire false) := by
  rw [List.append_nil]
  have hn := narrows_close c i fragmented
  have hslots : (c.close i fragmented).slots = c.slots.set i (closedSlot (c.slots i) fragmented) := by
    rw [close_eq]
  -- a live slot here is that of `k`, and it is given back
  have hoff : c.Live i → ((c.close i fragmented).slots i).pending.active = false := by
    intro hlive
    rw [hslots, Table.set_self]
    simp [closedSlot, (l.recorded i hlive).2]
  have hgone : c.Live i → ∀ t, Awaiting (c.transactions t) →
      (c.transactions t).owner ≠ (c.slots i).pending.call := by
    intro hlive t ht heq
    have hk : (c.transactions t).owner.Tracked := by
      rw [heq]
      exact hlive.2
    refine y.waiting t ht hk ?_
    rw [heq, hu hlive.1 hlive.2]
  refine ⟨(l.narrow hn fun j hj => ?_).congr rfl rfl rfl, ?_, trivial⟩
  · by_cases hji : j = i
    · subst hji
      refine .inr fun t ht => ?_
      rw [close_eq] at ht ⊢
      exact hgone hj t ht
    · refine .inl ?_
      rw [hslots, Table.set_ne _ _ hji]
      exact hj.1
  · show Tally _ _ none
    refine y.closed (hn.trans (narrows_at ..)) fun j hj heq => ?_
    have hlive : c.Live j := (hn.trans (narrows_at ..)).live hj
    obtain ⟨hi, hcall⟩ := st.2 (by rw [← heq]; exact hlive.2)
    have hji : j = i := l.calls i j hi hlive.1 (heq.trans hcall.symm)
    subst hji
    have ha := hj.1
    rw [show ((c.close j fragmented).at' .expire false).slots = (c.close j fragmented).slots
      from rfl, hoff hlive] at ha
    cases ha

/-- The ACK of a separate response is no outcome. -/
theorem ackEvents_quiet (c : Client cfg) (sender : Endpoint) (msg : Message) (ackOk : Bool) :
    c.Quiet (ackEvents cfg sender msg ackOk) := by
  refine quiet_of_none fun e he => ?_
  unfold ackEvents at he
  split at he
  · split at he
    · rw [List.mem_singleton.1 he]
      rfl
    · cases he
  · cases he

/-- A segment of `poll` after its cut. -/
theorem Orderly.resume {h : List ClientEvent} {c : Client cfg} (o : Orderly h c) {k : Cont cfg}
    {b : Bool} (hk : c.control = .polling k b) (sendOk : Bool)
    (hu : c.OrderlyResume (.polling k b)) :
    Orderly (h ++ (c.resume k sendOk).2) (c.resume k sendOk).1 := by
  obtain ⟨l, y, st⟩ := o
  rw [hk] at y st
  -- the cuts of `poll`, one after the other; what each must meet is `OrderlyStep`
  cases k with
  | dispatch sender msg =>
    have hack := y.narrow (Narrows.refl c) (ackEvents_quiet c sender msg sendOk)
    show Orderly (h ++ (_ ++ _)) (c.dispatchResponse sender msg).1
    rw [← List.append_assoc]
    exact Orderly.dispatchResponse l hack hu
  | block1 i => exact Orderly.continueUpload l y st sendOk
  | block2 i => exact Orderly.resumeBlock2 l y st sendOk
  | close i fragmented k => exact Orderly.close l y st hu
  -- past the last slot of the pool `poll` returns
  | expire =>
    exact orderly_quiet l y (narrows_expireDiscovers c) (fun _ hj => hj.1) quiet_nil
      (between_tick 0) false
  | tick index =>
    rw [resume_tick]
    split
    · exact Orderly.tickAt l y _ sendOk
    · rw [List.append_nil]
      exact ⟨l.congr rfl rfl rfl, y.send (fun _ hj => ⟨hj, rfl⟩) rfl, trivial⟩
  | ret =>
    show Orderly (h ++ []) { c with control := .idle }
    rw [List.append_nil]
    exact ⟨l.congr rfl rfl rfl, y.send (fun _ hj => ⟨hj, rfl⟩) rfl, trivial⟩

/-- **What one step preserves.** A call adds a request without outcome; in a poll each segment
ends one request at most, and is followed by the handler of that one. -/
theorem Orderly.step {h : List ClientEvent} {c : Client cfg} (o : Orderly h c) {a : Action}
    (hu : c.OrderlyStep a) : Orderly (h ++ (c.step a).2) (c.step a).1 := by
  rcases step_cases c a with heq | ⟨call, sendOk, rfl, happ, heq⟩ | ⟨nowMs, rx, rfl, hidle, heq⟩ |
    ⟨sendOk, k, b, rfl, hk, heq⟩
  · rw [heq, List.append_nil]
    exact o
  · rw [heq]
    exact o.call happ (hu happ)
  · rw [heq]
    exact o.poll hidle nowMs rx
  · rw [heq]
    have hr : c.OrderlyResume c.control := hu
    rw [hk] at hr
    exact o.resume hk sendOk hr

theorem orderly_init (cfg : Config) : Orderly [] (machine cfg).init where
  ledger := by
    -- no slot and no transaction is active at first
    refine ⟨?_, ?_, ?_, ?_, ?_, ?_, ?_, ?_, ?_⟩
    · intro i hi
      cases hi
    · intro t ht
      cases ht
    · rintro i j ⟨hi, -⟩
      cases hi
    · rintro i j ⟨hi, -⟩
      cases hi
    · rintro i ⟨hi, -⟩
      cases hi
    · intro _ i hi
      cases hi
    · rintro i t ⟨hi, -⟩
      cases hi
    · intro t ht
      cases ht
    · intro t t' ht
      cases ht
  tally := by
    refine ⟨nofun, fun _ _ _ => nofun, ?_, fun _ _ => Nat.zero_le _, fun _ _ _ _ => nofun⟩
    rintro i ⟨hi, -⟩
    cases hi
  stands := trivial

/-! ## Runs -/

/-- The outcomes of a tracked call in an orderly state. -/
theorem Orderly.atMostOne {h : List ClientEvent} {c : Client cfg} (o : Orderly h c) {k : Call}
    (hk : k.Tracked) : AtMostOneOutcome h c k where
  once := o.tally.once k hk
  context handler ctx he := o.tally.context k handler ctx hk he
  settled handler res ctx he t ht heq := by
    -- a transaction left would mean a slot without an outcome
    have htracked : (c.transactions t).owner.Tracked := by
      rw [heq]
      exact hk
    obtain ⟨i, hi, hcall, -⟩ := o.ledger.waiting t ht htracked
    have hopen := o.tally.opened i hi (by rw [hcall]; exact o.tally.waiting t ht htracked)
    rw [hcall, heq] at hopen
    have hzero := List.countP_eq_zero.1 hopen _ he
    simp [ClientEvent.outcome?] at hzero

/-- **At most one outcome.** In an orderly run a Confirmable request has one outcome at most,
its timeout has its own context, and after its response none of its transactions is left. -/
theorem at_most_one_outcome {h : List ClientEvent} {c : Client cfg}
    (r : (machine cfg).Run OrderlyStep h c) (k : Call) (_ : .accepted k ∈ h) (hk : k.Tracked) :
    AtMostOneOutcome h c k := by
  have o : Orderly h c := r.invariant (I := Orderly) (orderly_init cfg) fun _ o hu => o.step hu
  exact o.atMostOne hk

/-- A `get` with a handler and a context, under a timeout handler. -/
def getWithHandlers : List Action :=
  [.call (.setTimeoutHandler (some 9)) true,
    .call (.get localServer pathA (some 7) (some 8) true) true]

/-- `poll` with no datagram, to its end. -/
def pollNothing (nowMs : UInt32) : List Action := .poll nowMs none :: List.replicate 6 (.resume true)

/-- The `get` is answered by its ACK, and polled until a timeout would be due. -/
def answered : List Action :=
  getWithHandlers ++
    [.poll 10 (some (localServer, [0x61, 0x45, 0x00, 0x01, 0x01, 0xFF, 0x2A]))] ++
    List.replicate 8 (.resume true) ++ pollNothing 4000

/-- The call of `getWithHandlers`. -/
def getCall : Call := { id := 0, kind := .request, confirmable := true, userContext := some 8 }

theorem at_most_one_outcome_answered :
    AtMostOneOutcome ((machine .default).exec [] (machine .default).init answered).1
      ((machine .default).exec [] (machine .default).init answered).2 getCall :=
  at_most_one_outcome (Machine.Run.start.exec (by decide)) getCall (by decide) (by decide)

/-- The response comes as a Non-confirmable message, and no ACK at all. -/
def answeredWithoutAck : List Action :=
  getWithHandlers ++
    [.poll 10 (some (localServer, [0x51, 0x45, 0x00, 0x63, 0x01, 0xFF, 0x2A]))] ++
    List.replicate 8 (.resume true) ++
    pollNothing 4000 ++ pollNothing 10000 ++ pollNothing 22000 ++ pollNothing 46000 ++
    pollNothing 94000

/-- **A response, and then a timeout.** The response frees the slot and leaves
the transaction, which is retransmitted and reported as timed out. -/
theorem response_then_timeout :
    ¬ ∀ h c, (machine .default).Run (fun _ _ => True) h c → ∀ k, .accepted k ∈ h → k.Tracked →
      AtMostOneOutcome h c k := by
  intro hall
  have r := Machine.Run.start.exec (Machine.meets_of_forall (M := machine .default)
    (P := fun _ _ => True) (fun _ _ => trivial) (machine .default).init answeredWithoutAck)
  have hone := (hall _ _ r getCall (by decide) (by decide)).once
  exact absurd hone (by decide)

end Client

end PulseCoap
