import PulseCoap.Client.Spec

/-!
# PulseCoAP — several clients over one pool

`Client` holds a reference to its pool, and the documentation of
`TransactionPool` has several clients share one. The pool does not record which
client started a transaction: `poll` of any client scans all of them, with the
trampolines and the `this` of that client.

`Shared` is such a group. The clients take turns; one that waits is idle or in a
callback, from which the application may run another. `starter` is not in the
source: it tells who started the transaction of a slot.

What a pass of the scan does outside the pool is compared with who started the
transaction: the transport that takes the datagram, the slots that become free,
and the call that the timeout handler is told. A pass of a client over a
transaction of another goes unnoticed if its transport refuses the datagram, or
if there is neither a handler nor a slot with that token; the equivalence has to
admit these.

* `tickAt_keptApart` — when a pass of the scan keeps the clients apart.
* `kept_apart_iff` — the runs that keep them apart.
* `own_pool_keeps_apart` — a client with a pool of its own.
* `not_kept_apart` — a client that resends and gives up what another started.
-/

namespace PulseCoap

/-- Clients constructed over one pool, each with its own transport. -/
structure Shared (cfg : Config) (n : Nat) where
  pool    : TransactionPool cfg := TransactionPool.reset
  clients : Table n (Client cfg) := fun _ => {}
  starter : Table cfg.maxTransactions (Option (Fin n)) := fun _ => none

/-- What one pass of a scan does outside the pool: what its client's transport takes and its
timeout handler gets, and the pending slots that are free afterwards. -/
structure ScanEffect (cfg : Config) (n : Nat) where
  scanner : Fin n
  starter : Option (Fin n)
  events  : List ClientEvent
  freed   : List (Fin n × Fin cfg.maxTransactions)
deriving DecidableEq, Repr

namespace Shared

open TransactionPool (Awaiting notDue)

variable {cfg : Config} {n : Nat}

-- ===========================================================================
-- Steps
-- ===========================================================================

/-- A client, whose `transactions_` is the shared pool. -/
def client (s : Shared cfg n) (k : Fin n) : Client cfg := { s.clients k with transactions := s.pool }

/-- The group after a step has left client `k` in this state. -/
def put (s : Shared cfg n) (k : Fin n) (c : Client cfg) : Shared cfg n where
  pool := c.transactions
  clients := s.clients.set k c
  -- no step both ends a transaction and starts another in its slot
  starter i := if Awaiting (c.transactions i) ∧ ¬ Awaiting (s.pool i) then some k else s.starter i

/-- The other clients are idle or in a callback. -/
def OthersWait (s : Shared cfg n) (k : Fin n) : Prop :=
  ∀ j, j ≠ k → (s.clients j).appHasControl = true

instance (s : Shared cfg n) (k : Fin n) : Decidable (s.OthersWait k) :=
  inferInstanceAs (Decidable (∀ _, _))

/-- The slot of the pool the scan of client `k` has come to. -/
def scanning (s : Shared cfg n) (k : Fin n) : Option (Fin cfg.maxTransactions) :=
  match (s.clients k).control with
  | .polling (.tick index) _ => if h : index < cfg.maxTransactions then some ⟨index, h⟩ else none
  | _ => none

/-- The pending slots of any client that are active in `s` and free in `s'`. -/
def freedSlots (s s' : Shared cfg n) : List (Fin n × Fin cfg.maxTransactions) :=
  (List.finRange n ×ˢ List.finRange cfg.maxTransactions).filter fun p =>
    ((s.clients p.1).slots p.2).pending.active && !((s'.clients p.1).slots p.2).pending.active

/-- The effect of a pass over slot `i` that leaves client `k` like this. -/
def effectOf (s : Shared cfg n) (k : Fin n) (i : Fin cfg.maxTransactions)
    (r : Client cfg × List ClientEvent) : ScanEffect cfg n where
  scanner := k
  starter := s.starter i
  events := r.2
  freed := s.freedSlots (s.put k r.1)

/-- The effect of the code of `poll` going on, if that is a pass of the scan. -/
def effects (s : Shared cfg n) (k : Fin n) (sendOk : Bool) : List (ScanEffect cfg n) :=
  match s.scanning k with
  | none => []
  | some i => [s.effectOf k i ((s.client k).step (.resume sendOk))]

/-- One client takes a step, if it is its turn. -/
def next (s : Shared cfg n) (a : Fin n × Client.Action) : Shared cfg n × List (ScanEffect cfg n) :=
  if s.OthersWait a.1 then
    (s.put a.1 ((s.client a.1).step a.2).1,
      match a.2 with
      | .resume sendOk => s.effects a.1 sendOk
      | _ => [])
  else (s, [])

def machine (cfg : Config) (n : Nat) :
    Machine (Shared cfg n) (Fin n × Client.Action) (ScanEffect cfg n) where
  init := {}
  next := next

-- ===========================================================================
-- Keeping the clients apart
-- ===========================================================================

/-- A transaction is resent through the transport of the client that started it, and its timeout
frees a slot of that client and is reported to its handler. -/
structure KeptApart (e : ScanEffect cfg n) : Prop where
  resent   : ∀ dest data, .sent dest data ∈ e.events → e.starter = some e.scanner
  reported : ∀ call h ctx, .timeout call h ctx ∈ e.events → e.starter = some e.scanner
  freed    : ∀ p ∈ e.freed, e.starter = some p.1

/-- Client `k` scans a transaction that is due, and none of it shows: the transport refuses the
datagram, or there is neither a handler nor a slot to end. -/
def Unseen (s : Shared cfg n) (k : Fin n) (i : Fin cfg.maxTransactions) (sendOk : Bool) : Prop :=
  if (s.pool i).retriesSent < cfg.maxRetransmit then sendOk = false
  else (s.clients k).onTimeout = none ∧
    (s.clients k).findPendingByToken (s.pool i).token = none

/-- A transaction that is due when a scan comes to it is the scanning client's own, or the pass
is unseen. -/
def ScansOwn (s : Shared cfg n) : Fin n × Client.Action → Prop
  | (k, .resume sendOk) =>
    s.OthersWait k → ∀ i, s.scanning k = some i →
      Awaiting (s.pool i) → notDue (s.clients k).lastNowMs (s.pool i) = false →
        s.starter i = some k ∨ s.Unseen k i sendOk
  | _ => True

theorem mem_freedSlots {s s' : Shared cfg n} {p : Fin n × Fin cfg.maxTransactions} :
    p ∈ s.freedSlots s' ↔ ((s.clients p.1).slots p.2).pending.active = true ∧
      ((s'.clients p.1).slots p.2).pending.active = false := by
  obtain ⟨j, i⟩ := p
  simp [freedSlots, List.mem_product]

/-- A step frees slots of its own client only. -/
theorem mem_freedSlots_put {s : Shared cfg n} {k : Fin n} {c : Client cfg}
    {p : Fin n × Fin cfg.maxTransactions} :
    p ∈ s.freedSlots (s.put k c) ↔ p.1 = k ∧ ((s.clients k).slots p.2).pending.active = true ∧
      (c.slots p.2).pending.active = false := by
  rw [mem_freedSlots]
  by_cases hk : p.1 = k
  · simp only [hk, put, Table.set_self, true_and]
  · simp only [hk, put, Table.set_ne _ _ hk, false_and, iff_false]
    rintro ⟨hbefore, hafter⟩
    exact absurd (hbefore.symm.trans hafter) (by decide)

/-- A pass over what the scanning client has started keeps the clients apart. -/
theorem keptApart_own {s : Shared cfg n} {k : Fin n} {i : Fin cfg.maxTransactions}
    (r : Client cfg × List ClientEvent) (hown : s.starter i = some k) :
    KeptApart (s.effectOf k i r) where
  resent _ _ _ := hown
  reported _ _ _ _ := hown
  freed p hp := by rw [(mem_freedSlots_put.1 hp).1]; exact hown

/-- So does a pass of which nothing is seen. -/
theorem keptApart_silent {s : Shared cfg n} {k : Fin n} {i : Fin cfg.maxTransactions}
    {r : Client cfg × List ClientEvent} (hslots : r.1.slots = (s.clients k).slots)
    (hevents : r.2 = []) : KeptApart (s.effectOf k i r) where
  resent _ _ h := by rw [effectOf, hevents] at h; nomatch h
  reported _ _ _ h := by rw [effectOf, hevents] at h; nomatch h
  freed p hp := by
    obtain ⟨-, hbefore, hafter⟩ := mem_freedSlots_put.1 hp
    rw [hslots, hbefore] at hafter
    cases hafter

/-- A pass of the scan, as a step of the client. -/
theorem scan_step {s : Shared cfg n} {k : Fin n} {i : Fin cfg.maxTransactions}
    (hi : s.scanning k = some i) (sendOk : Bool) :
    (s.client k).step (.resume sendOk) = (s.client k).tickAt i sendOk := by
  unfold scanning at hi
  split at hi
  next index b hc =>
    split at hi
    next hlt =>
      obtain rfl := Option.some.inj hi
      rw [Client.step_resume (c := s.client k) hc, Client.resume_tick, dif_pos hlt]
    next => cases hi
  next => cases hi

/-- The timeout of a transaction with this token keeps the clients apart. -/
theorem timeout_keptApart {s : Shared cfg n} {k : Fin n} {i : Fin cfg.maxTransactions}
    {c : Client cfg} (hslots : c.slots = (s.clients k).slots)
    (htimeout : c.onTimeout = (s.clients k).onTimeout) (token : Bytes) (owner : Call)
    (cont : Cont cfg) :
    KeptApart (s.effectOf k i (c.timeoutTrampoline token owner cont)) ↔
      s.starter i = some k ∨
        (s.clients k).onTimeout = none ∧ (s.clients k).findPendingByToken token = none := by
  have hfind : c.findPendingByToken token = (s.clients k).findPendingByToken token := by
    unfold Client.findPendingByToken
    rw [hslots]
  refine ⟨fun h => ?_, ?_⟩
  · rcases Client.timeoutTrampoline_cases c token owner cont with ⟨j, hj, heq⟩ | ⟨hnone, heq⟩
    · -- a slot with the token is ended
      rw [heq, Client.fireTimeout_eq] at h
      refine .inl (h.freed (k, j) (mem_freedSlots_put.2 ⟨rfl, ?_, ?_⟩))
      · rw [← hslots]
        exact (Client.findPendingByToken_spec hj).1
      · show ((c.release j).slots j).pending.active = false
        simp only [Client.release, Client.setPending, Table.set_self]
    · -- no slot has the token, so only the handler of the timeout can notice
      rw [heq, Client.fireTimeout_eq] at h
      cases ht : c.onTimeout with
      | none => exact .inr ⟨htimeout ▸ ht, hfind ▸ hnone⟩
      | some handler =>
        refine .inl (h.reported owner handler none ?_)
        simp only [effectOf, ht, Option.map_some, Option.toList_some, List.mem_singleton]
  · rintro (hown | ⟨hnone, hfree⟩)
    · exact keptApart_own _ hown
    · -- a client without a handler and without such a slot is told nothing
      rcases Client.timeoutTrampoline_cases c token owner cont with ⟨j, hj, -⟩ | ⟨-, heq⟩
      · rw [hfind, hfree] at hj
        cases hj
      · rw [heq, Client.fireTimeout_eq, htimeout, hnone]
        exact keptApart_silent hslots rfl

/-- **A pass of the scan keeps the clients apart** exactly when the transaction it acts on was
started by the scanning client, or nothing of it is seen. Nothing is seen when the transport
refuses the resend, or when what is given up has neither a handler nor a slot to end. -/
theorem tickAt_keptApart (s : Shared cfg n) (k : Fin n) (i : Fin cfg.maxTransactions)
    (sendOk : Bool) :
    KeptApart (s.effectOf k i ((s.client k).tickAt i sendOk)) ↔
      (Awaiting (s.pool i) → notDue (s.clients k).lastNowMs (s.pool i) = false →
        s.starter i = some k ∨ s.Unseen k i sendOk) := by
  rcases Client.tickAt_cases (s.client k) i sendOk with
    ⟨hnot, heq⟩ | ⟨ha, hd, hr, heq⟩ | ⟨ha, hd, hr, heq⟩
  · -- passed over
    rw [heq]
    refine iff_of_true (keptApart_silent rfl rfl) fun ha hd => ?_
    exact absurd ((hnot ha).symm.trans hd) (by decide)
  · -- resent
    have hunseen : s.Unseen k i sendOk ↔ sendOk = false := iff_of_eq (if_pos hr)
    rw [heq, hunseen]
    cases sendOk with
    | false => exact iff_of_true (keptApart_silent rfl rfl) fun _ _ => .inr rfl
    | true =>
      refine ⟨fun h _ _ => .inl (h.resent _ _ (List.mem_singleton.2 rfl)), fun h => ?_⟩
      exact keptApart_own _ ((h ha hd).resolve_right (by decide))
  · -- given up
    have hunseen : s.Unseen k i sendOk ↔ (s.clients k).onTimeout = none ∧
        (s.clients k).findPendingByToken (s.pool i).token = none := iff_of_eq (if_neg hr)
    have htimeout := timeout_keptApart (s := s) (k := k) (i := i) (c := (s.client k).freed i) rfl
      rfl
      (s.pool i).token (s.pool i).owner (.tick (i + 1))
    rw [heq, hunseen]
    exact ⟨fun h _ _ => htimeout.1 h, fun h => htimeout.2 (h ha hd)⟩

/-- One step of the group. -/
theorem next_keptApart (s : Shared cfg n) (a : Fin n × Client.Action) :
    (∀ e ∈ (s.next a).2, KeptApart e) ↔ s.ScansOwn a := by
  obtain ⟨k, a⟩ := a
  by_cases hw : s.OthersWait k
  · rw [next, if_pos hw]
    cases a with
    | call call sendOk => exact iff_of_true (fun _ h => nomatch h) trivial
    | poll nowMs rx => exact iff_of_true (fun _ h => nomatch h) trivial
    | resume sendOk =>
      simp only [ScansOwn, hw, forall_const, effects]
      cases hi : s.scanning k with
      | none => exact iff_of_true (fun _ h => nomatch h) fun _ h => nomatch h
      | some i =>
        simp only [List.forall_mem_singleton, Option.some.injEq, forall_eq', scan_step hi]
        exact tickAt_keptApart s k i sendOk
  · rw [next, if_neg hw]
    refine iff_of_true (fun _ h => nomatch h) ?_
    cases a with
    | resume sendOk => exact fun h => absurd h hw
    | _ => trivial

-- ===========================================================================
-- Runs
-- ===========================================================================

/-- **A group of clients over one pool is kept apart** in the runs, and only in these, where
each transaction that is due when a scan comes to it is the scanning client's own, or is scanned
unseen. The number of clients and the order of their steps are arbitrary. -/
theorem kept_apart_iff (cfg : Config) (n : Nat) (as : List (Fin n × Client.Action)) :
    (∀ e ∈ ((machine cfg n).exec [] {} as).1, KeptApart e) ↔
      (machine cfg n).Meets ScansOwn {} as := by
  have h := (machine cfg n).exec_forall_iff (I := fun _ => True) (fun _ _ _ _ => trivial)
    (fun s a _ => next_keptApart s a) as [] {} trivial
  exact h.trans (and_iff_right fun _ h => nomatch h)

/-- Every transaction was started by one of the clients. -/
def Started (s : Shared cfg n) : Prop := ∀ i, Awaiting (s.pool i) → ∃ k, s.starter i = some k

theorem Started.next {s : Shared cfg n} (h : s.Started) (a : Fin n × Client.Action) :
    (s.next a).1.Started := by
  unfold Shared.next
  split
  · intro i ha
    by_cases hbefore : Awaiting (s.pool i)
    · obtain ⟨k, hk⟩ := h i hbefore
      exact ⟨k, (if_neg fun hnew => hnew.2 hbefore).trans hk⟩
    · exact ⟨a.1, if_pos ⟨ha, hbefore⟩⟩
  · exact h

/-- With one client to the pool, every scan is of its own transactions. -/
theorem scansOwn_of_started {s : Shared cfg 1} (h : s.Started) (a : Fin 1 × Client.Action) :
    s.ScansOwn a := by
  obtain ⟨k, a⟩ := a
  cases a with
  | resume sendOk =>
    intro _ i _ ha _
    obtain ⟨j, hj⟩ := h i ha
    exact .inl (hj.trans (congrArg some (Subsingleton.elim j k)))
  | _ => trivial

/-- **A client with a pool of its own** sends again, gives up and reports its own transactions
only: it is a group of one. -/
theorem own_pool_keeps_apart (cfg : Config) (as : List (Fin 1 × Client.Action)) :
    ∀ e ∈ ((machine cfg 1).exec [] {} as).1, KeptApart e := by
  have hinit : Started ({} : Shared cfg 1) := fun i ha => nomatch (ha : TransactionState.free = _)
  have h := (machine cfg 1).exec_forall_iff (P := fun _ _ => True) (fun s a hs _ => hs.next a)
    (fun s a hs => (next_keptApart s a).trans (iff_true_intro (scansOwn_of_started hs a)))
    as [] {} hinit
  exact h.2 ⟨(fun _ h => nomatch h), Machine.meets_of_forall (fun _ _ => trivial) _ _⟩

-- ===========================================================================
-- Two clients
-- ===========================================================================

/-- The server two clients talk to. -/
def demoServer : Endpoint := default

/-- The first client sends a Confirmable GET; the second one polls ten seconds later, and its
scan comes to that transaction. -/
def demoCross : List (Fin 2 × Client.Action) :=
  [(0, .call (.get demoServer [0x2F, 0x61] none none true) true),
    (1, .poll 10000 none), (1, .resume true), (1, .resume true)]

/-- The second client's transport is given the first client's request. -/
theorem not_kept_apart :
    ∃ e ∈ ((machine Config.default 2).exec [] {} demoCross).1, ¬ KeptApart e := by
  have hcross : ∃ e ∈ ((machine Config.default 2).exec [] {} demoCross).1,
      e.starter = some 0 ∧ e.scanner = 1 ∧
        e.events = [.sent demoServer [0x41, 0x01, 0x00, 0x01, 0x01, 0xB1, 0x61]] := by
    decide +kernel
  obtain ⟨e, he, hstarter, hscanner, hevents⟩ := hcross
  refine ⟨e, he, fun h => ?_⟩
  have hown := h.resent _ _ (hevents ▸ List.mem_singleton.2 rfl)
  rw [hstarter, hscanner] at hown
  exact absurd hown (by decide)

end Shared

end PulseCoap
