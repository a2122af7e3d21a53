import PulseCoap.Client.Frame

/-!
# PulseCoAP — what ends a request

A pending slot and a transaction stay as they are until one of a few branches of
the code takes them away. `Ends` and `Drops` list these branches, each in terms
of the state before the step.

The lists are complete: whatever step is taken, an entry that none of them names
is the same entry afterwards, field for field. So a proof that needs a request
to be still there has to look at a handful of branches instead of at `poll()`.

* `pending_kept` — a slot that no branch ends keeps its request.
* `givenUp_ends` — which slot goes with a transaction that is given up.
* `transaction_step` — a transaction that no branch drops stays, and only a free
  entry of the pool is written anew.
* `follows_resume` — the segments of `poll()`, one by one.
-/

namespace PulseCoap

namespace Client

open TransactionPool

variable {cfg : Config}

/-- The scan of the pool is at transaction `t`, whose last wait is over. -/
structure TimesOut (c : Client cfg) (t : Fin cfg.maxTransactions) : Prop where
  scan    : ∃ b, c.control = .polling (.tick t) b
  waiting : Awaiting (c.transactions t)
  due     : notDue c.lastNowMs (c.transactions t) = false
  last    : ¬ (c.transactions t).retriesSent < cfg.maxRetransmit

/-- The step takes the request of slot `i` away, or goes on with its upload and
takes it away when the block cannot be sent. -/
inductive Ends (c : Client cfg) (i : Fin cfg.maxTransactions) : Action → Prop where
  | cancel {server : Endpoint} {path : Bytes} {sendOk : Bool} (happ : c.appHasControl = true)
      (hfind : c.findObserve server path = some i) :
      Ends c i (.call (.cancelObserve server path) sendOk)
  | reset {nowMs : UInt32} {sender : Endpoint} {data : Bytes} {msg : Message}
      {t : Fin cfg.maxTransactions} (hidle : c.control = .idle)
      (hdec : Message.decode cfg data = (.none, msg)) (htype : msg.type = .reset)
      (hnamed : c.transactions.find? (matchesId sender msg.messageId) = some t)
      (htoken : c.findPendingByToken (c.transactions t).token = some i) :
      Ends c i (.poll nowMs (some (sender, data)))
  | block1 {b : Bool} {sendOk : Bool} (hk : c.control = .polling (.block1 i) b) :
      Ends c i (.resume sendOk)
  | close {fragmented : Bool} {k : Call} {b : Bool} {sendOk : Bool}
      (hk : c.control = .polling (.close i fragmented k) b)
      (honce : (c.slots i).pending.observing = false) : Ends c i (.resume sendOk)
  | timeout {t : Fin cfg.maxTransactions} {sendOk : Bool} (hout : c.TimesOut t)
      (htoken : c.findPendingByToken (c.transactions t).token = some i) :
      Ends c i (.resume sendOk)

/-- The step takes transaction `t` out of the pool: a message names it, or its
last wait is over. -/
inductive Drops (c : Client cfg) (t : Fin cfg.maxTransactions) : Action → Prop where
  | complete {nowMs : UInt32} {sender : Endpoint} {data : Bytes} {msg : Message}
      (hnamed : c.transactions.find? (matchesId sender msg.messageId) = some t) :
      Drops c t (.poll nowMs (some (sender, data)))
  | timeout {sendOk : Bool} (hout : c.TimesOut t) : Drops c t (.resume sendOk)

-- ===========================================================================
-- Slots
-- ===========================================================================

/-- A timeout callback leaves the slots alone. -/
theorem fireTimeout_slots (c : Client cfg) (call : Call) (ctx : Option Ref) (k : Cont cfg) :
    (c.fireTimeout call ctx k).1.slots = c.slots := by
  rw [fireTimeout_eq]
  rfl

/-- A call that takes a slot leaves the others alone. -/
theorem issue_slots (c : Client cfg) {a : RequestArgs} (sendOk : Bool)
    (hk : a.blockwise cfg = true → a.markObserving = false) {i : Fin cfg.maxTransactions}
    (hi : (c.slots i).pending.active = true) : (c.issue a sendOk).1.slots i = c.slots i := by
  rcases issue_cases c a sendOk hk with ⟨-, c', hr, heq⟩ | ⟨-, j, s, buf, hfree, -, -, heq⟩
  · rw [heq]
    rcases hr.slots i with h | ⟨h, -⟩
    · exact h
    · exact absurd hi (by rw [h]; exact nofun)
  · have hij : i ≠ j := fun h => by
      rw [h, freeSlot_spec hfree] at hi
      cases hi
    rw [heq]
    exact Table.set_ne _ _ hij

/-- Releasing another slot. -/
theorem release_pending_ne (c : Client cfg) {i j : Fin cfg.maxTransactions} (h : i ≠ j) :
    ((c.release j).slots i).pending = (c.slots i).pending := by
  show (c.slots.set j _ i).pending = _
  rw [Table.set_ne _ _ h]

/-- A call that does not end a slot leaves its request as it was. -/
theorem call_pending {c : Client cfg} {call : ClientCall} {sendOk : Bool}
    {i : Fin cfg.maxTransactions} (happ : c.appHasControl = true)
    (hi : (c.slots i).pending.active = true) (hne : ¬ c.Ends i (.call call sendOk)) :
    ((c.call sendOk call).1.slots i).pending = (c.slots i).pending := by
  rw [call_eq]
  -- a call writes a free slot, or releases the subscription that `cancelObserve` has found
  cases hshape : call.shape with
  | issue a => rw [issue_slots c sendOk (shape_blockwise hshape) hi]
  | cancel server path =>
    have hcall : call = .cancelObserve server path := by
      cases call <;> cases hshape
      rfl
    subst hcall
    dsimp only
    cases hfind : c.findObserve server path with
    | none => rfl
    | some j =>
      have hij : i ≠ j := fun h => hne (.cancel happ (h ▸ hfind))
      have hkept := release_pending_ne c hij
      dsimp only
      rw [issue_slots (c.release j) sendOk
        (fun hb => by rw [deregister_blockwise] at hb; cases hb) (by rwa [hkept]), hkept]
  | discover ep onDiscover userContext =>
    -- a discovery has a table of its own
    dsimp only
    rcases discover_cases c ep onDiscover userContext sendOk with
      ⟨token, id, heq, -⟩ | ⟨j, buf, -, -, heq⟩ <;> rw [heq]
  | handler h => rfl

/-- So does a poll up to its first cut. -/
theorem poll_pending {c : Client cfg} {nowMs : UInt32} {rx : Option (Endpoint × Bytes)}
    {i : Fin cfg.maxTransactions} (hidle : c.control = .idle) (hne : ¬ c.Ends i (.poll nowMs rx)) :
    ((c.poll nowMs rx).1.slots i).pending = (c.slots i).pending := by
  rcases poll_cases c nowMs rx with heq | ⟨sender, data, msg, rfl, hdec, heq⟩
  · rw [heq]
    rfl
  · rw [heq]
    rcases handleMessage_cases (c.atTime nowMs) sender msg with ⟨htype, heq⟩ | ⟨c', hc', heq⟩
    · rw [heq]
      rcases handleReset_cases (c.atTime nowMs) sender msg.messageId with
        heq | ⟨t, j, hnamed, htoken, heq⟩
      · rw [heq]
        rfl
      · have hij : i ≠ j := fun h => hne (.reset hidle hdec htype hnamed (h ▸ htoken))
        rw [heq, fireTimeout_slots, release_pending_ne _ hij]
        rfl
    · have hslots : c'.slots = c.slots := by
        rcases hc' with rfl | rfl <;> rfl
      rcases heq with heq | heq <;>
        rw [heq, ← hslots] <;>
        rfl

/-- The dispatch ends no request: the slot is closed behind the callback. -/
theorem dispatchResponse_pending (c : Client cfg) (sender : Endpoint) (msg : Message)
    (i : Fin cfg.maxTransactions) :
    ((c.dispatchResponse sender msg).1.slots i).pending = (c.slots i).pending := by
  have hblocks : ∀ j up recv, ((c.setBlocks j up recv).slots i).pending = (c.slots i).pending := by
    intro j up recv
    by_cases hij : i = j
    · subst hij
      show (c.slots.set i _ i).pending = _
      rw [Table.set_self]
    · show (c.slots.set j _ i).pending = _
      rw [Table.set_ne _ _ hij]
  rcases dispatchResponse_cases c sender msg with ⟨j, -, heq⟩ | ⟨j, -, -, heq⟩ | ⟨-, -, heq⟩
  · rw [heq]
    rfl
  · rw [heq]
    obtain ⟨up, recv, -, -, h⟩ := dispatchPending_cases c j sender msg
    rcases h with ⟨-, -, heq⟩ | ⟨-, heq⟩ | ⟨res, fragmented, heq⟩
    · rw [heq]
      exact hblocks j up recv
    · rw [heq]
      exact hblocks j up recv
    · rw [heq, fireResponse_eq]
      exact hblocks j up recv
  · rw [heq]
    rfl

/-- The scan ends the slot of a transaction that has timed out, and leaves the others. -/
theorem tickAt_pending {c : Client cfg} {t : Fin cfg.maxTransactions} {b sendOk : Bool}
    (hk : c.control = .polling (.tick t) b) {i : Fin cfg.maxTransactions}
    (hne : ¬ c.Ends i (.resume sendOk)) :
    ((c.tickAt t sendOk).1.slots i).pending = (c.slots i).pending := by
  rcases tickAt_cases c t sendOk with ⟨-, heq⟩ | ⟨-, -, -, heq⟩ | ⟨ha, hdue, hlast, heq⟩
  · rw [heq]
    rfl
  · rw [heq]
    rfl
  · rw [heq]
    rcases timeoutTrampoline_cases (c.freed t) (c.transactions t).token (c.transactions t).owner
      (.tick (t + 1)) with ⟨j, htoken, heq⟩ | ⟨-, heq⟩
    · have hij : i ≠ j := fun h => hne (.timeout ⟨⟨b, hk⟩, ha, hdue, hlast⟩ (h ▸ htoken))
      rw [heq, fireTimeout_slots, release_pending_ne _ hij]
      rfl
    · rw [heq, fireTimeout_slots]
      rfl

/-- Writing the slot of another request. -/
theorem set_pending_ne {c : Client cfg} {i j : Fin cfg.maxTransactions} (h : i ≠ j)
    (s : ClientSlot) : (c.slots.set j s i).pending = (c.slots i).pending := by
  rw [Table.set_ne _ _ h]

/-- A segment of `poll` that does not end a slot leaves its request as it was. -/
theorem resume_pending {c : Client cfg} {k : Cont cfg} {b sendOk : Bool}
    (hk : c.control = .polling k b) {i : Fin cfg.maxTransactions}
    (hne : ¬ c.Ends i (.resume sendOk)) :
    ((c.resume k sendOk).1.slots i).pending = (c.slots i).pending := by
  cases k with
  | dispatch sender msg => exact dispatchResponse_pending c sender msg i
  | block1 j =>
    have hij : i ≠ j := fun h => hne (.block1 (h ▸ hk))
    -- a block that could not be sent ends its slot, and that was another one
    show ((c.continueUpload j sendOk).1.slots i).pending = _
    rcases continueUpload_cases c j sendOk with ⟨-, id, heq⟩ | ⟨buf, -, heq⟩
    · rw [heq, fireTimeout_slots]
      exact set_pending_ne hij _
    · rw [heq]
      exact set_pending_ne hij _
  | block2 j =>
    rcases resumeBlock2_cases c j sendOk with ⟨-, heq⟩ | ⟨buf, -, heq⟩ <;>
      rw [heq] <;>
      rfl
  | close j fragmented call =>
    -- after the callback only the slot that was dispatched is closed
    show ((c.close j fragmented).slots i).pending = _
    rw [close_eq]
    by_cases hij : i = j
    · -- an observing slot stays
      subst hij
      have hobs : (c.slots i).pending.observing = true :=
        (Bool.not_eq_false _).mp fun h => hne (.close hk h)
      show (c.slots.set i _ i).pending = _
      rw [Table.set_self, closedSlot, if_pos hobs]
    · exact set_pending_ne hij _
  | expire => rfl
  | tick index =>
    rw [resume_tick]
    split
    · exact tickAt_pending hk hne
    · rfl
  | ret => rfl

/-- **A request stays pending** until a branch of `Ends` is taken for its slot. The branches are
those of the source that clear `active`. -/
theorem pending_kept {c : Client cfg} {a : Action} {i : Fin cfg.maxTransactions}
    (hi : (c.slots i).pending.active = true) (hne : ¬ c.Ends i a) :
    ((c.step a).1.slots i).pending = (c.slots i).pending := by
  rcases step_cases c a with heq | ⟨call, sendOk, rfl, happ, heq⟩ | ⟨nowMs, rx, rfl, hidle, heq⟩ |
    ⟨sendOk, k, b, rfl, hk, heq⟩
  · rw [heq]
  · rw [heq]
    exact call_pending happ hi hne
  · rw [heq]
    exact poll_pending hidle hne
  · rw [heq]
    exact resume_pending hk hne

/-- The transaction that this step gives up: a Reset names it, or the scan is at it and its last
wait is over. -/
def givenUp (c : Client cfg) : Action → Option (Fin cfg.maxTransactions)
  | .poll _ (some (sender, data)) =>
    match c.control, Message.decode cfg data with
    | .idle, (.none, msg) =>
      if msg.type = .reset then c.transactions.find? (matchesId sender msg.messageId) else none
    | _, _ => none
  | .resume _ =>
    match c.control with
    | .polling (.tick index) _ =>
      if h : index < cfg.maxTransactions then
        let t := c.transactions ⟨index, h⟩
        if Awaiting t ∧ notDue c.lastNowMs t = false ∧ ¬ t.retriesSent < cfg.maxRetransmit then
          some ⟨index, h⟩
        else none
      else none
    | _ => none
  | _ => none

/-- A request that is given up ends the first slot with its token, whoever has it by then. -/
theorem givenUp_ends {c : Client cfg} {a : Action} {t i : Fin cfg.maxTransactions}
    (hup : c.givenUp a = some t) (h : c.Ends i a) :
    c.findPendingByToken (c.transactions t).token = some i := by
  cases h with
  -- no transaction is given up in a call, or in another segment
  | cancel => cases hup
  | block1 hk =>
    simp only [givenUp, hk] at hup
    cases hup
  | close hk =>
    simp only [givenUp, hk] at hup
    cases hup
  | reset hidle hdec htype hnamed htoken =>
    simp only [givenUp, hidle, hdec, if_pos htype] at hup
    obtain rfl := Option.some.inj (hnamed.symm.trans hup)
    exact htoken
  | @timeout t' sendOk hout htoken =>
    obtain ⟨b, hk⟩ := hout.scan
    simp only [givenUp, hk, t'.isLt, dite_true] at hup
    split at hup
    · obtain rfl : t' = t := Option.some.inj hup
      exact htoken
    · cases hup

-- ===========================================================================
-- Transactions
-- ===========================================================================

/-- `t'` is the same transaction, and stays in the pool if `stays`. -/
structure Lasts (t t' : Transaction) (stays : Prop) : Prop where
  remote  : t'.remote = t.remote
  message : t'.message = t.message
  owner   : t'.owner = t.owner
  waiting : Awaiting t → stays → Awaiting t'

/-- What a step can make of an entry of the pool. -/
def Follows (cfg : Config) (t t' : Transaction) (stays : Prop) : Prop :=
  Lasts t t' stays ∨ t.state = .free ∧ t'.message.length ≤ cfg.maxMsgSize

theorem Lasts.refl (t : Transaction) (stays : Prop) : Lasts t t stays := ⟨rfl, rfl, rfl, fun h _ => h⟩

theorem follows_refl (t : Transaction) (stays : Prop) : Follows cfg t t stays := .inl (.refl t stays)

/-- `start` writes a free entry, with a message that fits the array. -/
theorem follows_start (pool : TransactionPool cfg) (remote : Endpoint) (messageId : UInt16)
    (token message : Bytes) (nowMs : UInt32) (owner : Call) (t : Fin cfg.maxTransactions)
    (stays : Prop) :
    Follows cfg (pool t) ((pool.start remote messageId token message nowMs owner).1 t) stays := by
  unfold start
  split
  · exact follows_refl _ _
  · split
    · exact follows_refl _ _
    · next hlen =>
      cases hfree : pool.find? (·.state == .free) with
      | none => exact follows_refl _ _
      | some j =>
        by_cases htj : t = j
        · subst htj
          refine .inr ⟨beq_iff_eq.1 (Table.find?_spec hfree), ?_⟩
          show (pool.set t _ t).message.length ≤ _
          rw [Table.set_self]
          exact Nat.le_of_not_lt hlen
        · refine .inl ?_
          show Lasts _ (pool.set j _ t) _
          rw [Table.set_ne _ _ htj]
          exact .refl _ _

/-- Overwriting another entry, or this one with the same request. -/
theorem follows_set {pool : TransactionPool cfg} {j t : Fin cfg.maxTransactions}
    {entry : Transaction} {stays : Prop} (h : t = j → Lasts (pool t) entry stays) :
    Follows cfg (pool t) (pool.set j entry t) stays := by
  refine .inl ?_
  by_cases htj : t = j
  · subst htj
    rw [Table.set_self]
    exact h rfl
  · rw [Table.set_ne _ _ htj]
    exact .refl _ _

/-- A request starts a transaction in a free entry. -/
theorem follows_issue (c : Client cfg) {a : RequestArgs} (sendOk : Bool)
    (hk : a.blockwise cfg = true → a.markObserving = false) (t : Fin cfg.maxTransactions)
    (stays : Prop) :
    Follows cfg (c.transactions t) ((c.issue a sendOk).1.transactions t) stays := by
  rcases issue_cases c a sendOk hk with ⟨-, c', hr, heq⟩ | ⟨-, j, s, buf, -, -, -, heq⟩
  · rw [heq, hr.transactions]
    exact follows_refl _ _
  · rw [heq]
    show Follows cfg _ ((if _ then _ else _ : TransactionPool cfg) t) stays
    split
    · exact follows_start ..
    · exact follows_refl _ _

/-- So does a call of the API; it ends none. -/
theorem follows_call (c : Client cfg) (sendOk : Bool) (call : ClientCall)
    (t : Fin cfg.maxTransactions) (stays : Prop) :
    Follows cfg (c.transactions t) ((c.call sendOk call).1.transactions t) stays := by
  rw [call_eq]
  cases hshape : call.shape with
  | issue a => exact follows_issue c sendOk (shape_blockwise hshape) t stays
  | cancel server path =>
    dsimp only
    cases c.findObserve server path with
    | none => exact follows_refl _ _
    | some j =>
      exact follows_issue (c.release j) sendOk
        (fun hb => by rw [deregister_blockwise] at hb; cases hb) t stays
  | discover ep onDiscover userContext =>
    dsimp only
    rcases discover_cases c ep onDiscover userContext sendOk with
      ⟨token, id, heq, -⟩ | ⟨j, buf, -, -, heq⟩ <;>
      rw [heq] <;>
      exact follows_refl _ _
  | handler h => exact follows_refl _ _

/-- `complete` frees the entry it finds. -/
theorem follows_completed (c : Client cfg) (sender : Endpoint) (messageId : UInt16)
    {t : Fin cfg.maxTransactions} {stays : Prop}
    (hstays : c.transactions.find? (matchesId sender messageId) = some t → ¬ stays) :
    Follows cfg (c.transactions t) ((c.completed sender messageId).transactions t) stays := by
  show Follows cfg _ ((c.transactions.complete sender messageId).1 t) stays
  rcases complete_cases c.transactions sender messageId with ⟨-, heq⟩ | ⟨j, hj, heq⟩
  · rw [heq]
    exact follows_refl _ _
  · rw [heq]
    refine follows_set fun htj => ⟨by rw [htj], by rw [htj], by rw [htj], fun _ h => ?_⟩
    exact absurd h (hstays (htj ▸ hj))

/-- A poll ends the transaction that is acknowledged or reset. -/
theorem follows_poll (c : Client cfg) (nowMs : UInt32) (rx : Option (Endpoint × Bytes))
    (t : Fin cfg.maxTransactions) :
    Follows cfg (c.transactions t) ((c.poll nowMs rx).1.transactions t)
      (¬ c.Drops t (.poll nowMs rx)) := by
  -- `poll` itself frees the transaction of an ACK or a Reset, and nothing else
  rcases poll_cases c nowMs rx with heq | ⟨sender, data, msg, rfl, -, heq⟩
  · rw [heq]
    exact follows_refl _ _
  · have hcompleted : Follows cfg (c.transactions t)
        (((c.atTime nowMs).completed sender msg.messageId).transactions t)
        (¬ c.Drops t (.poll nowMs (some (sender, data)))) :=
      follows_completed (c.atTime nowMs) sender msg.messageId fun h hne => hne (.complete h)
    rw [heq]
    rcases handleMessage_cases (c.atTime nowMs) sender msg with ⟨-, heq⟩ | ⟨c', hc', heq⟩
    · rw [heq]
      rcases handleReset_cases (c.atTime nowMs) sender msg.messageId with
        heq | ⟨s, j, -, -, heq⟩
      · rw [heq]
        exact hcompleted
      · rw [heq, fireTimeout_eq]
        exact hcompleted
    · rcases heq with heq | heq <;>
        rw [heq] <;>
        rcases hc' with rfl | rfl
      · exact follows_refl _ _
      · exact hcompleted
      · exact follows_refl _ _
      · exact hcompleted

/-- The scan ends the one that has no retransmission left. -/
theorem follows_tickAt {c : Client cfg} {j : Fin cfg.maxTransactions} {b sendOk : Bool}
    (hk : c.control = .polling (.tick j) b) (t : Fin cfg.maxTransactions) :
    Follows cfg (c.transactions t) ((c.tickAt j sendOk).1.transactions t)
      (¬ c.Drops t (.resume sendOk)) := by
  rw [(tickAt_pool c j sendOk).2.2.1]
  rcases tickSlot_cases cfg c.lastNowMs (c.transactions j) with
    ⟨heq, -⟩ | ⟨-, -, -, heq⟩ | ⟨ha, hdue, hlast, heq⟩
  · rw [heq, Table.set_eq_self]
    exact follows_refl _ _
  · rw [heq]
    refine follows_set fun htj => ?_
    subst htj
    exact ⟨rfl, rfl, rfl, fun h _ => h⟩
  · rw [heq]
    refine follows_set fun htj => ?_
    subst htj
    exact ⟨rfl, rfl, rfl, fun _ h => absurd (.timeout ⟨⟨b, hk⟩, ha, hdue, hlast⟩) h⟩

/-- **A transaction lasts until something ends it**, whatever segment runs. A resend moves its
deadline and counts; the rest of it stays. -/
theorem follows_resume {c : Client cfg} {k : Cont cfg} {b sendOk : Bool}
    (hk : c.control = .polling k b) (t : Fin cfg.maxTransactions) :
    Follows cfg (c.transactions t) ((c.resume k sendOk).1.transactions t)
      (¬ c.Drops t (.resume sendOk)) := by
  cases k with
  | dispatch sender msg =>
    refine .inl ?_
    -- the dispatch leaves the pool alone: the ACK has been taken before
    have hsame : (c.dispatchResponse sender msg).1.transactions = c.transactions := by
      rcases dispatchResponse_cases c sender msg with ⟨j, -, heq⟩ | ⟨j, -, -, heq⟩ | ⟨-, -, heq⟩
      · rw [heq]
        rfl
      · rw [heq]
        obtain ⟨up, recv, -, -, h⟩ := dispatchPending_cases c j sender msg
        rcases h with ⟨-, -, heq⟩ | ⟨-, heq⟩ | ⟨res, fragmented, heq⟩
        · rw [heq]
          rfl
        · rw [heq]
          rfl
        · rw [heq, fireResponse_eq]
          rfl
      · rw [heq]
        rfl
    show Lasts _ ((c.dispatchResponse sender msg).1.transactions t) _
    rw [hsame]
    exact .refl _ _
  | block1 j =>
    -- the next block is a new transaction, in a free entry
    show Follows cfg _ ((c.continueUpload j sendOk).1.transactions t) _
    rcases continueUpload_cases c j sendOk with ⟨-, id, heq⟩ | ⟨buf, -, heq⟩
    · rw [heq, fireTimeout_eq]
      exact follows_refl _ _
    · rw [heq]
      exact follows_start ..
  | block2 j =>
    rcases resumeBlock2_cases c j sendOk with ⟨-, heq⟩ | ⟨buf, -, heq⟩
    · rw [heq]
      exact follows_refl _ _
    · rw [heq]
      exact follows_start ..
  | close j fragmented call =>
    show Follows cfg _ ((c.close j fragmented).transactions t) _
    rw [close_eq]
    exact follows_refl _ _
  | expire => exact follows_refl _ _
  | tick index =>
    rw [resume_tick]
    split
    · exact follows_tickAt hk t
    · exact follows_refl _ _
  | ret => exact follows_refl _ _

/-- **An entry of the pool stays the same transaction**, and in the pool until a branch of
`Drops` is taken for it; only a free one is written anew. This is the step lemma by which a
transaction is followed over a run. -/
theorem transaction_step (c : Client cfg) (a : Action) (t : Fin cfg.maxTransactions) :
    Follows cfg (c.transactions t) ((c.step a).1.transactions t) (¬ c.Drops t a) := by
  rcases step_cases c a with heq | ⟨call, sendOk, rfl, happ, heq⟩ | ⟨nowMs, rx, rfl, hidle, heq⟩ |
    ⟨sendOk, k, b, rfl, hk, heq⟩
  · rw [heq]
    exact follows_refl _ _
  · rw [heq]
    exact follows_call c sendOk call t _
  · rw [heq]
    exact follows_poll c nowMs rx t
  · rw [heq]
    exact follows_resume hk t

end Client

end PulseCoap
