import PulseCoap.Client.Dispatch
import PulseCoap.Client.Frame

/-!
# PulseCoAP — calls from a callback

A callback of `poll` may call the client. `poll` keeps the index of the slot
whose response it delivers and closes that slot afterwards, whatever it holds by
then; the pool scan that follows ends slots by their token.

`Reentry` is a client together with what `poll` alone would make of it: the same
`poll` whose callbacks make no calls. It remembers the calls that the callbacks
of the present `poll` made and that returned true, and the slots they changed.

The comparison with the second client is needed to say what "untouched" means: a
slot that no callback has changed may still be ended by `poll` itself, as its
transaction is out of retries. The two clients are one up to the first callback;
after it they differ in the slots that the calls took and cancelled, and `Keeps`
says that they differ in nothing else. `Safe` is a condition on the next step
alone.

* `Grant.takes` — what an accepted call takes.
* `call_keeps` — what has a slot keeps it through a call, unless it is cancelled.
* `step_keeps_iff` — one step; `Safe` says when it keeps the callbacks' requests.
* `keeps_iff` — the runs that keep them, at every point up to the return.
* `not_keeps` — a subscription that is cancelled from its own callback.
* `Inv` — the two clients, and where both stand.
* `resume_placed` — where the code of `poll` can stand after a segment.
-/

namespace PulseCoap

/-- A call that returned true, with the client as it was before. -/
structure Grant (cfg : Config) where
  before   : Client cfg
  call     : Client.ClientCall
  sendOk   : Bool
  accepted : (before.call sendOk call).2.1 = true

/-- A client, and the same client under `poll` alone. -/
structure Reentry (cfg : Config) where
  client          : Client cfg := {}
  alone           : Client cfg := {}
  grants          : List (Grant cfg) := []
  touched         : Table cfg.maxTransactions Bool := fun _ => false
  touchedDiscover : Table cfg.maxDiscovers Bool := fun _ => false

open Client (NewSlot deregisterArgs Refused ClientCall CallShape)

variable {cfg : Config}

namespace Grant

-- ===========================================================================
-- What an accepted call takes
-- ===========================================================================

/-- The client the call left. -/
def after (g : Grant cfg) : Client cfg := (g.before.call g.sendOk g.call).1

/-- The slot the call took: the first free one, which may be the one `cancelObserve` gave back. -/
def slot (g : Grant cfg) : Option (Fin cfg.maxTransactions) :=
  match g.call.shape with
  | .issue _ => g.before.freeSlot
  | .cancel server path =>
    (g.before.findObserve server path).bind fun j => (g.before.release j).freeSlot
  | _ => none

/-- Whether the call is a `discover`. -/
def isDiscover (g : Grant cfg) : Bool :=
  match g.call.shape with
  | .discover .. => true
  | _ => false

/-- The pending slot that `c` has for the call is the one it took, active with its token, its
handler and its block states, all as the call left it. -/
def OwnsSlot (g : Grant cfg) (a : Client.RequestArgs) (c : Client cfg) : Prop :=
  ∃ i, g.slot = some i ∧ NewSlot g.before a (c.slots i) ∧ c.slots i = g.after.slots i

/-- **The call owns its slot** in `c`: the slot, or the discovery, still has what the call
wrote. -/
def Owns (g : Grant cfg) (c : Client cfg) : Prop :=
  match g.call.shape with
  | .issue a => g.OwnsSlot a c
  | .cancel server path =>
    ∃ j, g.before.findObserve server path = some j ∧
      g.OwnsSlot (deregisterArgs server path (g.before.slots j).pending) c
  | .discover _ onDiscover userContext =>
    ∃ i, (g.before.discovers i).active = false ∧ (g.after.discovers i).active = true ∧
      c.discovers i =
        { active := true, token := [g.before.nextTokenByte], onDiscover, userContext
          issuedAt := g.before.lastNowMs }
  | .handler _ => True

/-- The call took slot `i` and left it as `s`. -/
structure TakesSlot (g : Grant cfg) (i : Fin cfg.maxTransactions) (s : ClientSlot) : Prop where
  slot     : g.slot = some i
  discover : g.isDiscover = false
  free     : (g.before.slots i).pending.active = false ∨
    ∃ server path, g.call.shape = .cancel server path ∧ g.before.findObserve server path = some i
  active   : s.pending.active = true
  id       : s.pending.call.id = g.before.calls
  calls    : g.after.calls = g.before.calls + 1
  recv     : cfg.enableBlockwise → s.recv.active = false
  left     : g.after.slots i = s
  owns     : ∀ c : Client cfg, g.Owns c ↔ c.slots i = s

/-- The call took discover slot `i` and left it as `d`. -/
structure TakesDiscover (g : Grant cfg) (i : Fin cfg.maxDiscovers) (d : DiscoverSlot) : Prop where
  slot     : g.slot = none
  discover : g.isDiscover = true
  active   : d.active = true
  issuedAt : d.issuedAt = g.before.lastNowMs
  left     : g.after.discovers i = d
  owns     : ∀ c : Client cfg, g.Owns c ↔ c.discovers i = d

/-- An accepted request, from the state in which it is issued. -/
theorem ownsSlot_issued {g : Grant cfg} {c : Client cfg} {a : Client.RequestArgs}
    (hk : a.blockwise cfg = true → a.markObserving = false)
    (hcall : g.before.call g.sendOk g.call = c.issue a g.sendOk)
    (htoken : c.nextTokenByte = g.before.nextTokenByte) (hcalls : c.calls = g.before.calls)
    (hslot : g.slot = c.freeSlot) :
    ∃ i s, g.slot = some i ∧ (c.slots i).pending.active = false ∧ s.pending.active = true ∧
      s.pending.call.id = g.before.calls ∧ g.after.calls = g.before.calls + 1 ∧
      (cfg.enableBlockwise → s.recv.active = false) ∧ g.after.slots i = s ∧
      ∀ c' : Client cfg, g.OwnsSlot a c' ↔ c'.slots i = s := by
  have hacc := g.accepted
  rw [hcall] at hacc
  rcases Client.issue_cases c a g.sendOk hk with ⟨-, c', -, heq⟩ | ⟨-, i, s, buf, hf, -, hs, heq⟩
  · rw [heq] at hacc
    cases hacc
  have hafter : g.after = c.issued i s a buf := by rw [after, hcall, heq]
  have hleft : g.after.slots i = s := by rw [hafter]; exact Table.set_self ..
  -- a new slot depends on the counters only
  have hnew : NewSlot g.before a s := by
    obtain ⟨h1, h2, h3, h4, h5, h6, h7, h8, h9, h10⟩ := hs
    rw [htoken] at h3 h9
    rw [hcalls] at h4
    exact ⟨h1, h2, h3, h4, h5, h6, h7, h8, h9, h10⟩
  refine ⟨i, s, hslot.trans hf, Client.freeSlot_spec hf, hnew.active, ?_, ?_, hnew.recv, hleft,
    fun c' => ⟨?_, ?_⟩⟩
  · rw [hnew.call]
    rfl
  · rw [hafter, ← hcalls]
    rfl
  · rintro ⟨j, hj, -, heq'⟩
    obtain rfl := Option.some.inj (hj.symm.trans (hslot.trans hf))
    rw [heq', hleft]
  · intro h
    exact ⟨i, hslot.trans hf, h ▸ hnew, h.trans hleft.symm⟩

/-- **What an accepted call takes**: a slot, a discover slot, or nothing. -/
theorem takes (g : Grant cfg) :
    (∃ i s, g.TakesSlot i s) ∨ (∃ i d, g.TakesDiscover i d) ∨
      (g.slot = none ∧ g.isDiscover = false ∧ ∀ c : Client cfg, g.Owns c) := by
  have hacc := g.accepted
  have heq := Client.call_eq g.before g.sendOk g.call
  -- by the shape of the call: a slot, the slot of the subscription it cancels, or a discovery
  cases hshape : g.call.shape with
  | issue a =>
    rw [hshape] at heq
    have hslot : g.slot = g.before.freeSlot := by rw [slot, hshape]
    obtain ⟨i, s, hi, hfree, ha, hid, hcalls, hrecv, hleft, howns⟩ :=
      ownsSlot_issued (fun hb => Client.shape_blockwise hshape hb) heq rfl rfl hslot
    refine .inl ⟨i, s, hi, by rw [isDiscover, hshape], .inl hfree, ha, hid, hcalls, hrecv, hleft,
      fun c => ?_⟩
    rw [Owns, hshape]
    exact howns c
  | cancel server path =>
    rw [hshape] at heq
    cases hf : g.before.findObserve server path with
    | none =>
      simp only [hf] at heq
      rw [heq] at hacc
      cases hacc
    | some j =>
      simp only [hf] at heq
      have hslot : g.slot = (g.before.release j).freeSlot := by
        rw [slot, hshape]
        simp only [hf, Option.bind_some]
      obtain ⟨i, s, hi, hfree, ha, hid, hcalls, hrecv, hleft, howns⟩ :=
        ownsSlot_issued (fun hb => by rw [Client.deregister_blockwise] at hb; cases hb) heq rfl
          rfl hslot
      refine .inl ⟨i, s, hi, by rw [isDiscover, hshape], ?_, ha, hid, hcalls, hrecv, hleft,
        fun c => ?_⟩
      · -- the released slot may be the very one that is taken again
        by_cases hij : i = j
        · exact .inr ⟨server, path, hshape, hij ▸ hf⟩
        · refine .inl ?_
          simpa only [Client.release, Client.setPending, Table.set_ne _ _ hij] using hfree
      · rw [Owns, hshape]
        simp only [hf, Option.some.injEq, exists_eq_left']
        exact howns c
  | discover ep onDiscover userContext =>
    rw [hshape] at heq
    rcases Client.discover_cases g.before ep onDiscover userContext g.sendOk with
      ⟨token, id, hr, -⟩ | ⟨i, buf, hfree, -, hr⟩
    · rw [heq] at hacc
      simp only [hr] at hacc
      cases hacc
    · have hafter : g.after.discovers i =
          { active := true, token := [g.before.nextTokenByte], onDiscover, userContext
            issuedAt := g.before.lastNowMs } := by
        rw [after, heq]
        simp only [hr, Table.set_self]
      refine .inr (.inl ⟨i, _, by rw [slot, hshape], by rw [isDiscover, hshape], rfl, rfl, hafter,
        fun c => ?_⟩)
      rw [Owns, hshape]
      refine ⟨?_, fun h => ⟨i, hfree, by rw [hafter], h⟩⟩
      rintro ⟨j, hj, hj', h⟩
      -- only slot `i` has become active
      by_cases hji : j = i
      · rw [← hji]
        exact h
      · rw [after, heq] at hj'
        simp only [hr, Table.set_ne _ _ hji, hj] at hj'
        cases hj'
  -- `setTimeoutHandler` takes nothing
  | handler h =>
    exact .inr (.inr ⟨by rw [slot, hshape], by rw [isDiscover, hshape], fun c => by
      rw [Owns, hshape]; trivial⟩)

/-- A call that was accepted owns its slot at first. -/
theorem owns_after (g : Grant cfg) : g.Owns g.after := by
  rcases g.takes with ⟨j, s, ht⟩ | ⟨j, d, ht⟩ | ⟨-, -, hall⟩
  · exact (ht.owns _).2 ht.left
  · exact (ht.owns _).2 ht.left
  · exact hall _

/-- The slot of a call that owns it. -/
theorem Owns.slot {g : Grant cfg} {c : Client cfg} (h : g.Owns c) {i : Fin cfg.maxTransactions}
    (hi : g.slot = some i) :
    (c.slots i).pending.active = true ∧ (c.slots i).pending.call.id = g.before.calls ∧
      (cfg.enableBlockwise → (c.slots i).recv.active = false) := by
  rcases g.takes with ⟨j, s, ht⟩ | ⟨j, d, ht⟩ | ⟨hnone, -, -⟩
  · obtain rfl := Option.some.inj (ht.slot.symm.trans hi)
    rw [(ht.owns c).1 h]
    exact ⟨ht.active, ht.id, ht.recv⟩
  · cases ht.slot.symm.trans hi
  · cases hnone.symm.trans hi

/-- The discover slot of a call that owns it. -/
theorem Owns.discover {g : Grant cfg} {c : Client cfg} (h : g.Owns c)
    (hd : g.isDiscover = true) :
    ∃ i, (c.discovers i).active = true ∧ (c.discovers i).issuedAt = g.before.lastNowMs ∧
      ∀ c' : Client cfg, g.Owns c' ↔ c'.discovers i = c.discovers i := by
  rcases g.takes with ⟨j, s, ht⟩ | ⟨j, d, ht⟩ | ⟨-, hno, -⟩
  · cases ht.discover.symm.trans hd
  · have hj := (ht.owns c).1 h
    refine ⟨j, by rw [hj, ht.active], by rw [hj, ht.issuedAt], fun c' => ?_⟩
    rw [hj]
    exact ht.owns c'
  · cases hno.symm.trans hd

/-- A call keeps its slot while that stays as it is. -/
theorem Owns.same {g : Grant cfg} {c c' : Client cfg} (h : g.Owns c)
    (hslots : ∀ i, g.slot = some i → c'.slots i = c.slots i)
    (hdiscovers : g.isDiscover = true → ∀ i, (c.discovers i).active = true →
      (c.discovers i).issuedAt = g.before.lastNowMs → c'.discovers i = c.discovers i) :
    g.Owns c' := by
  rcases g.takes with ⟨j, s, ht⟩ | ⟨j, d, ht⟩ | ⟨-, -, hall⟩
  · rw [ht.owns] at h ⊢
    exact (hslots j ht.slot).trans h
  · obtain ⟨i, hactive, hat, howns⟩ := h.discover ht.discover
    exact (howns c').2 (hdiscovers ht.discover i hactive hat)
  · exact hall c'

end Grant

namespace Client

-- ===========================================================================
-- What a call leaves alone
-- ===========================================================================

/-- The call gives slot `i` back. -/
def Cancels (c : Client cfg) (call : ClientCall) (i : Fin cfg.maxTransactions) : Prop :=
  ∃ server path, call.shape = .cancel server path ∧ c.findObserve server path = some i

/-- What has a slot keeps it, unless it is the subscription that is cancelled. -/
structure CallKeeps (c c' : Client cfg) (call : ClientCall) : Prop where
  slots     : ∀ i, (c.slots i).pending.active = true → ¬ c.Cancels call i → c'.slots i = c.slots i
  cancelled : ∀ i, c.Cancels call i → (c'.slots i).pending.active = false ∨
    (c'.slots i).pending.call.id = c.calls
  discovers : ∀ i, (c.discovers i).active = true → c'.discovers i = c.discovers i
  calls     : c.calls ≤ c'.calls
  lastNowMs : c'.lastNowMs = c.lastNowMs

/-- A request changes none but a free slot, and leaves there nothing active or itself. -/
theorem issue_keeps (c : Client cfg) (a : RequestArgs) (sendOk : Bool)
    (hk : a.blockwise cfg = true → a.markObserving = false) :
    (∀ i, (c.slots i).pending.active = true → (c.issue a sendOk).1.slots i = c.slots i) ∧
      (∀ i, (c.slots i).pending.active = false →
        ((c.issue a sendOk).1.slots i).pending.active = false ∨
          ((c.issue a sendOk).1.slots i).pending.call.id = c.calls) ∧
      (c.issue a sendOk).1.discovers = c.discovers ∧ c.calls ≤ (c.issue a sendOk).1.calls ∧
      (c.issue a sendOk).1.lastNowMs = c.lastNowMs := by
  rcases c.issue_cases a sendOk hk with ⟨-, c', hr, heq⟩ | ⟨-, i, s, buf, hf, -, hs, heq⟩
  · rw [heq]
    -- a refused call
    refine ⟨fun j hj => ?_, fun j hj => .inl ?_, hr.discovers, hr.calls.ge, hr.lastNowMs⟩
    · rcases hr.slots j with h | ⟨hfree, -⟩
      · exact h
      · exact absurd (hj.symm.trans hfree) (by decide)
    · rcases hr.slots j with h | ⟨-, hfree⟩
      · exact (congrArg (·.pending.active) h).trans hj
      · exact hfree
  · rw [heq]
    -- an accepted one, which takes a free slot
    refine ⟨fun j hj => Table.set_ne _ _ ?_, fun j hj => ?_, rfl, Nat.le_succ _, rfl⟩
    · rintro rfl
      exact absurd (hj.symm.trans (freeSlot_spec hf)) (by decide)
    · by_cases hji : j = i
      · refine .inr ?_
        rw [hji]
        show ((c.slots.set i s) i).pending.call.id = c.calls
        rw [Table.set_self, hs.call]
        rfl
      · refine .inl ?_
        show ((c.slots.set i s) j).pending.active = false
        rw [Table.set_ne _ _ hji]
        exact hj

/-- **A call from inside a callback** leaves alone every slot it does not take or cancel. It is
the same function that the application calls between two polls. -/
theorem call_keeps (c : Client cfg) (sendOk : Bool) (call : ClientCall) :
    CallKeeps c (c.call sendOk call).1 call := by
  rw [call_eq]
  cases hs : call.shape with
  | issue a =>
    obtain ⟨hslots, -, hd, hcalls, hnow⟩ := c.issue_keeps a sendOk (shape_blockwise hs)
    refine ⟨fun i hi _ => hslots i hi, fun i hi => ?_, fun i _ => by rw [hd], hcalls, hnow⟩
    obtain ⟨server, path, hshape, -⟩ := hi
    rw [hs] at hshape
    cases hshape
  | cancel server path =>
    dsimp only
    cases ho : c.findObserve server path with
    | none =>
      refine ⟨fun _ _ _ => rfl, fun i hi => ?_, fun _ _ => rfl, Nat.le_refl _, rfl⟩
      obtain ⟨server', path', hshape, hi⟩ := hi
      cases hs.symm.trans hshape
      cases ho.symm.trans hi
    | some j =>
      -- the slot given back may be taken again at once
      obtain ⟨hslots, hfree, hd, hcalls, hnow⟩ := (c.release j).issue_keeps
        (deregisterArgs server path (c.slots j).pending) sendOk
        (fun hb => by rw [deregister_blockwise] at hb; cases hb)
      refine ⟨fun i hi hno => ?_, fun i hi => ?_, fun i _ => by rw [hd]; rfl, hcalls, hnow⟩
      · have hij : i ≠ j := fun h => hno ⟨server, path, hs, h ▸ ho⟩
        have hsame : (c.release j).slots i = c.slots i := Table.set_ne _ _ hij
        exact (hslots i (hsame ▸ hi)).trans hsame
      · obtain ⟨server', path', hshape, hi⟩ := hi
        cases hs.symm.trans hshape
        obtain rfl := Option.some.inj (ho.symm.trans hi)
        refine hfree j ?_
        simp only [release, setPending, Table.set_self]
  | discover ep onDiscover userContext =>
    -- no slot of a request is touched, and a free one of a discovery
    dsimp only
    have hno : ∀ i, ¬ c.Cancels call i := by
      rintro i ⟨server, path, hshape, -⟩
      rw [hs] at hshape
      cases hshape
    rcases discover_cases c ep onDiscover userContext sendOk with
      ⟨token, id, heq, -⟩ | ⟨i, buf, hfree, -, heq⟩
    · rw [heq]
      exact ⟨fun _ _ _ => rfl, fun i hi => absurd hi (hno i), fun _ _ => rfl, Nat.le_refl _, rfl⟩
    · rw [heq]
      refine ⟨fun _ _ _ => rfl, fun i hi => absurd hi (hno i), fun j hj => Table.set_ne _ _ ?_,
        Nat.le_refl _, rfl⟩
      rintro rfl
      exact absurd (hj.symm.trans hfree) (by decide)
  | handler onTimeout =>
    refine ⟨fun _ _ _ => rfl, fun i hi => ?_, fun _ _ => rfl, Nat.le_refl _, rfl⟩
    obtain ⟨server, path, hshape, -⟩ := hi
    rw [hs] at hshape
    cases hshape

-- ===========================================================================
-- What the rest of `poll` does to the slots
-- ===========================================================================

/-- The end of a response callback closes the slot it was called for, whatever was called in
between. -/
theorem resume_close (c : Client cfg) (i : Fin cfg.maxTransactions) (fragmented : Bool)
    (call : Call) (sendOk : Bool) :
    (c.resume (.close i fragmented call) sendOk).1.slots =
        c.slots.set i (closedSlot (c.slots i) fragmented) ∧
      (c.resume (.close i fragmented call) sendOk).1.discovers = c.discovers := by
  show (c.close i fragmented).slots = _ ∧ (c.close i fragmented).discovers = _
  rw [close_eq]
  exact ⟨rfl, rfl⟩

/-- An observing slot that receives no fragments is closed as it is. -/
theorem closedSlot_observing {s : ClientSlot} (hobs : s.pending.observing = true)
    {fragmented : Bool} (hrecv : fragmented = true → s.recv.active = false) :
    closedSlot s fragmented = s := by
  have hsame : (if fragmented then { s.recv with active := false } else s.recv) = s.recv := by
    cases fragmented with
    | false => rfl
    | true =>
      rw [if_pos rfl, ← hrecv rfl]
  simp only [closedSlot, hobs, if_true, hsame]

/-- The slot that the pass of the scan at `index` ends: the first with the token of a transaction
that is out of retries. -/
def ended (c : Client cfg) (index : Nat) : Option (Fin cfg.maxTransactions) :=
  if h : index < cfg.maxTransactions then
    let t := c.transactions ⟨index, h⟩
    if TransactionPool.Awaiting t ∧ TransactionPool.notDue c.lastNowMs t = false ∧
        ¬ t.retriesSent < cfg.maxRetransmit then c.findPendingByToken t.token
    else none
  else none

/-- The slots without the one that is ended. -/
def endSlot (slots : Table cfg.maxTransactions ClientSlot) :
    Option (Fin cfg.maxTransactions) → Table cfg.maxTransactions ClientSlot
  | none => slots
  | some j => slots.set j { slots j with pending := { (slots j).pending with active := false } }

/-- A slot of the tables after the scan. -/
theorem endSlot_apply (slots : Table cfg.maxTransactions ClientSlot)
    (o : Option (Fin cfg.maxTransactions)) (i : Fin cfg.maxTransactions) :
    endSlot slots o i =
      if o = some i then
        { slots i with pending := { (slots i).pending with active := false } }
      else slots i := by
  cases o with
  | none => rfl
  | some j =>
    by_cases hij : i = j
    · subst hij
      rw [if_pos rfl]
      exact Table.set_self ..
    · rw [if_neg fun h => hij (Option.some.inj h).symm]
      exact Table.set_ne _ _ hij

/-- What the scan ends was active. -/
theorem ended_active {c : Client cfg} {index : Nat} {i : Fin cfg.maxTransactions}
    (h : c.ended index = some i) : (c.slots i).pending.active = true := by
  unfold ended at h
  split at h
  · dsimp only at h
    split at h
    · exact (findPendingByToken_spec h).1
    · cases h
  · cases h

/-- One entry of the scan ends the slot of the transaction that timed out, and no other. -/
theorem tickAt_slots (c : Client cfg) {index : Nat} (hin : index < cfg.maxTransactions)
    (sendOk : Bool) :
    (c.tickAt ⟨index, hin⟩ sendOk).1.slots = endSlot c.slots (c.ended index) := by
  unfold ended
  rw [dif_pos hin]
  dsimp only
  rcases c.tickAt_cases ⟨index, hin⟩ sendOk with
    ⟨hnot, heq⟩ | ⟨ha, hdue, hr, heq⟩ | ⟨ha, hdue, hr, heq⟩
  · rw [heq, if_neg]
    · rfl
    · rintro ⟨ha, hdue, -⟩
      exact absurd ((hnot ha).symm.trans hdue) (by decide)
  · rw [heq]
    show c.slots = endSlot c.slots _
    rw [if_neg]
    · rfl
    · rintro ⟨-, -, hout⟩
      exact hout hr
  · rw [heq, if_pos ⟨ha, hdue, hr⟩]
    rcases timeoutTrampoline_cases (c.freed ⟨index, hin⟩) (c.transactions ⟨index, hin⟩).token
      (c.transactions ⟨index, hin⟩).owner (.tick (index + 1)) with ⟨j, hj, ht⟩ | ⟨hnone, ht⟩
    · rw [ht, fireTimeout_eq, show c.findPendingByToken _ = some j from hj]
      rfl
    · rw [ht, fireTimeout_eq, show c.findPendingByToken _ = none from hnone]
      rfl

/-- So does the segment of the scan that comes to it. -/
theorem resume_tick_spec (c : Client cfg) (index : Nat) (sendOk : Bool) :
    (c.resume (.tick index) sendOk).1.slots = endSlot c.slots (c.ended index) ∧
      (c.resume (.tick index) sendOk).1.discovers = c.discovers := by
  rw [resume_tick]
  by_cases hin : index < cfg.maxTransactions
  · rw [dif_pos hin]
    obtain ⟨-, -, -, hd⟩ := c.tickAt_pool ⟨index, hin⟩ sendOk
    exact ⟨c.tickAt_slots hin sendOk, hd⟩
  · have hended : c.ended index = none := dif_neg hin
    rw [dif_neg hin, hended]
    exact ⟨rfl, rfl⟩

-- ===========================================================================
-- Where the code of `poll` can stand
-- ===========================================================================

/-- Before the callback of the dispatch. -/
def early : Cont cfg → Bool
  | .dispatch _ _ | .block1 _ | .block2 _ => true
  | _ => false

/-- What comes after the callback of the dispatch, one thing after the other. -/
def following : Cont cfg → Option (Cont cfg)
  | .close _ _ _ => some .expire
  | .expire => some (.tick 0)
  | .tick index => if index < cfg.maxTransactions then some (.tick (index + 1)) else none
  | _ => none

/-- The code stands there, or has returned. -/
def StandsAt : Option (Cont cfg) → Control cfg → Prop
  | some k, ctl => ∃ inCallback, ctl = .polling k inCallback
  | none, ctl => ctl = .idle

theorem following_tick (index : Nat) : following (.tick index : Cont cfg) =
    if index < cfg.maxTransactions then some (.tick (index + 1)) else none := rfl

/-- Behind a late segment there are late ones only. -/
theorem following_late {k k' : Cont cfg} (h : following k = some k') : early k' = false := by
  cases k with
  | dispatch | block1 | block2 | ret => cases h
  | close | expire =>
    obtain rfl := Option.some.inj h
    rfl
  | tick index =>
    rw [following_tick] at h
    split at h
    · obtain rfl := Option.some.inj h
      rfl
    · cases h

/-- After the dispatch the code goes on in one way, whatever the client holds. -/
theorem resume_late (c : Client cfg) {k : Cont cfg} (hk : early k = false) (sendOk : Bool) :
    (c.resume k sendOk).1.lastNowMs = c.lastNowMs ∧ (c.resume k sendOk).1.calls = c.calls ∧
      StandsAt (following k) (c.resume k sendOk).1.control := by
  cases k with
  | dispatch | block1 | block2 => cases hk
  | close i fragmented call =>
    show (c.close i fragmented).lastNowMs = _ ∧ (c.close i fragmented).calls = _ ∧ _
    rw [close_eq]
    exact ⟨rfl, rfl, false, rfl⟩
  | expire => exact ⟨rfl, rfl, false, rfl⟩
  | tick index =>
    rw [resume_tick, following_tick]
    by_cases hin : index < cfg.maxTransactions
    · obtain ⟨hctl, hnow, -, -⟩ := c.tickAt_pool ⟨index, hin⟩ sendOk
      rw [dif_pos hin, if_pos hin]
      exact ⟨hnow, (narrows_tickAt ..).calls, hctl⟩
    · rw [dif_neg hin, if_neg hin]
      exact ⟨rfl, rfl, rfl⟩
  | ret => exact ⟨rfl, rfl, rfl⟩

/-- After the last block of a fragmented response. -/
def fragments : Cont cfg → Bool
  | .close _ fragmented _ => fragmented
  | _ => false

/-- No callback runs before the dispatch, and a fragmented response is block-wise. -/
def Placed : Control cfg → Prop
  | .idle => True
  | .polling k inCallback =>
    (early k = true → inCallback = false) ∧ (fragments k = true → cfg.enableBlockwise = true)

/-- A late segment may stand inside a callback. -/
theorem placed_late {k : Cont cfg} (hk : early k = false) (hf : fragments k = false)
    (inCallback : Bool) : Placed (.polling k inCallback) :=
  ⟨fun h => absurd (hk.symm.trans h) (by decide), fun h => absurd (hf.symm.trans h) (by decide)⟩

/-- An early one stands outside. -/
theorem placed_early {k : Cont cfg} (hk : early k = true) : Placed (.polling k false) := by
  refine ⟨fun _ => rfl, fun h => ?_⟩
  cases k
  case close => cases hk
  all_goals cases h

/-- A timeout callback is called from a late segment. -/
theorem fireTimeout_placed (c : Client cfg) (call : Call) (ctx : Option Ref) {k : Cont cfg}
    (hk : early k = false) (hf : fragments k = false) :
    Placed (c.fireTimeout call ctx k).1.control := by
  rw [fireTimeout_eq]
  exact placed_late hk hf _

/-- So is a response callback; a request for a further block is sent outside of any. -/
theorem dispatchPending_placed (c : Client cfg) (i : Fin cfg.maxTransactions) (sender : Endpoint)
    (msg : Message) : Placed (c.dispatchPending i sender msg).1.control := by
  by_cases hb : cfg.enableBlockwise = true
  · obtain ⟨up, recv, -, -, hp⟩ := dispatchPending_cases c i sender msg
    rcases hp with ⟨-, -, hp⟩ | ⟨-, hp⟩ | ⟨res, fragmented, hp⟩
    · rw [hp]
      exact placed_early rfl
    · rw [hp]
      exact placed_early rfl
    · rw [hp, fireResponse_eq]
      exact ⟨nofun, fun _ => hb⟩
  · rw [dispatchPending, if_neg hb, handlePlain, fireResponse_eq]
    exact placed_late rfl rfl _

/-- **Every segment leads to a place** where the client can stand, so a run of segments is the
whole of `poll`. -/
theorem resume_placed (c : Client cfg) (k : Cont cfg) (sendOk : Bool) :
    Placed (c.resume k sendOk).1.control := by
  cases k with
  | dispatch sender msg =>
    show Placed (c.dispatchResponse sender msg).1.control
    rcases dispatchResponse_cases c sender msg with ⟨i, -, heq⟩ | ⟨i, -, -, heq⟩ | ⟨-, -, heq⟩
    · rw [heq]
      exact placed_late rfl rfl _
    · rw [heq]
      exact dispatchPending_placed ..
    · rw [heq]
      exact placed_late rfl rfl _
  | block1 i =>
    show Placed (c.continueUpload i sendOk).1.control
    rcases continueUpload_cases c i sendOk with ⟨-, id, heq⟩ | ⟨buf, -, heq⟩
    · rw [heq]
      exact fireTimeout_placed _ _ _ rfl rfl
    · rw [heq]
      exact placed_late rfl rfl _
  | block2 i =>
    rcases resumeBlock2_cases c i sendOk with ⟨-, heq⟩ | ⟨buf, -, heq⟩
    · rw [heq]
      exact placed_late rfl rfl _
    · rw [heq]
      exact placed_late rfl rfl _
  | close i fragmented call => exact placed_late rfl rfl _
  | expire => exact placed_late rfl rfl _
  | tick index =>
    -- the pass goes on to the next entry, or `poll` is over
    obtain ⟨-, -, hat⟩ := c.resume_late (k := .tick index) rfl sendOk
    rw [following_tick] at hat
    split at hat
    · obtain ⟨b, hctl⟩ := hat
      rw [hctl]
      exact placed_late rfl rfl _
    · rw [show (c.resume (.tick index) sendOk).1.control = .idle from hat]
      trivial
  | ret => trivial

/-- So does the beginning of a poll. -/
theorem poll_placed (c : Client cfg) (nowMs : UInt32) (rx : Option (Endpoint × Bytes)) :
    Placed (c.poll nowMs rx).1.control := by
  rcases poll_cases c nowMs rx with heq | ⟨sender, data, msg, -, -, heq⟩
  · rw [heq]
    exact placed_late rfl rfl _
  rw [heq]
  rcases handleMessage_cases (c.atTime nowMs) sender msg with ⟨-, hm⟩ | ⟨c', -, hm | hm⟩
  · rw [hm]
    rcases handleReset_cases (c.atTime nowMs) sender msg.messageId with heq | ⟨t, i, -, -, heq⟩
    · rw [heq]
      exact placed_late rfl rfl _
    · rw [heq]
      exact fireTimeout_placed _ _ _ rfl rfl
  · rw [hm]
    exact placed_early rfl
  · rw [hm]
    exact placed_late rfl rfl _

end Client

namespace Reentry

open Client (early Placed endSlot closedSlot)

-- ===========================================================================
-- Steps
-- ===========================================================================

/-- A callback makes a call. -/
def called (w : Reentry cfg) (sendOk : Bool) (call : ClientCall) : Reentry cfg :=
  let c := (w.client.call sendOk call).1
  { w with
    client := c
    grants :=
      if h : (w.client.call sendOk call).2.1 = true then ⟨w.client, call, sendOk, h⟩ :: w.grants
      else w.grants
    touched := fun i => w.touched i || decide (c.slots i ≠ w.client.slots i)
    touchedDiscover := fun i =>
      w.touchedDiscover i || decide (c.discovers i ≠ w.client.discovers i) }

/-- One step of the client. The code of `poll` goes on in both, and calls from a callback are
made in the one only. -/
def step (w : Reentry cfg) (a : Client.Action) : Reentry cfg :=
  match w.client.control with
  | .idle =>
    -- between two polls there is nothing to compare
    { client := (w.client.step a).1, alone := (w.client.step a).1 }
  | .polling _ inCallback =>
    match a with
    | .call call sendOk => if inCallback then w.called sendOk call else w
    | .resume sendOk =>
      { w with client := (w.client.step (.resume sendOk)).1
               alone := (w.alone.step (.resume sendOk)).1 }
    | .poll _ _ => w

/-- The machine puts out every state it comes to. -/
def machine (cfg : Config) : Machine (Reentry cfg) Client.Action (Reentry cfg) where
  init := {}
  next w a := (w.step a, [w.step a])

/-- **The requests of the callbacks are kept**: each call that returned true owns its slot, and
what no callback touched is as `poll` alone leaves it. -/
structure Keeps (w : Reentry cfg) : Prop where
  owned     : ∀ g ∈ w.grants, g.Owns w.client
  slots     : ∀ i, w.touched i = false → w.client.slots i = w.alone.slots i
  discovers : ∀ i, w.touchedDiscover i = false → w.client.discovers i = w.alone.discovers i

/-- A call of a callback has taken slot `i`. -/
def Granted (w : Reentry cfg) (i : Fin cfg.maxTransactions) : Prop :=
  ∃ g ∈ w.grants, g.slot = some i

/-- **The next step does not take away** what a callback was given, nor an untouched slot that
`poll` alone would have left. -/
def Safe (w : Reentry cfg) : Client.Action → Prop
  | .call call _ =>
    ∀ k, w.client.control = .polling k true → ∀ i, w.client.Cancels call i → ¬ w.Granted i
  | .poll _ _ => True
  | .resume _ =>
    match w.client.control with
    | .polling (.close i _ _) _ => w.Granted i → (w.client.slots i).pending.observing = true
    | .polling .expire _ => (∃ g ∈ w.grants, g.isDiscover = true) → 0 < cfg.discoverTimeoutMs
    | .polling (.tick index) _ =>
      (∀ i, w.client.ended index = some i → ¬ w.Granted i) ∧
        ∀ i, w.touched i = false →
          (w.client.ended index = some i ↔ w.alone.ended index = some i)
    | _ => True

-- ===========================================================================
-- Where the two stand
-- ===========================================================================

/-- Both stand at the same place of the same `poll`, and are one client before its dispatch. -/
structure Inv (w : Reentry cfg) : Prop where
  placed  : Placed w.client.control
  clock   : w.alone.lastNowMs = w.client.lastNowMs
  control : ∀ k b, w.client.control = .polling k b → ∃ b', w.alone.control = .polling k b'
  early   : ∀ k b, w.client.control = .polling k b → early k = true →
    w.alone = w.client ∧ w.grants = []
  calls   : ∀ g ∈ w.grants, ∀ i, g.slot = some i → g.before.calls < w.client.calls
  now     : ∀ g ∈ w.grants, g.before.lastNowMs = w.client.lastNowMs

/-- Outside `poll` there is nothing to compare with. -/
theorem step_idle {w : Reentry cfg} (hc : w.client.control = .idle) (a : Client.Action) :
    w.step a = { client := (w.client.step a).1, alone := (w.client.step a).1 } := by
  simp only [step, hc]

/-- A call from inside a callback is made in one of the two runs. -/
theorem step_call {w : Reentry cfg} {k : Cont cfg} (hc : w.client.control = .polling k true)
    (call : ClientCall) (sendOk : Bool) : w.step (.call call sendOk) = w.called sendOk call := by
  simp only [step, hc, if_true]

/-- The code of `poll` going on in both. -/
def resumed (w : Reentry cfg) (k : Cont cfg) (sendOk : Bool) : Reentry cfg :=
  { w with client := (w.client.resume k sendOk).1, alone := (w.alone.resume k sendOk).1 }

/-- `poll` goes on in both runs alike. -/
theorem Inv.step_resume {w : Reentry cfg} (v : Inv w) {k : Cont cfg} {b : Bool}
    (hc : w.client.control = .polling k b) (sendOk : Bool) :
    w.step (.resume sendOk) = w.resumed k sendOk := by
  obtain ⟨b', halone⟩ := v.control k b hc
  simp only [step, hc, resumed, Client.step_resume hc, Client.step_resume halone]

/-- A new poll, or a call between two polls. -/
theorem inv_fresh {c : Client cfg} (hc : Placed c.control) :
    Inv ({ client := c, alone := c } : Reentry cfg) where
  placed := hc
  clock := rfl
  control _ b h := ⟨b, h⟩
  early _ _ _ _ := ⟨rfl, rfl⟩
  calls _ h := nomatch h
  now _ h := nomatch h

/-- Such a call keeps the two runs together, but for what it registers itself. -/
theorem Inv.called {w : Reentry cfg} (v : Inv w) {k : Cont cfg}
    (hc : w.client.control = .polling k true) (sendOk : Bool) (call : ClientCall) :
    Inv (w.called sendOk call) := by
  have hkeeps := w.client.call_keeps sendOk call
  have hctl : (w.client.call sendOk call).1.control = w.client.control :=
    (w.client.call_quiet sendOk call).2
  have hgrants : ∀ g ∈ (w.called sendOk call).grants, g ∈ w.grants ∨
      g.before = w.client ∧ g.after = (w.client.call sendOk call).1 := by
    intro g hg
    unfold Reentry.called at hg
    dsimp only at hg
    split at hg
    · rcases List.mem_cons.1 hg with rfl | hg
      · exact .inr ⟨rfl, rfl⟩
      · exact .inl hg
    · exact .inl hg
  refine ⟨?_, v.clock.trans hkeeps.lastNowMs.symm, ?_, ?_, ?_, ?_⟩
  · show Placed (w.client.call sendOk call).1.control
    rw [hctl]
    exact v.placed
  · intro k' b h
    exact v.control k' b (hctl.symm.trans h)
  · intro k' b h hk
    -- no callback runs as early as this
    have hk' := v.placed
    obtain ⟨rfl, rfl⟩ := Control.polling.inj (hc.symm.trans (hctl.symm.trans h))
    rw [hc] at hk'
    cases hk'.1 hk
  · intro g hg i hi
    rcases hgrants g hg with hold | ⟨hbefore, hafter⟩
    · exact (v.calls g hold i hi).trans_le hkeeps.calls
    · rcases g.takes with ⟨j, s, ht⟩ | ⟨j, d, ht⟩ | ⟨hnone, -, -⟩
      · have hcalls := ht.calls
        rw [hafter] at hcalls
        show g.before.calls < (w.client.call sendOk call).1.calls
        omega
      · cases ht.slot.symm.trans hi
      · cases hnone.symm.trans hi
  · intro g hg
    rcases hgrants g hg with hold | ⟨hbefore, -⟩
    · exact (v.now g hold).trans hkeeps.lastNowMs.symm
    · rw [hbefore]
      exact hkeeps.lastNowMs.symm

/-- So does what `poll` does behind the callback. -/
theorem Inv.resumed {w : Reentry cfg} (v : Inv w) {k : Cont cfg} {b : Bool}
    (hc : w.client.control = .polling k b) (sendOk : Bool) : Inv (w.resumed k sendOk) := by
  have hplaced := w.client.resume_placed k sendOk
  cases hk : Client.early k with
  | true =>
    -- no callback has run yet, so the two clients are the same
    obtain ⟨halone, hgrants⟩ := v.early k b hc hk
    unfold Reentry.resumed
    rw [halone, hgrants]
    exact ⟨hplaced, rfl, fun _ b h => ⟨b, h⟩, fun _ _ _ _ => ⟨rfl, rfl⟩, (fun _ h => nomatch h),
      fun _ h => nomatch h⟩
  | false =>
    -- the two clients walk the rest of `poll` in step
    obtain ⟨hnow, hcalls, hat⟩ := w.client.resume_late hk sendOk
    obtain ⟨hnow', -, hat'⟩ := w.alone.resume_late hk sendOk
    have hfollow : ∀ {k' b'}, (w.client.resume k sendOk).1.control = .polling k' b' →
        Client.following k = some k' := by
      intro k' b' h
      cases hf : Client.following k with
      | none =>
        rw [hf] at hat
        cases h.symm.trans hat
      | some k'' =>
        rw [hf] at hat
        obtain ⟨b'', hat⟩ := hat
        cases h.symm.trans hat
        rfl
    refine ⟨hplaced, (hnow'.trans v.clock).trans hnow.symm, ?_, ?_, ?_, ?_⟩
    · intro k' b' h
      rw [hfollow h] at hat'
      exact hat'
    · intro k' b' h hearly
      cases (Client.following_late (hfollow h)).symm.trans hearly
    · intro g hg i hi
      exact (v.calls g hg i hi).trans_le hcalls.ge
    · intro g hg
      exact (v.now g hg).trans hnow.symm

/-- The invariant is kept by every step. -/
theorem Inv.step {w : Reentry cfg} (v : Inv w) (a : Client.Action) : Inv (w.step a) := by
  cases hc : w.client.control with
  | idle =>
    -- each `poll` starts a new comparison
    rw [step_idle hc]
    refine inv_fresh ?_
    rcases w.client.step_cases a with heq | ⟨call, sendOk, -, -, heq⟩ | ⟨nowMs, rx, -, -, heq⟩ |
      ⟨sendOk, k, b, -, hpoll, -⟩
    · rw [heq]
      exact v.placed
    · rw [heq]
      show Placed (w.client.call sendOk call).1.control
      rw [(w.client.call_quiet sendOk call).2]
      exact v.placed
    · rw [heq]
      exact Client.poll_placed ..
    · cases hc.symm.trans hpoll
  | polling k b =>
    cases a with
    | call call sendOk =>
      cases b with
      | true =>
        rw [step_call hc]
        exact v.called hc sendOk call
      | false =>
        -- outside a callback the application cannot call in
        have hsame : w.step (.call call sendOk) = w := by
          simp only [Reentry.step, hc, Bool.false_eq_true, if_false]
        rw [hsame]
        exact v
    | resume sendOk =>
      rw [v.step_resume hc]
      exact v.resumed hc sendOk
    | poll nowMs rx =>
      have hsame : w.step (.poll nowMs rx) = w := by simp only [Reentry.step, hc]
      rw [hsame]
      exact v

-- ===========================================================================
-- One step
-- ===========================================================================

/-- A call of a callback. -/
theorem called_keeps_iff {w : Reentry cfg} (v : Inv w) (h : Keeps w) (sendOk : Bool)
    (call : ClientCall) :
    Keeps (w.called sendOk call) ↔ ∀ i, w.client.Cancels call i → ¬ w.Granted i := by
  have hkeeps := w.client.call_keeps sendOk call
  refine ⟨fun h' i hi => ?_, fun hsafe => ⟨fun g hg => ?_, fun i hi => ?_, fun i hi => ?_⟩⟩
  · rintro ⟨g, hg, hslot⟩
    have hmem : g ∈ (w.called sendOk call).grants := by
      unfold called
      dsimp only
      split
      · exact List.mem_cons_of_mem _ hg
      · exact hg
    -- the slot is free now, or a newer call has it
    obtain ⟨hactive, hid, -⟩ := (h'.owned g hmem).slot hslot
    have hlt := v.calls g hg i hslot
    rcases hkeeps.cancelled i hi with hfree | hnew
    · exact absurd (hactive.symm.trans hfree) (by decide)
    · exact absurd (hid.symm.trans hnew) (by omega)
  · have hold : ∀ g ∈ w.grants, g.Owns (w.client.call sendOk call).1 := by
      intro g hg
      refine (h.owned g hg).same (fun i hi => ?_) fun _ i hi _ => hkeeps.discovers i hi
      exact hkeeps.slots i ((h.owned g hg).slot hi).1 fun hcancel => hsafe i hcancel ⟨g, hg, hi⟩
    show g.Owns (w.client.call sendOk call).1
    unfold called at hg
    dsimp only at hg
    split at hg
    · rename_i hacc
      rcases List.mem_cons.1 hg with rfl | hg
      · exact Grant.owns_after _
      · exact hold g hg
    · exact hold g hg
  · simp only [called, Bool.or_eq_false_iff, decide_eq_false_iff_not, not_not] at hi
    exact hi.2.trans (h.slots i hi.1)
  · simp only [called, Bool.or_eq_false_iff, decide_eq_false_iff_not, not_not] at hi
    exact hi.2.trans (h.discovers i hi.1)

/-- Before the dispatch the two are one client. -/
theorem keeps_early {w : Reentry cfg} (v : Inv w) {k : Cont cfg} {b : Bool}
    (hc : w.client.control = .polling k b) (hk : early k = true) (sendOk : Bool) :
    Keeps (w.resumed k sendOk) := by
  obtain ⟨halone, hgrants⟩ := v.early k b hc hk
  unfold resumed
  rw [halone, hgrants]
  exact ⟨(fun _ h => nomatch h), fun _ _ => rfl, fun _ _ => rfl⟩

/-- Closing the slot whose response was delivered. -/
theorem keeps_close_iff {w : Reentry cfg} (v : Inv w) (h : Keeps w)
    {i : Fin cfg.maxTransactions} {fragmented : Bool} {call : Call} {b : Bool}
    (hc : w.client.control = .polling (.close i fragmented call) b) (sendOk : Bool) :
    Keeps (w.resumed (.close i fragmented call) sendOk) ↔
      (w.Granted i → (w.client.slots i).pending.observing = true) := by
  obtain ⟨hclient, hdisc⟩ := w.client.resume_close i fragmented call sendOk
  obtain ⟨halone, hdisc'⟩ := w.alone.resume_close i fragmented call sendOk
  refine ⟨?_, fun hobs => ⟨fun g hg => ?_, fun j hj => ?_, fun j hj => ?_⟩⟩
  · -- a request that took the slot is closed with it, unless it observes
    rintro h' ⟨g, hg, hslot⟩
    obtain ⟨hactive, -, -⟩ := (h'.owned g hg).slot hslot
    by_contra hno
    simp [resumed, hclient, closedSlot, hno] at hactive
  · refine (h.owned g hg).same (fun j hj => ?_) fun _ j _ _ => congrFun hdisc j
    show (w.client.resume (.close i fragmented call) sendOk).1.slots j = _
    rw [hclient]
    by_cases hji : j = i
    · subst hji
      obtain ⟨-, -, hrecv⟩ := (h.owned g hg).slot hj
      -- it is not fragmented, so that its receive state stays
      have hplaced := v.placed
      rw [hc] at hplaced
      rw [Table.set_self]
      exact Client.closedSlot_observing (hobs ⟨g, hg, hj⟩) fun hf => hrecv (hplaced.2 hf)
    · exact Table.set_ne _ _ hji
  · show (w.client.resume _ sendOk).1.slots j = (w.alone.resume _ sendOk).1.slots j
    rw [hclient, halone]
    have hsame := h.slots j hj
    by_cases hji : j = i
    · subst hji
      rw [Table.set_self, Table.set_self, hsame]
    · rw [Table.set_ne _ _ hji, Table.set_ne _ _ hji, hsame]
  · exact (congrFun hdisc j).trans ((h.discovers j hj).trans (congrFun hdisc' j).symm)

/-- The expiry of the discoveries: one of a callback of this `poll` is new. -/
theorem keeps_expire_iff {w : Reentry cfg} (v : Inv w) (h : Keeps w) (sendOk : Bool) :
    Keeps (w.resumed .expire sendOk) ↔
      ((∃ g ∈ w.grants, g.isDiscover = true) → 0 < cfg.discoverTimeoutMs) := by
  -- `poll` expires what is at least as old as the timeout, in milliseconds
  refine ⟨?_, fun hpos => ⟨fun g hg => ?_, h.slots, fun j hj => ?_⟩⟩
  · -- with a timeout of 0 a discovery of this `poll` is over at once
    rintro h' ⟨g, hg, hd⟩
    obtain ⟨i, hactive, hat, howns⟩ := (h.owned g hg).discover hd
    have hsame : (w.client.resume .expire sendOk).1.discovers i = w.client.discovers i :=
      (howns _).1 (h'.owned g hg)
    by_contra hno
    have hzero : cfg.discoverTimeoutMs = 0 := by
      rw [UInt32.lt_iff_toNat_lt] at hno
      exact UInt32.toNat_inj.1 (by simpa using hno)
    have hexp : (w.client.resume .expire sendOk).1.discovers i =
        { w.client.discovers i with active := false } := by
      refine if_pos ⟨hactive, ?_⟩
      rw [hzero]
      exact UInt32.zero_le
    rw [hexp] at hsame
    rw [← hsame] at hactive
    cases hactive
  · -- otherwise it is as old as the clock
    refine (h.owned g hg).same (fun _ _ => rfl) fun hd i hactive hat => if_neg ?_
    rintro ⟨-, hlate⟩
    rw [hat, v.now g hg, UInt32.sub_self] at hlate
    have hpos := hpos ⟨g, hg, hd⟩
    rw [UInt32.lt_iff_toNat_lt] at hpos
    rw [ge_iff_le, UInt32.le_iff_toNat_le] at hlate
    simp at hlate hpos
    omega
  · show (if _ then _ else _) = (if _ then _ else _)
    rw [v.clock, h.discovers j hj]

/-- One pass of the scan. -/
theorem keeps_tick_iff {w : Reentry cfg} (h : Keeps w) (index : Nat) (sendOk : Bool) :
    Keeps (w.resumed (.tick index) sendOk) ↔
      (∀ i, w.client.ended index = some i → ¬ w.Granted i) ∧
        ∀ i, w.touched i = false →
          (w.client.ended index = some i ↔ w.alone.ended index = some i) := by
  obtain ⟨hclient, hdisc⟩ := w.client.resume_tick_spec index sendOk
  obtain ⟨halone, hdisc'⟩ := w.alone.resume_tick_spec index sendOk
  refine ⟨fun h' => ⟨?_, fun i hi => ?_⟩, fun ⟨hgrant, hiff⟩ => ⟨fun g hg => ?_, fun i hi => ?_,
    fun i hi => ?_⟩⟩
  · rintro i hended ⟨g, hg, hslot⟩
    obtain ⟨hactive, -, -⟩ := (h'.owned g hg).slot hslot
    simp [resumed, hclient, Client.endSlot_apply, hended] at hactive
  · have hsame := h.slots i hi
    have hnext : (w.client.resume (.tick index) sendOk).1.slots i =
      (w.alone.resume (.tick index) sendOk).1.slots i := h'.slots i hi
    rw [hclient, halone, Client.endSlot_apply, Client.endSlot_apply, ← hsame] at hnext
    -- a slot that only one of the two ends is active in the other
    refine ⟨fun hended => ?_, fun hended => ?_⟩
    · by_contra hno
      have hactive := Client.ended_active hended
      rw [if_pos hended, if_neg hno] at hnext
      rw [← hnext] at hactive
      cases hactive
    · by_contra hno
      have hactive := Client.ended_active hended
      rw [if_neg hno, if_pos hended] at hnext
      rw [← hsame, hnext] at hactive
      cases hactive
  · refine (h.owned g hg).same (fun i hi => ?_) fun _ i _ _ => congrFun hdisc i
    show (w.client.resume (.tick index) sendOk).1.slots i = _
    rw [hclient, Client.endSlot_apply, if_neg fun hended => hgrant i hended ⟨g, hg, hi⟩]
  · show (w.client.resume _ sendOk).1.slots i = (w.alone.resume _ sendOk).1.slots i
    rw [hclient, halone, Client.endSlot_apply, Client.endSlot_apply, h.slots i hi]
    simp only [hiff i hi]
  · exact (congrFun hdisc i).trans ((h.discovers i hi).trans (congrFun hdisc' i).symm)

/-- **One step** keeps the requests of the callbacks exactly when it is safe. The two clients,
the one with the callbacks and the one whose callbacks do nothing, are compared slot by slot. -/
theorem step_keeps_iff {w : Reentry cfg} (v : Inv w) (h : Keeps w) (a : Client.Action) :
    Keeps (w.step a) ↔ w.Safe a := by
  cases hc : w.client.control with
  | idle =>
    rw [step_idle hc]
    refine iff_of_true ⟨(fun _ h => nomatch h), fun _ _ => rfl, fun _ _ => rfl⟩ ?_
    cases a with
    | call call sendOk =>
      intro k hk
      cases hc.symm.trans hk
    | poll nowMs rx => trivial
    | resume sendOk => simp only [Safe, hc]
  | polling k b =>
    cases a with
    | call call sendOk =>
      cases b with
      | true =>
        rw [step_call hc, called_keeps_iff v h]
        exact ⟨fun hsafe _ _ => hsafe, fun hsafe => hsafe k hc⟩
      | false =>
        have hsame : w.step (.call call sendOk) = w := by
          simp only [step, hc, Bool.false_eq_true, if_false]
        rw [hsame]
        refine iff_of_true h fun k' hk => ?_
        cases hc.symm.trans hk
    | poll nowMs rx =>
      have hsame : w.step (.poll nowMs rx) = w := by simp only [step, hc]
      rw [hsame]
      exact iff_of_true h trivial
    | resume sendOk =>
      rw [v.step_resume hc]
      unfold Safe
      rw [hc]
      -- before the callback nothing can be lost, and `Safe` asks for nothing
      cases k with
      | dispatch sender msg => exact iff_of_true (keeps_early v hc rfl sendOk) trivial
      | block1 i => exact iff_of_true (keeps_early v hc rfl sendOk) trivial
      | block2 i => exact iff_of_true (keeps_early v hc rfl sendOk) trivial
      | close i fragmented call => exact keeps_close_iff v h hc sendOk
      | expire => exact keeps_expire_iff v h sendOk
      | tick index => exact keeps_tick_iff h index sendOk
      | ret => exact iff_of_true ⟨h.owned, h.slots, h.discovers⟩ trivial

-- ===========================================================================
-- Runs
-- ===========================================================================

/-- The client of the pair is the client on its own. -/
theorem step_client (w : Reentry cfg) (a : Client.Action) :
    (w.step a).client = (w.client.step a).1 := by
  cases hc : w.client.control with
  | idle => rw [step_idle hc]
  | polling k b =>
    cases a with
    | call call sendOk => cases b <;> simp [step, hc, Client.step, Client.appHasControl, called]
    | resume sendOk => simp only [step, hc]
    | poll nowMs rx => simp only [step, hc, Client.step]

/-- **Callbacks keep their requests** in the runs, and only in these, whose steps are all safe.
What the callbacks call, and how often, is left open. -/
theorem keeps_iff (cfg : Config) (as : List Client.Action) :
    (∀ w ∈ ((machine cfg).exec [] {} as).1, Keeps w) ↔ (machine cfg).Meets Safe {} as := by
  have hinit : Inv ({} : Reentry cfg) ∧ Keeps ({} : Reentry cfg) :=
    ⟨inv_fresh trivial, (fun _ h => nomatch h), fun _ _ => rfl, fun _ _ => rfl⟩
  have h := (machine cfg).exec_forall_iff (Q := Keeps) (P := Safe) (I := fun w => Inv w ∧ Keeps w)
    (fun w a hw hsafe => ⟨hw.1.step a, (step_keeps_iff hw.1 hw.2 a).2 hsafe⟩)
    (fun w a hw => List.forall_mem_singleton.trans (step_keeps_iff hw.1 hw.2 a)) as [] {} hinit
  exact h.trans (and_iff_right fun _ h => nomatch h)

/-- A subscription to `/a` whose first response arrives, and a callback that cancels it; the
deregistration gets the slot just given back. -/
def demoCancel : List Client.Action :=
  [.call (.observe default [0x2F, 0x61] (some 7) none) true,
    .poll 0 (some (default, [0x61, 0x45, 0x00, 0x01, 0x01, 0xFF, 0x2A])), .resume true,
    .call (.cancelObserve default [0x2F, 0x61]) true, .resume true, .resume true, .resume true,
    .resume true, .resume true, .resume true, .resume true]

/-- When that `poll` returns, the deregistration has no slot. -/
theorem not_keeps :
    ∃ w ∈ ((machine Config.default).exec [] {} demoCancel).1, w.client.control = .idle ∧
      ¬ Keeps w := by
  have hlost : ∃ w ∈ ((machine Config.default).exec [] {} demoCancel).1,
      w.client.control = .idle ∧ ∃ g ∈ w.grants, g.slot = some ⟨0, by decide⟩ ∧
        (w.client.slots ⟨0, by decide⟩).pending.active = false := by
    decide +kernel
  obtain ⟨w, hw, hidle, g, hg, hslot, hfree⟩ := hlost
  refine ⟨w, hw, hidle, fun h => ?_⟩
  obtain ⟨hactive, -, -⟩ := (h.owned g hg).slot hslot
  exact absurd (hactive.symm.trans hfree) (by decide)

end Reentry

end PulseCoap
