import PulseCoap.Client.Correlation

/-!
# PulseCoAP — calls that return false

A call can fail for want of a slot, at the path, at `encode` and at
`Transport::send`, in the middle of its work on the tables. What it has
allocated by then it gives back, but what it had given back before it failed
stays so: `cancelObserve` releases the subscription first and sends then, and an
upload writes the block states of its slot before it looks at the path.

Inactive entries are not compared: a slot that is taken and given back keeps
what was written to it, which nothing reads before the slot is taken again. The
counters are not compared either, since a call that fails at `send` has drawn a
message ID and a token.

* `failed_call_iff` — a failed call leaves every active entry as it was exactly
  when it is no `cancelObserve` that has found its subscription and no upload
  into a slot whose block states were left active.
* `SameEntries` — the active entries are the same, in all tables.
* `CleanSlot`, `KeepsUntilSent` — the two parts of the condition.
-/

namespace PulseCoap

namespace Client

variable {cfg : Config}

open TransactionPool

/-- Of two states of a slot the active entries are the same, with all they
contain. -/
structure SameSlot (s s' : ClientSlot) : Prop where
  pending : s.pending.active = true ∨ s'.pending.active = true → s'.pending = s.pending
  upload  : s.upload.active = true ∨ s'.upload.active = true → s'.upload = s.upload
  recv    : s.recv.active = true ∨ s'.recv.active = true → s'.recv = s.recv

/-- The active entries of all tables are the same. -/
structure SameEntries (c c' : Client cfg) : Prop where
  slots        : ∀ i, SameSlot (c.slots i) (c'.slots i)
  discovers    : ∀ i, (c.discovers i).active = true ∨ (c'.discovers i).active = true →
    c'.discovers i = c.discovers i
  transactions : ∀ i, Awaiting (c.transactions i) ∨ Awaiting (c'.transactions i) →
    c'.transactions i = c.transactions i

/-- The slot an upload takes has no block state left active that the upload
overwrites before it can fail. -/
def CleanSlot (c : Client cfg) (a : RequestArgs) : Prop :=
  ∀ i, c.freeSlot = some i → (c.slots i).upload.active = false ∧
    (a.path.length < cfg.maxUriPathLen → (c.slots i).recv.active = false)

/-- The call gives nothing back before it can fail. -/
def KeepsUntilSent (c : Client cfg) : CallShape → Prop
  | .issue a => a.blockwise cfg = true → c.CleanSlot a
  | .cancel server path => c.findObserve server path = none
  | .discover _ _ _ => True
  | .handler _ => True

theorem SameSlot.refl (s : ClientSlot) : SameSlot s s := ⟨fun _ => rfl, fun _ => rfl, fun _ => rfl⟩

theorem SameEntries.refl (c : Client cfg) : SameEntries c c :=
  ⟨fun _ => SameSlot.refl _, fun _ _ => rfl, fun _ _ => rfl⟩

/-- Only one slot and the counters differ. -/
theorem sameEntries_set {c : Client cfg} {i : Fin cfg.maxTransactions} {s : ClientSlot}
    {token : UInt8} {id : UInt16} :
    SameEntries c { c with
        slots := c.slots.set i s, nextTokenByte := token, nextMessageId := id } ↔
      SameSlot (c.slots i) s := by
  constructor
  · intro h
    have hslot : SameSlot (c.slots i) (c.slots.set i s i) := h.slots i
    rwa [Table.set_self] at hslot
  · intro h
    refine ⟨fun j => ?_, fun _ _ => rfl, fun _ _ => rfl⟩
    show SameSlot (c.slots j) (c.slots.set i s j)
    by_cases hj : j = i
    · subst hj
      rwa [Table.set_self]
    · rw [Table.set_ne _ _ hj]
      exact SameSlot.refl _

/-! ## Requests -/

/-- A slot that `sendRequest` gives back was free, and its block states are not
touched. -/
theorem sendRequest_failed {c : Client cfg} {a : RequestArgs} {sendOk : Bool}
    (hfail : (c.sendRequest a sendOk).2.1 = false) : SameEntries c (c.sendRequest a sendOk).1 := by
  rcases sendRequest_cases c a sendOk with ⟨-, hr⟩ | ⟨i, hf, -, hr⟩ | ⟨i, buf, -, -, hr⟩
  · rw [hr]
    exact SameEntries.refl c
  · rw [hr]
    refine sameEntries_set.2 ⟨fun h => ?_, fun _ => rfl, fun _ => rfl⟩
    rw [freeSlot_spec hf] at h
    rcases h with h | h <;> cases h
  · rw [hr] at hfail
    cases hfail

/-- What an upload that failed has done to its slot. -/
theorem sameSlot_refused {old : ClientSlot} (hfree : old.pending.active = false) (a : RequestArgs)
    (token : UInt8) (call : Call) :
    SameSlot old (refusedSlot cfg old a token call) ↔
      old.upload.active = false ∧ (a.path.length < cfg.maxUriPathLen → old.recv.active = false) := by
  have hpending : old.pending.active = true ∨
      (refusedSlot cfg old a token call).pending.active = true →
      (refusedSlot cfg old a token call).pending = old.pending := by
    rw [hfree]
    rintro (h | h) <;> cases h
  have hupload : (refusedSlot cfg old a token call).upload.active = false := rfl
  -- the path is checked before the receive state is reset
  have hrecv : (refusedSlot cfg old a token call).recv =
      if a.path.length < cfg.maxUriPathLen then { old.recv with active := false } else old.recv := by
    by_cases hp : a.path.length < cfg.maxUriPathLen
    · rw [refusedSlot, if_neg (by omega), if_pos hp]
      rfl
    · rw [refusedSlot, if_pos (by omega), if_neg hp]
      rfl
  constructor
  · rintro ⟨-, hu, hr⟩
    refine ⟨?_, fun hp => ?_⟩
    · by_contra hold
      have heq := hu (.inl (Bool.eq_true_of_not_eq_false hold))
      rw [← heq] at hold
      exact hold hupload
    · by_contra hold
      have heq := hr (.inl (Bool.eq_true_of_not_eq_false hold))
      rw [hrecv, if_pos hp] at heq
      rw [← heq] at hold
      exact hold rfl
  · rintro ⟨hu, hr⟩
    refine ⟨hpending, fun h => ?_, fun h => ?_⟩
    · rw [hu, hupload] at h
      rcases h with h | h <;> cases h
    · rw [hrecv] at h ⊢
      split at h
      · rename_i hp
        rw [hr hp] at h
        rcases h with h | h <;> cases h
      · rename_i hp
        rw [if_neg hp]

theorem startUpload_failed_iff {c : Client cfg} {a : RequestArgs} {sendOk : Bool}
    (hfail : (c.startUpload a sendOk).2.1 = false) :
    SameEntries c (c.startUpload a sendOk).1 ↔ c.CleanSlot a := by
  rcases startUpload_cases c a sendOk with ⟨hf, hr⟩ | ⟨i, id, hf, -, hr⟩ | ⟨i, buf, -, -, hr⟩
  · rw [hr]
    refine iff_of_true (SameEntries.refl c) fun j hj => ?_
    rw [hf] at hj
    cases hj
  · rw [hr]
    refine sameEntries_set.trans ((sameSlot_refused (freeSlot_spec hf) a _ _).trans ?_)
    constructor
    · intro h j hj
      rw [hf] at hj
      cases hj
      exact h
    · exact fun h => h i hf
  · rw [hr] at hfail
    cases hfail

/-! ## All calls -/

/-- A subscription that was released before the call failed is gone. -/
theorem cancel_lost {c : Client cfg} {server : Endpoint} {path : Bytes} {sendOk : Bool}
    {i : Fin cfg.maxTransactions} (hfind : c.findObserve server path = some i)
    (hfail : (c.cancelObserve server path sendOk).2.1 = false) :
    ¬ SameEntries c (c.cancelObserve server path sendOk).1 := by
  have hactive := (findObserve_spec hfind).1
  have heq : c.cancelObserve server path sendOk =
      (c.release i).issue (deregisterArgs server path (c.slots i).pending) sendOk := by
    refine (call_eq c sendOk (.cancelObserve server path)).trans ?_
    simp only [ClientCall.shape, hfind]
  have hreleased : ((c.release i).slots i).pending.active = false := by
    rw [release, setPending]
    simp only [Table.set_self]
  intro hsame
  have hkept := (hsame.slots i).pending (.inl hactive)
  have hblock := deregister_blockwise cfg server path (c.slots i).pending
  rw [heq] at hfail hkept
  rcases issue_cases (c.release i) (deregisterArgs server path (c.slots i).pending) sendOk
      (fun h => by rw [hblock] at h; cases h) with ⟨-, c', hrefused, hr⟩ | ⟨-, j, s, buf, -, -, -, hr⟩
  · rw [hr] at hkept
    -- the slot is free before the request and after it
    rcases hrefused.slots i with hslot | ⟨-, hslot⟩
    · rw [hslot] at hkept
      rw [← hkept, hreleased] at hactive
      cases hactive
    · rw [← hkept, hslot] at hactive
      cases hactive
  · rw [hr] at hfail
    cases hfail

/-- **Failed calls.** In every state, a call that returns false leaves the active entries of all
tables as they were if and only if it gave nothing back before it failed. Two paths of the
source give something back: `cancelObserve` frees the slot of its subscription before it sends,
and a block-wise upload writes over what an earlier request has left in its slot. -/
theorem failed_call_iff {c : Client cfg} {call : ClientCall} {sendOk : Bool}
    (hfail : (c.call sendOk call).2.1 = false) :
    SameEntries c (c.call sendOk call).1 ↔ c.KeepsUntilSent call.shape := by
  have heq := call_eq c sendOk call
  cases hshape : call.shape with
  | issue a =>
    simp only [hshape] at heq
    rw [heq, issue] at hfail ⊢
    -- only an upload writes to its slot before it sends
    by_cases hb : a.blockwise cfg = true
    · rw [if_pos hb] at hfail ⊢
      exact (startUpload_failed_iff hfail).trans ⟨fun h _ => h, fun h => h hb⟩
    · rw [if_neg hb] at hfail ⊢
      exact iff_of_true (sendRequest_failed hfail) fun h => absurd h hb
  | cancel server path =>
    have hcall : call = .cancelObserve server path := by
      cases call <;> cases hshape
      rfl
    subst hcall
    cases hfind : c.findObserve server path with
    | none =>
      have hr : c.call sendOk (.cancelObserve server path) = (c, false, []) := by
        simp only [heq, ClientCall.shape, hfind]
      rw [hr]
      exact iff_of_true (SameEntries.refl c) hfind
    | some i =>
      -- the subscription is released before the request that cancels it
      refine iff_of_false (cancel_lost hfind hfail) fun h => ?_
      cases hfind.symm.trans h
  | discover ep onDiscover userContext =>
    simp only [hshape] at heq
    refine iff_of_true ?_ trivial
    rcases discover_cases c ep onDiscover userContext sendOk with ⟨token, id, hr, -⟩ |
      ⟨i, buf, -, -, hr⟩
    · rw [heq, hr]
      exact ⟨fun _ => SameSlot.refl _, fun _ _ => rfl, fun _ _ => rfl⟩
    · rw [heq, hr] at hfail
      cases hfail
  | handler h =>
    simp only [hshape] at heq
    rw [heq] at hfail
    cases hfail

/-- A `get` whose datagram the transport does not take. -/
theorem failed_call_iff_get :
    (observing.call false (.get localServer pathA none none true)).2.1 = false ∧
      (SameEntries observing (observing.call false (.get localServer pathA none none true)).1 ↔
        observing.KeepsUntilSent (ClientCall.get localServer pathA none none true).shape) :=
  ⟨by decide, failed_call_iff (by decide)⟩

/-- The subscription does not survive a `cancelObserve` whose datagram the
transport does not take. -/
theorem not_failed_call :
    ¬ ∀ (h : List ClientEvent) (c : Client .default), (machine .default).Run (fun _ _ => True) h c →
      ∀ (call : ClientCall) (sendOk : Bool), (c.call sendOk call).2.1 = false →
        SameEntries c (c.call sendOk call).1 := by
  intro hall
  have hrun := Machine.Run.start.step (M := machine .default) (P := fun _ _ => True)
    (a := Action.call (.observe localServer pathA none none) true) trivial
  have hsame := hall _ observing hrun (.cancelObserve localServer pathA) false (by decide)
  have hkept := (hsame.slots ⟨0, by decide⟩).pending (.inl (by decide))
  exact absurd hkept (by decide)

end Client

end PulseCoap
