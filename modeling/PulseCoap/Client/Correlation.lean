import PulseCoap.Client.Frame

/-!
# PulseCoAP — token and message-ID correlation

A response is matched to its request by the token alone, and an ACK or a Reset
to its transaction by the sender and the message ID. `Correlated` says that
both are keys: no two active entries share a token, and no two transactions
waiting at one remote share a message ID.

The token is one byte that `nextToken()` hands out in turn without a look at
the tables, and the message ID is a wrapping counter, so `Correlated` holds as
long as what is handed out is free.

The condition is about the state before a step and not about a step's outcome:
`FreshStep` asks that the token byte and the message ID which would be handed
out are in use nowhere at that moment. That distinctness then holds in every
state is `Correlated.step`. Steps that only take entries away keep it by
`Narrows`; the calls add one entry under the token that was free.

* `correlated_of_run` — in every run in which each token and message ID is free
  when it is taken, every state is correlated, and a response goes to the entry
  that carries its token.
* `not_correlated` — a subscription and 255 more tokens make a collision.
* `DispatchesByToken` — where a response goes when tokens are keys.
-/

namespace PulseCoap

namespace Client

open TransactionPool

variable {cfg : Config}

/-- Tokens are keys of the pending and discover tables, and message IDs are
keys of the pool for each remote. -/
structure Correlated (c : Client cfg) : Prop where
  slots     : c.slots.Keyed (fun s => s.pending.active = true) fun s => s.pending.token
  discovers : c.discovers.Keyed (fun d => d.active = true) fun d => d.token
  apart     : ∀ i j, (c.slots i).pending.active = true → (c.discovers j).active = true →
    (c.slots i).pending.token ≠ (c.discovers j).token
  ids       : c.transactions.Keyed Awaiting fun t => (t.remote, t.messageId)

/-- No active entry holds the token that is handed out next. -/
def TokenFree (c : Client cfg) : Prop :=
  (∀ i, (c.slots i).pending.active = true → (c.slots i).pending.token ≠ [c.nextTokenByte]) ∧
    ∀ i, (c.discovers i).active = true → (c.discovers i).token ≠ [c.nextTokenByte]

/-- If the pool has room, no transaction at `remote` waits under the message ID
that is handed out next. -/
def IdFree (c : Client cfg) (remote : Endpoint) : Prop :=
  (∃ i, (c.transactions i).state = .free) →
    ∀ i, Awaiting (c.transactions i) → (c.transactions i).remote = remote →
      (c.transactions i).messageId ≠ c.nextMessageId

/-- An accepted request takes a free token, and a free message ID when it is
Confirmable. -/
def FreshRequest (c : Client cfg) (a : RequestArgs) (sendOk : Bool) : Prop :=
  c.Issues a sendOk → c.TokenFree ∧ (a.reliable cfg = true → c.IdFree a.server)

/-- What a call hands out is free. -/
def FreshCall (c : Client cfg) (sendOk : Bool) : CallShape → Prop
  | .issue a => c.FreshRequest a sendOk
  | .cancel server path => ∀ i, c.findObserve server path = some i →
    (c.release i).FreshRequest (deregisterArgs server path (c.slots i).pending) sendOk
  | .discover _ _ _ =>
    (∃ i, (c.discovers i).active = false) → (c.discoverDatagram sendOk).isSome → c.TokenFree
  | .handler _ => True

/-- What `poll()` hands out next is free. -/
def FreshResume (c : Client cfg) (sendOk : Bool) : Control cfg → Prop
  | .polling (.block1 i) _ =>
    (c.block1Datagram (c.slots i).upload sendOk).isSome → c.IdFree (c.slots i).upload.server
  | .polling (.block2 i) _ =>
    (c.block2Datagram i sendOk).isSome → c.IdFree (c.slots i).recv.server
  | _ => True

/-- Every token and message ID this step hands out is free. -/
def FreshStep (c : Client cfg) : Action → Prop
  | .call call sendOk => c.appHasControl = true → c.FreshCall sendOk call.shape
  | .poll _ _ => True
  | .resume sendOk => c.FreshResume sendOk c.control

instance (c : Client cfg) : Decidable c.TokenFree := inferInstanceAs (Decidable (_ ∧ _))

instance (c : Client cfg) (remote : Endpoint) : Decidable (c.IdFree remote) :=
  inferInstanceAs (Decidable (_ → _))

instance (c : Client cfg) (a : RequestArgs) (sendOk : Bool) : Decidable (c.FreshRequest a sendOk) :=
  inferInstanceAs (Decidable (c.Issues a sendOk → _))

instance (c : Client cfg) (sendOk : Bool) : ∀ shape, Decidable (c.FreshCall sendOk shape)
  | .issue a => inferInstanceAs (Decidable (c.FreshRequest a sendOk))
  | .cancel server path => inferInstanceAs (Decidable (∀ i, c.findObserve server path = some i → _))
  | .discover _ _ _ => inferInstanceAs (Decidable (_ → _ → c.TokenFree))
  | .handler _ => .isTrue trivial

instance (c : Client cfg) (sendOk : Bool) : ∀ control, Decidable (c.FreshResume sendOk control)
  | .idle => .isTrue trivial
  | .polling (.block1 _) _ => inferInstanceAs (Decidable (_ → c.IdFree _))
  | .polling (.block2 _) _ => inferInstanceAs (Decidable (_ → c.IdFree _))
  | .polling (.dispatch _ _) _ => .isTrue trivial
  | .polling (.close _ _ _) _ => .isTrue trivial
  | .polling .expire _ => .isTrue trivial
  | .polling (.tick _) _ => .isTrue trivial
  | .polling .ret _ => .isTrue trivial

instance (c : Client cfg) : ∀ a, Decidable (c.FreshStep a)
  | .call _ _ => inferInstanceAs (Decidable (_ → c.FreshCall _ _))
  | .poll _ _ => .isTrue trivial
  | .resume sendOk => inferInstanceAs (Decidable (c.FreshResume sendOk c.control))

/-! ## What keeps the keys -/

/-- Taking entries away keeps the keys. -/
theorem Correlated.narrow {c c' : Client cfg} (h : Correlated c) (n : Narrows c c') :
    Correlated c' where
  slots := h.slots.mono fun i hi => ⟨n.active hi, by rw [n.slots i hi]⟩
  discovers := h.discovers.mono fun i hi => by
    have heq := n.discovers i hi
    rw [heq] at hi ⊢
    exact ⟨hi, rfl⟩
  apart i j hi hj := by
    have heq := n.discovers j hj
    rw [heq] at hj ⊢
    rw [n.slots i hi]
    exact h.apart i j (n.active hi) hj
  ids := h.ids.mono fun t ha => by
    obtain ⟨ha, hr, hm, -, -⟩ := n.transactions t ha
    exact ⟨ha, Prod.ext hr hm⟩

/-- Starting a transaction under a free message ID. -/
theorem Correlated.start {c : Client cfg} (h : Correlated c) {remote : Endpoint}
    (hid : c.IdFree remote) (token message : Bytes) (owner : Call) :
    Correlated { c with
      transactions := (c.transactions.start remote c.nextMessageId token message
        c.lastNowMs owner).1 } := by
  rcases start_cases c.transactions remote c.nextMessageId token message c.lastNowMs owner with
    hc | ⟨i, hfree, hc⟩
  · rw [hc]
    exact h
  rw [hc]
  refine ⟨h.slots, h.discovers, h.apart, h.ids.set fun j _ hj heq => ?_⟩
  obtain ⟨hr, hm⟩ := Prod.mk.inj heq
  exact hid ⟨i, hfree⟩ j hj hr hm

/-- Registering a slot under a free token. -/
theorem Correlated.register {c : Client cfg} (h : Correlated c) (htok : c.TokenFree)
    (i : Fin cfg.maxTransactions) {s : ClientSlot} (hs : s.pending.token = [c.nextTokenByte]) :
    Correlated { c with slots := c.slots.set i s } where
  slots := h.slots.set fun j _ hj heq => htok.1 j hj (heq.trans hs)
  discovers := h.discovers
  apart j k hj hk := by
    by_cases hji : j = i
    · subst hji
      simp only [Table.set_self, hs]
      exact (htok.2 k hk).symm
    · simp only [Table.set_ne _ _ hji] at hj ⊢
      exact h.apart j k hj hk
  ids := h.ids

/-- Taking a discover slot under a free token. -/
theorem Correlated.registerDiscover {c : Client cfg} (h : Correlated c) (htok : c.TokenFree)
    (i : Fin cfg.maxDiscovers) {d : DiscoverSlot} (hd : d.token = [c.nextTokenByte]) :
    Correlated { c with discovers := c.discovers.set i d } where
  slots := h.slots
  discovers := h.discovers.set fun j _ hj heq => htok.2 j hj (heq.trans hd)
  apart j k hj hk := by
    by_cases hki : k = i
    · subst hki
      simp only [Table.set_self, hd]
      exact htok.1 j hj
    · simp only [Table.set_ne _ _ hki] at hk ⊢
      exact h.apart j k hj hk
  ids := h.ids

/-! ## Every step -/

/-- A request under a fresh token and a fresh message ID. -/
theorem Correlated.issue {c : Client cfg} (h : Correlated c) {a : RequestArgs} {sendOk : Bool}
    (hk : a.blockwise cfg = true → a.markObserving = false)
    (hfresh : c.FreshRequest a sendOk) : Correlated (c.issue a sendOk).1 := by
  rcases issue_cases c a sendOk hk with ⟨-, c', hr, heq⟩ | ⟨hok, i, s, buf, -, -, hs, heq⟩
  · rw [heq]
    exact h.narrow hr.narrows
  rw [heq]
  obtain ⟨htok, hid⟩ := hfresh hok
  have hreg := h.register htok i hs.token
  show Correlated (c.issued i s a buf)
  unfold issued
  by_cases hrel : a.reliable cfg = true
  · -- the transaction goes in under the message ID, the slot under the token
    have hstart := hreg.start (fun hroom j hj hr => hid hrel hroom j hj hr)
      [c.nextTokenByte] buf (a.call c.calls)
    rw [if_pos hrel]
    exact ⟨hstart.slots, hstart.discovers, hstart.apart, hstart.ids⟩
  · rw [if_neg hrel]
    exact ⟨hreg.slots, hreg.discovers, hreg.apart, hreg.ids⟩

theorem Correlated.call {c : Client cfg} (h : Correlated c) {call : ClientCall} {sendOk : Bool}
    (hf : c.FreshCall sendOk call.shape) : Correlated (c.call sendOk call).1 := by
  rw [call_eq]
  cases hs : call.shape with
  | issue a =>
    rw [hs] at hf
    exact h.issue (shape_blockwise hs) hf
  | cancel server path =>
    rw [hs] at hf
    dsimp only
    cases ho : c.findObserve server path with
    | none => exact h
    | some i =>
      -- the subscription is released before the new token is taken, so it does not count
      exact (h.narrow (narrows_release c i)).issue (by simp [deregister_blockwise]) (hf i ho)
  | discover ep onDiscover userContext =>
    rw [hs] at hf
    show Correlated (c.discover ep onDiscover userContext sendOk).1
    rcases discover_cases c ep onDiscover userContext sendOk with
      ⟨token, id, heq, -⟩ | ⟨i, buf, hi, hd, heq⟩
    · -- refused: at most the two counters have moved
      rw [heq]
      exact h.narrow (narrows_of_eq rfl rfl rfl rfl)
    · rw [heq]
      -- a free slot and a fresh token: the discovery is a new key
      have htok : c.TokenFree := hf ⟨i, hi⟩ (by rw [hd]; rfl)
      have hreg := h.registerDiscover htok i (d := { active := true, token := [c.nextTokenByte]
                                                     onDiscover, userContext
                                                     issuedAt := c.lastNowMs }) rfl
      exact ⟨hreg.slots, hreg.discovers, hreg.apart, hreg.ids⟩
  | handler onTimeout => exact h.narrow (narrows_of_eq rfl rfl rfl rfl)

/-- A further block has a message ID of its own and the token of its transfer. -/
theorem Correlated.block1Sent {c : Client cfg} (h : Correlated c) {i : Fin cfg.maxTransactions}
    (hid : c.IdFree (c.slots i).upload.server) (buf : Bytes) : Correlated (c.block1Sent i buf) := by
  have hstart := h.start hid [(c.slots i).upload.token] buf (c.slots i).pending.call
  have hslot := hstart.narrow (narrows_setSlot _ i (s := { c.slots i with
    upload := { (c.slots i).upload with waitingForContinue := true } }) (fun _ => rfl)
    fun _ hu => ⟨hu, rfl⟩)
  exact ⟨hslot.slots, hslot.discovers, hslot.apart, hslot.ids⟩

/-- So has the request for a further block. -/
theorem Correlated.block2Sent {c : Client cfg} (h : Correlated c) {i : Fin cfg.maxTransactions}
    (hid : c.IdFree (c.slots i).recv.server) (buf : Bytes) : Correlated (c.block2Sent i buf) := by
  have hstart := h.start hid (c.slots i).pending.token buf (c.slots i).pending.call
  exact ⟨hstart.slots, hstart.discovers, hstart.apart, hstart.ids⟩

/-- A segment of `poll` after its cut. -/
theorem Correlated.resume {c : Client cfg} (h : Correlated c) {k : Cont cfg} {inCallback : Bool}
    {sendOk : Bool} (hfresh : c.FreshResume sendOk (.polling k inCallback)) :
    Correlated (c.resume k sendOk).1 := by
  rcases resume_cases c k sendOk with hn | ⟨i, buf, rfl, hd, heq⟩ | ⟨i, buf, rfl, hd, heq⟩
  · exact h.narrow hn
  · rw [heq]
    have hid : c.IdFree (c.slots i).upload.server := hfresh (by rw [hd]; rfl)
    exact (h.block1Sent hid buf).narrow (narrows_at ..)
  · rw [heq]
    have hid : c.IdFree (c.slots i).recv.server := hfresh (by rw [hd]; rfl)
    exact (h.block2Sent hid buf).narrow (narrows_at ..)

/-- **What one step preserves.** A step hands out one token and one message ID at most, and the
condition is that no active entry has them; every other change takes entries away. -/
theorem Correlated.step {c : Client cfg} (h : Correlated c) {a : Action} (hfresh : c.FreshStep a) :
    Correlated (c.step a).1 := by
  rcases step_cases c a with heq | ⟨call, sendOk, rfl, happ, heq⟩ | ⟨nowMs, rx, rfl, -, heq⟩ |
    ⟨sendOk, k, b, rfl, hk, heq⟩
  · rw [heq]
    exact h
  · rw [heq]
    exact h.call (hfresh happ)
  · rw [heq]
    exact h.narrow (narrows_poll c nowMs rx)
  · rw [heq]
    have hf : c.FreshResume sendOk c.control := hfresh
    rw [hk] at hf
    exact h.resume hf

theorem correlated_init (cfg : Config) : Correlated (machine cfg).init where
  slots i _ hi := by cases hi
  discovers i _ hi := by cases hi
  apart i _ hi := by cases hi
  ids i _ hi := by cases hi

/-! ## Runs -/

/-- A response goes to the entry that carries its token. -/
structure DispatchesByToken (c : Client cfg) : Prop where
  pending  : ∀ i sender msg, (c.slots i).pending.active = true →
    (c.slots i).pending.token = msg.token →
      c.dispatchResponse sender msg = c.dispatchPending i sender msg
  discover : ∀ i token, (c.discovers i).active = true → (c.discovers i).token = token →
    c.findDiscover token = some i

/-- So a response is dispatched to the one slot with its token. -/
theorem Correlated.dispatchesByToken {c : Client cfg} (h : Correlated c) : c.DispatchesByToken where
  pending i sender msg hi htok := by
    have hd : c.findDiscover msg.token = none := by
      refine Table.find?_eq_none.2 fun j => ?_
      by_contra hj
      have hj : (c.discovers j).active = true ∧ (c.discovers j).token = msg.token := by
        simpa using hj
      exact h.apart i j hi hj.1 (htok.trans hj.2.symm)
    have hp : c.findPendingByToken msg.token = some i :=
      h.slots.find?_eq (fun s => by simp) hi htok
    rw [dispatchResponse, hd, hp]
  discover i token hi htok := h.discovers.find?_eq (fun d => by simp) hi htok

/-- **Tokens and message IDs are keys.** In a run in which every token and
message ID is free when it is handed out, no two active entries ever share one,
and a response goes to the request that carries its token. -/
theorem correlated_of_run {h : List ClientEvent} {c : Client cfg}
    (r : (machine cfg).Run FreshStep h c) : Correlated c ∧ c.DispatchesByToken := by
  have hc : Correlated c :=
    r.invariant (I := fun _ c => Correlated c) (correlated_init cfg)
      fun _ hc hfresh => hc.step hfresh
  exact ⟨hc, hc.dispatchesByToken⟩

/-- `/a` at 127.0.0.1:5683. -/
def localServer : Endpoint := ⟨.v4 127 0 0 1, 5683⟩
def pathA : Bytes := [0x2F, 0x61]

/-- A subscription, a request and its piggybacked response up to the dispatch. -/
def exchange : List Action :=
  [.call (.observe localServer pathA none none) true,
    .call (.get localServer pathA none none true) true,
    .poll 10 (some (localServer, [0x61, 0x45, 0x00, 0x02, 0x02, 0xFF, 0x2A]))]

theorem correlated_of_run_exchange :
    Correlated ((machine .default).exec [] (machine .default).init exchange).2 ∧
      DispatchesByToken ((machine .default).exec [] (machine .default).init exchange).2 :=
  correlated_of_run (Machine.Run.start.exec (by decide))

/-! ## A token handed out twice -/

/-- The client after `n` requests that did not get out. -/
def advanced (c : Client cfg) (n : Nat) : Client cfg :=
  { c with
    nextTokenByte := c.nextTokenByte + UInt8.ofNat n
    nextMessageId := c.nextMessageId + UInt16.ofNat n }

theorem advanced_zero (c : Client cfg) : c.advanced 0 = c := by
  simp [advanced]

/-- One request more. -/
theorem advanced_succ (c : Client cfg) (n : Nat) :
    (c.advanced 1).advanced n = c.advanced (n + 1) := by
  simp [advanced, UInt8.add_assoc, UInt16.add_assoc, UInt8.add_comm 1, UInt16.add_comm 1]

/-- What the transport refuses is not transmitted. -/
theorem transmit_unsent (req : Option Message) : transmit cfg req false = none := by
  cases req with
  | none => rfl
  | some req =>
    simp only [transmit, Bool.false_eq_true, if_false]
    cases req.encode cfg.maxMsgSize <;> rfl

/-- A `get` whose `send` fails only uses up a token and a message ID, once its
slot is clean. -/
theorem get_unsent {c : Client cfg} {i : Fin cfg.maxTransactions} (hf : c.freeSlot = some i)
    (hclean : (c.slots i).pending = {}) (server : Endpoint) (path : Bytes)
    (onResponse userContext : Option Ref) (confirmable : Bool) :
    c.get server path onResponse userContext confirmable false = (c.advanced 1, false, []) := by
  rcases sendRequest_cases c
      { server, path, method := Code.get, confirmable, onResponse, userContext } false with
    ⟨hn, -⟩ | ⟨j, hj, -, heq⟩ | ⟨j, buf, -, hd, -⟩
  · rw [hf] at hn
    cases hn
  · rw [hf] at hj
    cases hj
    rw [get, heq, ← hclean]
    simp only [advanced]
    rw [show ({ c.slots i with pending := (c.slots i).pending } : ClientSlot) = c.slots i from rfl,
      Table.set_eq_self]
    rfl
  · rw [requestDatagram, transmit_unsent] at hd
    cases hd

/-- A `discover` whose `send` fails does the same. -/
theorem discover_unsent {c : Client cfg} {i : Fin cfg.maxDiscovers}
    (hf : (c.discovers.find? fun d => !d.active) = some i) (multicastEp : Endpoint)
    (onDiscover userContext : Option Ref) :
    c.discover multicastEp onDiscover userContext false = (c.advanced 1, false, []) := by
  unfold discover
  simp only [hf, transmit_unsent]
  rfl

/-- So does any number of calls. -/
theorem exec_unsent (n : Nat) {c : Client cfg} {i : Fin cfg.maxTransactions}
    (hf : c.freeSlot = some i) (hclean : (c.slots i).pending = {}) (happ : c.appHasControl = true)
    (h : List ClientEvent) (server : Endpoint) (path : Bytes) :
    (machine cfg).exec h c (List.replicate n (.call (.get server path none none true) false)) =
      (h, c.advanced n) := by
  induction n generalizing c with
  | zero => rw [advanced_zero]; rfl
  | succ n ih =>
    have hstep : (machine cfg).next c (.call (.get server path none none true) false) =
        (c.advanced 1, []) := by
      show ite _ _ _ = _
      rw [if_pos happ]
      show ((c.get server path none none true false).1,
        (c.get server path none none true false).2.2) = _
      rw [get_unsent hf hclean]
    rw [List.replicate_succ, Machine.exec, hstep]
    show (machine cfg).exec (h ++ []) (c.advanced 1) _ = _
    rw [List.append_nil, ih (c := c.advanced 1) hf hclean happ, advanced_succ]

/-- A client that observes `/a`, under the token 1. -/
def observing : Client .default :=
  ((machine .default).next (machine .default).init
    (.call (.observe localServer pathA none none) true)).1

/-- The same client after 255 requests that did not get out and one that did. -/
def collided : Client .default :=
  ((machine .default).next (observing.advanced 255)
    (.call (.get localServer pathA none none true) true)).1

/-- **The next token is not checked.** After a subscription and 255 requests that did not get
out, the 256th request takes the token of the subscription. Each failed call draws a token all
the same. -/
theorem not_correlated : ¬ ∀ h c, (machine .default).Run (fun _ _ => True) h c → Correlated c := by
  intro hall
  obtain ⟨h, hobs⟩ : ∃ h, (machine .default).Run (fun _ _ => True) h observing :=
    ⟨_, Machine.Run.start.step (a := Action.call (.observe localServer pathA none none) true) trivial⟩
  have hunsent := hobs.exec (Machine.meets_of_forall (fun _ _ => trivial) _
    (List.replicate 255 (.call (.get localServer pathA none none true) false)))
  rw [exec_unsent 255 (c := observing) (i := ⟨1, by decide⟩) (by decide) (by decide) (by decide)]
    at hunsent
  have hlast : Correlated collided :=
    hall _ _ (hunsent.step (a := .call (.get localServer pathA none none true) true) trivial)
  -- the subscription is in slot 0, the request in slot 1
  have hsame := hlast.slots ⟨0, by decide⟩ ⟨1, by decide⟩ (by decide) (by decide) (by decide)
  exact absurd hsame (by decide)

end Client

end PulseCoap
