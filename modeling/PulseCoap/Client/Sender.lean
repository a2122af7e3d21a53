import PulseCoap.Codec.Stream
import PulseCoap.Client.Reclaim

/-!
# PulseCoAP — from whom the client accepts a response

`poll()` finds the pending slot of a response by its token alone; the server the
slot has stored is not compared with the sender. `addressed` is the slot a
message comes to, `ActsOn` says that its processing does something to a slot, and
`acts_iff` connects the two: the message acts on exactly the slot it comes to,
but for an observing slot without a handler.

Doing something is defined by its effect: a change of the slot's entry, a
callback for it, or a block of its transfer that is due next. A duplicate counts
as well as a first response. The sender of an ACK or an RST is compared by the
code, in the pool, and for these the condition holds by itself; it is the
responses that are found by the token alone.

* `addressed`, `Inert` — in terms of the state before and the message.
* `acts_iff` — which slots a datagram acts on.
* `from_asked_iff` — the server asked is the sender exactly when the slot the
  message comes to has stored it.
-/

namespace PulseCoap

namespace Client

variable {cfg : Config}

/-! ## Acting on a slot -/

/-- `poll` with a datagram, up to the callback, the follow-up or the release it
leads to: one step, and the dispatch when there is one. -/
def taken (c : Client cfg) (nowMs : UInt32) (sender : Endpoint) (data : Bytes) (sendOk : Bool) :
    Client cfg × List ClientEvent :=
  let r := c.step (.poll nowMs (some (sender, data)))
  match r.1.control with
  | .polling (.dispatch _ _) _ =>
    let r' := r.1.step (.resume sendOk)
    (r'.1, r.2 ++ r'.2)
  | _ => r

/-- From `c` to `c'` something has been done to slot `i`: its request or one of
its block states has changed; a block of it is sent next; or the code waits for
the return of its `onResponse`, or is about to end its fragmented response or to
free it. -/
def ActsOn (c c' : Client cfg) (i : Fin cfg.maxTransactions) : Prop :=
  c'.slots i ≠ c.slots i ∨
    c'.control = .polling (.block1 i) false ∨ c'.control = .polling (.block2 i) false ∨
      ∃ fragmented call inCallback, c'.control = .polling (.close i fragmented call) inCallback ∧
        (inCallback = true ∨ fragmented = true ∨ (c.slots i).pending.observing = false)

/-! ## The slot a message comes to -/

/-- The pending slot a message is for: an RST goes by the token of the
transaction it names, a response by its own token. -/
def addressed (c : Client cfg) (sender : Endpoint) (msg : Message) :
    Option (Fin cfg.maxTransactions) :=
  if msg.type = .reset then
    let token := (c.transactions.getToken sender msg.messageId).getD []
    if token.length > 0 then c.findPendingByToken token else none
  else if msg.code ≠ Code.empty ∧ !isMethodCode msg.code then
    match c.findDiscover msg.token with
    | some _ => none
    | none => c.findPendingByToken msg.token
  else none

/-- A plain response to a subscription that nobody listens to. -/
def Inert (cfg : Config) (s : ClientSlot) (msg : Message) : Prop :=
  msg.type ≠ .reset ∧ s.pending.observing = true ∧ s.pending.onResponse = none ∧
    (cfg.enableBlockwise = true → s.upload.active = false ∧ block2Of msg = none)

/-- The message comes to no slot, or to one that asked its sender. -/
def FromAsked (c : Client cfg) (sender : Endpoint) (data : Bytes) : Prop :=
  ∀ msg, Message.decode cfg data = (.none, msg) → ∀ i, c.addressed sender msg = some i →
    (c.slots i).pending.server = sender ∨ Inert cfg (c.slots i) msg

/-! ## Where a message acts -/

/-- The slot a position in the code is about. -/
def slotOf : Cont cfg → Option (Fin cfg.maxTransactions)
  | .block1 i | .block2 i | .close i _ _ => some i
  | _ => none

/-- What changes one slot only, and goes on with that slot only, acts on no
other. -/
theorem ActsOn.slot_eq {c c' : Client cfg} {i j : Fin cfg.maxTransactions} {k : Cont cfg}
    {inCallback : Bool} (h : ActsOn c c' j) (hslots : ∀ j ≠ i, c'.slots j = c.slots j)
    (hctl : c'.control = .polling k inCallback) (hk : ∀ j, slotOf k = some j → j = i) : j = i := by
  rcases h with hne | hb1 | hb2 | ⟨fragmented, call, b, hclose, -⟩
  · by_contra hji
    exact hne (hslots j hji)
  · obtain ⟨rfl, -⟩ := Control.polling.inj (hctl.symm.trans hb1)
    exact hk j rfl
  · obtain ⟨rfl, -⟩ := Control.polling.inj (hctl.symm.trans hb2)
    exact hk j rfl
  · obtain ⟨rfl, -⟩ := Control.polling.inj (hctl.symm.trans hclose)
    exact hk j rfl

/-- Where no slot changes and none is gone on with, nothing acts. -/
theorem not_actsOn {c : Client cfg} (c' : Client cfg) {k : Cont cfg} {inCallback : Bool}
    (hslots : c'.slots = c.slots) (hctl : c'.control = .polling k inCallback)
    (hk : slotOf k = none) (i : Fin cfg.maxTransactions) : ¬ ActsOn c c' i := by
  rintro (hne | hb1 | hb2 | ⟨fragmented, call, b, hclose, -⟩)
  · exact hne (by rw [hslots])
  · obtain ⟨rfl, -⟩ := Control.polling.inj (hctl.symm.trans hb1)
    cases hk
  · obtain ⟨rfl, -⟩ := Control.polling.inj (hctl.symm.trans hb2)
    cases hk
  · obtain ⟨rfl, -⟩ := Control.polling.inj (hctl.symm.trans hclose)
    cases hk

/-- The end of a response: `onResponse`, and then `close`. -/
theorem actsOn_fireResponse (c c' : Client cfg) (i : Fin cfg.maxTransactions)
    (res : ClientResponse) (fragmented : Bool) (hslots : ∀ j ≠ i, c'.slots j = c.slots j)
    (hpending : (c'.slots i).pending = (c.slots i).pending) (j : Fin cfg.maxTransactions) :
    ActsOn c (c'.fireResponse i res fragmented).1 j ↔
      j = i ∧ (c'.slots i ≠ c.slots i ∨ (c.slots i).pending.onResponse.isSome ∨
        fragmented = true ∨ (c.slots i).pending.observing = false) := by
  rw [fireResponse_eq]
  constructor
  · intro h
    obtain rfl : j = i := h.slot_eq hslots rfl fun j hj => (Option.some.inj hj).symm
    refine ⟨rfl, ?_⟩
    rcases h with hne | hb1 | hb2 | ⟨f, call, b, hclose, hwhy⟩
    · exact .inl hne
    · cases hb1
    · cases hb2
    · cases hclose
      rw [hpending] at hwhy
      exact .inr hwhy
  · rintro ⟨rfl, hne | hwhy⟩
    · exact .inl hne
    · refine .inr (.inr (.inr ⟨_, _, _, rfl, ?_⟩))
      rw [hpending]
      exact hwhy

/-- A response for slot `i` acts on slot `i`, unless it is inert. -/
theorem actsOn_dispatchPending (c c' : Client cfg) (i : Fin cfg.maxTransactions)
    (sender : Endpoint) {msg : Message} (htype : msg.type ≠ .reset) (hslots : c'.slots = c.slots)
    (j : Fin cfg.maxTransactions) :
    ActsOn c (c'.dispatchPending i sender msg).1 j ↔ j = i ∧ ¬ Inert cfg (c.slots i) msg := by
  have hother : ∀ up recv, ∀ j ≠ i, (c'.setBlocks i up recv).slots j = c.slots j := by
    intro up recv j hj
    rw [← hslots]
    exact Table.set_ne _ _ hj
  have hself : ∀ up recv, (c'.setBlocks i up recv).slots i =
      { c.slots i with upload := up, recv } := by
    intro up recv
    rw [← hslots]
    exact Table.set_self _ _ _
  -- the branches of `dispatchPending`; each touches slot `i` or leaves it as it is
  by_cases hb : cfg.enableBlockwise = true
  · by_cases hcont : msg.code = Code.«continue» ∧ (c'.slots i).upload.active = true
    · -- the next block of an upload
      have heq : ∃ up recv, c'.dispatchPending i sender msg =
          ((c'.setBlocks i up recv).at' (.block1 i) false, []) := by
        refine ⟨{ (c'.slots i).upload with
          nextNum := (c'.slots i).upload.nextNum + 1, waitingForContinue := false },
          (c'.slots i).recv, ?_⟩
        rw [dispatchPending, if_pos hb, if_pos hcont]
        rfl
      obtain ⟨up, recv, heq⟩ := heq
      rw [heq]
      constructor
      · intro h
        refine ⟨h.slot_eq (hother up recv) rfl fun j hj => (Option.some.inj hj).symm, ?_⟩
        rintro ⟨-, -, -, hinert⟩
        rw [hslots, (hinert hb).1] at hcont
        cases hcont.2
      · rintro ⟨rfl, -⟩
        exact .inr (.inl rfl)
    · cases h2 : block2Of msg with
      | some b2 =>
        have hinert : ¬ Inert cfg (c.slots i) msg := by
          rintro ⟨-, -, -, hinert⟩
          rw [h2] at hinert
          cases (hinert hb).2
        rw [dispatchPending_fragment hb hcont h2]
        dsimp only
        by_cases hm : b2.m = true
        · -- the request for a further block
          rw [if_pos hm]
          constructor
          · intro h
            exact ⟨h.slot_eq (hother _ _) rfl fun j hj => (Option.some.inj hj).symm, hinert⟩
          · rintro ⟨rfl, -⟩
            exact .inr (.inr (.inl rfl))
        · rw [if_neg hm, actsOn_fireResponse c _ i _ true (hother _ _) (by rw [hself])]
          exact ⟨fun h => ⟨h.1, hinert⟩, fun h => ⟨h.1, .inr (.inr (.inl rfl))⟩⟩
      | none =>
        rw [dispatchPending_plain hb hcont h2]
        show ActsOn c ((c'.setBlocks i _ _).fireResponse i _ false).1 j ↔ _
        rw [actsOn_fireResponse c _ i _ false (hother _ _) (by rw [hself]), hself, hslots]
        -- a plain response: the slot changes if there is a handler, an upload or no subscription
        refine and_congr_right fun _ => ?_
        have hdone : ({ c.slots i with
            upload := uploadDone (c.slots i).upload, recv := (c.slots i).recv } : ClientSlot) =
            c.slots i ↔ (c.slots i).upload.active = false := by
          constructor
          · intro h
            rw [← h]
            rfl
          · intro h
            have hup : uploadDone (c.slots i).upload = (c.slots i).upload := by
              rw [uploadDone, ← h]
            rw [hup]
        simp only [ne_eq, hdone, Inert, htype, not_false_eq_true, true_and, hb, true_implies, h2,
          and_true]
        cases (c.slots i).pending.onResponse <;> cases (c.slots i).pending.observing <;>
          cases (c.slots i).upload.active <;> simp
  · -- without block-wise transfer the upload state is no part of it
    have heq : c'.dispatchPending i sender msg = c'.handlePlain i msg := by
      rw [dispatchPending, if_neg hb]
    rw [heq]
    show ActsOn c (c'.fireResponse i _ false).1 j ↔ _
    rw [actsOn_fireResponse c c' i _ false (fun j _ => by rw [hslots]) (by rw [hslots]), hslots]
    refine and_congr_right fun _ => ?_
    simp only [ne_eq, not_true_eq_false, false_or, Inert, htype, not_false_eq_true, true_and, hb]
    cases (c.slots i).pending.onResponse <;> cases (c.slots i).pending.observing <;> simp

/-- A response acts on the slot its token finds. -/
theorem actsOn_dispatchResponse (c c' : Client cfg) (sender : Endpoint) {msg : Message}
    (htype : msg.type ≠ .reset) (hcode : (msg.code ≠ Code.empty ∧ !isMethodCode msg.code) = True)
    (hslots : c'.slots = c.slots) (hdisc : c'.discovers = c.discovers)
    (j : Fin cfg.maxTransactions) :
    ActsOn c (c'.dispatchResponse sender msg).1 j ↔
      c.addressed sender msg = some j ∧ ¬ Inert cfg (c.slots j) msg := by
  have hfind : c'.findDiscover msg.token = c.findDiscover msg.token := by
    unfold findDiscover
    rw [hdisc]
  have hpend : c'.findPendingByToken msg.token = c.findPendingByToken msg.token := by
    unfold findPendingByToken
    rw [hslots]
  -- a discovery comes before a request with the same token
  have haddr : c.addressed sender msg = match c.findDiscover msg.token with
      | some _ => none
      | none => c.findPendingByToken msg.token := by
    unfold addressed
    rw [if_neg htype, if_pos (of_eq_true hcode)]
  have hquiet : ∀ b, ¬ ActsOn c (c'.at' .expire b) j := by
    intro b
    exact not_actsOn (c'.at' .expire b) hslots rfl rfl j
  rw [haddr]
  rcases c'.dispatchResponse_cases sender msg with ⟨i, hd, heq⟩ | ⟨i, hd, hp, heq⟩ | ⟨hd, hp, heq⟩
  · rw [hfind] at hd
    rw [heq, hd]
    exact iff_of_false (hquiet _) fun h => nomatch h.1
  · rw [hfind] at hd
    rw [hpend] at hp
    rw [heq, hd, hp, actsOn_dispatchPending c c' i sender htype hslots j]
    constructor
    · rintro ⟨rfl, hinert⟩
      exact ⟨rfl, hinert⟩
    · rintro ⟨hij, hinert⟩
      obtain rfl : i = j := Option.some.inj hij
      exact ⟨rfl, hinert⟩
  · rw [hfind] at hd
    rw [hpend] at hp
    rw [heq, hd, hp]
    exact iff_of_false (hquiet _) fun h => nomatch h.1

/-- An RST frees the slot it comes to. -/
theorem actsOn_handleReset (c c' : Client cfg) (sender : Endpoint) {msg : Message}
    (htype : msg.type = .reset) (hslots : c'.slots = c.slots)
    (hpool : c'.transactions = c.transactions) (j : Fin cfg.maxTransactions) :
    ActsOn c (c'.handleReset sender msg.messageId).1 j ↔
      c.addressed sender msg = some j ∧ ¬ Inert cfg (c.slots j) msg := by
  have hinert : ¬ Inert cfg (c.slots j) msg := fun h => h.1 htype
  have haddr : c.addressed sender msg =
      if ((c'.transactions.getToken sender msg.messageId).getD []).length > 0 then
        c'.findPendingByToken ((c'.transactions.getToken sender msg.messageId).getD [])
      else none := by
    unfold addressed findPendingByToken
    rw [if_pos htype, hpool, hslots]
  -- a Reset that names no transaction, or one whose slot is gone, changes no slot
  have hquiet : ∀ r : Client cfg × List ClientEvent,
      r = ((c'.completed sender msg.messageId).goto .ret, []) → ¬ ActsOn c r.1 j := by
    rintro _ rfl
    exact not_actsOn ((c'.completed sender msg.messageId).goto .ret) hslots rfl rfl j
  rw [haddr]
  unfold handleReset
  dsimp only
  by_cases hlen : ((c'.transactions.getToken sender msg.messageId).getD []).length > 0
  · -- the code looks the token up first and frees the transaction then; the slots are the same
    rw [if_pos hlen, if_pos hlen]
    have hsame : findPendingByToken { c' with
        transactions := (c'.transactions.complete sender msg.messageId).1 }
        ((c'.transactions.getToken sender msg.messageId).getD []) =
        c'.findPendingByToken ((c'.transactions.getToken sender msg.messageId).getD []) := rfl
    rw [hsame]
    cases hp : c'.findPendingByToken ((c'.transactions.getToken sender msg.messageId).getD []) with
    | none => exact iff_of_false (hquiet _ rfl) fun h => nomatch h.1
    | some i =>
      have hact := (findPendingByToken_spec hp).1
      dsimp only
      rw [fireTimeout_eq]
      constructor
      · intro h
        refine ⟨?_, hinert⟩
        have hji : j = i := h.slot_eq
          (fun k hk => by rw [← hslots]; exact Table.set_ne _ _ hk) rfl fun k hk => nomatch hk
        rw [hji]
      · rintro ⟨hij, -⟩
        obtain rfl : i = j := Option.some.inj hij
        refine .inl fun hsame => ?_
        -- the slot was active and is free now
        have hoff : (c.slots i).pending.active = false := by
          rw [← hsame]
          exact congrArg (fun s : ClientSlot => s.pending.active) (Table.set_self _ _ _)
        rw [hslots] at hact
        rw [hact] at hoff
        cases hoff
  · rw [if_neg hlen, if_neg hlen]
    exact iff_of_false (hquiet _ rfl) fun h => nomatch h.1

/-- **Which slots a datagram acts on**: the one that the dispatch finds for it, unless the
message is inert for that slot. -/
theorem acts_iff {c : Client cfg} {nowMs : UInt32} {sender : Endpoint} {data : Bytes}
    {msg : Message} (hidle : c.control = .idle) (hdec : Message.decode cfg data = (.none, msg))
    (sendOk : Bool) (i : Fin cfg.maxTransactions) :
    ActsOn c (c.taken nowMs sender data sendOk).1 i ↔
      c.addressed sender msg = some i ∧ ¬ Inert cfg (c.slots i) msg := by
  have hpoll : c.step (.poll nowMs (some (sender, data))) =
      (c.atTime nowMs).handleMessage sender msg := by
    simp only [step, hidle]
    exact poll_message c nowMs sender hdec
  unfold taken
  rw [hpoll]
  -- a Reset is handled before `poll` comes to its first cut, a response behind it
  by_cases hrst : msg.type = .reset
  · have heq : (c.atTime nowMs).handleMessage sender msg =
        (c.atTime nowMs).handleReset sender msg.messageId := if_pos hrst
    have hctl : ∃ b, ((c.atTime nowMs).handleReset sender msg.messageId).1.control =
        .polling .ret b := by
      rcases (c.atTime nowMs).handleReset_cases sender msg.messageId with h | ⟨t, j, -, -, h⟩
      · exact ⟨false, by rw [h]; rfl⟩
      · exact ⟨_, by rw [h, fireTimeout_eq]; rfl⟩
    obtain ⟨b, hctl⟩ := hctl
    rw [heq]
    simp only [hctl]
    exact actsOn_handleReset c (c.atTime nowMs) sender hrst rfl rfl i
  · -- an ACK completes its transaction first
    obtain ⟨c', hslots, hdisc, heq⟩ := (c.atTime nowMs).handleMessage_other sender hrst
    rw [heq]
    by_cases hcode : msg.code ≠ Code.empty ∧ !isMethodCode msg.code
    · rw [if_pos hcode]
      exact actsOn_dispatchResponse c (c'.goto (.dispatch sender msg)) sender hrst
        (eq_true hcode) hslots hdisc i
    · -- an empty message and a request go on to the expiry of discoveries
      have haddr : c.addressed sender msg = none := by
        unfold addressed
        rw [if_neg hrst, if_neg hcode]
      rw [if_neg hcode, haddr]
      refine iff_of_false (not_actsOn (c'.goto .expire) hslots rfl rfl i) ?_
      rintro ⟨⟨⟩, -⟩

/-- A datagram that does not decode acts on nothing. -/
theorem not_actsOn_undecoded {c : Client cfg} {nowMs : UInt32} {sender : Endpoint} {data : Bytes}
    (hidle : c.control = .idle) (hdec : (Message.decode cfg data).1 ≠ .none) (sendOk : Bool)
    (i : Fin cfg.maxTransactions) : ¬ ActsOn c (c.taken nowMs sender data sendOk).1 i := by
  have hpoll : c.step (.poll nowMs (some (sender, data))) =
      ((c.atTime nowMs).at' .expire false, []) := by
    simp only [step, hidle]
    rcases c.poll_cases nowMs (some (sender, data)) with h | ⟨_, _, msg, hrx, hok, -⟩
    · exact h
    · cases hrx
      rw [hok] at hdec
      exact absurd rfl hdec
  unfold taken
  rw [hpoll]
  exact not_actsOn ((c.atTime nowMs).at' .expire false) rfl rfl rfl i

/-- **From whom a response is accepted.** In every state between two polls and for every
datagram: each slot the datagram acts on has stored its sender if and only if the slot the
message comes to has, or nobody listens at that slot. The dispatch compares tokens and does not
look at the sender. -/
theorem from_asked_iff (c : Client cfg) (nowMs : UInt32) (sender : Endpoint) (data : Bytes)
    (sendOk : Bool) (hidle : c.control = .idle) :
    (∀ i, ActsOn c (c.taken nowMs sender data sendOk).1 i →
        (c.slots i).pending.server = sender) ↔ c.FromAsked sender data := by
  cases hdec : Message.decode cfg data with
  | mk err msg =>
    by_cases herr : err = .none
    · subst herr
      constructor
      · intro h msg' hdec' i haddr
        obtain rfl : msg = msg' := by simpa [hdec] using hdec'
        by_cases hinert : Inert cfg (c.slots i) msg
        · exact .inr hinert
        · exact .inl (h i ((acts_iff hidle hdec sendOk i).2 ⟨haddr, hinert⟩))
      · intro h i hact
        obtain ⟨haddr, hinert⟩ := (acts_iff hidle hdec sendOk i).1 hact
        exact (h msg hdec i haddr).resolve_right hinert
    · have hbad : (Message.decode cfg data).1 ≠ .none := by rwa [hdec]
      refine iff_of_true (fun i hact => absurd hact (not_actsOn_undecoded hidle hbad sendOk i)) ?_
      intro msg' hdec'
      rw [hdec'] at hbad
      exact absurd rfl hbad

/-- The 2.05 that answers the `get` of `asked`, whoever sends it. -/
def contentOf01 : Bytes := [0x51, 0x45, 0x00, 0x63, 0x01, 0xFF, 0x2A]

/-- A host that was not asked. -/
def stranger : Endpoint := { address := .v4 10 0 0 9, port := 5683 }

theorem from_asked_iff_asked :
    (∀ i, ActsOn asked (asked.taken 10 localServer contentOf01 true).1 i →
      (asked.slots i).pending.server = localServer) ↔ asked.FromAsked localServer contentOf01 :=
  from_asked_iff asked 10 localServer contentOf01 true (by decide)

/-- **A response is accepted from a stranger** that knows the token, one byte. -/
theorem not_from_asked : ¬ ∀ h c, (machine .default).Run (fun _ _ => True) h c →
    c.control = .idle → ∀ nowMs sender data sendOk i,
      ActsOn c (c.taken nowMs sender data sendOk).1 i → (c.slots i).pending.server = sender := by
  intro hall
  have r := Machine.Run.start.step (M := machine .default) (P := fun _ _ => True)
    (a := .call (.get localServer pathA (some 7) none true) true) trivial
  have hserver := hall _ _ r (by decide) 10 stranger contentOf01 true ⟨0, by decide⟩ ?_
  · exact absurd hserver (by decide)
  · -- its `onResponse` is running
    exact .inr (.inr (.inr ⟨false, _, true, rfl, .inl rfl⟩))

end Client

end PulseCoap
