import PulseCoap.Client.Correlation
import PulseCoap.Client.Ending
import PulseCoap.Tracking.Client
import PulseCoap.Transport.Dtls

/-!
# PulseCoAP — a client on a DTLS transport

The first `send` to a peer starts a handshake, keeps the datagram in the session
and returns false; "PulseCoAP's CON retransmit engine will retry". But a call
whose `send` returned false is rolled back: it has no slot and no transaction, so
nothing retries it, and the datagram goes out all the same when a later `receive`
ends the handshake.

A step of the client calls `send` at most once, and the datagram does not depend
on what `send` returns; so it is the one the step sends when `send` returns true
(`Client.offered`). The calls of `send` are numbered, and `refused` is an event of
its own.

The result is about what a call told its caller. When `send` has returned false
the client has rolled the call back, and the datagram should never be written;
when a Confirmable datagram waits in a session it should be pending and tracked,
so that its loss would be noticed. `Clear` is the condition on a step under
which both hold, stated on the state before it and on the answers.

* `agrees_of_clear` — while nothing but ACKs, discoveries and retransmissions of
  pending requests meets a handshake, and no request that waits for one is given
  up, no refused datagram goes out and every Confirmable one that waits is
  pending and tracked.
* `not_agrees` — a first `get`.
* `Agrees` — both halves. `Inv` — what a clear run keeps.
-/

namespace PulseCoap

open Client (ClientCall)
open TransactionPool (Awaiting)

variable {cfg : Config} {d : DtlsConfig}

-- ===========================================================================
-- The datagram of a step
-- ===========================================================================

/-- The datagram of an event. -/
def ClientEvent.datagram? : ClientEvent → Option Datagram
  | .sent dest data => some (dest, data)
  | _ => none

/-- What the client hands to `Transport::send` in the step, by what that returns. -/
def Client.offered (c : Client cfg) (a : Bool → Client.Action) : Option Datagram :=
  (c.step (a true)).2.findSome? ClientEvent.datagram?

/-- The datagram belongs to transaction `t` and to the pending request of slot `i`. -/
structure Client.Owns (c : Client cfg) (t i : Fin cfg.maxTransactions) (m : Datagram) : Prop where
  waiting : Awaiting (c.transactions t)
  remote  : (c.transactions t).remote = m.1
  message : (c.transactions t).message = m.2
  active  : (c.slots i).pending.active = true
  call    : (c.slots i).pending.call = (c.transactions t).owner

-- ===========================================================================
-- The two layers together
-- ===========================================================================

/-- A client, its transport, and how many times it has called `send`. -/
structure DtlsClient (cfg : Config) (d : DtlsConfig) where
  client    : Client cfg := {}
  transport : DtlsTransport cfg d := {}
  sends     : Nat := 0

/-- What an observer of the session and of the API sees. -/
inductive DtlsEvent where
  | wrote (w : SslWrite)
  /-- `get`, `put`, `post`, `del` or `observe` returned false after this `send`. -/
  | refused (call : ClientCall) (send : Nat)
deriving DecidableEq, Repr

namespace DtlsClient

/-- The steps of the client, with the answers of mbedTLS in them. -/
inductive Action where
  | call (call : ClientCall) (ssl : Ssl)
  /-- `poll` up to its first cut; `raw` is the source of the record that has come. -/
  | poll (nowMs : UInt32) (raw : Option Endpoint) (ssl : Ssl)
  | resume (ssl : Ssl)
deriving DecidableEq, Repr

/-- The step of the client, when its `send` returns `ok`. -/
def clientAction (s : DtlsClient cfg d) (a : Action) (ok : Bool) : Client.Action :=
  match a with
  | .call call _ => .call call ok
  | .poll nowMs raw ssl => .poll nowMs (s.transport.receive cfg.maxMsgSize raw ssl).2.1
  | .resume _ => .resume ok

/-- A step in which the client may send: what the transport returned, and wrote. -/
def sending (s : DtlsClient cfg d) (a : Bool → Client.Action) (ssl : Ssl) :
    DtlsClient cfg d × Bool × List SslWrite :=
  match s.client.offered a with
  | none => ({ s with client := (s.client.step (a true)).1 }, true, [])
  | some (dest, data) =>
    let r := s.transport.send dest data s.sends ssl
    ({ client := (s.client.step (a r.2.1)).1, transport := r.1, sends := s.sends + 1 }, r.2.1, r.2.2)

/-- The call is `get`, `put`, `post`, `del` or `observe`. -/
def isRequest (call : ClientCall) : Bool :=
  match call.shape with
  | .issue _ => true
  | _ => false

/-- The refusal of a call that came to its `send`. -/
def refusal (s : DtlsClient cfg d) (call : ClientCall) (ok : Bool) : List DtlsEvent :=
  if isRequest call = true ∧ (s.client.offered (.call call)).isSome = true ∧
      (s.client.call ok call).2.1 = false then
    [.refused call s.sends]
  else []

def next (s : DtlsClient cfg d) : Action → DtlsClient cfg d × List DtlsEvent
  | .call call ssl =>
    let r := s.sending (.call call) ssl
    (r.1, r.2.2.map .wrote ++ s.refusal call r.2.1)
  | .poll nowMs raw ssl =>
    match s.client.control with
    | .idle =>
      let r := s.transport.receive cfg.maxMsgSize raw ssl
      ({ s with client := (s.client.step (.poll nowMs r.2.1)).1, transport := r.1 },
        r.2.2.map .wrote)
    | .polling _ _ => (s, [])
  | .resume ssl =>
    let r := s.sending .resume ssl
    (r.1, r.2.2.map .wrote)

/-- A fresh client on a fresh transport, in either of its modes. -/
def machine (cfg : Config) (d : DtlsConfig) (isServer : Bool) :
    Machine (DtlsClient cfg d) Action DtlsEvent where
  init := { transport := { isServer } }
  next := next

-- ===========================================================================
-- What is asked of a run
-- ===========================================================================

/-- The second event does not write what the first has refused. -/
def NotWrittenLater : DtlsEvent → DtlsEvent → Prop
  | .refused _ number, .wrote w => w.send ≠ number
  | _, _ => True

instance : DecidableRel NotWrittenLater
  | .refused _ number, .wrote w => inferInstanceAs (Decidable (w.send ≠ number))
  | .refused _ _, .refused _ _ => .isTrue trivial
  | .wrote _, .wrote _ => .isTrue trivial
  | .wrote _, .refused _ _ => .isTrue trivial

/-- The datagram a session keeps. -/
def kept (s : DtlsClient cfg d) (j : Fin d.maxSessions) : Datagram :=
  ((s.transport.sessions j).peer, (s.transport.sessions j).txBuf)

/-- A Confirmable datagram that waits for a handshake is pending and tracked. -/
def KeptTracked (s : DtlsClient cfg d) : Prop :=
  ∀ j, (s.transport.sessions j).Waiting → IsConfirmable (s.kept j) →
    ∃ t i, s.client.Owns t i (s.kept j)

/-- **The transport and the client agree.** -/
structure Agrees (h : List DtlsEvent) (s : DtlsClient cfg d) : Prop where
  refused : h.Pairwise NotWrittenLater
  tracked : s.KeptTracked

/-- A datagram of this step may wait for a handshake: an ACK, a discovery, or the
retransmission of a request that is still pending. -/
def MayWait (c : Client cfg) : Action → Prop
  | .call call _ => ∃ ep onDiscover userContext, call.shape = .discover ep onDiscover userContext
  | .poll _ _ _ => True
  | .resume _ =>
    match c.control with
    | .polling (.dispatch _ _) _ => True
    | .polling (.tick index) _ => ∀ h : index < cfg.maxTransactions,
      ∃ i, (c.slots i).pending.active = true ∧
        (c.slots i).pending.call = (c.transactions ⟨index, h⟩).owner
    | _ => False

/-- The answers of mbedTLS in a step. -/
def Action.ssl : Action → Ssl
  | .call _ ssl => ssl
  | .poll _ _ ssl => ssl
  | .resume ssl => ssl

/-- No datagram is kept for a handshake that may not wait, and no request whose
datagram waits for one is given up. -/
structure Clear (s : DtlsClient cfg d) (a : Action) : Prop where
  fresh : ∀ dest data, s.client.offered (s.clientAction a) = some (dest, data) →
    s.transport.Keeps dest a.ssl → MayWait s.client a
  held  : ∀ j t i, (s.transport.sessions j).Waiting → IsConfirmable (s.kept j) →
    s.client.Owns t i (s.kept j) →
      (∀ ok, ¬ s.client.Ends i (s.clientAction a ok)) ∧ ((∃ ssl, a = .resume ssl) →
        ¬ s.client.TimesOut t)

end DtlsClient

-- ===========================================================================
-- Which datagrams a step sends
-- ===========================================================================

namespace Client

/-- What a step offers to the transport is what it sends if the transport accepts. -/
theorem offered_sent {c : Client cfg} {a : Bool → Action} {m : Datagram}
    (h : c.offered a = some m) : .sent m.1 m.2 ∈ (c.step (a true)).2 := by
  obtain ⟨e, he, hm⟩ := List.exists_of_findSome?_eq_some h
  cases e with
  | sent dest data =>
    cases hm
    exact he
  | accepted | response | timeout | discovered => cases hm

/-- A discovery is Non-confirmable. -/
theorem discover_offered {c : Client cfg} {call : ClientCall} {ep : Endpoint}
    {onDiscover userContext : Option Ref} (hshape : call.shape = .discover ep onDiscover userContext)
    {m : Datagram} (h : c.offered (.call call) = some m) : ¬ IsConfirmable m := by
  have hsent := offered_sent h
  rcases step_cases c (.call call true) with heq | ⟨_, _, ha, -, heq⟩ | ⟨_, _, ha, -⟩ |
    ⟨_, _, _, ha, -⟩
  · rw [heq] at hsent
    cases hsent
  · cases ha
    rw [heq, call_eq, hshape] at hsent
    dsimp only at hsent
    rcases discover_cases c ep onDiscover userContext true with ⟨_, _, heq, -⟩ | ⟨_, buf, -, hd, heq⟩
    · rw [heq] at hsent
      cases hsent
    · rw [heq] at hsent
      have hm : m = (ep, buf) := by
        cases List.mem_singleton.1 hsent
        rfl
      rw [hm, isConfirmable_iff (buildRequest_header hd)]
      exact nofun
  · cases ha
  · cases ha

/-- The dispatch of a response sends no more than the ACK. -/
theorem dispatchResponse_sent (c : Client cfg) (sender : Endpoint) (msg : Message)
    (dest : Endpoint) (data : Bytes) : .sent dest data ∉ (c.dispatchResponse sender msg).2 := by
  intro hsent
  rcases dispatchResponse_cases c sender msg with ⟨j, -, heq⟩ | ⟨j, -, -, heq⟩ | ⟨-, -, heq⟩
  · rw [heq] at hsent
    cases hd : (c.discovers j).onDiscover <;> rw [hd] at hsent <;> cases hsent
    next h => cases h
  · rw [heq] at hsent
    obtain ⟨up, recv, -, -, h⟩ := dispatchPending_cases c j sender msg
    rcases h with ⟨-, -, heq⟩ | ⟨-, heq⟩ | ⟨res, fragmented, heq⟩
    · rw [heq] at hsent
      cases hsent
    · rw [heq] at hsent
      cases hsent
    · rw [heq, fireResponse_eq] at hsent
      cases hr : ((c.setBlocks j up recv).slots j).pending.onResponse <;>
        rw [hr] at hsent <;>
        cases hsent
      next h => cases h
  · rw [heq] at hsent
    cases hsent

/-- The ACK of a separate response is not confirmable. -/
theorem dispatch_offered {c : Client cfg} {sender : Endpoint} {msg : Message} {b : Bool}
    (hk : c.control = .polling (.dispatch sender msg) b) {m : Datagram}
    (h : c.offered .resume = some m) : ¬ IsConfirmable m := by
  have hsent := offered_sent h
  rw [step_resume hk] at hsent
  rcases List.mem_append.1 hsent with hsent | hsent
  · unfold ackEvents at hsent
    split at hsent
    · split at hsent
      · next buf hbuf =>
        cases List.mem_singleton.1 hsent
        obtain ⟨req, hreq, henc⟩ := transmit_some hbuf
        cases hreq
        intro hcon
        have htype := Message.encode_type henc (Nat.zero_le _)
        exact nomatch htype.symm.trans hcon
      · cases hsent
    · cases hsent
  · exact absurd hsent (dispatchResponse_sent c sender msg _ _)

/-- A timeout callback sends nothing by itself. -/
theorem fireTimeout_sent (c : Client cfg) (call : Call) (ctx : Option Ref) (k : Cont cfg)
    (dest : Endpoint) (data : Bytes) : .sent dest data ∉ (c.fireTimeout call ctx k).2 := by
  intro hsent
  rw [fireTimeout_eq, Option.mem_toList, Option.map_eq_some_iff] at hsent
  obtain ⟨h, -, heq⟩ := hsent
  cases heq

/-- At the scan, what is sent is the message of the transaction, which waits on. -/
theorem tick_offered {c : Client cfg} {index : Nat} {b : Bool}
    (hk : c.control = .polling (.tick index) b) {m : Datagram}
    (h : c.offered .resume = some m) :
    ∃ hlt : index < cfg.maxTransactions,
      let t : Fin cfg.maxTransactions := ⟨index, hlt⟩
      Awaiting (c.transactions t) ∧ m = ((c.transactions t).remote, (c.transactions t).message) ∧
        ∀ ok, (c.step (.resume ok)).1 = (c.resent t).at' (.tick (index + 1)) false := by
  obtain ⟨dest, data⟩ := m
  have hsent := offered_sent h
  rw [step_resume hk, resume_tick] at hsent
  split at hsent
  · next hlt =>
    rcases tickAt_cases c ⟨index, hlt⟩ true with ⟨-, heq⟩ | ⟨ha, hdue, hmore, heq⟩ | ⟨-, -, -, heq⟩
    · rw [heq] at hsent
      cases hsent
    · rw [heq] at hsent
      refine ⟨hlt, ha, ?_, fun ok => ?_⟩
      · cases List.mem_singleton.1 hsent
        rfl
      · -- the scan does not look at the result of the resend
        rw [step_resume hk, resume_tick, dif_pos hlt]
        rcases tickAt_cases c ⟨index, hlt⟩ ok with ⟨hnot, -⟩ | ⟨-, -, -, heq⟩ | ⟨-, -, hlast, -⟩
        · exact nomatch (hnot ha).symm.trans hdue
        · rw [heq]
        · exact absurd hmore hlast
    · rw [heq] at hsent
      rcases timeoutTrampoline_cases (c.freed ⟨index, hlt⟩) (c.transactions ⟨index, hlt⟩).token
        (c.transactions ⟨index, hlt⟩).owner (.tick (index + 1)) with ⟨j, -, heq⟩ | ⟨-, heq⟩
      · rw [heq] at hsent
        exact absurd hsent (fireTimeout_sent _ _ _ _ _ _)
      · rw [heq] at hsent
        exact absurd hsent (fireTimeout_sent _ _ _ _ _ _)
  · cases hsent

-- ===========================================================================
-- What a step leaves of a request
-- ===========================================================================

/-- A request that the step does not give up keeps its slot and its transaction. -/
theorem Owns.step {c : Client cfg} {t i : Fin cfg.maxTransactions} {m : Datagram}
    (o : c.Owns t i m) {a : Action} (hends : ¬ c.Ends i a) (hdrops : ¬ c.Drops t a) :
    (c.step a).1.Owns t i m := by
  have hslot := pending_kept o.active hends
  rcases transaction_step c a t with hlasts | ⟨hfree, -⟩
  · exact {
      waiting := hlasts.waiting o.waiting hdrops
      remote := hlasts.remote.trans o.remote
      message := hlasts.message.trans o.message
      active := by rw [hslot]; exact o.active
      call := by rw [hslot, hlasts.owner]; exact o.call }
  · exact nomatch hfree.symm.trans o.waiting

/-- Every message of the pool fits its array. -/
def MessagesFit (c : Client cfg) : Prop := ∀ t, (c.transactions t).message.length ≤ cfg.maxMsgSize

/-- What waits in the pool is no longer than a datagram. -/
theorem MessagesFit.step {c : Client cfg} (hfit : c.MessagesFit) (a : Action) :
    (c.step a).1.MessagesFit := by
  intro t
  rcases transaction_step c a t with hlasts | ⟨-, hlen⟩
  · rw [hlasts.message]
    exact hfit t
  · exact hlen

end Client

namespace DtlsClient

-- ===========================================================================
-- The invariant
-- ===========================================================================

/-- What a clear run keeps. -/
structure Inv (h : List DtlsEvent) (s : DtlsClient cfg d) : Prop where
  sound   : s.transport.Sound
  fit     : s.client.MessagesFit
  counted : ∀ call number, .refused call number ∈ h → number < s.sends
  waiting : ∀ j, (s.transport.sessions j).Waiting → (s.transport.sessions j).txSend < s.sends ∧
    ∀ call, .refused call (s.transport.sessions j).txSend ∉ h
  agrees  : Agrees h s

/-- Writes behind the history that write nothing it has refused. -/
theorem pairwise_writes {h : List DtlsEvent} (hp : h.Pairwise NotWrittenLater)
    {ws : List SslWrite} (hws : ∀ w ∈ ws, ∀ call, .refused call w.send ∉ h) :
    (h ++ ws.map DtlsEvent.wrote).Pairwise NotWrittenLater := by
  refine List.pairwise_append.2 ⟨hp, ?_, ?_⟩
  · refine List.pairwise_map.2 (List.pairwise_of_forall fun _ _ => trivial)
  · intro e he e' he'
    obtain ⟨w, hw, rfl⟩ := List.mem_map.1 he'
    cases e with
    | wrote _ => trivial
    | refused call number =>
      intro heq
      exact hws w hw call (heq ▸ he)

/-- A refusal behind the history writes nothing. -/
theorem pairwise_refusal {h : List DtlsEvent} (hp : h.Pairwise NotWrittenLater)
    (s : DtlsClient cfg d) (call : ClientCall) (ok : Bool) :
    (h ++ s.refusal call ok).Pairwise NotWrittenLater := by
  unfold refusal
  split
  · refine List.pairwise_append.2 ⟨hp, List.pairwise_singleton .., fun e _ e' he' => ?_⟩
    rw [List.mem_singleton.1 he']
    cases e <;> trivial
  · rwa [List.append_nil]

/-- A refused call is a request, and the number of its `send` is known. -/
theorem mem_refusal {s : DtlsClient cfg d} {call call' : ClientCall} {ok : Bool} {number : Nat}
    (h : .refused call' number ∈ s.refusal call ok) :
    number = s.sends ∧ isRequest call = true ∧ ∃ m, s.client.offered (.call call) = some m := by
  unfold refusal at h
  split at h
  · next hc =>
    cases List.mem_singleton.1 h
    exact ⟨rfl, hc.1, Option.isSome_iff_exists.1 hc.2.1⟩
  · cases h

/-- What mbedTLS writes is no refusal. -/
theorem not_mem_writes {ws : List SslWrite} {call : ClientCall} {number : Nat} :
    DtlsEvent.refused call number ∉ ws.map DtlsEvent.wrote := by
  intro h
  obtain ⟨w, -, heq⟩ := List.mem_map.1 h
  cases heq

/-- What waited keeps its owner, when the step drops no transaction of the peer. -/
theorem tracked_step {s : DtlsClient cfg d} (hkept : s.KeptTracked) {a : Action}
    (hclear : Clear s a) {ok : Bool} {j : Fin d.maxSessions}
    (hw : (s.transport.sessions j).Waiting) (hcon : IsConfirmable (s.kept j))
    (hdrops : ∀ t, (s.client.transactions t).remote = (s.transport.sessions j).peer →
      s.client.Drops t (s.clientAction a ok) → (∃ ssl, a = .resume ssl) ∧ s.client.TimesOut t) :
    ∃ t i, (s.client.step (s.clientAction a ok)).1.Owns t i (s.kept j) := by
  obtain ⟨t, i, ho⟩ := hkept j hw hcon
  obtain ⟨hends, hout⟩ := hclear.held j t i hw hcon ho
  refine ⟨t, i, ho.step (hends ok) fun hd => ?_⟩
  obtain ⟨hresume, htimes⟩ := hdrops t ho.remote hd
  exact hout hresume htimes

/-- A step that hears nothing drops a transaction only at the scan. -/
theorem drops_sending {s : DtlsClient cfg d} {a : Action} (ha : ∀ nowMs raw ssl, a ≠ .poll nowMs raw ssl)
    {ok : Bool} {t : Fin cfg.maxTransactions} (hd : s.client.Drops t (s.clientAction a ok)) :
    (∃ ssl, a = .resume ssl) ∧ s.client.TimesOut t := by
  cases a with
  | call call ssl => cases hd
  | poll nowMs raw ssl => exact absurd rfl (ha nowMs raw ssl)
  | resume ssl =>
    cases hd with
    | timeout hout => exact ⟨⟨ssl, rfl⟩, hout⟩

-- ===========================================================================
-- Steps
-- ===========================================================================

theorem kept_congr {s s' : DtlsClient cfg d} {j : Fin d.maxSessions}
    (h : s'.transport.sessions j = s.transport.sessions j) : s'.kept j = s.kept j := by
  unfold kept
  rw [h]

/-- The state after a `poll`. -/
def polled (s : DtlsClient cfg d) (nowMs : UInt32) (raw : Option Endpoint) (ssl : Ssl) :
    DtlsClient cfg d :=
  { s with
    client := (s.client.step (s.clientAction (.poll nowMs raw ssl) true)).1
    transport := (s.transport.receive cfg.maxMsgSize raw ssl).1 }

/-- A poll inside a poll does nothing; else the transport receives, and the client polls. -/
theorem next_poll (s : DtlsClient cfg d) (nowMs : UInt32) (raw : Option Endpoint) (ssl : Ssl) :
    s.next (.poll nowMs raw ssl) = (s, []) ∨
      s.next (.poll nowMs raw ssl) = (s.polled nowMs raw ssl,
        (s.transport.receive cfg.maxMsgSize raw ssl).2.2.map .wrote) := by
  unfold next
  cases s.client.control with
  | idle => exact .inr rfl
  | polling k b => exact .inl rfl

/-- A `poll` hands the client a datagram of an established session, so the ACK or
the Reset in it is for no request that waits. -/
theorem Inv.poll {h : List DtlsEvent} {s : DtlsClient cfg d} (inv : Inv h s) {nowMs : UInt32}
    {raw : Option Endpoint} {ssl : Ssl} (hclear : Clear s (.poll nowMs raw ssl)) :
    Inv (h ++ (s.next (.poll nowMs raw ssl)).2) (s.next (.poll nowMs raw ssl)).1 := by
  rcases next_poll s nowMs raw ssl with heq | heq
  · rw [heq, List.append_nil]
    exact inv
  rw [heq]
  have hwithin := DtlsTransport.receive_within inv.sound cfg.maxMsgSize raw ssl
  refine ⟨hwithin.sound, inv.fit.step _, fun call number hmem => ?_, fun j hw => ?_, ?_, ?_⟩
  · rcases List.mem_append.1 hmem with hmem | hmem
    · exact inv.counted call number hmem
    · exact absurd hmem not_mem_writes
  · have hsame : (s.polled nowMs raw ssl).transport.sessions j = s.transport.sessions j :=
      hwithin.waiting j hw
    rw [hsame] at hw ⊢
    obtain ⟨hlt, hnew⟩ := inv.waiting j hw
    refine ⟨hlt, fun call hmem => ?_⟩
    rcases List.mem_append.1 hmem with hmem | hmem
    · exact hnew call hmem
    · exact absurd hmem not_mem_writes
  · refine pairwise_writes inv.agrees.refused fun w hw call => ?_
    obtain ⟨j, hwait, hsend⟩ := DtlsTransport.receive_writes inv.sound hw
    rw [hsend]
    exact (inv.waiting j hwait).2 call
  · intro j hw hcon
    have hsame : (s.polled nowMs raw ssl).transport.sessions j = s.transport.sessions j :=
      hwithin.waiting j hw
    rw [kept_congr hsame] at hcon ⊢
    refine tracked_step inv.agrees.tracked hclear (hsame ▸ hw) hcon fun t hremote hdrops => ?_
    -- what the message names is a transaction of its sender, who has an established session
    exfalso
    replace hdrops : s.client.Drops t
      (.poll nowMs (s.transport.receive cfg.maxMsgSize raw ssl).2.1) := hdrops
    cases hrx : (s.transport.receive cfg.maxMsgSize raw ssl).2.1 with
    | none =>
      rw [hrx] at hdrops
      cases hdrops
    | some rx =>
      obtain ⟨sender, data⟩ := rx
      rw [hrx] at hdrops
      cases hdrops with
      | complete hnamed =>
        have hsender := (TransactionPool.matchesId_iff.1 (Table.find?_spec hnamed)).2.1
        refine DtlsTransport.receive_sender inv.sound hrx j hw ?_
        rw [show (s.transport.receive cfg.maxMsgSize raw ssl).1.sessions j = _ from hsame,
          ← hremote, hsender]

/-- The state after a step that has sent. -/
def sent (s : DtlsClient cfg d) (a : Bool → Client.Action) (dest : Endpoint) (data : Bytes)
    (ssl : Ssl) : DtlsClient cfg d :=
  { client := (s.client.step (a (s.transport.send dest data s.sends ssl).2.1)).1
    transport := (s.transport.send dest data s.sends ssl).1
    sends := s.sends + 1 }

/-- What waits then has waited before, or is the datagram of the step. -/
theorem sent_waiting {s : DtlsClient cfg d} (hs : s.transport.Sound) {a : Bool → Client.Action}
    {dest : Endpoint} {data : Bytes} {ssl : Ssl} {j : Fin d.maxSessions}
    (hw : ((s.sent a dest data ssl).transport.sessions j).Waiting) :
    (s.sent a dest data ssl).transport.sessions j = s.transport.sessions j ∨
      (s.sent a dest data ssl).kept j = (dest, data.take cfg.maxMsgSize) ∧
        s.transport.Keeps dest ssl ∧
        ((s.sent a dest data ssl).transport.sessions j).txSend = s.sends := by
  rcases DtlsTransport.send_waiting hs hw with hsame | ⟨hpeer, hkeeps, hbuf, hnumber⟩
  · exact .inl hsame
  · exact .inr ⟨Prod.ext hpeer hbuf, hkeeps, hnumber⟩

/-- The type can be read off a part of the datagram. -/
theorem isConfirmable_take {dest : Endpoint} {data : Bytes} {n : Nat}
    (h : IsConfirmable (dest, data.take n)) : IsConfirmable (dest, data) := by
  unfold IsConfirmable datagramType at h ⊢
  rw [List.head?_take] at h
  split at h
  · cases h
  · exact h

/-- A Confirmable datagram that is kept is the retransmission of a pending request. -/
theorem owns_kept {s : DtlsClient cfg d} (hfit : s.client.MessagesFit) {a : Action}
    (ha : ∀ nowMs raw ssl, a ≠ .poll nowMs raw ssl) (hmay : MayWait s.client a) {dest : Endpoint}
    {data : Bytes} (hoff : s.client.offered (s.clientAction a) = some (dest, data))
    (hcon : IsConfirmable (dest, data.take cfg.maxMsgSize)) (ok : Bool) :
    ∃ t i, (s.client.step (s.clientAction a ok)).1.Owns t i (dest, data.take cfg.maxMsgSize) := by
  cases a with
  | call call ssl =>
    obtain ⟨ep, onDiscover, userContext, hshape⟩ := hmay
    exact absurd (isConfirmable_take hcon) (Client.discover_offered hshape hoff)
  | poll nowMs raw ssl => exact absurd rfl (ha nowMs raw ssl)
  | resume ssl =>
    unfold MayWait at hmay
    dsimp only at hmay
    split at hmay
    · next hk => exact absurd (isConfirmable_take hcon) (Client.dispatch_offered hk hoff)
    · next index b hk =>
      obtain ⟨hlt, hwaits, hm, hstep⟩ := Client.tick_offered hk hoff
      obtain ⟨i, hactive, hcall⟩ := hmay hlt
      cases hm
      rw [List.take_of_length_le (hfit _)]
      refine ⟨⟨index, hlt⟩, i, ?_⟩
      rw [show s.clientAction (.resume ssl) ok = .resume ok from rfl, hstep ok]
      -- the transaction has only its timer moved
      have hentry : ((s.client.resent ⟨index, hlt⟩).at' (.tick (index + 1)) false).transactions
          ⟨index, hlt⟩ = _ := Table.set_self ..
      exact {
        waiting := by rw [hentry]; exact hwaits
        remote := by rw [hentry]
        message := by rw [hentry]
        active := hactive
        call := by rw [hentry]; exact hcall }
    · exact hmay.elim

/-- What a step that may send leaves, before its refusal is noted. -/
theorem Inv.sending {h : List DtlsEvent} {s : DtlsClient cfg d} (inv : Inv h s) {a : Action}
    (ha : ∀ nowMs raw ssl, a ≠ .poll nowMs raw ssl) (hclear : Clear s a) :
    let r := s.sending (s.clientAction a) a.ssl
    Inv (h ++ r.2.2.map .wrote) r.1 ∧ ∀ m, s.client.offered (s.clientAction a) = some m →
      s.sends < r.1.sends ∧ ∀ j, (r.1.transport.sessions j).Waiting →
        (r.1.transport.sessions j).txSend = s.sends → MayWait s.client a := by
  unfold DtlsClient.sending
  cases hoff : s.client.offered (s.clientAction a) with
  -- the call offers nothing to the transport
  | none =>
    dsimp only
    rw [List.map_nil, List.append_nil]
    refine ⟨⟨inv.sound, inv.fit.step _, inv.counted, inv.waiting, inv.agrees.refused, ?_⟩, nofun⟩
    intro j hw hcon
    exact tracked_step inv.agrees.tracked hclear hw hcon fun t _ hd => drops_sending ha hd
  | some m =>
    obtain ⟨dest, data⟩ := m
    dsimp only
    -- the number of this send is new: no refusal so far is about it
    have hsends : ∀ call number, .refused call number ∈ h → number ≠ s.sends :=
      fun call number hmem heq => absurd (inv.counted call number hmem) (by omega)
    show Inv _ (s.sent (s.clientAction a) dest data a.ssl) ∧ ∀ m, _ →
      s.sends < (s.sent (s.clientAction a) dest data a.ssl).sends ∧
        ∀ j, ((s.sent (s.clientAction a) dest data a.ssl).transport.sessions j).Waiting →
          ((s.sent (s.clientAction a) dest data a.ssl).transport.sessions j).txSend = s.sends → _
    refine ⟨⟨DtlsTransport.send_sound inv.sound dest data s.sends a.ssl, inv.fit.step _,
      fun call number hmem => ?_, fun j hw => ?_, ?_, fun j hw hcon => ?_⟩, ?_⟩
    · -- the numbers of the refusals so far
      rcases List.mem_append.1 hmem with hmem | hmem
      · exact Nat.lt_succ_of_lt (inv.counted call number hmem)
      · exact absurd hmem not_mem_writes
    · -- what is still waiting has not been refused
      have hnot : ∀ number, (∀ call, .refused call number ∉ h) → ∀ call,
          .refused call number ∉ h ++ (s.transport.send dest data s.sends a.ssl).2.2.map
            DtlsEvent.wrote := by
        intro number hh call hmem
        rcases List.mem_append.1 hmem with hmem | hmem
        · exact hh call hmem
        · exact absurd hmem not_mem_writes
      rcases sent_waiting inv.sound hw with hsame | ⟨-, -, hnumber⟩
      · rw [hsame] at hw ⊢
        obtain ⟨hlt, hnew⟩ := inv.waiting j hw
        exact ⟨Nat.lt_succ_of_lt hlt, hnot _ hnew⟩
      · rw [hnumber]
        exact ⟨Nat.lt_succ_self _, hnot _ fun call hmem => hsends call _ hmem rfl⟩
    · -- refused and then written after all: not by a later send
      refine pairwise_writes inv.agrees.refused fun w hw call hmem => ?_
      exact hsends call _ hmem (DtlsTransport.send_writes hw)
    · -- what waits is tracked: it waited before, or it is what the call has just sent
      rcases sent_waiting inv.sound hw with hsame | ⟨hkept, hkeeps, -⟩
      · rw [kept_congr hsame] at hcon ⊢
        exact tracked_step inv.agrees.tracked hclear (hsame ▸ hw) hcon
          fun t _ hd => drops_sending ha hd
      · rw [hkept] at hcon ⊢
        exact owns_kept inv.fit ha (hclear.fresh dest data hoff hkeeps) hoff hcon _
    · -- a datagram that is waiting under the number of this send is the one it kept
      intro m hm
      cases hm
      refine ⟨Nat.lt_succ_self _, fun j hw hnumber => ?_⟩
      rcases sent_waiting inv.sound hw with hsame | ⟨-, hkeeps, -⟩
      · rw [hsame] at hw hnumber
        exact absurd (inv.waiting j hw).1 (by omega)
      · exact hclear.fresh dest data hoff hkeeps

/-- The refusal of a call is of a datagram that does not wait. -/
theorem Inv.call {h : List DtlsEvent} {s : DtlsClient cfg d} (inv : Inv h s) {call : ClientCall}
    {ssl : Ssl} (hclear : Clear s (.call call ssl)) :
    Inv (h ++ (s.next (.call call ssl)).2) (s.next (.call call ssl)).1 := by
  obtain ⟨hinv, hnew⟩ := inv.sending (a := .call call ssl) nofun hclear
  show Inv (h ++ (_ ++ _)) _
  rw [← List.append_assoc]
  refine ⟨hinv.sound, hinv.fit, fun call' number hmem => ?_, fun j hw => ?_, ?_, hinv.agrees.tracked⟩
  · rcases List.mem_append.1 hmem with hmem | hmem
    · exact hinv.counted call' number hmem
    · obtain ⟨rfl, -, m, hm⟩ := mem_refusal hmem
      exact (hnew m hm).1
  · obtain ⟨hlt, hfresh⟩ := hinv.waiting j hw
    refine ⟨hlt, fun call' hmem => ?_⟩
    rcases List.mem_append.1 hmem with hmem | hmem
    · exact hfresh call' hmem
    · -- what waits is the datagram of a discovery, and no request
      obtain ⟨hnumber, hreq, m, hm⟩ := mem_refusal hmem
      obtain ⟨ep, onDiscover, userContext, hshape⟩ := (hnew m hm).2 j hw hnumber
      unfold isRequest at hreq
      rw [hshape] at hreq
      cases hreq
  · exact pairwise_refusal hinv.agrees.refused s call _

/-- **A step keeps the invariant** under the condition on its kept datagrams. A poll writes what
has waited; a call may leave something to wait. -/
theorem Inv.step {h : List DtlsEvent} {s : DtlsClient cfg d} (inv : Inv h s) {a : Action}
    (hclear : Clear s a) : Inv (h ++ (s.next a).2) (s.next a).1 := by
  cases a with
  | call call ssl => exact inv.call hclear
  | poll nowMs raw ssl => exact inv.poll hclear
  | resume ssl => exact (inv.sending (a := .resume ssl) nofun hclear).1

theorem inv_init (cfg : Config) (d : DtlsConfig) (isServer : Bool) :
    Inv [] (machine cfg d isServer).init where
  sound := ⟨fun _ _ hi => absurd rfl hi, fun _ _ => rfl⟩
  fit _ := Nat.zero_le _
  counted := nofun
  waiting _ hw := absurd hw (by decide : ¬ ({} : Session).Waiting)
  agrees := ⟨.nil, fun _ hw => absurd hw (by decide : ¬ ({} : Session).Waiting)⟩

/-- **A refused request never goes out, and a Confirmable one that is kept is tracked**, in
every run with only such datagrams kept that may wait, and no request given up whose datagram
waits. The answers of mbedTLS are arbitrary. -/
theorem agrees_of_clear {isServer : Bool} {h : List DtlsEvent} {s : DtlsClient cfg d}
    (r : (machine cfg d isServer).Run Clear h s) : Agrees h s :=
  (Machine.Run.invariant (inv_init cfg d isServer) (fun _ inv hclear => inv.step hclear) r).agrees

/-- A step while no Confirmable datagram waits: only what it sends itself is asked about. -/
def ClearUnkept (s : DtlsClient cfg d) (a : Action) : Prop :=
  (∀ j, (s.transport.sessions j).Waiting → ¬ IsConfirmable (s.kept j)) ∧
    ∀ m ∈ s.client.offered (s.clientAction a), s.transport.Keeps m.1 a.ssl → MayWait s.client a

/-- Keeping nothing is enough. -/
theorem ClearUnkept.clear {s : DtlsClient cfg d} {a : Action} (h : ClearUnkept s a) : Clear s a where
  fresh _ _ hoff hkeeps := h.2 _ hoff hkeeps
  held j _ _ hw hcon := absurd hcon (h.1 j hw)

instance (call : ClientCall) :
    Decidable (∃ ep h ctx, call.shape = .discover ep h ctx) :=
  match call.shape with
  | .discover ep onDiscover ctx => .isTrue ⟨ep, onDiscover, ctx, rfl⟩
  | .issue _ => .isFalse nofun
  | .cancel _ _ => .isFalse nofun
  | .handler _ => .isFalse nofun

instance (c : Client cfg) : ∀ a, Decidable (MayWait c a)
  | .call _ _ => inferInstanceAs (Decidable (∃ _, _))
  | .poll _ _ _ => .isTrue trivial
  | .resume _ => by
    unfold MayWait
    dsimp only
    split <;> infer_instance

instance (s : DtlsClient cfg d) (a : Action) : Decidable (ClearUnkept s a) :=
  inferInstanceAs (Decidable (_ ∧ _))

def otherServer : Endpoint := ⟨.v4 127 0 0 2, 5684⟩

/-- A session is opened by a discovery, lost to another one whose handshake fails,
and opened anew by the retransmission of the request that was sent in between. -/
def retransmitted : List Action :=
  [.call (.discover Client.localServer none none) {},
    .poll 10 (some Client.localServer) { handshake := .complete }] ++
  List.replicate 6 (.resume {}) ++
  [.call (.get Client.localServer Client.pathA none none true) { write := 7 },
    .call (.discover otherServer none none) { handshake := .error },
    .poll 9000 none {}, .resume {}, .resume {}]

/-- One session for the whole transport. -/
def oneSession : Machine (DtlsClient .default { maxSessions := 1 }) Action DtlsEvent :=
  machine .default { maxSessions := 1 } false

theorem agrees_of_clear_retransmitted :
    Agrees (oneSession.exec [] oneSession.init retransmitted).1
        (oneSession.exec [] oneSession.init retransmitted).2 ∧
      ((oneSession.exec [] oneSession.init retransmitted).2.transport.sessions 0).Waiting ∧
      IsConfirmable ((oneSession.exec [] oneSession.init retransmitted).2.kept 0) :=
  ⟨agrees_of_clear (.mono (fun _ _ h => ClearUnkept.clear h) (Machine.Run.start.exec (by decide +kernel))),
    by decide +kernel, by decide +kernel⟩

/-- A `get` to a peer without a session, and the end of the handshake. -/
def firstGet : List Action :=
  [.call (.get Client.localServer Client.pathA none none true) {},
    .poll 10 (some Client.localServer) { handshake := .complete }]

/-- **A first `get` is refused, kept without a transaction, and written later**: `send` has
returned false, and the datagram waits for the end of the handshake all the same. -/
theorem not_agrees :
    (¬ ∀ h s, (machine .default {} false).Run (fun _ _ => True) h s →
        h.Pairwise NotWrittenLater) ∧
      ¬ ∀ h s, (machine .default {} false).Run (fun _ _ => True) h s → s.KeptTracked := by
  have hrun : ∀ as, (machine .default {} false).Run (fun _ _ => True)
      ((machine .default {} false).exec [] (machine .default {} false).init as).1
      ((machine .default {} false).exec [] (machine .default {} false).init as).2 := fun _ =>
    Machine.Run.start.exec (Machine.meets_of_forall (fun _ _ => trivial) _ _)
  constructor
  · intro hall
    exact absurd (hall _ _ (hrun firstGet)) (by decide +kernel)
  · intro hall
    obtain ⟨t, i, ho⟩ := hall _ _ (hrun (firstGet.take 1)) 0 (by decide +kernel) (by decide +kernel)
    have hnone : ∀ t, ¬ Awaiting (((machine .default {} false).exec [] (machine .default {} false).init
      (firstGet.take 1)).2.client.transactions t) := by decide +kernel
    exact hnone t ho.waiting

end DtlsClient

end PulseCoap
