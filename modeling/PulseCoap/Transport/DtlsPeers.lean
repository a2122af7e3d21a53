import PulseCoap.Lib.Run
import PulseCoap.Transport.Dtls

/-!
# PulseCoAP — the peers of a DTLS server

A record of a peer without a session starts one. When a handshake ends in FAILED, the session
stays in the table, and `findSession` finds it: what its peer sends next is dropped. `send` has
a case that reclaims the slot, and `allocSession` takes it when the table is full; `receive` does
neither. So a peer is heard again after the server has sent to it, or another peer has come.

The calls of a transport are watched: `SessionEvent` is what they do with the sessions, in the
order of the source.

The events of a call are listed in the order in which the source causes them,
since a session may be given up and taken again in one call. `Handles` is one
relation for `send` and `receive`: the two do the same for a peer but for a
session that has FAILED, and the proofs are by its cases. A handshake that has
begun is left alone by the calls for other peers unless it is timed out or its
slot is needed.

* `Serves` — what a server owes its peers: one session each, and a new one for the datagram
  that comes next after a failure.
* `Admits` — the session table has what that takes.
* `Handles` — all that `send` and `receive` do for a peer, and where they differ.
* `served_iff` — over all runs, the peers are served exactly as long as the table admits those
  that come back.
* `not_served` — a peer that tries again.
* `Inv` — the invariant; `Inv.next` — what one step preserves.
-/

namespace PulseCoap

-- ===========================================================================
-- What happens to the sessions
-- ===========================================================================

/-- What a call of `send` or `receive` does with the session of a peer. -/
inductive SessionEvent where
  /-- `receive` has read a record of the peer. -/
  | arrived (peer : Endpoint)
  /-- `initSession` has returned true. -/
  | initialised (peer : Endpoint)
  /-- mbedTLS is called with the record that has been read. -/
  | fed (peer : Endpoint)
  /-- `driveHandshake` has left the session in this state. -/
  | driven (peer : Endpoint) (state : SessionState)
deriving DecidableEq, Repr

namespace DtlsTransport

variable {cfg : Config} {d : DtlsConfig}

/-- The events of `send`. -/
def sendEvents (t : DtlsTransport cfg d) (dest : Endpoint) (ssl : Ssl) : List SessionEvent :=
  match t.findSession dest with
  | none =>
    match t.allocSession dest with
    | none => []
    | some (i, t) =>
      if !ssl.setup then []
      else
        let s := (t.sessions i).initSession ssl.startMs
        [.initialised dest, .driven dest (s.driveHandshake ssl.handshake).state]
  | some i =>
    match (t.sessions i).state with
    | .handshaking => [.driven dest ((t.sessions i).driveHandshake ssl.handshake).state]
    | .established | .failed | .idle => []

/-- The events of the end of `receive`. -/
def recordEvents (t : DtlsTransport cfg d) (i : Fin d.maxSessions) (rawFrom : Endpoint)
    (ssl : Ssl) : List SessionEvent :=
  match (t.sessions i).state with
  | .handshaking =>
    [.fed rawFrom, .driven rawFrom ((t.sessions i).driveHandshake ssl.handshake).state]
  | .established => [.fed rawFrom]
  | .failed | .idle => []

/-- The events of `receive`. -/
def receiveEvents (t : DtlsTransport cfg d) (raw : Option Endpoint) (ssl : Ssl) :
    List SessionEvent :=
  let t := t.tickTimeouts ssl.tickMs
  match raw with
  | none => []
  | some rawFrom =>
    .arrived rawFrom ::
      match t.findSession rawFrom with
      | some i => t.recordEvents i rawFrom ssl
      | none =>
        if !t.isServer then []
        else
          match t.allocSession rawFrom with
          | none => []
          | some (i, t) =>
            if !ssl.setup then []
            else
              .initialised rawFrom ::
                (t.setSession i ((t.sessions i).initSession ssl.startMs)).recordEvents i rawFrom ssl

/-- A call of the transport, with the answers of mbedTLS in it. -/
inductive Action where
  | send (dest : Endpoint) (data : Bytes) (number : Nat) (ssl : Ssl)
  /-- `raw` is the source of the record that has come. -/
  | receive (capacity : Nat) (raw : Option Endpoint) (ssl : Ssl)
deriving DecidableEq, Repr

/-- What a call leaves, and what it does on the way. -/
def step (t : DtlsTransport cfg d) : Action → DtlsTransport cfg d × List SessionEvent
  | .send dest data number ssl => ((t.send dest data number ssl).1, t.sendEvents dest ssl)
  | .receive capacity raw ssl => ((t.receive capacity raw ssl).1, t.receiveEvents raw ssl)

/-- The handshake of the session goes on at this time. -/
def Busy (t : DtlsTransport cfg d) (millis : UInt32) (i : Fin d.maxSessions) : Prop :=
  (t.sessions i).state = .handshaking ∧
    ¬ millis - (t.sessions i).handshakeStartMs > d.handshakeTimeoutMs

instance (t : DtlsTransport cfg d) (millis : UInt32) (i : Fin d.maxSessions) :
    Decidable (t.Busy millis i) :=
  inferInstanceAs (Decidable (_ ∧ _))

end DtlsTransport

-- ===========================================================================
-- What a server owes its peers
-- ===========================================================================

/-- The transport of a server, and what has happened so far. -/
structure DtlsPeers (cfg : Config) (d : DtlsConfig) where
  transport : DtlsTransport cfg d := { isServer := true }
  events    : List SessionEvent := []

namespace DtlsPeers

open DtlsTransport (Action)

variable {cfg : Config} {d : DtlsConfig}

def next (w : DtlsPeers cfg d) (a : Action) : DtlsPeers cfg d × List SessionEvent :=
  ({ transport := (w.transport.step a).1, events := w.events ++ (w.transport.step a).2 },
    (w.transport.step a).2)

/-- A new transport in server mode. -/
def machine (cfg : Config) (d : DtlsConfig) : Machine (DtlsPeers cfg d) Action SessionEvent where
  init := {}
  next := next

/-- A handshake attempt of the peer has ended in FAILED. -/
def Failure (ep : Endpoint) (e : SessionEvent) : Prop := e = .driven ep .failed

/-- An attempt of the peer has ended in FAILED, and no datagram of it has come since. -/
def Owed (w : DtlsPeers cfg d) (ep : Endpoint) : Prop :=
  ¬ Followed (Failure ep) (· = .arrived ep) w.events

/-- A session of the peer has been initialised since the last failure. -/
def Fresh (ep : Endpoint) (events : List SessionEvent) : Prop :=
  Followed (Failure ep) (· = .initialised ep) events

/-- The call leaves alone a handshake of this peer that has begun at this time: it does not find
it timed out, and mbedTLS asks for more when it is driven. -/
def Spares (d : DtlsConfig) (ep : Endpoint) (startMs : UInt32) : Action → Prop
  | .send dest _ _ ssl => dest = ep → ssl.handshake = .wantRead ∨ ssl.handshake = .wantWrite
  | .receive _ raw ssl => ¬ ssl.tickMs - startMs > d.handshakeTimeoutMs ∧
      (raw = some ep → ssl.handshake = .wantRead ∨ ssl.handshake = .wantWrite)

/-- The call drives that handshake, and it succeeds. -/
def Completes (d : DtlsConfig) (ep : Endpoint) (startMs : UInt32) : Action → Prop
  | .send dest _ _ ssl => dest = ep ∧ ssl.handshake = .complete
  | .receive _ raw ssl => ¬ ssl.tickMs - startMs > d.handshakeTimeoutMs ∧ raw = some ep ∧
      ssl.handshake = .complete

/-- The peer has a session that is ESTABLISHED. -/
def Established (t : DtlsTransport cfg d) (ep : Endpoint) : Prop :=
  ∃ i, (t.sessions i).peer = ep ∧ (t.sessions i).state = .established

/-- The handshake of the peer has succeeded, or a later success reaches ESTABLISHED. -/
def Reaches (t : DtlsTransport cfg d) (ep : Endpoint) : Prop :=
  Established t ep ∨ ∃ i, (t.sessions i).peer = ep ∧ (t.sessions i).state = .handshaking ∧
    ∀ as a, (∀ b ∈ as, Spares d ep (t.sessions i).handshakeStartMs b) →
      Completes d ep (t.sessions i).handshakeStartMs a →
        Established ((as ++ [a]).foldl (fun t b => (t.step b).1) t) ep

/-- **The peers are served**: none has two sessions, and the datagram that comes next after a
failure is fed to a session initialised since, so that a success, now or later, reaches
ESTABLISHED. -/
structure Serves (w : DtlsPeers cfg d) (a : Action) : Prop where
  one     : (w.next a).1.transport.sessions.Keyed (fun s => s.state ≠ .idle) Session.peer
  fed     : ∀ capacity ep ssl, a = .receive capacity (some ep) ssl → w.Owed ep →
    ∃ pre post, (w.next a).2 = pre ++ .fed ep :: post ∧ Fresh ep (w.events ++ pre)
  reaches : ∀ capacity ep ssl, a = .receive capacity (some ep) ssl → w.Owed ep →
    (ssl.handshake = .complete → Established (w.next a).1.transport ep) ∧
      (ssl.handshake ≠ .error → Reaches (w.next a).1.transport ep)

end DtlsPeers

namespace DtlsTransport

variable {cfg : Config} {d : DtlsConfig}

/-- The table has a place for the peer: no session of it has failed, and it has another one, or
`mbedtls_ssl_setup` succeeds and not every slot is in a handshake. -/
def Admits (t : DtlsTransport cfg d) (ep : Endpoint) (ssl : Ssl) : Prop :=
  (∀ i, (t.sessions i).peer = ep → (t.sessions i).state ≠ .failed) ∧
    ((∃ i, (t.sessions i).peer = ep ∧
        ((t.sessions i).state = .established ∨ t.Busy ssl.tickMs i)) ∨
      ssl.setup = true ∧ ∃ i, ¬ t.Busy ssl.tickMs i)

instance (t : DtlsTransport cfg d) (ep : Endpoint) (ssl : Ssl) : Decidable (t.Admits ep ssl) :=
  inferInstanceAs (Decidable (_ ∧ (_ ∨ _)))

end DtlsTransport

/-- A peer that comes back after a failure is admitted. -/
def DtlsPeers.Welcomes {cfg : Config} {d : DtlsConfig} (w : DtlsPeers cfg d)
    (a : DtlsTransport.Action) : Prop :=
  ∀ capacity ep ssl, a = .receive capacity (some ep) ssl → w.Owed ep → w.transport.Admits ep ssl

namespace DtlsTransport

variable {cfg : Config} {d : DtlsConfig}

-- ===========================================================================
-- One call
-- ===========================================================================

theorem firstIn_none {t : DtlsTransport cfg d} {state : SessionState} (h : t.firstIn state = none)
    (i : Fin d.maxSessions) : (t.sessions i).state ≠ state :=
  beq_eq_false_iff_ne.1 (Table.find?_eq_none.1 h i)

theorem firstIn_some {t : DtlsTransport cfg d} {state : SessionState} {i : Fin d.maxSessions}
    (h : t.firstIn state = some i) : (t.sessions i).state = state :=
  beq_iff_eq.1 (Table.find?_spec h)

/-- The slot of a handshake is not given away. -/
theorem allocSession_spec {t t' : DtlsTransport cfg d} {ep : Endpoint} {i : Fin d.maxSessions}
    (h : t.allocSession ep = some (i, t')) :
    (t.sessions i).state ≠ .handshaking ∧ ∃ s : Session, t' = t.setSession i s ∧ s.peer = ep := by
  have hother : ∀ {state : SessionState}, t.firstIn state = some i → state ≠ .handshaking →
      (t.sessions i).state ≠ .handshaking := fun hi hne => by rwa [firstIn_some hi]
  unfold allocSession at h
  split at h
  · next hidle =>
    cases h
    exact ⟨hother hidle nofun, _, rfl, rfl⟩
  · next =>
    split at h
    · next hfailed =>
      cases h
      exact ⟨hother hfailed nofun, _, setSession_setSession .., rfl⟩
    · split at h
      · next hestablished =>
        cases h
        exact ⟨hother hestablished nofun, _, setSession_setSession .., rfl⟩
      · cases h

/-- No slot is given away when all are in a handshake. -/
theorem allocSession_none {t : DtlsTransport cfg d} {ep : Endpoint}
    (h : t.allocSession ep = none) (i : Fin d.maxSessions) :
    (t.sessions i).state = .handshaking := by
  unfold allocSession at h
  split at h
  · cases h
  · next hidle =>
    split at h
    · cases h
    · next hfailed =>
      split at h
      · cases h
      · next hestablished =>
        cases hstate : (t.sessions i).state with
        | handshaking => rfl
        | idle => exact absurd hstate (firstIn_none hidle i)
        | failed => exact absurd hstate (firstIn_none hfailed i)
        | established => exact absurd hstate (firstIn_none hestablished i)

end DtlsTransport

/-- The session after `driveHandshake`, but for what waits to be sent. -/
structure Session.Driven (s₀ : Session) (r : HandshakeResult) (s : Session) : Prop where
  peer  : s.peer = s₀.peer
  start : s.handshakeStartMs = s₀.handshakeStartMs
  state : s.state = (s₀.driveHandshake r).state

/-- Driving writes the state only. -/
theorem Session.driven (s : Session) (r : HandshakeResult) : s.Driven r (s.driveHandshake r) := by
  cases r <;> exact ⟨rfl, rfl, rfl⟩

/-- Neither the buffer nor what waits in it has a say. -/
theorem Session.Driven.congr {s₀ s₁ s s' : Session} {r : HandshakeResult} (h : s₀.Driven r s)
    (hpeer : s₀.peer = s₁.peer) (hstart : s₀.handshakeStartMs = s₁.handshakeStartMs)
    (hstate : s₀.state = s₁.state) (hpeer' : s'.peer = s.peer)
    (hstart' : s'.handshakeStartMs = s.handshakeStartMs) (hstate' : s'.state = s.state) :
    s₁.Driven r s' where
  peer := (hpeer'.trans h.peer).trans hpeer
  start := (hstart'.trans h.start).trans hstart
  state := by
    rw [hstate', h.state]
    cases r with
    | complete | error => rfl
    | wantRead | wantWrite => exact hstate

namespace DtlsTransport

variable {cfg : Config} {d : DtlsConfig}

/-- **A call for a peer**, with or without a record at hand: what `send` and `receive` share, and
where they differ, at a session that has failed. `arr` and `fed` are the events of the record. -/
inductive Handles (t : DtlsTransport cfg d) (ep : Endpoint) (ssl : Ssl)
    (arr fed : List SessionEvent) (reclaims : Bool) :
    DtlsTransport cfg d → List SessionEvent → Prop where
  | live {i : Fin d.maxSessions} (hfind : t.findSession ep = some i)
      (hstate : (t.sessions i).state = .established) :
      Handles t ep ssl arr fed reclaims t (arr ++ fed)
  | failed {i : Fin d.maxSessions} (hfind : t.findSession ep = some i)
      (hstate : (t.sessions i).state = .failed) :
      Handles t ep ssl arr fed reclaims (if reclaims then t.resetSession i else t) arr
  | drives {i : Fin d.maxSessions} {s : Session} (hfind : t.findSession ep = some i)
      (hstate : (t.sessions i).state = .handshaking)
      (hs : (t.sessions i).Driven ssl.handshake s) :
      Handles t ep ssl arr fed reclaims (t.setSession i s)
        (arr ++ fed ++ [.driven ep s.state])
  | full (hfind : t.findSession ep = none) (hfull : ∀ i, (t.sessions i).state = .handshaking) :
      Handles t ep ssl arr fed reclaims t arr
  | refused {i : Fin d.maxSessions} (hfind : t.findSession ep = none)
      (hslot : (t.sessions i).state ≠ .handshaking) (hsetup : ssl.setup = false) :
      Handles t ep ssl arr fed reclaims (t.resetSession i) arr
  | starts {i : Fin d.maxSessions} {s₀ s : Session} (hfind : t.findSession ep = none)
      (hslot : (t.sessions i).state ≠ .handshaking) (hsetup : ssl.setup = true)
      (hpeer : s₀.peer = ep) (hs : (s₀.initSession ssl.startMs).Driven ssl.handshake s) :
      Handles t ep ssl arr fed reclaims (t.setSession i s)
        (arr ++ [.initialised ep] ++ fed ++ [.driven ep s.state])

/-- `send` is for one peer, and reports what becomes of the session for it. -/
theorem send_handles (t : DtlsTransport cfg d) (dest : Endpoint) (data : Bytes) (number : Nat)
    (ssl : Ssl) :
    t.Handles dest ssl [] [] true (t.send dest data number ssl).1 (t.sendEvents dest ssl) := by
  unfold send sendEvents
  cases hfind : t.findSession dest with
  | none =>
    dsimp only
    cases halloc : t.allocSession dest with
    | none => exact .full hfind (allocSession_none halloc)
    | some r =>
      obtain ⟨i, t'⟩ := r
      obtain ⟨hslot, s, rfl, hpeer⟩ := allocSession_spec halloc
      dsimp only
      cases hsetup : ssl.setup with
      | false =>
        rw [Bool.not_false, if_pos rfl, if_pos rfl, resetSession, setSession_setSession]
        exact .refused hfind hslot hsetup
      | true =>
        rw [Bool.not_true, if_neg Bool.false_ne_true, if_neg Bool.false_ne_true, setSession_self,
          setSession_setSession]
        have hs : (s.initSession ssl.startMs).Driven ssl.handshake
            (((s.initSession ssl.startMs).bufferTx cfg data number).driveHandshake
              ssl.handshake) :=
          (((s.initSession ssl.startMs).bufferTx cfg data number).driven ssl.handshake).congr
            rfl rfl rfl rfl rfl rfl
        -- the buffered datagram plays no part in the handshake
        rw [← hs.state]
        exact .starts hfind hslot hsetup hpeer hs
  | some i =>
    dsimp only
    cases hstate : (t.sessions i).state with
    | handshaking =>
      have hdriven : (t.sessions i).Driven ssl.handshake
          (((t.sessions i).bufferTx cfg data number).driveHandshake ssl.handshake) :=
        (((t.sessions i).bufferTx cfg data number).driven ssl.handshake).congr
          rfl rfl rfl rfl rfl rfl
      rw [← hdriven.state]
      dsimp only
      split
      · exact .drives hfind hstate (s := { ((t.sessions i).bufferTx cfg data number).driveHandshake
          ssl.handshake with txPending := false }) (hdriven.congr rfl rfl rfl rfl rfl rfl)
      · exact .drives hfind hstate hdriven
    | established => exact .live hfind hstate
    | failed => exact .failed hfind hstate
    | idle => exact absurd hstate (findSession_some hfind).1

/-- A handshake that a record drives. -/
theorem receiveRecord_drives {t : DtlsTransport cfg d} {i : Fin d.maxSessions}
    (hstate : (t.sessions i).state = .handshaking) (capacity : Nat) (ep : Endpoint) (ssl : Ssl) :
    ∃ s, (t.sessions i).Driven ssl.handshake s ∧
      (t.receiveRecord i capacity ep ssl).1 = t.setSession i s ∧
      t.recordEvents i ep ssl = [.fed ep, .driven ep s.state] := by
  unfold receiveRecord recordEvents
  rw [hstate]
  dsimp only
  have hdriven := (t.sessions i).driven ssl.handshake
  split
  · exact ⟨{ (t.sessions i).driveHandshake ssl.handshake with txPending := false },
      hdriven.congr rfl rfl rfl rfl rfl rfl, rfl, rfl⟩
  · exact ⟨_, hdriven, rfl, rfl⟩

/-- So is `receive` on a datagram of that peer, at the time the timeouts were looked at. -/
theorem receive_handles {t : DtlsTransport cfg d} (hserver : t.isServer = true) (capacity : Nat)
    (ep : Endpoint) (ssl : Ssl) :
    (t.tickTimeouts ssl.tickMs).Handles ep ssl [.arrived ep] [.fed ep] false
      (t.receive capacity (some ep) ssl).1 (t.receiveEvents (some ep) ssl) := by
  have hmode : (t.tickTimeouts ssl.tickMs).isServer = true := hserver
  unfold receive receiveEvents
  dsimp only
  generalize t.tickTimeouts ssl.tickMs = t at hmode
  cases hfind : t.findSession ep with
  | some i =>
    dsimp only
    cases hstate : (t.sessions i).state with
    | handshaking =>
      obtain ⟨s, hs, hnext, hevents⟩ := receiveRecord_drives hstate capacity ep ssl
      rw [hnext, hevents]
      exact .drives hfind hstate hs
    | established =>
      unfold receiveRecord recordEvents
      rw [hstate]
      exact .live hfind hstate
    | failed =>
      unfold receiveRecord recordEvents
      rw [hstate]
      exact .failed hfind hstate
    | idle => exact absurd hstate (findSession_some hfind).1
  | none =>
    dsimp only
    rw [hmode, Bool.not_true, if_neg Bool.false_ne_true, if_neg Bool.false_ne_true]
    cases halloc : t.allocSession ep with
    | none => exact .full hfind (allocSession_none halloc)
    | some r =>
      obtain ⟨i, t'⟩ := r
      obtain ⟨hslot, s, rfl, hpeer⟩ := allocSession_spec halloc
      dsimp only
      cases hsetup : ssl.setup with
      | false =>
        rw [Bool.not_false, if_pos rfl, if_pos rfl, resetSession, setSession_setSession]
        exact .refused hfind hslot hsetup
      | true =>
        rw [Bool.not_true, if_neg Bool.false_ne_true, if_neg Bool.false_ne_true, setSession_self,
          setSession_setSession]
        -- a session that was just set up is driven as one that was found
        have hstate : ((t.setSession i (s.initSession ssl.startMs)).sessions i).state =
            .handshaking := by rw [setSession_self]; rfl
        obtain ⟨s', hs, hnext, hevents⟩ := receiveRecord_drives hstate capacity ep ssl
        rw [hnext, hevents, setSession_setSession]
        rw [setSession_self] at hs
        exact .starts hfind hslot hsetup hpeer hs

-- ===========================================================================
-- What a call keeps
-- ===========================================================================

/-- The session of a peer is the one that is found. -/
theorem Sound.find {t : DtlsTransport cfg d} (hs : t.Sound) {ep : Endpoint} {i : Fin d.maxSessions}
    (hlive : (t.sessions i).state ≠ .idle) (hpeer : (t.sessions i).peer = ep) :
    t.findSession ep = some i :=
  hs.keyed.find?_eq (fun s => by rw [Bool.and_eq_true, bne_iff_ne, beq_iff_eq]) hlive hpeer

section Calls

variable {t t' : DtlsTransport cfg d} {ep : Endpoint} {ssl : Ssl} {arr fed es : List SessionEvent}
  {reclaims : Bool} {i : Fin d.maxSessions}

theorem Handles.server (h : t.Handles ep ssl arr fed reclaims t' es) :
    t'.isServer = t.isServer := by
  cases h with
  | live | drives | full | refused | starts => rfl
  | failed => cases reclaims <;> rfl

/-- A call for another peer leaves a handshake alone. -/
theorem Handles.keeps (h : t.Handles ep ssl arr fed reclaims t' es)
    (hi : (t.sessions i).state = .handshaking) (hne : (t.sessions i).peer ≠ ep) :
    t'.sessions i = t.sessions i := by
  cases h with
  | live | full => rfl
  | failed _ hstate =>
    split
    · refine setSession_ne _ _ fun hij => ?_
      rw [← hij, hi] at hstate
      cases hstate
    · rfl
  | drives hfind => exact setSession_ne _ _ fun hij => hne (hij ▸ (findSession_some hfind).2)
  | refused _ hslot => exact setSession_ne _ _ fun hij => hslot (hij ▸ hi)
  | starts _ hslot => exact setSession_ne _ _ fun hij => hslot (hij ▸ hi)

/-- A call for its own peer drives it. -/
theorem Handles.own (h : t.Handles ep ssl arr fed reclaims t' es) (hs : t.Sound)
    (hi : (t.sessions i).state = .handshaking) (hpeer : (t.sessions i).peer = ep) :
    ∃ s, (t.sessions i).Driven ssl.handshake s ∧ t' = t.setSession i s := by
  have hfound := hs.find (by rw [hi]; nofun) hpeer
  cases h with
  | live hfind hstate | failed hfind hstate =>
    obtain rfl := Option.some.inj (hfound.symm.trans hfind)
    cases hi.symm.trans hstate
  | drives hfind _ hdriven =>
    obtain rfl := Option.some.inj (hfound.symm.trans hfind)
    exact ⟨_, hdriven, rfl⟩
  | full hfind | refused hfind | starts hfind => cases hfound.symm.trans hfind

end Calls

/-- The timeouts leave what is in no handshake alone, and a handshake that goes on. -/
theorem tickTimeouts_same {t : DtlsTransport cfg d} {millis : UInt32} {i : Fin d.maxSessions}
    (h : (t.sessions i).state ≠ .handshaking ∨ t.Busy millis i) :
    (t.tickTimeouts millis).sessions i = t.sessions i :=
  if_neg fun hlate => h.elim (fun hne => hne hlate.1) fun hbusy => hbusy.2 hlate.2

/-- A handshake that is still going on was in time. -/
theorem busy_of_tickTimeouts {t : DtlsTransport cfg d} {millis : UInt32} {i : Fin d.maxSessions}
    (h : ((t.tickTimeouts millis).sessions i).state = .handshaking) : t.Busy millis i := by
  rcases tickTimeouts_session t millis i with heq | heq
  · rw [heq] at h
    refine ⟨h, fun hlate => ?_⟩
    have hempty : (t.tickTimeouts millis).sessions i = {} := if_pos ⟨h, hlate⟩
    rw [← heq, hempty] at h
    cases h
  · rw [heq] at h
    cases h

/-- What holds of the transport of a server. -/
structure Serving (t : DtlsTransport cfg d) : Prop where
  sound  : t.Sound
  server : t.isServer = true

theorem serving_init : ({ isServer := true } : DtlsTransport cfg d).Serving where
  sound := ⟨fun _ _ hi => absurd rfl hi, fun _ _ => rfl⟩
  server := rfl

/-- A step of a server leaves it one. -/
theorem Serving.step {t : DtlsTransport cfg d} (h : t.Serving) (a : Action) :
    (t.step a).1.Serving := by
  cases a with
  | send dest data number ssl =>
    exact ⟨send_sound h.sound dest data number ssl,
      (t.send_handles dest data number ssl).server.trans h.server⟩
  | receive capacity raw ssl =>
    refine ⟨(receive_within h.sound capacity raw ssl).sound, ?_⟩
    cases raw with
    | none => exact h.server
    | some ep => exact (receive_handles h.server capacity ep ssl).server.trans h.server

/-- The session is in a handshake of this peer that has begun at this time. -/
structure Shaking (t : DtlsTransport cfg d) (ep : Endpoint) (startMs : UInt32)
    (i : Fin d.maxSessions) : Prop where
  peer  : (t.sessions i).peer = ep
  state : (t.sessions i).state = .handshaking
  start : (t.sessions i).handshakeStartMs = startMs

section Shaking

variable {t : DtlsTransport cfg d} {ep : Endpoint} {startMs : UInt32} {i : Fin d.maxSessions}

theorem Shaking.congr {t' : DtlsTransport cfg d} (h : t.Shaking ep startMs i)
    (heq : t'.sessions i = t.sessions i) : t'.Shaking ep startMs i := by
  obtain ⟨hpeer, hstate, hstart⟩ := h
  rw [← heq] at hpeer hstate hstart
  exact ⟨hpeer, hstate, hstart⟩

/-- A handshake in time is left alone by the timeouts. -/
theorem Shaking.tick (h : t.Shaking ep startMs i) {millis : UInt32}
    (hearly : ¬ millis - startMs > d.handshakeTimeoutMs) :
    (t.tickTimeouts millis).Shaking ep startMs i :=
  h.congr (tickTimeouts_same (.inr ⟨h.state, by rwa [h.start]⟩))

variable {s : Session} {r : HandshakeResult}

/-- It goes on while mbedTLS asks for more. -/
theorem Shaking.more (h : t.Shaking ep startMs i) (hs : (t.sessions i).Driven r s)
    (hr : r = .wantRead ∨ r = .wantWrite) : (t.setSession i s).Shaking ep startMs i where
  peer := by rw [setSession_self, hs.peer, h.peer]
  state := by
    rw [setSession_self, hs.state]
    rcases hr with rfl | rfl <;> exact h.state
  start := by rw [setSession_self, hs.start, h.start]

/-- A handshake that completes is established. -/
theorem Shaking.complete (h : t.Shaking ep startMs i) (hs : (t.sessions i).Driven r s)
    (hr : r = .complete) : DtlsPeers.Established (t.setSession i s) ep := by
  subst hr
  refine ⟨i, ?_, ?_⟩
  · rw [setSession_self, hs.peer, h.peer]
  · rw [setSession_self, hs.state]
    rfl

end Shaking

end DtlsTransport

-- ===========================================================================
-- A later success
-- ===========================================================================

namespace DtlsPeers

open DtlsTransport (Action Serving Shaking)

variable {cfg : Config} {d : DtlsConfig}

section Later

variable {t : DtlsTransport cfg d} {ep : Endpoint} {startMs : UInt32} {i : Fin d.maxSessions}

/-- What one call leaves of a handshake that it spares. -/
theorem shaking_spared (h : t.Serving) (hi : t.Shaking ep startMs i) {b : Action}
    (hb : Spares d ep startMs b) : (t.step b).1.Shaking ep startMs i := by
  cases b with
  | send dest data number ssl =>
    have hh := t.send_handles dest data number ssl
    by_cases hdest : dest = ep
    · obtain ⟨s, hs, hnext⟩ := hh.own h.sound hi.state (hi.peer.trans hdest.symm)
      show (t.send dest data number ssl).1.Shaking ep startMs i
      rw [hnext]
      exact hi.more hs (hb hdest)
    · exact hi.congr (hh.keeps hi.state fun hpeer => hdest (hpeer.symm.trans hi.peer))
  | receive capacity raw ssl =>
    obtain ⟨hearly, hmore⟩ := hb
    have hi' := hi.tick hearly
    cases raw with
    | none => exact hi'
    | some dest =>
      have hh := DtlsTransport.receive_handles h.server capacity dest ssl
      have hsound := DtlsTransport.tickTimeouts_sound h.sound ssl.tickMs
      by_cases hdest : dest = ep
      · obtain ⟨s, hs, hnext⟩ := hh.own hsound hi'.state (hi'.peer.trans hdest.symm)
        show (t.receive capacity (some dest) ssl).1.Shaking ep startMs i
        rw [hnext]
        exact hi'.more hs (hmore (congrArg some hdest))
      · exact hi'.congr (hh.keeps hi'.state fun hpeer => hdest (hpeer.symm.trans hi'.peer))

/-- The step that completes it leaves the peer with a session. -/
theorem established_of_completes (h : t.Serving) (hi : t.Shaking ep startMs i) {a : Action}
    (ha : Completes d ep startMs a) : Established (t.step a).1 ep := by
  cases a with
  | send dest data number ssl =>
    obtain ⟨rfl, hcomplete⟩ := ha
    obtain ⟨s, hs, hnext⟩ := (t.send_handles dest data number ssl).own h.sound hi.state hi.peer
    show Established (t.send dest data number ssl).1 dest
    rw [hnext]
    exact hi.complete hs hcomplete
  | receive capacity raw ssl =>
    obtain ⟨hearly, rfl, hcomplete⟩ := ha
    have hi' := hi.tick hearly
    have hsound := DtlsTransport.tickTimeouts_sound h.sound ssl.tickMs
    obtain ⟨s, hs, hnext⟩ := (DtlsTransport.receive_handles h.server capacity ep ssl).own hsound
      hi'.state hi'.peer
    show Established (t.receive capacity (some ep) ssl).1 ep
    rw [hnext]
    exact hi'.complete hs hcomplete

/-- Over any number of calls that spare it, by induction on them. -/
theorem established_later {a : Action} (ha : Completes d ep startMs a) (as : List Action) :
    ∀ {t : DtlsTransport cfg d}, t.Serving → t.Shaking ep startMs i →
      (∀ b ∈ as, Spares d ep startMs b) →
        Established ((as ++ [a]).foldl (fun t b => (t.step b).1) t) ep := by
  induction as with
  | nil => exact fun h hi _ => established_of_completes h hi ha
  | cons b as ih =>
    intro t h hi has
    obtain ⟨hb, hrest⟩ := List.forall_mem_cons.1 has
    exact ih (h.step b) (shaking_spared h hi hb) hrest

/-- From a handshake that is going on, establishment can be reached. -/
theorem reaches_of_shaking (h : t.Serving) (hi : t.Shaking ep startMs i) : Reaches t ep := by
  refine .inr ⟨i, hi.peer, hi.state, fun as a has ha => ?_⟩
  rw [hi.start] at has ha
  exact established_later ha as h hi has

end Later

-- ===========================================================================
-- Sessions and failures
-- ===========================================================================

/-- A session in use has been initialised since every failure of its peer. -/
def Renewed (t : DtlsTransport cfg d) (events : List SessionEvent) : Prop :=
  ∀ i, (t.sessions i).state = .handshaking ∨ (t.sessions i).state = .established →
    Fresh (t.sessions i).peer events

/-- To be given up for a timeout is a renewal as well. -/
theorem renewed_tickTimeouts {t : DtlsTransport cfg d} {events : List SessionEvent}
    (h : Renewed t events) (millis : UInt32) : Renewed (t.tickTimeouts millis) events := by
  intro i hi
  rcases DtlsTransport.tickTimeouts_session t millis i with heq | heq
  · rw [heq] at hi ⊢
    exact h i hi
  · rw [heq] at hi
    rcases hi with hi | hi <;> cases hi

/-- **What a call keeps**: a session whose handshake fails is in use no more, and one that is
started is initialised. The proof is by the cases of `Handles`, which are those of both calls. -/
theorem renewed_handles {t t' : DtlsTransport cfg d} (hs : t.Sound) {ep : Endpoint} {ssl : Ssl}
    {arr fed es : List SessionEvent} {reclaims : Bool}
    (h : t.Handles ep ssl arr fed reclaims t' es) (harr : ∀ p, ∀ e ∈ arr, ¬ Failure p e)
    (hfed : ∀ p, ∀ e ∈ fed, ¬ Failure p e) {events : List SessionEvent}
    (hold : Renewed t events) : Renewed t' (events ++ es) := by
  -- an arrival, and a session that is reset, leave it at that
  have hquiet : Renewed t (events ++ arr) := fun i hi => (hold i hi).append (harr _)
  have hreset : ∀ j, Renewed (t.resetSession j) (events ++ arr) := by
    intro j i hi
    by_cases hij : i = j
    · rw [hij, DtlsTransport.resetSession, DtlsTransport.setSession_self] at hi
      rcases hi with hi | hi <;> cases hi
    · rw [DtlsTransport.resetSession, DtlsTransport.setSession_ne _ _ hij] at hi ⊢
      exact hquiet i hi
  -- the session that is driven, and those of other peers
  have hwrite : ∀ {j s es'}, (∀ i, i ≠ j → (t.sessions i).state ≠ .idle →
      (t.sessions i).peer ≠ ep) → s.peer = ep → Fresh ep (events ++ es') →
      (∀ p, ∀ e ∈ es', ¬ Failure p e) →
      Renewed (t.setSession j s) (events ++ (es' ++ [.driven ep s.state])) := by
    intro j s es' hfree hpeer hfresh hes i hi
    by_cases hij : i = j
    · rw [hij, DtlsTransport.setSession_self] at hi ⊢
      rw [hpeer, ← List.append_assoc]
      refine hfresh.append (List.forall_mem_singleton.2 fun hfails => ?_)
      obtain ⟨-, hfailed⟩ := SessionEvent.driven.inj hfails
      rw [hfailed] at hi
      rcases hi with hi | hi <;> cases hi
    · rw [DtlsTransport.setSession_ne _ _ hij] at hi ⊢
      have hne : (t.sessions i).peer ≠ ep :=
        hfree i hij fun hidle => by rw [hidle] at hi; rcases hi with hi | hi <;> cases hi
      refine (hold i hi).append (List.forall_mem_append.2
        ⟨hes _, List.forall_mem_singleton.2 fun hfails => ?_⟩)
      exact hne (SessionEvent.driven.inj hfails).1.symm
  -- by the cases of what a call does for a peer
  cases h with
  | live => exact fun i hi => (hold i hi).append (List.forall_mem_append.2 ⟨harr _, hfed _⟩)
  | failed =>
    cases reclaims with
    | true => exact hreset _
    | false => exact hquiet
  | @drives i s hfind hstate hdriven =>
    have hpeer := (DtlsTransport.findSession_some hfind).2
    have hquiet' : ∀ p, ∀ e ∈ arr ++ fed, ¬ Failure p e :=
      fun p => List.forall_mem_append.2 ⟨harr p, hfed p⟩
    have hfresh := hold i (.inl hstate)
    rw [hpeer] at hfresh
    exact hwrite (hs.only hfind) (hdriven.peer.trans hpeer) (hfresh.append (hquiet' ep)) hquiet'
  | full => exact hquiet
  | refused => exact hreset _
  | @starts i s₀ s hfind _ _ hpeer hdriven =>
    refine hwrite (fun j _ hj => DtlsTransport.findSession_none hfind j hj)
      (hdriven.peer.trans hpeer) ?_ fun p => ?_
    · have hstart : Fresh ep (events ++ arr ++ [.initialised ep]) :=
        followed_concat_of (by rintro ⟨⟩) rfl
      rw [← List.append_assoc, ← List.append_assoc]
      exact hstart.append (hfed ep)
    · exact List.forall_mem_append.2
        ⟨List.forall_mem_append.2 ⟨harr p, List.forall_mem_singleton.2 (by rintro ⟨⟩)⟩, hfed p⟩

/-- **The invariant.** -/
structure Inv (w : DtlsPeers cfg d) : Prop where
  serving : w.transport.Serving
  renewed : Renewed w.transport w.events

theorem inv_init : Inv ({} : DtlsPeers cfg d) where
  serving := DtlsTransport.serving_init
  renewed _ _ := followed_nil

/-- The arrival of a datagram is no failure. -/
theorem arrived_quiet (ep : Endpoint) (p : Endpoint) :
    ∀ e ∈ [SessionEvent.arrived ep], ¬ Failure p e := List.forall_mem_singleton.2 nofun

/-- Nor is its being handed to mbedTLS. -/
theorem fed_quiet (ep : Endpoint) (p : Endpoint) :
    ∀ e ∈ [SessionEvent.fed ep], ¬ Failure p e := List.forall_mem_singleton.2 nofun

/-- **What one step preserves**: the sessions are one for each peer, and each that is in use was
initialised after its peer's last failure. -/
theorem Inv.next {w : DtlsPeers cfg d} (inv : Inv w) (a : Action) : Inv (w.next a).1 := by
  refine ⟨inv.serving.step a, ?_⟩
  cases a with
  | send dest data number ssl =>
    exact renewed_handles inv.serving.sound (w.transport.send_handles dest data number ssl)
      (fun _ _ he => nomatch he) (fun _ _ he => nomatch he) inv.renewed
  | receive capacity raw ssl =>
    have hold := renewed_tickTimeouts inv.renewed ssl.tickMs
    cases raw with
    | none =>
      show Renewed (w.transport.tickTimeouts ssl.tickMs) (w.events ++ [])
      rwa [List.append_nil]
    | some ep =>
      exact renewed_handles (DtlsTransport.tickTimeouts_sound inv.serving.sound ssl.tickMs)
        (DtlsTransport.receive_handles inv.serving.server capacity ep ssl)
        (arrived_quiet ep) (fed_quiet ep) hold

-- ===========================================================================
-- The datagram that comes next
-- ===========================================================================

section Comes

variable {t : DtlsTransport cfg d} {ep : Endpoint} {ssl : Ssl} {i : Fin d.maxSessions}

/-- A session the timeouts leave in use is the same. -/
theorem same_of_tick {millis : UInt32}
    (hi : ((t.tickTimeouts millis).sessions i).state ≠ .idle) :
    (t.tickTimeouts millis).sessions i = t.sessions i :=
  (DtlsTransport.tickTimeouts_session t millis i).resolve_right fun heq => hi (by rw [heq])

/-- A peer with a session in use is admitted. -/
theorem admits_of_live (hs : t.Sound) (hpeer : (t.sessions i).peer = ep)
    (hi : (t.sessions i).state = .established ∨ t.Busy ssl.tickMs i) : t.Admits ep ssl := by
  refine ⟨fun j hj hfailed => ?_, .inl ⟨i, hpeer, hi⟩⟩
  have hlive : (t.sessions i).state ≠ .idle := fun hidle => by
    rcases hi with hi | hi
    · cases hidle.symm.trans hi
    · cases hidle.symm.trans hi.1
  have hlive' : (t.sessions j).state ≠ .idle := by rw [hfailed]; nofun
  obtain rfl := hs.keyed i j hlive hlive' (hpeer.trans hj.symm)
  rcases hi with hi | hi
  · cases hfailed.symm.trans hi
  · cases hfailed.symm.trans hi.1

/-- A session in use that admits the peer is found after the timeouts. -/
theorem not_live_of_none (hfind : (t.tickTimeouts ssl.tickMs).findSession ep = none)
    (hpeer : (t.sessions i).peer = ep) :
    ¬ ((t.sessions i).state = .established ∨ t.Busy ssl.tickMs i) := by
  intro hi
  have hsame : (t.tickTimeouts ssl.tickMs).sessions i = t.sessions i :=
    DtlsTransport.tickTimeouts_same (hi.imp_left fun hi => by rw [hi]; nofun)
  refine DtlsTransport.findSession_none hfind i ?_ (by rw [hsame, hpeer])
  rw [hsame]
  rcases hi with hi | hi
  · rw [hi]
    nofun
  · rw [hi.1]
    nofun

/-- **Who is fed is admitted**: the record went to a session that the table had, or found a
place for. -/
theorem admits_of_fed (h : t.Serving)
    (hfed : .fed ep ∈ t.receiveEvents (some ep) ssl) : t.Admits ep ssl := by
  have hh := DtlsTransport.receive_handles h.server 0 ep ssl
  generalize (t.receive 0 (some ep) ssl).1 = t' at hh
  generalize t.receiveEvents (some ep) ssl = es at hh hfed
  have hdropped : .fed ep ∉ [SessionEvent.arrived ep] := by simp
  cases hh with
  | @live i hfind hstate =>
    have hsame := same_of_tick (DtlsTransport.findSession_some hfind).1
    have hpeer := (DtlsTransport.findSession_some hfind).2
    rw [hsame] at hstate hpeer
    exact admits_of_live h.sound hpeer (.inl hstate)
  | @drives i s hfind hstate =>
    have hpeer := (DtlsTransport.findSession_some hfind).2
    rw [same_of_tick (DtlsTransport.findSession_some hfind).1] at hpeer
    exact admits_of_live h.sound hpeer (.inr (DtlsTransport.busy_of_tickTimeouts hstate))
  | @starts i s₀ s hfind hslot hsetup =>
    refine ⟨fun j hj hfailed => ?_, .inr ⟨hsetup, i, fun hbusy => hslot ?_⟩⟩
    · -- a failed session would have been found
      have hsame : (t.tickTimeouts ssl.tickMs).sessions j = t.sessions j :=
        DtlsTransport.tickTimeouts_same (.inl (by rw [hfailed]; nofun))
      exact DtlsTransport.findSession_none hfind j (by rw [hsame, hfailed]; nofun)
        (by rw [hsame, hj])
    · rw [DtlsTransport.tickTimeouts_same (.inr hbusy)]
      exact hbusy.1
  | failed | full | refused => exact absurd hfed hdropped

/-- A handshake that has been driven without an error. -/
theorem reaches_of_driven {startMs : UInt32} (hi : t.Shaking ep startMs i) {r : HandshakeResult}
    {s : Session} (hs : (t.sessions i).Driven r s) (hnext : (t.setSession i s).Serving)
    (hr : r ≠ .error) : Reaches (t.setSession i s) ep := by
  cases r with
  | complete => exact .inl (hi.complete hs rfl)
  | wantRead => exact reaches_of_shaking hnext (hi.more hs (.inl rfl))
  | wantWrite => exact reaches_of_shaking hnext (hi.more hs (.inr rfl))
  | error => exact absurd rfl hr

/-- **Who is admitted is served**: its record is fed to a session that was initialised since the
last failure, and what the handshake comes to is what the session is in. -/
theorem fed_of_admits {events : List SessionEvent} (h : t.Serving) (hold : Renewed t events)
    (hadm : t.Admits ep ssl) (capacity : Nat) :
    (∃ pre post, t.receiveEvents (some ep) ssl = pre ++ .fed ep :: post ∧
        Fresh ep (events ++ pre)) ∧
      (ssl.handshake = .complete → Established (t.receive capacity (some ep) ssl).1 ep) ∧
      (ssl.handshake ≠ .error → Reaches (t.receive capacity (some ep) ssl).1 ep) := by
  have hh := DtlsTransport.receive_handles h.server capacity ep ssl
  have hnext : (t.receive capacity (some ep) ssl).1.Serving :=
    h.step (.receive capacity (some ep) ssl)
  have htick := renewed_tickTimeouts hold ssl.tickMs
  generalize (t.receive capacity (some ep) ssl).1 = t' at hh hnext
  generalize t.receiveEvents (some ep) ssl = es at hh
  obtain ⟨hnofail, hroom⟩ := hadm
  -- the session is there and live, there but dead, or has to be started
  cases hh with
  | @live i hfind hstate =>
    have hpeer := (DtlsTransport.findSession_some hfind).2
    have hfresh := htick i (.inr hstate)
    rw [hpeer] at hfresh
    exact ⟨⟨_, _, rfl, hfresh.append (arrived_quiet ep ep)⟩, fun _ => ⟨i, hpeer, hstate⟩,
      fun _ => .inl ⟨i, hpeer, hstate⟩⟩
  | @failed i hfind hstate =>
    -- a dead session is what the condition rules out
    have hpeer := (DtlsTransport.findSession_some hfind).2
    rw [same_of_tick (DtlsTransport.findSession_some hfind).1] at hstate hpeer
    exact absurd hstate (hnofail i hpeer)
  | @drives i s hfind hstate hdriven =>
    have hpeer := (DtlsTransport.findSession_some hfind).2
    have hi : (t.tickTimeouts ssl.tickMs).Shaking ep _ i := ⟨hpeer, hstate, rfl⟩
    have hfresh := htick i (.inl hstate)
    rw [hpeer] at hfresh
    exact ⟨⟨_, _, rfl, hfresh.append (arrived_quiet ep ep)⟩, hi.complete hdriven,
      reaches_of_driven hi hdriven hnext⟩
  -- a full table, or a set-up that fails, needs a live session to be admitted
  | full hfind hfull =>
    rcases hroom with ⟨i, hpeer, hi⟩ | ⟨-, i, hi⟩
    · exact absurd hi (not_live_of_none hfind hpeer)
    · exact absurd (DtlsTransport.busy_of_tickTimeouts (hfull i)) hi
  | refused hfind hslot hsetup =>
    rcases hroom with ⟨i, hpeer, hi⟩ | ⟨hdone, -⟩
    · exact absurd hi (not_live_of_none hfind hpeer)
    · cases hsetup.symm.trans hdone
  | @starts i s₀ s hfind hslot hsetup hpeer hdriven =>
    -- the session as `initSession` leaves it
    generalize hinit : s₀.initSession ssl.startMs = s₁ at hdriven
    have hi : ((t.tickTimeouts ssl.tickMs).setSession i s₁).Shaking ep ssl.startMs i := by
      subst hinit
      exact ⟨by rw [DtlsTransport.setSession_self]; exact hpeer,
        by rw [DtlsTransport.setSession_self]; rfl, by rw [DtlsTransport.setSession_self]; rfl⟩
    have hdriven' : (((t.tickTimeouts ssl.tickMs).setSession i s₁).sessions i).Driven ssl.handshake
        s := by rwa [DtlsTransport.setSession_self]
    have hset := DtlsTransport.setSession_setSession (t.tickTimeouts ssl.tickMs) i s₁ s
    rw [← hset] at hnext ⊢
    refine ⟨⟨[.arrived ep, .initialised ep], _, rfl, ?_⟩, hi.complete hdriven',
      reaches_of_driven hi hdriven' hnext⟩
    have hstart : Fresh ep (events ++ [.arrived ep] ++ [.initialised ep]) :=
      followed_concat_of nofun rfl
    rwa [List.append_assoc] at hstart

end Comes

/-- One step, by the table before it. -/
theorem serves_iff {w : DtlsPeers cfg d} (inv : Inv w) (a : Action) :
    Serves w a ↔ Welcomes w a := by
  constructor
  · rintro hserves capacity ep ssl rfl howed
    obtain ⟨pre, post, hevents, -⟩ := hserves.fed capacity ep ssl rfl howed
    have hmem : .fed ep ∈ w.transport.receiveEvents (some ep) ssl := by
      show .fed ep ∈ (w.next (.receive capacity (some ep) ssl)).2
      rw [hevents]
      simp
    exact admits_of_fed inv.serving hmem
  · intro hwelcomes
    refine ⟨(inv.next a).serving.sound.keyed, ?_, ?_⟩
    · rintro capacity ep ssl rfl howed
      exact (fed_of_admits inv.serving inv.renewed (hwelcomes capacity ep ssl rfl howed)
        capacity).1
    · rintro capacity ep ssl rfl howed
      exact (fed_of_admits inv.serving inv.renewed (hwelcomes capacity ep ssl rfl howed)
        capacity).2

/-- **No peer is locked out**, in all calls of a run, exactly when the table admits each that
comes back after a failure. The records and what mbedTLS makes of them are arbitrary. -/
theorem served_iff (as : List Action) :
    (machine cfg d).Meets Serves {} as ↔ (machine cfg d).Meets Welcomes {} as :=
  Machine.meets_congr (I := Inv) (fun _ a inv _ => inv.next a) (fun _ a inv => serves_iff inv a)
    as {} inv_init

/-- A `send` in between reclaims the slot. -/
example : ((machine .default {}).exec [] {}
    [.receive 64 (some { port := 1 }) { handshake := .error },
      .send { port := 1 } [] 0 {}]).2.transport.Admits { port := 1 } {} := by decide +kernel

/-- A peer whose first attempt fails tries again: its second datagram is dropped, and no success
is asked for. -/
theorem not_served : ¬ (machine .default {}).Meets Serves {}
    [.receive 64 (some { port := 1 }) { handshake := .error },
      .receive 64 (some { port := 1 }) { handshake := .complete }] := by
  rintro ⟨-, hserves, -⟩
  have howed : ((machine .default {}).next {}
      (.receive 64 (some { port := 1 }) { handshake := .error })).1.Owed { port := 1 } := by
    intro hfollowed
    obtain ⟨e, he, -⟩ := hfollowed [.arrived { port := 1 }, .initialised { port := 1 },
      .fed { port := 1 }] (.driven { port := 1 } .failed) [] (by decide +kernel) rfl
    cases he
  obtain ⟨pre, post, hevents, -⟩ := hserves.fed 64 { port := 1 } _ rfl howed
  have hdropped : .fed { port := 1 } ∉ pre ++ SessionEvent.fed { port := 1 } :: post := by
    rw [← hevents]
    decide +kernel
  exact hdropped (by simp)

end DtlsPeers

end PulseCoap
