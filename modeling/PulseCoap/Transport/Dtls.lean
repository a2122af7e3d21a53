import PulseCoap.Config
import PulseCoap.Lib.Table
import PulseCoap.Transport.Endpoint

/-!
# PulseCoAP — `DtlsTransport`

`PulseCoAPTransportDTLS.h`: the session table, `send` and `receive`.

mbedTLS, the UDP object and the clock are not the library's. A call of `send` or
`receive` asks each of their functions at most once for the same purpose, and
`Ssl` is what they answer in it; nothing is assumed of the answers. What only the
callbacks of mbedTLS look at (the raw record, the timer, `currentSession_`) and
the key store are left out.

A session has one field the source does not have: `txSend` is the number of the
`send` call the buffered bytes are from. Nothing reads it but the specifications.

The answers are those of one call and may be different in the next, so nothing
that mbedTLS keeps has to be modelled: a handshake that succeeds, fails or wants
more data does so by an arbitrary answer. What a session keeps for the end of
its handshake is `txBuf`, one datagram at most, and the later one of two takes
the place of the earlier one as in the source.

* `Sound` — no peer ever has two sessions.
* `send_waiting`, `send_writes` — what a `send` leaves waiting for a handshake,
  and what it writes.
* `receive_within`, `receive_writes`, `receive_sender` — the same for a `receive`.
* `Touches` — what one call does to the table.
-/

namespace PulseCoap

/-- The macros of `PulseCoAPConfig.h` that only the DTLS transport reads. -/
structure DtlsConfig where
  /-- `PULSECOAP_DTLS_MAX_SESSIONS`. -/
  maxSessions        : Nat := 4
  /-- `PULSECOAP_DTLS_HANDSHAKE_TIMEOUT_MS`. -/
  handshakeTimeoutMs : UInt32 := 10000

/-- `Session::State`. A failed session keeps its slot until the next `send` to its peer, or
until another peer needs the slot. -/
inductive SessionState where
  | idle | handshaking | established | failed
deriving DecidableEq, Repr

/-- `DtlsTransport::Session`; `txBuf` holds the first `txLen` bytes of the array. -/
structure Session where
  state            : SessionState := .idle
  peer             : Endpoint := default
  txBuf            : Bytes := []
  txPending        : Bool := false
  handshakeStartMs : UInt32 := 0
  txSend           : Nat := 0
deriving DecidableEq, Repr

/-- What `driveHandshake` tells apart in the result of `mbedtls_ssl_handshake`. The two that
want more leave the session as it is. -/
inductive HandshakeResult where
  /-- 0. -/
  | complete
  /-- `MBEDTLS_ERR_SSL_WANT_READ`. -/
  | wantRead
  /-- `MBEDTLS_ERR_SSL_WANT_WRITE`. -/
  | wantWrite
  /-- Any other value. -/
  | error
deriving DecidableEq, Repr

/-- The answers of mbedTLS and of `millis()` in one call of `send` or `receive`. -/
structure Ssl where
  /-- `mbedtls_ssl_setup` returns 0. -/
  setup     : Bool := true
  handshake : HandshakeResult := .wantRead
  /-- What `mbedtls_ssl_write` returns. -/
  write     : Int := 0
  /-- What `mbedtls_ssl_read` has decrypted; an error is no bytes. -/
  read      : Bytes := []
  /-- `millis()` in `tickTimeouts`, and in `initSession`. -/
  tickMs    : UInt32 := 0
  startMs   : UInt32 := 0
deriving DecidableEq, Repr

/-- A call of `mbedtls_ssl_write`: the peer of the session, the bytes, and the
`send` call these were given to. -/
structure SslWrite where
  peer : Endpoint
  data : Bytes
  send : Nat
deriving DecidableEq, Repr

/-- `class DtlsTransport`. `isServer` decides whether a record of an unknown peer opens a
session. -/
structure DtlsTransport (cfg : Config) (d : DtlsConfig) where
  isServer : Bool := false
  sessions : Table d.maxSessions Session := fun _ => {}

-- ===========================================================================
-- One session
-- ===========================================================================

namespace Session

/-- `DtlsTransport::initSession`, once `mbedtls_ssl_setup` has succeeded. The handshake timeout
counts from here. -/
def initSession (s : Session) (millis : UInt32) : Session :=
  { s with state := .handshaking, handshakeStartMs := millis }

/-- `DtlsTransport::bufferTx`. There is one buffer for a session: what it held before is
overwritten. -/
def bufferTx (cfg : Config) (s : Session) (data : Bytes) (send : Nat) : Session :=
  { s with txBuf := data.take cfg.maxMsgSize, txPending := true, txSend := send }

/-- `DtlsTransport::driveHandshake`. The buffered datagram is not touched; who drove the
handshake writes it. -/
def driveHandshake (s : Session) : HandshakeResult → Session
  | .complete => { s with state := .established }
  | .wantRead | .wantWrite => s
  | .error => { s with state := .failed }

/-- `DtlsTransport::sslWrite`: the write, and whether it took all the bytes. A short write
counts as a failure, and is not continued. -/
def sslWrite (s : Session) (data : Bytes) (send : Nat) (n : Int) : Bool × SslWrite :=
  (decide (n ≥ 0 ∧ n.toNat = data.length), { peer := s.peer, data, send })

/-- The bytes of the session are kept for the end of its handshake. -/
def Waiting (s : Session) : Prop := s.state = .handshaking ∧ s.txPending = true

instance (s : Session) : Decidable s.Waiting := inferInstanceAs (Decidable (_ ∧ _))

end Session

-- ===========================================================================
-- The session table
-- ===========================================================================

namespace DtlsTransport

variable {cfg : Config} {d : DtlsConfig}

/-- `DtlsTransport::findSession`. A session is in use in every state but `IDLE`, failed ones
too. -/
def findSession (t : DtlsTransport cfg d) (ep : Endpoint) : Option (Fin d.maxSessions) :=
  t.sessions.find? fun s => s.state != .idle && s.peer == ep

/-- Writing an entry of `sessions_`. -/
def setSession (t : DtlsTransport cfg d) (i : Fin d.maxSessions) (s : Session) :
    DtlsTransport cfg d := { t with sessions := t.sessions.set i s }

/-- `DtlsTransport::resetSession`. The datagram the session kept is lost with it. -/
def resetSession (t : DtlsTransport cfg d) (i : Fin d.maxSessions) : DtlsTransport cfg d :=
  t.setSession i {}

/-- The first session in a state. -/
def firstIn (t : DtlsTransport cfg d) (state : SessionState) : Option (Fin d.maxSessions) :=
  t.sessions.find? fun s => s.state == state

/-- `DtlsTransport::allocSession`. When no slot is idle a failed session makes room, and when
there is none of these either, the first established one; a handshake is never given up for
another peer. -/
def allocSession (t : DtlsTransport cfg d) (ep : Endpoint) :
    Option (Fin d.maxSessions × DtlsTransport cfg d) :=
  match t.firstIn .idle with
  | some i => some (i, t.setSession i { t.sessions i with peer := ep })
  | none =>
    match t.firstIn .failed with
    | some i => some (i, (t.resetSession i).setSession i { peer := ep })
    | none =>
      match t.firstIn .established with
      | some i => some (i, (t.resetSession i).setSession i { peer := ep })
      | none => none

/-- `DtlsTransport::tickTimeouts`. Only `receive` runs it, so a handshake is not timed out while
nobody polls. -/
def tickTimeouts (t : DtlsTransport cfg d) (millis : UInt32) : DtlsTransport cfg d :=
  { t with sessions := fun i =>
      let s := t.sessions i
      if s.state = .handshaking ∧ millis - s.handshakeStartMs > d.handshakeTimeoutMs then {} else s }

/-- `DtlsTransport::send`, the call with this number. A peer without a session gets one, and its
datagram waits for the handshake; the call returns false all the same. -/
def send (t : DtlsTransport cfg d) (dest : Endpoint) (data : Bytes) (number : Nat) (ssl : Ssl) :
    DtlsTransport cfg d × Bool × List SslWrite :=
  match t.findSession dest with
  | none =>
    match t.allocSession dest with
    | none => (t, false, [])
    | some (i, t) =>
      if !ssl.setup then (t.resetSession i, false, [])
      else
        let s := ((t.sessions i).initSession ssl.startMs).bufferTx cfg data number
        -- false even when the handshake is complete at once
        (t.setSession i (s.driveHandshake ssl.handshake), false, [])
  | some i =>
    match (t.sessions i).state with
    | .handshaking =>
      let s := ((t.sessions i).bufferTx cfg data number).driveHandshake ssl.handshake
      if s.state = .established ∧ s.txPending = true then
        let w := s.sslWrite s.txBuf s.txSend ssl.write
        (t.setSession i { s with txPending := false }, w.1, [w.2])
      else (t.setSession i s, false, [])
    | .established =>
      let w := (t.sessions i).sslWrite data number ssl.write
      (t, w.1, [w.2])
    | .failed => (t.resetSession i, false, [])
    | .idle => (t, false, [])

/-- The end of `receive`, with the record at hand of the session. A record that completes the
handshake returns no datagram, even if the waiting one is written. -/
def receiveRecord (t : DtlsTransport cfg d) (i : Fin d.maxSessions) (capacity : Nat)
    (rawFrom : Endpoint) (ssl : Ssl) :
    DtlsTransport cfg d × Option (Endpoint × Bytes) × List SslWrite :=
  match (t.sessions i).state with
  | .handshaking =>
    let s := (t.sessions i).driveHandshake ssl.handshake
    if s.state = .established ∧ s.txPending = true then
      (t.setSession i { s with txPending := false }, none,
        [(s.sslWrite s.txBuf s.txSend ssl.write).2])
    else (t.setSession i s, none, [])
  | .established =>
    let data := ssl.read.take capacity
    (t, if data.length > 0 then some (rawFrom, data) else none, [])
  | .failed | .idle => (t, none, [])

/-- `DtlsTransport::receive`: `raw` is the source of the record `parsePacket` and `read` have
returned. Timeouts come first, so a record for a session that has just run out finds none. -/
def receive (t : DtlsTransport cfg d) (capacity : Nat) (raw : Option Endpoint) (ssl : Ssl) :
    DtlsTransport cfg d × Option (Endpoint × Bytes) × List SslWrite :=
  let t := t.tickTimeouts ssl.tickMs
  match raw with
  | none => (t, none, [])
  | some rawFrom =>
    match t.findSession rawFrom with
    | some i => t.receiveRecord i capacity rawFrom ssl
    | none =>
      if !t.isServer then (t, none, [])
      else
        match t.allocSession rawFrom with
        | none => (t, none, [])
        | some (i, t) =>
          if !ssl.setup then (t.resetSession i, none, [])
          else
            (t.setSession i ((t.sessions i).initSession ssl.startMs)).receiveRecord i capacity
              rawFrom ssl

-- ===========================================================================
-- What the operations do
-- ===========================================================================

/-- No peer has two sessions, and an empty slot keeps nothing. Both hold of every table the
operations build (`Touches.sound`). -/
structure Sound (t : DtlsTransport cfg d) : Prop where
  keyed : t.sessions.Keyed (fun s => s.state ≠ .idle) Session.peer
  clear : ∀ i, (t.sessions i).state = .idle → (t.sessions i).txPending = false

/-- The datagram of this `send` is kept for the end of a handshake: the session is
new or in its handshake, and the handshake goes on. -/
def Keeps (t : DtlsTransport cfg d) (dest : Endpoint) (ssl : Ssl) : Prop :=
  (ssl.handshake = .wantRead ∨ ssl.handshake = .wantWrite) ∧
    match t.findSession dest with
    | none => ssl.setup = true ∧ (t.allocSession dest).isSome = true
    | some i => (t.sessions i).state = .handshaking

instance (t : DtlsTransport cfg d) (dest : Endpoint) (ssl : Ssl) : Decidable (t.Keeps dest ssl) :=
  haveI : Decidable (match t.findSession dest with
      | none => ssl.setup = true ∧ (t.allocSession dest).isSome = true
      | some i => (t.sessions i).state = .handshaking) := by
    split <;> infer_instance
  inferInstanceAs (Decidable (_ ∧ _))

@[simp] theorem setSession_self (t : DtlsTransport cfg d) (i : Fin d.maxSessions) (s : Session) :
    (t.setSession i s).sessions i = s := Table.set_self ..

@[simp] theorem setSession_ne (t : DtlsTransport cfg d) {i j : Fin d.maxSessions} (s : Session)
    (h : j ≠ i) : (t.setSession i s).sessions j = t.sessions j := Table.set_ne _ _ h

/-- The second write of a slot counts. -/
@[simp] theorem setSession_setSession (t : DtlsTransport cfg d) (i : Fin d.maxSessions)
    (s s' : Session) : (t.setSession i s).setSession i s' = t.setSession i s' := by
  simp only [setSession, Table.set_set]

@[simp] theorem setSession_eq_self (t : DtlsTransport cfg d) (i : Fin d.maxSessions) :
    t.setSession i (t.sessions i) = t := by
  simp only [setSession, Table.set_eq_self]

theorem findSession_some {t : DtlsTransport cfg d} {ep : Endpoint} {i : Fin d.maxSessions}
    (h : t.findSession ep = some i) : (t.sessions i).state ≠ .idle ∧ (t.sessions i).peer = ep := by
  have hp := Table.find?_spec h
  rwa [Bool.and_eq_true, bne_iff_ne, beq_iff_eq] at hp

theorem findSession_none {t : DtlsTransport cfg d} {ep : Endpoint} (h : t.findSession ep = none)
    (i : Fin d.maxSessions) (hi : (t.sessions i).state ≠ .idle) : (t.sessions i).peer ≠ ep := by
  have hp := Table.find?_eq_none.1 h i
  rw [Bool.and_eq_false_iff, bne_eq_false_iff_eq, beq_eq_false_iff_ne] at hp
  exact hp.resolve_left hi

/-- A session that is allocated is empty but for its peer. -/
theorem allocSession_some {t t' : DtlsTransport cfg d} (hs : t.Sound) {ep : Endpoint}
    {i : Fin d.maxSessions} (h : t.allocSession ep = some (i, t')) :
    ∃ s : Session, t' = t.setSession i s ∧ s.peer = ep ∧ s.txPending = false := by
  unfold allocSession at h
  split at h
  · next j hj =>
    cases h
    refine ⟨_, rfl, rfl, hs.clear i ?_⟩
    exact beq_iff_eq.1 (Table.find?_spec hj)
  · next =>
    -- a failed or an established session is reset first
    split at h
    · cases h
      exact ⟨_, setSession_setSession .., rfl, rfl⟩
    · split at h
      · cases h
        exact ⟨_, setSession_setSession .., rfl, rfl⟩
      · cases h

/-- At most one session has been written: it was emptied, or it is now the one
session of `peer`, and waits only if `W` holds of it. -/
inductive Touches (t : DtlsTransport cfg d) (peer : Endpoint) (W : Session → Prop) :
    DtlsTransport cfg d → Prop where
  | nothing : Touches t peer W t
  | reset (i : Fin d.maxSessions) : Touches t peer W (t.resetSession i)
  | write {i : Fin d.maxSessions} {s : Session} (hpeer : s.peer = peer) (hlive : s.state ≠ .idle)
      (hfree : ∀ j, j ≠ i → (t.sessions j).state ≠ .idle → (t.sessions j).peer ≠ peer)
      (hwait : s.Waiting → W s) : Touches t peer W (t.setSession i s)

/-- A step for one peer keeps the table sound: no two sessions in use are of one peer. -/
theorem Touches.sound {t t' : DtlsTransport cfg d} {peer : Endpoint} {W : Session → Prop}
    (h : Touches t peer W t') (hs : t.Sound) : t'.Sound := by
  cases h with
  | nothing => exact hs
  | reset i =>
    refine ⟨hs.keyed.set_same fun hlive => absurd rfl hlive, fun j hj => ?_⟩
    by_cases hji : j = i
    · rw [hji, resetSession, setSession_self]
    · rw [resetSession, setSession_ne _ _ hji] at hj ⊢
      exact hs.clear j hj
  | @write i s hpeer hlive hfree _ =>
    refine ⟨hs.keyed.set fun j hji hj => hpeer ▸ hfree j hji hj, fun j hj => ?_⟩
    by_cases hji : j = i
    · rw [hji, setSession_self] at hj
      exact absurd hj hlive
    · rw [setSession_ne _ _ hji] at hj ⊢
      exact hs.clear j hj

/-- What waits now has waited before, or it waits at `peer` with `W`. -/
theorem Touches.waiting {t t' : DtlsTransport cfg d} {peer : Endpoint} {W : Session → Prop}
    (h : Touches t peer W t') {j : Fin d.maxSessions} (hw : (t'.sessions j).Waiting) :
    t'.sessions j = t.sessions j ∨ (t'.sessions j).peer = peer ∧ W (t'.sessions j) := by
  cases h with
  | nothing => exact .inl rfl
  | reset i =>
    by_cases hji : j = i
    · rw [hji, resetSession, setSession_self] at hw
      exact absurd hw (by decide)
    · exact .inl (setSession_ne _ _ hji)
  | @write i s hpeer _ _ hwait =>
    by_cases hji : j = i
    · rw [hji, setSession_self] at hw ⊢
      exact .inr ⟨hpeer, hwait hw⟩
    · exact .inl (setSession_ne _ _ hji)

/-- The session found is the only one of its peer. -/
theorem Sound.only {t : DtlsTransport cfg d} (hs : t.Sound) {ep : Endpoint} {i : Fin d.maxSessions}
    (hi : t.findSession ep = some i) (j : Fin d.maxSessions) (hji : j ≠ i)
    (hj : (t.sessions j).state ≠ .idle) : (t.sessions j).peer ≠ ep := by
  obtain ⟨hlive, hpeer⟩ := findSession_some hi
  exact fun h => hji (hs.keyed j i hj hlive (h.trans hpeer.symm))

/-- A handshake that is driven ends, or stays as it is. -/
theorem driveHandshake_cases (s : Session) (r : HandshakeResult) :
    ((r = .wantRead ∨ r = .wantWrite) ∧ s.driveHandshake r = s) ∨
      (s.driveHandshake r).peer = s.peer ∧ (s.driveHandshake r).state ≠ .idle ∧
        ¬ (s.driveHandshake r).Waiting := by
  cases r with
  | complete => exact .inr ⟨rfl, nofun, (nomatch ·.1)⟩
  | wantRead => exact .inl ⟨.inl rfl, rfl⟩
  | wantWrite => exact .inl ⟨.inr rfl, rfl⟩
  | error => exact .inr ⟨rfl, nofun, (nomatch ·.1)⟩

-- ===========================================================================
-- send
-- ===========================================================================

/-- `send` touches the session of its destination only, and keeps the datagram there if it has to
wait. -/
theorem send_touches {t : DtlsTransport cfg d} (hs : t.Sound) (dest : Endpoint) (data : Bytes)
    (number : Nat) (ssl : Ssl) :
    t.Touches dest (fun s => t.Keeps dest ssl ∧ s.txBuf = data.take cfg.maxMsgSize ∧
      s.txSend = number) (t.send dest data number ssl).1 := by
  unfold send
  -- no session of the peer: a slot is taken for it, if there is one
  cases hfind : t.findSession dest with
  | none =>
    dsimp only
    cases halloc : t.allocSession dest with
    | none => exact .nothing
    | some r =>
      obtain ⟨i, t'⟩ := r
      obtain ⟨s, rfl, hpeer, -⟩ := allocSession_some hs halloc
      have hfree : ∀ j, j ≠ i → _ := fun j _ hj => findSession_none hfind j hj
      dsimp only
      cases hsetup : ssl.setup with
      -- `mbedtls_ssl_setup` has failed, and the slot is given back at once
      | false =>
        rw [Bool.not_false, if_pos rfl, resetSession, setSession_setSession]
        exact .reset i
      | true =>
        rw [Bool.not_true, if_neg nofun, setSession_self, setSession_setSession]
        rcases driveHandshake_cases ((s.initSession ssl.startMs).bufferTx cfg data number)
          ssl.handshake with ⟨hmore, heq⟩ | ⟨hpeer', hlive, hdone⟩
        · -- the handshake goes on with the datagram in the buffer
          rw [heq]
          refine .write hpeer nofun hfree fun _ => ⟨⟨hmore, ?_⟩, rfl, rfl⟩
          rw [hfind, halloc]
          exact ⟨hsetup, rfl⟩
        · -- over, one way or the other, so nothing waits any more
          exact .write (hpeer'.trans hpeer) hlive hfree fun hw => absurd hw hdone
  | some i =>
    obtain ⟨hlive, hpeer⟩ := findSession_some hfind
    have hfree := hs.only hfind
    dsimp only
    -- a session is there, and its state decides
    cases hstate : (t.sessions i).state with
    | handshaking =>
      dsimp only
      rcases driveHandshake_cases ((t.sessions i).bufferTx cfg data number) ssl.handshake with
        ⟨hmore, heq⟩ | ⟨hpeer', hlive', hdone⟩
      · rw [heq, if_neg fun h => by rw [Session.bufferTx, hstate] at h; cases h.1]
        refine .write hpeer (by rwa [Session.bufferTx]) hfree fun _ => ⟨⟨hmore, ?_⟩, rfl, rfl⟩
        rw [hfind]
        exact hstate
      · split
        · exact .write (hpeer'.trans hpeer) hlive' hfree fun hw => absurd hw.2 nofun
        · exact .write (hpeer'.trans hpeer) hlive' hfree fun hw => absurd hw hdone
    | established => exact .nothing
    | failed => exact .reset i
    | idle => exact .nothing

/-- So the table is sound behind it. -/
theorem send_sound {t : DtlsTransport cfg d} (hs : t.Sound) (dest : Endpoint) (data : Bytes)
    (number : Nat) (ssl : Ssl) : (t.send dest data number ssl).1.Sound :=
  (send_touches hs dest data number ssl).sound hs

/-- **What waits after a `send`** has waited before, or is what was sent now, and `Keeps` was
so. A datagram that is sent during a handshake takes the place of the one that waited. -/
theorem send_waiting {t : DtlsTransport cfg d} (hs : t.Sound) {dest : Endpoint} {data : Bytes}
    {number : Nat} {ssl : Ssl} {i : Fin d.maxSessions}
    (hw : ((t.send dest data number ssl).1.sessions i).Waiting) :
    (t.send dest data number ssl).1.sessions i = t.sessions i ∨
      ((t.send dest data number ssl).1.sessions i).peer = dest ∧ t.Keeps dest ssl ∧
        ((t.send dest data number ssl).1.sessions i).txBuf = data.take cfg.maxMsgSize ∧
        ((t.send dest data number ssl).1.sessions i).txSend = number :=
  (send_touches hs dest data number ssl).waiting hw

/-- A `send` writes nothing but the datagram it was called with. -/
theorem send_writes {t : DtlsTransport cfg d} {dest : Endpoint} {data : Bytes} {number : Nat}
    {ssl : Ssl} {w : SslWrite} (hw : w ∈ (t.send dest data number ssl).2.2) : w.send = number := by
  unfold send at hw
  cases hfind : t.findSession dest with
  | none =>
    simp only [hfind] at hw
    split at hw
    · cases hw
    · split at hw <;> cases hw
  | some i =>
    simp only [hfind] at hw
    split at hw
    · -- the buffer was refreshed before the handshake was driven
      split at hw
      · rw [List.mem_singleton.1 hw]
        cases ssl.handshake <;> rfl
      · cases hw
    · rw [List.mem_singleton.1 hw]
      rfl
    · cases hw
    · cases hw

-- ===========================================================================
-- receive
-- ===========================================================================

/-- The timeouts only empty sessions: what they leave in use is what it was. -/
theorem tickTimeouts_session (t : DtlsTransport cfg d) (millis : UInt32) (i : Fin d.maxSessions) :
    (t.tickTimeouts millis).sessions i = t.sessions i ∨ (t.tickTimeouts millis).sessions i = {} := by
  show (if _ then _ else _) = _ ∨ (if _ then _ else _) = _
  split
  · exact .inr rfl
  · exact .inl rfl

/-- The timeouts free sessions, and free ones do not count. -/
theorem tickTimeouts_sound {t : DtlsTransport cfg d} (hs : t.Sound) (millis : UInt32) :
    (t.tickTimeouts millis).Sound where
  keyed := hs.keyed.mono fun i hi => by
    rcases tickTimeouts_session t millis i with h | h
    · rw [h] at hi ⊢
      exact ⟨hi, rfl⟩
    · rw [h] at hi
      exact absurd rfl hi
  clear i hi := by
    rcases tickTimeouts_session t millis i with h | h
    · rw [h] at hi ⊢
      exact hs.clear i hi
    · rw [h]

/-- A record touches the session of its peer only. -/
theorem receiveRecord_touches {t : DtlsTransport cfg d} {i : Fin d.maxSessions} {ep : Endpoint}
    (hpeer : (t.sessions i).peer = ep)
    (hfree : ∀ j, j ≠ i → (t.sessions j).state ≠ .idle → (t.sessions j).peer ≠ ep)
    (capacity : Nat) (ssl : Ssl) :
    t.Touches ep (fun _ => False) (t.receiveRecord i capacity ep ssl).1 := by
  unfold receiveRecord
  cases hstate : (t.sessions i).state with
  | handshaking =>
    dsimp only
    rcases driveHandshake_cases (t.sessions i) ssl.handshake with
      ⟨-, heq⟩ | ⟨hpeer', hlive', hdone⟩
    · rw [heq, if_neg (fun h => by rw [hstate] at h; cases h.1), setSession_eq_self]
      exact .nothing
    · split
      · exact .write (hpeer'.trans hpeer) hlive' hfree fun hw => absurd hw.2 nofun
      · exact .write (hpeer'.trans hpeer) hlive' hfree fun hw => absurd hw hdone
  | established => exact .nothing
  | failed => exact .nothing
  | idle => exact .nothing

/-- Only the buffer of the session is written, at the end of its handshake. -/
theorem receiveRecord_writes {t : DtlsTransport cfg d} {i : Fin d.maxSessions} {capacity : Nat}
    {ep : Endpoint} {ssl : Ssl} {w : SslWrite}
    (hw : w ∈ (t.receiveRecord i capacity ep ssl).2.2) :
    (t.sessions i).Waiting ∧ w.send = (t.sessions i).txSend := by
  unfold receiveRecord at hw
  cases hstate : (t.sessions i).state with
  | handshaking =>
    simp only [hstate] at hw
    split at hw
    · next hdone =>
      rw [List.mem_singleton.1 hw]
      cases hr : ssl.handshake with
      | complete =>
        rw [hr] at hdone
        exact ⟨⟨hstate, hdone.2⟩, rfl⟩
      | wantRead | wantWrite =>
        rw [hr] at hdone
        exact absurd (hstate.symm.trans hdone.1) (by decide)
      | error =>
        rw [hr] at hdone
        cases hdone.1
    · cases hw
  | established | failed | idle =>
    simp only [hstate] at hw
    cases hw

/-- `t'` is sound, and what waits in it waits in `t`. -/
structure Within (t t' : DtlsTransport cfg d) : Prop where
  sound   : t'.Sound
  waiting : ∀ j, (t'.sessions j).Waiting → t'.sessions j = t.sessions j

/-- The timeouts keep no datagram. -/
theorem within_tickTimeouts {t : DtlsTransport cfg d} (hs : t.Sound) (millis : UInt32) :
    t.Within (t.tickTimeouts millis) where
  sound := tickTimeouts_sound hs millis
  waiting j hw := by
    rcases tickTimeouts_session t millis j with h | h
    · exact h
    · rw [h] at hw
      exact absurd hw (by decide)

/-- A step for one peer that keeps no datagram adds none. -/
theorem Within.touches {t t' t'' : DtlsTransport cfg d} (w : t.Within t') (ep : Endpoint)
    (h : t'.Touches ep (fun _ => False) t'') : t.Within t'' where
  sound := h.sound w.sound
  waiting j hw := by
    have heq : t''.sessions j = t'.sessions j := (h.waiting hw).resolve_right fun h => h.2
    rw [heq] at hw ⊢
    exact w.waiting j hw

/-- `receive` stops before it has a session, or goes on with the one session of
the sender. -/
theorem receive_cases {t : DtlsTransport cfg d} (hs : t.Sound) (capacity : Nat)
    (raw : Option Endpoint) (ssl : Ssl) :
    (∃ t', t.receive capacity raw ssl = (t', none, []) ∧ t.Within t') ∨
      ∃ t' ep i, t.receive capacity raw ssl = t'.receiveRecord i capacity ep ssl ∧ t.Within t' ∧
        (t'.sessions i).peer = ep ∧ (t'.sessions i).state ≠ .idle := by
  have hw := within_tickTimeouts hs ssl.tickMs
  unfold receive
  cases raw with
  | none => exact .inl ⟨_, rfl, hw⟩
  | some ep =>
    dsimp only
    cases hfind : (t.tickTimeouts ssl.tickMs).findSession ep with
    | some i =>
      obtain ⟨hlive, hpeer⟩ := findSession_some hfind
      exact .inr ⟨_, ep, i, rfl, hw, hpeer, hlive⟩
    | none =>
      dsimp only
      split
      · exact .inl ⟨_, rfl, hw⟩
      · -- a server takes the record as the start of a handshake
        cases halloc : (t.tickTimeouts ssl.tickMs).allocSession ep with
        | none => exact .inl ⟨_, rfl, hw⟩
        | some r =>
          obtain ⟨i, t'⟩ := r
          obtain ⟨s, rfl, hpeer, hclear⟩ := allocSession_some hw.sound halloc
          have hnot : ∀ millis, ¬ (s.initSession millis).Waiting := fun _ h =>
            nomatch hclear.symm.trans h.2
          dsimp only
          split
          · rw [resetSession, setSession_setSession]
            exact .inl ⟨_, rfl, hw.touches ep (.reset i)⟩
          · rw [setSession_self, setSession_setSession]
            refine .inr ⟨_, ep, i, rfl, hw.touches ep ?_, ?_, ?_⟩
            · exact .write hpeer nofun (fun j _ hj => findSession_none hfind j hj)
                fun h => absurd h (hnot _)
            · rwa [setSession_self]
            · rw [setSession_self]
              exact nofun

/-- **`receive` keeps no datagram** that was not kept before: it can only write one, or lose it
with its session. -/
theorem receive_within {t : DtlsTransport cfg d} (hs : t.Sound) (capacity : Nat)
    (raw : Option Endpoint) (ssl : Ssl) : t.Within (t.receive capacity raw ssl).1 := by
  rcases receive_cases hs capacity raw ssl with ⟨t', heq, hw⟩ | ⟨t', ep, i, heq, hw, hpeer, hlive⟩
  · rw [heq]
    exact hw
  · rw [heq]
    have hfree : ∀ j, j ≠ i → (t'.sessions j).state ≠ .idle → (t'.sessions j).peer ≠ ep :=
      fun j hji hj h => hji (hw.sound.keyed j i hj hlive (h.trans hpeer.symm))
    exact hw.touches ep (receiveRecord_touches hpeer hfree capacity ssl)

/-- **What a `receive` writes** has waited for the end of the handshake, in one of the sessions. -/
theorem receive_writes {t : DtlsTransport cfg d} (hs : t.Sound) {capacity : Nat}
    {raw : Option Endpoint} {ssl : Ssl} {w : SslWrite}
    (hw : w ∈ (t.receive capacity raw ssl).2.2) :
    ∃ i, (t.sessions i).Waiting ∧ w.send = (t.sessions i).txSend := by
  rcases receive_cases hs capacity raw ssl with ⟨t', heq, -⟩ | ⟨t', ep, i, heq, hwithin, -⟩
  · rw [heq] at hw
    cases hw
  · rw [heq] at hw
    obtain ⟨hwait, hsend⟩ := receiveRecord_writes hw
    have hsame := hwithin.waiting i hwait
    rw [hsame] at hwait hsend
    exact ⟨i, hwait, hsend⟩

/-- A datagram comes from an established session, so nothing waits for its sender. -/
theorem receive_sender {t : DtlsTransport cfg d} (hs : t.Sound) {capacity : Nat}
    {raw : Option Endpoint} {ssl : Ssl} {sender : Endpoint} {data : Bytes}
    (hrx : (t.receive capacity raw ssl).2.1 = some (sender, data)) (j : Fin d.maxSessions)
    (hw : ((t.receive capacity raw ssl).1.sessions j).Waiting) :
    ((t.receive capacity raw ssl).1.sessions j).peer ≠ sender := by
  rcases receive_cases hs capacity raw ssl with ⟨t', heq, -⟩ | ⟨t', ep, i, heq, hwithin, hpeer, -⟩
  · rw [heq] at hrx
    cases hrx
  · rw [heq] at hrx hw ⊢
    unfold receiveRecord at hrx hw ⊢
    cases hstate : (t'.sessions i).state with
    | established =>
      simp only [hstate] at hrx hw ⊢
      split at hrx
      · cases hrx
        -- the two sessions of the peer would be one, in two states
        intro h
        have hji := hwithin.sound.keyed j i (fun hj => nomatch hw.1.symm.trans hj)
          (fun hi => nomatch hstate.symm.trans hi) (h.trans hpeer.symm)
        rw [hji] at hw
        exact nomatch hstate.symm.trans hw.1
      · cases hrx
    | handshaking =>
      simp only [hstate] at hrx
      split at hrx <;> cases hrx
    | failed | idle =>
      simp only [hstate] at hrx
      cases hrx

end DtlsTransport

end PulseCoap
