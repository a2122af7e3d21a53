import PulseCoap.Lib.Table
import PulseCoap.Lib.Word
import PulseCoap.Transport.Adapters

/-!
# PulseCoAP — the addresses of the POSIX transport

`begin`, `send` and `receive` of `PulseCoAPTransportPosix.h`, as far as they
translate between socket addresses and `Endpoint`, here with both arrays that
the struct has.

An IPv4 peer of a dual-stack socket has an IPv4-mapped address, which `receive`
takes apart and `send` puts together again. An `Endpoint` has no place for a
scope id, can say an IPv4 address in two ways, and can say one that an IPv4
socket has no use for.

`RawEndpoint` has the fields of the struct, and `toEndpoint` is what its
comparison sees of it. There are two round trips: a socket address that a
datagram came from is the one a reply goes to, and an endpoint that is sent to
is the one a reply comes from.

* `eq_iff` — `operator==` is equality of the endpoints of the other modules.
* `matches_of_begins` — an open socket is of the family that `dualStack_` says.
* `roundTrips_of_begins` — which socket addresses and which endpoints come back.
* `not_roundTrips` — one of each kind that does not.
-/

namespace PulseCoap

-- ===========================================================================
-- Endpoints with their arrays
-- ===========================================================================

/-- `struct Endpoint`. -/
structure RawEndpoint where
  ip   : Table 4 UInt8 := fun _ => 0
  v6   : Table 16 UInt8 := fun _ => 0
  isV6 : Bool := false
  port : UInt16 := 0

namespace RawEndpoint

/-- `Endpoint::operator==`. -/
def eq (e other : RawEndpoint) : Bool :=
  if e.port ≠ other.port ∨ e.isV6 ≠ other.isV6 then false
  else if e.isV6 then decide (∀ i, e.v6 i = other.v6 i)
  else decide (∀ i, e.ip i = other.ip i)

/-- The bytes of an IPv6 address as one number. -/
def bits (v6 : Table 16 UInt8) : BitVec 128 :=
  BitVec.ofNat 128 (Nat.ofDigits 256 ((List.ofFn v6).reverse.map UInt8.toNat))

/-- What `operator==` compares. -/
def toEndpoint (e : RawEndpoint) : Endpoint where
  address := if e.isV6 then .v6 (bits e.v6) else .v4 (e.ip 0) (e.ip 1) (e.ip 2) (e.ip 3)
  port := e.port

/-- Sixteen bytes, from their bits. -/
theorem bits_inj {v w : Table 16 UInt8} (h : bits v = bits w) : v = w := by
  have hlt : ∀ v : Table 16 UInt8,
      Nat.ofDigits 256 ((List.ofFn v).reverse.map UInt8.toNat) < 2 ^ 128 := by
    intro v
    have hdigit : ∀ n ∈ (List.ofFn v).reverse.map UInt8.toNat, n < 256 := by
      intro n hn
      obtain ⟨b, -, rfl⟩ := List.mem_map.1 hn
      exact b.toNat_lt
    have hbound := Nat.ofDigits_lt_base_pow_length (by decide) hdigit
    rwa [List.length_map, List.length_reverse, List.length_ofFn] at hbound
  have hnat := congrArg BitVec.toNat h
  rw [bits, bits, BitVec.toNat_ofNat, BitVec.toNat_ofNat, Nat.mod_eq_of_lt (hlt v),
    Nat.mod_eq_of_lt (hlt w)] at hnat
  have hlist := Word.ofDigits_inj (by simp) hnat
  exact List.ofFn_injective (List.reverse_injective hlist)

/-- **The comparison of endpoints** is equality of what they name: the array that `isV6` does
not select plays no part. -/
theorem eq_iff (e other : RawEndpoint) :
    e.eq other = true ↔ e.toEndpoint = other.toEndpoint := by
  unfold eq toEndpoint
  by_cases hport : e.port = other.port
  · cases hv : e.isV6 <;> cases hw : other.isV6
    · simp [hport, Fin.forall_fin_succ]
    · simp [hport]
    · simp [hport]
    · simp only [hport, ne_eq, not_true_eq_false, or_self, if_false, if_true, decide_eq_true_eq,
        Endpoint.mk.injEq, Address.v6.injEq, and_true]
      exact ⟨fun h => congrArg bits (funext h), fun h i => congrFun (bits_inj h) i⟩
  · simp [hport]

end RawEndpoint

-- ===========================================================================
-- Socket addresses
-- ===========================================================================

inductive Family where
  | inet
  | inet6
deriving DecidableEq, Repr

/-- `sockaddr_in` and `sockaddr_in6`; `s_addr` and the ports are what `ntohl` and `ntohs` make of
them. -/
inductive SockAddr where
  | inet (sAddr : UInt32) (port : UInt16)
  | inet6 (s6Addr : Table 16 UInt8) (port : UInt16) (scopeId : UInt32)

namespace SockAddr

def family : SockAddr → Family
  | .inet _ _ => .inet
  | .inet6 _ _ _ => .inet6

/-- An IPv4 address has none. -/
def scope : SockAddr → UInt32
  | .inet _ _ => 0
  | .inet6 _ _ scopeId => scopeId

end SockAddr

/-- `v4mapped`: `::ffff:0:0/96`. -/
def IsV4Mapped (b : Table 16 UInt8) : Prop :=
  (∀ i : Fin 16, i.val < 10 → b i = 0) ∧ b 10 = 0xFF ∧ b 11 = 0xFF

instance (b : Table 16 UInt8) : Decidable (IsV4Mapped b) := inferInstanceAs (Decidable (_ ∧ _))

/-- The IPv4-mapped address that `send` writes. -/
def v4Mapped (ip : Table 4 UInt8) : Table 16 UInt8 :=
  let s6Addr : Table 16 UInt8 := fun _ => 0
  let s6Addr := (s6Addr.set 10 0xFF).set 11 0xFF
  (((s6Addr.set 12 (ip 0)).set 13 (ip 1)).set 14 (ip 2)).set 15 (ip 3)

/-- `PosixUdpTransport::fillEndpoint`. -/
def fillEndpoint : SockAddr → RawEndpoint
  | .inet raw port =>
    { ip := fun i => [(raw >>> 24).toUInt8, (raw >>> 16).toUInt8, (raw >>> 8).toUInt8,
        raw.toUInt8].get i
      port, isV6 := false }
  | .inet6 b port _ =>
    if IsV4Mapped b then
      { ip := fun i => [b 12, b 13, b 14, b 15].get i, isV6 := false, port }
    else { v6 := b, isV6 := true, port }

-- ===========================================================================
-- The transport
-- ===========================================================================

/-- `PosixUdpTransport` with `dualStack_`, and the family of the socket that `fd_` is. -/
structure PosixUdpSocket extends PosixUdpTransport where
  dualStack : Bool := false
  family    : Family := .inet

namespace PosixUdpSocket

/-- What the calls of `begin` come to: `socket`, the two `fcntl` and `bind`. -/
structure BeginCalls where
  noIpv6      : Bool
  socket      : Family → Int
  nonBlocking : Bool
  bound       : Bool

/-- `::socket(AF_INET6, …)`, unless it is built with `NO_IPV6`. -/
def openDualStack (t : PosixUdpSocket) (c : BeginCalls) : PosixUdpSocket :=
  if c.noIpv6 then t
  else if c.socket .inet6 ≥ 0 then
    { fd := c.socket .inet6, dualStack := true, family := .inet6 }
  else { t with fd := c.socket .inet6 }

/-- The IPv4 socket, where there is no other. -/
def openFallback (t : PosixUdpSocket) (c : BeginCalls) : PosixUdpSocket :=
  if t.fd < 0 then
    if c.socket .inet < 0 then { t with fd := c.socket .inet }
    else { fd := c.socket .inet, dualStack := false, family := .inet }
  else t

/-- `PosixUdpTransport::begin`. -/
def begin (t : PosixUdpSocket) (c : BeginCalls) : PosixUdpSocket × Bool :=
  if t.fd ≥ 0 then (t, false)
  else
    let t := (t.openDualStack c).openFallback c
    if t.fd < 0 then (t, false)
    else if ¬ c.nonBlocking ∨ ¬ c.bound then ({ t with fd := -1 }, false)
    else (t, true)

/-- The transport after these calls of `begin`. -/
def begun (calls : List BeginCalls) : PosixUdpSocket := calls.foldl (fun t c => (t.begin c).1) {}

/-- The address that `send` passes to `sendto`. -/
def destination (t : PosixUdpSocket) (e : RawEndpoint) : SockAddr :=
  if t.dualStack then
    if e.isV6 then .inet6 e.v6 e.port 0 else .inet6 (v4Mapped e.ip) e.port 0
  -- IPv4-only socket: `isV6` is ignored
  else .inet (Word.join32 (e.ip 0) (e.ip 1) (e.ip 2) (e.ip 3)) e.port

/-- `PosixUdpTransport::send`; `sendto` is what the call returns. -/
def send (t : PosixUdpSocket) (sendto : SockAddr → Bytes → Int) (e : RawEndpoint) (data : Bytes) :
    Bool :=
  if t.fd < 0 then false else sendto (t.destination e) data == data.length

/-- `PosixUdpTransport::receive`; `recvfrom` is the address and the bytes that the call has
stored, none for an error. -/
def receive (t : PosixUdpSocket) (recvfrom : Option (SockAddr × Bytes)) :
    Option (RawEndpoint × Bytes) :=
  if t.fd < 0 then none
  else
    match recvfrom with
    | none => none
    | some (ss, data) => if data.length = 0 then none else some (fillEndpoint ss, data)

-- ===========================================================================
-- The family of the socket
-- ===========================================================================

/-- An open socket is an IPv6 socket exactly when `dualStack_` is set. -/
def Matches (t : PosixUdpSocket) : Prop :=
  0 ≤ t.fd → t.family = if t.dualStack then .inet6 else .inet

/-- `begin` opens a socket of the family it notes. -/
theorem matches_begin {t : PosixUdpSocket} (h : t.Matches) (c : BeginCalls) :
    (t.begin c).1.Matches := by
  have hdual : (t.openDualStack c).Matches := by
    unfold openDualStack
    split
    · exact h
    · split
      · exact fun _ => rfl
      · next hfd => exact fun hopen => absurd hopen hfd
  have hfallback : ((t.openDualStack c).openFallback c).Matches := by
    unfold openFallback
    split
    · split
      · next hfd => exact fun hopen => absurd hfd (by dsimp only at hopen; omega)
      · exact fun _ => rfl
    · exact hdual
  unfold begin
  split
  · exact h
  · dsimp only
    split
    · exact hfallback
    · split
      · exact fun hopen => absurd hopen (by decide : ¬ (0 : Int) ≤ -1)
      · exact hfallback

/-- Whatever the calls of `begin` have come to. -/
theorem matches_of_begins (calls : List BeginCalls) : (begun calls).Matches := by
  have hfold : ∀ t : PosixUdpSocket, t.Matches →
      (calls.foldl (fun t c => (t.begin c).1) t).Matches := by
    induction calls with
    | nil => exact fun _ h => h
    | cons c calls ih => exact fun t h => ih _ (matches_begin h c)
  exact hfold {} fun _ => rfl

-- ===========================================================================
-- There and back
-- ===========================================================================

/-- What `fillEndpoint` takes apart is put together again. -/
theorem v4Mapped_fill {b : Table 16 UInt8} (h : IsV4Mapped b) :
    v4Mapped (fun i => [b 12, b 13, b 14, b 15].get i) = b := by
  obtain ⟨hzero, h10, h11⟩ := h
  funext i
  match i with
  | 0 | 1 | 2 | 3 | 4 | 5 | 6 | 7 | 8 | 9 => exact (hzero _ (by decide)).symm
  | 10 => exact h10.symm
  | 11 => exact h11.symm
  | 12 | 13 | 14 | 15 => rfl
  | ⟨k + 16, hk⟩ => exact absurd hk (by omega)

/-- What was mapped is seen to be. -/
theorem isV4Mapped_v4Mapped (ip : Table 4 UInt8) : IsV4Mapped (v4Mapped ip) := by
  refine ⟨fun i hi => ?_, rfl, rfl⟩
  match i with
  | 0 | 1 | 2 | 3 | 4 | 5 | 6 | 7 | 8 | 9 => rfl
  | ⟨k + 10, _⟩ => exact absurd hi (by simp)

/-- The IPv4 address in front of the port. -/
theorem fill_v4Mapped (ip : Table 4 UInt8) (port : UInt16) (scopeId : UInt32) :
    fillEndpoint (.inet6 (v4Mapped ip) port scopeId) = { ip, port } := by
  unfold fillEndpoint
  dsimp only
  rw [if_pos (isV4Mapped_v4Mapped ip)]
  congr 1
  funext i
  match i with
  | 0 | 1 | 2 | 3 => rfl

/-- An IPv4 address is taken apart as it was put together. -/
theorem fill_join (ip : Table 4 UInt8) (port : UInt16) :
    fillEndpoint (.inet (Word.join32 (ip 0) (ip 1) (ip 2) (ip 3)) port) = { ip, port } := by
  obtain ⟨h0, h1, h2, h3⟩ := Word.split32_join (ip 0) (ip 1) (ip 2) (ip 3)
  unfold fillEndpoint
  dsimp only
  congr 1
  funext i
  match i with
  | 0 => exact h0
  | 1 => exact h1
  | 2 => exact h2
  | 3 => exact h3

variable {t : PosixUdpSocket}

/-- **A socket address comes back** but for its scope id, for which an endpoint has no field. -/
theorem destination_fill (ht : t.Matches) (hopen : 0 ≤ t.fd) {ss : SockAddr}
    (hfamily : ss.family = t.family) :
    t.destination (fillEndpoint ss) = ss ↔ ss.scope = 0 := by
  rw [ht hopen] at hfamily
  cases ss with
  | inet raw port =>
    have hsingle : t.dualStack = false := by
      cases hdual : t.dualStack with
      | false => rfl
      | true =>
        rw [hdual] at hfamily
        cases hfamily
    refine iff_of_true ?_ rfl
    rw [destination, hsingle, if_neg Bool.false_ne_true]
    exact congrArg (SockAddr.inet · port) (Word.join32_split raw)
  | inet6 b port scopeId =>
    have hdual : t.dualStack = true := by
      cases hdual : t.dualStack with
      | true => rfl
      | false =>
        rw [hdual] at hfamily
        cases hfamily
    -- mapped or not, all comes back but the scope id
    have hsame : t.destination (fillEndpoint (.inet6 b port scopeId)) = .inet6 b port 0 := by
      by_cases hmapped : IsV4Mapped b
      · have hfill : fillEndpoint (.inet6 b port scopeId) =
            { ip := fun i => [b 12, b 13, b 14, b 15].get i, port } := if_pos hmapped
        rw [hfill, destination, if_pos hdual, if_neg Bool.false_ne_true, v4Mapped_fill hmapped]
      · have hfill : fillEndpoint (.inet6 b port scopeId) = { v6 := b, isV6 := true, port } :=
          if_neg hmapped
        rw [hfill, destination, if_pos hdual, if_pos rfl]
    rw [hsame]
    simp [SockAddr.scope, eq_comm]

/-- The socket has one endpoint for each of its addresses, and this is one of them. -/
def Keeps (t : PosixUdpSocket) (e : RawEndpoint) : Prop :=
  if t.dualStack then ¬ (e.isV6 = true ∧ IsV4Mapped e.v6) else e.isV6 = false

/-- **An endpoint comes back** if the socket keeps it; what it is compared by is what comes
back. -/
theorem fill_destination (e : RawEndpoint) :
    (fillEndpoint (t.destination e)).eq e = true ↔ t.Keeps e := by
  have hplain : RawEndpoint.eq { ip := e.ip, port := e.port } e = true ↔ e.isV6 = false := by
    cases hv : e.isV6 <;> simp [RawEndpoint.eq, hv]
  unfold destination Keeps
  by_cases hdual : t.dualStack = true
  · rw [if_pos hdual, if_pos hdual]
    by_cases hv : e.isV6 = true
    · rw [if_pos hv]
      by_cases hmapped : IsV4Mapped e.v6
      · -- it comes back as IPv4
        refine iff_of_false ?_ fun h => h ⟨hv, hmapped⟩
        simp [fillEndpoint, hmapped, RawEndpoint.eq, hv]
      · refine iff_of_true ?_ fun h => hmapped h.2
        simp [fillEndpoint, hmapped, RawEndpoint.eq, hv]
    · rw [if_neg hv, fill_v4Mapped, hplain]
      simp [hv]
  · rw [if_neg hdual, if_neg hdual, fill_join, hplain]

-- ===========================================================================
-- What is claimed
-- ===========================================================================

/-- **There and back**: a reply goes to the socket address that a datagram came from, for these
socket addresses, and what comes back from where a datagram was sent is from an equal endpoint, for
these endpoints; for others neither is the case. -/
structure RoundTrips (t : PosixUdpSocket) (back : SockAddr → Prop) (kept : RawEndpoint → Prop) :
    Prop where
  replies : ∀ ss data, ss.family = t.family → data ≠ [] →
    ∃ e, t.receive (some (ss, data)) = some (e, data) ∧ (t.destination e = ss ↔ back ss)
  found   : ∀ sendto e payload data, t.send sendto e payload = true → data ≠ [] →
    ∃ e', t.receive (some (t.destination e, data)) = some (e', data) ∧
      (e'.eq e = true ↔ kept e)

theorem receive_some (hopen : 0 ≤ t.fd) (ss : SockAddr) {data : Bytes} (hdata : data ≠ []) :
    t.receive (some (ss, data)) = some (fillEndpoint ss, data) := by
  unfold receive
  rw [if_neg (by omega)]
  exact if_neg (mt List.length_eq_zero_iff.1 hdata)

/-- **The addresses that come back**: the socket addresses without a scope id, and the endpoints
that are no IPv4-mapped addresses of a dual-stack socket and no IPv6 addresses of an IPv4 socket. -/
theorem roundTrips_of_begins (calls : List BeginCalls) (hopen : 0 ≤ (begun calls).fd) :
    (begun calls).RoundTrips (fun ss => ss.scope = 0) (begun calls).Keeps where
  replies ss _ hfamily hdata :=
    ⟨_, receive_some hopen ss hdata, destination_fill (matches_of_begins calls) hopen hfamily⟩
  found _ e _ _ _ hdata := ⟨_, receive_some hopen _ hdata, fill_destination e⟩

/-- A `begin` that gets its socket, in a build with or without IPv6. -/
def beginOk (noIpv6 : Bool) : BeginCalls where
  noIpv6 := noIpv6
  socket := fun _ => 3
  nonBlocking := true
  bound := true

theorem roundTrips_of_begins_dual :
    (begun [beginOk false]).RoundTrips (fun ss => ss.scope = 0) (begun [beginOk false]).Keeps :=
  roundTrips_of_begins [beginOk false] (by decide)

/-- `fe80::1%2`. -/
def linkLocal : SockAddr :=
  let s6Addr : Table 16 UInt8 := fun _ => 0
  .inet6 (((s6Addr.set 0 0xFE).set 1 0x80).set 15 1) 5683 2

/-- `::ffff:192.0.2.1` as an IPv6 address. -/
def mappedEndpoint : RawEndpoint where
  v6 := v4Mapped fun i => [192, 0, 2, 1].get i
  isV6 := true
  port := 5683

/-- Not all of them do: a link-local peer, an IPv4-mapped address, and an IPv6 address on an IPv4
socket. -/
theorem not_roundTrips :
    (¬ ∀ calls, 0 ≤ (begun calls).fd → (begun calls).RoundTrips (fun _ => True) fun _ => True) ∧
      ¬ (begun [beginOk false]).RoundTrips (fun _ => True) (begun [beginOk false]).Keeps ∧
      ¬ (begun [beginOk false]).RoundTrips (fun ss => ss.scope = 0) (fun _ => True) ∧
      ¬ (begun [beginOk true]).RoundTrips (fun ss => ss.scope = 0) (fun _ => True) := by
  have hscope : ∀ kept, ¬ (begun [beginOk false]).RoundTrips (fun _ => True) kept := by
    intro kept h
    obtain ⟨e, hrx, hback⟩ := h.replies linkLocal [0x60] rfl (by decide)
    cases hrx
    have hsent := congrArg SockAddr.scope (hback.2 trivial)
    exact absurd hsent (by decide)
  have hsend : ∀ (t : PosixUdpSocket) (back : SockAddr → Prop), t.fd = 3 →
      t.RoundTrips back (fun _ => True) →
        (fillEndpoint (t.destination mappedEndpoint)).eq mappedEndpoint = true := by
    intro t back hfd h
    have hsent : t.send (fun _ data => data.length) mappedEndpoint [0x60] = true := by
      unfold send
      rw [hfd]
      rfl
    obtain ⟨e, hrx, hfound⟩ := h.found _ mappedEndpoint [0x60] [0x60] hsent (by decide)
    rw [receive_some (by omega) _ (by decide)] at hrx
    cases hrx
    exact hfound.2 trivial
  refine ⟨fun hall => hscope _ (hall [beginOk false] (by decide)), hscope _, fun h => ?_,
    fun h => ?_⟩
  · exact absurd (hsend _ _ rfl h) (by decide +kernel)
  · exact absurd (hsend _ _ rfl h) (by decide +kernel)

end PosixUdpSocket

end PulseCoap
