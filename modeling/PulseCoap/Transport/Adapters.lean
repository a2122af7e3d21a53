import PulseCoap.Config
import PulseCoap.Transport.Endpoint
import PulseCoap.Lib.Table

/-!
# PulseCoAP — the UDP transports

`receive` of `PulseCoAPTransportPosix.h`, `PulseCoAPTransportArduinoUDP.h` and
`PulseCoAPTransportLwIP.h`, and the receive callback of the last.

The calls that copy a datagram out of the network stack (`recvfrom`, `udp.read`
and `pbuf_copy_partial`) are not the library's. They are the parameter `copy`:
the bytes such a call stores when it is asked for at most so many of a datagram.
An error is a copy of no bytes. All that is assumed of them is `CopiesAtMost`.

The ring of the LwIP transport keeps in each slot the array and the length. A
field that is not in the source, `datagram`, says what the slot was filled from.

The three `receive` functions differ in who truncates. The POSIX one and the
Arduino one ask the stack for at most the capacity of `poll()`'s buffer, and the
LwIP one copies twice, from the `pbuf` into a slot and from the slot into the
buffer, each time cut to what there is room for. `Delivers.spec` is what they
have in common.
-/

namespace PulseCoap

/-- A UDP datagram, whose length is a 16-bit field. The bound is what keeps every length below
from being cut down. -/
structure UdpDatagram where
  source    : Endpoint
  bytes     : Bytes
  length_lt : bytes.length < 2 ^ 16

/-- The calls of the network stack copy at most the requested number of bytes. Nothing says
which bytes, or that they are any of the datagram's. -/
structure CopiesAtMost (copy : Nat → Bytes → Bytes) : Prop where
  bounded : ∀ n data, (copy n data).length ≤ n

variable (copy : Nat → Bytes → Bytes)

/-! ## POSIX sockets -/

/-- `PosixUdpTransport`; `fd` is -1 until `begin`, and `receive` has nothing to read till then. -/
structure PosixUdpTransport where
  fd : Int := -1
deriving DecidableEq, Repr

/-- `PosixUdpTransport::receive`; `waiting` is the datagram at the socket. What does not fit the
buffer the kernel drops, and the length returned is that of the copy. -/
def PosixUdpTransport.receive (t : PosixUdpTransport) (capacity : Nat)
    (waiting : Option UdpDatagram) : Option (Endpoint × Bytes) :=
  if t.fd < 0 then none
  else
    match waiting with
    | none => none
    | some d =>
      let stored := copy capacity d.bytes
      -- `n <= 0`
      if stored.length = 0 then none else some (d.source, stored)

/-! ## Arduino `UDP` -/

/-- `ArduinoUdpTransport::receive`; `parsed` is what `parsePacket` has found. A datagram longer
than the buffer is read up to the capacity. -/
def ArduinoUdpTransport.receive (capacity : Nat) (parsed : Option UdpDatagram) :
    Option (Endpoint × Bytes) :=
  match parsed with
  | none => none
  | some d =>
    let packetSize := d.bytes.length
    if packetSize = 0 then none
    else
      let toRead := if packetSize < capacity then packetSize else capacity
      let actuallyRead := copy toRead d.bytes
      if actuallyRead.length > 0 then some (d.source, actuallyRead) else none

/-! ## lwIP -/

/-- `LwIpUdpTransport::Slot`. The array keeps its bytes from one datagram to the next; `length`
says how many count. -/
structure LwIpSlot where
  data     : Bytes := []
  length   : Nat := 0
  sender   : Endpoint := default
  datagram : Option UdpDatagram := none

/-- `LwIpUdpTransport` with `PULSECOAP_LWIP_RX_SLOTS` slots. `head` and `tail` only ever grow,
and wrap around at 32 bits. -/
structure LwIpUdpTransport (rxSlots : Nat) where
  slots : Table rxSlots LwIpSlot := fun _ => {}
  head  : UInt32 := 0
  tail  : UInt32 := 0

namespace LwIpUdpTransport

variable {rxSlots : Nat} [NeZero rxSlots]

/-- `slots_[n % PULSECOAP_LWIP_RX_SLOTS]`. -/
def slotAt (n : UInt32) : Fin rxSlots := Fin.ofNat rxSlots n.toNat

/-- The constructor, which clears the slots. -/
def start (cfg : Config) : LwIpUdpTransport rxSlots :=
  { slots := fun _ => { data := List.replicate cfg.maxMsgSize 0 } }

/-- A slot after `pbuf_copy_partial`: what was in the array behind the copied
bytes stays, and the length is that of the clamp. -/
def fill (cfg : Config) (s : LwIpSlot) (d : UdpDatagram) : LwIpSlot :=
  let length := if d.bytes.length < cfg.maxMsgSize then d.bytes.length else cfg.maxMsgSize
  let copied := copy length d.bytes
  { data := copied ++ s.data.drop copied.length, length, sender := d.source, datagram := some d }

/-- `LwIpUdpTransport::recvCallback`; `none` is a null `pbuf`. With the ring full it is the
datagram that has just arrived that is dropped. -/
def recvCallback (cfg : Config) (t : LwIpUdpTransport rxSlots) (p : Option UdpDatagram) :
    LwIpUdpTransport rxSlots :=
  match p with
  | none => t
  | some d =>
    let used := t.tail - t.head
    if used.toNat < rxSlots then
      { t with
        slots := t.slots.set (slotAt t.tail) (fill copy cfg (t.slots (slotAt t.tail)) d)
        tail := t.tail + 1 }
    else t

/-- `LwIpUdpTransport::receive`. The datagram leaves the ring also when only part of it fits the
buffer. -/
def receive (t : LwIpUdpTransport rxSlots) (capacity : Nat) :
    LwIpUdpTransport rxSlots × Option (Endpoint × Bytes) :=
  if t.head = t.tail then (t, none)
  else
    let s := t.slots (slotAt t.head)
    let toCopy := if s.length < capacity then s.length else capacity
    ({ t with head := t.head + 1 }, some (s.sender, s.data.take toCopy))

/-- What happens to the transport. -/
inductive Op where
  | recvCallback (p : Option UdpDatagram)
  | receive (capacity : Nat)

def apply (cfg : Config) (t : LwIpUdpTransport rxSlots) : Op → LwIpUdpTransport rxSlots
  | .recvCallback p => t.recvCallback copy cfg p
  | .receive capacity => (t.receive capacity).1

/-- The transport after these operations. -/
def run (cfg : Config) (ops : List Op) : LwIpUdpTransport rxSlots :=
  ops.foldl (apply copy cfg) (start cfg)

end LwIpUdpTransport

/-! ## What `poll` gets -/

/-- What `receive` returns for datagram `d` when `poll` calls it with its buffer
of `PULSECOAP_MAX_MSG_SIZE` bytes. -/
inductive Delivers (cfg : Config) (d : UdpDatagram) : Endpoint × Bytes → Prop where
  | posix {t : PosixUdpTransport} {rx : Endpoint × Bytes} :
      t.receive copy cfg.maxMsgSize (some d) = some rx → Delivers cfg d rx
  | arduino {rx : Endpoint × Bytes} :
      ArduinoUdpTransport.receive copy cfg.maxMsgSize (some d) = some rx → Delivers cfg d rx
  | lwip {rxSlots : Nat} [NeZero rxSlots] {ops : List LwIpUdpTransport.Op}
      {t : LwIpUdpTransport rxSlots} {rx : Endpoint × Bytes} :
      t = LwIpUdpTransport.run copy cfg ops →
      (t.slots (LwIpUdpTransport.slotAt t.head)).datagram = some d →
      (t.receive cfg.maxMsgSize).2 = some rx → Delivers cfg d rx

variable {copy}

/-- The clamps of the three transports. -/
theorem clamp_eq (n m : Nat) : (if n < m then n else m) = min n m := by
  split <;> omega

/-- A filled slot holds what was copied of its datagram, then what was there. -/
structure Filled (copy : Nat → Bytes → Bytes) (cfg : Config) (s : LwIpSlot) (d : UdpDatagram) :
    Prop where
  sender : s.sender = d.source
  length : s.length = min d.bytes.length cfg.maxMsgSize
  data   : ∃ old, s.data = copy (min d.bytes.length cfg.maxMsgSize) d.bytes ++ old

theorem filled_fill (cfg : Config) (s : LwIpSlot) (d : UdpDatagram) :
    Filled copy cfg (LwIpUdpTransport.fill copy cfg s d) d where
  sender := rfl
  length := clamp_eq _ _
  data := by
    refine ⟨s.data.drop (copy (min d.bytes.length cfg.maxMsgSize) d.bytes).length, ?_⟩
    rw [← clamp_eq]
    rfl

/-- Every slot that was filled is `Filled`. -/
def AllFilled {rxSlots : Nat} (copy : Nat → Bytes → Bytes) (cfg : Config)
    (t : LwIpUdpTransport rxSlots) : Prop :=
  ∀ i d, (t.slots i).datagram = some d → Filled copy cfg (t.slots i) d

/-- Only the callback writes a slot. -/
theorem AllFilled.apply {rxSlots : Nat} [NeZero rxSlots] {cfg : Config}
    {t : LwIpUdpTransport rxSlots} (h : AllFilled copy cfg t) (op : LwIpUdpTransport.Op) :
    AllFilled copy cfg (t.apply copy cfg op) := by
  cases op with
  | receive capacity =>
    show AllFilled copy cfg (t.receive capacity).1
    unfold LwIpUdpTransport.receive
    split
    · exact h
    · exact h
  | recvCallback p =>
    show AllFilled copy cfg (t.recvCallback copy cfg p)
    unfold LwIpUdpTransport.recvCallback
    cases p with
    | none => exact h
    | some d =>
      dsimp only
      split
      · intro i d' hd'
        by_cases hi : i = LwIpUdpTransport.slotAt t.tail
        · subst hi
          dsimp only at hd' ⊢
          rw [Table.set_self] at hd' ⊢
          cases hd'
          exact filled_fill cfg _ d
        · dsimp only at hd' ⊢
          rw [Table.set_ne _ _ hi] at hd' ⊢
          exact h i d' hd'
      · exact h

theorem allFilled_of_run {rxSlots : Nat} [NeZero rxSlots] (cfg : Config)
    (ops : List LwIpUdpTransport.Op) :
    AllFilled copy cfg (LwIpUdpTransport.run copy cfg ops : LwIpUdpTransport rxSlots) := by
  have hfold : ∀ (ops : List LwIpUdpTransport.Op) (t : LwIpUdpTransport rxSlots),
      AllFilled copy cfg t → AllFilled copy cfg (ops.foldl (LwIpUdpTransport.apply copy cfg) t) := by
    intro ops
    induction ops with
    | nil => exact fun _ h => h
    | cons op ops ih => exact fun t h => ih _ (h.apply op)
  exact hfold ops _ fun i d hd => nomatch hd

/-- **What `poll` gets of a datagram** comes from its sender and fits the buffer; it is the
front of the datagram if the network stack copies all it is asked for. This holds of the three
adapters alike. -/
theorem Delivers.spec {cfg : Config} {d : UdpDatagram} {rx : Endpoint × Bytes}
    (hcopy : CopiesAtMost copy) (h : Delivers copy cfg d rx) :
    rx.1 = d.source ∧ rx.2.length ≤ cfg.maxMsgSize ∧
      ((∀ n data, copy n data = data.take n) → rx.2 = d.bytes.take cfg.maxMsgSize) := by
  have hmin : d.bytes.take (min d.bytes.length cfg.maxMsgSize) = d.bytes.take cfg.maxMsgSize := by
    rw [Nat.min_comm]
    exact List.take_eq_take_min.symm
  cases h with
  | @posix t _ h =>
    unfold PosixUdpTransport.receive at h
    split at h
    · cases h
    · dsimp only at h
      split at h
      · cases h
      · cases h
        exact ⟨rfl, hcopy.bounded _ _, fun hfull => hfull _ _⟩
  | arduino h =>
    unfold ArduinoUdpTransport.receive at h
    dsimp only at h
    rw [clamp_eq] at h
    split at h
    · cases h
    · split at h
      · obtain rfl := Option.some.inj h
        refine ⟨rfl, (hcopy.bounded _ _).trans (Nat.min_le_right _ _), fun hfull => ?_⟩
        exact (hfull _ _).trans hmin
      · cases h
  | @lwip rxSlots _ ops t _ ht hd h =>
    -- the copy was made by the callback, so the run up to here has to be looked at
    unfold LwIpUdpTransport.receive at h
    dsimp only at h
    rw [clamp_eq] at h
    split at h
    · cases h
    · obtain rfl := Option.some.inj h
      obtain ⟨hsender, hlength, old, hdata⟩ := ht ▸ allFilled_of_run cfg ops _ d (ht ▸ hd)
      refine ⟨hsender, (List.length_take_le _ _).trans (Nat.min_le_right _ _), fun hfull => ?_⟩
      rw [hfull, hmin] at hdata
      rw [hlength, hdata]
      exact List.take_left' (by rw [List.length_take]; omega)

end PulseCoap
