import PulseCoap.Lib.Ring
import PulseCoap.Transport.Adapters

/-!
# PulseCoAP — the receive ring of the LwIP transport

The callback puts a datagram at `tail_ % PULSECOAP_LWIP_RX_SLOTS` and `receive`
takes one from `head_ % PULSECOAP_LWIP_RX_SLOTS`. Both counters run on over
2^32. The slots come round with them only if their number divides 2^32.

The proof is an instance of `Lib.Ring`: the operations of the transport are
those of a ring of `n` slots with counters modulo 2^32, and `n` divides 2^32
only if it is a power of two. A datagram that was stored is given back whole to
a buffer that is large enough; what is behind its bytes in the slot is not seen.

* `Shows` — the ring of datagrams that a transport is.
* `fifo_iff` — it is a bounded queue exactly when there are 2^k slots, k < 32.
* `not_fifo` — three slots.
-/

namespace PulseCoap

namespace LwIpUdpTransport

variable (copy : Nat → Bytes → Bytes) (cfg : Config) {rxSlots : Nat} [NeZero rxSlots]

-- ===========================================================================
-- What is claimed
-- ===========================================================================

/-- What an operation returns. -/
def returned (t : LwIpUdpTransport rxSlots) : Op → List (Option (Endpoint × Bytes))
  | .recvCallback _ => []
  | .receive capacity => [(t.receive capacity).2]

/-- The transport, with what `receive` returns. -/
def machine (rxSlots : Nat) [NeZero rxSlots] :
    Machine (LwIpUdpTransport rxSlots) Op (Option (Endpoint × Bytes)) where
  init := start cfg
  next t op := (t.apply copy cfg op, t.returned op)

/-- A datagram of at most `PULSECOAP_MAX_MSG_SIZE` bytes, and a buffer of as many. -/
def Op.Fits : Op → Prop
  | .recvCallback p => ∀ d ∈ p, d.bytes.length ≤ cfg.maxMsgSize
  | .receive capacity => cfg.maxMsgSize ≤ capacity

/-- What an operation is on a queue of datagrams. -/
def Op.onQueue : Op → Ring.Op UdpDatagram
  | .recvCallback (some d) => .push d
  | .recvCallback none => .idle
  | .receive _ => .pop

/-- A datagram with its sender. -/
def whole (d : UdpDatagram) : Endpoint × Bytes := (d.source, d.bytes)

/-- **First in, first out**: each `receive` returns the oldest datagram that is left, and one that
comes when there are `PULSECOAP_LWIP_RX_SLOTS` of them is dropped. -/
def IsFifo (rxSlots : Nat) [NeZero rxSlots] : Prop :=
  ∀ ops : List Op, (∀ op ∈ ops, op.Fits cfg) →
    ((machine copy cfg rxSlots).exec [] (start cfg) ops).1 =
      ((Ring.queue rxSlots whole).exec [] [] (ops.map Op.onQueue)).1

-- ===========================================================================
-- The ring of datagrams
-- ===========================================================================

variable {copy cfg}

/-- A cleared slot is one of an empty datagram from nowhere. -/
def blank : UdpDatagram where
  source := default
  bytes := []
  length_lt := by decide

/-- A slot from which a large enough buffer gets this datagram. -/
structure Stores (cfg : Config) (s : LwIpSlot) (d : UdpDatagram) : Prop where
  sender : s.sender = d.source
  length : s.length = d.bytes.length
  data   : s.data.take d.bytes.length = d.bytes
  fits   : d.bytes.length ≤ cfg.maxMsgSize

/-- The slots of a new ring hold nothing. -/
theorem stores_blank (cfg : Config) :
    Stores cfg { data := List.replicate cfg.maxMsgSize 0 } blank :=
  ⟨rfl, rfl, rfl, Nat.zero_le _⟩

/-- `pbuf_copy_partial` copies all of a datagram that fits. -/
theorem stores_fill (hcopy : ∀ n data, copy n data = data.take n) (s : LwIpSlot)
    {d : UdpDatagram} (hfits : d.bytes.length ≤ cfg.maxMsgSize) :
    Stores cfg (fill copy cfg s d) d := by
  have hlength : (if d.bytes.length < cfg.maxMsgSize then d.bytes.length else cfg.maxMsgSize) =
      d.bytes.length := by
    split <;> omega
  unfold fill
  dsimp only
  rw [hlength, hcopy, List.take_length]
  exact ⟨rfl, rfl, List.take_left' rfl, hfits⟩

/-- The ring with the counters of the transport and the datagrams in its slots. -/
structure Shows (cfg : Config) (r : Ring rxSlots UdpDatagram) (t : LwIpUdpTransport rxSlots) :
    Prop where
  head  : r.head = t.head.toNat
  tail  : r.tail = t.tail.toNat
  slots : ∀ i, Stores cfg (t.slots i) (r.slots i)

variable {r : Ring rxSlots UdpDatagram} {t : LwIpUdpTransport rxSlots}

/-- The callback of lwIP pushes the datagram, if it fits a slot. -/
theorem Shows.recvCallback (h : Shows cfg r t) (hcopy : ∀ n data, copy n data = data.take n)
    {d : UdpDatagram} (hfits : d.bytes.length ≤ cfg.maxMsgSize) :
    Shows cfg (r.push (2 ^ 32) d) (t.recvCallback copy cfg (some d)) := by
  have hused : r.used (2 ^ 32) = (t.tail - t.head).toNat := by
    rw [Ring.used, h.head, h.tail, UInt32.toNat_sub]
  unfold Ring.push LwIpUdpTransport.recvCallback
  rw [hused]
  dsimp only
  split
  · refine ⟨h.head, ?_, fun i => ?_⟩
    · dsimp only
      rw [h.tail, UInt32.toNat_add]
      rfl
    · -- the slot that is written, and the others
      have hindex : Ring.index r.tail = (slotAt t.tail : Fin rxSlots) := by
        rw [h.tail]
        rfl
      dsimp only
      rw [hindex]
      by_cases hi : i = slotAt t.tail
      · subst hi
        rw [Table.set_self, Table.set_self]
        exact stores_fill hcopy _ hfits
      · rw [Table.set_ne _ _ hi, Table.set_ne _ _ hi]
        exact h.slots i
  · exact h

/-- `receive` pops it, if it fits the caller's buffer. -/
theorem Shows.receive (h : Shows cfg r t) {capacity : Nat} (hroom : cfg.maxMsgSize ≤ capacity) :
    (t.receive capacity).2 = (r.pop (2 ^ 32)).2.map whole ∧
      Shows cfg (r.pop (2 ^ 32)).1 (t.receive capacity).1 := by
  have hempty : r.head = r.tail ↔ t.head = t.tail := by
    rw [h.head, h.tail]
    exact UInt32.toNat_inj
  unfold Ring.pop LwIpUdpTransport.receive
  by_cases hnone : t.head = t.tail
  · rw [if_pos hnone, if_pos (hempty.2 hnone)]
    exact ⟨rfl, h⟩
  · rw [if_neg hnone, if_neg (mt hempty.1 hnone)]
    have hindex : Ring.index r.head = (slotAt t.head : Fin rxSlots) := by
      rw [h.head]
      rfl
    obtain ⟨hsender, hlength, hdata, hfits⟩ := h.slots (slotAt t.head)
    refine ⟨?_, ?_, h.tail, h.slots⟩
    · dsimp only
      rw [hindex, hlength, clamp_eq, Nat.min_eq_left (hfits.trans hroom), hdata, hsender]
      rfl
    · dsimp only
      rw [h.head, UInt32.toNat_add]
      rfl

/-- **The transport is the ring**, whatever the number of its slots. A datagram is stored whole
if it fits a slot, and given back whole to a buffer of that size. -/
theorem exec_ring (hcopy : ∀ n data, copy n data = data.take n) (ops : List Op)
    (hfits : ∀ op ∈ ops, op.Fits cfg) :
    ((machine copy cfg rxSlots).exec [] (start cfg) ops).1 =
      ((Ring.ring rxSlots (2 ^ 32) blank whole).exec [] (Ring.start blank)
        (ops.map Op.onQueue)).1 := by
  have hstart : Shows cfg (Ring.start blank) (start cfg : LwIpUdpTransport rxSlots) :=
    ⟨rfl, rfl, fun _ => stores_blank cfg⟩
  have hstep : ∀ (t : LwIpUdpTransport rxSlots) (r : Ring rxSlots UdpDatagram) (op : Op),
      op.Fits cfg → Shows cfg r t →
      ((Ring.ring rxSlots (2 ^ 32) blank whole).next r op.onQueue).2 =
          ((machine copy cfg rxSlots).next t op).2 ∧
        Shows cfg ((Ring.ring rxSlots (2 ^ 32) blank whole).next r op.onQueue).1
          ((machine copy cfg rxSlots).next t op).1 := by
    intro t r op hop h
    cases op with
    | recvCallback p =>
      cases p with
      | none => exact ⟨rfl, h⟩
      | some d => exact ⟨rfl, h.recvCallback hcopy (hop d rfl)⟩
    | receive capacity =>
      obtain ⟨hout, hnext⟩ := h.receive hop
      exact ⟨congrArg (fun rx => [rx]) hout.symm, hnext⟩
  exact (Machine.exec_lockstep_on hstep ops [] (start cfg) (Ring.start blank) hfits hstart).symm

-- ===========================================================================
-- Which rings are queues
-- ===========================================================================

/-- The operations that do this on a queue. -/
def ofQueue (cfg : Config) : Ring.Op UdpDatagram → Op
  | .push d => .recvCallback (some d)
  | .idle => .recvCallback none
  | .pop => .receive cfg.maxMsgSize

/-- Each operation of the queue is one of the transport. -/
theorem onQueue_ofQueue (cfg : Config) (ops : List (Ring.Op UdpDatagram)) :
    (ops.map (ofQueue cfg)).map Op.onQueue = ops := by
  rw [List.map_map]
  refine (List.map_congr_left fun op _ => ?_).trans (List.map_id ops)
  cases op <;> rfl

/-- One byte, or none where there is no room for one, from this port. -/
def probe (cfg : Config) (port : UInt16) : UdpDatagram where
  source := { port }
  bytes := List.replicate (min 1 cfg.maxMsgSize) 0
  length_lt := by
    rw [List.length_replicate]
    omega

theorem probe_fits (cfg : Config) (port : UInt16) :
    (probe cfg port).bytes.length ≤ cfg.maxMsgSize := by
  rw [probe, List.length_replicate]
  exact Nat.min_le_right ..

/-- Other numbers of slots lose a datagram. -/
theorem not_isFifo (hcopy : ∀ n data, copy n data = data.take n)
    (hbad : ¬ (rxSlots ∣ 2 ^ 32 ∧ rxSlots < 2 ^ 32)) : ¬ IsFifo copy cfg rxSlots := by
  intro hfifo
  have hdiffer : whole (probe cfg 1) ≠ whole (probe cfg 2) := by
    intro h
    exact absurd (congrArg (fun e => e.1.port) h) (by decide : (1 : UInt16) ≠ 2)
  obtain ⟨ops, hpushed, hlost⟩ := Ring.exists_lost blank whole (by decide) hbad hdiffer
  have hfits : ∀ op ∈ ops.map (ofQueue cfg), op.Fits cfg := by
    intro op hop
    obtain ⟨op', hop', rfl⟩ := List.mem_map.1 hop
    cases op' with
    | push d =>
      rintro d' ⟨⟩
      rcases hpushed d hop' with rfl | rfl <;> exact probe_fits cfg _
    | pop => exact Nat.le_refl _
    | idle => exact fun _ hd => (nomatch hd)
  have hsame := hfifo _ hfits
  rw [exec_ring hcopy _ hfits, onQueue_ofQueue] at hsame
  exact hlost hsame

/-- **The ring is a FIFO**, over any number of operations, exactly when its slots come round
with the counters and are fewer than 2^32. Two datagrams that differ are enough to tell. -/
theorem fifo_iff (cfg : Config) (hcopy : ∀ n data, copy n data = data.take n) :
    IsFifo copy cfg rxSlots ↔ rxSlots ∣ 2 ^ 32 ∧ rxSlots < 2 ^ 32 := by
  constructor
  · intro hfifo
    by_contra hbad
    exact not_isFifo hcopy hbad hfifo
  · rintro ⟨hdvd, hlt⟩ ops hfits
    rw [exec_ring hcopy ops hfits, Ring.exec_eq hdvd hlt]

/-- The default of 4 slots, for calls that copy what they are asked for. -/
theorem fifo_iff_four :
    IsFifo (fun n data => data.take n) .default 4 ↔ 4 ∣ 2 ^ 32 ∧ 4 < 2 ^ 32 :=
  fifo_iff .default fun _ _ => rfl

/-- With 3 slots the entry that waits over the wrap of the counters is lost. -/
theorem not_fifo : ¬ ∀ (rxSlots : Nat) [NeZero rxSlots],
    IsFifo (fun n data => data.take n) .default rxSlots :=
  fun hall => not_isFifo (fun _ _ => rfl) (by decide) (hall 3)

end LwIpUdpTransport

end PulseCoap
