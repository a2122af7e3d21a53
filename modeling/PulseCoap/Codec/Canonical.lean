import PulseCoap.Codec.Strict

/-!
# PulseCoAP — the canonical wire form

A datagram that `decode()` accepts, encoded again. Every option head has one
form for its delta and its length, but the extended forms reach 65804 and
`decode()` keeps what it reads of them in a `uint16_t`.

The message a datagram decodes to is written again with numbers and lengths that
are all below 65536, so a field that came to more than that is written shorter
than it was read. `MinimalFields` says so of the datagram. It does not ask that
the numbers ascend: `encode()` takes the difference of two numbers in the same
16 bits `decode()` adds it in, so a number that went around goes around again.

* `wrappedWire_iff` — an accepted datagram is the wire form of its message
  exactly when no extended field of it passes 65535.
* `encode_decoded_iff` — the same of `encode()`; such datagrams are told apart
  by their messages.
-/

namespace PulseCoap.Message

open OptionStream (Minimal writeWrapped)

/-- No extended delta or length of the datagram comes to more than 65535. -/
def MinimalFields (cfg : Config) : Bytes → Prop
  | b0 :: _ :: _ :: _ :: rest => Minimal 65536 cfg.maxOptions (rest.drop (b0.toNat % 16))
  | _ => True

-- ===========================================================================
-- The header
-- ===========================================================================

/-- A message ID is joined from its bytes and taken apart again. -/
theorem joined_bytes (b2 b3 : UInt8) :
    (((b2.toUInt16 <<< 8) ||| b3.toUInt16) >>> 8).toUInt8 = b2 ∧
      (((b2.toUInt16 <<< 8) ||| b3.toUInt16) &&& 0xFF).toUInt8 = b3 := by
  have h2 := b2.toNat_lt
  have h3 := b3.toNat_lt
  constructor
  · rw [Word.hi_eq, Word.join_toNat, ← UInt8.toNat_inj, UInt8.toNat_ofNat']
    omega
  · rw [Word.lo_eq, Word.join_toNat, ← UInt8.toNat_inj, UInt8.toNat_ofNat']
    omega

/-- The first byte is rebuilt from the fields `decode` takes out of it. -/
theorem byte0_decoded {b0 : UInt8} (hv : b0 >>> 6 = kVersion) {m : Message}
    (htype : m.type = MessageType.ofBits ((b0 >>> 4) &&& 0x03))
    (htoken : m.token.length = (b0 &&& 0x0F).toNat) : m.byte0 = b0 := by
  have hall : ∀ n : Fin 256, let b := UInt8.ofNat n.val
      b >>> 6 = kVersion →
        (kVersion <<< 6) ||| (((MessageType.ofBits ((b >>> 4) &&& 0x03)).toBits &&& 0x03) <<< 4) |||
          (UInt8.ofNat (b &&& 0x0F).toNat &&& 0x0F) = b := by decide +kernel
  have hb := hall ⟨b0.toNat, b0.toNat_lt⟩
  dsimp only at hb
  rw [UInt8.ofNat_toNat] at hb
  rw [byte0, htype, htoken]
  exact hb hv

-- ===========================================================================
-- Datagrams and wire forms
-- ===========================================================================

/-- What is decoded is backed by the datagram. -/
theorem backed_decoded {cfg : Config} {b : Bytes} {m : Message}
    (h : decode cfg b = (.none, m)) : m.Backed := by
  obtain ⟨b0, b1, b2, b3, rest, es, p, rfl, -, -, -, hread, rfl⟩ := decode_inv h
  refine ⟨fun o ho => ?_, fun buf hbuf => ?_⟩
  · obtain ⟨e, he, rfl⟩ := List.mem_map.1 ho
    intro hne
    obtain ⟨-, len, hlen⟩ := OptionStream.readWith_mem hread e he
    have hval : (ofEntry e).length.toNat = e.2.length := by
      show (UInt16.ofNat e.2.length).toNat = _
      rw [ofNat_toNat16, hlen]
      unfold wrap16
      omega
    have hnil : e.2 ≠ [] := fun hnil => hne (by rw [hval, hnil]; rfl)
    exact ⟨e.2, if_neg hnil, Nat.le_of_eq hval⟩
  · dsimp only at hbuf ⊢
    split at hbuf
    · cases hbuf
    · rw [← Option.some.inj hbuf]

/-- **The canonical datagrams**: an accepted datagram is the wire form of its message exactly
when its extended fields stay within 16 bits. The header is always written as it was read. -/
theorem wrappedWire_iff {cfg : Config} {b : Bytes} {m : Message}
    (h : decode cfg b = (.none, m)) : m.wrappedWire = b ↔ MinimalFields cfg b := by
  obtain ⟨b0, b1, b2, b3, rest, es, p, rfl, hv, htkl, hrest, hread, rfl⟩ := decode_inv h
  have htoken : (rest.take (b0 &&& 0x0F).toNat).length = (b0 &&& 0x0F).toNat := by
    rw [List.length_take]
    exact Nat.min_eq_left hrest
  -- the option stream decides; the header is always written as it was read
  have hstream := OptionStream.writeWrapped_eq_iff (w := 65536) (Nat.le_refl _) (by decide) hread
  have hentries := entries_stored hread
  unfold MinimalFields
  dsimp only
  rw [← loNibble_toNat, ← hstream]
  unfold wrappedWire header
  dsimp only
  rw [byte0_decoded hv rfl htoken, (joined_bytes b2 b3).1, (joined_bytes b2 b3).2, hentries]
  have hpayload : payloadBytes
      { type := MessageType.ofBits ((b0 >>> 4) &&& 0x03), code := ⟨b1⟩
        messageId := (b2.toUInt16 <<< 8) ||| b3.toUInt16
        token := rest.take (b0 &&& 0x0F).toNat, options := es.map ofEntry
        payload := if p = [] then none else some p, payloadLength := p.length } = p := by
    unfold payloadBytes
    dsimp only
    split
    · next hp => rw [hp]; rfl
    · exact List.take_length
  rw [hpayload]
  -- the token is in front of the stream on both sides
  constructor
  · intro heq
    have htail := @List.append_cancel_left _ [b0, b1, b2, b3] _ _ heq
    conv at htail => rhs; rw [← List.take_append_drop (b0 &&& 0x0F).toNat rest]
    exact List.append_cancel_left htail
  · intro heq
    rw [heq, List.take_append_drop]
    rfl

/-- **Where the wire form is canonical**: encoding what was decoded reproduces the datagram, in
every buffer that has room for it, exactly when no extended field passes 65535; and no two such
datagrams decode to the same message. A proxy that decodes and encodes again changes the bytes
of the other datagrams only. -/
theorem encode_decoded_iff {cfg : Config} {b : Bytes} {m : Message}
    (h : decode cfg b = (.none, m)) :
    ((∀ cap, b.length ≤ cap → m.encode cap = .ok b ∧ encodedLength (m.encode cap) = b.length) ↔
      MinimalFields cfg b) ∧
    ∀ b', decode cfg b' = (.none, m) → MinimalFields cfg b → MinimalFields cfg b' → b = b' := by
  refine ⟨?_, fun b' h' hb hb' => ?_⟩
  · rw [← wrappedWire_iff h]
    constructor
    · intro henc
      -- a buffer with room for both
      have hcap := (henc (max b.length m.wrappedWire.length) (Nat.le_max_left ..)).1
      rw [(encode_wraps (backed_decoded h) _).1 (Nat.le_max_right ..)] at hcap
      exact Except.ok.inj hcap
    · intro heq cap hcap
      have henc := (encode_wraps (backed_decoded h) cap).1 (by rwa [heq])
      rw [henc, heq]
      exact ⟨rfl, rfl⟩
  · rw [← (wrappedWire_iff h).2 hb, ← (wrappedWire_iff h').2 hb']

/-- A GET of `/a`. -/
theorem encode_decoded_get :
    let b : Bytes := [0x40, 0x01, 0x00, 0x01, 0xB1, 0x61]
    ((∀ cap, b.length ≤ cap → ((decode .default b).2).encode cap = .ok b ∧
        encodedLength (((decode .default b).2).encode cap) = b.length) ↔
      MinimalFields .default b) ∧
    ∀ b', decode .default b' = (.none, (decode .default b).2) → MinimalFields .default b →
      MinimalFields .default b' → b = b' := by
  have hdec : decode .default [0x40, 0x01, 0x00, 0x01, 0xB1, 0x61] =
      (.none, (decode .default [0x40, 0x01, 0x00, 0x01, 0xB1, 0x61]).2) := by decide
  exact encode_decoded_iff hdec

/-- A delta of 65804 is decoded like one of 268, and written as that. -/
theorem not_canonical :
    (¬ ∀ (b : Bytes) m, decode .default b = (.none, m) → ∀ cap, b.length ≤ cap →
      m.encode cap = .ok b) ∧
    ¬ ∀ (b b' : Bytes) m, decode .default b = (.none, m) → decode .default b' = (.none, m) →
      b = b' := by
  constructor
  · intro h
    have henc := h [0x40, 0x01, 0x00, 0x01, 0xE0, 0xFF, 0xFF] _ (Prod.ext (by decide) rfl) 7
      (by decide)
    revert henc
    decide
  · intro h
    have heq := h [0x40, 0x01, 0x00, 0x01, 0xE0, 0xFF, 0xFF] [0x40, 0x01, 0x00, 0x01, 0xD0, 0xFF] _
      (Prod.ext (by decide) rfl) (by decide)
    cases heq

end PulseCoap.Message
