import PulseCoap.Codec.Stream

/-!
# PulseCoAP — strictness of `decode`

The reference parse of a message (RFC 7252 §3) computes option numbers and lengths
exactly. `decode()` computes them in `uint16_t`, from extended fields that reach
65804, so a malformed option can come out as a well-formed one.

The difference between the two parses is not in what they accept but in what they
add up: both read the same bytes of an option head. So the comparison comes down to
`OptionStream.readWith_agree_iff`, and all that is left is the header, where they
agree.

* `readMessage_iff` — the reference parse is the inverse of the wire format.
* `strict_iff_agree` — on a well-formed header `decode()` is strict when its reader
  and the exact one agree.
* `strict_iff` — `decode()` is strict on a datagram exactly when the exact scan of
  its options does not come to a number or a length above 65535 behind which the
  rest is acceptable.
-/

namespace PulseCoap

/-- A message as the wire format defines it, in exact numbers. -/
structure WireMessage where
  type      : Nat
  code      : Nat
  messageId : Nat
  token     : Bytes
  options   : List (Nat × Bytes)
  payload   : Bytes
deriving DecidableEq, Repr

namespace WireMessage

/-- What the format allows, with at most `maxOptions` options. -/
structure Valid (maxOptions : Nat) (w : WireMessage) : Prop where
  type      : w.type < 4
  code      : w.code < 256
  messageId : w.messageId < 65536
  token     : w.token.length ≤ 8
  room      : w.options.length ≤ maxOptions
  options   : OptionStream.Entries 65535 0 w.options

/-- The bytes of a message. -/
def bytes (w : WireMessage) : Bytes :=
  UInt8.ofNat (64 + w.type * 16 + w.token.length) :: UInt8.ofNat w.code ::
    UInt8.ofNat (w.messageId / 256) :: UInt8.ofNat (w.messageId % 256) ::
    (w.token ++ OptionStream.write 0 w.options w.payload)

end WireMessage

/-- The reference parse. -/
def readMessage (maxOptions : Nat) : Bytes → Option WireMessage
  | b0 :: b1 :: b2 :: b3 :: rest =>
    if b0.toNat / 64 = 1 ∧ b0.toNat % 16 ≤ 8 ∧ b0.toNat % 16 ≤ rest.length then
      (OptionStream.read 65535 maxOptions 0 (rest.drop (b0.toNat % 16))).map fun r =>
        { type := b0.toNat / 16 % 4, code := b1.toNat, messageId := b2.toNat * 256 + b3.toNat
          token := rest.take (b0.toNat % 16), options := r.1, payload := r.2 }
    else none
  | _ => none

/-- The reference parse accepts exactly the bytes of valid messages. -/
theorem readMessage_iff {maxOptions : Nat} {b : Bytes} {w : WireMessage} :
    readMessage maxOptions b = some w ↔ w.Valid maxOptions ∧ b = w.bytes := by
  constructor
  · intro h
    rcases b with _ | ⟨b0, _ | ⟨b1, _ | ⟨b2, _ | ⟨b3, rest⟩⟩⟩⟩
    · cases h
    · cases h
    · cases h
    · cases h
    -- what the fields of the header come to are bytes again
    have h0 := b0.toNat_lt
    have h1 := b1.toNat_lt
    have h2 := b2.toNat_lt
    have h3 := b3.toNat_lt
    rw [readMessage] at h
    split at h
    · rename_i hhead
      obtain ⟨⟨es, p⟩, hread, rfl⟩ := Option.map_eq_some_iff.1 h
      obtain ⟨hroom, hes, hrest⟩ := OptionStream.read_sound hread
      have htok : (rest.take (b0.toNat % 16)).length = b0.toNat % 16 := by simp [hhead.2.2]
      refine ⟨⟨?_, h1, ?_, ?_, hroom, hes⟩, ?_⟩
      · show b0.toNat / 16 % 4 < 4
        omega
      · show b2.toNat * 256 + b3.toNat < 65536
        omega
      · rw [htok]
        exact hhead.2.1
      · rw [WireMessage.bytes, htok, ← hrest, List.take_append_drop]
        have e0 : 64 + b0.toNat / 16 % 4 * 16 + b0.toNat % 16 = b0.toNat := by omega
        have e2 : (b2.toNat * 256 + b3.toNat) / 256 = b2.toNat := by omega
        have e3 : (b2.toNat * 256 + b3.toNat) % 256 = b3.toNat := by omega
        simp only [e0, e2, e3, UInt8.ofNat_toNat]
    · cases h
  · -- and the bytes of a valid message have its fields in their places
    rintro ⟨hw, rfl⟩
    have ht := hw.type
    have hc := hw.code
    have hi := hw.messageId
    have hk := hw.token
    rw [WireMessage.bytes, readMessage, UInt8.toNat_ofNat', UInt8.toNat_ofNat',
      UInt8.toNat_ofNat', UInt8.toNat_ofNat',
      Nat.mod_eq_of_lt (show 64 + w.type * 16 + w.token.length < 2 ^ 8 by omega)]
    have hk' : (64 + w.type * 16 + w.token.length) % 16 = w.token.length := by omega
    rw [hk', if_pos ⟨by omega, hk, by simp⟩, List.drop_left, List.take_left,
      OptionStream.read_write (by decide) w.payload w.options hw.room hw.options]
    have e0 : (64 + w.type * 16 + w.token.length) / 16 % 4 = w.type := by omega
    have e1 : w.code % 2 ^ 8 = w.code := by omega
    have e2 : w.messageId / 256 % 2 ^ 8 * 256 + w.messageId % 256 % 2 ^ 8 = w.messageId := by omega
    simp only [Option.map_some, e0, e1, e2]

namespace Message

/-! ## `decode` against the reference parse -/

/-- The decoded message says what the reference parse says. -/
structure Carries (m : Message) (w : WireMessage) : Prop where
  type      : m.type.toBits.toNat = w.type
  code      : m.code.raw.toNat = w.code
  messageId : m.messageId.toNat = w.messageId
  token     : m.token = w.token
  options   : m.options.map entry = w.options
  payload   : m.payloadBytes = w.payload

/-- `decode()` accepts what the reference parse accepts, and nothing else, and
with the same fields. -/
def Strict (cfg : Config) (b : Bytes) : Prop :=
  ((decode cfg b).1 = .none ↔ (readMessage cfg.maxOptions b).isSome) ∧
    ∀ w, readMessage cfg.maxOptions b = some w → (decode cfg b).2.Carries w

/-- The header is well formed and the options misread in 16-bit arithmetic:
their exact scan comes to a number or a length above 65535, and the rest behind
it is acceptable. -/
def Overflows (maxOptions : Nat) : Bytes → Prop
  | b0 :: _ :: _ :: _ :: rest =>
    b0.toNat / 64 = 1 ∧ b0.toNat % 16 ≤ 8 ∧ b0.toNat % 16 ≤ rest.length ∧
      OptionStream.Misreads wrap16 65535 maxOptions 0 (rest.drop (b0.toNat % 16))
  | _ => False

theorem version_eq {b : UInt8} : b >>> 6 = kVersion ↔ b.toNat / 64 = 1 := by
  rw [← UInt8.toNat_inj]
  have : (b >>> 6).toNat = b.toNat / 64 := by simp [Nat.shiftRight_eq_div_pow]
  rw [this]
  rfl

theorem typeBits_toNat (b : UInt8) : ((b >>> 4) &&& 0x03).toNat = b.toNat / 16 % 4 := by
  have hmask := Nat.and_two_pow_sub_one_eq_mod (b >>> 4).toNat 2
  rw [UInt8.toNat_and, ← hiNibble_toNat]
  exact hmask

/-- A datagram with a bad header is refused by both. -/
theorem decode_badHeader (cfg : Config) {b0 : UInt8} (b1 b2 b3 : UInt8) {rest : Bytes}
    (h : ¬ (b0.toNat / 64 = 1 ∧ b0.toNat % 16 ≤ 8 ∧ b0.toNat % 16 ≤ rest.length)) :
    (decode cfg (b0 :: b1 :: b2 :: b3 :: rest)).1 ≠ .none := by
  rw [decode]
  by_cases hv : b0 >>> 6 = kVersion
  · rw [version_eq] at hv
    simp only [version_eq.2 hv, ne_eq, not_true_eq_false, if_false, loNibble_toNat, kMaxTokenLen]
    by_cases htkl : b0.toNat % 16 > 8
    · rw [if_pos htkl]
      simp
    · rw [if_neg htkl, if_pos (by omega)]
      simp
  · simp only [ne_eq, hv, not_false_eq_true, if_true]
    simp

/-- The fields `decode` stores, from the entries its reader has found. -/
theorem carries_decoded (b0 b1 b2 b3 : UInt8) (rest : Bytes) {es : List OptionStream.Entry}
    {p : Bytes} (hes : (es.map ofEntry).map entry = es) :
    Carries
      { type := MessageType.ofBits ((b0 >>> 4) &&& 0x03), code := ⟨b1⟩
        messageId := (b2.toUInt16 <<< 8) ||| b3.toUInt16
        token := rest.take (b0 &&& 0x0F).toNat
        options := es.map ofEntry
        payload := if p = [] then none else some p
        payloadLength := p.length }
      { type := b0.toNat / 16 % 4, code := b1.toNat, messageId := b2.toNat * 256 + b3.toNat
        token := rest.take (b0.toNat % 16), options := es, payload := p } := by
  refine ⟨?_, rfl, Word.join_toNat b2 b3, by rw [loNibble_toNat], hes, ?_⟩
  · show (MessageType.ofBits ((b0 >>> 4) &&& 0x03)).toBits.toNat = b0.toNat / 16 % 4
    rw [MessageType.toBits_ofBits (by rw [typeBits_toNat]; omega), typeBits_toNat]
  · show ((if p = [] then none else some p).getD []).take p.length = p
    split
    · simp [*]
    · simp

/-- Entries within 16 bits are stored without loss. -/
theorem entry_ofEntry_of_lt {e : OptionStream.Entry} (hn : e.1 < 65536) (hl : e.2.length < 65536) :
    entry (ofEntry e) = e := by
  obtain ⟨n, v⟩ := e
  have hn' : (UInt16.ofNat n).toNat = n := by rw [UInt16.toNat_ofNat']; exact Nat.mod_eq_of_lt hn
  have hl' : (UInt16.ofNat v.length).toNat = v.length := by
    rw [UInt16.toNat_ofNat']
    exact Nat.mod_eq_of_lt hl
  refine Prod.ext hn' ?_
  show ((if v = [] then none else some v).getD []).take (UInt16.ofNat v.length).toNat = v
  rw [hl']
  split
  · simp [*]
  · simp

/-- What the 16-bit reader returns is stored without loss. -/
theorem entries_stored {budget last : Nat} {bs p : Bytes} {es : List OptionStream.Entry}
    (h : OptionStream.readWith wrap16 65535 budget last bs = some (es, p)) :
    (es.map ofEntry).map entry = es := by
  rw [List.map_map]
  refine (List.map_congr_left fun e he => ?_).trans (List.map_id _)
  obtain ⟨hn, len, hl⟩ := OptionStream.readWith_mem h e he
  refine entry_ofEntry_of_lt (by omega) ?_
  rw [hl, wrap16]
  omega

/-- With a good header, strictness is agreement of the two stream readers. -/
theorem strict_iff_agree {cfg : Config} {b0 b1 b2 b3 : UInt8} {rest : Bytes}
    (h : b0.toNat / 64 = 1 ∧ b0.toNat % 16 ≤ 8 ∧ b0.toNat % 16 ≤ rest.length) :
    Strict cfg (b0 :: b1 :: b2 :: b3 :: rest) ↔
      OptionStream.readWith wrap16 65535 cfg.maxOptions 0 (rest.drop (b0.toNat % 16)) =
        OptionStream.read 65535 cfg.maxOptions 0 (rest.drop (b0.toNat % 16)) := by
  obtain ⟨e, he, hdec⟩ := decode_eq cfg b0 b1 b2 b3 rest (version_eq.2 h.1)
    (by rw [loNibble_toNat]; exact h.2.1) (by rw [loNibble_toNat]; exact h.2.2)
  rw [Strict, readMessage, if_pos h, hdec, loNibble_toNat]
  -- the two readers accept or reject; with one of each the verdicts differ already
  cases hw : OptionStream.readWith wrap16 65535 cfg.maxOptions 0
      (rest.drop (b0.toNat % 16)) with
  | none =>
    cases hr : OptionStream.read 65535 cfg.maxOptions 0 (rest.drop (b0.toNat % 16)) with
    | none => simp [he]
    | some r => simp [he]
  | some r =>
    obtain ⟨es, p⟩ := r
    have hstored := entries_stored hw
    -- both readers accept: then the fields decide
    have hcarries := carries_decoded b0 b1 b2 b3 rest (p := p) hstored
    rw [loNibble_toNat] at hcarries
    cases hr : OptionStream.read 65535 cfg.maxOptions 0 (rest.drop (b0.toNat % 16)) with
    | none => simp
    | some r' =>
      obtain ⟨es', p'⟩ := r'
      constructor
      · -- both accept, so the fields tell the readers' results
        rintro ⟨-, hfields⟩
        have hc := hfields _ rfl
        have hes : es = es' := hstored.symm.trans hc.options
        have hp : p = p' := hcarries.payload.symm.trans hc.payload
        rw [hes, hp]
      · intro heq
        cases heq
        refine ⟨by simp, ?_⟩
        rintro w hw
        cases hw
        exact hcarries

/-- **Where `decode` is strict.** It accepts just the datagrams that the format allows, with the
options they have, unless a sum of its scan passes 65535 in a datagram that is accepted all the
same. -/
theorem strict_iff (cfg : Config) (b : Bytes) :
    Strict cfg b ↔ ¬ Overflows cfg.maxOptions b := by
  rcases b with _ | ⟨b0, _ | ⟨b1, _ | ⟨b2, _ | ⟨b3, rest⟩⟩⟩⟩
  · simp [Strict, Overflows, decode, readMessage]
  · simp [Strict, Overflows, decode, readMessage]
  · simp [Strict, Overflows, decode, readMessage]
  · simp [Strict, Overflows, decode, readMessage]
  by_cases h : b0.toNat / 64 = 1 ∧ b0.toNat % 16 ≤ 8 ∧ b0.toNat % 16 ≤ rest.length
  · have hwrap : ∀ n, wrap16 n ≤ 65535 := fun n => by unfold wrap16; omega
    rw [strict_iff_agree h, OptionStream.readWith_agree_iff hwrap, Overflows]
    simp only [h, true_and]
  · have hrej := decode_badHeader cfg b1 b2 b3 h
    rw [Strict, readMessage, if_neg h, Overflows]
    simp only [hrej, Option.isSome_none, Bool.false_eq_true, true_and]
    constructor
    · exact fun _ hov => h ⟨hov.1, hov.2.1, hov.2.2.1⟩
    · intro _ w hw
      cases hw

/-- A delta of 65804 comes out as option 268. -/
theorem not_strict_delta :
    ¬ ∀ b, Strict .default b := by
  intro h
  have hread : readMessage Config.default.maxOptions [0x40, 0x01, 0x00, 0x01, 0xE0, 0xFF, 0xFF] =
      none := by decide
  have := (h [0x40, 0x01, 0x00, 0x01, 0xE0, 0xFF, 0xFF]).1.1 (by decide)
  rw [hread] at this
  cases this

end Message

end PulseCoap
