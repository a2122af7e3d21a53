import PulseCoap.Codec.Message
import PulseCoap.Lib.BoundedWriter
import PulseCoap.Lib.WordStream

/-!
# PulseCoAP — the codec over option streams

`encode()` and `decode()` are two independently written loops. Both are related
here to the delta-coded option stream between them, one by what it writes and
the other by what it reads.

The stream is `Lib.OptionStream`: what is proved of it there, that reading is
the inverse of writing and where a reader in reduced arithmetic goes wrong, is
used of the two functions through these relations, and neither of them is
unfolded again. The induction of the first is on the options, that of the second
on the budget of options, which is how many times the loop can go round.

* `encode_spec` — on a message whose options ascend and have their bytes,
  `encode()` writes the header, the token and the written stream when they fit,
  and otherwise gives up inside the buffer.
* `decode_eq` — `decode()` is the header followed by the stream reader in
  16-bit arithmetic, `readWith wrap16`.
-/

namespace PulseCoap

open BoundedWriter ExtField

namespace Message

/-- The entry an option writes. -/
def entry (o : CoapOption) : OptionStream.Entry := (o.number.toNat, o.bytes)

/-- The option a decoded entry is stored as. -/
def ofEntry (e : OptionStream.Entry) : CoapOption :=
  ⟨UInt16.ofNat e.1, UInt16.ofNat e.2.length, if e.2 = [] then none else some e.2⟩

/-- What the option loop makes of the entries and the payload of a stream. -/
def withStream (m : Message) (es : List OptionStream.Entry) (p : Bytes) : Message :=
  { m with
    options := m.options ++ es.map ofEntry
    payload := if p = [] then m.payload else some p
    payloadLength := if p = [] then m.payloadLength else p.length }

/-- The reduction of the decoder's `uint16_t` arithmetic. -/
def wrap16 (n : Nat) : Nat := n % 65536

/-! ## Option fields -/

/-- The nibble of a field, and its extended bytes. -/
theorem encodeOptionField_eq (v : UInt16) :
    encodeOptionField v = (UInt8.ofNat (nibble v.toNat), extBytes v.toNat) := by
  have hv := v.toNat_lt
  have h13 : v < 13 ↔ v.toNat < 13 := UInt16.lt_iff_toNat_lt
  have h269 : v < 269 ↔ v.toNat < 269 := UInt16.lt_iff_toNat_lt
  unfold encodeOptionField nibble extBytes
  by_cases hs : v.toNat < 13
  · simp only [h13, hs, if_true, Word.toUInt8_eq]
  · by_cases hm : v.toNat < 269
    · simp only [h13, h269, hs, hm, if_false, if_true, Word.toUInt8_eq]
      rw [UInt16.toNat_sub_of_le _ _ (UInt16.le_iff_toNat_le.2 (by simp; omega))]
      rfl
    · simp only [h13, h269, hs, hm, if_false, Word.hi_eq, Word.lo_eq]
      rw [UInt16.toNat_sub_of_le _ _ (UInt16.le_iff_toNat_le.2 (by simp; omega))]
      rfl

/-- Below 15 a nibble is read with the bytes it stands for. -/
theorem decodeOptionField_eq {nib : UInt8} (h : nib.toNat < 15) (rest : Bytes) :
    decodeOptionField nib rest = (readExt nib.toNat rest).map fun r => (UInt16.ofNat r.1, r.2) := by
  have h13 : nib < 13 ↔ nib.toNat < 13 := UInt8.lt_iff_toNat_lt
  have he : nib = 13 ↔ nib.toNat = 13 := by rw [← UInt8.toNat_inj]; rfl
  -- both sides make the same three cases of the nibble; only the arithmetic differs
  unfold decodeOptionField readExt
  simp only [h13, he]
  by_cases hs : nib.toNat < 13
  · rw [if_pos hs, if_pos hs]
    simp
  · rw [if_neg hs, if_neg hs]
    by_cases h13' : nib.toNat = 13
    · rw [if_pos h13', if_pos h13']
      cases rest with
      | nil => rfl
      | cons b rest =>
        -- the sum of `uint16_t` values is the reduced sum
        have : (13 : UInt16) + b.toUInt16 = UInt16.ofNat (13 + b.toNat) := by
          rw [← UInt16.toNat_inj]
          simp
        simp only [this, Option.map_some]
    · rw [if_neg h13', if_neg h13', if_pos (by omega)]
      rcases rest with _ | ⟨hi, _ | ⟨lo, rest⟩⟩
      · rfl
      · rfl
      · have : (269 : UInt16) + ((hi.toUInt16 <<< 8) ||| lo.toUInt16) =
            UInt16.ofNat (269 + (hi.toNat * 256 + lo.toNat)) := by
          rw [← UInt16.toNat_inj, UInt16.toNat_add, Word.join_toNat, UInt16.toNat_ofNat']
          rfl
        simp only [this, Option.map_some]


/-! ## What `encode` writes -/

/-- A buffer of at least the stated length stands behind a non-empty value. -/
def Readable (value : Option Bytes) (length : Nat) : Prop :=
  length ≠ 0 → ∃ v, value = some v ∧ length ≤ v.length

theorem bytes_length {o : CoapOption} (h : Readable o.value o.length.toNat) :
    o.bytes.length = o.length.toNat := by
  by_cases h0 : o.length.toNat = 0
  · simp [CoapOption.bytes, h0]
  · obtain ⟨v, hv, hlen⟩ := h h0
    simp [CoapOption.bytes, hv, hlen]

/-- One byte, if there is room. -/
theorem put_writes (cap : Nat) (b : UInt8) : Writes cap (put cap b) [b] where
  fits out h := by
    simp only [List.length_singleton] at h
    rw [put, if_neg (by omega)]
  full out h₁ h₂ := by
    simp only [List.length_singleton] at h₂
    exact ⟨out, by rw [put, if_pos (by omega)], h₁⟩

/-- Some bytes, if there is room for all of them. -/
theorem putBytes_writes (cap : Nat) (data : Bytes) : Writes cap (putBytes cap data) data where
  fits out h := by
    rw [putBytes]
    split
    · rename_i h0
      rw [List.eq_nil_of_length_eq_zero h0, List.append_nil]
    · rw [if_neg (by omega)]
  full out h₁ h₂ := ⟨out, by rw [putBytes, if_neg (by omega), if_pos (by omega)], h₁⟩

/-- The bytes of an option, which are there. -/
theorem putOptionValue_writes (cap : Nat) {o : CoapOption} (h : Readable o.value o.length.toNat) :
    Writes cap (putOptionValue cap o) o.bytes := by
  by_cases h0 : o.length.toNat = 0
  · have hlen : ¬ o.length > 0 := by rw [gt_iff_lt, UInt16.lt_iff_toNat_lt, h0]; simp
    have hw : putOptionValue cap o = fun out => .ok out := by
      funext out
      rw [putOptionValue, if_neg hlen]
    rw [hw, List.eq_nil_of_length_eq_zero ((bytes_length h).trans h0)]
    exact Writes.pure cap
  · have hlen : o.length > 0 := by rw [gt_iff_lt, UInt16.lt_iff_toNat_lt]; simp; omega
    obtain ⟨v, hv, -⟩ := h h0
    have hw : putOptionValue cap o = putBytes cap o.bytes := by
      funext out
      rw [putOptionValue, if_pos hlen, hv]
      simp [CoapOption.bytes, hv]
    rw [hw]
    exact putBytes_writes cap _

/-- The head byte of an option is its two nibbles. -/
theorem head_eq (d l : Nat) :
    (UInt8.ofNat (nibble d) <<< 4) ||| UInt8.ofNat (nibble l) =
      UInt8.ofNat (nibble d * 16 + nibble l) := by
  have hd := nibble_le d
  have hl := nibble_le l
  have hlt : nibble l < 2 ^ 4 := by omega
  have hor := Nat.shiftLeft_add_eq_or_of_lt hlt (nibble d)
  rw [Nat.shiftLeft_eq] at hor
  have hmod : nibble d % 256 * 2 ^ 4 % 256 = nibble d * 2 ^ 4 := by omega
  rw [← UInt8.toNat_inj, UInt8.toNat_or, UInt8.toNat_shiftLeft, UInt8.toNat_ofNat',
    UInt8.toNat_ofNat', UInt8.toNat_ofNat', Nat.shiftLeft_eq]
  show nibble d % 256 * 2 ^ 4 % 256 ||| nibble l % 256 = _
  rw [hmod, Nat.mod_eq_of_lt (show nibble l < 256 by omega), ← hor]
  omega

/-- The difference the option loop writes. -/
theorem number_sub_toNat (number last : UInt16) :
    (number - last).toNat = OptionStream.distance 65536 last.toNat number.toNat := by
  rw [UInt16.toNat_sub, OptionStream.distance, Nat.add_comm]

/-- The option loop writes the entries of a stream, in 16-bit arithmetic. -/
theorem encodeOptions_wraps (cap : Nat) : ∀ (os : List CoapOption) (last : UInt16),
    (∀ o ∈ os, Readable o.value o.length.toNat) →
    Writes cap (encodeOptions cap last os)
      (OptionStream.wrappedEntries 65536 last.toNat (os.map entry))
  | [], last, _ => Writes.pure cap
  | o :: os, last, hread => by
    have ho := hread o (List.mem_cons_self ..)
    have hw : encodeOptions cap last (o :: os) = fun out =>
        put cap (UInt8.ofNat (nibble (o.number - last).toNat) <<< 4 |||
            UInt8.ofNat (nibble o.length.toNat)) out >>= fun out =>
          putBytes cap (extBytes (o.number - last).toNat) out >>= fun out =>
            putBytes cap (extBytes o.length.toNat) out >>= fun out =>
              putOptionValue cap o out >>= encodeOptions cap o.number os := by
      funext out
      simp only [encodeOptions, encodeOptionField_eq]
    have hbytes : OptionStream.wrappedEntries 65536 last.toNat ((o :: os).map entry) =
        [UInt8.ofNat (nibble (o.number - last).toNat) <<< 4 |||
            UInt8.ofNat (nibble o.length.toNat)] ++
          (extBytes (o.number - last).toNat ++ (extBytes o.length.toNat ++ (o.bytes ++
            OptionStream.wrappedEntries 65536 o.number.toNat (os.map entry)))) := by
      rw [List.map_cons, OptionStream.wrappedEntries, OptionStream.wrappedEntry, head_eq,
        number_sub_toNat]
      simp [entry, bytes_length ho]
    rw [hw, hbytes]
    exact (put_writes cap _).bind ((putBytes_writes cap _).bind ((putBytes_writes cap _).bind
      ((putOptionValue_writes cap ho).bind (encodeOptions_wraps cap os o.number
        fun x hx => hread x (List.mem_cons_of_mem _ hx)))))

/-- The payload with its marker, or nothing. -/
theorem encodePayload_writes (cap : Nat) {m : Message}
    (h : ∀ b, m.payload = some b → m.payloadLength ≤ b.length) :
    Writes cap (encodePayload cap m) (OptionStream.writePayload m.payloadBytes) := by
  cases hp : m.payload with
  | none =>
    have hw : encodePayload cap m = fun out => .ok out := by
      funext out
      rw [encodePayload, hp]
    rw [hw]
    simpa [payloadBytes, hp, OptionStream.writePayload] using Writes.pure cap
  | some b =>
    have hlen : m.payloadBytes.length = m.payloadLength := by
      simpa [payloadBytes, hp] using h b hp
    have hbytes : b.take m.payloadLength = m.payloadBytes := by simp [payloadBytes, hp]
    -- a payload of no bytes takes no marker, as without a payload
    by_cases h0 : m.payloadLength = 0
    · have hw : encodePayload cap m = fun out => .ok out := by
        funext out
        simp [encodePayload, hp, h0]
      have hnil : m.payloadBytes = [] := List.eq_nil_of_length_eq_zero (hlen.trans h0)
      rw [hw, hnil]
      exact Writes.pure cap
    · have hne : m.payloadBytes ≠ [] := by
        rw [← List.length_pos_iff]
        omega
      have hw : encodePayload cap m = fun out => put cap 0xFF out >>= putBytes cap m.payloadBytes := by
        funext out
        rw [encodePayload, hp, ← hbytes]
        exact if_pos (by omega)
      rw [hw, OptionStream.writePayload, if_neg hne]
      exact (put_writes cap 0xFF).bind (putBytes_writes cap _)

/-- The bytes `encode` reads are there. -/
structure Backed (m : Message) : Prop where
  readable : ∀ o ∈ m.options, Readable o.value o.length.toNat
  payload  : ∀ b, m.payload = some b → m.payloadLength ≤ b.length

/-- What a message's mutators keep: the token fits its array, the options fit
theirs and ascend, and every length is backed by bytes. -/
structure WellFormed (cfg : Config) (m : Message) : Prop where
  token    : m.token.length ≤ kMaxTokenLen
  room     : m.options.length ≤ cfg.maxOptions
  readable : ∀ o ∈ m.options, Readable o.value o.length.toNat
  ascend   : OptionStream.Entries 65535 0 (m.options.map entry)
  payload  : ∀ b, m.payload = some b → m.payloadLength ≤ b.length

/-- The four header bytes. -/
def header (m : Message) : Bytes :=
  [m.byte0, m.code.raw, (m.messageId >>> 8).toUInt8, (m.messageId &&& 0xFF).toUInt8]

/-- The wire form of a message. -/
def wire (m : Message) : Bytes :=
  m.header ++ (m.token ++ OptionStream.write 0 (m.options.map entry) m.payloadBytes)

/-- The wire form in 16-bit arithmetic, which does not ask for an order of the options. -/
def wrappedWire (m : Message) : Bytes :=
  m.header ++ (m.token ++ OptionStream.writeWrapped 65536 0 (m.options.map entry) m.payloadBytes)

/-- The wire form of a well-formed message does not wrap. -/
theorem wrappedWire_eq {cfg : Config} {m : Message} (hm : m.WellFormed cfg) :
    m.wrappedWire = m.wire := by
  rw [wrappedWire, OptionStream.writeWrapped_eq (by decide) hm.ascend, wire]

/-- `encode` writes it or gives up inside the buffer. -/
theorem encode_wraps {m : Message} (hm : m.Backed) (cap : Nat) :
    (m.wrappedWire.length ≤ cap → m.encode cap = .ok m.wrappedWire) ∧
      (cap < m.wrappedWire.length → ∃ e, m.encode cap = .error e ∧ e.length ≤ cap) := by
  have hw := (put_writes cap m.byte0).bind ((put_writes cap m.code.raw).bind
    ((put_writes cap (m.messageId >>> 8).toUInt8).bind
    ((put_writes cap (m.messageId &&& 0xFF).toUInt8).bind ((putBytes_writes cap m.token).bind
    ((encodeOptions_wraps cap m.options 0 hm.readable).bind
      (encodePayload_writes cap hm.payload))))))
  have hwire : m.wrappedWire = [m.byte0] ++ ([m.code.raw] ++ ([(m.messageId >>> 8).toUInt8] ++
      ([(m.messageId &&& 0xFF).toUInt8] ++ (m.token ++ (OptionStream.wrappedEntries 65536
        (0 : UInt16).toNat (m.options.map entry) ++
          OptionStream.writePayload m.payloadBytes))))) := rfl
  have h4 : 4 ≤ m.wrappedWire.length := by rw [wrappedWire, header]; simp
  by_cases hcap : cap < 4
  · refine ⟨fun h => by omega, fun _ => ⟨[], by rw [encode, if_pos hcap], by simp⟩⟩
  · have henc : m.encode cap = _ := if_neg hcap
    rw [henc, hwire]
    exact ⟨fun h => hw.fits [] (by simpa using h),
      fun h => hw.full [] (by simp) (by simpa using h)⟩

/-- **`encode` writes the wire form or gives up inside the buffer.** The checks of the source
are made before each write, so an error leaves less than the capacity written. -/
theorem encode_spec {cfg : Config} {m : Message} (hm : m.WellFormed cfg) (cap : Nat) :
    (m.wire.length ≤ cap → m.encode cap = .ok m.wire) ∧
      (cap < m.wire.length → ∃ e, m.encode cap = .error e ∧ e.length ≤ cap) := by
  have hwraps := encode_wraps (m := m) ⟨hm.readable, hm.payload⟩ cap
  rwa [wrappedWire_eq hm] at hwraps

/-! ## What `decode` reads -/

theorem hiNibble_toNat (b : UInt8) : (b >>> 4).toNat = b.toNat / 16 := by
  simp [Nat.shiftRight_eq_div_pow]

theorem loNibble_toNat (b : UInt8) : (b &&& 0x0F).toNat = b.toNat % 16 := by
  have hmask := Nat.and_two_pow_sub_one_eq_mod b.toNat 4
  rw [UInt8.toNat_and]
  exact hmask


/-- A nibble of 15 is reserved, wherever it stands. -/
theorem nibbles_eq_15 {head : UInt8} :
    (head >>> 4 = 15 ∨ head &&& 0x0F = 15) ↔ head.toNat / 16 = 15 ∨ head.toNat % 16 = 15 := by
  rw [← UInt8.toNat_inj, ← UInt8.toNat_inj, hiNibble_toNat, loNibble_toNat]
  rfl

/-- A reserved nibble announces nothing. -/
theorem readHead_reserved {head : UInt8} (h : head >>> 4 = 15 ∨ head &&& 0x0F = 15) (bs : Bytes) :
    OptionStream.readHead head bs = none := by
  have hnone : ∀ bs, readExt 15 bs = none := fun _ => rfl
  rw [OptionStream.readHead]
  rcases nibbles_eq_15.1 h with hd | hl
  · rw [hd, hnone]
    rfl
  · rw [hl]
    cases readExt (head.toNat / 16) bs <;> simp [hnone]

/-- The two `decodeOptionField` steps of the option loop read the head of an
entry, reduced to 16 bits. -/
theorem decodeFields_eq {head : UInt8} (h : ¬ (head >>> 4 = 15 ∨ head &&& 0x0F = 15)) (bs : Bytes) :
    (match decodeOptionField (head >>> 4) bs with
      | none => none
      | some (delta, bs) =>
        match decodeOptionField (head &&& 0x0F) bs with
        | none => none
        | some (length, bs) => some (delta, length, bs)) =
      (OptionStream.readHead head bs).map fun r => (UInt16.ofNat r.1, UInt16.ofNat r.2.1, r.2.2) := by
  have hb := head.toNat_lt
  rw [nibbles_eq_15] at h
  rw [decodeOptionField_eq (by rw [hiNibble_toNat]; omega), hiNibble_toNat, OptionStream.readHead]
  cases readExt (head.toNat / 16) bs with
  | none => rfl
  | some r =>
    obtain ⟨d, bs⟩ := r
    show (match decodeOptionField _ bs with | none => _ | some (length, bs) => _) =
      Option.map _ (readExt _ bs >>= _)
    rw [decodeOptionField_eq (by rw [loNibble_toNat]; omega), loNibble_toNat]
    cases readExt (head.toNat % 16) bs <;> rfl

/-- The option the loop stores is the entry it has read. -/
theorem ofEntry_read (last : UInt16) (delta len : Nat) {rest : Bytes}
    (h : wrap16 len ≤ rest.length) :
    ofEntry (wrap16 (last.toNat + delta), rest.take (wrap16 len)) =
      ⟨last + UInt16.ofNat delta, UInt16.ofNat len,
        if UInt16.ofNat len > 0 then some (rest.take (wrap16 len)) else none⟩ := by
  have hlen : (rest.take (wrap16 len)).length = wrap16 len := by simp [h]
  have hnum : UInt16.ofNat (wrap16 (last.toNat + delta)) = last + UInt16.ofNat delta := by
    rw [← UInt16.toNat_inj, UInt16.toNat_ofNat', UInt16.toNat_add, UInt16.toNat_ofNat']
    unfold wrap16
    omega
  have hl : UInt16.ofNat (wrap16 len) = UInt16.ofNat len := by
    rw [← UInt16.toNat_inj, UInt16.toNat_ofNat', UInt16.toNat_ofNat']
    unfold wrap16
    omega
  have hpos : UInt16.ofNat len > 0 ↔ rest.take (wrap16 len) ≠ [] := by
    rw [gt_iff_lt, UInt16.lt_iff_toNat_lt, ← List.length_pos_iff, hlen]
    exact Iff.rfl
  rw [ofEntry, hlen, hnum, hl]
  by_cases hne : rest.take (wrap16 len) = []
  · rw [if_pos hne, if_neg (by rw [hpos]; exact not_not.2 hne)]
  · rw [if_neg hne, if_pos (hpos.2 hne)]

theorem ofNat_toNat16 (n : Nat) : (UInt16.ofNat n).toNat = wrap16 n := UInt16.toNat_ofNat' ..

/-- One pass of the option loop, with the head taken apart. -/
theorem decodeOptions_cons (cfg : Config) (fuel : Nat) (last : UInt16) (m : Message)
    {head : UInt8} (hmark : head ≠ 0xFF) (bs : Bytes) :
    ∃ e, e ≠ DecodeError.none ∧ decodeOptions cfg (fuel + 1) last m (head :: bs) =
      match OptionStream.readHead head bs with
      | none => (e, reset)
      | some (delta, len, rest) =>
        if rest.length < wrap16 len then (.tooShort, reset)
        else if m.options.length ≥ cfg.maxOptions then (.tooManyOptions, reset)
        else
          decodeOptions cfg fuel (last + UInt16.ofNat delta)
            { m with options := m.options ++
                [ofEntry (wrap16 (last.toNat + delta), rest.take (wrap16 len))] }
            (rest.drop (wrap16 len)) := by
  rw [decodeOptions, if_neg hmark]
  -- nibble 15 is an error of its own; any other field that is not read is too short
  by_cases hres : head >>> 4 = 15 ∨ head &&& 0x0F = 15
  · rw [readHead_reserved hres]
    exact ⟨.badOption, by decide, by simp only [hres, if_true]⟩
  · refine ⟨.tooShort, by decide, ?_⟩
    have hf := decodeFields_eq hres bs
    simp only [hres, if_false]
    cases hd : decodeOptionField (head >>> 4) bs with
    | none =>
      rw [hd] at hf
      have : OptionStream.readHead head bs = none := by simpa using hf.symm
      simp only [this]
    | some r =>
      obtain ⟨d16, bs₁⟩ := r
      simp only [hd] at hf ⊢
      cases hl : decodeOptionField (head &&& 0x0F) bs₁ with
      | none =>
        rw [hl] at hf
        have : OptionStream.readHead head bs = none := by simpa using hf.symm
        simp only [this]
      | some r =>
        obtain ⟨l16, rest⟩ := r
        simp only [hl] at hf ⊢
        obtain ⟨⟨delta, len, rest'⟩, hread, heq⟩ := Option.map_eq_some_iff.1 hf.symm
        cases heq
        simp only [hread, ofNat_toNat16]
        by_cases hshort : rest'.length < wrap16 len
        · rw [if_pos hshort, if_pos hshort]
        · rw [if_neg hshort, if_neg hshort, ofEntry_read last delta len (by omega)]

open OptionStream in
/-- **The option loop is the stream reader in 16-bit arithmetic.** One pass of the loop is one
head and one value of the stream, and the fuel, the number of bytes that are left, is enough
since each pass takes at least one. -/
theorem decodeOptions_eq (cfg : Config) : ∀ (fuel : Nat) (last : UInt16) (m : Message) (bs : Bytes),
    bs.length < fuel → m.options.length ≤ cfg.maxOptions →
    ∃ e, e ≠ DecodeError.none ∧ decodeOptions cfg fuel last m bs =
      match readWith wrap16 65535 (cfg.maxOptions - m.options.length) last.toNat bs with
      | some (es, p) => (.none, m.withStream es p)
      | none => (e, reset) := by
  -- on the fuel: a pass takes a head byte at least
  intro fuel
  induction fuel with
  | zero => intro _ _ bs h; simp at h
  | succ fuel ih =>
    intro last m bs hfuel hroom
    cases bs with
    | nil => exact ⟨.tooShort, by decide, by simp [decodeOptions, readWith_nil, withStream]⟩
    | cons head bs =>
      by_cases hmark : head = 0xFF
      · refine ⟨.emptyPayloadMarker, by decide, ?_⟩
        rw [hmark, readWith_marker, decodeOptions, if_pos rfl]
        by_cases hbs : bs = []
        · simp [hbs]
        · simp [hbs, withStream]
      -- the source checks the table after the length, the reader its budget before
      obtain ⟨e, he, hstep⟩ := decodeOptions_cons cfg fuel last m hmark bs
      rw [hstep]
      cases hread : readHead head bs with
      | none =>
        rw [readWith_head_none hmark hread]
        exact ⟨e, he, rfl⟩
      | some r =>
        obtain ⟨delta, len, rest⟩ := r
        show ∃ e, e ≠ DecodeError.none ∧ ite _ _ _ = _
        by_cases hfull : m.options.length ≥ cfg.maxOptions
        · have hb : cfg.maxOptions - m.options.length = 0 := by omega
          rw [hb, readWith_zero hmark]
          by_cases hshort : rest.length < wrap16 len
          · exact ⟨.tooShort, by decide, by rw [if_pos hshort]⟩
          · exact ⟨.tooManyOptions, by decide, by rw [if_neg hshort, if_pos hfull]⟩
        obtain ⟨k, hk⟩ : ∃ k, cfg.maxOptions - m.options.length = k + 1 :=
          ⟨cfg.maxOptions - m.options.length - 1, by omega⟩
        have htop : wrap16 (last.toNat + delta) ≤ 65535 := by unfold wrap16; omega
        rw [hk, readWith_head hmark hread]
        by_cases hshort : rest.length < wrap16 len
        · rw [if_pos hshort, if_neg (by omega)]
          exact ⟨.tooShort, by decide, rfl⟩
        rw [if_neg hshort, if_neg hfull, if_pos ⟨htop, by omega⟩]
        -- one entry is read alike; the rest is shorter
        have hrest : (rest.drop (wrap16 len)).length < fuel := by
          have := readHead_length hread
          simp at hfuel ⊢
          omega
        obtain ⟨e, he, hrec⟩ := ih (last + UInt16.ofNat delta)
          { m with options := m.options ++
              [ofEntry (wrap16 (last.toNat + delta), rest.take (wrap16 len))] }
          (rest.drop (wrap16 len)) hrest (by simp; omega)
        have hnum : (last + UInt16.ofNat delta).toNat = wrap16 (last.toNat + delta) := by
          rw [UInt16.toNat_add, UInt16.toNat_ofNat']
          unfold wrap16
          omega
        have hroom' : cfg.maxOptions - (m.options ++
            [ofEntry (wrap16 (last.toNat + delta), rest.take (wrap16 len))]).length = k := by
          simp
          omega
        refine ⟨e, he, ?_⟩
        rw [hrec, hnum, hroom']
        cases readWith wrap16 65535 k (wrap16 (last.toNat + delta)) (rest.drop (wrap16 len)) with
        | none => rfl
        | some r => simp [consTo, withStream]

/-! ## The header -/

/-- The first byte holds the version, the type and the token length apart. -/
theorem byte0_fields {m : Message} (h : m.token.length ≤ kMaxTokenLen) :
    m.byte0 >>> 6 = kVersion ∧ MessageType.ofBits ((m.byte0 >>> 4) &&& 0x03) = m.type ∧
      (m.byte0 &&& 0x0F).toNat = m.token.length := by
  have hall : ∀ k ≤ kMaxTokenLen, ∀ t : MessageType,
      let b := (kVersion <<< 6) ||| ((t.toBits &&& 0x03) <<< 4) ||| (UInt8.ofNat k &&& 0x0F)
      b >>> 6 = kVersion ∧ MessageType.ofBits ((b >>> 4) &&& 0x03) = t ∧
        (b &&& 0x0F).toNat = k := by
    intro k hk t
    cases t <;> revert k <;> decide
  exact hall _ h m.type

/-- **`decode` is the header and the 16-bit stream reader.** Behind the checks on version and
token length all that can go wrong is the stream, and then the message has been reset. -/
theorem decode_eq (cfg : Config) (b0 b1 b2 b3 : UInt8) (rest : Bytes) (hv : b0 >>> 6 = kVersion)
    (htkl : (b0 &&& 0x0F).toNat ≤ kMaxTokenLen) (hrest : (b0 &&& 0x0F).toNat ≤ rest.length) :
    ∃ e, e ≠ DecodeError.none ∧ decode cfg (b0 :: b1 :: b2 :: b3 :: rest) =
      match OptionStream.readWith wrap16 65535 cfg.maxOptions 0
          (rest.drop (b0 &&& 0x0F).toNat) with
      | some (es, p) => (.none,
          { type := MessageType.ofBits ((b0 >>> 4) &&& 0x03), code := ⟨b1⟩
            messageId := (b2.toUInt16 <<< 8) ||| b3.toUInt16
            token := rest.take (b0 &&& 0x0F).toNat
            options := es.map ofEntry
            payload := if p = [] then none else some p
            payloadLength := p.length })
      | none => (e, reset) := by
  -- the option loop starts on a message that has no options yet
  obtain ⟨e, he, hdec⟩ := decodeOptions_eq cfg (rest.length + 1) 0
    { reset with
      type := MessageType.ofBits ((b0 >>> 4) &&& 0x03), code := ⟨b1⟩
      messageId := (b2.toUInt16 <<< 8) ||| b3.toUInt16
      token := rest.take (b0 &&& 0x0F).toNat }
    (rest.drop (b0 &&& 0x0F).toNat) (by simp) (by simp [reset])
  refine ⟨e, he, ?_⟩
  have hv' : ¬ b0 >>> 6 ≠ kVersion := fun h => h hv
  rw [decode]
  simp only [hv', if_false, Nat.not_lt.2 htkl, Nat.not_lt.2 hrest]
  refine hdec.trans ?_
  simp only [reset, List.length_nil, Nat.sub_zero]
  show (match OptionStream.readWith wrap16 65535 cfg.maxOptions 0 _ with
    | some (es, p) => _ | none => _) = _
  cases OptionStream.readWith wrap16 65535 cfg.maxOptions 0
      (rest.drop (b0 &&& 0x0F).toNat) with
  | none => rfl
  | some r =>
    obtain ⟨es, p⟩ := r
    -- an empty payload has length 0 either way
    have hlen : (if p = [] then 0 else p.length) = p.length := by
      split
      · simp [*]
      · rfl
    simp only [withStream, List.nil_append, hlen]

/-- What `decode` has read when it succeeds. -/
theorem decode_inv {cfg : Config} {input : Bytes} {m : Message}
    (h : decode cfg input = (.none, m)) :
    ∃ b0 b1 b2 b3 rest es p, input = b0 :: b1 :: b2 :: b3 :: rest ∧ b0 >>> 6 = kVersion ∧
      (b0 &&& 0x0F).toNat ≤ kMaxTokenLen ∧ (b0 &&& 0x0F).toNat ≤ rest.length ∧
      OptionStream.readWith wrap16 65535 cfg.maxOptions 0 (rest.drop (b0 &&& 0x0F).toNat) =
        some (es, p) ∧
      m = { type := MessageType.ofBits ((b0 >>> 4) &&& 0x03), code := ⟨b1⟩
            messageId := (b2.toUInt16 <<< 8) ||| b3.toUInt16
            token := rest.take (b0 &&& 0x0F).toNat
            options := es.map ofEntry
            payload := if p = [] then none else some p
            payloadLength := p.length } := by
  match input, h with
  | b0 :: b1 :: b2 :: b3 :: rest, h =>
    -- each check of the header would have returned an error
    have hv : b0 >>> 6 = kVersion := by
      by_contra hv
      rw [decode, if_pos hv] at h
      cases h
    have htkl : (b0 &&& 0x0F).toNat ≤ kMaxTokenLen := by
      by_contra htkl
      rw [decode, if_neg (not_not.2 hv)] at h
      simp only [if_pos (Nat.lt_of_not_le htkl)] at h
      cases h
    have hrest : (b0 &&& 0x0F).toNat ≤ rest.length := by
      by_contra hrest
      rw [decode, if_neg (not_not.2 hv)] at h
      simp only [Nat.not_lt.2 htkl, if_false, if_pos (Nat.lt_of_not_le hrest)] at h
      cases h
    obtain ⟨e, he, hdec⟩ := decode_eq cfg b0 b1 b2 b3 rest hv htkl hrest
    rw [hdec] at h
    cases hread : OptionStream.readWith wrap16 65535 cfg.maxOptions 0
        (rest.drop (b0 &&& 0x0F).toNat) with
    | none =>
      rw [hread] at h
      exact absurd (congrArg Prod.fst h) he
    | some r =>
      obtain ⟨es, p⟩ := r
      rw [hread] at h
      exact ⟨b0, b1, b2, b3, rest, es, p, rfl, hv, htkl, hrest, hread,
        (congrArg Prod.snd h).symm⟩
  | [], h | [_], h | [_, _], h | [_, _, _], h => cases h

/-- A decoded token fits its array. -/
theorem decode_token {cfg : Config} {input : Bytes} {m : Message}
    (h : decode cfg input = (.none, m)) : m.token.length ≤ kMaxTokenLen := by
  obtain ⟨b0, b1, b2, b3, rest, es, p, -, -, htkl, -, -, rfl⟩ := decode_inv h
  show (rest.take (b0 &&& 0x0F).toNat).length ≤ _
  rw [List.length_take]
  omega

/-- What is decoded has at least a header. -/
theorem decode_length {cfg : Config} {input : Bytes} {m : Message}
    (h : decode cfg input = (.none, m)) : 0 < input.length := by
  obtain ⟨b0, b1, b2, b3, rest, es, p, rfl, -⟩ := decode_inv h
  exact Nat.succ_pos _

end Message

end PulseCoap
