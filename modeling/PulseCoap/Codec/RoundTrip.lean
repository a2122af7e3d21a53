import PulseCoap.Codec.Stream

/-!
# PulseCoAP — the codec round trip

A message is built by its mutators, written by `encode()` and read back by
`decode()`. The mutators keep `WellFormed`, so what they build has a wire form;
reading the wire form gives the message back.

`Built` is the invariant: beside `WellFormed` it says that `lastOptionNumber_` is
the number of the last option, which is what `addOption()` keeps the order by. One
lemma for each mutator and an induction on the list of calls give it for every
message that is built. The size of the message on the wire is computed from the
options alone (`wireSize`), so that the capacity a message needs is known without
writing it.

* `built_build` — every sequence of mutator calls builds a well-formed message.
* `decode_wire` — reading the wire form of a well-formed message.
* `encode_decode_build` — the round trip through a buffer of any capacity.
-/

namespace PulseCoap

open BoundedWriter ExtField

namespace Message

/-! ## Building a message -/

/-- A call of a mutator. A buffer argument comes with at least the length the
call states; a string is its characters before the terminator. -/
inductive MessageOp where
  | setType (t : MessageType)
  | setCode (c : Code)
  | setMessageId (id : UInt16)
  | setToken (token : Bytes)
  | addOption (number : UInt16) (value : Option Bytes) (length : UInt16)
      (readable : Readable value length.toNat)
  | addOptionString (number : UInt16) (value : Option Bytes)
  | addOptionUint (number : UInt16) (value : UInt32)
  | addOptionEmpty (number : UInt16)
  | setPayload (data : Option Bytes) (length : Nat)
      (readable : ∀ b, data = some b → length ≤ b.length)

/-- The call on a message, and what it returns. -/
def MessageOp.run (cfg : Config) (m : Message) : MessageOp → Message × Bool
  | .setType t => (m.setType t, true)
  | .setCode c => (m.setCode c, true)
  | .setMessageId id => (m.setMessageId id, true)
  | .setToken token => m.setToken token
  | .addOption number value length _ => m.addOption cfg number value length
  | .addOptionString number value => m.addOptionString cfg number value
  | .addOptionUint number value => m.addOptionUint cfg number value
  | .addOptionEmpty number => m.addOptionEmpty cfg number
  | .setPayload data length _ => (m.setPayload data length, true)

/-- The message a sequence of calls makes of a reset one. -/
def build (cfg : Config) (ops : List MessageOp) : Message :=
  ops.foldl (fun m op => (op.run cfg m).1) reset

/-- What every mutator keeps: a well-formed message that remembers the number
of its last option. -/
structure Built (cfg : Config) (m : Message) : Prop extends WellFormed cfg m where
  last : ∀ o ∈ m.options.getLast?, o.number = m.lastOptionNumber

theorem built_reset (cfg : Config) : Built cfg reset where
  token := Nat.zero_le _
  room := Nat.zero_le _
  readable := by simp [reset]
  ascend := trivial
  payload := by simp [reset]
  last := by simp [reset]

/-- The three ways an option is refused or taken. -/
theorem addOption_cases (cfg : Config) (m : Message) (number : UInt16) (value : Option Bytes)
    (length : UInt16) :
    m.addOption cfg number value length = (m, false) ∨
      (m.options.length < cfg.maxOptions ∧
        (m.options ≠ [] → m.lastOptionNumber ≤ number) ∧
        m.addOption cfg number value length =
          ({ m with
              options := m.options ++ [⟨number, length, if length > 0 then value else none⟩]
              lastOptionNumber := number }, true)) := by
  unfold addOption
  by_cases hfull : m.options.length ≥ cfg.maxOptions
  · exact .inl (if_pos hfull)
  · rw [if_neg hfull]
    by_cases hlow : m.options.length > 0 ∧ number < m.lastOptionNumber
    · exact .inl (if_pos hlow)
    · refine .inr ⟨by omega, fun hne => ?_, if_neg hlow⟩
      rw [not_and, UInt16.not_lt] at hlow
      exact hlow (List.length_pos_iff.2 hne)

/-- A length of 16 bits is one that the option format can say. -/
theorem entry_length {o : CoapOption} (h : Readable o.value o.length.toNat) :
    (entry o).2.length < 65805 := by
  have := o.length.toNat_lt
  show o.bytes.length < 65805
  rw [bytes_length h]
  omega

/-- An option whose bytes are there. -/
theorem Built.addOption {cfg : Config} {m : Message} (hm : Built cfg m) (number : UInt16)
    {value : Option Bytes} {length : UInt16} (hread : Readable value length.toNat) :
    Built cfg (m.addOption cfg number value length).1 := by
  rcases addOption_cases cfg m number value length with h | ⟨hroom, hlow, h⟩
  · rw [h]
    exact hm
  rw [h]
  -- an empty value is stored as a null pointer
  have hstored : Readable (if length > 0 then value else none) length.toNat := by
    intro h0
    rw [if_pos (by rw [gt_iff_lt, UInt16.lt_iff_toNat_lt]; simp; omega)]
    exact hread h0
  have hn := number.toNat_lt
  -- the check against `lastOptionNumber_` is one against the last option
  have hge : ∀ x ∈ (m.options.map entry).getLast?, x.1 ≤ number.toNat := by
    intro x hx
    rw [List.getLast?_map, Option.mem_map] at hx
    obtain ⟨o, ho, rfl⟩ := hx
    have hne : m.options ≠ [] := by
      rintro h0
      simp [h0] at ho
    show o.number.toNat ≤ number.toNat
    rw [hm.last o ho]
    exact UInt16.le_iff_toNat_le.1 (hlow hne)
  constructor
  · constructor
    · exact hm.token
    · simpa using hroom
    · intro o ho
      rcases List.mem_append.1 ho with ho | ho
      · exact hm.readable o ho
      · obtain rfl := List.mem_singleton.1 ho
        exact hstored
    · rw [List.map_append]
      exact hm.ascend.concat (by show number.toNat ≤ 65535; omega) (entry_length hstored)
        (Nat.zero_le _) hge
    · exact hm.payload
  · intro o ho
    obtain rfl : _ = o := by simpa using ho
    rfl

/-- A number has four bytes at most. -/
theorem uintBytes_length (v : UInt32) : (uintBytes v).length ≤ 4 := by
  rw [uintBytes, List.length_reverse]
  exact (Word.littleBytes_length_le_iff v.toNat_lt 4).2 v.toNat_lt

/-- They are there to be read. -/
theorem readable_uint (v : UInt32) :
    Readable (if UInt16.ofNat (uintBytes v).length > 0 then some (uintBytes v) else none)
      (UInt16.ofNat (uintBytes v).length).toNat := by
  have hlen := uintBytes_length v
  intro h0
  rw [if_pos (by rw [gt_iff_lt, UInt16.lt_iff_toNat_lt]; simp at h0 ⊢; omega)]
  exact ⟨_, rfl, by simp; omega⟩

/-- A mutator that takes an option hands it to `addOption` once its own check
has passed. -/
theorem addOptionUint_eq (cfg : Config) (m : Message) (number : UInt16) (v : UInt32) :
    m.addOptionUint cfg number v =
      m.addOption cfg number
        (if UInt16.ofNat (uintBytes v).length > 0 then some (uintBytes v) else none)
        (UInt16.ofNat (uintBytes v).length) := by
  unfold addOptionUint
  by_cases hfull : m.options.length ≥ cfg.maxOptions
  · rw [if_pos hfull, Message.addOption, if_pos hfull]
  · rw [if_neg hfull]

/-- So are those of a string. -/
theorem readable_string (value : Option Bytes) :
    Readable value (UInt16.ofNat (match value with | some s => s.length | none => 0)).toNat := by
  intro h0
  cases value with
  | none => simp at h0
  | some s => exact ⟨s, rfl, by simp; omega⟩

/-- Every mutator keeps what it found. -/
theorem Built.run {cfg : Config} {m : Message} (hm : Built cfg m) (op : MessageOp) :
    Built cfg (op.run cfg m).1 := by
  cases op with
  | setType t => exact { hm with }
  | setCode c => exact { hm with }
  | setMessageId id => exact { hm with }
  | setToken token =>
    show Built cfg (m.setToken token).1
    unfold setToken
    split
    · exact hm
    · exact { hm with token := by show token.length ≤ _; omega }
  | addOption number value length readable => exact hm.addOption number readable
  | addOptionString number value => exact hm.addOption number (readable_string value)
  | addOptionUint number v =>
    show Built cfg (m.addOptionUint cfg number v).1
    rw [addOptionUint_eq]
    exact hm.addOption number (readable_uint v)
  | addOptionEmpty number => exact hm.addOption number fun h => absurd rfl h
  | setPayload data length readable => exact { hm with payload := readable }

/-- Every sequence of calls builds a message that can be encoded. -/
theorem built_build (cfg : Config) (ops : List MessageOp) : Built cfg (build cfg ops) := by
  suffices h : ∀ m, Built cfg m → Built cfg (ops.foldl (fun m op => (op.run cfg m).1) m) from
    h reset (built_reset cfg)
  induction ops with
  | nil => exact fun m hm => hm
  | cons op ops ih => exact fun m hm => ih _ (hm.run op)

/-- A call that returns false changes nothing. -/
theorem run_false {cfg : Config} {m : Message} {op : MessageOp} (h : (op.run cfg m).2 = false) :
    (op.run cfg m).1 = m := by
  have hopt : ∀ n v l, (m.addOption cfg n v l).2 = false → (m.addOption cfg n v l).1 = m := by
    intro n v l hf
    rcases addOption_cases cfg m n v l with h | ⟨-, -, h⟩
    · rw [h]
    · rw [h] at hf
      cases hf
  cases op with
  | setToken token =>
    simp only [MessageOp.run, setToken] at h ⊢
    split at h <;> simp_all
  | addOption n v l _ => exact hopt n v l h
  | addOptionString n v => exact hopt n v _ h
  | addOptionUint n v =>
    simp only [MessageOp.run, addOptionUint_eq] at h ⊢
    exact hopt n _ _ h
  | addOptionEmpty n => exact hopt n none 0 h
  | setType t => cases h
  | setCode c => cases h
  | setMessageId id => cases h
  | setPayload d l r => cases h

/-- A call leaves the options that are there in place. -/
theorem run_keeps_options (cfg : Config) (m : Message) (op : MessageOp) :
    m.options <+: (op.run cfg m).1.options := by
  have hopt : ∀ n v l, m.options <+: (m.addOption cfg n v l).1.options := by
    intro n v l
    rcases addOption_cases cfg m n v l with h | ⟨-, -, h⟩
    · rw [h]
    · rw [h]
      exact List.prefix_append _ _
  cases op with
  | setToken token =>
    simp only [MessageOp.run, setToken]
    split <;> exact List.prefix_refl _
  | addOption n v l _ => exact hopt n v l
  | addOptionString n v => exact hopt n v _
  | addOptionUint n v =>
    simp only [MessageOp.run, addOptionUint_eq]
    exact hopt n _ _
  | addOptionEmpty n => exact hopt n none 0
  | setType t => exact List.prefix_refl _
  | setCode c => exact List.prefix_refl _
  | setMessageId id => exact List.prefix_refl _
  | setPayload d l r => exact List.prefix_refl _

/-! ## The wire size -/

/-- Extension bytes of a delta or a length (RFC 7252 §3.1). -/
def extSize (n : Nat) : Nat := if n < 13 then 0 else if n < 269 then 1 else 2

/-- The options' share: a head byte, two extensions and the value for each. -/
def optionsSize : (last : Nat) → List CoapOption → Nat
  | _, [] => 0
  | last, o :: os =>
    1 + extSize (o.number.toNat - last) + extSize o.length.toNat + o.length.toNat +
      optionsSize o.number.toNat os

/-- The size of a message on the wire, payload marker included. -/
def wireSize (m : Message) : Nat :=
  4 + m.token.length + optionsSize 0 m.options +
    (if m.payloadBytes = [] then 0 else 1 + m.payloadBytes.length)

/-- As many extended bytes as were counted. -/
theorem extBytes_length (n : Nat) : (extBytes n).length = extSize n := by
  unfold extBytes extSize
  split
  · rfl
  · split <;> rfl

/-- As many bytes as `optionsSize` says, by induction over the options. -/
theorem writeEntries_length : ∀ {os : List CoapOption} (last : Nat),
    (∀ o ∈ os, Readable o.value o.length.toNat) →
    (OptionStream.writeEntries last (os.map entry)).length = optionsSize last os
  | [], _, _ => rfl
  | o :: os, last, h => by
    have ho := bytes_length (h o (List.mem_cons_self ..))
    have ih := writeEntries_length o.number.toNat fun x hx => h x (List.mem_cons_of_mem _ hx)
    rw [List.map_cons, OptionStream.writeEntries, OptionStream.writeEntry, optionsSize, ← ih]
    simp only [List.length_append, List.length_cons, extBytes_length, entry, ho]
    omega

/-- So the wire form is as long as `wireSize` says. -/
theorem wire_length {cfg : Config} {m : Message} (hm : m.WellFormed cfg) :
    m.wire.length = m.wireSize := by
  have hpay : (OptionStream.writePayload m.payloadBytes).length =
      if m.payloadBytes = [] then 0 else 1 + m.payloadBytes.length := by
    unfold OptionStream.writePayload
    split
    · rfl
    · rw [List.length_cons, Nat.add_comm]
  rw [wire, header, wireSize, ← writeEntries_length 0 hm.readable, ← hpay, OptionStream.write]
  simp only [List.length_append, List.length_cons, List.length_nil]
  omega

/-! ## Reading the wire form -/

/-- A stored option is the entry it came from. -/
theorem entry_ofEntry {o : CoapOption} (h : Readable o.value o.length.toNat) :
    (ofEntry (entry o)).number = o.number ∧ (ofEntry (entry o)).length = o.length ∧
      (ofEntry (entry o)).bytes = o.bytes := by
  have hlen := bytes_length h
  have hl : (UInt16.ofNat o.bytes.length) = o.length := by
    rw [hlen]
    exact UInt16.ofNat_toNat
  refine ⟨UInt16.ofNat_toNat, hl, ?_⟩
  show ((if o.bytes = [] then none else some o.bytes).getD []).take
    (UInt16.ofNat o.bytes.length).toNat = o.bytes
  rw [hl, ← hlen]
  split
  · simp [*]
  · simp

/-- What reading a message's wire form gives. -/
def readBack (m : Message) : Message where
  type          := m.type
  code          := m.code
  messageId     := m.messageId
  token         := m.token
  options       := m.options.map fun o => ofEntry (entry o)
  payload       := if m.payloadBytes = [] then none else some m.payloadBytes
  payloadLength := m.payloadBytes.length

/-- The options need be in no order for it. -/
theorem decode_wraps {cfg : Config} {m : Message} (hm : m.Backed)
    (htoken : m.token.length ≤ kMaxTokenLen) (hroom : m.options.length ≤ cfg.maxOptions) :
    decode cfg m.wrappedWire = (.none, m.readBack) := by
  obtain ⟨hv, ht, htkl⟩ := byte0_fields htoken
  have hle : (m.byte0 &&& 0x0F).toNat ≤ kMaxTokenLen := htkl ▸ htoken
  have hread := @OptionStream.readWith_writeWrapped 65536 (by decide) m.payloadBytes
    (m.options.map entry) cfg.maxOptions 0 (by simpa using hroom) (by decide) fun e he => by
      obtain ⟨o, ho, rfl⟩ := List.mem_map.1 he
      have hlen := o.length.toNat_lt
      have hbytes := bytes_length (hm.readable o ho)
      exact ⟨o.number.toNat_lt, by show o.bytes.length < 65536; omega⟩
  obtain ⟨e, -, hdec⟩ := decode_eq cfg m.byte0 m.code.raw (m.messageId >>> 8).toUInt8
    (m.messageId &&& 0xFF).toUInt8
    (m.token ++ OptionStream.writeWrapped 65536 0 (m.options.map entry) m.payloadBytes) hv hle
    (by rw [htkl]; simp)
  have hreduced : OptionStream.readWith wrap16 65535 cfg.maxOptions 0
      (OptionStream.writeWrapped 65536 0 (m.options.map entry) m.payloadBytes) =
        some (m.options.map entry, m.payloadBytes) := hread
  rw [htkl, List.drop_left, List.take_left, hreduced] at hdec
  refine (show decode cfg m.wrappedWire = _ from hdec).trans ?_
  simp only [ht, Word.join_split, List.map_map]
  rfl

/-- **Reading the wire form of a message gives the message.** Its options are in order and its
values are short, so no sum of the scan wraps and the 16-bit reader is the exact one. -/
theorem decode_wire {cfg : Config} {m : Message} (hm : m.WellFormed cfg) :
    decode cfg m.wire = (.none,
      { type := m.type, code := m.code, messageId := m.messageId, token := m.token
        options := m.options.map fun o => ofEntry (entry o)
        payload := if m.payloadBytes = [] then none else some m.payloadBytes
        payloadLength := m.payloadBytes.length }) := by
  rw [← wrappedWire_eq hm]
  exact decode_wraps ⟨hm.readable, hm.payload⟩ hm.token hm.room

theorem decodes_wire {cfg : Config} {m : Message} (hm : m.WellFormed cfg) :
    decode cfg m.wire = (.none, (decode cfg m.wire).2) := by
  rw [decode_wire hm]

/-- `d` carries what `m` says. -/
structure SameContent (d m : Message) : Prop where
  type      : d.type = m.type
  code      : d.code = m.code
  messageId : d.messageId = m.messageId
  token     : d.token = m.token
  options   : d.options.map (fun o => (o.number, o.bytes)) =
    m.options.map fun o => (o.number, o.bytes)
  payload   : d.payloadBytes = m.payloadBytes

/-- What decodes has the content that was encoded. -/
theorem sameContent_decode {cfg : Config} {m : Message} (hm : m.WellFormed cfg) :
    SameContent (decode cfg m.wire).2 m := by
  rw [decode_wire hm]
  refine ⟨rfl, rfl, rfl, rfl, ?_, ?_⟩
  · rw [List.map_map]
    refine List.map_congr_left fun o ho => ?_
    obtain ⟨hn, -, hb⟩ := entry_ofEntry (hm.readable o ho)
    exact Prod.ext hn hb
  · show ((if m.payloadBytes = [] then none else some m.payloadBytes).getD []).take
      m.payloadBytes.length = _
    split
    · simp [*]
    · simp

/-! ## Integer options -/

/-- An option that holds the integer `v`: in as many bytes as it needs, none
of them a leading zero. -/
structure UintOption (o : CoapOption) (number : UInt16) (v : UInt32) : Prop where
  number  : o.number = number
  minimal : ∀ k, o.length.toNat ≤ k ↔ v.toNat < 256 ^ k
  bytes   : o.bytes.length = o.length.toNat
  noZero  : o.bytes.head? ≠ some 0
  value   : optionAsUint o = v

/-- What is stored for an integer comes back as that integer. -/
theorem uintOption_entry (number : UInt16) (v : UInt32) :
    UintOption (ofEntry (number.toNat, uintBytes v)) number v := by
  let o : CoapOption := ofEntry (number.toNat, uintBytes v)
  have hlen := uintBytes_length v
  have hl : o.length.toNat = (uintBytes v).length := by
    show (UInt16.ofNat (uintBytes v).length).toNat = _
    rw [UInt16.toNat_ofNat']
    omega
  have hget : o.value.getD [] = uintBytes v := by
    show (if uintBytes v = [] then none else some (uintBytes v)).getD [] = _
    split
    · simp [*]
    · rfl
  have hb : o.bytes = uintBytes v := by
    rw [CoapOption.bytes, hget, hl, List.take_length]
  show UintOption o number v
  refine ⟨UInt16.ofNat_toNat, fun k => ?_, by rw [hb, hl], ?_, ?_⟩
  · rw [hl, uintBytes, List.length_reverse]
    exact Word.littleBytes_length_le_iff v.toNat_lt k
  · rw [hb, uintBytes, List.head?_reverse]
    exact Word.littleBytes_getLast? v.toNat_lt
  · rw [optionAsUint, hget, hl, Nat.min_eq_left hlen, List.take_length]
    exact Word.shiftIn_littleBytes (Nat.le_refl 4) v.toNat_lt

/-- The option an accepted `addOptionUint` appends. -/
theorem addOptionUint_accepted {cfg : Config} {m : Message} {number : UInt16} {v : UInt32}
    (h : (m.addOptionUint cfg number v).2 = true) :
    ∃ o, (m.addOptionUint cfg number v).1.options = m.options ++ [o] ∧
      entry o = (number.toNat, uintBytes v) := by
  rw [addOptionUint_eq] at h ⊢
  have hlen := uintBytes_length v
  have hl : (UInt16.ofNat (uintBytes v).length).toNat = (uintBytes v).length := by
    rw [UInt16.toNat_ofNat']
    omega
  rcases addOption_cases cfg m number (if UInt16.ofNat (uintBytes v).length > 0 then
      some (uintBytes v) else none) (UInt16.ofNat (uintBytes v).length) with hr | ⟨-, -, hr⟩
  · rw [hr] at h
    cases h
  · rw [hr]
    refine ⟨_, rfl, ?_⟩
    have hget : (if UInt16.ofNat (uintBytes v).length > 0 then
        if UInt16.ofNat (uintBytes v).length > 0 then some (uintBytes v) else none
        else none).getD [] = uintBytes v := by
      by_cases h0 : UInt16.ofNat (uintBytes v).length > 0
      · simp [h0]
      · rw [gt_iff_lt, UInt16.lt_iff_toNat_lt, hl] at h0
        have hnil : uintBytes v = [] := List.eq_nil_of_length_eq_zero (by simpa using h0)
        simp [hnil]
    rw [entry, CoapOption.bytes, hget, hl, List.take_length]

/-- An option in ascending order is refused only by a full table. -/
theorem addOptionUint_refused {cfg : Config} {m : Message} (hm : Built cfg m) {number : UInt16}
    {v : UInt32} (hnum : ∀ o ∈ m.options, o.number ≤ number)
    (hr : (m.addOptionUint cfg number v).2 = false) : cfg.maxOptions ≤ m.options.length := by
  by_contra hroom
  have hlow : ¬ (m.options.length > 0 ∧ number < m.lastOptionNumber) := by
    rintro ⟨hpos, hlt⟩
    have hne : m.options ≠ [] := List.length_pos_iff.1 hpos
    have hlast := hm.last _ (List.getLast?_eq_getLast_of_ne_nil hne)
    have hle := hnum _ (List.getLast_mem hne)
    rw [hlast] at hle
    exact absurd hlt (UInt16.not_lt.2 hle)
  rw [addOptionUint_eq, addOption, if_neg (by omega), if_neg hlow] at hr
  cases hr

/-- What is cut off stays cut off when more is appended. -/
theorem take_append_take {α : Type} (l l' : List α) (n : Nat) :
    (l.take n ++ l').take n = (l ++ l').take n := by
  have hlen : n - min n l.length = n - l.length := by omega
  rw [List.take_append, List.take_append, List.take_take, Nat.min_self, List.length_take, hlen]

/-- The entries with an option in ascending order, as far as there is room. -/
theorem addOptionUint_entries {cfg : Config} {m : Message} (hm : Built cfg m) {number : UInt16}
    {v : UInt32} (hnum : ∀ o ∈ m.options, o.number ≤ number) :
    (m.addOptionUint cfg number v).1.options.map entry =
      (m.options.map entry ++ [(number.toNat, uintBytes v)]).take cfg.maxOptions := by
  cases hr : (m.addOptionUint cfg number v).2 with
  | true =>
    obtain ⟨o, ho, hentry⟩ := addOptionUint_accepted hr
    have hb : Built cfg (m.addOptionUint cfg number v).1 := hm.run (.addOptionUint number v)
    have hroom := hb.room
    rw [ho, List.length_append, List.length_singleton] at hroom
    rw [ho, List.map_append, List.map_singleton, hentry, List.take_of_length_le]
    simpa using hroom
  | false =>
    have hsame : (m.addOptionUint cfg number v).1 = m :=
      @run_false cfg m (.addOptionUint number v) hr
    have hfull := addOptionUint_refused hm hnum hr
    have hroom := hm.room
    rw [hsame, List.take_append_of_le_length, List.take_of_length_le]
    all_goals rwa [List.length_map]

/-- Only the options and the number of the last one are written. -/
theorem addOptionUint_spec (cfg : Config) (m : Message) (number : UInt16) (v : UInt32) :
    ∃ opts last, (m.addOptionUint cfg number v).1 =
      { m with options := opts, lastOptionNumber := last } := by
  rw [addOptionUint_eq]
  rcases addOption_cases cfg m number _ _ with h | ⟨-, -, h⟩ <;> rw [h]
  · exact ⟨m.options, m.lastOptionNumber, rfl⟩
  · exact ⟨_, _, rfl⟩

/-- An accepted call's option stands where it was added, whatever follows. -/
theorem build_uint_at {cfg : Config} {pre : List MessageOp} (post : List MessageOp)
    {number : UInt16} {v : UInt32}
    (h : ((MessageOp.addOptionUint number v).run cfg (build cfg pre)).2 = true) :
    ∃ o, (build cfg (pre ++ .addOptionUint number v :: post)).options[
        (build cfg pre).options.length]? = some o ∧ entry o = (number.toNat, uintBytes v) := by
  obtain ⟨o, ho, hentry⟩ := addOptionUint_accepted h
  have hpre : ∀ (ops : List MessageOp) (m : Message),
      m.options <+: (ops.foldl (fun m op => (op.run cfg m).1) m).options := by
    intro ops
    induction ops with
    | nil => exact fun m => List.prefix_refl _
    | cons op ops ih => exact fun m => (run_keeps_options cfg m op).trans (ih _)
  obtain ⟨tail, htail⟩ := hpre post ((build cfg pre).addOptionUint cfg number v).1
  refine ⟨o, ?_, hentry⟩
  rw [build, List.foldl_append, List.foldl_cons]
  show (post.foldl _ ((build cfg pre).addOptionUint cfg number v).1).options[_]? = _
  rw [← htail, ho]
  simp

/-- **Codec round trip.** `encode()` of a built message succeeds exactly when the capacity holds
its wire size, stays inside the buffer, and is undone by `decode()`; an integer option comes
back minimal and with its value. The message is built by any sequence of the calls of the API,
the refused ones among them. -/
theorem encode_decode_build (cfg : Config) (ops : List MessageOp) (cap : Nat) :
    (0 < encodedLength ((build cfg ops).encode cap) ↔ (build cfg ops).wireSize ≤ cap) ∧
    (contents ((build cfg ops).encode cap)).length ≤ cap ∧
    ((build cfg ops).wireSize ≤ cap →
      encodedLength ((build cfg ops).encode cap) =
          (contents ((build cfg ops).encode cap)).length ∧
      ∃ d, decode cfg (contents ((build cfg ops).encode cap)) = (.none, d) ∧
        SameContent d (build cfg ops) ∧
        ∀ pre number v post, ops = pre ++ .addOptionUint number v :: post →
          ((MessageOp.addOptionUint number v).run cfg (build cfg pre)).2 = true →
          ∃ o, d.optionAt (build cfg pre).options.length = some o ∧ UintOption o number v) ∧
    ∀ m op, (MessageOp.run cfg m op).2 = false → (MessageOp.run cfg m op).1 = m := by
  have hm := (built_build cfg ops).toWellFormed
  obtain ⟨hfits, hfull⟩ := encode_spec hm cap
  have hsize := wire_length hm
  have h4 : 0 < (build cfg ops).wireSize := by unfold wireSize; omega
  -- encoding is as in `encode_spec`, once the capacity is compared with the wire size
  refine ⟨?_, ?_, ?_, fun m op => run_false⟩
  · by_cases hcap : (build cfg ops).wireSize ≤ cap
    · rw [hfits (by omega)]
      exact iff_of_true (by show 0 < (wire _).length; omega) hcap
    · obtain ⟨e, he, -⟩ := hfull (by omega)
      rw [he]
      exact iff_of_false (Nat.lt_irrefl 0) hcap
  · by_cases hcap : (build cfg ops).wireSize ≤ cap
    · rw [hfits (by omega)]
      show (wire _).length ≤ cap
      omega
    · obtain ⟨e, he, hlen⟩ := hfull (by omega)
      rw [he]
      exact hlen
  · intro hcap
    rw [hfits (by omega)]
    refine ⟨rfl, _, decodes_wire hm, sameContent_decode hm, ?_⟩
    -- the option of an `addOptionUint` that was accepted
    rintro pre number v post rfl hacc
    obtain ⟨o, ho, hentry⟩ := build_uint_at post hacc
    refine ⟨ofEntry (entry o), ?_, ?_⟩
    · rw [decode_wire hm, optionAt, List.getElem?_map, ho]
      rfl
    · rw [hentry]
      exact uintOption_entry number v

end Message

end PulseCoap
