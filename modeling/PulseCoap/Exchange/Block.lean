import PulseCoap.Exchange.Client

/-!
# PulseCoAP — the Block option on the wire

What a receiver reads as the Block1 option of a datagram, in terms of the
message that was encoded into it: the option that was added, or none where
`addOptionUint` found no room or was not called.

`toOptionValue` shifts the number by four bits and `addOptionUint` writes the
result in as few bytes as it needs, so the way back is a division; it is exact
for numbers below 2^28, and a receiver that takes only options of at most three
bytes sees those below 2^20. `Carries.found` and its like state the same for the
replies of the server, whose options are a list of numbers and integers.

* `fromOption_value`, `fromOption_uint` — the option says what `toOptionValue` put in.
* `findOption_decode` — the options that are found survive the way.
* `Carries.findOption`, `Carries.found` — the integer options of a reply.
* `block1_decode` — the Block1 option of a block the client sends.
-/

namespace PulseCoap

-- ===========================================================================
-- The value of the option
-- ===========================================================================

namespace BlockOption

/-- The value of a block number that fits its 28 bits. -/
theorem toOptionValue_toNat {num : UInt32} (hnum : num.toNat < 2 ^ 28) (m : Bool) (szx : UInt8) :
    (toOptionValue num m szx).toNat = num.toNat * 16 + (if m then 8 else 0) + szx.toNat % 8 := by
  have hshift : (num <<< 4).toNat = num.toNat * 2 ^ 4 := by
    rw [UInt32.toNat_shiftLeft, show (4 : UInt32).toNat % 32 = 4 from rfl, Nat.shiftLeft_eq]
    exact Nat.mod_eq_of_lt (by omega)
  have hszx : (szx &&& 0x07).toUInt32.toNat = szx.toNat % 8 := by
    rw [UInt8.toNat_toUInt32, UInt8.toNat_and]
    exact Nat.and_two_pow_sub_one_eq_mod szx.toNat 3
  have hflag : (if m then (0x08 : UInt32) else 0).toNat = if m then 8 else 0 := by
    cases m <;> rfl
  unfold toOptionValue
  rw [UInt32.toNat_or, UInt32.toNat_or, hshift, hszx, hflag]
  -- number, flag and size lie side by side
  have hflags : num.toNat * 2 ^ 4 ||| (if m then 8 else 0) =
      2 ^ 3 * (num.toNat * 2 + if m then 1 else 0) := by
    have hlow : (if m then 8 else 0) < 2 ^ 4 := by split <;> omega
    rw [Nat.mul_comm, ← Nat.two_pow_add_eq_or_of_lt hlow]
    split <;> omega
  rw [hflags, ← Nat.two_pow_add_eq_or_of_lt (Nat.mod_lt _ (by omega))]
  split <;> omega

theorem fromOption_value {opt : CoapOption} {b : BlockOption} {num : UInt32} {m : Bool}
    {szx : UInt8} (hnum : num.toNat < 2 ^ 28)
    (hvalue : Message.optionAsUint opt = toOptionValue num m szx) (h : fromOption opt = some b) :
    b.num = num ∧ b.m = m := by
  have hv := toOptionValue_toNat hnum m szx
  -- the option is `num * 16 + m * 8 + szx`, so a shift by four gives the number back
  have hszx : szx.toNat % 8 < 8 := Nat.mod_lt _ (by omega)
  unfold fromOption at h
  split at h
  · cases h
  · obtain rfl := Option.some.inj h
    rw [hvalue]
    constructor
    · -- the number: what is below bit 4 falls away
      apply UInt32.toNat_inj.1
      show (toOptionValue num m szx >>> 4).toNat = num.toNat
      rw [UInt32.toNat_shiftRight, Nat.shiftRight_eq_div_pow, hv,
        show (4 : UInt32).toNat % 32 = 4 from rfl]
      split <;> omega
    · -- bit 3 is the more flag
      have hbit : ((toOptionValue num m szx >>> 3) &&& 1).toNat = if m then 1 else 0 := by
        rw [UInt32.toNat_and, UInt32.toNat_shiftRight, Nat.shiftRight_eq_div_pow, hv,
          show (3 : UInt32).toNat % 32 = 3 from rfl, show (1 : UInt32).toNat = 2 ^ 1 - 1 from rfl,
          Nat.and_two_pow_sub_one_eq_mod]
        split <;> omega
      show decide ((toOptionValue num m szx >>> 3) &&& 1 ≠ 0) = m
      cases m with
      | false => exact decide_eq_false (not_not.2 (UInt32.toNat_inj.1 hbit))
      | true =>
        refine decide_eq_true fun hzero => ?_
        rw [hzero] at hbit
        cases hbit

/-- The size exponent is the low three bits. -/
theorem fromOption_szx {opt : CoapOption} {b : BlockOption} (h : fromOption opt = some b) :
    b.szx.toNat = (Message.optionAsUint opt).toNat % 8 := by
  unfold fromOption at h
  split at h
  · cases h
  · obtain rfl := Option.some.inj h
    show ((Message.optionAsUint opt &&& 0x07).toUInt8).toNat = _
    rw [UInt32.toNat_toUInt8, UInt32.toNat_and, show (0x07 : UInt32).toNat = 2 ^ 3 - 1 from rfl,
      Nat.and_two_pow_sub_one_eq_mod]
    omega

/-- **A number of twenty bits comes back**, with the flag. The option has three bytes at most
then, and that is what `fromOption` reads. -/
theorem fromOption_number {o : CoapOption} {number : UInt16} {num : UInt32} {m : Bool}
    {szx : UInt8} (h : Message.UintOption o number (toOptionValue num m szx))
    (hnum : num.toNat < 2 ^ 20) : ∃ b, fromOption o = some b ∧ b.num = num ∧ b.m = m := by
  have hv := toOptionValue_toNat (show num.toNat < 2 ^ 28 by omega) m szx
  have hszx : szx.toNat % 8 < 8 := Nat.mod_lt _ (by omega)
  have hshort : ¬ o.length > 3 := by
    have hfits : (toOptionValue num m szx).toNat < 256 ^ 3 := by
      rw [hv]
      split <;> omega
    exact UInt16.not_lt.2 (UInt16.le_iff_toNat_le.2 ((h.minimal 3).2 hfits))
  obtain ⟨b, hb⟩ : ∃ b, fromOption o = some b := ⟨_, if_neg hshort⟩
  exact ⟨b, hb, fromOption_value (show num.toNat < 2 ^ 28 by omega) h.value hb⟩

/-- And with it an exponent of three bits. -/
theorem fromOption_uint {o : CoapOption} {number : UInt16} {num : UInt32} {m : Bool} {szx : UInt8}
    (h : Message.UintOption o number (toOptionValue num m szx)) (hnum : num.toNat < 2 ^ 20)
    (hszx : szx.toNat < 8) : fromOption o = some { num, m, szx } := by
  have hv := toOptionValue_toNat (show num.toNat < 2 ^ 28 by omega) m szx
  obtain ⟨⟨num', m', szx'⟩, hb, hsnum, hsm⟩ := fromOption_number h hnum
  have hsame : szx' = szx := by
    apply UInt8.toNat_inj.1
    have hread : szx'.toNat = _ := fromOption_szx hb
    rw [h.value, hv] at hread
    split at hread <;> omega
  dsimp only at hsnum hsm
  rw [hb, hsnum, hsm, hsame]

end BlockOption

-- ===========================================================================
-- Finding it again
-- ===========================================================================

variable {cfg : Config}

namespace Message

/-- The first option of a number is the first one after the way over the wire. -/
theorem findOption_decode {m : Message} (hm : m.WellFormed cfg) (number : UInt16) :
    (decode cfg m.wire).2.findOption number =
      (m.findOption number).map fun o => ofEntry (entry o) := by
  have hnum : ∀ o : CoapOption, (ofEntry (entry o)).number = o.number := by
    intro o
    show UInt16.ofNat o.number.toNat = o.number
    exact UInt16.ofNat_toNat
  rw [decode_wire hm]
  unfold findOption
  dsimp only
  rw [List.find?_map]
  simp only [Function.comp_def, hnum]

/-- An option that a message has not is not found. -/
theorem findOption_none {m : Message} {number : UInt16} (h : ∀ o ∈ m.options, o.number ≠ number) :
    m.findOption number = none := by
  unfold findOption
  rw [List.find?_eq_none]
  intro o ho
  simpa using h o ho

end Message

namespace Server

/-- The integer options of a reply are found with their values. -/
theorem Carries.findOption {m : Message} {hd : ReplyHeader} {uints : List (UInt16 × UInt32)}
    {payload : Bytes} (h : Carries cfg m hd uints payload) {number : UInt16} {o : CoapOption}
    (ho : (Message.decode cfg m.wire).2.findOption number = some o) :
    ∃ v, (number, v) ∈ uints ∧ Message.optionAsUint o = v := by
  rw [Message.findOption_decode h.built.toWellFormed] at ho
  obtain ⟨o', ho', rfl⟩ := Option.map_eq_some_iff.1 ho
  have hmem := List.mem_of_find?_eq_some ho'
  have hnum : o'.number = number := by simpa using List.find?_some ho'
  have hentry : Message.entry o' ∈ (uints.take cfg.maxOptions).map fun u =>
      (u.1.toNat, Message.uintBytes u.2) := by
    rw [← h.options]
    exact List.mem_map_of_mem hmem
  obtain ⟨u, hu, heq⟩ := List.mem_map.1 hentry
  have hu1 : u.1 = number := by
    rw [← hnum]
    exact UInt16.toNat_inj.1 (congrArg Prod.fst heq)
  refine ⟨u.2, hu1 ▸ List.mem_of_mem_take hu, ?_⟩
  rw [← heq]
  exact (Message.uintOption_entry u.1 u.2).value

/-- What is found in a reply at the other end is the first integer of that number. -/
theorem Carries.found {m : Message} {hd : ReplyHeader} {uints : List (UInt16 × UInt32)}
    {payload : Bytes} (h : Carries cfg m hd uints payload) (number : UInt16) :
    (Message.decode cfg m.wire).2.findOption number =
      ((uints.take cfg.maxOptions).find? fun u => u.1 == number).map fun u =>
        Message.ofEntry (u.1.toNat, Message.uintBytes u.2) := by
  have hnum : ∀ u : UInt16 × UInt32,
      (Message.ofEntry (u.1.toNat, Message.uintBytes u.2)).number = u.1 := by
    intro u
    exact UInt16.ofNat_toNat
  unfold Message.findOption
  rw [h.options_decode, List.find?_map]
  simp only [Function.comp_def, hnum]

/-- A reply without a Block1 option. -/
theorem Carries.lacks {m : Message} {hd : ReplyHeader} {uints : List (UInt16 × UInt32)}
    {payload : Bytes} (h : Carries cfg m hd uints payload) {number : UInt16}
    (hu : ∀ u ∈ uints, u.1 ≠ number) :
    (Message.decode cfg m.wire).2.findOption number = none := by
  cases ho : (Message.decode cfg m.wire).2.findOption number with
  | none => rfl
  | some o =>
    obtain ⟨v, hv, -⟩ := h.findOption ho
    exact absurd rfl (hu _ hv)

end Server

namespace Client

-- ===========================================================================
-- The requests of the client
-- ===========================================================================

/-- `addUriPathOptions` adds options of its own number only. -/
theorem addSegments_numbers (segs : List Bytes) : ∀ {msg : Message},
    ∀ o ∈ (Uri.addSegments cfg msg segs).1.options,
      o ∈ msg.options ∨ o.number = OptionNumber.uriPath := by
  induction segs with
  | nil => exact fun _ ho => .inl ho
  | cons seg segs ih =>
    intro msg o ho
    -- one `addOption` adds an option with this number or leaves the message alone
    have hadd : ∀ o ∈ (msg.addOption cfg OptionNumber.uriPath (some seg)
        (UInt16.ofNat seg.length)).1.options, o ∈ msg.options ∨ o.number = OptionNumber.uriPath := by
      intro o ho
      rcases Message.addOption_cases cfg msg OptionNumber.uriPath (some seg)
        (UInt16.ofNat seg.length) with heq | ⟨-, -, heq⟩
      · rw [heq] at ho
        exact .inl ho
      · rw [heq] at ho
        rcases List.mem_append.1 ho with ho | ho
        · exact .inl ho
        · rw [List.mem_singleton.1 ho]
          exact .inr rfl
    unfold Uri.addSegments at ho
    dsimp only at ho
    split at ho
    · rcases ih o ho with ho | ho
      · exact hadd o ho
      · exact .inr ho
    · exact hadd o ho

/-- An integer option that was not there is found with its value, if there was room for it. -/
theorem addOptionUint_found {m : Message} {number : UInt16} (v : UInt32)
    (hm : ∀ o ∈ m.options, o.number ≠ number) {o : CoapOption}
    (ho : (m.addOptionUint cfg number v).1.findOption number = some o) :
    Message.entry o = (number.toNat, Message.uintBytes v) := by
  cases hadd : (m.addOptionUint cfg number v).2 with
  | false =>
    have hsame : (m.addOptionUint cfg number v).1 = m :=
      @Message.run_false cfg m (.addOptionUint number v) hadd
    rw [hsame, Message.findOption_none hm] at ho
    cases ho
  | true =>
    obtain ⟨o', hopts, hentry⟩ := Message.addOptionUint_accepted hadd
    have hmem := List.mem_of_find?_eq_some ho
    have hnum : o.number = number := by simpa using List.find?_some ho
    rw [hopts] at hmem
    rcases List.mem_append.1 hmem with hmem | hmem
    · exact absurd hnum (hm o hmem)
    · rw [List.mem_singleton.1 hmem]
      exact hentry

/-- Whether a block is followed by another one. -/
def moreAfter (up : Block1UploadState) : Bool :=
  decide (up.fullPayload.length - up.nextNum.toNat * blockSize up.szx > blockSize up.szx)

/-- A block up to its Block1 option. -/
def blockHead (cfg : Config) (up : Block1UploadState) (messageId : UInt16) : Message :=
  ((Uri.addUriPathOptions cfg (opened .confirmable messageId [up.token] up.method)
    up.path).1.addOptionUint cfg OptionNumber.contentFormat up.contentFormat.raw.toUInt32).1

theorem blockHead_built (up : Block1UploadState) (messageId : UInt16) :
    Message.Built cfg (blockHead cfg up messageId) := by
  have hopened : Message.Built cfg (opened .confirmable messageId [up.token] up.method) :=
    ((((Message.built_reset cfg).run (.setType .confirmable)).run (.setMessageId messageId)).run
      (.setToken [up.token])).run (.setCode up.method)
  exact (Uri.addSegments_built (Uri.segments up.path) hopened).run
    (.addOptionUint OptionNumber.contentFormat up.contentFormat.raw.toUInt32)

theorem blockHead_numbers (up : Block1UploadState) (messageId : UInt16) :
    ∀ o ∈ (blockHead cfg up messageId).options, o.number ≠ OptionNumber.block1 := by
  intro o ho
  obtain ⟨rest, hopts, hrest⟩ := addOptionUint_options cfg (Uri.addUriPathOptions cfg
    (opened .confirmable messageId [up.token] up.method) up.path).1
    OptionNumber.contentFormat up.contentFormat.raw.toUInt32
  rw [blockHead, hopts] at ho
  rcases List.mem_append.1 ho with ho | ho
  · rcases addSegments_numbers (Uri.segments up.path) o ho with hnil | hnum
    · cases hnil
    · rw [hnum]
      exact (by decide : OptionNumber.uriPath ≠ OptionNumber.block1)
  · rw [hrest o ho]
    exact (by decide : OptionNumber.contentFormat ≠ OptionNumber.block1)

/-- **A block of an upload on the wire**: its Block1 option, if there is one, says which block
it is and whether there are more. That there is one is a question of room in the table, which
`sendBlock1` does not ask. -/
theorem block1_decode {up : Block1UploadState} {messageId : UInt16} {sendOk : Bool} {buf : Bytes}
    (h : transmit cfg (buildBlock1 cfg up messageId) sendOk = some buf) {msg : Message}
    (hdec : Message.decode cfg buf = (.none, msg)) :
    msg.token = [up.token] ∧ msg.code = up.method ∧
      ∀ o, msg.findOption OptionNumber.block1 = some o →
        Message.optionAsUint o = BlockOption.toOptionValue up.nextNum (moreAfter up) up.szx := by
  obtain ⟨m, hm, henc⟩ := transmit_some h
  -- the message, from its options on
  have hshape : ∃ data n, n ≤ data.length ∧
      m = ((blockHead cfg up messageId).addOptionUint cfg OptionNumber.block1
        (BlockOption.toOptionValue up.nextNum (moreAfter up) up.szx)).1.setPayload
          (some data) n := by
    unfold buildBlock1 at hm
    dsimp only at hm
    split at hm
    · cases hm
    · obtain rfl := Option.some.inj hm
      refine ⟨_, _, ?_, rfl⟩
      rw [List.length_drop]
      split <;> omega
  obtain ⟨data, n, hn, rfl⟩ := hshape
  have hhead : Message.Built cfg (blockHead cfg up messageId) := blockHead_built up messageId
  have hbuilt := (hhead.run (.addOptionUint OptionNumber.block1
    (BlockOption.toOptionValue up.nextNum (moreAfter up) up.szx))).run
    (.setPayload (some data) n fun b hb => by rw [← Option.some.inj hb]; exact hn)
  have hheader := (((Message.sameHeader_addUriPathOptions cfg
    (opened .confirmable messageId [up.token] up.method) up.path).trans
      (Message.sameHeader_addOptionUint cfg _ OptionNumber.contentFormat
        up.contentFormat.raw.toUInt32)).trans
          (Message.sameHeader_addOptionUint cfg (blockHead cfg up messageId) OptionNumber.block1
            (BlockOption.toOptionValue up.nextNum (moreAfter up) up.szx)))
  obtain rfl := encode_wire hbuilt henc
  have hsame := Message.sameContent_decode hbuilt.toWellFormed
  have hmsg : msg = (Message.decode cfg (Message.wire _)).2 := congrArg Prod.snd hdec.symm
  rw [← hmsg] at hsame
  refine ⟨hsame.token.trans hheader.token, hsame.code.trans hheader.code, fun o ho => ?_⟩
  rw [hmsg, Message.findOption_decode hbuilt.toWellFormed] at ho
  obtain ⟨o', ho', rfl⟩ := Option.map_eq_some_iff.1 ho
  rw [addOptionUint_found _ (blockHead_numbers up messageId) ho']
  exact (Message.uintOption_entry _ _).value

end Client

end PulseCoap
