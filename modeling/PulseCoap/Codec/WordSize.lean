import PulseCoap.Codec.Message

/-!
# PulseCoAP — `decode` and the word size

`Message::decode` once more, over the memory `in` points to and with its sums
computed in a `size_t` of `w` bits. Options and payload are kept as offsets
into the memory, and the offsets the code has read and the positions its loop
has been at are recorded.

The other modules take `size_t` to be wide enough for every sum. Here `w` is any
width from 16 bits on, and a sum is reduced modulo `2 ^ w` as the code reduces
it: the test `pos + length > inLength` may then pass for a value that ends far
beyond the input. Once such an option is stored, the message is unsafe unless
`decode` still comes to an error and calls `reset()`, which is `Rejected`; the
two inductions, with and without a bad option among those stored, are on the
budget.

* `pass_cases` — what one pass of the option loop can do.
* `Fits` — in terms of the bytes only: no sum of the scan passes `2 ^ w`.
* `decode_safe_iff` — `decode` stays inside its input, and goes forward in it, exactly
  when the scan fits.
-/

namespace PulseCoap

namespace WordSize

variable (w : Nat) (cfg : Config) (input : Nat → UInt8) (inLength : Nat)

/-! ## The code -/

/-- `a + b` in `size_t`. -/
def add (a b : Nat) : Nat := (a + b) % 2 ^ w

/-- `struct Option`; `value` is an offset. -/
structure StoredOption where
  number : UInt16
  length : UInt16
  value  : Nat
deriving DecidableEq, Repr

/-- What `decode` has stored, and where it has been. -/
structure Decoder where
  type      : MessageType := .confirmable
  code      : Code := Code.empty
  messageId : UInt16 := 0
  token     : Bytes := []
  options   : List StoredOption := []
  payload   : Option (Nat × Nat) := none
  /-- The offsets read. -/
  reads     : List Nat := []
  /-- The values of `pos` at the head of the option loop. -/
  positions : List Nat := []
deriving DecidableEq, Repr

/-- `Message::reset`. -/
def Decoder.reset (d : Decoder) : Decoder := { reads := d.reads, positions := d.positions }

/-- One pass of the option loop, at `pos`, has read these offsets. -/
def Decoder.visit (d : Decoder) (pos : Nat) (offsets : List Nat) : Decoder :=
  { d with reads := d.reads ++ offsets, positions := d.positions ++ [pos] }

/-- The value behind a delta or length nibble with the position after it (`none`
is the `TooShort` exit), and the offsets read. -/
def readOptionField (nibble : UInt8) (pos : Nat) : Option (UInt16 × Nat) × List Nat :=
  if nibble < 13 then (some (nibble.toUInt16, pos), [])
  else if nibble = 13 then
    if pos ≥ inLength then (none, [])
    else (some ((13 : UInt16) + (input pos).toUInt16, add w pos 1), [pos])
  else
    if add w pos 1 ≥ inLength then (none, [])
    else
      (some ((269 : UInt16) +
          (((input pos).toUInt16 <<< 8) ||| (input (add w pos 1)).toUInt16), add w pos 2),
        [pos, add w pos 1])

/-- How one pass of the option loop goes on. -/
inductive Pass where
  | stop (error : DecodeError)
  | payload (start : Nat)
  | option (delta length : UInt16) (value : Nat)
deriving DecidableEq, Repr

/-- The body of the option loop up to the test of `optionCount_`. -/
def pass (pos : Nat) : Pass × List Nat :=
  let byte := input pos
  if byte = 0xFF then
    if add w pos 1 ≥ inLength then (.stop .emptyPayloadMarker, [pos])
    else (.payload (add w pos 1), [pos])
  else
    let deltaNibble := byte >>> 4
    let lengthNibble := byte &&& 0x0F
    if deltaNibble = 15 ∨ lengthNibble = 15 then (.stop .badOption, [pos])
    else
      let d := readOptionField w input inLength deltaNibble (add w pos 1)
      match d.1 with
      | none => (.stop .tooShort, pos :: d.2)
      | some (delta, pos') =>
        let l := readOptionField w input inLength lengthNibble pos'
        match l.1 with
        | none => (.stop .tooShort, pos :: (d.2 ++ l.2))
        | some (length, pos') =>
          if add w pos' length.toNat > inLength then (.stop .tooShort, pos :: (d.2 ++ l.2))
          else (.option delta length pos', pos :: (d.2 ++ l.2))

/-- The option loop, with `budget` entries of `options_` free. -/
def decodeOptions (budget pos : Nat) (lastNumber : UInt16) (d : Decoder) :
    DecodeError × Decoder :=
  if pos < inLength then
    let r := pass w input inLength pos
    let d := d.visit pos r.2
    match r.1, budget with
    | .stop error, _ => (error, d.reset)
    | .payload start, _ => (.none, { d with payload := some (start, inLength - start) })
    | .option _ _ _, 0 => (.tooManyOptions, d.reset)
    | .option delta length value, budget + 1 =>
      decodeOptions budget (add w value length.toNat) (lastNumber + delta)
        { d with options := d.options ++ [⟨lastNumber + delta, length, value⟩] }
  else (.none, d)

/-- `Message::decode`. -/
def decode : DecodeError × Decoder :=
  if inLength < 4 then (.tooShort, {})
  else
    let byte0 := input 0
    if byte0 >>> 6 ≠ kVersion then (.badVersion, { reads := [0] })
    else
      let type := MessageType.ofBits ((byte0 >>> 4) &&& 0x03)
      let tkl := (byte0 &&& 0x0F).toNat
      if tkl > kMaxTokenLen then (.badTokenLength, { type, reads := [0] })
      else if add w 4 tkl > inLength then (.tooShort, { reads := [0, 1, 2, 3] })
      else
        decodeOptions w input inLength cfg.maxOptions (add w 4 tkl) 0
          { type
            code := ⟨input 1⟩
            messageId := ((input 2).toUInt16 <<< 8) ||| (input 3).toUInt16
            token := (List.range tkl).map fun i => input (add w 4 i)
            reads := [0, 1, 2, 3] ++ (List.range tkl).map (add w 4) }

/-! ## What is asked of it -/

/-- Everything read and returned lies inside the input, and the loop goes
forward in it. -/
structure Safe (d : Decoder) : Prop where
  reads   : ∀ i ∈ d.reads, i < inLength
  forward : d.positions.Pairwise (· < ·)
  options : ∀ o ∈ d.options, o.value + o.length.toNat ≤ inLength
  payload : ∀ p, d.payload = some p → p.1 + p.2 ≤ inLength

/-! ## The scan in exact arithmetic -/

/-- The number of bytes that extend a nibble. -/
def extension (nibble : UInt8) : Nat :=
  if nibble < 13 then 0 else if nibble = 13 then 1 else 2

/-- The number behind a nibble whose extension starts at `pos`. -/
def fieldAt (nibble : UInt8) (pos : Nat) : UInt16 :=
  if nibble < 13 then nibble.toUInt16
  else if nibble = 13 then (13 : UInt16) + (input pos).toUInt16
  else (269 : UInt16) + (((input pos).toUInt16 <<< 8) ||| (input (pos + 1)).toUInt16)

/-- The byte at `pos` is the head of an option. -/
def IsHead (pos : Nat) : Prop :=
  input pos ≠ 0xFF ∧ input pos >>> 4 ≠ 15 ∧ input pos &&& 0x0F ≠ 15

/-- Where the extension of the length of the option at `pos` starts, and where
its value does. -/
def lengthStart (pos : Nat) : Nat := pos + 1 + extension (input pos >>> 4)
def valueStart (pos : Nat) : Nat := lengthStart input pos + extension (input pos &&& 0x0F)

/-- Where the option at `pos` ends. -/
def valueEnd (pos : Nat) : Nat :=
  valueStart input pos + (fieldAt input (input pos &&& 0x0F) (lengthStart input pos)).toNat

/-- The input fills the address space up to its last byte and ends where the
option at `pos` needs two more bytes for its delta or its length. -/
def CutAtTop (pos : Nat) : Prop :=
  inLength + 1 = 2 ^ w ∧
    (extension (input pos >>> 4) = 2 ∧ pos + 1 = inLength ∨
      extension (input pos &&& 0x0F) = 2 ∧ lengthStart input pos = inLength)

/-- The scan from `pos` goes forward and ends in an error. -/
def Rejected (budget pos : Nat) : Prop :=
  pos < inLength ∧ (input pos = 0xFF → pos + 1 = inLength) ∧
    (IsHead input pos → ¬ CutAtTop w input inLength pos ∧
      (valueStart input pos ≤ inLength → valueEnd input pos % 2 ^ w ≤ inLength →
        match budget with
        | 0 => True
        | budget + 1 => pos < valueEnd input pos % 2 ^ w ∧
            Rejected budget (valueEnd input pos % 2 ^ w)))

/-- No option the scan from `pos` comes to ends at `2 ^ w` or beyond, but for
one that is stepped over to bytes that are rejected. -/
def Fits (budget pos : Nat) : Prop :=
  pos < inLength → IsHead input pos →
    ¬ CutAtTop w input inLength pos ∧
      (valueStart input pos ≤ inLength →
        match budget with
        | 0 => True
        | budget + 1 =>
          if valueEnd input pos < 2 ^ w then
            valueEnd input pos ≤ inLength → Fits budget (valueEnd input pos)
          else pos < valueEnd input pos % 2 ^ w ∧
            Rejected w input inLength budget (valueEnd input pos % 2 ^ w))

/-- The header is one `decode` goes past. -/
def HeaderOk : Prop :=
  4 ≤ inLength ∧ input 0 >>> 6 = kVersion ∧ (input 0 &&& 0x0F).toNat ≤ kMaxTokenLen ∧
    4 + (input 0 &&& 0x0F).toNat ≤ inLength

/-- No sum of the scan wraps. -/
def InBounds : Prop :=
  HeaderOk input inLength →
    Fits w input inLength cfg.maxOptions (4 + (input 0 &&& 0x0F).toNat)

variable {w cfg input inLength}

/-! ## One pass -/

/-- Reading a field: it needs bytes where `pos + 1` wraps, or it runs past the
input, or it is there. -/
theorem readOptionField_cases (hw : 16 ≤ w) (hn : inLength < 2 ^ w) (input : Nat → UInt8)
    (nibble : UInt8) {pos : Nat} (hpos : pos ≤ inLength) :
    (extension nibble = 2 ∧ pos = inLength ∧ inLength + 1 = 2 ^ w ∧
        inLength ∈ (readOptionField w input inLength nibble pos).2) ∨
      ¬ (extension nibble = 2 ∧ pos = inLength ∧ inLength + 1 = 2 ^ w) ∧
        (∀ i ∈ (readOptionField w input inLength nibble pos).2, i < inLength) ∧
        (readOptionField w input inLength nibble pos).1 =
          if pos + extension nibble ≤ inLength then
            some (fieldAt input nibble pos, pos + extension nibble)
          else none := by
  have hpow : 2 ^ 16 ≤ 2 ^ w := Nat.pow_le_pow_right (by omega) hw
  unfold readOptionField fieldAt extension
  by_cases h13 : nibble < 13
  · refine .inr ⟨by simp [h13], ?_, ?_⟩
    · simp [h13]
    · simp [h13, hpos]
  · by_cases heq : nibble = 13
    · -- one byte, at `pos`
      subst heq
      by_cases hlt : pos < inLength
      · have hadd : add w pos 1 = pos + 1 := Nat.mod_eq_of_lt (by omega)
        simp only [h13, if_true, if_false, hadd, ge_iff_le, Nat.not_le.2 hlt]
        refine .inr ⟨by omega, ?_, ?_⟩
        · simpa using hlt
        · rw [if_pos (by omega)]
      · simp only [h13, if_true, if_false, ge_iff_le, Nat.le_of_not_lt hlt]
        refine .inr ⟨by omega, by simp, ?_⟩
        rw [if_neg (by omega)]
    · simp only [h13, heq, if_false, true_and]
      by_cases htop : pos = inLength ∧ inLength + 1 = 2 ^ w
      · -- `pos + 1` is 0, and the test lets it pass
        obtain ⟨rfl, htop⟩ := htop
        have hadd : add w pos 1 = 0 := by
          unfold add
          rw [htop, Nat.mod_self]
        refine .inl ⟨rfl, htop, ?_⟩
        rw [if_neg (by omega)]
        exact List.mem_cons_self
      · have hadd : add w pos 1 = pos + 1 := Nat.mod_eq_of_lt (by omega)
        refine .inr ⟨htop, ?_, ?_⟩
        · split
          · simp
          · simp only [List.mem_cons, List.not_mem_nil, or_false]
            rintro i (rfl | rfl) <;> omega
        · rw [hadd]
          by_cases hlt : pos + 1 < inLength
          · have hadd2 : add w pos 2 = pos + 2 := Nat.mod_eq_of_lt (by omega)
            rw [if_neg (by omega), if_pos (by omega), hadd2]
          · rw [if_pos (by omega), if_neg (by omega)]

/-- All that one pass can do. -/
inductive PassCases (w : Nat) (input : Nat → UInt8) (inLength pos : Nat) :
    Pass × List Nat → Prop
  | emptyMarker : input pos = 0xFF → pos + 1 = inLength →
      PassCases w input inLength pos (.stop .emptyPayloadMarker, [pos])
  | payload : input pos = 0xFF → pos + 1 < inLength →
      PassCases w input inLength pos (.payload (pos + 1), [pos])
  | badOption : input pos ≠ 0xFF → ¬ IsHead input pos →
      PassCases w input inLength pos (.stop .badOption, [pos])
  | overread {r} : IsHead input pos → CutAtTop w input inLength pos → inLength ∈ r.2 →
      PassCases w input inLength pos r
  | tooShort {offsets} : IsHead input pos → ¬ CutAtTop w input inLength pos →
      (valueStart input pos ≤ inLength → inLength < valueEnd input pos % 2 ^ w) →
      (∀ i ∈ offsets, i < inLength) →
      PassCases w input inLength pos (.stop .tooShort, offsets)
  | option {offsets} : IsHead input pos → ¬ CutAtTop w input inLength pos →
      valueStart input pos ≤ inLength → valueEnd input pos % 2 ^ w ≤ inLength →
      (∀ i ∈ offsets, i < inLength) →
      PassCases w input inLength pos
        (.option (fieldAt input (input pos >>> 4) (pos + 1))
          (fieldAt input (input pos &&& 0x0F) (lengthStart input pos)) (valueStart input pos),
          offsets)

/-- **One pass of the option loop.** It ends the loop with an error or at the payload, or stores
one option and goes on behind it; each case says what has been read and where the cursor is. -/
theorem pass_cases (hw : 16 ≤ w) (hn : inLength < 2 ^ w) (input : Nat → UInt8) {pos : Nat}
    (hpos : pos < inLength) :
    PassCases w input inLength pos (pass w input inLength pos) := by
  have hadd : add w pos 1 = pos + 1 := Nat.mod_eq_of_lt (by omega)
  unfold pass
  rw [hadd]
  dsimp only
  by_cases hmark : input pos = 0xFF
  · rw [if_pos hmark]
    by_cases hend : pos + 1 ≥ inLength
    · rw [if_pos hend]
      exact .emptyMarker hmark (by omega)
    · rw [if_neg hend]
      exact .payload hmark (by omega)
  rw [if_neg hmark]
  -- the reserved nibble of either field is turned down before anything else is read
  by_cases hnib : input pos >>> 4 = 15 ∨ input pos &&& 0x0F = 15
  · rw [if_pos hnib]
    refine .badOption hmark fun hhead => ?_
    rcases hnib with h | h
    · exact hhead.2.1 h
    · exact hhead.2.2 h
  rw [if_neg hnib]
  have hhead : IsHead input pos := ⟨hmark, fun h => hnib (.inl h), fun h => hnib (.inr h)⟩
  have hread : ∀ offsets : List Nat, (∀ i ∈ offsets, i < inLength) →
      ∀ i ∈ pos :: offsets, i < inLength := by
    intro offsets hoff i hi
    rcases List.mem_cons.1 hi with rfl | hi
    · exact hpos
    · exact hoff i hi
  -- the delta
  rcases readOptionField_cases hw hn input (input pos >>> 4)
    (show pos + 1 ≤ inLength from hpos) with ⟨hext, hlast, htop, hmem⟩ | ⟨hcut, hoff, hres⟩
  · refine .overread hhead ⟨htop, .inl ⟨hext, hlast⟩⟩ ?_
    split
    · exact List.mem_cons_of_mem _ hmem
    · split
      · exact List.mem_cons_of_mem _ (List.mem_append_left _ hmem)
      · split <;> exact List.mem_cons_of_mem _ (List.mem_append_left _ hmem)
  rw [hres]
  -- the delta is read inside; its bytes may still be missing
  by_cases hfits : pos + 1 + extension (input pos >>> 4) ≤ inLength
  swap
  · rw [if_neg hfits]
    refine .tooShort hhead ?_ ?_ (hread _ hoff)
    · rintro ⟨htop, ⟨hext, hlast⟩ | ⟨-, hlast⟩⟩
      · exact hcut ⟨hext, hlast, htop⟩
      · exact hfits (le_of_eq hlast)
    · intro hstart
      unfold valueStart lengthStart at hstart
      omega
  rw [if_pos hfits]
  dsimp only
  -- the length
  rcases readOptionField_cases hw hn input (input pos &&& 0x0F) hfits with
    ⟨hext, hlast, htop, hmem⟩ | ⟨hcut2, hoff2, hres2⟩
  · refine .overread hhead ⟨htop, .inr ⟨hext, hlast⟩⟩ ?_
    split
    · exact List.mem_cons_of_mem _ (List.mem_append_right _ hmem)
    · split <;> exact List.mem_cons_of_mem _ (List.mem_append_right _ hmem)
  -- neither field is cut off at the top of the address space from here on
  have hnocut : ¬ CutAtTop w input inLength pos := by
    rintro ⟨htop, ⟨hext, hlast⟩ | ⟨hext, hlast⟩⟩
    · exact hcut ⟨hext, hlast, htop⟩
    · exact hcut2 ⟨hext, hlast, htop⟩
  have hboth := hread _ fun i hi => (List.mem_append.1 hi).elim (hoff i) (hoff2 i)
  change PassCases w input inLength pos (match
    (readOptionField w input inLength (input pos &&& 0x0F) (lengthStart input pos)).1 with
    | none => _
    | some (length, pos') => _)
  rw [show (readOptionField w input inLength (input pos &&& 0x0F) (lengthStart input pos)).1 =
    if valueStart input pos ≤ inLength then
      some (fieldAt input (input pos &&& 0x0F) (lengthStart input pos), valueStart input pos)
    else none from hres2]
  by_cases hstart : valueStart input pos ≤ inLength
  swap
  · rw [if_neg hstart]
    exact .tooShort hhead hnocut (fun h => absurd h hstart) hboth
  -- the sum the code computes is the end of the value, reduced to the width of `size_t`
  have hvalue : add w (valueStart input pos)
      (fieldAt input (input pos &&& 0x0F) (lengthStart input pos)).toNat =
      valueEnd input pos % 2 ^ w := rfl
  rw [if_pos hstart]
  dsimp only
  rw [hvalue]
  by_cases hend : inLength < valueEnd input pos % 2 ^ w
  · rw [if_pos hend]
    exact .tooShort hhead hnocut (fun _ => hend) hboth
  · rw [if_neg hend]
    exact .option hhead hnocut hstart (Nat.le_of_not_lt hend) hboth

/-! ## The loop -/

section

variable {budget pos : Nat} (lastNumber : UInt16) (d : Decoder)

/-- The scan ends with the datagram. -/
theorem decodeOptions_end (h : ¬ pos < inLength) :
    decodeOptions w input inLength budget pos lastNumber d = (.none, d) := by
  unfold decodeOptions
  rw [if_neg h]

theorem decodeOptions_stop (h : pos < inLength) {error : DecodeError} {offsets : List Nat}
    (hp : pass w input inLength pos = (.stop error, offsets)) :
    decodeOptions w input inLength budget pos lastNumber d =
      (error, (d.visit pos offsets).reset) := by
  unfold decodeOptions
  rw [if_pos h, hp]

/-- The payload marker ends the scan. -/
theorem decodeOptions_payload (h : pos < inLength) {start : Nat} {offsets : List Nat}
    (hp : pass w input inLength pos = (.payload start, offsets)) :
    decodeOptions w input inLength budget pos lastNumber d =
      (.none, { d.visit pos offsets with payload := some (start, inLength - start) }) := by
  unfold decodeOptions
  rw [if_pos h, hp]

/-- An option beyond the table is an error. -/
theorem decodeOptions_full (h : pos < inLength) {delta length : UInt16} {value : Nat}
    {offsets : List Nat} (hp : pass w input inLength pos = (.option delta length value, offsets)) :
    decodeOptions w input inLength 0 pos lastNumber d =
      (.tooManyOptions, (d.visit pos offsets).reset) := by
  unfold decodeOptions
  rw [if_pos h, hp]

/-- One more option is stored. -/
def Decoder.store (d : Decoder) (pos : Nat) (offsets : List Nat) (o : StoredOption) : Decoder :=
  { d.visit pos offsets with options := d.options ++ [o] }

/-- An option is stored, and the scan goes on behind it. -/
theorem decodeOptions_option (h : pos < inLength) {delta length : UInt16} {value : Nat}
    {offsets : List Nat} (hp : pass w input inLength pos = (.option delta length value, offsets)) :
    decodeOptions w input inLength (budget + 1) pos lastNumber d =
      decodeOptions w input inLength budget (add w value length.toNat) (lastNumber + delta)
        (d.store pos offsets ⟨lastNumber + delta, length, value⟩) := by
  rw [decodeOptions, if_pos h, hp]
  rfl

end

/-- What the loop has read and where it has been stays on record. -/
theorem decodeOptions_grows (budget pos : Nat) (lastNumber : UInt16) (d : Decoder) :
    d.reads <+: (decodeOptions w input inLength budget pos lastNumber d).2.reads ∧
      d.positions <+: (decodeOptions w input inLength budget pos lastNumber d).2.positions := by
  -- the induction is on the options that are left room for; one pass only adds to both records
  induction budget generalizing pos lastNumber d with
  | zero =>
    by_cases hpos : pos < inLength
    · rcases hp : pass w input inLength pos with ⟨_ | _ | _, offsets⟩
      · rw [decodeOptions_stop lastNumber d hpos hp]
        exact ⟨List.prefix_append _ _, List.prefix_append _ _⟩
      · rw [decodeOptions_payload lastNumber d hpos hp]
        exact ⟨List.prefix_append _ _, List.prefix_append _ _⟩
      · rw [decodeOptions_full lastNumber d hpos hp]
        exact ⟨List.prefix_append _ _, List.prefix_append _ _⟩
    · rw [decodeOptions_end lastNumber d hpos]
      exact ⟨List.prefix_rfl, List.prefix_rfl⟩
  | succ budget ih =>
    by_cases hpos : pos < inLength
    · rcases hp : pass w input inLength pos with ⟨_ | _ | ⟨delta, length, value⟩, offsets⟩
      · rw [decodeOptions_stop lastNumber d hpos hp]
        exact ⟨List.prefix_append _ _, List.prefix_append _ _⟩
      · rw [decodeOptions_payload lastNumber d hpos hp]
        exact ⟨List.prefix_append _ _, List.prefix_append _ _⟩
      · rw [decodeOptions_option lastNumber d hpos hp]
        obtain ⟨hreads, hpositions⟩ := ih (add w value length.toNat) (lastNumber + delta)
          (d.store pos offsets ⟨lastNumber + delta, length, value⟩)
        exact ⟨(List.prefix_append _ _).trans hreads, (List.prefix_append _ _).trans hpositions⟩
    · rw [decodeOptions_end lastNumber d hpos]
      exact ⟨List.prefix_rfl, List.prefix_rfl⟩

/-- What one pass reads, and where it was, is on record when the loop is done. -/
theorem decodeOptions_visits {budget pos : Nat} (lastNumber : UInt16) (d : Decoder)
    (hpos : pos < inLength) :
    (d.visit pos (pass w input inLength pos).2).reads <+:
        (decodeOptions w input inLength budget pos lastNumber d).2.reads ∧
      (d.visit pos (pass w input inLength pos).2).positions <+:
        (decodeOptions w input inLength budget pos lastNumber d).2.positions := by
  rcases hp : pass w input inLength pos with ⟨_ | _ | ⟨delta, length, value⟩, offsets⟩
  · rw [decodeOptions_stop lastNumber d hpos hp]
    exact ⟨List.prefix_rfl, List.prefix_rfl⟩
  · rw [decodeOptions_payload lastNumber d hpos hp]
    exact ⟨List.prefix_rfl, List.prefix_rfl⟩
  · cases budget with
    | zero =>
      rw [decodeOptions_full lastNumber d hpos hp]
      exact ⟨List.prefix_rfl, List.prefix_rfl⟩
    | succ budget =>
      rw [decodeOptions_option lastNumber d hpos hp]
      exact decodeOptions_grows budget _ _
        (d.store pos offsets ⟨lastNumber + delta, length, value⟩)

/-- A read beyond the input is not taken back. -/
theorem not_safe_of_overread {budget pos : Nat} (lastNumber : UInt16) (d : Decoder)
    (hpos : pos < inLength) (hread : inLength ∈ (pass w input inLength pos).2) :
    ¬ Safe inLength (decodeOptions w input inLength budget pos lastNumber d).2 := by
  intro hsafe
  have hlt := hsafe.reads inLength
    ((decodeOptions_visits lastNumber d hpos).1.subset (List.mem_append_right _ hread))
  omega

/-- Neither is a step back. -/
theorem not_safe_of_back {budget pos : Nat} (lastNumber : UInt16) {d : Decoder}
    (hpos : pos < inLength) {last : Nat} (hlast : last ∈ d.positions) (hback : pos ≤ last) :
    ¬ Safe inLength (decodeOptions w input inLength budget pos lastNumber d).2 := by
  intro hsafe
  have hforward := hsafe.forward.sublist (decodeOptions_visits lastNumber d hpos).2.sublist
  have hlt := (List.pairwise_append.1 hforward).2.2 last hlast pos List.mem_cons_self
  omega

/-- Before a pass: all is in order, and `pos` is ahead of where the loop has
been. -/
structure Tidy (inLength : Nat) (d : Decoder) (pos : Nat) : Prop where
  reads   : ∀ i ∈ d.reads, i < inLength
  forward : d.positions.Pairwise (· < ·)
  ahead   : ∀ p ∈ d.positions, p < pos
  payload : d.payload = none

/-- A pass that reads inside the datagram and gets on. -/
theorem Tidy.visit {d : Decoder} {pos next : Nat} {offsets : List Nat} (t : Tidy inLength d pos)
    (hoff : ∀ i ∈ offsets, i < inLength) (hnext : pos < next) :
    Tidy inLength (d.visit pos offsets) next where
  reads i hi := by
    rcases List.mem_append.1 hi with hi | hi
    · exact t.reads i hi
    · exact hoff i hi
  forward := by
    refine List.pairwise_append.2 ⟨t.forward, List.pairwise_singleton _ _, ?_⟩
    intro p hp q hq
    rw [List.mem_singleton.1 hq]
    exact t.ahead p hp
  ahead p hp := by
    rcases List.mem_append.1 hp with hp | hp
    · exact (t.ahead p hp).trans hnext
    · rwa [List.mem_singleton.1 hp]
  payload := t.payload

/-- So does one that stores an option. -/
theorem Tidy.store {d : Decoder} {pos next : Nat} {offsets : List Nat} (t : Tidy inLength d pos)
    (hoff : ∀ i ∈ offsets, i < inLength) (hnext : pos < next) (o : StoredOption) :
    Tidy inLength (d.store pos offsets o) next :=
  ⟨(t.visit hoff hnext).reads, (t.visit hoff hnext).forward, (t.visit hoff hnext).ahead, t.payload⟩

/-- An error leaves nothing but the record. -/
theorem Tidy.safe_reset {d : Decoder} {pos : Nat} {offsets : List Nat} (t : Tidy inLength d pos)
    (hoff : ∀ i ∈ offsets, i < inLength) : Safe inLength (d.visit pos offsets).reset where
  reads := (t.visit hoff (Nat.lt_succ_self pos)).reads
  forward := (t.visit hoff (Nat.lt_succ_self pos)).forward
  options _ ho := by cases ho
  payload _ hp := by cases hp

/-- The value of an option begins behind its head. -/
theorem lt_valueStart (input : Nat → UInt8) (pos : Nat) : pos < valueStart input pos := by
  unfold valueStart lengthStart
  omega

/-- An end that wraps comes out before the start of its value. -/
theorem valueEnd_mod_lt (hw : 16 ≤ w) (input : Nat → UInt8) (pos : Nat)
    (hwrap : 2 ^ w ≤ valueEnd input pos) (hstart : valueStart input pos < 2 ^ w) :
    valueEnd input pos % 2 ^ w < valueStart input pos := by
  have hpow : 2 ^ 16 ≤ 2 ^ w := Nat.pow_le_pow_right (by omega) hw
  have hlen := (fieldAt input (input pos &&& 0x0F) (lengthStart input pos)).toNat_lt
  unfold valueEnd at hwrap ⊢
  rw [Nat.mod_eq_sub_mod hwrap, Nat.mod_eq_of_lt (by omega)]
  omega

/-- **Once an option beyond the input is stored**, all depends on whether the rest is rejected:
an error resets the message, and without one the option is returned. -/
theorem safe_iff_rejected (hw : 16 ≤ w) (hn : inLength < 2 ^ w) {budget pos : Nat}
    {lastNumber : UInt16} {d : Decoder} (t : Tidy inLength d pos) {o : StoredOption}
    (ho : o ∈ d.options) (hbad : inLength < o.value + o.length.toNat) :
    Safe inLength (decodeOptions w input inLength budget pos lastNumber d).2 ↔
      Rejected w input inLength budget pos := by
  -- a stored option beyond the input is never taken out again, so only a reset is safe
  have hspoilt : ∀ d' : Decoder, d'.options = d.options → ¬ Safe inLength d' := by
    intro d' hd hsafe
    have hle := hsafe.options o (by rwa [hd])
    omega
  -- on the budget, with everything else general: one pass per value of the budget
  induction budget using Nat.strong_induction_on generalizing pos lastNumber d with
  | _ budget ih =>
    rw [Rejected.eq_def]
    by_cases hpos : pos < inLength
    swap
    · rw [decodeOptions_end lastNumber d hpos]
      exact iff_of_false (hspoilt d rfl) fun h => hpos h.1
    have hcases := pass_cases hw hn input hpos
    rcases hp : pass w input inLength pos with ⟨p, offsets⟩
    rw [hp] at hcases
    cases hcases with
    | emptyMarker hmark hend =>
      rw [decodeOptions_stop lastNumber d hpos hp]
      refine iff_of_true (t.safe_reset ?_) ⟨hpos, fun _ => hend, fun hhead => absurd hmark hhead.1⟩
      simpa using hpos
    | payload hmark hend =>
      rw [decodeOptions_payload lastNumber d hpos hp]
      refine iff_of_false (hspoilt _ rfl) fun h => ?_
      have hend' := h.2.1 hmark
      omega
    | badOption hmark hhead =>
      rw [decodeOptions_stop lastNumber d hpos hp]
      refine iff_of_true (t.safe_reset ?_)
        ⟨hpos, fun h => absurd h hmark, fun h => absurd h hhead⟩
      simpa using hpos
    -- the read beyond the input has happened, whatever the code makes of it
    | overread hhead hcut hmem =>
      refine iff_of_false (not_safe_of_overread lastNumber d hpos (by rwa [hp])) fun h => ?_
      exact (h.2.2 hhead).1 hcut
    | tooShort hhead hcut hlong hoff =>
      rw [decodeOptions_stop lastNumber d hpos hp]
      refine iff_of_true (t.safe_reset hoff) ⟨hpos, fun h => absurd h hhead.1, fun _ => ⟨hcut, ?_⟩⟩
      intro hstart hend
      exact absurd hend (Nat.not_le.2 (hlong hstart))
    | option hhead hcut hstart hend hoff =>
      have hreject : ∀ P : Prop, (pos < inLength ∧ (input pos = 0xFF → pos + 1 = inLength) ∧
          (IsHead input pos → ¬ CutAtTop w input inLength pos ∧
            (valueStart input pos ≤ inLength → valueEnd input pos % 2 ^ w ≤ inLength → P))) ↔
          P := by
        intro P
        constructor
        · intro h
          exact (h.2.2 hhead).2 hstart hend
        · intro h
          exact ⟨hpos, fun h => absurd h hhead.1, fun _ => ⟨hcut, fun _ _ => h⟩⟩
      rw [hreject]
      cases budget with
      | zero =>
        rw [decodeOptions_full lastNumber d hpos hp]
        exact iff_of_true (t.safe_reset hoff) trivial
      | succ budget =>
        rw [decodeOptions_option lastNumber d hpos hp]
        dsimp only
        by_cases hforward : pos < valueEnd input pos % 2 ^ w
        · -- on to the next option; the bad one stays
          rw [and_iff_right hforward]
          refine ih budget (Nat.lt_succ_self _) (t.store hoff hforward _)
            (List.mem_append_left _ ho) ?_
          intro d' hd hsafe
          have hle := hsafe.options o (by rw [hd]; exact List.mem_append_left _ ho)
          omega
        · refine iff_of_false ?_ fun h => hforward h.1
          exact not_safe_of_back _ (show valueEnd input pos % 2 ^ w < inLength by omega)
            (List.mem_append_right _ List.mem_cons_self) (Nat.le_of_not_lt hforward)

/-- **The option loop** is safe exactly when the ends of all its values fit, or a later error
takes the bad one back. The induction is on the budget, with a pass as its step. -/
theorem safe_iff_fits (hw : 16 ≤ w) (hn : inLength < 2 ^ w) {budget pos : Nat}
    {lastNumber : UInt16} {d : Decoder} (t : Tidy inLength d pos)
    (hopts : ∀ o ∈ d.options, o.value + o.length.toNat ≤ inLength) :
    Safe inLength (decodeOptions w input inLength budget pos lastNumber d).2 ↔
      Fits w input inLength budget pos := by
  -- the induction is on the budget; `Fits` is unfolded in step with the loop
  induction budget using Nat.strong_induction_on generalizing pos lastNumber d with
  | _ budget ih =>
    rw [Fits.eq_def]
    by_cases hpos : pos < inLength
    swap
    · rw [decodeOptions_end lastNumber d hpos]
      refine iff_of_true ⟨t.reads, t.forward, hopts, ?_⟩ fun h => absurd h hpos
      rw [t.payload]
      exact fun _ h => nomatch h
    have hcases := pass_cases hw hn input hpos
    rcases hp : pass w input inLength pos with ⟨p, offsets⟩
    rw [hp] at hcases
    cases hcases with
    | emptyMarker hmark hend =>
      rw [decodeOptions_stop lastNumber d hpos hp]
      refine iff_of_true (t.safe_reset ?_) fun _ hhead => absurd hmark hhead.1
      simpa using hpos
    | payload hmark hend =>
      rw [decodeOptions_payload lastNumber d hpos hp]
      have hvisit : Tidy inLength (d.visit pos [pos]) (pos + 1) :=
        t.visit (by simpa using hpos) (Nat.lt_succ_self pos)
      refine iff_of_true ⟨hvisit.reads, hvisit.forward, hopts, ?_⟩
        fun _ hhead => absurd hmark hhead.1
      rintro _ ⟨⟩
      show pos + 1 + (inLength - (pos + 1)) ≤ inLength
      omega
    | badOption hmark hhead =>
      rw [decodeOptions_stop lastNumber d hpos hp]
      refine iff_of_true (t.safe_reset ?_) fun _ h => absurd h hhead
      simpa using hpos
    | overread hhead hcut hmem =>
      refine iff_of_false (not_safe_of_overread lastNumber d hpos (by rwa [hp])) fun h => ?_
      exact (h hpos hhead).1 hcut
    | tooShort hhead hcut hlong hoff =>
      rw [decodeOptions_stop lastNumber d hpos hp]
      refine iff_of_true (t.safe_reset hoff) fun _ _ => ⟨hcut, fun hstart => ?_⟩
      have hlong := hlong hstart
      cases budget with
      | zero => trivial
      | succ budget =>
        dsimp only
        split
        · -- an end beyond the input, and no wrap
          rename_i hlt
          rw [Nat.mod_eq_of_lt hlt] at hlong
          intro hend
          omega
        · have hlt := valueEnd_mod_lt hw input pos (by omega) (by omega)
          omega
    | option hhead hcut hstart hend hoff =>
      have hfits : ∀ P : Prop, (pos < inLength → IsHead input pos →
          ¬ CutAtTop w input inLength pos ∧ (valueStart input pos ≤ inLength → P)) ↔ P := by
        intro P
        constructor
        · intro h
          exact (h hpos hhead).2 hstart
        · intro h _ _
          exact ⟨hcut, fun _ => h⟩
      rw [hfits]
      cases budget with
      | zero =>
        rw [decodeOptions_full lastNumber d hpos hp]
        exact iff_of_true (t.safe_reset hoff) trivial
      | succ budget =>
        rw [decodeOptions_option lastNumber d hpos hp]
        dsimp only
        by_cases hlt : valueEnd input pos < 2 ^ w
        · rw [if_pos hlt]
          have hmod := Nat.mod_eq_of_lt hlt
          have hforward : pos < valueEnd input pos % 2 ^ w := by
            have := lt_valueStart input pos
            rw [hmod]
            unfold valueEnd
            omega
          rw [hmod] at hend
          rw [imp_iff_right hend, ← hmod]
          refine ih budget (Nat.lt_succ_self _) (t.store hoff hforward _) ?_
          intro o ho
          rcases List.mem_append.1 ho with ho | ho
          · exact hopts o ho
          · rw [List.mem_singleton.1 ho]
            exact hend
        · -- the option stored ends at `2 ^ w` or beyond
          rw [if_neg hlt]
          have hback := valueEnd_mod_lt hw input pos (by omega) (by omega)
          by_cases hforward : pos < valueEnd input pos % 2 ^ w
          · rw [and_iff_right hforward]
            refine safe_iff_rejected hw hn (t.store hoff hforward _)
              (List.mem_append_right _ List.mem_cons_self) ?_
            show inLength < valueEnd input pos
            omega
          · refine iff_of_false ?_ fun h => hforward h.1
            exact not_safe_of_back _ (show valueEnd input pos % 2 ^ w < inLength by omega)
              (List.mem_append_right _ List.mem_cons_self) (Nat.le_of_not_lt hforward)

/-! ## The decoder -/

/-- **Memory safety of `decode`.** For a `size_t` of at least 16 bits and every input it can
count: what is read and returned lies inside the input, and the loop goes forward, exactly when
no sum of the scan wraps. With 16 bits one length field is enough to make a sum wrap. -/
theorem decode_safe_iff (hw : 16 ≤ w) (hn : inLength < 2 ^ w) :
    Safe inLength (decode w cfg input inLength).2 ↔ InBounds w cfg input inLength := by
  have hpow : 2 ^ 16 ≤ 2 ^ w := Nat.pow_le_pow_right (by omega) hw
  -- before the option loop there is a bounded record, and nothing else
  have hrecord : ∀ (type : MessageType) (reads : List Nat), (∀ i ∈ reads, i < inLength) →
      Safe inLength { type, reads } := by
    intro type reads hreads
    exact ⟨hreads, .nil, fun _ h => (nomatch h), fun _ h => nomatch h⟩
  unfold decode
  by_cases hshort : inLength < 4
  · rw [if_pos hshort]
    exact iff_of_true (hrecord _ _ fun _ h => nomatch h) fun h => absurd h.1 (by omega)
  rw [if_neg hshort]
  dsimp only
  by_cases hversion : input 0 >>> 6 ≠ kVersion
  · rw [if_pos hversion]
    refine iff_of_true (hrecord _ _ ?_) fun h => absurd h.2.1 hversion
    simp only [List.mem_singleton]
    omega
  rw [if_neg hversion]
  by_cases htkl : (input 0 &&& 0x0F).toNat > kMaxTokenLen
  · rw [if_pos htkl]
    refine iff_of_true (hrecord _ _ ?_) fun h => absurd h.2.2.1 (by omega)
    simp only [List.mem_singleton]
    omega
  rw [if_neg htkl]
  have hsum : ∀ i ≤ (input 0 &&& 0x0F).toNat, add w 4 i = 4 + i := by
    intro i hi
    unfold kMaxTokenLen at htkl
    exact Nat.mod_eq_of_lt (by omega)
  by_cases htoken : add w 4 (input 0 &&& 0x0F).toNat > inLength
  · rw [if_pos htoken]
    rw [hsum _ le_rfl] at htoken
    refine iff_of_true (hrecord _ _ ?_) fun h => absurd h.2.2.2 (by omega)
    simp only [List.mem_cons, List.not_mem_nil, or_false]
    omega
  rw [if_neg htoken]
  rw [hsum _ le_rfl] at htoken ⊢
  have hheader : HeaderOk input inLength :=
    ⟨by omega, Decidable.not_not.1 hversion, by omega, by omega⟩
  unfold InBounds
  rw [imp_iff_right hheader]
  refine safe_iff_fits hw hn ⟨?_, .nil, fun _ h => (nomatch h), rfl⟩ fun _ h => nomatch h
  -- the header and the token
  intro i hi
  rcases List.mem_append.1 hi with hi | hi
  · simp only [List.mem_cons, List.not_mem_nil, or_false] at hi
    omega
  · obtain ⟨k, hk, rfl⟩ := List.mem_map.1 hi
    have hk := List.mem_range.1 hk
    rw [hsum k (by omega)]
    omega

/-- No sum wraps where a whole option more than the input fits a `size_t`. -/
theorem inBounds_of_short (h : inLength + 65536 ≤ 2 ^ w) : InBounds w cfg input inLength := by
  have hfits : ∀ budget pos, Fits w input inLength budget pos := by
    intro budget
    induction budget with
    | zero =>
      intro pos
      rw [Fits]
      intro hpos hhead
      exact ⟨fun hcut => absurd hcut.1 (by omega), fun _ => trivial⟩
    | succ budget ih =>
      intro pos
      rw [Fits]
      intro hpos hhead
      refine ⟨fun hcut => absurd hcut.1 (by omega), fun hstart => ?_⟩
      have hlen := (fieldAt input (input pos &&& 0x0F) (lengthStart input pos)).toNat_lt
      have hlt : valueEnd input pos < 2 ^ w := by
        unfold valueEnd
        omega
      rw [if_pos hlt]
      exact fun _ => ih _
  exact fun _ => hfits _ _

/-- The memory that holds `bytes`, and zeros behind them. -/
def memory (bytes : Bytes) (i : Nat) : UInt8 := bytes.getD i 0

theorem decode_safe_iff_get :
    Safe 5 (decode 16 .default (memory [0x40, 0x01, 0x00, 0x01, 0xB0]) 5).2 ↔
      InBounds 16 .default (memory [0x40, 0x01, 0x00, 0x01, 0xB0]) 5 :=
  decode_safe_iff (by decide) (by decide)

/-- **An option of 65533 bytes in a datagram of eight.** With a 16-bit `size_t`
the end of its value, 8 + 65533, is 5, so it passes the test, and the bytes from
5 on are accepted as one more option. -/
theorem not_decode_safe :
    ¬ ∀ w ∈ [16, 32, 64], ∀ cfg input inLength, inLength < 2 ^ w →
      Safe inLength (decode w cfg input inLength).2 := by
  intro hall
  have hsafe := hall 16 (by decide) .default (memory [0x40, 0x01, 0x00, 0x01, 0xDE, 0x02, 0xFE, 0xF0]) 8
    (by decide)
  have hle := hsafe.options ⟨15, 65533, 8⟩ (by decide +kernel)
  exact absurd hle (by decide)

end WordSize

end PulseCoap
