import PulseCoap.Codec.Canonical
import PulseCoap.Codec.RoundTrip
import PulseCoap.Lib.Run

/-!
# PulseCoAP — the operations of a message

Every public operation of `Message`, on a message in any state. A message is
filled by `decode()` or by the mutators, and `addOption()` keeps the options in
order by a number that only it and `reset()` maintain.

The sequences are those of a program that may call anything in any order, so
nothing is assumed of the arguments: a null pointer with a length, a token
longer than its array, a number out of order. A message is a machine whose
actions are the operations and whose outputs are the messages left behind, and
"in every state" is a statement about its runs. `decode()` fills the options
itself and leaves `lastOptionNumber_` at 0; that is the step after which
`addOption()` compares with a number that is not in the message.

* `decode_resets_iff` — the one error exit of `decode()` that leaves a trace.
* `ordered_iff` — the sequences of operations that keep the options in order.
* `Descends` — the datagrams that come out of `decode()` out of order.
-/

namespace PulseCoap.Message

open OptionStream (Ascending Framed)

-- ===========================================================================
-- Operations
-- ===========================================================================

/-- A call of a public operation, with no condition on its arguments. -/
inductive Operation where
  | reset
  | setType (t : MessageType)
  | setCode (c : Code)
  | setMessageId (id : UInt16)
  | setToken (token : Bytes)
  | addOption (number : UInt16) (value : Option Bytes) (length : UInt16)
  | addOptionString (number : UInt16) (value : Option Bytes)
  | addOptionUint (number : UInt16) (value : UInt32)
  | addOptionEmpty (number : UInt16)
  | setPayload (data : Option Bytes) (length : Nat)
  | decode (input : Bytes)
deriving DecidableEq, Repr

namespace Operation

/-- The call, and whether it reports success. `decode` starts with `reset`, so nothing of the
message before it is left. -/
def run (cfg : Config) (m : Message) : Operation → Message × Bool
  | .reset => (Message.reset, true)
  | .setType t => (m.setType t, true)
  | .setCode c => (m.setCode c, true)
  | .setMessageId id => (m.setMessageId id, true)
  | .setToken token => m.setToken token
  | .addOption number value length => m.addOption cfg number value length
  | .addOptionString number value => m.addOptionString cfg number value
  | .addOptionUint number value => m.addOptionUint cfg number value
  | .addOptionEmpty number => m.addOptionEmpty cfg number
  | .setPayload data length => (m.setPayload data length, true)
  | .decode input => ((Message.decode cfg input).2, decide ((Message.decode cfg input).1 = .none))

/-- The number of the option an add call is about. -/
def adds : Operation → Option UInt16
  | .addOption number _ _ | .addOptionString number _ | .addOptionUint number _
  | .addOptionEmpty number => some number
  | _ => none

end Operation

/-- Messages under their operations; each puts out the message it has left. -/
def messages (cfg : Config) : Machine Message Operation Message where
  init := reset
  next m op := ((op.run cfg m).1, [(op.run cfg m).1])

-- ===========================================================================
-- What is left of a failed decode
-- ===========================================================================

/-- The accessors agree; the bytes behind a token length of 0 are not read. -/
structure SameAccessors (m m' : Message) : Prop where
  type          : m.type = m'.type
  code          : m.code = m'.code
  messageId     : m.messageId = m'.messageId
  tokenLength   : m.token.length = m'.token.length
  optionCount   : m.options.length = m'.options.length
  payload       : m.payload = m'.payload
  payloadLength : m.payloadLength = m'.payloadLength

theorem SameAccessors.refl (m : Message) : SameAccessors m m := ⟨rfl, rfl, rfl, rfl, rfl, rfl, rfl⟩

/-- Four bytes of the right version, with a token length of 9 to 15 and a type other than
Confirmable. -/
def ReservedLength : Bytes → Prop
  | b0 :: _ :: _ :: _ :: _ =>
    b0 >>> 6 = kVersion ∧ kMaxTokenLen < (b0 &&& 0x0F).toNat ∧ (b0 >>> 4) &&& 0x03 ≠ 0
  | _ => False

/-- Only the bits 0 are Confirmable. -/
theorem ofBits_confirmable (b : UInt8) : MessageType.ofBits b = .confirmable ↔ b = 0 := by
  unfold MessageType.ofBits
  split
  · next h => exact iff_of_true rfl h
  · next h =>
    refine iff_of_false (fun hc => ?_) h
    split at hc
    · cases hc
    · split at hc <;> cases hc

/-- Every other error exit has reset the message. -/
theorem decode_error {cfg : Config} {b : Bytes} (h : (decode cfg b).1 ≠ .none)
    (hr : ¬ ReservedLength b) : (decode cfg b).2 = reset := by
  match b, h, hr with
  | [], _, _ | [_], _, _ | [_, _], _, _ | [_, _, _], _, _ => rfl
  | b0 :: b1 :: b2 :: b3 :: rest, h, hr =>
    by_cases hv : b0 >>> 6 = kVersion
    · by_cases htkl : (b0 &&& 0x0F).toNat ≤ kMaxTokenLen
      · by_cases hrest : (b0 &&& 0x0F).toNat ≤ rest.length
        · obtain ⟨e, -, hdec⟩ := decode_eq cfg b0 b1 b2 b3 rest hv htkl hrest
          rw [hdec] at h ⊢
          split at h
          · exact absurd rfl h
          · rfl
        · rw [decode, if_neg (not_not.2 hv)]
          simp only [Nat.not_lt.2 htkl, if_false, if_pos (Nat.lt_of_not_le hrest)]
      · -- a Confirmable type is what `reset` leaves
        have hbits : (b0 >>> 4) &&& 0x03 = 0 := by
          by_contra hne
          exact hr ⟨hv, Nat.not_le.1 htkl, hne⟩
        rw [decode, if_neg (not_not.2 hv)]
        simp only [if_pos (Nat.lt_of_not_le htkl), hbits]
        rfl
    · rw [decode, if_pos hv]

/-- No error leaves options behind. -/
theorem options_of_error {cfg : Config} {b : Bytes} (h : (decode cfg b).1 ≠ .none) :
    (decode cfg b).2.options = [] := by
  by_cases hr : ReservedLength b
  · match b, hr with
    | b0 :: b1 :: b2 :: b3 :: rest, hr =>
      rw [decode, if_neg (not_not.2 hr.1)]
      simp only [if_pos hr.2.1]
      rfl
  · rw [decode_error h hr]
    rfl

/-- **What a failed `decode` leaves**: whatever the message held, its accessors then return what
they return after `reset`, unless the datagram was refused for a reserved token length after its
type, not Confirmable, had been stored. All other refusals come before the first store or go
through `reset()`. -/
theorem decode_resets_iff {cfg : Config} {b : Bytes} (h : (decode cfg b).1 ≠ .none)
    (m : Message) :
    SameAccessors ((Operation.decode b).run cfg m).1 reset ↔ ¬ ReservedLength b := by
  show SameAccessors (decode cfg b).2 reset ↔ _
  constructor
  · intro hsame hr
    match b, h, hr with
    | b0 :: b1 :: b2 :: b3 :: rest, _, hr =>
      obtain ⟨hv, htkl, hbits⟩ := hr
      have htype := hsame.type
      rw [decode, if_neg (not_not.2 hv)] at htype
      simp only [if_pos htkl] at htype
      exact hbits ((ofBits_confirmable _).1 htype)
  · intro hr
    rw [decode_error h hr]
    exact .refl _

/-- A Non-confirmable GET for `a` with a reserved delta behind it: the scan stops with the type and
an option already stored. -/
theorem decode_resets_scan :
    SameAccessors ((Operation.decode [0x50, 0x01, 0x00, 0x01, 0xB1, 0x61, 0xF1]).run .default
      { code := Code.get, messageId := 7 }).1 reset ↔
        ¬ ReservedLength [0x50, 0x01, 0x00, 0x01, 0xB1, 0x61, 0xF1] :=
  decode_resets_iff (by decide) _

/-- A Non-confirmable datagram with a token length of 9. -/
theorem not_decode_resets :
    ¬ ∀ (m : Message) (b : Bytes), (decode .default b).1 ≠ .none →
      SameAccessors ((Operation.decode b).run .default m).1 reset := by
  intro h
  have htype := (h reset [0x59, 0x01, 0x00, 0x01] (by decide)).type
  revert htype
  decide

-- ===========================================================================
-- The order of the options
-- ===========================================================================

/-- The option numbers do not decrease. -/
def Ordered (m : Message) : Prop := (m.options.map fun o => o.number.toNat).Pairwise (· ≤ ·)

instance (m : Message) : Decidable m.Ordered := inferInstanceAs (Decidable (List.Pairwise _ _))

/-- `decode` takes the datagram, and one of its option numbers goes around. -/
def Descends (cfg : Config) : Bytes → Prop
  | b0 :: _ :: _ :: _ :: rest =>
    b0.toNat / 64 = 1 ∧ b0.toNat % 16 ≤ 8 ∧ b0.toNat % 16 ≤ rest.length ∧
      Framed wrap16 cfg.maxOptions (rest.drop (b0.toNat % 16)) ∧
      ¬ Ascending 65536 cfg.maxOptions 0 (rest.drop (b0.toNat % 16))
  | _ => False

/-- If `addOption` takes an option with this number, no option has a greater one. -/
def AddsInOrder (cfg : Config) (m : Message) (number : UInt16) : Prop :=
  m.options.length < cfg.maxOptions → (m.options ≠ [] → m.lastOptionNumber ≤ number) →
    ∀ o ∈ m.options, o.number ≤ number

/-- The operation does not put an option behind one with a greater number. -/
def KeepsOrder (cfg : Config) (m : Message) : Operation → Prop
  | .decode input => ¬ Descends cfg input
  | .addOption number _ _ | .addOptionString number _ | .addOptionUint number _
  | .addOptionEmpty number => AddsInOrder cfg m number
  | _ => True

theorem ordered_nil {m : Message} (h : m.options = []) : m.Ordered := by
  unfold Ordered
  rw [h]
  exact List.Pairwise.nil

/-- The numbers of the entries that were read. -/
theorem numbers_decoded {budget last : Nat} {bs p : Bytes} {es : List OptionStream.Entry}
    (h : OptionStream.readWith wrap16 65535 budget last bs = some (es, p)) :
    (es.map ofEntry).map (fun o => o.number.toNat) = es.map Prod.fst := by
  rw [List.map_map]
  refine List.map_congr_left fun e he => ?_
  show (UInt16.ofNat e.1).toNat = e.1
  rw [ofNat_toNat16]
  have := (OptionStream.readWith_mem h e he).1
  unfold wrap16
  omega

/-- What `decode` leaves is in order unless a number of it goes around. -/
theorem ordered_decode (cfg : Config) (b : Bytes) : (decode cfg b).2.Ordered ↔ ¬ Descends cfg b := by
  -- without a whole header there are no options
  rcases b with _ | ⟨b0, _ | ⟨b1, _ | ⟨b2, _ | ⟨b3, rest⟩⟩⟩⟩
  · exact iff_of_true (ordered_nil rfl) id
  · exact iff_of_true (ordered_nil rfl) id
  · exact iff_of_true (ordered_nil rfl) id
  · exact iff_of_true (ordered_nil rfl) id
  by_cases hok : b0.toNat / 64 = 1 ∧ b0.toNat % 16 ≤ 8 ∧ b0.toNat % 16 ≤ rest.length
  · obtain ⟨e, -, hdec⟩ := decode_eq cfg b0 b1 b2 b3 rest (version_eq.2 hok.1)
      (by rw [loNibble_toNat]; exact hok.2.1) (by rw [loNibble_toNat]; exact hok.2.2)
    rw [hdec, loNibble_toNat]
    have hwrap : ∀ n, wrap16 n ≤ 65535 := fun n => by unfold wrap16; omega
    -- a number goes around in a stream that is read, and only there
    have hdescends : Descends cfg (b0 :: b1 :: b2 :: b3 :: rest) ↔
        (OptionStream.readWith wrap16 65535 cfg.maxOptions 0
            (rest.drop (b0.toNat % 16))).isSome ∧
          ¬ Ascending 65536 cfg.maxOptions 0 (rest.drop (b0.toNat % 16)) := by
      rw [OptionStream.readWith_isSome_iff hwrap, Descends]
      simp only [hok, true_and]
    rw [hdescends]
    -- a stream that is rejected leaves no options either
    cases hread : OptionStream.readWith wrap16 65535 cfg.maxOptions 0
        (rest.drop (b0.toNat % 16)) with
    | none => exact iff_of_true (ordered_nil rfl) fun h => nomatch h.1
    | some r =>
      obtain ⟨es, p⟩ := r
      have hasc := OptionStream.ascending_iff (w := 65536) hread
      unfold Ordered
      dsimp only
      rw [numbers_decoded hread, ← hasc, ← List.isChain_iff_pairwise]
      simp only [Option.isSome_some, true_and, not_not]
      cases es with
      | nil => simp
      | cons e es => simp
  · have hnone := options_of_error (decode_badHeader cfg b1 b2 b3 hok)
    exact iff_of_true (ordered_nil hnone) fun h => hok ⟨h.1, h.2.1, h.2.2.1⟩

/-- One more option is in order if none before it has a greater number. -/
theorem ordered_append {m m' : Message} {o : CoapOption} (hm : m.Ordered)
    (heq : m'.options = m.options ++ [o]) :
    m'.Ordered ↔ ∀ x ∈ m.options, x.number ≤ o.number := by
  unfold Ordered at hm ⊢
  rw [heq, List.map_append, List.pairwise_append]
  constructor
  · rintro ⟨-, -, hle⟩ x hx
    exact UInt16.le_iff_toNat_le.2
      (hle _ (List.mem_map_of_mem hx) _ (List.mem_singleton.2 rfl))
  · refine fun hle => ⟨hm, List.pairwise_singleton _ _, fun n hn k hk => ?_⟩
    obtain ⟨x, hx, rfl⟩ := List.mem_map.1 hn
    obtain rfl := List.mem_singleton.1 hk
    exact UInt16.le_iff_toNat_le.1 (hle x hx)

/-- An option keeps the order exactly when its number is not below the last. -/
theorem ordered_addOption {cfg : Config} {m : Message} (hm : m.Ordered) (number : UInt16)
    (value : Option Bytes) (length : UInt16) :
    (m.addOption cfg number value length).1.Ordered ↔ AddsInOrder cfg m number := by
  rcases addOption_cases cfg m number value length with heq | ⟨hroom, hlast, heq⟩
  · -- refused: the test it fails is one of the two
    rw [heq]
    refine iff_of_true hm fun hroom hlast => ?_
    rw [addOption, if_neg (Nat.not_le.2 hroom)] at heq
    split at heq
    · next hbelow =>
      have hne : m.options ≠ [] := List.length_pos_iff.1 hbelow.1
      have hle := UInt16.le_iff_toNat_le.1 (hlast hne)
      have hlt := UInt16.lt_iff_toNat_lt.1 hbelow.2
      omega
    · exact absurd (congrArg Prod.snd heq) (by simp)
  · rw [heq]
    refine (ordered_append hm rfl).trans ⟨fun h _ _ => h, fun h => h hroom hlast⟩

/-- What one operation makes of options in order. -/
theorem ordered_run {cfg : Config} {m : Message} (hm : m.Ordered) (op : Operation) :
    (op.run cfg m).1.Ordered ↔ KeepsOrder cfg m op := by
  cases op with
  | reset => exact iff_of_true (ordered_nil rfl) trivial
  | setType | setCode | setMessageId | setPayload => exact iff_of_true hm trivial
  | setToken token =>
    have hopts : (m.setToken token).1.options = m.options := by
      unfold setToken
      split <;> rfl
    show (m.setToken token).1.Ordered ↔ True
    unfold Ordered
    rw [hopts]
    exact iff_of_true hm trivial
  | addOption number value length => exact ordered_addOption hm number value length
  | addOptionString number value => exact ordered_addOption hm number _ _
  | addOptionUint number value =>
    show (m.addOptionUint cfg number value).1.Ordered ↔ _
    rw [addOptionUint_eq]
    exact ordered_addOption hm number _ _
  | addOptionEmpty number => exact ordered_addOption hm number _ _
  | decode input => exact ordered_decode cfg input

/-- The table never holds more options than it has room for. -/
theorem optionCount_run {cfg : Config} {m : Message} (hm : m.options.length ≤ cfg.maxOptions)
    (op : Operation) : (op.run cfg m).1.options.length ≤ cfg.maxOptions := by
  have hadd : ∀ number value length,
      (m.addOption cfg number value length).1.options.length ≤ cfg.maxOptions := by
    intro number value length
    rcases addOption_cases cfg m number value length with heq | ⟨hroom, -, heq⟩ <;> rw [heq]
    · exact hm
    · show (m.options ++ [_]).length ≤ _
      rw [List.length_append]
      exact hroom
  cases op with
  | reset => exact Nat.zero_le _
  | setType | setCode | setMessageId | setPayload => exact hm
  | setToken token =>
    show (m.setToken token).1.options.length ≤ _
    unfold setToken
    split <;> exact hm
  | addOption | addOptionString | addOptionEmpty => exact hadd ..
  | addOptionUint number value =>
    show (m.addOptionUint cfg number value).1.options.length ≤ _
    rw [addOptionUint_eq]
    exact hadd ..
  | decode input =>
    -- `decode` has its own count, as the budget of the reader
    show (decode cfg input).2.options.length ≤ _
    cases hdec : decode cfg input with
    | mk e m' =>
      by_cases he : e = .none
      · subst he
        obtain ⟨_, _, _, _, _, es, p, -, -, -, -, hread, rfl⟩ := decode_inv hdec
        show (es.map ofEntry).length ≤ _
        rw [List.length_map]
        exact OptionStream.readWith_length hread
      · have hnone := @options_of_error cfg input (by rw [hdec]; exact he)
        rw [hdec] at hnone
        rw [hnone]
        exact Nat.zero_le _

/-- Without room for options none is found. -/
theorem findOption_noRoom {cfg : Config} (hnone : cfg.maxOptions = 0) (data : Bytes)
    (number : UInt16) : (decode cfg data).2.findOption number = none := by
  have hlen : (decode cfg data).2.options.length ≤ cfg.maxOptions :=
    @optionCount_run cfg reset (Nat.zero_le _) (.decode data)
  have hnil : (decode cfg data).2.options = [] :=
    List.eq_nil_of_length_eq_zero (Nat.le_zero.1 (hnone ▸ hlen))
  unfold findOption
  rw [hnil]
  rfl

/-- A refused add call has changed nothing. -/
theorem run_refused {cfg : Config} {m : Message} {op : Operation} (hadd : op.adds.isSome)
    (h : (op.run cfg m).2 = false) : (op.run cfg m).1 = m := by
  have hrefused : ∀ number value length, (m.addOption cfg number value length).2 = false →
      (m.addOption cfg number value length).1 = m := by
    intro number value length hfalse
    rcases addOption_cases cfg m number value length with heq | ⟨-, -, heq⟩
    · rw [heq]
    · rw [heq] at hfalse
      cases hfalse
  cases op with
  | addOption | addOptionString | addOptionEmpty => exact hrefused _ _ _ h
  | addOptionUint number value =>
    have h' : (m.addOptionUint cfg number value).2 = false := h
    show (m.addOptionUint cfg number value).1 = m
    rw [addOptionUint_eq] at h' ⊢
    exact hrefused _ _ _ h'
  | _ => cases hadd

/-- **Where the options stay in order**: in the sequences of operations, and only in these, that
put no option behind a greater number, be it in one datagram or by an add call after a `decode`.
The table is never overfilled, and a refused add call changes nothing; these two need no
condition. -/
theorem ordered_iff (cfg : Config) (ops : List Operation) :
    ((∀ m ∈ ((messages cfg).exec [] reset ops).1, Ordered m) ↔
      (messages cfg).Meets (KeepsOrder cfg) reset ops) ∧
    (∀ m ∈ ((messages cfg).exec [] reset ops).1, m.options.length ≤ cfg.maxOptions) ∧
    ∀ (m : Message) (op : Operation), op.adds.isSome → (op.run cfg m).2 = false →
      (op.run cfg m).1 = m := by
  refine ⟨?_, ?_, fun m op hadd h => run_refused hadd h⟩
  · have h := (messages cfg).exec_forall_iff (I := Ordered) (P := KeepsOrder cfg)
      (fun m op hm hkeeps => (ordered_run hm op).2 hkeeps)
      (fun m op hm => List.forall_mem_singleton.trans (ordered_run hm op)) ops [] reset
      (ordered_nil rfl)
    exact h.trans (and_iff_right fun _ h => nomatch h)
  · have h := (messages cfg).exec_forall_iff (P := fun _ _ => True)
      (Q := fun m => m.options.length ≤ cfg.maxOptions)
      (I := fun m => m.options.length ≤ cfg.maxOptions)
      (fun m op hm _ => optionCount_run hm op)
      (fun m op hm => List.forall_mem_singleton.trans (iff_true_intro (optionCount_run hm op)))
      ops [] reset (Nat.zero_le _)
    exact h.2 ⟨(fun _ h => nomatch h), Machine.meets_of_forall (fun _ _ => trivial) _ _⟩

/-- After a GET of `/a` has been decoded, option 5 is added behind option 11. -/
theorem not_ordered :
    ¬ ∀ ops, ∀ m ∈ ((messages .default).exec [] reset ops).1, Ordered m := by
  intro h
  have hadded := h [.decode [0x40, 0x01, 0x00, 0x01, 0xB1, 0x61], .addOptionEmpty 5]
  revert hadded
  decide

end PulseCoap.Message
