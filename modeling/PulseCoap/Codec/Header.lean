import PulseCoap.Codec.Stream
import PulseCoap.Uri

/-!
# PulseCoAP — the header of a datagram

The type and the message ID a datagram carries, read off its bytes, and what
`encode` puts there whatever the rest of the message is.

These are the two things that other parts of the development ask of the bytes
themselves: whether a datagram is Confirmable, and under which ID an ACK for it
comes. With them a transaction can be compared with the datagram it sends again,
without decoding either.

* `encode_ok` — an encoded message starts with its header and fits its buffer.
* `SameHeader` — options and payload are added behind an unchanged header.
-/

namespace PulseCoap

/-- The type bits of a datagram. -/
def datagramType (data : Bytes) : Option MessageType :=
  data.head?.map fun b : UInt8 => MessageType.ofBits ((b >>> 4) &&& 0x03)

/-- The message ID of a datagram. -/
def datagramId : Bytes → Option UInt16
  | _ :: _ :: hi :: lo :: _ => some ((hi.toUInt16 <<< 8) ||| lo.toUInt16)
  | _ => none

namespace Message

open BoundedWriter

variable {cfg : Config} {m m' m'' : Message}

/-! ## What `encode` writes first -/

/-- A byte is written behind what is there. -/
theorem put_extends (cap : Nat) (b : UInt8) : Extends cap (put cap b) := by
  intro out r h
  unfold put at h
  by_cases hfull : out.length ≥ cap
  · rw [if_pos hfull] at h
    cases h
  · rw [if_neg hfull] at h
    cases h
    refine ⟨List.prefix_append _ _, fun _ => ?_⟩
    rw [List.length_append, List.length_singleton]
    omega

theorem putBytes_extends (cap : Nat) (data : Bytes) : Extends cap (putBytes cap data) := by
  intro out r h
  unfold putBytes at h
  by_cases hnil : data.length = 0
  · rw [if_pos hnil] at h
    cases h
    exact ⟨List.prefix_rfl, id⟩
  rw [if_neg hnil] at h
  by_cases hfull : out.length + data.length > cap
  · rw [if_pos hfull] at h
    cases h
  · rw [if_neg hfull] at h
    cases h
    refine ⟨List.prefix_append _ _, fun _ => ?_⟩
    rw [List.length_append]
    omega

/-- The value of an option is written behind what is there. -/
theorem putOptionValue_extends (cap : Nat) (o : CoapOption) :
    Extends cap (putOptionValue cap o) := by
  intro out r h
  unfold putOptionValue at h
  by_cases hlen : o.length > 0
  · rw [if_pos hlen] at h
    cases hv : o.value with
    | none =>
      rw [hv] at h
      cases h
    | some v =>
      rw [hv] at h
      exact putBytes_extends cap _ out r h
  · rw [if_neg hlen] at h
    exact Extends.pure cap out r h

/-- So are all options, by induction over the list. -/
theorem encodeOptions_extends (cap : Nat) (os : List CoapOption) (last : UInt16) :
    Extends cap (encodeOptions cap last os) := by
  induction os generalizing last with
  | nil => exact Extends.pure cap
  | cons o os ih =>
    exact (put_extends cap _).bind ((putBytes_extends cap _).bind ((putBytes_extends cap _).bind
      ((putOptionValue_extends cap o).bind (ih o.number))))

theorem encodePayload_extends (cap : Nat) (m : Message) : Extends cap (encodePayload cap m) := by
  intro out r h
  unfold encodePayload at h
  cases hp : m.payload with
  | none =>
    rw [hp] at h
    exact Extends.pure cap out r h
  | some data =>
    rw [hp] at h
    dsimp only at h
    by_cases hlen : m.payloadLength > 0
    · rw [if_pos hlen] at h
      exact (put_extends cap _).bind (putBytes_extends cap _) out r h
    · rw [if_neg hlen] at h
      exact Extends.pure cap out r h

/-- **An encoded message** starts with its header and fits. What is looked at in a datagram
without decoding it, its type, code, message ID and token, is therefore the message's own. -/
theorem encode_ok {cap : Nat} {data : Bytes} (h : m.encode cap = .ok data) :
    m.header <+: data ∧ data.length ≤ cap := by
  by_cases hcap : cap < 4
  · rw [encode, if_pos hcap] at h
    cases h
  · -- the four bytes of the header, each in its place
    have hput : ∀ (b : UInt8) (out : Bytes), out.length < 4 → put cap b out = .ok (out ++ [b]) := by
      intro b out hlen
      rw [put, if_neg (by omega)]
    have henc : m.encode cap = (putBytes cap m.token m.header >>= fun out =>
        encodeOptions cap 0 m.options out >>= encodePayload cap m) := by
      rw [encode, if_neg hcap, hput _ _ (by simp)]
      simp only [List.nil_append]
      show (put cap _ _ >>= _) = _
      rw [hput _ _ (by simp)]
      show (put cap _ _ >>= _) = _
      rw [hput _ _ (by simp)]
      show (put cap _ _ >>= _) = _
      rw [hput _ _ (by simp)]
      rfl
    have hrest := (putBytes_extends cap m.token).bind
      ((encodeOptions_extends cap m.options 0).bind (encodePayload_extends cap m))
    obtain ⟨hpre, hlen⟩ := hrest m.header data (henc.symm.trans h)
    exact ⟨hpre, hlen (Nat.not_lt.1 hcap)⟩

/-- The type of a datagram is that of its message. -/
theorem encode_type {cap : Nat} {data : Bytes} (h : m.encode cap = .ok data)
    (htoken : m.token.length ≤ kMaxTokenLen) : datagramType data = some m.type := by
  obtain ⟨rest, rfl⟩ := (encode_ok h).1
  exact congrArg some (byte0_fields htoken).2.1

theorem encode_id {cap : Nat} {data : Bytes} (h : m.encode cap = .ok data) :
    datagramId data = some m.messageId := by
  obtain ⟨rest, rfl⟩ := (encode_ok h).1
  exact congrArg some (Word.join_split m.messageId)

/-! ## Building behind the header -/

/-- Type, code, message ID and token are those of `m`. -/
structure SameHeader (m m' : Message) : Prop where
  type      : m'.type = m.type
  code      : m'.code = m.code
  messageId : m'.messageId = m.messageId
  token     : m'.token = m.token

theorem SameHeader.refl (m : Message) : SameHeader m m := ⟨rfl, rfl, rfl, rfl⟩

theorem SameHeader.trans (h : SameHeader m m') (h' : SameHeader m' m'') : SameHeader m m'' :=
  ⟨h'.type.trans h.type, h'.code.trans h.code, h'.messageId.trans h.messageId,
    h'.token.trans h.token⟩

/-- An option is no part of the header. -/
theorem sameHeader_addOption (cfg : Config) (m : Message) (number : UInt16)
    (value : Option Bytes) (length : UInt16) :
    SameHeader m (m.addOption cfg number value length).1 := by
  unfold addOption
  split
  · exact .refl m
  · split
    · exact .refl m
    · exact ⟨rfl, rfl, rfl, rfl⟩

theorem sameHeader_addOptionUint (cfg : Config) (m : Message) (number : UInt16) (v : UInt32) :
    SameHeader m (m.addOptionUint cfg number v).1 := by
  unfold addOptionUint
  split
  · exact .refl m
  · exact sameHeader_addOption cfg m number _ _

theorem sameHeader_setPayload (m : Message) (data : Option Bytes) (length : Nat) :
    SameHeader m (m.setPayload data length) := ⟨rfl, rfl, rfl, rfl⟩

/-- A path leaves the header alone, whether it is taken or not. -/
theorem sameHeader_addUriPathOptions (cfg : Config) (m : Message) (path : Bytes) :
    SameHeader m (Uri.addUriPathOptions cfg m path).1 := by
  unfold Uri.addUriPathOptions
  generalize Uri.segments path = segments
  induction segments generalizing m with
  | nil => exact .refl m
  | cons segment rest ih =>
    have hadd := sameHeader_addOption cfg m OptionNumber.uriPath (some segment)
      (UInt16.ofNat segment.length)
    unfold Uri.addSegments
    dsimp only
    split
    · exact hadd.trans (ih _)
    · exact hadd

end Message

end PulseCoap
