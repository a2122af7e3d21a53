import PulseCoap.Client.Spec
import PulseCoap.Exchange.Client
import PulseCoap.Exchange.Block

/-!
# PulseCoAP — the options of a request

The builders of the client do not look at what `addOptionUint` returns. An option
that finds the table full is left out, and the datagram goes out without it: a `put`
without its Content-Format, a block of an upload without its Block1 option. A block
number from 2^20 on makes an option no receiver takes for a Block option, and a path
that was too long for its slot is the empty path when the next block is requested.

`Wanted` is an option the caller means, `ReadAs` what a receiver has to find for it,
and `Faithful` a datagram with exactly the wanted options.

The builders are followed option by option: each `addOption` either puts the next
wanted option behind those before it or is refused because the table is full, and
the numbers they use ascend. What arrives is computed from the list that results,
through `encode` and `decode`, so `Faithful` speaks of the datagram and not of the
message it was encoded from. That a call which fails sends nothing is part of the
same result, as is that one which returns true has sent its datagram.

* `Lists` — what the builders build: the wanted options, as far as there is room.
* `Lists.faithful_iff` — when such a message is faithful.
* `options_iff` — for every call and every block: true is returned exactly when a
  datagram was sent, and what was sent is faithful exactly when the wanted options
  fit, and for a further block of a response when the stored path is still the path
  of the call.
* `not_faithful` — sixteen segments leave no room for the format of the payload.
-/

namespace PulseCoap

variable {cfg : Config}

-- ===========================================================================
-- What the caller wants
-- ===========================================================================

/-- An option that is meant to be in a request. -/
inductive Wanted where
  | observe (value : UInt32)
  | segment (bytes : Bytes)
  | contentFormat (format : ContentFormat)
  | block (number : UInt16) (block : BlockOption)
deriving DecidableEq, Repr

namespace Wanted

def number : Wanted → UInt16
  | observe _ => OptionNumber.observe
  | segment _ => OptionNumber.uriPath
  | contentFormat _ => OptionNumber.contentFormat
  | block number _ => number

/-- A receiver finds it in this option. -/
def ReadAs (w : Wanted) (o : CoapOption) : Prop :=
  o.number = w.number ∧
    match w with
    | observe v => Message.optionAsUint o = v
    | segment seg => o.bytes = seg
    | contentFormat f => Message.optionAsUint o = f.raw.toUInt32
    | block _ b => BlockOption.fromOption o = some b

/-- It has a wire form: a segment whose length fits the length field, a block number of
twenty bits and a size exponent of three. -/
def Encodable : Wanted → Prop
  | segment seg => seg.length < 2 ^ 16
  | block _ b => b.num.toNat < 2 ^ 20 ∧ b.szx.toNat < 8
  | observe _ | contentFormat _ => True

instance : ∀ w : Wanted, Decidable w.Encodable
  | segment _ => inferInstanceAs (Decidable (_ < _))
  | block _ _ => inferInstanceAs (Decidable (_ ∧ _))
  | observe _ | contentFormat _ => .isTrue trivial

/-- The entry the builders make of it. -/
def entry : Wanted → Nat × Bytes
  | observe v => (OptionNumber.observe.toNat, Message.uintBytes v)
  | segment seg => Message.entry (Uri.segmentOption seg)
  | contentFormat f => (OptionNumber.contentFormat.toNat, Message.uintBytes f.raw.toUInt32)
  | block number b => (number.toNat, Message.uintBytes (BlockOption.toOptionValue b.num b.m b.szx))

/-- The entry of a wanted option has its number. -/
theorem entry_number (w : Wanted) : w.entry.1 = w.number.toNat := by
  cases w <;> rfl

end Wanted

/-- The segments of a path. -/
def Wanted.path (path : Bytes) : List Wanted := (Uri.segments path).map .segment

/-- The wanted options have their place: in the table of the message, and each on the wire. -/
def Fit (cfg : Config) (wanted : List Wanted) : Prop :=
  wanted.length ≤ cfg.maxOptions ∧ ∀ w ∈ wanted, w.Encodable

instance (cfg : Config) (wanted : List Wanted) : Decidable (Fit cfg wanted) :=
  inferInstanceAs (Decidable (_ ∧ _))

/-- The datagram decodes to a message with exactly these options. -/
def Faithful (cfg : Config) (wanted : List Wanted) (data : Bytes) : Prop :=
  ∃ msg, Message.decode cfg data = (.none, msg) ∧
    List.Forall₂ Wanted.ReadAs wanted msg.options

/-- A faithful datagram has as many options as were wanted. -/
theorem Faithful.length {wanted : List Wanted} {data : Bytes} (h : Faithful cfg wanted data) :
    wanted.length = (Message.decode cfg data).2.options.length := by
  obtain ⟨msg, hdec, hread⟩ := h
  rw [hdec]
  exact hread.length_eq

-- ===========================================================================
-- One option on the wire
-- ===========================================================================

/-- A segment is cut to what a length of 16 bits can say. -/
theorem Uri.segmentOption_short (seg : Bytes) : (Uri.segmentOption seg).bytes.length < 2 ^ 16 := by
  rw [Message.bytes_length (Uri.readable_segment seg)]
  exact (Uri.segmentOption seg).length.toNat_lt

/-- **What is read back is what was wanted**, exactly when it has a wire form. A value of 2^16
bytes has none, nor has a block number of more than twenty bits or a size exponent of more than
three. -/
theorem Wanted.readAs_iff (w : Wanted) : w.ReadAs (Message.ofEntry w.entry) ↔ w.Encodable := by
  cases w with
  | observe v =>
    have ho := Message.uintOption_entry OptionNumber.observe v
    exact iff_of_true ⟨ho.number, ho.value⟩ trivial
  | contentFormat f =>
    have ho := Message.uintOption_entry OptionNumber.contentFormat f.raw.toUInt32
    exact iff_of_true ⟨ho.number, ho.value⟩ trivial
  | segment seg =>
    obtain ⟨hnum, -, hbytes⟩ := Message.entry_ofEntry (Uri.readable_segment seg)
    constructor
    · rintro ⟨-, h⟩
      -- the option has fewer than 2^16 bytes
      have hseg : (Uri.segmentOption seg).bytes = seg := hbytes.symm.trans h
      have hshort := Uri.segmentOption_short seg
      rwa [hseg] at hshort
    · intro h
      exact ⟨hnum, hbytes.trans (Uri.segmentOption_bytes h).2⟩
  | block number b =>
    have ho := Message.uintOption_entry number (BlockOption.toOptionValue b.num b.m b.szx)
    constructor
    · rintro ⟨-, h⟩
      refine ⟨BlockOption.fromOption_num h, ?_⟩
      rw [BlockOption.fromOption_szx h]
      omega
    · rintro ⟨hnum, hszx⟩
      exact ⟨ho.number, BlockOption.fromOption_uint ho hnum hszx⟩

-- ===========================================================================
-- The message of a request
-- ===========================================================================

/-- A message whose options are the wanted ones, as far as there is room for them. -/
structure Lists (cfg : Config) (m : Message) (wanted : List Wanted) : Prop where
  built   : Message.Built cfg m
  options : m.options.map Message.entry = (wanted.map Wanted.entry).take cfg.maxOptions

namespace Lists

variable {m : Message} {wanted : List Wanted}

/-- As many options as there is room for are in the message. -/
theorem length (h : Lists cfg m wanted) : m.options.length = min cfg.maxOptions wanted.length := by
  simpa using congrArg List.length h.options

/-- No option has a number the wanted ones do not have. -/
theorem number_le (h : Lists cfg m wanted) {number : UInt16}
    (hle : ∀ w ∈ wanted, w.number ≤ number) : ∀ o ∈ m.options, o.number ≤ number := by
  intro o ho
  have hmem : Message.entry o ∈ m.options.map Message.entry := List.mem_map_of_mem ho
  rw [h.options] at hmem
  obtain ⟨w, hw, heq⟩ := List.mem_map.1 (List.mem_of_mem_take hmem)
  have hnum : w.number.toNat = o.number.toNat := by
    rw [← w.entry_number, heq]
    rfl
  exact UInt16.toNat_inj.1 hnum ▸ hle w hw

/-- What found room is listed behind the others. -/
theorem grow {m' : Message} (h : Lists cfg m wanted) (hm' : Message.Built cfg m')
    {opts : List CoapOption} {more : List Wanted} (hopts : m'.options = m.options ++ opts)
    (hentry : opts.map Message.entry = more.map Wanted.entry) : Lists cfg m' (wanted ++ more) := by
  by_cases hnil : more = []
  · subst hnil
    obtain rfl : opts = [] := by simpa using hentry
    rw [List.append_nil] at hopts ⊢
    exact ⟨hm', by rw [hopts, h.options]⟩
  · have hroom := hm'.room
    have hlen := h.length
    have hcount : opts.length = more.length := by simpa using congrArg List.length hentry
    have hpos := List.length_pos_iff.2 hnil
    rw [hopts, List.length_append] at hroom
    refine ⟨hm', ?_⟩
    rw [hopts, List.map_append, h.options, hentry, List.map_append, List.take_of_length_le,
      List.take_of_length_le]
    all_goals simp only [List.length_append, List.length_map]; omega

/-- An integer option in ascending order is left out only by a full table. -/
theorem addUint (h : Lists cfg m wanted) (w : Wanted) {v : UInt32}
    (hw : w.entry = (w.number.toNat, Message.uintBytes v))
    (hle : ∀ x ∈ wanted, x.number ≤ w.number) :
    Lists cfg (m.addOptionUint cfg w.number v).1 (wanted ++ [w]) := by
  refine ⟨h.built.run (.addOptionUint w.number v), ?_⟩
  rw [Message.addOptionUint_entries h.built (h.number_le hle), h.options,
    Message.take_append_take, List.map_append, List.map_singleton, hw]

/-- All segments of a path find room, or the request is given up. -/
theorem addPath (h : Lists cfg m wanted) {path : Bytes}
    (hok : (Uri.addUriPathOptions cfg m path).2 = true) :
    Lists cfg (Uri.addUriPathOptions cfg m path).1 (wanted ++ Wanted.path path) := by
  have hsegs := Uri.addSegments_eq (Uri.segments path) m hok
  have hopts : (Uri.addUriPathOptions cfg m path).1.options =
      m.options ++ (Uri.segments path).map Uri.segmentOption := congrArg Message.options hsegs
  refine h.grow (Uri.addSegments_built (Uri.segments path) h.built) hopts ?_
  rw [Wanted.path, List.map_map, List.map_map]
  rfl

/-- A payload is none of the options. -/
theorem setPayload (h : Lists cfg m wanted) {data : Bytes} {n : Nat} (hn : n ≤ data.length) :
    Lists cfg (m.setPayload (some data) n) wanted :=
  ⟨h.built.run (.setPayload (some data) n fun b hb => by rwa [← Option.some.inj hb]), h.options⟩

/-- The four lines every request starts with list nothing. -/
theorem opened (cfg : Config) (type : MessageType) (messageId : UInt16) (token : Bytes)
    (code : Code) : Lists cfg (opened type messageId token code) [] := by
  refine ⟨((((Message.built_reset cfg).run (.setType type)).run (.setMessageId messageId)).run
    (.setToken token)).run (.setCode code), ?_⟩
  have hnil : (PulseCoap.opened type messageId token code).options = [] := by
    unfold PulseCoap.opened Message.setToken
    split <;> rfl
  rw [hnil]
  simp

/-- The options a receiver finds. -/
theorem decoded (h : Lists cfg m wanted) : ∃ msg, Message.decode cfg m.wire = (.none, msg) ∧
    msg.options = (wanted.take cfg.maxOptions).map fun w => Message.ofEntry w.entry := by
  refine ⟨_, Message.decode_wire h.built.toWellFormed, ?_⟩
  have hentries := congrArg (List.map Message.ofEntry) h.options
  rw [List.map_map, List.map_take, List.map_map] at hentries
  rw [List.map_take]
  exact hentries

/-- **A request is faithful** exactly when the wanted options have their place. The add calls of
the source refuse only for want of room, and the message lists what they did not refuse. -/
theorem faithful_iff (h : Lists cfg m wanted) : Faithful cfg wanted m.wire ↔ Fit cfg wanted := by
  obtain ⟨msg, hdec, hopts⟩ := h.decoded
  have hall : ∀ l : List Wanted,
      List.Forall₂ Wanted.ReadAs l (l.map fun w => Message.ofEntry w.entry) ↔
        ∀ w ∈ l, w.Encodable := by
    intro l
    rw [List.forall₂_map_right_iff, List.forall₂_same]
    exact forall₂_congr fun w _ => w.readAs_iff
  constructor
  · rintro ⟨msg', hdec', hread⟩
    obtain rfl : msg = msg' := congrArg Prod.snd (hdec.symm.trans hdec')
    rw [hopts] at hread
    have hlen := hread.length_eq
    rw [List.length_map, List.length_take] at hlen
    have hfits : wanted.length ≤ cfg.maxOptions := by omega
    rw [List.take_of_length_le hfits] at hread
    exact ⟨hfits, (hall wanted).1 hread⟩
  · rintro ⟨hfits, henc⟩
    refine ⟨msg, hdec, ?_⟩
    rw [hopts, List.take_of_length_le hfits]
    exact (hall wanted).2 henc

/-- A datagram the client sends is the wire form of its message. -/
theorem transmit_faithful {req : Option Message} {sendOk : Bool} {data : Bytes}
    (hsent : Client.transmit cfg req sendOk = some data) (h : ∀ m, req = some m → Lists cfg m wanted) :
    Faithful cfg wanted data ↔ Fit cfg wanted := by
  obtain ⟨m, hm, henc⟩ := Client.transmit_some hsent
  obtain rfl := Client.encode_wire (h m hm).built henc
  exact (h m hm).faithful_iff

end Lists

-- ===========================================================================
-- The three kinds of request
-- ===========================================================================

namespace Client

/-- What `sendRequest` is meant to send: Observe when it registers or deregisters, the path,
and the format of a payload. -/
def requestWanted (observe : Option UInt32) (path payload : Bytes) (contentFormat : ContentFormat) :
    List Wanted :=
  observe.toList.map .observe ++ Wanted.path path ++
    if payload.length > 0 then [.contentFormat contentFormat] else []

/-- What a block of an upload is meant to have. -/
def blockWanted (up : Block1UploadState) : List Wanted :=
  Wanted.path up.path ++ [.contentFormat up.contentFormat] ++
    [.block OptionNumber.block1 { num := up.nextNum, m := moreAfter up, szx := up.szx }]

/-- What the request for the next block of a response is meant to have, in a call to `path`. -/
def nextWanted (path : Bytes) (recv : Block2RecvState) : List Wanted :=
  Wanted.path path ++
    [.block OptionNumber.block2 { num := recv.nextNum, m := false, szx := recv.szx }]

/-- The numbers of a path's options. -/
theorem path_number {path : Bytes} {w : Wanted} (h : w ∈ Wanted.path path) :
    w.number = OptionNumber.uriPath := by
  obtain ⟨seg, -, rfl⟩ := List.mem_map.1 h
  rfl

/-- From the path on. -/
theorem lists_body {m₀ m : Message} {wanted : List Wanted} {path payload : Bytes}
    {contentFormat : ContentFormat} (h₀ : Lists cfg m₀ wanted)
    (hle : ∀ w ∈ wanted, w.number ≤ OptionNumber.contentFormat)
    (h : (if !(Uri.addUriPathOptions cfg m₀ path).2 then none
      else if payload.length > 0 then
        some (((Uri.addUriPathOptions cfg m₀ path).1.addOptionUint cfg OptionNumber.contentFormat
          contentFormat.raw.toUInt32).1.setPayload (some payload) payload.length)
      else some (Uri.addUriPathOptions cfg m₀ path).1) = some m) :
    Lists cfg m (wanted ++ Wanted.path path ++
      if payload.length > 0 then [.contentFormat contentFormat] else []) := by
  split at h
  · cases h
  rename_i hpath
  have hlist := h₀.addPath (show (Uri.addUriPathOptions cfg m₀ path).2 = true by simpa using hpath)
  by_cases hpayload : payload.length > 0
  · rw [if_pos hpayload] at h ⊢
    obtain rfl := Option.some.inj h
    refine (hlist.addUint (.contentFormat contentFormat) rfl fun w hw => ?_).setPayload le_rfl
    rcases List.mem_append.1 hw with hw | hw
    · exact hle w hw
    · rw [path_number hw]
      exact (by decide : OptionNumber.uriPath ≤ OptionNumber.contentFormat)
  · rw [if_neg hpayload] at h ⊢
    obtain rfl := Option.some.inj h
    rwa [List.append_nil]

/-- **A request** lists the options that were asked for, as far as there is room. Only a
Uri-Path option without a place makes `sendRequest` give up. -/
theorem lists_request {type : MessageType} {messageId : UInt16} {token : Bytes} {method : Code}
    {observe : Option UInt32} {path payload : Bytes} {contentFormat : ContentFormat} {m : Message}
    (h : buildRequest cfg type messageId token method observe path payload contentFormat =
      some m) : Lists cfg m (requestWanted observe path payload contentFormat) := by
  have hstart := Lists.opened cfg type messageId token method
  cases observe with
  | none => exact lists_body hstart (fun _ hw => absurd hw List.not_mem_nil) h
  | some v =>
    refine lists_body (hstart.addUint (.observe v) rfl fun _ hw => absurd hw List.not_mem_nil)
      (fun w hw => ?_) h
    rw [List.mem_singleton.1 hw]
    exact (by decide : OptionNumber.observe ≤ OptionNumber.contentFormat)

/-- A block of an upload, with its Block1 option. -/
theorem lists_block1 {up : Block1UploadState} {messageId : UInt16} {m : Message}
    (h : buildBlock1 cfg up messageId = some m) : Lists cfg m (blockWanted up) := by
  unfold buildBlock1 at h
  dsimp only at h
  split at h
  · cases h
  rename_i hpath
  obtain rfl := Option.some.inj h
  have hlist := (Lists.opened cfg .confirmable messageId [up.token] up.method).addPath
    (show (Uri.addUriPathOptions cfg _ up.path).2 = true by simpa [opened] using hpath)
  have hformat := hlist.addUint (.contentFormat up.contentFormat) rfl fun w hw => by
    rw [path_number hw]
    exact (by decide : OptionNumber.uriPath ≤ OptionNumber.contentFormat)
  have hblock := hformat.addUint
    (.block OptionNumber.block1 { num := up.nextNum, m := moreAfter up, szx := up.szx }) rfl
    fun w hw => by
      rcases List.mem_append.1 hw with hw | hw
      · rw [path_number hw]
        exact (by decide : OptionNumber.uriPath ≤ OptionNumber.block1)
      · rw [List.mem_singleton.1 hw]
        exact (by decide : OptionNumber.contentFormat ≤ OptionNumber.block1)
  refine hblock.setPayload ?_
  rw [List.length_drop]
  split <;> omega

/-- The request for a further block, with its Block2 option; here the path must fit. -/
theorem lists_block2 {recv : Block2RecvState} {token : Bytes} {messageId : UInt16} {m : Message}
    (h : buildBlock2 cfg recv token messageId = some m) :
    Lists cfg m (nextWanted recv.path recv) ∧ (Uri.segments recv.path).length ≤ cfg.maxOptions := by
  unfold buildBlock2 at h
  dsimp only at h
  split at h
  · cases h
  rename_i hpath
  obtain rfl := Option.some.inj h
  have hok : (Uri.addUriPathOptions cfg (opened .confirmable messageId token Code.get)
      recv.path).2 = true := by simpa [opened] using hpath
  have hlist := (Lists.opened cfg .confirmable messageId token Code.get).addPath hok
  have hopts := congrArg Message.options (Uri.addSegments_eq (Uri.segments recv.path) _ hok)
  change (Uri.addUriPathOptions cfg _ recv.path).1.options = _ ++ _ at hopts
  refine ⟨hlist.addUint (.block OptionNumber.block2
    { num := recv.nextNum, m := false, szx := recv.szx }) rfl fun w hw => ?_, ?_⟩
  · rw [path_number hw]
    exact (by decide : OptionNumber.uriPath ≤ OptionNumber.block2)
  · have hroom := hlist.built.room
    rw [hopts, List.length_append, List.length_map] at hroom
    omega

-- ===========================================================================
-- The path of a further block
-- ===========================================================================

/-- The bytes of a segment that are on the wire: its length is cut to sixteen bits. -/
def onWire (seg : Bytes) : Bytes := (Uri.segmentOption seg).bytes

/-- A segment below 2^16 bytes goes out as it is. -/
theorem onWire_short {seg : Bytes} (h : seg.length < 2 ^ 16) : onWire seg = seg :=
  (Uri.segmentOption_bytes h).2

/-- A segment and what is on the wire of it make the same option. -/
theorem entry_onWire (seg : Bytes) :
    Message.entry (Uri.segmentOption (onWire seg)) = Message.entry (Uri.segmentOption seg) :=
  congrArg (Prod.mk _) (onWire_short (Uri.segmentOption_short seg))

/-- The path a receiver reads where it finds the segments of `path` and another option. -/
theorem readAs_path {opts : List CoapOption} {path : Bytes} {w : Wanted}
    (hw : w.number ≠ OptionNumber.uriPath)
    (h : List.Forall₂ Wanted.ReadAs (Wanted.path path ++ [w]) opts) :
    Uri.uriPathValues opts = Uri.segments path := by
  unfold Wanted.path at h
  generalize Uri.segments path = segs at h ⊢
  induction segs generalizing opts with
  | nil =>
    obtain ⟨o, opts', hread, htail, rfl⟩ := List.forall₂_cons_left_iff.1 h
    obtain rfl := List.forall₂_nil_left_iff.1 htail
    rw [Uri.uriPathValues_cons, if_neg (by rwa [hread.1])]
    rfl
  | cons seg segs ih =>
    obtain ⟨o, opts', hread, htail, rfl⟩ := List.forall₂_cons_left_iff.1 h
    have hnum : o.number = OptionNumber.uriPath := hread.1
    rw [Uri.uriPathValues_cons, if_pos hnum, ih htail, hread.2]

/-- The path a receiver reads in a request with these options. -/
theorem uriPathValues_path (segs : List Bytes) :
    Uri.uriPathValues ((segs.map Wanted.segment).map fun w => Message.ofEntry w.entry) =
      segs.map onWire := by
  induction segs with
  | nil => rfl
  | cons seg segs ih =>
    obtain ⟨hnum, -, hbytes⟩ := Message.entry_ofEntry (Uri.readable_segment seg)
    have hpath : (Message.ofEntry (Wanted.segment seg).entry).number = OptionNumber.uriPath := hnum
    rw [List.map_cons, List.map_cons, Uri.uriPathValues_cons, if_pos hpath, ih, List.map_cons]
    exact congrArg (· :: _) hbytes

/-- **The request for a further block** is faithful to the call to `path` exactly when the
wanted options fit and the stored path is on the wire what `path` is. The stored path is empty
for a path that is too long to store. -/
theorem next_faithful_iff {recv : Block2RecvState} {token : Bytes} {messageId : UInt16}
    {sendOk : Bool} {data : Bytes}
    (hsent : transmit cfg (buildBlock2 cfg recv token messageId) sendOk = some data)
    (path : Bytes) : Faithful cfg (nextWanted path recv) data ↔
      Fit cfg (nextWanted path recv) ∧
        (Uri.segments recv.path).map onWire = Uri.segments path := by
  obtain ⟨m, hm, henc⟩ := transmit_some hsent
  obtain ⟨hlist, hroom⟩ := lists_block2 hm
  obtain rfl := encode_wire hlist.built henc
  -- with the path of the call on the wire, the message lists what is wanted
  have hsame : (Uri.segments recv.path).map onWire = Uri.segments path →
      Lists cfg m (nextWanted path recv) := by
    intro hpath
    have hentries : (Wanted.path path).map Wanted.entry =
        (Wanted.path recv.path).map Wanted.entry := by
      unfold Wanted.path
      rw [← hpath, List.map_map, List.map_map, List.map_map]
      exact List.map_congr_left fun seg _ => entry_onWire seg
    refine ⟨hlist.built, ?_⟩
    rw [hlist.options]
    unfold nextWanted
    rw [List.map_append, List.map_append, hentries]
  constructor
  · intro hfaithful
    have hpath : (Uri.segments recv.path).map onWire = Uri.segments path := by
      obtain ⟨msg, hdec, hread⟩ := hfaithful
      obtain ⟨msg', hdec', hopts⟩ := hlist.decoded
      obtain rfl : msg = msg' := congrArg Prod.snd (hdec.symm.trans hdec')
      have hblock : (Wanted.block OptionNumber.block2
          { num := recv.nextNum, m := false, szx := recv.szx }).number ≠ OptionNumber.uriPath :=
        (by decide : OptionNumber.block2 ≠ OptionNumber.uriPath)
      rw [← readAs_path hblock hread, hopts]
      unfold nextWanted Wanted.path
      rw [List.take_append, List.take_of_length_le (by rwa [List.length_map]), List.map_append,
        Uri.uriPathValues_append, uriPathValues_path, Uri.uriPathValues_others, List.append_nil]
      -- behind the path there is no further segment
      intro o ho
      obtain ⟨w, hw, rfl⟩ := List.mem_map.1 ho
      obtain rfl := List.mem_singleton.1 (List.mem_of_mem_take hw)
      exact hblock
    exact ⟨(hsame hpath).faithful_iff.1 hfaithful, hpath⟩
  · rintro ⟨hfit, hpath⟩
    exact (hsame hpath).faithful_iff.2 hfit

-- ===========================================================================
-- Calls
-- ===========================================================================

/-- What the first datagram of a call is meant to have. `put` and `post` send a payload of more
than one block as an upload, which starts with block 0. -/
def RequestArgs.wanted (cfg : Config) (a : RequestArgs) : List Wanted :=
  requestWanted a.observe a.path a.payload a.contentFormat ++
    if a.blockwise cfg then
      [.block OptionNumber.block1 { num := 0, m := true, szx := cfg.blockSzx }]
    else []

def ClientCall.wanted (cfg : Config) (call : ClientCall) : List Wanted :=
  match call.shape with
  | .issue a => a.wanted cfg
  | .cancel _ path => requestWanted (some kObserveDeregister) path [] .textPlain
  | .discover _ _ _ => Wanted.path Uri.wellKnownCore
  | .handler _ => []

/-- The call is for a request: all but `setTimeoutHandler`, which stores a pointer. -/
def ClientCall.asks : ClientCall → Bool
  | .setTimeoutHandler _ => false
  | .get .. | .put .. | .post .. | .del .. | .observe .. | .cancelObserve .. | .discover .. => true

/-- What a call returns tells whether it has sent a datagram. -/
def Tells (r : Bool × List ClientEvent) : Prop := r.1 = true ↔ ∃ dest data, .sent dest data ∈ r.2

/-- A call that fails has sent nothing, one that does not has sent a datagram, and that has
exactly the wanted options if and only if they fit. -/
structure Answers (cfg : Config) (wanted : List Wanted) (r : Bool × List ClientEvent) : Prop where
  tells    : Tells r
  faithful : ∀ dest data, .sent dest data ∈ r.2 → (Faithful cfg wanted data ↔ Fit cfg wanted)

/-- Failing without a datagram. -/
theorem tells_nil : Tells (false, []) := by
  refine iff_of_false Bool.false_ne_true ?_
  rintro ⟨dest, data, h⟩
  exact absurd h List.not_mem_nil

theorem answers_nil (cfg : Config) (wanted : List Wanted) : Answers cfg wanted (false, []) :=
  ⟨tells_nil, fun _ _ h => absurd h List.not_mem_nil⟩

/-- Sending the one datagram, with more to note or not. -/
theorem tells_sent (dest : Endpoint) (data : Bytes) (rest : List ClientEvent) :
    Tells (true, .sent dest data :: rest) :=
  iff_of_true rfl ⟨dest, data, List.mem_cons_self⟩

/-- A call that succeeds, with the datagram it has sent. -/
theorem answers_sent {wanted : List Wanted} {dest : Endpoint} {data : Bytes}
    {rest : List ClientEvent} (hrest : ∀ dest' data', .sent dest' data' ∉ rest)
    (h : Faithful cfg wanted data ↔ Fit cfg wanted) :
    Answers cfg wanted (true, .sent dest data :: rest) := by
  refine ⟨tells_sent dest data rest, fun dest' data' hmem => ?_⟩
  rcases List.mem_cons.1 hmem with heq | hmem
  · cases heq
    exact h
  · exact absurd hmem (hrest dest' data')

/-- What is noted beside the datagram of a call is that it was accepted. -/
theorem accepted_not_sent (call : Call) (dest : Endpoint) (data : Bytes) :
    ClientEvent.sent dest data ∉ [.accepted call] := by
  rw [List.mem_singleton]
  rintro ⟨⟩

/-- The first block of an upload has the options of the call. -/
theorem wanted_open {a : RequestArgs} (hb : a.blockwise cfg = true) (hobs : a.observe = none)
    (old : ClientSlot) (token : UInt8) (call : Call) :
    blockWanted (openSlot cfg old a token call).upload = a.wanted cfg := by
  have hlong : a.payload.length > blockSize cfg.blockSzx := by
    simpa using (Bool.and_eq_true_iff.1 hb).2
  have hmore : moreAfter (openSlot cfg old a token call).upload = true :=
    decide_eq_true (show a.payload.length - 0 * _ > _ by rwa [Nat.zero_mul])
  unfold RequestArgs.wanted requestWanted blockWanted
  rw [if_pos hb, if_pos (by omega), hmore, hobs]
  rfl

/-- The first block of an upload. -/
theorem startUpload_answers (c : Client cfg) {a : RequestArgs} (hb : a.blockwise cfg = true)
    (hobs : a.observe = none) (sendOk : Bool) :
    Answers cfg (a.wanted cfg) (c.startUpload a sendOk).2 := by
  rcases startUpload_cases c a sendOk with ⟨-, heq⟩ | ⟨i, id, -, -, heq⟩ | ⟨i, buf, -, hdat, heq⟩
  · rw [heq]
    exact answers_nil cfg _
  · rw [heq]
    exact answers_nil cfg _
  rw [heq]
  refine answers_sent (accepted_not_sent _) ?_
  unfold uploadDatagram block1Datagram at hdat
  split at hdat
  · cases hdat
  split at hdat
  · cases hdat
  refine Lists.transmit_faithful hdat fun m hm => ?_
  rw [← wanted_open hb hobs (c.slots i) c.nextTokenByte (a.call c.calls)]
  exact lists_block1 hm

/-- A request of one datagram. -/
theorem sendRequest_answers (c : Client cfg) (a : RequestArgs) (sendOk : Bool) :
    Answers cfg (requestWanted a.observe a.path a.payload a.contentFormat)
      (c.sendRequest a sendOk).2 := by
  rcases sendRequest_cases c a sendOk with ⟨-, heq⟩ | ⟨i, -, -, heq⟩ | ⟨i, buf, -, hdat, heq⟩
  · rw [heq]
    exact answers_nil cfg _
  · rw [heq]
    exact answers_nil cfg _
  · rw [heq]
    exact answers_sent (accepted_not_sent _)
      (Lists.transmit_faithful hdat fun m hm => lists_request hm)

/-- A request, in one datagram or in blocks. -/
theorem issue_answers (c : Client cfg) {a : RequestArgs}
    (hobs : a.blockwise cfg = true → a.observe = none) (sendOk : Bool) :
    Answers cfg (a.wanted cfg) (c.issue a sendOk).2 := by
  unfold issue
  by_cases hb : a.blockwise cfg = true
  · rw [if_pos hb]
    exact c.startUpload_answers hb (hobs hb) sendOk
  · rw [if_neg hb, RequestArgs.wanted, if_neg hb, List.append_nil]
    exact c.sendRequest_answers a sendOk

/-- Only `observe` has an Observe option to send, and it has no payload. -/
theorem shape_observe {call : ClientCall} {a : RequestArgs} (hs : call.shape = .issue a)
    (hb : a.blockwise cfg = true) : a.observe = none := by
  cases call <;> cases hs
  case observe => simp [RequestArgs.blockwise] at hb
  all_goals rfl

/-- **A call that asks for something** returns true exactly when it has sent its request, and a
call that returns false has sent nothing. -/
theorem call_answers (c : Client cfg) (sendOk : Bool) {call : ClientCall} (hasks : call.asks = true) :
    Answers cfg (call.wanted cfg) (c.call sendOk call).2 := by
  -- the calls by their shape: what is wanted is said of the shape, too
  rw [call_eq, ClientCall.wanted]
  cases hs : call.shape with
  | issue a => exact c.issue_answers (shape_observe hs) sendOk
  | cancel server path =>
    dsimp only
    -- without a subscription there is nothing to send
    cases c.findObserve server path with
    | none => exact answers_nil cfg _
    | some i =>
      dsimp only
      rw [issue_noPayload _ rfl]
      exact sendRequest_answers _ (deregisterArgs server path (c.slots i).pending) sendOk
  | discover ep onDiscover userContext =>
    dsimp only
    rcases discover_cases c ep onDiscover userContext sendOk with
      ⟨token, id, heq, -⟩ | ⟨i, buf, -, hdat, heq⟩
    · rw [heq]
      exact answers_nil cfg _
    · rw [heq]
      refine answers_sent (fun _ _ => List.not_mem_nil) (Lists.transmit_faithful hdat fun m hm => ?_)
      have hlist := lists_request hm
      unfold requestWanted at hlist
      simpa using hlist
  | handler onTimeout =>
    cases call <;> cases hs
    cases hasks

/-- A further block of an upload. -/
theorem sendBlock1_answers (c : Client cfg) (i : Fin cfg.maxTransactions) (sendOk : Bool) :
    Answers cfg (blockWanted (c.slots i).upload) (c.sendBlock1 i sendOk).2 := by
  rcases sendBlock1_cases c i sendOk with ⟨-, id, heq⟩ | ⟨buf, hdat, heq⟩
  · rw [heq]
    exact answers_nil cfg _
  rw [heq]
  refine answers_sent (fun _ _ => List.not_mem_nil) ?_
  unfold block1Datagram at hdat
  split at hdat
  · cases hdat
  · exact Lists.transmit_faithful hdat fun m hm => lists_block1 hm

/-- Where the path of a further block comes from: a plain request stores its path, if it fits,
and an upload leaves the path of an earlier request in the slot. -/
theorem issue_recvPath (hblock : cfg.enableBlockwise = true) {c : Client cfg} {a : RequestArgs}
    {sendOk : Bool} (h : (c.issue a sendOk).2.1 = true) :
    ∃ i, c.freeSlot = some i ∧ ((c.issue a sendOk).1.slots i).recv.path =
      if a.blockwise cfg then (c.slots i).recv.path else storedPath cfg a.path := by
  unfold issue at h ⊢
  -- an upload keeps what the slot had, as its path is in the upload state
  by_cases hb : a.blockwise cfg = true
  · rw [if_pos hb] at h ⊢
    rcases startUpload_cases c a sendOk with ⟨-, heq⟩ | ⟨i, id, -, -, heq⟩ | ⟨i, buf, hi, -, heq⟩
    · rw [heq] at h
      cases h
    · rw [heq] at h
      cases h
    · refine ⟨i, hi, ?_⟩
      rw [heq, if_pos hb]
      show ((c.slots.set i _) i).recv.path = _
      rw [Table.set_self]
      rfl
  · -- a plain request stores its path for the blocks of the response
    rw [if_neg hb] at h ⊢
    rcases sendRequest_cases c a sendOk with ⟨-, heq⟩ | ⟨i, -, -, heq⟩ | ⟨i, buf, hi, -, heq⟩
    · rw [heq] at h
      cases h
    · rw [heq] at h
      cases h
    · refine ⟨i, hi, ?_⟩
      rw [heq, if_neg hb]
      show ((c.slots.set i _) i).recv.path = _
      rw [Table.set_self]
      simp [requestSlot, hblock]

/-- **When no option is lost.** In every state, what a call, `sendBlock1` or `sendBlock2Request`
returns tells whether it has sent a datagram. A datagram of a call or of an upload has exactly the
wanted options if and only if these fit. A request for a further block of a response has the
options of a call to `path` if and only if they fit and the path stored for it is on the wire what
`path` is. -/
theorem options_iff (c : Client cfg) (sendOk : Bool) :
    (∀ call, call.asks = true → Answers cfg (call.wanted cfg) (c.call sendOk call).2) ∧
    (∀ i, Answers cfg (blockWanted (c.slots i).upload) (c.sendBlock1 i sendOk).2) ∧
    ∀ i, Tells (c.sendBlock2Request i sendOk).2 ∧
      ∀ dest data, .sent dest data ∈ (c.sendBlock2Request i sendOk).2.2 →
        ∀ path, Faithful cfg (nextWanted path (c.slots i).recv) data ↔
          Fit cfg (nextWanted path (c.slots i).recv) ∧
            (Uri.segments (c.slots i).recv.path).map onWire = Uri.segments path := by
  refine ⟨fun call => c.call_answers sendOk, fun i => c.sendBlock1_answers i sendOk, fun i => ?_⟩
  rcases sendBlock2_cases c i sendOk with ⟨-, heq⟩ | ⟨buf, hdat, heq⟩
  · rw [heq]
    exact ⟨tells_nil, fun _ _ h => absurd h List.not_mem_nil⟩
  · rw [heq]
    refine ⟨tells_sent _ _ _, fun dest data h => ?_⟩
    cases List.mem_singleton.1 h
    exact next_faithful_iff hdat

/-- "/a", so many times, and its options. -/
def repeated (n : Nat) : Bytes := (List.replicate n [0x2F, 0x61]).flatten
def repeatedOptions (n : Nat) : Bytes := [0xB1, 0x61] ++ (List.replicate n [0x01, 0x61]).flatten

/-- A `put` to sixteen segments, and a `put` of more than one block to fifteen. -/
def longPut : ClientCall := .put default (repeated 16) [0x31] .textPlain none none true
def longUpload : ClientCall :=
  .put default (repeated 15) (List.replicate 65 0x31) .textPlain none none true

/-- **The format of the payload is lost**, and so is the Block1 option of the first block, which
is a complete request without it. Both calls return true. -/
theorem not_faithful :
    (∃ data, .sent default data ∈ (({} : Client .default).call true longPut).2.2 ∧
      ¬ Faithful .default (longPut.wanted .default) data) ∧
    ∃ data, .sent default data ∈ (({} : Client .blockwise).call true longUpload).2.2 ∧
      ¬ Faithful .blockwise (longUpload.wanted .blockwise) data := by
  constructor
  · refine ⟨[0x41, 0x03, 0x00, 0x01, 0x01] ++ repeatedOptions 15 ++ [0xFF, 0x31],
      by decide +kernel, fun h => ?_⟩
    -- sixteen options instead of seventeen
    exact absurd h.length (by decide +kernel)
  · refine ⟨[0x41, 0x03, 0x00, 0x01, 0x01] ++ repeatedOptions 14 ++ [0x10, 0xFF] ++
      List.replicate 64 0x31, by decide +kernel, fun h => ?_⟩
    exact absurd h.length (by decide +kernel)

end Client

end PulseCoap
