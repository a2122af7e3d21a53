import PulseCoap.Codec.RoundTrip
import PulseCoap.Uri
import Mathlib.Data.List.TakeWhile

/-!
# PulseCoAP — a path on the wire

`addUriPathOptions` on one side and `joinUriPath` on the other. A path in normal
form is what `joinUriPath` writes for its segments, so it comes back as it was:
through the options, through `encode` and through `decode`.

Neither function knows of the other, and neither inverts the other on all
strings: `addUriPathOptions` skips empty segments and a trailing slash, and
`joinUriPath` always writes a leading one. The paths in normal form are those on
which the two are inverse, and any other path comes back as the normal form with
the same segments.

* `segments_joined` — the segments of a path in normal form.
* `addSegments_eq` — the options `addUriPathOptions` adds.
* `joinUriPath_segments` — and the path they are joined to.
* `Message.SameOptions` — a decoded message is joined and searched as the
  message it came from.
-/

namespace PulseCoap

namespace Uri

variable {cfg : Config}

/-! ## Normal form -/

/-- Each segment behind a `'/'`. -/
def joined (segs : List Bytes) : Bytes := segs.flatMap (slash :: ·)

/-- What `joinUriPath` writes for these segments: `"/"` for none. -/
def written (segs : List Bytes) : Bytes := if segs = [] then [slash] else joined segs

/-- Non-empty segments without a `'/'`, each of a length an option can state. -/
def Plain (segs : List Bytes) : Prop :=
  ∀ seg ∈ segs, seg ≠ [] ∧ slash ∉ seg ∧ seg.length < 2 ^ 16

instance (segs : List Bytes) : Decidable (Plain segs) :=
  inferInstanceAs (Decidable (∀ seg ∈ segs, _ ∧ _ ∧ _))

/-- A path in normal form: the bytes of a C string, segments each behind a
`'/'`, or `"/"` alone. -/
structure NormalForm (path : Bytes) (segs : List Bytes) : Prop where
  eq    : path = written segs
  plain : Plain segs
  noNul : (0 : UInt8) ∉ path

instance (path : Bytes) (segs : List Bytes) : Decidable (NormalForm path segs) :=
  decidable_of_iff (path = written segs ∧ Plain segs ∧ (0 : UInt8) ∉ path)
    ⟨fun h => ⟨h.1, h.2.1, h.2.2⟩, fun h => ⟨h.1, h.2, h.3⟩⟩

/-- A segment is read to its end. -/
theorem segmentsFrom_append (seg rest : Bytes) (h : slash ∉ seg) : ∀ segment : Bytes,
    segmentsFrom segment (seg ++ rest) = segmentsFrom (segment ++ seg) rest := by
  induction seg with
  | nil =>
    intro segment
    rw [List.nil_append, List.append_nil]
  | cons c seg ih =>
    intro segment
    have hc : c ≠ slash := fun heq => h (heq ▸ List.mem_cons_self ..)
    have hseg : slash ∉ seg := fun hmem => h (List.mem_cons_of_mem _ hmem)
    rw [List.cons_append, segmentsFrom, if_neg hc, ih hseg, List.append_assoc]
    rfl

/-- A slash ends the segment that was begun. -/
theorem segmentsFrom_slash {segment : Bytes} (h : segment ≠ []) (path : Bytes) :
    segmentsFrom segment (slash :: path) = segment :: segmentsFrom [] path := by
  rw [segmentsFrom, if_pos rfl, if_neg h]

/-- **The segments of a path in normal form** are the ones it was joined from. There are no
empty ones among them, so none is lost. -/
theorem segments_joined {segs : List Bytes} (h : ∀ seg ∈ segs, seg ≠ [] ∧ slash ∉ seg) :
    segments (joined segs) = segs := by
  induction segs with
  | nil => rfl
  | cons seg segs ih =>
    obtain ⟨hne, hslash⟩ := h seg (List.mem_cons_self ..)
    have ih := ih fun s hs => h s (List.mem_cons_of_mem _ hs)
    have hread : segments (joined (seg :: segs)) = segmentsFrom seg (joined segs) := by
      show segmentsFrom [] (slash :: (seg ++ joined segs)) = _
      rw [segmentsFrom, if_pos rfl, if_pos rfl, segmentsFrom_append seg _ hslash, List.nil_append]
    rw [hread]
    cases segs with
    | nil =>
      show segmentsFrom seg [] = [seg]
      rw [segmentsFrom, if_neg hne]
    | cons seg' segs =>
      -- the next slash ends the segment
      have hnext : joined (seg' :: segs) = slash :: (seg' ++ joined segs) := rfl
      rw [hnext, segmentsFrom_slash hne]
      have hrest : segmentsFrom [] (seg' ++ joined segs) = segments (joined (seg' :: segs)) := by
        show _ = segmentsFrom [] (slash :: (seg' ++ joined segs))
        rw [segmentsFrom, if_pos rfl, if_pos rfl]
      rw [hrest, ih]

/-- A path in normal form has the segments it was made of. -/
theorem NormalForm.segments_eq {path : Bytes} {segs : List Bytes} (h : NormalForm path segs) :
    segments path = segs := by
  rw [h.eq, written]
  split
  · rename_i hnil
    rw [hnil]
    rfl
  · exact segments_joined fun seg hseg => ⟨(h.plain seg hseg).1, (h.plain seg hseg).2.1⟩

/-- A C string is its own bytes. -/
theorem NormalForm.cString_eq {path : Bytes} {segs : List Bytes} (h : NormalForm path segs) :
    cString path = path := by
  unfold cString
  refine List.takeWhile_eq_self_iff.2 fun b hb => ?_
  simp only [ne_eq, decide_eq_true_eq]
  rintro rfl
  exact h.noNul hb

/-! ## The options -/

/-- The option of a segment. -/
def segmentOption (segment : Bytes) : CoapOption where
  number := OptionNumber.uriPath
  length := UInt16.ofNat segment.length
  value  := if UInt16.ofNat segment.length > 0 then some segment else none

/-- A message with these options behind its own. -/
def withSegments (msg : Message) (segs : List Bytes) : Message :=
  { msg with
    options := msg.options ++ segs.map segmentOption
    lastOptionNumber := if segs = [] then msg.lastOptionNumber else OptionNumber.uriPath }

/-- **What `addUriPathOptions` adds**, when it does not refuse: one option for each segment, in
their order, behind the options that are there. -/
theorem addSegments_eq : ∀ (segs : List Bytes) (msg : Message),
    (addSegments cfg msg segs).2 = true → (addSegments cfg msg segs).1 = withSegments msg segs := by
  intro segs
  induction segs with
  | nil =>
    intro msg _
    show msg = withSegments msg []
    unfold withSegments
    rw [List.map_nil, List.append_nil, if_pos rfl]
  | cons seg segs ih =>
    -- each step adds one option; a refused one would make the whole call fail
    intro msg hok
    unfold addSegments at hok ⊢
    dsimp only at hok ⊢
    rcases Message.addOption_cases cfg msg OptionNumber.uriPath (some seg)
      (UInt16.ofNat seg.length) with heq | ⟨-, -, heq⟩
    · rw [heq] at hok
      cases hok
    · rw [heq] at hok ⊢
      dsimp only at hok ⊢
      rw [if_pos rfl] at hok ⊢
      rw [ih _ hok]
      unfold withSegments
      rw [if_neg (List.cons_ne_nil _ _), List.map_cons]
      dsimp only
      rw [List.append_assoc, ite_self]
      rfl

/-- A segment below 2^16 bytes is an option with all its bytes. -/
theorem segmentOption_bytes {seg : Bytes} (h : seg.length < 2 ^ 16) :
    (segmentOption seg).length.toNat = seg.length ∧ (segmentOption seg).bytes = seg := by
  have hlen : (UInt16.ofNat seg.length).toNat = seg.length := by
    rw [UInt16.toNat_ofNat', Nat.mod_eq_of_lt h]
  refine ⟨hlen, ?_⟩
  unfold CoapOption.bytes segmentOption
  dsimp only
  rw [hlen]
  split
  · exact List.take_length
  · rename_i hzero
    rw [gt_iff_lt, UInt16.lt_iff_toNat_lt, hlen] at hzero
    have hnil : seg = [] := List.eq_nil_of_length_eq_zero (by simpa using hzero)
    rw [hnil]
    rfl

/-- Its bytes are there to be read. -/
theorem readable_segment (seg : Bytes) :
    Message.Readable (segmentOption seg).value (segmentOption seg).length.toNat := by
  intro hne
  have hpos : UInt16.ofNat seg.length > 0 := by
    rw [gt_iff_lt, UInt16.lt_iff_toNat_lt]
    exact Nat.pos_of_ne_zero hne
  refine ⟨seg, if_pos hpos, ?_⟩
  show (UInt16.ofNat seg.length).toNat ≤ seg.length
  rw [UInt16.toNat_ofNat']
  exact Nat.mod_le _ _

/-- A path leaves a message that can be built further. -/
theorem addSegments_built (segs : List Bytes) : ∀ {msg : Message}, Message.Built cfg msg →
    Message.Built cfg (addSegments cfg msg segs).1 := by
  induction segs with
  | nil => exact id
  | cons seg segs ih =>
    intro msg hm
    have hadd := hm.addOption OptionNumber.uriPath (Message.readable_string (some seg))
    unfold addSegments
    dsimp only
    split
    · exact ih hadd
    · exact hadd

/-! ## Joining them -/

/-- The values of the Uri-Path options. -/
def uriPathValues (opts : List CoapOption) : List Bytes :=
  (opts.filter fun o => o.number == OptionNumber.uriPath).map CoapOption.bytes

theorem uriPathValues_cons (o : CoapOption) (opts : List CoapOption) :
    uriPathValues (o :: opts) =
      if o.number = OptionNumber.uriPath then o.bytes :: uriPathValues opts
      else uriPathValues opts := by
  unfold uriPathValues
  rw [List.filter_cons]
  by_cases hnum : o.number = OptionNumber.uriPath
  · rw [if_pos hnum, if_pos (by simpa using hnum)]
    rfl
  · rw [if_neg hnum, if_neg (by simpa using hnum)]

theorem joined_cons (seg : Bytes) (segs : List Bytes) :
    joined (seg :: segs) = [slash] ++ seg ++ joined segs := rfl

/-- **What the loop joins**: all the values, if they fit. It gives up at the first value that
does not. -/
theorem joinOptions_eq {cap : Nat} : ∀ {opts : List CoapOption},
    (∀ o ∈ opts, o.bytes.length = o.length.toNat) → ∀ {out : Bytes}, out.length < cap →
      joinOptions cap opts out =
        if out.length + (joined (uriPathValues opts)).length < cap then
          some (out ++ joined (uriPathValues opts))
        else none := by
  intro opts
  induction opts with
  | nil =>
    intro _ out hout
    show some out = if out.length < cap then some (out ++ []) else none
    rw [if_pos hout, List.append_nil]
  | cons o opts ih =>
    intro hlen out hout
    have hrest : ∀ x ∈ opts, x.bytes.length = x.length.toNat :=
      fun x hx => hlen x (List.mem_cons_of_mem _ hx)
    -- one option at a time, with the bytes written so far as the induction's variable
    rw [joinOptions]
    by_cases hnum : o.number ≠ OptionNumber.uriPath
    · rw [if_pos hnum, ih hrest hout, uriPathValues_cons, if_neg hnum]
    · -- the slash and the value are each compared with the capacity before they are copied
      have hvalues : uriPathValues (o :: opts) = o.bytes :: uriPathValues opts := by
        rw [uriPathValues_cons, if_pos (not_not.1 hnum)]
      have hsize : out.length + (joined (uriPathValues (o :: opts))).length =
          out.length + 1 + o.length.toNat + (joined (uriPathValues opts)).length := by
        rw [hvalues, joined_cons, List.length_append, List.length_append, List.length_singleton,
          hlen o (List.mem_cons_self ..)]
        omega
      rw [if_neg hnum, hsize]
      by_cases hslash : out.length + 1 ≥ cap
      · rw [if_pos hslash, if_neg (by omega)]
      · rw [if_neg hslash]
        dsimp only
        rw [List.length_append, List.length_singleton]
        by_cases hvalue : out.length + 1 + o.length.toNat ≥ cap
        · rw [if_pos hvalue, if_neg (by omega)]
        · have hout' : (out ++ [slash] ++ o.bytes).length = out.length + 1 + o.length.toNat := by
            rw [List.length_append, List.length_append, List.length_singleton,
              hlen o (List.mem_cons_self ..)]
          rw [if_neg hvalue, ih hrest (by omega), hout', hvalues, joined_cons]
          simp only [List.append_assoc]

/-- **What `joinUriPath` gives**: the values behind slashes, or `"/"`, if the buffer has room
for it and its terminator. Options of other numbers are passed over. -/
theorem joinUriPath_eq {msg : Message} (h : ∀ o ∈ msg.options, o.bytes.length = o.length.toNat)
    {cap : Nat} (hcap : 2 ≤ cap) :
    joinUriPath msg cap =
      if (written (uriPathValues msg.options)).length < cap then
        some (written (uriPathValues msg.options))
      else none := by
  have hempty : ([] : Bytes).length < cap := Nat.lt_of_lt_of_le (by decide) hcap
  unfold joinUriPath
  rw [if_neg (by omega), joinOptions_eq h hempty, List.length_nil, Nat.zero_add, List.nil_append]
  unfold written
  cases uriPathValues msg.options with
  | nil =>
    have hroom : (joined []).length < cap := hempty
    have hslash : [slash].length < cap := hcap
    rw [if_pos hroom, if_pos rfl, if_pos hslash]
    rfl
  | cons seg segs =>
    rw [if_neg (List.cons_ne_nil _ _)]
    by_cases hroom : (joined (seg :: segs)).length < cap
    · rw [if_pos hroom]
      rfl
    · rw [if_neg hroom]

/-- The segments that were put into a message are found in it. -/
theorem uriPathValues_segments {segs : List Bytes} (hlen : ∀ seg ∈ segs, seg.length < 2 ^ 16) :
    uriPathValues (segs.map segmentOption) = segs := by
  have hall : (segs.map segmentOption).filter (fun o => o.number == OptionNumber.uriPath) =
      segs.map segmentOption := by
    refine List.filter_eq_self.2 fun o ho => ?_
    obtain ⟨seg, -, rfl⟩ := List.mem_map.1 ho
    rfl
  unfold uriPathValues
  rw [hall, List.map_map]
  exact (List.map_congr_left fun seg hseg => (segmentOption_bytes (hlen seg hseg)).2).trans
    (List.map_id _)

/-- Without a Uri-Path option there are none. -/
theorem uriPathValues_others {opts : List CoapOption}
    (h : ∀ o ∈ opts, o.number ≠ OptionNumber.uriPath) : uriPathValues opts = [] := by
  unfold uriPathValues
  rw [List.filter_eq_nil_iff.2 fun o ho => by simpa using h o ho]
  rfl

theorem uriPathValues_append (opts opts' : List CoapOption) :
    uriPathValues (opts ++ opts') = uriPathValues opts ++ uriPathValues opts' := by
  unfold uriPathValues
  rw [List.filter_append, List.map_append]

/-- **The path comes back** when its options are read by `joinUriPath`, whatever other options
the message has behind them. -/
theorem joinUriPath_segments {path : Bytes} {segs : List Bytes} (h : NormalForm path segs)
    {cap : Nat} (hcap : path.length < cap) {msg : Message} {rest : List CoapOption}
    (hlen : ∀ o ∈ msg.options, o.bytes.length = o.length.toNat)
    (hopts : msg.options = segs.map segmentOption ++ rest)
    (hrest : ∀ o ∈ rest, o.number ≠ OptionNumber.uriPath) : joinUriPath msg cap = some path := by
  have hvalues : uriPathValues msg.options = segs := by
    rw [hopts, uriPathValues_append, uriPathValues_segments fun seg hseg => (h.plain seg hseg).2.2,
      uriPathValues_others hrest, List.append_nil]
  have hpos : 0 < path.length := by
    rw [h.eq]
    unfold written
    cases segs with
    | nil => exact Nat.one_pos
    | cons seg segs => exact Nat.succ_pos _
  rw [joinUriPath_eq hlen (by omega), hvalues, ← h.eq, if_pos hcap]

end Uri

/-! ## Decoded messages -/

namespace Message

variable {cfg : Config}

/-- Options that say the same: number, length and bytes. -/
def SameOption (o o' : CoapOption) : Prop :=
  o'.number = o.number ∧ o'.length = o.length ∧ o'.bytes = o.bytes

/-- The options of two messages, one by one. -/
def SameOptions (m m' : Message) : Prop := List.Forall₂ SameOption m.options m'.options

/-- A message is read back with the options it had. -/
theorem sameOptions_readBack {m : Message} (hm : m.Backed) : SameOptions m m.readBack := by
  unfold SameOptions readBack
  dsimp only
  refine List.forall₂_map_right_iff.2 (List.forall₂_same.2 fun o ho => ?_)
  exact entry_ofEntry (hm.readable o ho)

/-- Decoding what was encoded gives the same options. -/
theorem sameOptions_decode {m : Message} (hm : m.WellFormed cfg) :
    SameOptions m (decode cfg m.wire).2 := by
  rw [decode_wire hm]
  exact sameOptions_readBack ⟨hm.readable, hm.payload⟩

/-- The loop of `joinUriPath` reads numbers and bytes only. -/
theorem joinOptions_same {cap : Nat} {opts opts' : List CoapOption}
    (h : List.Forall₂ SameOption opts opts') : ∀ out : Bytes,
    Uri.joinOptions cap opts' out = Uri.joinOptions cap opts out := by
  induction h with
  | nil =>
    intro out
    rfl
  | cons hsame _ ih =>
    obtain ⟨hnum, hlen, hbytes⟩ := hsame
    intro out
    unfold Uri.joinOptions
    rw [hnum, hlen, hbytes]
    simp only [ih]

/-- So does the list of segments. -/
theorem uriPathValues_same {opts opts' : List CoapOption}
    (h : List.Forall₂ SameOption opts opts') : Uri.uriPathValues opts' = Uri.uriPathValues opts := by
  induction h with
  | nil => rfl
  | cons hsame _ ih =>
    obtain ⟨hnum, -, hbytes⟩ := hsame
    rw [Uri.uriPathValues_cons, Uri.uriPathValues_cons, hnum, hbytes, ih]

/-- What is read back has its bytes. -/
theorem backed_readBack {m : Message} (hm : m.Backed) : m.readBack.Backed := by
  refine ⟨fun o' ho' => ?_, fun b hb => ?_⟩
  · obtain ⟨o, ho, rfl⟩ := List.mem_map.1 ho'
    obtain ⟨-, hlen, -⟩ := entry_ofEntry (hm.readable o ho)
    intro hne
    have hbytes := bytes_length (hm.readable o ho)
    have hsome : o.bytes ≠ [] := by
      intro hnil
      rw [hnil] at hbytes
      rw [hlen, ← hbytes] at hne
      exact hne rfl
    exact ⟨o.bytes, if_neg hsome, by rw [hlen, hbytes]⟩
  · have hpayload : (if m.payloadBytes = [] then none else some m.payloadBytes) = some b := hb
    split at hpayload
    · cases hpayload
    · rw [← Option.some.inj hpayload]
      exact Nat.le_refl _

/-- So the path that is joined is the same. -/
theorem SameOptions.joinUriPath {m m' : Message} (h : SameOptions m m') (cap : Nat) :
    Uri.joinUriPath m' cap = Uri.joinUriPath m cap := by
  unfold Uri.joinUriPath
  rw [joinOptions_same h]

/-- So is an option that is looked for. -/
theorem SameOptions.findOption_none {m m' : Message} (h : SameOptions m m') {number : UInt16}
    (hnone : ∀ o ∈ m.options, o.number ≠ number) : m'.findOption number = none := by
  unfold SameOptions at h
  unfold findOption
  refine List.find?_eq_none.2 fun o' ho' => ?_
  obtain ⟨i, hi, rfl⟩ := List.getElem_of_mem ho'
  have hlen := h.length_eq
  have hi' : i < m.options.length := by omega
  have hnum : m'.options[i].number = m.options[i].number := (h.get hi' hi).1
  rw [beq_iff_eq, hnum]
  exact hnone _ (List.getElem_mem hi')

end Message

end PulseCoap
