import PulseCoap.Exchange.Path

/-!
# PulseCoAP — a path in a buffer

`joinUriPath` once more, on the memory behind `out`: each byte it stores is noted
with its offset. What it leaves there is the string `Uri.joinUriPath` speaks of, and
so the normal form of the path the options came from.

The two definitions are kept apart on purpose: on strings the proofs about paths
stay short, and on memory the terminator and the bounds can be spoken of. What
connects them is `joinOptionsInto_spec`, by induction on the options with the bytes
written so far as its variable. `Holds` says what is in the buffer and `Within` that
nothing was stored beyond it.

* `joinInto_spec` — the string, the result and the offsets.
* `addSegments_ok_iff` — which paths have room in a message.
* `path_round_trip` — `addUriPathOptions`, `encode`, `decode`, `joinUriPath`.
* `OutBuffer` — the bytes, and the offsets they were stored to.
* `path_round_trip_observe` — a registration, whose path comes behind its Observe
  option.
-/

namespace PulseCoap

namespace Uri

variable {cfg : Config}

-- ===========================================================================
-- The memory behind `out`
-- ===========================================================================

/-- The bytes at `out`, and the offsets that have been stored to. -/
structure OutBuffer where
  bytes  : Nat → UInt8
  writes : List Nat := []

namespace OutBuffer

/-- `out[i] = v`. -/
def write (b : OutBuffer) (i : Nat) (v : UInt8) : OutBuffer where
  bytes j := if j = i then v else b.bytes j
  writes  := b.writes ++ [i]

/-- `memcpy(out + i, …)`. -/
def copy (b : OutBuffer) (i : Nat) : Bytes → OutBuffer
  | [] => b
  | v :: data => (b.write i v).copy (i + 1) data

/-- The bytes from `out` on. -/
def Holds (b : OutBuffer) (data : Bytes) : Prop := ∀ i v, data[i]? = some v → b.bytes i = v

/-- A string of these characters and its terminator. -/
def IsString (b : OutBuffer) (data : Bytes) : Prop := b.Holds (data ++ [0]) ∧ (0 : UInt8) ∉ data

/-- No store at `cap` or beyond. -/
def Within (b : OutBuffer) (cap : Nat) : Prop := ∀ i ∈ b.writes, i < cap

end OutBuffer

/-- The loop of `joinUriPath`; `false` is its `return false`. -/
def joinOptionsInto (outCapacity : Nat) : List CoapOption → (pos : Nat) → OutBuffer →
    Bool × Nat × OutBuffer
  | [], pos, out => (true, pos, out)
  | opt :: rest, pos, out =>
    if opt.number ≠ OptionNumber.uriPath then joinOptionsInto outCapacity rest pos out
    else if pos + 1 ≥ outCapacity then (false, pos, out)
    else
      let out := out.write pos slash
      let pos := pos + 1
      if pos + opt.length.toNat ≥ outCapacity then (false, pos, out)
      else
        let out := if opt.length > 0 then out.copy pos opt.bytes else out
        let pos := pos + opt.length.toNat
        joinOptionsInto outCapacity rest pos (out.write pos 0)

/-- `uri::joinUriPath`: its result and the buffer. -/
def joinUriPathInto (msg : Message) (outCapacity : Nat) (out : OutBuffer) : Bool × OutBuffer :=
  if outCapacity < 2 then (false, out)
  else
    match joinOptionsInto outCapacity msg.options 0 (out.write 0 0) with
    | (false, _, out) => (false, out)
    | (true, pos, out) => (true, if pos = 0 then (out.write 0 slash).write 1 0 else out)

-- ===========================================================================
-- Stores
-- ===========================================================================

namespace OutBuffer

/-- A byte behind what the buffer holds. -/
theorem Holds.write {b : OutBuffer} {data : Bytes} (h : b.Holds data) (v : UInt8) :
    (b.write data.length v).Holds (data ++ [v]) := by
  intro i u hi
  show (if i = data.length then v else b.bytes i) = u
  rcases Nat.lt_trichotomy i data.length with hlt | rfl | hgt
  · rw [List.getElem?_append_left hlt] at hi
    rw [if_neg (Nat.ne_of_lt hlt)]
    exact h i u hi
  · rw [List.getElem?_concat_length] at hi
    rw [if_pos rfl]
    exact Option.some.inj hi
  · rw [List.getElem?_eq_none (by rw [List.length_append, List.length_singleton]; omega)] at hi
    cases hi

theorem Holds.copy {data' : Bytes} : ∀ {b : OutBuffer} {data : Bytes}, b.Holds data →
    (b.copy data.length data').Holds (data ++ data') := by
  induction data' with
  | nil =>
    intro b data h
    rw [List.append_nil]
    exact h
  | cons v data' ih =>
    intro b data h
    have hnext := ih (h.write v)
    rw [List.length_append, List.append_assoc] at hnext
    exact hnext

/-- What is in front of what the buffer holds. -/
theorem Holds.left {b : OutBuffer} {data data' : Bytes} (h : b.Holds (data ++ data')) :
    b.Holds data := by
  intro i v hi
  have hlt := (List.getElem?_eq_some_iff.1 hi).1
  exact h i v (by rw [List.getElem?_append_left hlt]; exact hi)

theorem Within.write {b : OutBuffer} {cap i : Nat} (h : b.Within cap) (hi : i < cap) (v : UInt8) :
    (b.write i v).Within cap := by
  intro j hj
  rcases List.mem_append.1 hj with hold | hnew
  · exact h j hold
  · rwa [List.mem_singleton.1 hnew]

theorem Within.copy {cap : Nat} {data : Bytes} : ∀ {b : OutBuffer} {i : Nat}, b.Within cap →
    i + data.length ≤ cap → (b.copy i data).Within cap := by
  induction data with
  | nil => exact fun h _ => h
  | cons v data ih =>
    intro b i h hi
    rw [List.length_cons] at hi
    exact ih (h.write (by omega) v) (by omega)

end OutBuffer

-- ===========================================================================
-- The loop
-- ===========================================================================

/-- **The loop in memory**: it comes to the string of `joinOptions`, or gives up where that
does, and has stored inside the buffer. The induction is on the options; `out.Holds` says what
the buffer has up to the cursor, with the terminator behind it. -/
theorem joinOptionsInto_spec {cap : Nat} : ∀ {opts : List CoapOption},
    (∀ o ∈ opts, Message.Readable o.value o.length.toNat) →
    ∀ {data : Bytes} {out : OutBuffer}, out.Holds (data ++ [0]) → out.Within cap →
      let r := joinOptionsInto cap opts data.length out
      r.2.2.Within cap ∧ (r.1 = true ↔ (joinOptions cap opts data).isSome) ∧
        ∀ joined ∈ joinOptions cap opts data,
          r.2.1 = joined.length ∧ r.2.2.Holds (joined ++ [0]) := by
  intro opts
  induction opts with
  | nil =>
    intro _ data out hholds hwithin
    refine ⟨hwithin, iff_of_true rfl rfl, fun joined hjoined => ?_⟩
    obtain rfl := Option.some.inj hjoined
    exact ⟨rfl, hholds⟩
  | cons opt opts ih =>
    intro hread data out hholds hwithin
    have hrest : ∀ o ∈ opts, Message.Readable o.value o.length.toNat :=
      fun o ho => hread o (List.mem_cons_of_mem _ ho)
    dsimp only
    rw [joinOptionsInto, joinOptions]
    -- `joinUriPath` skips the options that are no part of the path
    by_cases hnum : opt.number ≠ OptionNumber.uriPath
    · rw [if_pos hnum, if_pos hnum]
      exact ih hrest hholds hwithin
    rw [if_neg hnum, if_neg hnum]
    -- the slash is refused by a buffer that has no byte left for the terminator behind it
    by_cases hslash : data.length + 1 ≥ cap
    · rw [if_pos hslash, if_pos hslash]
      exact ⟨hwithin, iff_of_false Bool.false_ne_true Bool.false_ne_true, by rintro _ ⟨⟩⟩
    rw [if_neg hslash, if_neg hslash]
    have hheld := hholds.left.write slash
    have hin := hwithin.write (show data.length < cap by omega) slash
    have hlen : (data ++ [slash]).length = data.length + 1 := by
      rw [List.length_append, List.length_singleton]
    dsimp only
    rw [hlen]
    -- and the value likewise
    by_cases hvalue : data.length + 1 + opt.length.toNat ≥ cap
    · rw [if_pos hvalue, if_pos hvalue]
      exact ⟨hin, iff_of_false Bool.false_ne_true Bool.false_ne_true, by rintro _ ⟨⟩⟩
    rw [if_neg hvalue, if_neg hvalue]
    -- the value, or nothing, and the terminator behind it
    have hbytes := Message.bytes_length (hread opt (List.mem_cons_self ..))
    have hcopied : (if opt.length > 0 then (out.write data.length slash).copy (data.length + 1)
        opt.bytes else out.write data.length slash) =
          (out.write data.length slash).copy (data.length + 1) opt.bytes := by
      split
      · rfl
      · next hzero =>
        have hnil : opt.bytes = [] := by
          refine List.eq_nil_of_length_eq_zero ?_
          rw [hbytes]
          rw [gt_iff_lt, UInt16.lt_iff_toNat_lt] at hzero
          exact Nat.eq_zero_of_not_pos hzero
        rw [hnil]
        rfl
    rw [hcopied]
    have hvalueHeld : ((out.write data.length slash).copy (data.length + 1) opt.bytes).Holds
        (data ++ [slash] ++ opt.bytes) := by
      rw [← hlen]
      exact hheld.copy
    have hvalueIn : ((out.write data.length slash).copy (data.length + 1) opt.bytes).Within cap :=
      hin.copy (by rw [hbytes]; omega)
    have hlen' : (data ++ [slash] ++ opt.bytes).length = data.length + 1 + opt.length.toNat := by
      rw [List.length_append, hlen, hbytes]
    rw [← hlen']
    exact ih hrest (hvalueHeld.write 0) (hvalueIn.write (by rw [hlen']; omega) 0)

/-- **`joinUriPath` in memory**: what it leaves for a message whose options have their bytes.
The empty list of segments is the path of one slash, and a buffer without room for the string is
given up. -/
theorem joinInto_spec {msg : Message}
    (hread : ∀ o ∈ msg.options, Message.Readable o.value o.length.toNat) {cap : Nat}
    (hcap : 2 ≤ cap) {out : OutBuffer} (hout : out.Within cap) :
    let path := written (uriPathValues msg.options)
    ((joinUriPathInto msg cap out).1 = true ↔ path.length ≤ cap - 1) ∧
      ((joinUriPathInto msg cap out).1 = true →
        (joinUriPathInto msg cap out).2.Holds (path ++ [0])) ∧
      (joinUriPathInto msg cap out).2.Within cap := by
  have hlen : ∀ o ∈ msg.options, o.bytes.length = o.length.toNat :=
    fun o ho => Message.bytes_length (hread o ho)
  -- the terminator that is stored first makes the empty string of the buffer
  have hstart : (out.write 0 0).Holds ([] ++ [0]) := by
    have hnothing : out.Holds [] := fun i v hi => nomatch hi
    exact hnothing.write 0
  have hpos : 0 < cap := Nat.lt_of_lt_of_le (by decide) hcap
  have hwithin : (out.write 0 0).Within cap := hout.write hpos 0
  obtain ⟨hin, htrue, hjoined⟩ := joinOptionsInto_spec hread hstart hwithin
  rw [joinOptions_eq hlen (show ([] : Bytes).length < cap from hpos)] at htrue hjoined
  rw [List.length_nil] at hin htrue hjoined
  dsimp only
  unfold joinUriPathInto
  rw [if_neg (by omega)]
  generalize joinOptionsInto cap msg.options 0 (out.write 0 0) = r at hin htrue hjoined
  obtain ⟨ok, pos, out'⟩ := r
  unfold written
  cases ok with
  | false =>
    dsimp only at hin htrue ⊢
    refine ⟨iff_of_false Bool.false_ne_true fun hle => ?_, (fun h => nomatch h), hin⟩
    -- something did not fit, so there is something
    have hfull : ¬ 0 + (joined (uriPathValues msg.options)).length < cap := by
      intro hfit
      rw [if_pos hfit] at htrue
      exact Bool.false_ne_true (htrue.2 rfl)
    split at hle
    · next hnil =>
      rw [hnil] at hfull
      exact hfull hpos
    · omega
  | true =>
    -- all of it fits, so the buffer holds the joined values; without any the root is written
    dsimp only at hin htrue hjoined ⊢
    have hfit : 0 + (joined (uriPathValues msg.options)).length < cap := by
      by_contra hfull
      rw [if_neg hfull] at htrue
      exact Bool.false_ne_true (htrue.1 rfl)
    rw [if_pos hfit] at hjoined
    obtain ⟨hend, hholds⟩ := hjoined _ rfl
    rw [List.nil_append] at hend hholds
    by_cases hnil : uriPathValues msg.options = []
    · -- no value at all: the root
      rw [if_pos hnil, if_pos (show pos = 0 by rw [hend, hnil]; rfl)]
      have hroot : (out'.write 0 slash).Holds [slash] := by
        have hnothing : out'.Holds [] := fun i v hi => nomatch hi
        exact hnothing.write slash
      exact ⟨iff_of_true rfl (show 1 ≤ cap - 1 by omega), fun _ => hroot.write 0,
        (hin.write hpos slash).write hcap 0⟩
    · have hne : pos ≠ 0 := by
        obtain ⟨seg, segs, hcons⟩ := List.exists_cons_of_ne_nil hnil
        rw [hend, hcons]
        exact Nat.succ_ne_zero _
      rw [if_neg hnil, if_neg hne]
      exact ⟨iff_of_true rfl (by omega), fun _ => hholds, hin⟩

-- ===========================================================================
-- The segments of a path
-- ===========================================================================

/-- The loop comes to non-empty segments of bytes of the path, without a slash. -/
theorem mem_segmentsFrom {path : Bytes} : ∀ {segment : Bytes}, slash ∉ segment →
    ∀ seg ∈ segmentsFrom segment path,
      seg ≠ [] ∧ slash ∉ seg ∧ ∀ b ∈ seg, b ∈ segment ∨ b ∈ path := by
  induction path with
  | nil =>
    intro segment hslash seg hseg
    rw [segmentsFrom] at hseg
    split at hseg
    · cases hseg
    · next hne =>
      obtain rfl := List.mem_singleton.1 hseg
      exact ⟨hne, hslash, fun b hb => .inl hb⟩
  | cons c path ih =>
    intro segment hslash seg hseg
    have hnone : slash ∉ ([] : Bytes) := List.not_mem_nil
    -- the segments after a slash do not depend on the one before it
    have hlater : seg ∈ segmentsFrom [] path →
        seg ≠ [] ∧ slash ∉ seg ∧ ∀ b ∈ seg, b ∈ segment ∨ b ∈ c :: path := by
      intro hmem
      obtain ⟨hne, hseg', hbytes⟩ := ih hnone seg hmem
      refine ⟨hne, hseg', fun b hb => .inr ?_⟩
      rcases hbytes b hb with h | h
      · cases h
      · exact List.mem_cons_of_mem _ h
    rw [segmentsFrom] at hseg
    split at hseg
    · split at hseg
      · exact hlater hseg
      · next hne =>
        rcases List.mem_cons.1 hseg with rfl | hmem
        · exact ⟨hne, hslash, fun b hb => .inl hb⟩
        · exact hlater hmem
    · next hc =>
      have hslash' : slash ∉ segment ++ [c] := by
        rw [List.mem_append, List.mem_singleton]
        exact fun h => h.elim hslash fun heq => hc heq.symm
      obtain ⟨hne, hseg', hbytes⟩ := ih hslash' seg hseg
      refine ⟨hne, hseg', fun b hb => ?_⟩
      rcases hbytes b hb with h | h
      · rcases List.mem_append.1 h with h | h
        · exact .inl h
        · exact .inr (List.mem_singleton.1 h ▸ List.mem_cons_self ..)
      · exact .inr (List.mem_cons_of_mem _ h)

/-- The normal form of a C string is one. -/
theorem noNul_written {path : Bytes} (hpath : (0 : UInt8) ∉ path) :
    (0 : UInt8) ∉ written (segments path) := by
  have hslash : (0 : UInt8) ≠ slash := by decide
  unfold written
  split
  · exact fun h => hslash (List.mem_singleton.1 h)
  · intro h
    obtain ⟨seg, hseg, hmem⟩ := List.mem_flatMap.1 h
    rcases List.mem_cons.1 hmem with heq | hbyte
    · exact hslash heq
    · have hnone : slash ∉ ([] : Bytes) := List.not_mem_nil
      rcases (mem_segmentsFrom hnone seg hseg).2.2 0 hbyte with h | h
      · cases h
      · exact hpath h

/-- `addUriPathOptions` refuses only for want of room. -/
theorem addSegments_ok_iff : ∀ {segs : List Bytes} {msg : Message},
    (msg.options ≠ [] → msg.lastOptionNumber ≤ OptionNumber.uriPath) →
      ((addSegments cfg msg segs).2 = true ↔
        segs.length ≤ cfg.maxOptions - msg.options.length) := by
  intro segs
  induction segs with
  | nil => exact fun _ => iff_of_true rfl (Nat.zero_le _)
  | cons seg segs ih =>
    intro msg hlast
    rw [addSegments]
    rcases Message.addOption_cases cfg msg OptionNumber.uriPath (some seg)
      (UInt16.ofNat seg.length) with heq | ⟨hroom, -, heq⟩
    · -- refused: the table is full, as the order cannot be the reason
      rw [heq]
      refine iff_of_false Bool.false_ne_true fun hle => ?_
      rw [List.length_cons] at hle
      unfold Message.addOption at heq
      rw [if_neg (by omega)] at heq
      split at heq
      · next hbelow =>
        have hle' := UInt16.le_iff_toNat_le.1 (hlast (List.length_pos_iff.1 hbelow.1))
        have hlt := UInt16.lt_iff_toNat_lt.1 hbelow.2
        omega
      · exact absurd (congrArg Prod.snd heq) (by simp)
    · -- added, so one option fewer has room and the order is Uri-Path from here on
      rw [heq]
      dsimp only
      rw [if_pos rfl, ih fun _ => UInt16.le_refl _]
      dsimp only
      rw [List.length_append, List.length_singleton, List.length_cons]
      omega

/-- **The Uri-Path round trip**: a path is taken if there are slots for its segments, and after
`encode` and `decode` it comes back in normal form, into every buffer that has room for it. The
message may have other options already, as long as none of them comes behind Uri-Path. -/
theorem path_round_trip {path : Bytes} (hpath : (0 : UInt8) ∉ path)
    (hsegs : ∀ seg ∈ segments path, seg.length < 65536) {msg : Message} (hmsg : msg.Backed)
    (htoken : msg.token.length ≤ kMaxTokenLen) (hroom : msg.options.length ≤ cfg.maxOptions)
    (hlast : msg.options ≠ [] → msg.lastOptionNumber ≤ OptionNumber.uriPath)
    (hnone : ∀ o ∈ msg.options, o.number ≠ OptionNumber.uriPath) :
    ((addUriPathOptions cfg msg path).2 = true ↔
      (segments path).length ≤ cfg.maxOptions - msg.options.length) ∧
    ((addUriPathOptions cfg msg path).2 = true → ∃ size, ∀ outCapacity ≥ size, ∃ buf d,
      (addUriPathOptions cfg msg path).1.encode outCapacity = .ok buf ∧
      Message.decode cfg buf = (.none, d) ∧
      ∀ cap ≥ 2, ∀ bytes,
        let r := joinUriPathInto d cap { bytes }
        (r.1 = true ↔ (written (segments path)).length ≤ cap - 1) ∧
        (r.1 = true → r.2.IsString (written (segments path))) ∧ r.2.Within cap) := by
  have hiff : (addUriPathOptions cfg msg path).2 = true ↔
      (segments path).length ≤ cfg.maxOptions - msg.options.length := addSegments_ok_iff hlast
  refine ⟨hiff, fun hok => ?_⟩
  have hadded : (addUriPathOptions cfg msg path).1 = withSegments msg (segments path) :=
    addSegments_eq _ _ hok
  have hfits := hiff.1 hok
  rw [hadded]
  -- the message with the path can be written and read back
  have hbacked : (withSegments msg (segments path)).Backed := by
    refine ⟨fun o ho => ?_, hmsg.payload⟩
    rcases List.mem_append.1 ho with hold | hseg
    · exact hmsg.readable o hold
    · obtain ⟨seg, -, rfl⟩ := List.mem_map.1 hseg
      exact readable_segment seg
  have hcount : (withSegments msg (segments path)).options.length ≤ cfg.maxOptions := by
    show (msg.options ++ _).length ≤ _
    rw [List.length_append, List.length_map]
    omega
  have hdec : Message.decode cfg (withSegments msg (segments path)).wrappedWire = _ :=
    Message.decode_wraps hbacked htoken hcount
  refine ⟨(withSegments msg (segments path)).wrappedWire.length, fun outCapacity hcap => ?_⟩
  refine ⟨_, _, (Message.encode_wraps hbacked outCapacity).1 hcap, hdec, fun cap hcap' bytes => ?_⟩
  have hvalues : uriPathValues (withSegments msg (segments path)).readBack.options =
      segments path := by
    rw [Message.uriPathValues_same (Message.sameOptions_readBack hbacked)]
    show uriPathValues (msg.options ++ _) = _
    rw [uriPathValues_append, uriPathValues_others hnone, uriPathValues_segments hsegs,
      List.nil_append]
  have hfresh : ({ bytes } : OutBuffer).Within cap := fun _ h => nomatch h
  have hjoin := joinInto_spec (Message.backed_readBack hbacked).readable hcap' hfresh
  rw [hvalues] at hjoin
  exact ⟨hjoin.1, fun htrue => ⟨hjoin.2.1 htrue, noNul_written hpath⟩, hjoin.2.2⟩

/-- A GET with a token and an Observe option. -/
def subscription : Message :=
  { code := Code.get, token := [0x07]
    options := [{ number := OptionNumber.observe, value := some [0x01], length := 1 }]
    lastOptionNumber := OptionNumber.observe }

/-- `"//a/b/"` behind the Observe option. -/
theorem path_round_trip_observe :
    let path : Bytes := [0x2F, 0x2F, 0x61, 0x2F, 0x62, 0x2F]
    ((addUriPathOptions .default subscription path).2 = true ↔
      (segments path).length ≤ Config.default.maxOptions - subscription.options.length) ∧
    ((addUriPathOptions .default subscription path).2 = true → ∃ size, ∀ outCapacity ≥ size,
      ∃ buf d, (addUriPathOptions .default subscription path).1.encode outCapacity = .ok buf ∧
      Message.decode .default buf = (.none, d) ∧
      ∀ cap ≥ 2, ∀ bytes,
        let r := joinUriPathInto d cap { bytes }
        (r.1 = true ↔ (written (segments path)).length ≤ cap - 1) ∧
        (r.1 = true → r.2.IsString (written (segments path))) ∧ r.2.Within cap) := by
  have hbacked : subscription.Backed := by
    refine ⟨fun o ho => ?_, fun b hb => ?_⟩
    · rw [List.mem_singleton.1 ho]
      exact fun _ => ⟨[0x01], rfl, by decide⟩
    · cases hb
  refine path_round_trip (by decide) (by decide) hbacked (by decide) (by decide)
    (fun _ => by decide) fun o ho => ?_
  rw [List.mem_singleton.1 ho]
  decide

end Uri

end PulseCoap
