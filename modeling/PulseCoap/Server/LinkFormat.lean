import Mathlib.Data.List.Basic
import PulseCoap.Exchange.Buffer
import PulseCoap.Server.Resource

/-!
# PulseCoAP — the CoRE Link Format document

`buildLinkFormat` fills `linkFormatBuffer_` front to back and checks the room in
four places: for a comma, a path, a type and `;obs`. A path that does not fit
ends the document, an attribute that does not fit is left out. The checks leave
exactly the last byte to the terminator. But the comma is checked and stored
before the path behind it is.

The text has two descriptions. `buildLinkFormatInto` is the function of the
source on the bytes of its buffer, each store noted; `listText` is the text of a
list of links. The bridge is the loop on lists of bytes, in two steps: in memory
it leaves the text that it computes (`Spells`), and that text is the links that
fit with what is left of the next one.

* `buildLinkFormatInto_spec` — the function on the memory of the buffer.
* `buildLinkFormat_eq` — the document as links and commas, and what is left of
  a link that did not fit.
* `listing_iff` — when the document is a list.
* `linksFrom`, `dangling` — the links that fit, and the comma behind them.
-/

namespace PulseCoap

namespace Resource

open Uri (OutBuffer)

-- ===========================================================================
-- In memory
-- ===========================================================================

/-- The attributes of one entry, from `pos` on. -/
def linkAttributesInto (cap : Nat) (r : Resource) (pos : Nat) (out : OutBuffer) :
    Nat × OutBuffer :=
  let typed := match r.resourceType with
    | some rt =>
      if pos + 6 + rt.length < cap then
        (pos + 6 + rt.length,
          ((out.copy pos rtOpen).copy (pos + 5) rt).write (pos + 5 + rt.length) quote)
      else (pos, out)
    | none => (pos, out)
  if r.observable ∧ typed.1 + 4 < cap then (typed.1 + 4, typed.2.copy typed.1 obsAttribute)
  else typed

/-- The loop of `buildLinkFormat`; `break` and the end of the loop give the position. -/
def linkEntriesInto (cap : Nat) : (first : Bool) → List Resource → (pos : Nat) → OutBuffer →
    Nat × OutBuffer
  | _, [], pos, out => (pos, out)
  | first, r :: rest, pos, out =>
    if r.path = Uri.wellKnownCore then linkEntriesInto cap first rest pos out
    else if !first ∧ pos + 1 ≥ cap then (pos, out)
    else
      let start := if first then (pos, out) else (pos + 1, out.write pos comma)
      if start.1 + r.path.length + 2 ≥ cap then start
      else
        let out := ((start.2.write start.1 less).copy (start.1 + 1) r.path).write
          (start.1 + 1 + r.path.length) greater
        let next := linkAttributesInto cap r (start.1 + r.path.length + 2) out
        linkEntriesInto cap false rest next.1 next.2

/-- `Server::buildLinkFormat`, on `linkFormatBuffer_`. -/
def buildLinkFormatInto (cfg : Config) (resources : List Resource) (out : OutBuffer) : OutBuffer :=
  let filled := linkEntriesInto cfg.maxLinkFormatLen true resources 0 (out.write 0 0)
  filled.2.write filled.1 0

/-- The buffer holds this text up to the position, and there is room for the terminator. -/
structure Spells (cap : Nat) (filled : Nat × OutBuffer) (text : Bytes) : Prop where
  pos    : filled.1 = text.length
  holds  : filled.2.Holds text
  within : filled.2.Within cap
  room   : text.length < cap

/-- One character more. -/
theorem Spells.write {cap pos : Nat} {out : OutBuffer} {text : Bytes}
    (h : Spells cap (pos, out) text) (hroom : pos + 1 < cap) (c : UInt8) :
    Spells cap (pos + 1, out.write pos c) (text ++ [c]) := by
  obtain ⟨rfl, hholds, hwithin, hlt⟩ := h
  have hlen : (text ++ [c]).length = text.length + 1 := by
    rw [List.length_append, List.length_singleton]
  exact ⟨hlen.symm, hholds.write c, hwithin.write hlt c, by rw [hlen]; exact hroom⟩

/-- A string more. -/
theorem Spells.copy {cap pos : Nat} {out : OutBuffer} {text : Bytes}
    (h : Spells cap (pos, out) text) (data : Bytes) (hroom : pos + data.length < cap) :
    Spells cap (pos + data.length, out.copy pos data) (text ++ data) := by
  obtain ⟨rfl, hholds, hwithin, hlt⟩ := h
  have hlen : (text ++ data).length = text.length + data.length := List.length_append
  exact ⟨hlen.symm, hholds.copy, hwithin.copy (Nat.le_of_lt hroom), by rw [hlen]; exact hroom⟩

/-- The attributes of an entry are written as they are read. -/
theorem Spells.attributes {cap pos : Nat} {out : OutBuffer} {text : Bytes}
    (h : Spells cap (pos, out) text) (r : Resource) :
    Spells cap (linkAttributesInto cap r pos out) (linkAttributes cap r text) := by
  have hpos : pos = text.length := h.pos
  -- the type first
  have htyped : ∀ p t, Spells cap p t →
      Spells cap
        (if r.observable ∧ p.1 + 4 < cap then (p.1 + 4, p.2.copy p.1 obsAttribute) else p)
        (if r.observable ∧ t.length + 4 < cap then t ++ obsAttribute else t) := by
    rintro ⟨p, b⟩ t ht
    have hp : p = t.length := ht.pos
    dsimp only
    rw [← hp]
    split
    · next hobs => exact ht.copy obsAttribute hobs.2
    · exact ht
  unfold linkAttributesInto linkAttributes
  dsimp only
  refine htyped _ _ ?_
  cases r.resourceType with
  | none => exact h
  | some rt =>
    dsimp only
    rw [← hpos]
    split
    · next hroom =>
      have hopen : rtOpen.length = 5 := rfl
      have hrt := (h.copy rtOpen (by rw [hopen]; omega)).copy rt (by rw [hopen]; omega)
      rw [hopen] at hrt
      have hquote := hrt.write (by omega) quote
      rwa [show pos + 5 + rt.length + 1 = pos + 6 + rt.length by omega] at hquote
    · exact h

/-- **The loop in memory** comes to the text of the loop on lists. Each pass writes at the
cursor and moves it, or gives up and leaves the cursor where it is. -/
theorem Spells.entries {cap : Nat} : ∀ {rs : List Resource} {first : Bool} {pos : Nat}
    {out : OutBuffer} {text : Bytes}, Spells cap (pos, out) text →
      Spells cap (linkEntriesInto cap first rs pos out) (linkEntries cap first rs text) := by
  intro rs
  induction rs with
  | nil => exact fun h => h
  | cons r rs ih =>
    intro first pos out text h
    have hpos : pos = text.length := h.pos
    rw [linkEntriesInto, linkEntries]
    by_cases hown : r.path = Uri.wellKnownCore
    · rw [if_pos hown, if_pos hown]
      exact ih h
    rw [if_neg hown, if_neg hown, ← hpos]
    by_cases hcomma : (!first) = true ∧ pos + 1 ≥ cap
    · rw [if_pos hcomma, if_pos hcomma]
      exact h
    rw [if_neg hcomma, if_neg hcomma]
    -- the comma, except in front of the first entry
    have hstart : Spells cap (if first then (pos, out) else (pos + 1, out.write pos comma))
        (if first then text else text ++ [comma]) := by
      cases first with
      | true => exact h
      | false => exact h.write (Nat.not_le.1 fun hle => hcomma ⟨rfl, hle⟩) comma
    generalize (if first then (pos, out) else (pos + 1, out.write pos comma)) = start at hstart
    generalize (if first then text else text ++ [comma]) = text' at hstart
    obtain ⟨pos', out'⟩ := start
    have hpos' : pos' = text'.length := hstart.pos
    dsimp only
    rw [← hpos']
    by_cases hpath : pos' + r.path.length + 2 ≥ cap
    · rw [if_pos hpath, if_pos hpath]
      exact hstart
    rw [if_neg hpath, if_neg hpath]
    -- the path in its brackets, and the attributes behind it
    have hentry := ((hstart.write (by omega) less).copy r.path (by omega)).write (by omega) greater
    rw [show pos' + 1 + r.path.length + 1 = pos' + r.path.length + 2 by omega] at hentry
    exact ih (hentry.attributes r)

/-- **`buildLinkFormat` in memory**: it stores inside the buffer, and leaves the text with its
terminator. The last byte of the buffer is kept for that. -/
theorem buildLinkFormatInto_spec {cfg : Config} (hcap : 0 < cfg.maxLinkFormatLen)
    (rs : List Resource) {out : OutBuffer} (hout : out.Within cfg.maxLinkFormatLen) :
    (buildLinkFormatInto cfg rs out).Within cfg.maxLinkFormatLen ∧
      (buildLinkFormatInto cfg rs out).Holds (buildLinkFormat cfg rs ++ [0]) := by
  have hstart : Spells cfg.maxLinkFormatLen (0, out.write 0 0) [] :=
    ⟨rfl, fun _ _ h => (nomatch h), hout.write hcap 0, hcap⟩
  have hfilled : Spells cfg.maxLinkFormatLen
      (linkEntriesInto cfg.maxLinkFormatLen true rs 0 (out.write 0 0))
      (linkEntries cfg.maxLinkFormatLen true rs []) := hstart.entries
  obtain ⟨hpos, hholds, hwithin, hroom⟩ := hfilled
  unfold buildLinkFormatInto buildLinkFormat
  dsimp only
  rw [hpos]
  exact ⟨hwithin.write hroom 0, hholds.write 0⟩

-- ===========================================================================
-- Links
-- ===========================================================================

/-- An entry: a resource with those of its attributes that are written. -/
structure Link where
  resource : Resource
  rt       : Bool
  obs      : Bool
  /-- A type is written only if there is one. -/
  typed    : rt = true → resource.resourceType.isSome = true
  /-- `;obs` is written only for an observable resource. -/
  observed : obs = true → resource.observable = true

/-- `;rt="…"`. -/
def typeText (r : Resource) : Bytes :=
  match r.resourceType with
  | some rt => rtOpen ++ rt ++ [quote]
  | none => []

/-- The text of an entry. -/
def Link.text (l : Link) : Bytes :=
  [less] ++ l.resource.path ++ [greater] ++ (if l.rt then typeText l.resource else []) ++
    if l.obs then obsAttribute else []

/-- An entry with all that its resource has. -/
def Link.full (r : Resource) : Link where
  resource := r
  rt       := r.resourceType.isSome
  obs      := r.observable
  typed    := id
  observed := id

/-- The resources of the document. -/
def listed (rs : List Resource) : List Resource := rs.filter fun r => r.path ≠ Uri.wellKnownCore

/-- Entries with commas between them. -/
noncomputable def listText (links : List Link) : Bytes :=
  List.intercalate [comma] (links.map Link.text)

/-- The text is a list of entries for the first resources, in the order of their registration. -/
def IsListing (rs : List Resource) (text : Bytes) : Prop :=
  ∃ links : List Link, links.map Link.resource <+: listed rs ∧ text = listText links

/-- Every resource with all its attributes. -/
noncomputable def fullText (rs : List Resource) : Bytes := listText ((listed rs).map .full)

-- ===========================================================================
-- What fits
-- ===========================================================================

/-- Where the entry behind a text of this length starts: with a comma, unless it is the first. -/
def entryStart (pos : Nat) : Nat := if pos = 0 then 0 else pos + 1

/-- Where `<path>` ends. -/
def pathEnd (start : Nat) (r : Resource) : Nat := start + r.path.length + 2

/-- There is a type, and room for it. -/
def typeFits (cap pos : Nat) (r : Resource) : Bool :=
  r.resourceType.isSome && decide (pos + (typeText r).length < cap)

/-- Where the type ends. -/
def typeEnd (cap start : Nat) (r : Resource) : Nat :=
  if typeFits cap (pathEnd start r) r then pathEnd start r + (typeText r).length
  else pathEnd start r

/-- The resource is observable, and there is room to say so. -/
def obsFits (cap start : Nat) (r : Resource) : Bool :=
  r.observable && decide (typeEnd cap start r + 4 < cap)

/-- Where the entry ends. -/
def entryEnd (cap start : Nat) (r : Resource) : Nat :=
  if obsFits cap start r then typeEnd cap start r + 4 else typeEnd cap start r

/-- There is room for the path. -/
def Fits (cap pos : Nat) (r : Resource) : Prop := pathEnd (entryStart pos) r < cap

instance (cap pos : Nat) (r : Resource) : Decidable (Fits cap pos r) :=
  inferInstanceAs (Decidable (_ < _))

/-- The entry that is written behind a text of this length. -/
def linkAt (cap start : Nat) (r : Resource) : Link where
  resource := r
  rt       := typeFits cap (pathEnd start r) r
  obs      := obsFits cap start r
  typed h  := (Bool.and_eq_true _ _ ▸ h).1
  observed h := (Bool.and_eq_true _ _ ▸ h).1

/-- The entries that are written behind a text of this length, up to the first that does not fit. -/
def linksFrom (cap : Nat) : (pos : Nat) → List Resource → List Link
  | _, [] => []
  | pos, r :: rest =>
    if Fits cap pos r then
      linkAt cap (entryStart pos) r :: linksFrom cap (entryEnd cap (entryStart pos) r) rest
    else []

/-- Where they end. -/
def listEnd (cap : Nat) : (pos : Nat) → List Resource → Nat
  | pos, [] => pos
  | pos, r :: rest =>
    if Fits cap pos r then listEnd cap (entryEnd cap (entryStart pos) r) rest else pos

/-- The first path that does not fit is behind another entry, with room for the comma. -/
def DanglesFrom (cap : Nat) : (pos : Nat) → List Resource → Prop
  | _, [] => False
  | pos, r :: rest =>
    if Fits cap pos r then DanglesFrom cap (entryEnd cap (entryStart pos) r) rest
    else 0 < pos ∧ pos + 1 < cap

instance decidableDanglesFrom (cap : Nat) : ∀ (pos : Nat) (rs : List Resource),
    Decidable (DanglesFrom cap pos rs)
  | _, [] => .isFalse id
  | pos, r :: rest =>
    haveI := decidableDanglesFrom cap (entryEnd cap (entryStart pos) r) rest
    inferInstanceAs (Decidable (if Fits cap pos r then _ else _ ∧ _))

/-- The same for the whole document. -/
def Dangles (cfg : Config) (rs : List Resource) : Prop :=
  DanglesFrom cfg.maxLinkFormatLen 0 (listed rs)

instance (cfg : Config) (rs : List Resource) : Decidable (Dangles cfg rs) :=
  decidableDanglesFrom _ _ _

-- ===========================================================================
-- One entry
-- ===========================================================================

/-- The first entry, and the others behind their commas. -/
theorem intercalate_cons (t : Bytes) (ts : List Bytes) :
    List.intercalate [comma] (t :: ts) = t ++ ts.flatMap (comma :: ·) := by
  induction ts generalizing t with
  | nil => rw [List.intercalate_singleton, List.flatMap_nil, List.append_nil]
  | cons u ts ih =>
    rw [List.intercalate_cons_cons, ih, List.flatMap_cons, List.append_assoc]
    rfl

/-- A link ends where the writer stands behind it. -/
theorem linkAt_length (cap start : Nat) (r : Resource) :
    start + (linkAt cap start r).text.length = entryEnd cap start r := by
  have hobs : obsAttribute.length = 4 := rfl
  unfold linkAt Link.text entryEnd typeEnd
  dsimp only
  simp only [List.length_append, List.length_singleton]
  split <;> split <;> simp only [hobs, List.length_nil] <;> unfold pathEnd <;> omega

/-- The resource type with its quotes and its name. -/
theorem typeText_length (r : Resource) (rt : Bytes) (h : r.resourceType = some rt) :
    (typeText r).length = 6 + rt.length := by
  unfold typeText
  rw [h]
  have hopen : rtOpen.length = 5 := rfl
  simp only [List.length_append, List.length_singleton, hopen]
  omega

/-- The attributes behind a text, the type first. -/
theorem linkAttributes_typed (cap : Nat) (r : Resource) (out : Bytes) :
    linkAttributes cap r out =
      let typed := out ++ if typeFits cap out.length r then typeText r else []
      if r.observable ∧ typed.length + 4 < cap then typed ++ obsAttribute else typed := by
  unfold linkAttributes typeFits
  cases hrt : r.resourceType with
  | none =>
    rw [Option.isSome_none, Bool.false_and, if_neg Bool.false_ne_true, List.append_nil]
  | some rt =>
    rw [typeText_length r rt hrt, Option.isSome_some, Bool.true_and, ← Nat.add_assoc]
    have htext : typeText r = rtOpen ++ rt ++ [quote] := by
      unfold typeText
      rw [hrt]
    rw [htext]
    by_cases hroom : out.length + 6 + rt.length < cap
    · simp only [if_pos hroom, decide_eq_true hroom, if_true, List.append_assoc]
    · simp only [if_neg hroom, decide_eq_false hroom, Bool.false_eq_true, if_false,
        List.append_nil]

/-- What the attributes make of an entry. -/
theorem linkAttributes_eq {cap start : Nat} {out : Bytes} (hstart : out.length = start)
    (r : Resource) :
    linkAttributes cap r (out ++ [less] ++ r.path ++ [greater]) =
      out ++ (linkAt cap start r).text := by
  have hpath : (out ++ [less] ++ r.path ++ [greater]).length = pathEnd start r := by
    unfold pathEnd
    simp only [List.length_append, List.length_singleton]
    omega
  rw [linkAttributes_typed, hpath]
  dsimp only
  have hend : (out ++ [less] ++ r.path ++ [greater] ++
      if typeFits cap (pathEnd start r) r then typeText r else []).length = typeEnd cap start r := by
    rw [List.length_append, hpath]
    unfold typeEnd
    split <;> rfl
  rw [hend]
  unfold linkAt Link.text
  dsimp only
  by_cases hobs : r.observable = true ∧ typeEnd cap start r + 4 < cap
  · have hfits : obsFits cap start r = true := by simpa [obsFits] using hobs
    rw [if_pos hobs, if_pos hfits]
    simp only [List.append_assoc]
  · have hfits : ¬ obsFits cap start r = true := by simpa [obsFits] using hobs
    rw [if_neg hobs, if_neg hfits]
    simp only [List.append_assoc, List.append_nil]

-- ===========================================================================
-- The document
-- ===========================================================================

/-- What is left of a link that did not fit. -/
def dangling (cap pos : Nat) (rs : List Resource) : Bytes :=
  if DanglesFrom cap pos rs then [comma] else []

theorem dangling_cons (cap pos : Nat) (r : Resource) (rs : List Resource) :
    dangling cap pos (r :: rs) =
      if Fits cap pos r then dangling cap (entryEnd cap (entryStart pos) r) rs
      else if 0 < pos ∧ pos + 1 < cap then [comma] else [] := by
  unfold dangling
  by_cases h : Fits cap pos r
  · simp only [DanglesFrom, if_pos h]
  · simp only [DanglesFrom, if_neg h]

theorem listed_cons (r : Resource) (rs : List Resource) :
    listed (r :: rs) = if r.path = Uri.wellKnownCore then listed rs else r :: listed rs := by
  unfold listed
  by_cases h : r.path = Uri.wellKnownCore
  · rw [if_pos h, List.filter_cons_of_neg (by simpa using h)]
  · rw [if_neg h, List.filter_cons_of_pos (by simpa using h)]

/-- Behind a text that has entries already. -/
theorem linkEntries_next {cap : Nat} : ∀ {rs : List Resource} {out : Bytes}, out ≠ [] →
    linkEntries cap false rs out =
      out ++ (linksFrom cap out.length (listed rs)).flatMap (fun l => comma :: l.text) ++
        dangling cap out.length (listed rs) := by
  intro rs
  induction rs with
  | nil =>
    intro out _
    simp [linkEntries, listed, linksFrom, dangling, DanglesFrom]
  | cons r rs ih =>
    intro out hout
    have hpos : out.length ≠ 0 := fun h => hout (List.eq_nil_of_length_eq_zero h)
    have hlen : (out ++ [comma]).length = out.length + 1 := by
      rw [List.length_append, List.length_singleton]
    have hstart : entryStart out.length = out.length + 1 := if_neg hpos
    have hfits : Fits cap out.length r ↔ out.length + 1 + r.path.length + 2 < cap := by
      unfold Fits pathEnd
      rw [hstart]
    rw [linkEntries, listed_cons]
    -- the entry of the document itself is skipped
    by_cases hown : r.path = Uri.wellKnownCore
    · rw [if_pos hown, if_pos hown]
      exact ih hout
    rw [if_neg hown, if_neg hown, linksFrom, dangling_cons]
    rw [hstart]
    simp only [Bool.not_false, true_and, Bool.false_eq_true, if_false]
    rw [hlen]
    by_cases hroom : out.length + 1 + r.path.length + 2 < cap
    · -- the entry, and the ones behind it
      rw [if_neg (show ¬ out.length + 1 ≥ cap by omega), if_neg (Nat.not_le.2 hroom),
        if_pos (hfits.2 hroom), if_pos (hfits.2 hroom), linkAttributes_eq hlen, ih (by simp)]
      have hend : (out ++ [comma] ++ (linkAt cap (out.length + 1) r).text).length =
          entryEnd cap (out.length + 1) r := by
        rw [List.length_append, hlen, linkAt_length]
      rw [hend, List.flatMap_cons]
      simp only [dangling, List.append_assoc, List.cons_append, List.nil_append]
    · -- the path does not fit: the list ends, behind a comma if there is room for that
      rw [if_neg (mt hfits.1 hroom), if_neg (mt hfits.1 hroom), List.flatMap_nil, List.append_nil]
      by_cases hcomma : out.length + 1 ≥ cap
      · rw [if_pos hcomma, if_neg (by omega), List.append_nil]
      · rw [if_neg hcomma, if_pos (Nat.not_lt.1 hroom), if_pos (by omega)]

/-- **The document**: the links that fit, with commas between them, and what is left of one that
did not. What is left is the comma in front of it at most. -/
theorem buildLinkFormat_eq (cfg : Config) (rs : List Resource) :
    buildLinkFormat cfg rs =
      listText (linksFrom cfg.maxLinkFormatLen 0 (listed rs)) ++
        dangling cfg.maxLinkFormatLen 0 (listed rs) := by
  unfold buildLinkFormat
  induction rs with
  | nil => simp [linkEntries, listed, linksFrom, dangling, DanglesFrom, listText]
  | cons r rs ih =>
    rw [linkEntries, listed_cons]
    by_cases hown : r.path = Uri.wellKnownCore
    · rw [if_pos hown, if_pos hown]
      exact ih
    rw [if_neg hown, if_neg hown, linksFrom, dangling_cons]
    -- the first entry of the document has no comma to make room for
    have hstart : entryStart 0 = 0 := rfl
    have hfits : Fits cfg.maxLinkFormatLen 0 r ↔ 0 + r.path.length + 2 < cfg.maxLinkFormatLen :=
      Iff.rfl
    rw [hstart]
    simp only [Bool.not_true, Bool.false_eq_true, false_and, if_false, if_true, List.length_nil]
    by_cases hroom : 0 + r.path.length + 2 < cfg.maxLinkFormatLen
    · have hend := linkAt_length cfg.maxLinkFormatLen 0 r
      rw [Nat.zero_add] at hend
      have hne : [] ++ (linkAt cfg.maxLinkFormatLen 0 r).text ≠ [] := by
        simp [Link.text]
      rw [if_neg (Nat.not_le.2 hroom), if_pos (hfits.2 hroom), if_pos (hfits.2 hroom),
        linkAttributes_eq List.length_nil, linkEntries_next hne, List.nil_append, hend]
      unfold listText
      rw [List.map_cons, intercalate_cons, List.flatMap_map]
    · rw [if_pos (Nat.not_lt.1 hroom), if_neg (mt hfits.1 hroom), if_neg (mt hfits.1 hroom),
        if_neg (by omega)]
      rfl

-- ===========================================================================
-- A list
-- ===========================================================================

/-- The links are those of the first resources. -/
theorem linksFrom_prefix {cap : Nat} : ∀ {rs : List Resource} {pos : Nat},
    (linksFrom cap pos rs).map Link.resource <+: rs := by
  intro rs
  induction rs with
  | nil => exact fun {_} => List.prefix_rfl
  | cons r rs ih =>
    intro pos
    rw [linksFrom]
    split
    · exact (List.prefix_cons_inj r).2 ih
    · exact List.nil_prefix

/-- An entry ends with `'>'`, with a quote or with `;obs`. -/
theorem Link.text_last (l : Link) : ∃ c, l.text.getLast? = some c ∧ c ≠ comma := by
  unfold Link.text
  cases hobs : l.obs with
  | true =>
    refine ⟨0x73, ?_, by decide⟩
    rw [if_pos rfl, List.getLast?_append]
    rfl
  | false =>
    rw [if_neg Bool.false_ne_true, List.append_nil]
    cases hrt : l.rt with
    | false =>
      refine ⟨greater, ?_, by decide⟩
      rw [if_neg Bool.false_ne_true, List.append_nil, List.getLast?_append]
      rfl
    | true =>
      obtain ⟨rt, hsome⟩ := Option.isSome_iff_exists.1 (l.typed hrt)
      have htext : typeText l.resource = rtOpen ++ rt ++ [quote] := by
        unfold typeText
        rw [hsome]
      refine ⟨quote, ?_, by decide⟩
      rw [if_pos rfl, htext, List.getLast?_append, List.getLast?_append]
      rfl

theorem listText_cons (l : Link) (ls : List Link) :
    listText (l :: ls) = l.text ++ ls.flatMap fun l => comma :: l.text := by
  unfold listText
  rw [List.map_cons, intercalate_cons, List.flatMap_map]

/-- A list ends as its last entry does. -/
theorem listText_last : ∀ (links : List Link), (listText links).getLast? ≠ some comma := by
  have hcons : ∀ (ls : List Link) (l : Link),
      ∃ c, (listText (l :: ls)).getLast? = some c ∧ c ≠ comma := by
    intro ls
    induction ls with
    | nil =>
      intro l
      rw [listText_cons, List.flatMap_nil, List.append_nil]
      exact l.text_last
    | cons m ls ih =>
      intro l
      obtain ⟨c, hlast, hc⟩ := ih m
      refine ⟨c, ?_, hc⟩
      rw [listText_cons, List.flatMap_cons, List.cons_append, ← listText_cons, List.append_cons,
        List.getLast?_append, hlast]
      rfl
  intro links
  cases links with
  | nil => exact fun h => nomatch h
  | cons l ls =>
    obtain ⟨c, hlast, hc⟩ := hcons ls l
    rw [hlast]
    exact fun h => hc (Option.some.inj h)

/-- **When the document is a list**: when it was not cut behind a comma. A link that lacks
attributes for want of room is a link all the same. -/
theorem listing_iff (cfg : Config) (rs : List Resource) :
    IsListing rs (buildLinkFormat cfg rs) ↔ ¬ Dangles cfg rs := by
  rw [buildLinkFormat_eq]
  unfold dangling Dangles
  by_cases hcut : DanglesFrom cfg.maxLinkFormatLen 0 (listed rs)
  · rw [if_pos hcut]
    refine iff_of_false ?_ (not_not_intro hcut)
    rintro ⟨links, -, htext⟩
    have hlast := listText_last links
    rw [← htext, List.getLast?_append] at hlast
    exact hlast rfl
  · rw [if_neg hcut, List.append_nil]
    exact iff_of_true ⟨_, linksFrom_prefix, rfl⟩ hcut

/-- An entry that fits with all its attributes has them. -/
theorem linkAt_full {cap start : Nat} {r : Resource}
    (h : start + (Link.full r).text.length < cap) :
    pathEnd start r < cap ∧ linkAt cap start r = .full r ∧
      entryEnd cap start r = start + (Link.full r).text.length := by
  have hobsLen : obsAttribute.length = 4 := rfl
  have hlen : (Link.full r).text.length = r.path.length + 2 +
      (if r.resourceType.isSome then (typeText r).length else 0) +
        if r.observable then 4 else 0 := by
    unfold Link.full Link.text
    dsimp only
    simp only [List.length_append, List.length_singleton]
    split <;> split <;> simp only [hobsLen, List.length_nil] <;> omega
  rw [hlen] at h
  -- the room for each attribute is asked for with those before it written
  have htype : typeFits cap (pathEnd start r) r = r.resourceType.isSome := by
    unfold typeFits pathEnd
    cases hrt : r.resourceType.isSome with
    | false => rfl
    | true =>
      rw [hrt, if_pos rfl] at h
      rw [Bool.true_and]
      exact decide_eq_true (by omega)
  have hobs : obsFits cap start r = r.observable := by
    unfold obsFits typeEnd
    rw [htype]
    cases hob : r.observable with
    | false => rfl
    | true =>
      rw [hob, if_pos rfl] at h
      rw [Bool.true_and]
      refine decide_eq_true ?_
      unfold pathEnd
      split at h <;> next hrt => simp only [hrt, if_true, Bool.false_eq_true, if_false]; omega
  have hlink : linkAt cap start r = .full r := by
    unfold linkAt Link.full
    simp only [htype, hobs]
  refine ⟨?_, hlink, ?_⟩
  · unfold pathEnd
    omega
  · rw [← linkAt_length, hlink]

/-- Behind a text that has entries already, all is written if all fits. -/
theorem linksFrom_full {cap : Nat} : ∀ {rs : List Resource} {pos : Nat}, 0 < pos →
    pos + ((rs.map Link.full).flatMap fun l => comma :: l.text).length < cap →
      linksFrom cap pos rs = rs.map .full ∧ ¬ DanglesFrom cap pos rs := by
  intro rs
  induction rs with
  | nil => exact fun _ _ => ⟨rfl, id⟩
  | cons r rs ih =>
    intro pos hpos h
    rw [List.map_cons, List.flatMap_cons, List.cons_append, List.length_cons,
      List.length_append] at h
    have hstart : entryStart pos = pos + 1 := if_neg (by omega)
    obtain ⟨hpath, hlink, hend⟩ := linkAt_full (show pos + 1 + (Link.full r).text.length < cap by omega)
    have hfits : Fits cap pos r := by
      unfold Fits
      rwa [hstart]
    obtain ⟨hlinks, hcut⟩ := ih (show 0 < pos + 1 + (Link.full r).text.length by omega) (by omega)
    rw [linksFrom, DanglesFrom, if_pos hfits, if_pos hfits, hstart, hlink, hend]
    exact ⟨by rw [hlinks]; rfl, hcut⟩

/-- **When everything fits**, all is there, and with no comma at the end. -/
theorem buildLinkFormat_full {cfg : Config} {rs : List Resource}
    (h : (fullText rs).length < cfg.maxLinkFormatLen) : buildLinkFormat cfg rs = fullText rs := by
  rw [buildLinkFormat_eq]
  unfold fullText at h ⊢
  cases hrs : listed rs with
  | nil => rfl
  | cons r rest =>
    rw [hrs, List.map_cons, listText_cons, List.length_append] at h
    have hstart : entryStart 0 = 0 := rfl
    obtain ⟨hpath, hlink, hend⟩ := linkAt_full
      (show 0 + (Link.full r).text.length < cfg.maxLinkFormatLen by omega)
    rw [Nat.zero_add] at hend
    have hpos : 0 < (Link.full r).text.length := by simp [Link.text]
    have hfits : Fits cfg.maxLinkFormatLen 0 r := hpath
    obtain ⟨hlinks, hcut⟩ := linksFrom_full hpos (by omega)
    rw [linksFrom, dangling_cons, if_pos hfits, if_pos hfits, hstart, hlink, hend, hlinks]
    unfold dangling
    rw [if_neg hcut, List.append_nil, List.map_cons]

/-- Where the entries end. -/
theorem listEnd_eq {cap : Nat} : ∀ {rs : List Resource} {pos : Nat}, 0 < pos →
    pos + ((linksFrom cap pos rs).flatMap fun l => comma :: l.text).length = listEnd cap pos rs := by
  intro rs
  induction rs with
  | nil => exact fun _ => rfl
  | cons r rs ih =>
    intro pos hpos
    have hstart : entryStart pos = pos + 1 := if_neg (by omega)
    rw [linksFrom, listEnd]
    split
    · have hend := linkAt_length cap (pos + 1) r
      rw [List.flatMap_cons, List.cons_append, List.length_cons, List.length_append, hstart, ← hend,
        ← ih (by omega)]
      omega
    · rfl

/-- The length of a document that is a list. -/
theorem buildLinkFormat_length {cfg : Config} {rs : List Resource} (h : ¬ Dangles cfg rs) :
    (buildLinkFormat cfg rs).length = listEnd cfg.maxLinkFormatLen 0 (listed rs) := by
  unfold Dangles at h
  rw [buildLinkFormat_eq]
  unfold dangling
  rw [if_neg h, List.append_nil]
  cases listed rs with
  | nil => rfl
  | cons r rest =>
    rw [linksFrom, listEnd]
    split
    · have hend := linkAt_length cfg.maxLinkFormatLen 0 r
      rw [Nat.zero_add] at hend
      have hstart : entryStart 0 = 0 := rfl
      have hpos : 0 < (linkAt cfg.maxLinkFormatLen 0 r).text.length := by simp [Link.text]
      rw [listText_cons, List.length_append, hstart, ← hend, ← listEnd_eq hpos]
    · rfl

end Resource

end PulseCoap
