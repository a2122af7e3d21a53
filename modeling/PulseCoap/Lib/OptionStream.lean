import PulseCoap.Lib.ExtField

/-!
# Delta-coded option streams

A stream of numbered values in non-decreasing order of number. Each entry is a
head byte, whose nibbles are those of the number's difference from the entry
before and of the value's length, the extension bytes of the two, and the
value. The byte 0xFF ends the entries and announces a non-empty rest, the
payload; without it the stream ends with its last entry.

`readWith red` is the reader of an implementation that computes numbers and
lengths under a reduction `red`; `read` is the exact one, `red = id`. Both
admit at most `budget` entries and no number above `top`.

Both readers are recursive on the budget, which each entry takes one of, so that
no measure on the bytes is needed. A proof about what has been read goes by
`readWith_induction`; one about what a reader makes of an arbitrary stream goes
by the budget and by the first byte: none, the marker, or the head of an entry,
for each of which there is an equation of `readWith`.

* `readWith_induction` — the induction rule for what a reader has read.
* `read_write`, `read_sound` — the exact reader is the inverse of `write`: the
  streams it accepts are exactly the ones written by well-formed entries.
* `readWith_isSome_iff` — a reader whose reduction respects `top` accepts
  exactly the `Framed` streams: numbers play no part.
* `readWith_agree_iff` — such a reader gives the exact result on every stream
  except those it `Misreads`: the ones with an entry whose number or length the
  reduction changes and whose rest one of the two readers accepts.
-/

namespace PulseCoap.OptionStream

open ExtField

/-- One entry: its number and its value. -/
abbrev Entry := Nat × List UInt8

/-- A head byte, the two extensions and the value. -/
def writeEntry (last : Nat) (e : Entry) : List UInt8 :=
  UInt8.ofNat (nibble (e.1 - last) * 16 + nibble e.2.length) ::
    (extBytes (e.1 - last) ++ extBytes e.2.length ++ e.2)

/-- The entries, each written against the number of the one before. -/
def writeEntries (last : Nat) : List Entry → List UInt8
  | [] => []
  | e :: es => writeEntry last e ++ writeEntries e.1 es

/-- The payload with its marker; an empty one takes no byte. -/
def writePayload (p : List UInt8) : List UInt8 :=
  if p = [] then [] else 0xFF :: p

def write (last : Nat) (es : List Entry) (p : List UInt8) : List UInt8 :=
  writeEntries last es ++ writePayload p

/-- The exact difference and length that a head byte announces, and what
follows their extensions. -/
def readHead (head : UInt8) (bs : List UInt8) : Option (Nat × Nat × List UInt8) := do
  let (delta, bs) ← readExt (head.toNat / 16) bs
  let (len, bs) ← readExt (head.toNat % 16) bs
  some (delta, len, bs)

/-- The entry at the front of a stream, computed under `red`. -/
def readEntryWith (red : Nat → Nat) (top last : Nat) (head : UInt8) (bs : List UInt8) :
    Option (Entry × List UInt8) := do
  let (delta, len, bs) ← readHead head bs
  if top < red (last + delta) ∨ bs.length < red len then none
  else some ((red (last + delta), bs.take (red len)), bs.drop (red len))

/-- The entries and the payload of a stream, computed under `red`. -/
def readWith (red : Nat → Nat) (top : Nat) : (budget : Nat) → (last : Nat) → List UInt8 →
    Option (List Entry × List UInt8)
  | _, _, [] => some ([], [])
  | budget, last, head :: bs =>
    if head = 0xFF then
      if bs = [] then none else some ([], bs)
    else
      match budget with
      | 0 => none
      | budget + 1 => do
        let (e, rest) ← readEntryWith red top last head bs
        let (es, p) ← readWith red top budget e.1 rest
        some (e :: es, p)

/-- The reader in exact arithmetic. -/
abbrev read (top budget last : Nat) (bs : List UInt8) : Option (List Entry × List UInt8) :=
  readWith id top budget last bs

/-- Entries a stream can carry after an entry numbered `last`: numbers do not
decrease or pass `top`, and every length has an extended form. -/
def Entries (top : Nat) : (last : Nat) → List Entry → Prop
  | _, [] => True
  | last, e :: es => last ≤ e.1 ∧ e.1 ≤ top ∧ e.2.length < 65805 ∧ Entries top e.1 es

/-! ## The head byte -/

theorem head_toNat (d l : Nat) :
    (UInt8.ofNat (nibble d * 16 + nibble l)).toNat = nibble d * 16 + nibble l := by
  have hd := nibble_le d
  have hl := nibble_le l
  rw [UInt8.toNat_ofNat', Nat.mod_eq_of_lt (by omega)]

/-- No head byte is the payload marker. -/
theorem head_ne_marker (d l : Nat) : UInt8.ofNat (nibble d * 16 + nibble l) ≠ 0xFF := by
  intro h
  have hd := nibble_le d
  have hl := nibble_le l
  have := congrArg UInt8.toNat h
  rw [head_toNat] at this
  have h255 : (0xFF : UInt8).toNat = 255 := rfl
  omega

/-- A head byte is the two nibbles it is split into. -/
theorem head_of_nibbles {head : UInt8} {d l : Nat} (hd : head.toNat / 16 = nibble d)
    (hl : head.toNat % 16 = nibble l) :
    head = UInt8.ofNat (nibble d * 16 + nibble l) := by
  rw [← UInt8.toNat_inj, head_toNat]
  omega

/-- What was written as a head is read back. -/
theorem readHead_write {d l : Nat} (hd : d < 65805) (hl : l < 65805) (rest : List UInt8) :
    readHead (UInt8.ofNat (nibble d * 16 + nibble l)) (extBytes d ++ extBytes l ++ rest) =
      some (d, l, rest) := by
  have hnl := nibble_le l
  have hdiv : (nibble d * 16 + nibble l) / 16 = nibble d := by omega
  have hmod : (nibble d * 16 + nibble l) % 16 = nibble l := by omega
  unfold readHead
  rw [head_toNat, hdiv, hmod, List.append_assoc, readExt_write hd]
  show (readExt (nibble l) (extBytes l ++ rest) >>= _) = _
  rw [readExt_write hl]
  rfl

/-- What is read is the head that was written, and nothing else: the extended bytes are those of the
writer. -/
theorem readHead_sound {head : UInt8} {bs rest : List UInt8} {d l : Nat}
    (h : readHead head bs = some (d, l, rest)) :
    d < 65805 ∧ l < 65805 ∧
      head :: bs = UInt8.ofNat (nibble d * 16 + nibble l) :: (extBytes d ++ extBytes l ++ rest) := by
  unfold readHead at h
  simp only [Option.bind_eq_bind, Option.bind_eq_some_iff, Prod.exists] at h
  obtain ⟨d', bs₁, h₁, l', bs₂, h₂, h⟩ := h
  obtain ⟨rfl, rfl, rfl⟩ : d' = d ∧ l' = l ∧ bs₂ = rest := by simpa using h
  obtain ⟨hd, hnd, rfl⟩ := readExt_sound h₁
  obtain ⟨hl, hnl, rfl⟩ := readExt_sound h₂
  exact ⟨hd, hl, by rw [head_of_nibbles hnd hnl, List.append_assoc]⟩

/-- Reading a head consumes bytes, and gives none. -/
theorem readHead_length {head : UInt8} {bs rest : List UInt8} {d l : Nat}
    (h : readHead head bs = some (d, l, rest)) : rest.length ≤ bs.length := by
  unfold readHead at h
  simp only [Option.bind_eq_bind, Option.bind_eq_some_iff, Prod.exists] at h
  obtain ⟨d', bs₁, h₁, l', bs₂, h₂, h⟩ := h
  obtain ⟨rfl, rfl, rfl⟩ : d' = d ∧ l' = l ∧ bs₂ = rest := by simpa using h
  exact Nat.le_trans (readExt_length h₂) (readExt_length h₁)

/-! ## One entry of a stream -/

/-- An entry in front of what a reader makes of the rest. -/
def consTo (e : Entry) (r : Option (List Entry × List UInt8)) :
    Option (List Entry × List UInt8) := do
  let (es, p) ← r
  some (e :: es, p)

theorem readWith_nil {red : Nat → Nat} {top budget last : Nat} :
    readWith red top budget last [] = some ([], []) := by
  cases budget <;> rfl

/-- Behind the payload marker there is a payload, and it is not empty. -/
theorem readWith_marker {red : Nat → Nat} {top budget last : Nat} (bs : List UInt8) :
    readWith red top budget last (0xFF :: bs) = if bs = [] then none else some ([], bs) := by
  cases budget <;> simp [readWith]

/-- One more option than there is room for is an error. -/
theorem readWith_zero {red : Nat → Nat} {top last : Nat} {head : UInt8} (hmark : head ≠ 0xFF)
    (bs : List UInt8) : readWith red top 0 last (head :: bs) = none := by
  simp [readWith, hmark]

theorem readWith_head_none {red : Nat → Nat} {top budget last : Nat} {head : UInt8}
    {bs : List UInt8} (hmark : head ≠ 0xFF) (hhead : readHead head bs = none) :
    readWith red top budget last (head :: bs) = none := by
  cases budget with
  | zero => simp [readWith, hmark]
  | succ budget => simp [readWith, hmark, readEntryWith, hhead]

/-- One entry and the rest, with the head taken apart. -/
theorem readWith_head {red : Nat → Nat} {top budget last : Nat} {head : UInt8}
    {bs rest : List UInt8} {delta len : Nat} (hmark : head ≠ 0xFF)
    (hhead : readHead head bs = some (delta, len, rest)) :
    readWith red top (budget + 1) last (head :: bs) =
      if red (last + delta) ≤ top ∧ red len ≤ rest.length then
        consTo (red (last + delta), rest.take (red len))
          (readWith red top budget (red (last + delta)) (rest.drop (red len)))
      else none := by
  rw [readWith, if_neg hmark, readEntryWith, hhead]
  by_cases hok : red (last + delta) ≤ top ∧ red len ≤ rest.length
  · have hrej : ¬ (top < red (last + delta) ∨ rest.length < red len) := by omega
    simp [hok, hrej, consTo]
  · have hrej : top < red (last + delta) ∨ rest.length < red len := by omega
    simp [hok, hrej]

/-- What a reader has read: the payload alone, or an entry and the rest. -/
theorem readWith_inv {red : Nat → Nat} {top budget last : Nat} {bs p : List UInt8}
    {es : List Entry} (h : readWith red top budget last bs = some (es, p)) :
    (es = [] ∧ bs = writePayload p) ∨
      ∃ k head tail delta len rest es', budget = k + 1 ∧ bs = head :: tail ∧ head ≠ 0xFF ∧
        readHead head tail = some (delta, len, rest) ∧ red (last + delta) ≤ top ∧
        red len ≤ rest.length ∧
        readWith red top k (red (last + delta)) (rest.drop (red len)) = some (es', p) ∧
        es = (red (last + delta), rest.take (red len)) :: es' := by
  cases bs with
  | nil =>
    rw [readWith_nil] at h
    obtain ⟨rfl, rfl⟩ := Prod.mk.inj (Option.some.inj h)
    exact .inl ⟨rfl, rfl⟩
  | cons head tail =>
    by_cases hmark : head = 0xFF
    · rw [hmark, readWith_marker] at h
      split at h
      · cases h
      · next hne =>
        obtain ⟨rfl, rfl⟩ := Prod.mk.inj (Option.some.inj h)
        exact .inl ⟨rfl, by rw [hmark, writePayload, if_neg hne]⟩
    · -- an entry takes one of the budget
      cases budget with
      | zero =>
        rw [readWith_zero hmark] at h
        cases h
      | succ k =>
        cases hhead : readHead head tail with
        | none =>
          rw [readWith_head_none hmark hhead] at h
          cases h
        | some r =>
          obtain ⟨delta, len, rest⟩ := r
          rw [readWith_head hmark hhead] at h
          -- the entry is admitted: its value is there, and its number is no larger than `top`
          split at h
          · next hok =>
            cases hrec : readWith red top k (red (last + delta)) (rest.drop (red len)) with
            | none =>
              rw [hrec] at h
              cases h
            | some r =>
              obtain ⟨es', p'⟩ := r
              rw [hrec] at h
              obtain ⟨rfl, rfl⟩ := Prod.mk.inj (Option.some.inj h)
              exact .inr ⟨k, head, tail, delta, len, rest, es', rfl, rfl, hmark, hhead, hok.1,
                hok.2, hrec, rfl⟩
          · cases h

/-- **The induction rule** for what is read: the payload alone, and an entry in front of a rest
that has been read. Facts about accepted streams are proved by it and not by the recursion of
the reader, whose error paths it leaves out. -/
theorem readWith_induction {red : Nat → Nat} {top : Nat} {p : List UInt8}
    {motive : Nat → Nat → List UInt8 → List Entry → Prop}
    (payload : ∀ budget last, motive budget last (writePayload p) [])
    (entry : ∀ budget last head tail delta len rest es, head ≠ 0xFF →
      readHead head tail = some (delta, len, rest) → red (last + delta) ≤ top →
      red len ≤ rest.length →
      readWith red top budget (red (last + delta)) (rest.drop (red len)) = some (es, p) →
      motive budget (red (last + delta)) (rest.drop (red len)) es →
      motive (budget + 1) last (head :: tail) ((red (last + delta), rest.take (red len)) :: es)) :
    ∀ {budget last : Nat} {bs : List UInt8} {es : List Entry},
      readWith red top budget last bs = some (es, p) → motive budget last bs es := by
  intro budget
  induction budget with
  | zero =>
    intro last bs es h
    rcases readWith_inv h with ⟨rfl, rfl⟩ | ⟨_, _, _, _, _, _, _, hk, -⟩
    · exact payload 0 last
    · cases hk
  | succ budget ih =>
    intro last bs es h
    rcases readWith_inv h with ⟨rfl, rfl⟩ |
      ⟨k, head, tail, delta, len, rest, es, hk, rfl, hmark, hhead, htop, hlen, hrest, rfl⟩
    · exact payload _ last
    · obtain rfl : budget = k := Nat.succ.inj hk
      exact entry budget last head tail delta len rest es hmark hhead htop hlen hrest (ih hrest)

/-- The entries a reader returns are reduced. -/
theorem readWith_mem {red : Nat → Nat} {top budget last : Nat} {bs p : List UInt8}
    {es : List Entry} (h : readWith red top budget last bs = some (es, p)) :
    ∀ e ∈ es, e.1 ≤ top ∧ ∃ len, e.2.length = red len := by
  refine readWith_induction (motive := fun _ _ _ es =>
    ∀ e ∈ es, e.1 ≤ top ∧ ∃ len, e.2.length = red len) ?_ ?_ h
  · intro _ _ e he
    cases he
  · intro _ _ _ _ _ len rest es _ _ htop hlen _ ih e he
    rcases List.mem_cons.1 he with rfl | he
    · exact ⟨htop, len, by rw [List.length_take, Nat.min_eq_left hlen]⟩
    · exact ih e he

/-- A reader keeps to its budget. -/
theorem readWith_length {red : Nat → Nat} {top budget last : Nat} {bs p : List UInt8}
    {es : List Entry} (h : readWith red top budget last bs = some (es, p)) :
    es.length ≤ budget := by
  refine readWith_induction (motive := fun budget _ _ es => es.length ≤ budget) ?_ ?_ h
  · exact fun budget _ => Nat.zero_le budget
  · exact fun _ _ _ _ _ _ _ _ _ _ _ _ _ ih => Nat.succ_le_succ ih

/-! ## Reading what was written -/

/-- An entry that was written is read back as it was. -/
theorem readEntryWith_write {red : Nat → Nat} {top last : Nat} {e : Entry}
    (hlast : last ≤ e.1) (htop : e.1 ≤ top) (hbound : top < 65805) (hlen : e.2.length < 65805)
    (hnum : red e.1 = e.1) (hred : red e.2.length = e.2.length) (rest : List UInt8) :
    readEntryWith red top last (UInt8.ofNat (nibble (e.1 - last) * 16 + nibble e.2.length))
      (extBytes (e.1 - last) ++ extBytes e.2.length ++ (e.2 ++ rest)) = some (e, rest) := by
  unfold readEntryWith
  rw [readHead_write (by omega) hlen]
  have hsum : last + (e.1 - last) = e.1 := by omega
  show (if _ then _ else _) = _
  rw [hsum, hnum, hred, if_neg (by simp; omega)]
  simp

theorem write_cons (last : Nat) (e : Entry) (es : List Entry) (p : List UInt8) :
    write last (e :: es) p = writeEntry last e ++ write e.1 es p := by
  simp only [write, writeEntries, List.append_assoc]

/-- A whole entry at the front of a stream. -/
theorem readWith_entry {red : Nat → Nat} {top budget last : Nat} {e : Entry}
    (hlast : last ≤ e.1) (htop : e.1 ≤ top) (hbound : top < 65805) (hlen : e.2.length < 65805)
    (hnum : red e.1 = e.1) (hred : red e.2.length = e.2.length) (rest : List UInt8) :
    readWith red top (budget + 1) last (writeEntry last e ++ rest) =
      consTo e (readWith red top budget e.1 rest) := by
  have hhead := readEntryWith_write hlast htop hbound hlen hnum hred rest
  rw [writeEntry, List.cons_append, List.append_assoc _ e.2 rest, readWith,
    if_neg (head_ne_marker _ _), hhead]
  rfl

/-- Reading back a written stream, with any reduction that leaves its numbers
and lengths alone. -/
theorem readWith_write {red : Nat → Nat} {top : Nat} (hbound : top < 65805)
    (hnum : ∀ n ≤ top, red n = n) (p : List UInt8) :
    ∀ (es : List Entry) {budget last : Nat}, es.length ≤ budget → Entries top last es →
      (∀ e ∈ es, red e.2.length = e.2.length) →
      readWith red top budget last (write last es p) = some (es, p) := by
  intro es
  induction es with
  | nil =>
    intro budget last _ _ _
    by_cases hp : p = []
    · subst hp
      cases budget <;> rfl
    · show readWith red top budget last (writePayload p) = _
      rw [writePayload, if_neg hp]
      cases budget <;> simp [readWith, hp]
  | cons e es ih =>
    intro budget last hbud hes hred
    -- the first entry is read back by `readWith_entry`, the rest by the induction
    obtain ⟨hlast, htop, hlen, htail⟩ := hes
    cases budget with
    | zero => simp at hbud
    | succ budget =>
      have hrest := @ih budget e.1 (by simpa using hbud) htail
        fun x hx => hred x (List.mem_cons_of_mem _ hx)
      rw [write_cons, readWith_entry hlast htop hbound hlen (hnum _ htop)
        (hred e (List.mem_cons_self ..)), hrest]
      rfl

/-- Reading back a written stream exactly. -/
theorem read_write {top : Nat} (hbound : top < 65805) (p : List UInt8) (es : List Entry)
    {budget last : Nat} (hbud : es.length ≤ budget) (hes : Entries top last es) :
    read top budget last (write last es p) = some (es, p) :=
  readWith_write hbound (fun _ _ => rfl) p es hbud hes fun _ _ => rfl

/-- The numbers do not decrease to the end of the list. -/
theorem Entries.le_getLast {top : Nat} : ∀ {es : List Entry} {last : Nat},
    Entries top last es → ∀ x ∈ es.getLast?, last ≤ x.1
  | [], _, _ => by simp
  | [e], last, h => by simpa using h.1
  | e :: e' :: es, last, h => fun x hx =>
    Nat.le_trans h.1 (Entries.le_getLast h.2.2.2 x (by simpa using hx))

/-- A stream grows at its end by an entry numbered no lower than its last. -/
theorem Entries.concat {top : Nat} {e : Entry} (htop : e.1 ≤ top) (hlen : e.2.length < 65805) :
    ∀ {es : List Entry} {last : Nat}, Entries top last es → last ≤ e.1 →
      (∀ x ∈ es.getLast?, x.1 ≤ e.1) → Entries top last (es ++ [e])
  | [], last, _, hlast, _ => ⟨hlast, htop, hlen, trivial⟩
  | x :: es, last, ⟨h₁, h₂, h₃, hes⟩, _, hge => by
    have hx : x.1 ≤ e.1 := by
      cases hl : es.getLast? with
      | none => exact hge x (by simp [List.getLast?_eq_none_iff.1 hl])
      | some z =>
        exact Nat.le_trans (hes.le_getLast z hl) (hge z (by simp [List.getLast?_cons, hl]))
    exact ⟨h₁, h₂, h₃, hes.concat htop hlen hx fun z hz =>
      hge z (by simp [List.getLast?_cons, Option.mem_def.1 hz])⟩

/-! ## Only written streams are read -/

/-- What is read was written, and by entries within the reader's bounds. -/
theorem read_sound {top budget last : Nat} {bs p : List UInt8} {es : List Entry}
    (h : read top budget last bs = some (es, p)) :
    es.length ≤ budget ∧ Entries top last es ∧ bs = write last es p := by
  refine readWith_induction (motive := fun budget last bs es =>
    es.length ≤ budget ∧ Entries top last es ∧ bs = write last es p) ?_ ?_ h
  · exact fun budget last => ⟨Nat.zero_le budget, trivial, rfl⟩
  · rintro budget last head tail delta len rest es - hhead htop hlen - ⟨hbud, hes, hrest⟩
    obtain ⟨-, hbound, hbytes⟩ := readHead_sound hhead
    have htake : (rest.take len).length = len := by
      rw [List.length_take]
      exact Nat.min_eq_left hlen
    refine ⟨Nat.succ_le_succ hbud, ⟨Nat.le_add_right _ _, htop, ?_, hes⟩, ?_⟩
    · show (rest.take len).length < 65805
      rw [htake]
      exact hbound
    · have hrest : rest.drop len = write (last + delta) es p := hrest
      show _ = write last ((last + delta, rest.take len) :: es) p
      rw [write_cons, ← hrest, hbytes, writeEntry, htake, Nat.add_sub_cancel_left]
      simp

/-! ## Where a reduction is observable -/

/-- The entries, cut by their reduced lengths, lie inside the stream and are at
most `budget`; a payload marker is followed by a byte. -/
def Framed (red : Nat → Nat) : (budget : Nat) → List UInt8 → Prop
  | _, [] => True
  | budget, head :: bs =>
    if head = 0xFF then bs ≠ []
    else
      match budget with
      | 0 => False
      | budget + 1 => ∃ delta len rest, readHead head bs = some (delta, len, rest) ∧
        red len ≤ rest.length ∧ Framed red budget (rest.drop (red len))

/-- **The bytes are read exactly when they are framed**, whatever the reader does with the
numbers. A number is never refused here, because the reduction does not leave the range; only
lengths, the budget and a marker at the end can be wrong. -/
theorem readWith_isSome_iff {red : Nat → Nat} {top : Nat} (hred : ∀ n, red n ≤ top) :
    ∀ {budget last : Nat} {bs : List UInt8},
      (readWith red top budget last bs).isSome ↔ Framed red budget bs := by
  intro budget
  induction budget with
  | zero =>
    intro last bs
    cases bs with
    | nil => simp [readWith, Framed]
    | cons head bs =>
      by_cases hmark : head = 0xFF
      · by_cases hbs : bs = [] <;> simp [readWith, Framed, hmark, hbs]
      · simp [readWith, Framed, hmark]
  | succ budget ih =>
    intro last bs
    cases bs with
    | nil => simp [readWith, Framed]
    | cons head bs =>
      by_cases hmark : head = 0xFF
      · by_cases hbs : bs = [] <;> simp [readWith, Framed, hmark, hbs]
      rw [Framed, if_neg hmark]
      cases hhead : readHead head bs with
      | none => simp [readWith_head_none hmark hhead]
      | some r =>
        obtain ⟨delta, len, rest⟩ := r
        have hcons : ∀ e x, (consTo e x).isSome = x.isSome := fun e x => by cases x <;> rfl
        rw [readWith_head hmark hhead]
        -- numbers play no part, as `red` never exceeds `top`; only the room for the value does
        by_cases hfit : red len ≤ rest.length
        · rw [if_pos ⟨hred _, hfit⟩, hcons, ih]
          constructor
          · exact fun h => ⟨_, _, _, rfl, hfit, h⟩
          · rintro ⟨_, _, _, heq, -, h⟩
            cases heq
            exact h
        · rw [if_neg fun h => hfit h.2]
          constructor
          · intro h
            cases h
          · rintro ⟨_, _, _, heq, h, -⟩
            cases heq
            exact absurd h hfit

/-- An entry whose rest, `bs` after `len` bytes, one of the readers accepts:
the reducing one after the reduced length, or the exact one. -/
def RestAccepted (red : Nat → Nat) (top budget number len : Nat) (bs : List UInt8) : Prop :=
  (red len ≤ bs.length ∧ Framed red budget (bs.drop (red len))) ∨
    (number ≤ top ∧ len ≤ bs.length ∧ (read top budget number (bs.drop len)).isSome)

/-- The exact scan of the stream comes to an entry whose number or length `red`
changes, and the rest behind it is acceptable. -/
def Misreads (red : Nat → Nat) (top : Nat) : (budget : Nat) → (last : Nat) → List UInt8 → Prop
  | _, _, [] => False
  | 0, _, _ :: _ => False
  | budget + 1, last, head :: bs =>
    head ≠ 0xFF ∧ ∃ delta len rest, readHead head bs = some (delta, len, rest) ∧
      if red (last + delta) = last + delta ∧ red len = len then
        last + delta ≤ top ∧ len ≤ rest.length ∧
          Misreads red top budget (last + delta) (rest.drop len)
      else RestAccepted red top budget (last + delta) len rest

private theorem consTo_eq_none {e : Entry} {x : Option (List Entry × List UInt8)} :
    consTo e x = none ↔ x = none := by
  cases x <;> simp [consTo]

/-- The entry in front tells nothing about the rest. -/
private theorem consTo_inj {e : Entry} {x y : Option (List Entry × List UInt8)} :
    consTo e x = consTo e y ↔ x = y := by
  cases x <;> cases y <;> simp [consTo, Prod.ext_iff]

private theorem consTo_ne {e e' : Entry} (h : e ≠ e') {x y : Option (List Entry × List UInt8)} :
    consTo e x = consTo e' y ↔ x = none ∧ y = none := by
  cases x <;> cases y <;> simp [consTo, h]

/-- Entries are told apart by their number and by the length of their value. -/
private theorem entry_ne {red : Nat → Nat} {number len : Nat} {bs : List UInt8}
    (h : ¬ (red number = number ∧ red len = len)) (hr : red len ≤ bs.length)
    (hl : len ≤ bs.length) :
    ((red number, bs.take (red len)) : Entry) ≠ (number, bs.take len) := by
  intro heq
  rw [Prod.mk.injEq] at heq
  have := congrArg List.length heq.2
  rw [List.length_take, List.length_take, Nat.min_eq_left hr, Nat.min_eq_left hl] at this
  exact h ⟨heq.1, this⟩

/-- A head in front of a misreading, or one that is misread itself. -/
private theorem misreads_head {red : Nat → Nat} {top budget last : Nat} {head : UInt8}
    {bs rest : List UInt8} {delta len : Nat} (hmark : head ≠ 0xFF)
    (hhead : readHead head bs = some (delta, len, rest)) :
    Misreads red top (budget + 1) last (head :: bs) ↔
      if red (last + delta) = last + delta ∧ red len = len then
        last + delta ≤ top ∧ len ≤ rest.length ∧
          Misreads red top budget (last + delta) (rest.drop len)
      else RestAccepted red top budget (last + delta) len rest := by
  rw [Misreads]
  constructor
  · rintro ⟨-, d, l, r, hr, h⟩
    rw [hhead] at hr
    cases hr
    exact h
  · intro h
    exact ⟨hmark, delta, len, rest, hhead, h⟩

/-- **Reduction is observable exactly on misread streams.** Up to the first entry whose number
or length is changed by the reduction the two readers do the same; at that entry the exact one
stops or goes on with other values, so they differ if the reduced one accepts the rest. -/
theorem readWith_agree_iff {red : Nat → Nat} {top : Nat} (hred : ∀ n, red n ≤ top) :
    ∀ {budget last : Nat} {bs : List UInt8},
      readWith red top budget last bs = read top budget last bs ↔
        ¬ Misreads red top budget last bs := by
  intro budget
  induction budget with
  | zero =>
    intro last bs
    cases bs <;> simp [readWith, Misreads]
  | succ budget ih =>
    intro last bs
    cases bs with
    | nil => simp [readWith, Misreads]
    | cons head bs =>
      by_cases hmark : head = 0xFF
      · simp [readWith, Misreads, hmark]
      cases hhead : readHead head bs with
      | none => simp [readWith, Misreads, hmark, readEntryWith, hhead]
      | some r =>
        obtain ⟨delta, len, rest⟩ := r
        rw [misreads_head hmark hhead, readWith_head hmark hhead, read, readWith_head hmark hhead]
        simp only [id]
        by_cases hsame : red (last + delta) = last + delta ∧ red len = len
        · -- the entry is read alike, so the rests decide
          rw [if_pos hsame, hsame.1, hsame.2]
          by_cases hok : last + delta ≤ top ∧ len ≤ rest.length
          · rw [if_pos hok, if_pos hok, consTo_inj, ih]
            simp [hok]
          · rw [if_neg hok, if_neg hok]
            exact iff_of_true rfl fun h => hok ⟨h.1, h.2.1⟩
        · -- the entry itself is read differently: only two rejections agree
          rw [if_neg hsame, RestAccepted, ← and_assoc,
            ← @readWith_isSome_iff red top hred budget (red (last + delta))]
          by_cases hr : red len ≤ rest.length
          · rw [if_pos ⟨hred _, hr⟩]
            by_cases hl : last + delta ≤ top ∧ len ≤ rest.length
            · rw [if_pos hl, consTo_ne (entry_ne hsame hr hl.2)]
              simp [hr, hl, Option.isSome_iff_ne_none]
            · rw [if_neg hl, consTo_eq_none]
              simp [hr, hl]
          · rw [if_neg fun h => hr h.2]
            by_cases hl : last + delta ≤ top ∧ len ≤ rest.length
            · rw [if_pos hl, eq_comm, consTo_eq_none]
              simp [hr, hl]
            · rw [if_neg hl]
              simp [hr, hl]

end PulseCoap.OptionStream
