import PulseCoap.Lib.OptionStream

/-!
# Option streams in word arithmetic

A writer and a reader that both keep numbers and lengths in a word of `w`
values. The difference of two numbers is taken around the end of the word, so
the writer has a stream for every list of entries whatever the order of their
numbers; the reader takes extended fields modulo `w`.

* `readWith_writeWrapped` — the reader gives every written stream back.
* `writeWrapped_eq_iff` — a stream that is read is the one written for its
  entries exactly when it is `Minimal`: no extended field of it passes the word.
* `ascending_iff` — and its numbers do not decrease exactly when none of their
  sums goes around.
-/

namespace PulseCoap.OptionStream

open ExtField

variable {w : Nat}

/-- What is added to `last` to come to `number`. -/
def distance (w last number : Nat) : Nat := (number + (w - last)) % w

/-- One entry after an entry numbered `last`. -/
def wrappedEntry (w last : Nat) (e : Entry) : List UInt8 :=
  UInt8.ofNat (nibble (distance w last e.1) * 16 + nibble e.2.length) ::
    (extBytes (distance w last e.1) ++ extBytes e.2.length ++ e.2)

def wrappedEntries (w : Nat) : (last : Nat) → List Entry → List UInt8
  | _, [] => []
  | last, e :: es => wrappedEntry w last e ++ wrappedEntries w e.1 es

/-- The entries and the payload. -/
def writeWrapped (w last : Nat) (es : List Entry) (p : List UInt8) : List UInt8 :=
  wrappedEntries w last es ++ writePayload p

/-- No delta or length of the stream passes the word. -/
def Minimal (w : Nat) : (budget : Nat) → List UInt8 → Prop
  | _, [] => True
  | 0, _ => True
  | budget + 1, head :: bs =>
    head = 0xFF ∨ ∀ r ∈ readHead head bs, r.1 < w ∧ r.2.1 < w ∧
      Minimal w budget (r.2.2.drop r.2.1)

/-- No number of the stream is below the one before. -/
def Ascending (w : Nat) : (budget : Nat) → (last : Nat) → List UInt8 → Prop
  | _, _, [] => True
  | 0, _, _ => True
  | budget + 1, last, head :: bs =>
    head = 0xFF ∨ ∀ r ∈ readHead head bs, last ≤ (last + r.1) % w ∧
      Ascending w budget ((last + r.1) % w) (r.2.2.drop (r.2.1 % w))

-- ===========================================================================
-- Differences
-- ===========================================================================

/-- A distance is below the modulus. -/
theorem distance_lt (hw : 0 < w) (last number : Nat) : distance w last number < w :=
  Nat.mod_lt _ hw

/-- The reader comes to the number again. -/
theorem add_distance {last number : Nat} (hlast : last < w) (hn : number < w) :
    (last + distance w last number) % w = number := by
  have hsum : last + (number + (w - last)) = number + w := by omega
  rw [distance, Nat.add_mod_mod, hsum, Nat.add_mod_right, Nat.mod_eq_of_lt hn]

/-- And the writer to the difference, as far as the word holds it. -/
theorem distance_add {last : Nat} (hlast : last < w) (delta : Nat) :
    distance w last ((last + delta) % w) = delta % w := by
  have hsum : last + delta + (w - last) = delta + w := by omega
  rw [distance, Nat.mod_add_mod, hsum, Nat.add_mod_right]

/-- Upwards it is the difference. -/
theorem distance_of_le {last number : Nat} (hle : last ≤ number) (hn : number < w) :
    distance w last number = number - last := by
  have hsum : number + (w - last) = number - last + w := by omega
  rw [distance, hsum, Nat.add_mod_right, Nat.mod_eq_of_lt (by omega)]

/-- Numbers in order are written as in exact arithmetic. -/
theorem wrappedEntries_eq {top : Nat} (htop : top < w) :
    ∀ {es : List Entry} {last : Nat}, Entries top last es →
      wrappedEntries w last es = writeEntries last es
  | [], _, _ => rfl
  | e :: es, last, ⟨hlast, hnum, _, hes⟩ => by
    rw [wrappedEntries, writeEntries, wrappedEntries_eq htop hes, wrappedEntry, writeEntry,
      distance_of_le hlast (Nat.lt_of_le_of_lt hnum htop)]

/-- Where the numbers ascend nothing wraps. -/
theorem writeWrapped_eq {top : Nat} (htop : top < w) {es : List Entry} {last : Nat}
    {p : List UInt8} (h : Entries top last es) : writeWrapped w last es p = write last es p := by
  rw [writeWrapped, wrappedEntries_eq htop h, write]

-- ===========================================================================
-- Reading what was written
-- ===========================================================================

theorem writeWrapped_cons (last : Nat) (e : Entry) (es : List Entry) (p : List UInt8) :
    writeWrapped w last (e :: es) p =
      UInt8.ofNat (nibble (distance w last e.1) * 16 + nibble e.2.length) ::
        (extBytes (distance w last e.1) ++ extBytes e.2.length ++
          (e.2 ++ writeWrapped w e.1 es p)) := by
  simp only [writeWrapped, wrappedEntries, wrappedEntry, List.cons_append, List.append_assoc]

/-- Reading back a written stream, whatever the order of its numbers. -/
theorem readWith_writeWrapped (hw : w ≤ 65805) (p : List UInt8) :
    ∀ (es : List Entry) {budget last : Nat}, es.length ≤ budget → last < w →
      (∀ e ∈ es, e.1 < w ∧ e.2.length < w) →
      readWith (· % w) (w - 1) budget last (writeWrapped w last es p) = some (es, p) := by
  intro es
  induction es with
  | nil =>
    intro budget last _ _ _
    show readWith _ _ budget last (writePayload p) = _
    rw [writePayload]
    by_cases hp : p = []
    · rw [if_pos hp, hp, readWith_nil]
    · rw [if_neg hp, readWith_marker, if_neg hp]
  | cons e es ih =>
    intro budget last hbud hlast hes
    obtain ⟨hnum, hlen⟩ := hes e (List.mem_cons_self ..)
    have hdist := distance_lt (Nat.lt_of_le_of_lt (Nat.zero_le _) hlast) last e.1
    cases budget with
    | zero => cases hbud
    | succ budget =>
      -- the distance goes around the end of the word, and adding it comes back to the number
      have hrest := @ih budget e.1 (Nat.le_of_succ_le_succ hbud) hnum
        fun x hx => hes x (List.mem_cons_of_mem _ hx)
      rw [writeWrapped_cons, readWith_head (head_ne_marker _ _)
        (readHead_write (Nat.lt_of_lt_of_le hdist hw) (Nat.lt_of_lt_of_le hlen hw) _)]
      rw [add_distance hlast hnum, Nat.mod_eq_of_lt hlen, List.take_left, List.drop_left, hrest,
        if_pos ⟨by omega, by simp⟩]
      rfl

-- ===========================================================================
-- Writing what was read
-- ===========================================================================

/-- A payload has one way to be written. -/
theorem minimal_payload (w budget : Nat) (p : List UInt8) : Minimal w budget (writePayload p) := by
  unfold writePayload
  split
  · cases budget <;> trivial
  · cases budget
    · trivial
    · exact .inl rfl

/-- It has no numbers to ascend. -/
theorem ascending_payload (w budget last : Nat) (p : List UInt8) :
    Ascending w budget last (writePayload p) := by
  unfold writePayload
  split
  · cases budget <;> trivial
  · cases budget
    · trivial
    · exact .inl rfl

/-- A field that passes the word comes out as one of a shorter form. -/
theorem nibble_wrapped {n : Nat} (hw : 65536 ≤ w) (hn : n < 65805) (heq : nibble (n % w) = nibble n) :
    n < w := by
  by_contra hge
  have hmod : n % w = n - w := by
    rw [Nat.mod_eq_sub_mod (Nat.not_lt.1 hge), Nat.mod_eq_of_lt (by omega)]
  have hfourteen : nibble n = 14 := by
    unfold nibble
    rw [if_neg (by omega), if_neg (by omega)]
  rw [hmod, hfourteen] at heq
  unfold nibble at heq
  split at heq
  · omega
  · rw [if_pos (by omega)] at heq
    omega

/-- **Which streams are rewritten as they were**: those whose extended fields all stay within
the word. A field that passes it is read as a smaller number, and the writer has a shorter form
for that. -/
theorem writeWrapped_eq_iff (hw : 65536 ≤ w) {budget last : Nat} {bs p : List UInt8}
    {es : List Entry} (hlast : last < w)
    (h : readWith (· % w) (w - 1) budget last bs = some (es, p)) :
    writeWrapped w last es p = bs ↔ Minimal w budget bs := by
  refine readWith_induction (motive := fun budget last bs es => last < w →
    (writeWrapped w last es p = bs ↔ Minimal w budget bs)) ?_ ?_ h hlast
  · exact fun budget _ _ => iff_of_true rfl (minimal_payload w budget p)
  · intro budget last head tail delta len rest es hmark hhead _ hlen _ ih hlast
    obtain ⟨hd, hl, hbytes⟩ := readHead_sound hhead
    have hpos : 0 < w := Nat.lt_of_lt_of_le (by decide) hw
    have htake : (rest.take (len % w)).length = len % w := by
      rw [List.length_take]
      exact Nat.min_eq_left hlen
    have hminimal : Minimal w (budget + 1) (head :: tail) ↔
        delta < w ∧ len < w ∧ Minimal w budget (rest.drop len) := by
      rw [Minimal, hhead]
      simp [hmark]
    rw [hminimal, writeWrapped_cons, distance_add hlast, htake]
    constructor
    · intro heq
      -- the heads agree, so no field has been cut
      rw [hbytes] at heq
      obtain ⟨hheads, htails⟩ := List.cons.inj heq
      have hnibbles : nibble (delta % w) * 16 + nibble (len % w) =
          nibble delta * 16 + nibble len := by
        rw [← head_toNat, hheads, head_toNat]
      have h1 := nibble_le (delta % w)
      have h2 := nibble_le (len % w)
      have h3 := nibble_le delta
      have h4 := nibble_le len
      have hdelta : delta < w := nibble_wrapped hw hd (by omega)
      have hlen' : len < w := nibble_wrapped hw hl (by omega)
      rw [Nat.mod_eq_of_lt hdelta, Nat.mod_eq_of_lt hlen'] at htails
      have hvalues := List.append_cancel_left htails
      rw [Nat.mod_eq_of_lt hlen'] at ih
      refine ⟨hdelta, hlen', (ih (Nat.mod_lt _ hpos)).1 ?_⟩
      conv at hvalues => rhs; rw [← List.take_append_drop len rest]
      exact List.append_cancel_left hvalues
    · rintro ⟨hdelta, hlen', hmin⟩
      rw [Nat.mod_eq_of_lt hlen'] at ih ⊢
      rw [hbytes, Nat.mod_eq_of_lt hdelta, (ih (Nat.mod_lt _ hpos)).2 hmin,
        List.take_append_drop]

/-- **Which streams have their numbers in order**: those in which no sum of a number and a delta
passes the word. -/
theorem ascending_iff {budget last : Nat} {bs p : List UInt8} {es : List Entry}
    (h : readWith (· % w) (w - 1) budget last bs = some (es, p)) :
    (last :: es.map Prod.fst).IsChain (· ≤ ·) ↔ Ascending w budget last bs := by
  refine readWith_induction (motive := fun budget last bs es =>
    ((last :: es.map Prod.fst).IsChain (· ≤ ·) ↔ Ascending w budget last bs)) ?_ ?_ h
  · exact fun budget last => iff_of_true (.singleton _) (ascending_payload w budget last p)
  · intro budget last head tail delta len rest es hmark hhead _ _ _ ih
    have hascending : Ascending w (budget + 1) last (head :: tail) ↔
        last ≤ (last + delta) % w ∧
          Ascending w budget ((last + delta) % w) (rest.drop (len % w)) := by
      rw [Ascending, hhead]
      simp [hmark]
    rw [hascending, ← ih, List.map_cons]
    exact List.isChain_cons_cons

end PulseCoap.OptionStream
