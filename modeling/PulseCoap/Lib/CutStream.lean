import PulseCoap.Lib.OptionStream

/-!
# A written option stream, cut short

Nothing at the end of an option stream says where it ends: a stream that stops
behind one of its entries is a stream, and so is one that stops inside its
payload. `CutPoint` is where a written stream can be cut so that a reader
accepts what is left.

The induction is on the entries of the stream. A cut inside the first entry is
rejected by `readWith_cutEntry`, since a head byte announces more than is left;
a cut behind it is a cut of the shorter stream, and `cutPoint_cons` moves the
cut point along. At the end of the entries the payload is read up to the cut,
and a cut right behind its marker leaves an empty payload, which is refused.

* `readWith_take` — a reader accepts the first `k` bytes of a written stream
  exactly at its cut points, and then returns that much of its payload.
-/

namespace PulseCoap.OptionStream

open ExtField

/-- Behind one of the first `budget` entries, or after the first byte of the
payload of a stream with no more entries than that. -/
def CutPoint (budget last : Nat) (es : List Entry) (k : Nat) : Prop :=
  (∃ j, j ≤ es.length ∧ j ≤ budget ∧ k = (writeEntries last (es.take j)).length) ∨
    (es.length ≤ budget ∧ (writeEntries last es).length + 1 < k)

/-! ## A cut inside an entry -/

/-- A head that can be read is read the same when more bytes follow. -/
theorem readHead_append {head : UInt8} {bs rest : List UInt8} {d l : Nat}
    (h : readHead head bs = some (d, l, rest)) (more : List UInt8) :
    readHead head (bs ++ more) = some (d, l, rest ++ more) := by
  obtain ⟨hd, hl, heq⟩ := readHead_sound h
  obtain ⟨rfl, rfl⟩ := List.cons.inj heq
  rw [List.append_assoc]
  exact readHead_write hd hl (rest ++ more)

/-- An entry that is not there in full is not accepted. -/
theorem readWith_cutEntry {red : Nat → Nat} {top budget last k : Nat} {e : Entry}
    (hdelta : e.1 - last < 65805) (hlen : e.2.length < 65805)
    (hred : red e.2.length = e.2.length) (hk : 0 < k) (hcut : k < (writeEntry last e).length) :
    readWith red top budget last ((writeEntry last e).take k) = none := by
  obtain ⟨k, rfl⟩ : ∃ n, k = n + 1 := ⟨k - 1, by omega⟩
  have hmark := head_ne_marker (e.1 - last) e.2.length
  rw [writeEntry, List.take_succ_cons]
  rw [writeEntry, List.length_cons] at hcut
  generalize hbody : extBytes (e.1 - last) ++ extBytes e.2.length ++ e.2 = body at hcut ⊢
  cases hhead : readHead (UInt8.ofNat (nibble (e.1 - last) * 16 + nibble e.2.length))
      (body.take k) with
  | none => exact readWith_head_none hmark hhead
  | some r =>
    obtain ⟨d, l, rest⟩ := r
    -- with the missing bytes put back, the head is the one that was written
    have hfull := readHead_append hhead (body.drop k)
    rw [List.take_append_drop, ← hbody, readHead_write hdelta hlen, hbody] at hfull
    obtain ⟨rfl, rfl, hrest⟩ :
        e.1 - last = d ∧ e.2.length = l ∧ e.2 = rest ++ body.drop k := by simpa using hfull
    have hmissing : rest.length < e.2.length := by
      have := congrArg List.length hrest
      rw [List.length_append, List.length_drop] at this
      omega
    cases budget with
    | zero => exact readWith_zero hmark _
    | succ budget =>
      rw [readWith_head hmark hhead, hred, if_neg]
      intro hfits
      omega

/-! ## A cut anywhere -/

theorem cutPoint_zero (budget last : Nat) (es : List Entry) : CutPoint budget last es 0 :=
  .inl ⟨0, Nat.zero_le _, Nat.zero_le _, rfl⟩

/-- No cut point lies inside the first entry. -/
theorem CutPoint.first {budget last k : Nat} {e : Entry} {es : List Entry}
    (h : CutPoint budget last (e :: es) k) (hk : 0 < k) :
    0 < budget ∧ (writeEntry last e).length ≤ k := by
  rcases h with ⟨j, -, hj, rfl⟩ | ⟨hroom, hlt⟩
  · cases j with
    | zero => cases hk
    | succ j =>
      refine ⟨by omega, ?_⟩
      rw [List.take_succ_cons, writeEntries, List.length_append]
      omega
  · rw [List.length_cons] at hroom
    rw [writeEntries, List.length_append] at hlt
    omega

/-- Behind the first entry the cut points are those of the rest. -/
theorem cutPoint_cons {budget last k : Nat} {e : Entry} {es : List Entry}
    (hk : 0 < (writeEntry last e).length) :
    CutPoint (budget + 1) last (e :: es) ((writeEntry last e).length + k) ↔
      CutPoint budget e.1 es k := by
  constructor
  · rintro (⟨j, hj, hb, heq⟩ | ⟨hroom, hlt⟩)
    · cases j with
      | zero =>
        have : (writeEntry last e).length + k = 0 := heq
        omega
      | succ j =>
        rw [List.take_succ_cons, writeEntries, List.length_append] at heq
        rw [List.length_cons] at hj
        exact .inl ⟨j, by omega, by omega, by omega⟩
    · rw [List.length_cons] at hroom
      rw [writeEntries, List.length_append] at hlt
      exact .inr ⟨by omega, by omega⟩
  · rintro (⟨j, hj, hb, rfl⟩ | ⟨hroom, hlt⟩)
    · refine .inl ⟨j + 1, Nat.succ_le_succ hj, by omega, ?_⟩
      rw [List.take_succ_cons, writeEntries, List.length_append]
    · refine .inr ⟨Nat.succ_le_succ hroom, ?_⟩
      rw [writeEntries, List.length_append]
      omega

/-- A stream that is only a payload, cut after `k` bytes. -/
theorem readWith_takePayload {red : Nat → Nat} {top budget last k : Nat} {p : List UInt8}
    (hk : k < (writePayload p).length) :
    readWith red top budget last ((writePayload p).take k) =
      if k = 1 then none else some ([], p.take (k - 1)) := by
  have hp : p ≠ [] := by
    intro hp
    rw [hp] at hk
    cases hk
  rw [writePayload, if_neg hp] at hk ⊢
  rcases k with _ | _ | k
  · exact readWith_nil
  · exact readWith_marker []
  · have hne : p.take (k + 1) ≠ [] := by
      intro h
      rcases List.take_eq_nil_iff.1 h with h | h
      · cases h
      · exact hp h
    rw [List.take_succ_cons, readWith_marker, if_neg hne, if_neg (by omega)]
    rfl

/-- **The first bytes of a written stream** are read exactly when the cut is at a cut point, and
then as the entries before it with what is left of the payload. The induction is on the entries:
in front of the first one nothing has been read, inside it nothing can be, and behind it the cut
is one of the rest. -/
theorem readWith_take {red : Nat → Nat} {top : Nat} (hbound : top < 65805)
    (hnum : ∀ n ≤ top, red n = n) (p : List UInt8) :
    ∀ (es : List Entry) {budget last k : Nat}, Entries top last es →
      (∀ e ∈ es, red e.2.length = e.2.length) → k < (write last es p).length →
      (¬ CutPoint budget last es k →
        readWith red top budget last ((write last es p).take k) = none) ∧
      (CutPoint budget last es k → ∃ es',
        readWith red top budget last ((write last es p).take k) =
          some (es', p.take (k - (writeEntries last es).length - 1))) := by
  intro es
  induction es with
  | nil =>
    intro budget last k _ _ hk
    -- without entries the stream is its payload; the one bad cut is right behind the marker
    have hread : readWith red top budget last ((writePayload p).take k) =
        if k = 1 then none else some ([], p.take (k - 1)) := readWith_takePayload hk
    refine ⟨fun hcut => ?_, fun hcut => ⟨[], ?_⟩⟩
    · refine hread.trans (if_pos ?_)
      by_contra hone
      by_cases hzero : k = 0
      · exact hcut (hzero ▸ cutPoint_zero budget last [])
      · exact hcut (.inr ⟨Nat.zero_le _, by show 0 + 1 < k; omega⟩)
    · refine hread.trans (if_neg ?_)
      rintro rfl
      rcases hcut with ⟨j, -, -, heq⟩ | ⟨-, hlt⟩
      · rw [List.take_nil] at heq
        cases heq
      · cases hlt with
        | step h => cases h
  | cons e es ih =>
    intro budget last k hes hred hk
    obtain ⟨hlast, htop, hlen, htail⟩ := hes
    have hlen0 : 0 < (writeEntry last e).length := Nat.succ_pos _
    rw [write_cons, List.length_append] at hk
    rw [write_cons]
    by_cases hzero : k = 0
    · subst hzero
      refine ⟨fun hcut => absurd (cutPoint_zero budget last _) hcut, fun _ => ⟨[], ?_⟩⟩
      simp only [List.take_zero, Nat.zero_sub]
      exact readWith_nil
    by_cases hin : k < (writeEntry last e).length
    · -- inside the first entry
      rw [List.take_append_of_le_length (by omega)]
      refine ⟨fun _ => readWith_cutEntry (by omega) hlen (hred e (List.mem_cons_self ..))
        (by omega) hin, fun hcut => ?_⟩
      have := (hcut.first (by omega)).2
      omega
    -- the entry is read whole, and what is left is the cut of a shorter stream
    -- behind it
    obtain ⟨k, rfl⟩ : ∃ n, k = (writeEntry last e).length + n :=
      ⟨k - (writeEntry last e).length, by omega⟩
    rw [List.take_length_add_append]
    cases budget with
    | zero =>
      refine ⟨fun _ => ?_, fun hcut => absurd (hcut.first (by omega)).1 (Nat.lt_irrefl 0)⟩
      rw [writeEntry, List.cons_append]
      exact readWith_zero (head_ne_marker _ _) _
    | succ budget =>
      obtain ⟨hout, hcuts⟩ := @ih budget e.1 k htail
        (fun x hx => hred x (List.mem_cons_of_mem _ hx)) (by omega)
      rw [readWith_entry hlast htop hbound hlen (hnum _ htop) (hred e (List.mem_cons_self ..)),
        cutPoint_cons hlen0]
      refine ⟨fun hcut => by rw [hout hcut]; rfl, fun hcut => ?_⟩
      obtain ⟨es', hread⟩ := hcuts hcut
      refine ⟨e :: es', ?_⟩
      have hshift : (writeEntry last e).length + k - (writeEntries last (e :: es)).length - 1 =
          k - (writeEntries e.1 es).length - 1 := by
        rw [writeEntries, List.length_append]
        omega
      rw [hread, hshift]
      rfl

end PulseCoap.OptionStream
