import Mathlib.Algebra.Ring.Nat
import Mathlib.Tactic.Common

/-!
# Nibble-extended numbers

A number below 65805 written as a four-bit nibble and up to two extension
bytes: a nibble below 13 is the number itself, 13 announces one byte holding
the number less 13, 14 announces two big-endian bytes holding the number less
269, and 15 is reserved. Every number has exactly one such form.

`readExt` is the exact reader: its result is a natural number, so nothing is
reduced. `readExt_write` and `readExt_sound` make reading and writing inverse
to each other in both directions.

The bound 65805 is where the form ends: 269 and the largest value of two bytes.
An implementation that keeps the result in a word of 16 bits reduces the last
269 of these numbers, and the reader here is what it is compared with.
-/

namespace PulseCoap.ExtField

/-- The nibble of `n`. -/
def nibble (n : Nat) : Nat :=
  if n < 13 then n else if n < 269 then 13 else 14

/-- The extension bytes of `n`. -/
def extBytes (n : Nat) : List UInt8 :=
  if n < 13 then []
  else if n < 269 then [UInt8.ofNat (n - 13)]
  else [UInt8.ofNat ((n - 269) / 256), UInt8.ofNat ((n - 269) % 256)]

/-- The number announced by a nibble, and what follows it. -/
def readExt (nib : Nat) (bs : List UInt8) : Option (Nat × List UInt8) :=
  if nib < 13 then some (nib, bs)
  else if nib = 13 then
    match bs with
    | b :: rest => some (13 + b.toNat, rest)
    | [] => none
  else if nib = 14 then
    match bs with
    | hi :: lo :: rest => some (269 + (hi.toNat * 256 + lo.toNat), rest)
    | _ => none
  else none

theorem nibble_le (n : Nat) : nibble n ≤ 14 := by
  unfold nibble
  split
  · omega
  · split <;> omega

/-- Reading back a written number. -/
theorem readExt_write {n : Nat} (h : n < 65805) (rest : List UInt8) :
    readExt (nibble n) (extBytes n ++ rest) = some (n, rest) := by
  unfold readExt nibble extBytes
  by_cases h13 : n < 13
  · simp [h13]
  · by_cases h269 : n < 269
    · have hb : (n - 13) % 256 = n - 13 := by omega
      simp [h13, h269, hb]
      omega
    · have hhi : (n - 269) / 256 % 256 = (n - 269) / 256 := by omega
      simp [h13, h269, hhi]
      omega

/-- What is read was written: the nibble and the consumed bytes are the unique
form of the number. -/
theorem readExt_sound {nib n : Nat} {bs rest : List UInt8}
    (h : readExt nib bs = some (n, rest)) :
    n < 65805 ∧ nib = nibble n ∧ bs = extBytes n ++ rest := by
  -- the three forms, each with the bound it puts on `n`
  unfold readExt at h
  split at h
  · -- the nibble is the number
    rename_i hnib
    obtain ⟨rfl, rfl⟩ : nib = n ∧ bs = rest := by simpa using h
    exact ⟨by omega, by simp [nibble, hnib], by simp [extBytes, hnib]⟩
  · split at h
    · -- one byte more
      rename_i hnib
      split at h
      · rename_i b rest'
        obtain ⟨rfl, rfl⟩ : 13 + b.toNat = n ∧ rest' = rest := by simpa using h
        have hb := b.toNat_lt
        refine ⟨by omega, ?_, ?_⟩
        · rw [nibble, if_neg (by omega), if_pos (by omega), hnib]
        · simp [extBytes, show ¬ 13 + b.toNat < 13 by omega, show 13 + b.toNat < 269 by omega]
      · simp at h
    · split at h
      · -- two bytes more
        rename_i hnib
        split at h
        · rename_i hi lo rest'
          obtain ⟨rfl, rfl⟩ : 269 + (hi.toNat * 256 + lo.toNat) = n ∧ rest' = rest := by
            simpa using h
          have hh := hi.toNat_lt
          have hl := lo.toNat_lt
          refine ⟨by omega, ?_, ?_⟩
          · rw [nibble, if_neg (by omega), if_neg (by omega), hnib]
          · have hdiv : (hi.toNat * 256 + lo.toNat) / 256 = hi.toNat := by omega
            simp [extBytes, show ¬ 269 + (hi.toNat * 256 + lo.toNat) < 13 by omega,
              show ¬ 269 + (hi.toNat * 256 + lo.toNat) < 269 by omega, hdiv]
        · simp at h
      · simp at h

/-- Nothing is left of the input that was not there. -/
theorem readExt_length {nib n : Nat} {bs rest : List UInt8}
    (h : readExt nib bs = some (n, rest)) : rest.length ≤ bs.length := by
  obtain ⟨-, -, rfl⟩ := readExt_sound h
  simp

end PulseCoap.ExtField
