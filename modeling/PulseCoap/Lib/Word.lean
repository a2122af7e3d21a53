import Mathlib.Algebra.Ring.Nat
import Mathlib.Tactic.Common
import Mathlib.Data.Nat.Digits.Lemmas

/-!
# Words as big-endian bytes

A 16-bit word is two bytes, the high one first, and a 32-bit word of any
minimal width is the digits of its value to the base 256. The lemmas move the
shift-and-mask form of either to arithmetic on natural numbers, where `omega`
and `Nat.digits` take over.
-/

namespace PulseCoap.Word

/-! ## Sixteen bits -/

/-- The low byte of a word. -/
theorem toUInt8_eq (v : UInt16) : v.toUInt8 = UInt8.ofNat v.toNat := by
  rw [← UInt8.toNat_inj]
  simp

theorem hi_eq (v : UInt16) : (v >>> 8).toUInt8 = UInt8.ofNat (v.toNat / 256) := by
  rw [← UInt8.toNat_inj]
  simp [Nat.shiftRight_eq_div_pow]

/-- The low byte of a 16-bit number. -/
theorem lo_eq (v : UInt16) : (v &&& 0xFF).toUInt8 = UInt8.ofNat (v.toNat % 256) := by
  have hmask := Nat.and_two_pow_sub_one_eq_mod v.toNat 8
  rw [← UInt8.toNat_inj, UInt16.toNat_toUInt8, UInt16.toNat_and, UInt8.toNat_ofNat']
  exact congrArg (· % 256) hmask

/-- Shifting a byte in at the low end. -/
theorem shiftIn_eq (a : Nat) (b : UInt8) : a * 256 ||| b.toNat = a * 256 + b.toNat := by
  have hor := Nat.shiftLeft_add_eq_or_of_lt b.toNat_lt a
  rw [Nat.shiftLeft_eq] at hor
  exact hor.symm

theorem join_toNat (hi lo : UInt8) :
    ((hi.toUInt16 <<< 8) ||| lo.toUInt16).toNat = hi.toNat * 256 + lo.toNat := by
  have hh := hi.toNat_lt
  have hmod : hi.toNat * 2 ^ 8 % 65536 = hi.toNat * 256 := by omega
  rw [UInt16.toNat_or, UInt16.toNat_shiftLeft, UInt8.toNat_toUInt16, UInt8.toNat_toUInt16,
    Nat.shiftLeft_eq]
  show hi.toNat * 2 ^ 8 % 65536 ||| lo.toNat = _
  rw [hmod, shiftIn_eq]

/-- A word is put together from its two bytes. -/
theorem join_split (v : UInt16) :
    (((v >>> 8).toUInt8.toUInt16 <<< 8) ||| (v &&& 0xFF).toUInt8.toUInt16) = v := by
  have hv := v.toNat_lt
  rw [← UInt16.toNat_inj, join_toNat, hi_eq, lo_eq, UInt8.toNat_ofNat', UInt8.toNat_ofNat']
  omega

/-! ## Four bytes -/

/-- The word of these bytes, the highest first. -/
def join32 (a b c d : UInt8) : UInt32 :=
  (a.toUInt32 <<< 24) ||| (b.toUInt32 <<< 16) ||| (c.toUInt32 <<< 8) ||| d.toUInt32

theorem join32_toNat (a b c d : UInt8) : (join32 a b c d).toNat =
    a.toNat * 2 ^ 24 + b.toNat * 2 ^ 16 + c.toNat * 2 ^ 8 + d.toNat := by
  have ha := a.toNat_lt
  have hb := b.toNat_lt
  have hc := c.toNat_lt
  have hd := d.toNat_lt
  have hor : ∀ n k x : Nat, x < 2 ^ k → n * 2 ^ k ||| x = n * 2 ^ k + x := by
    intro n k x hx
    rw [← Nat.shiftLeft_eq, Nat.shiftLeft_add_eq_or_of_lt hx]
  -- each byte comes in below those before it
  have hab : a.toNat * 2 ^ 24 + b.toNat * 2 ^ 16 = (a.toNat * 2 ^ 8 + b.toNat) * 2 ^ 16 := by
    ring
  have habc : (a.toNat * 2 ^ 8 + b.toNat) * 2 ^ 16 + c.toNat * 2 ^ 8 =
      (a.toNat * 2 ^ 16 + b.toNat * 2 ^ 8 + c.toNat) * 2 ^ 8 := by
    ring
  have ha' : (a.toUInt32 <<< 24).toNat = a.toNat * 2 ^ 24 := by
    simp [Nat.shiftLeft_eq]
    omega
  have hb' : (b.toUInt32 <<< 16).toNat = b.toNat * 2 ^ 16 := by
    simp [Nat.shiftLeft_eq]
    omega
  have hc' : (c.toUInt32 <<< 8).toNat = c.toNat * 2 ^ 8 := by
    simp [Nat.shiftLeft_eq]
    omega
  unfold join32
  rw [UInt32.toNat_or, UInt32.toNat_or, UInt32.toNat_or, ha', hb', hc', UInt8.toNat_toUInt32,
    hor _ 24 _ (by omega), hab, hor _ 16 _ (by omega), habc, hor _ 8 _ (by omega), ← habc, ← hab]

/-- The bytes come back. -/
theorem split32_join (a b c d : UInt8) :
    (join32 a b c d >>> 24).toUInt8 = a ∧ (join32 a b c d >>> 16).toUInt8 = b ∧
      (join32 a b c d >>> 8).toUInt8 = c ∧ (join32 a b c d).toUInt8 = d := by
  have ha := a.toNat_lt
  have hb := b.toNat_lt
  have hc := c.toNat_lt
  have hd := d.toNat_lt
  have hsplit : ∀ k : UInt32, ((join32 a b c d >>> k).toUInt8).toNat =
      (a.toNat * 2 ^ 24 + b.toNat * 2 ^ 16 + c.toNat * 2 ^ 8 + d.toNat) / 2 ^ (k.toNat % 32) %
        256 := by
    intro k
    rw [UInt32.toNat_toUInt8, UInt32.toNat_shiftRight, join32_toNat, Nat.shiftRight_eq_div_pow]
  refine ⟨?_, ?_, ?_, ?_⟩
  · rw [← UInt8.toNat_inj, hsplit, show (24 : UInt32).toNat % 32 = 24 from rfl]
    omega
  · rw [← UInt8.toNat_inj, hsplit, show (16 : UInt32).toNat % 32 = 16 from rfl]
    omega
  · rw [← UInt8.toNat_inj, hsplit, show (8 : UInt32).toNat % 32 = 8 from rfl]
    omega
  · rw [← UInt8.toNat_inj, UInt32.toNat_toUInt8, join32_toNat]
    omega

/-- So does the word. -/
theorem join32_split (v : UInt32) :
    join32 (v >>> 24).toUInt8 (v >>> 16).toUInt8 (v >>> 8).toUInt8 v.toUInt8 = v := by
  have hv := v.toNat_lt
  rw [← UInt32.toNat_inj, join32_toNat]
  simp [Nat.shiftRight_eq_div_pow]
  omega

/-- Byte strings of one length are told apart by the numbers they spell. -/
theorem ofDigits_inj {bs bs' : List UInt8} (hlen : bs.length = bs'.length)
    (h : Nat.ofDigits 256 (bs.map UInt8.toNat) = Nat.ofDigits 256 (bs'.map UInt8.toNat)) :
    bs = bs' := by
  have hdigit : ∀ cs : List UInt8, ∀ n ∈ cs.map UInt8.toNat, n < 256 := by
    intro cs n hn
    obtain ⟨b, -, rfl⟩ := List.mem_map.1 hn
    exact b.toNat_lt
  have hmap := Nat.ofDigits_inj_of_len_eq (by decide) (by simpa using hlen) (hdigit bs)
    (hdigit bs') h
  exact List.map_injective_iff.2 (fun _ _ => UInt8.toNat_inj.1) hmap

/-! ## Thirty-two bits, minimal width -/

/-- The bytes of `v`, lowest first, as many as it has and at most `n`. -/
def littleBytes : (n : Nat) → UInt32 → List UInt8
  | 0, _ => []
  | n + 1, v => if v > 0 then (v &&& 0xFF).toUInt8 :: littleBytes n (v >>> 8) else []

/-- Shifting big-endian bytes into a word. -/
def shiftIn (acc : UInt32) (bs : List UInt8) : UInt32 :=
  bs.foldl (fun v b => (v <<< 8) ||| b.toUInt32) acc

theorem lowByte_toNat (v : UInt32) : (v &&& 0xFF).toUInt8.toNat = v.toNat % 256 := by
  have hmask := Nat.and_two_pow_sub_one_eq_mod v.toNat 8
  rw [UInt32.toNat_toUInt8, UInt32.toNat_and]
  show (v.toNat &&& 2 ^ 8 - 1) % 2 ^ 8 = _
  rw [hmask]
  omega

theorem shiftRight_toNat (v : UInt32) : (v >>> 8).toNat = v.toNat / 256 := by
  simp [Nat.shiftRight_eq_div_pow]

/-- The bytes of a word are its digits to the base 256. -/
theorem littleBytes_digits : ∀ (n : Nat) (v : UInt32), v.toNat < 256 ^ n →
    (littleBytes n v).map UInt8.toNat = Nat.digits 256 v.toNat
  | 0, v, h => by
    have hv : v.toNat = 0 := by simpa using h
    simp [littleBytes, hv]
  | n + 1, v, h => by
    rw [littleBytes]
    by_cases hv : v.toNat = 0
    · have : ¬ v > 0 := by rw [gt_iff_lt, UInt32.lt_iff_toNat_lt]; simp [hv]
      simp [this, hv]
    · have hpos : v > 0 := by rw [gt_iff_lt, UInt32.lt_iff_toNat_lt]; simp; omega
      have hshift : (v >>> 8).toNat < 256 ^ n := by
        rw [shiftRight_toNat]
        exact Nat.div_lt_of_lt_mul (by rw [Nat.mul_comm, ← Nat.pow_succ]; exact h)
      rw [if_pos hpos, List.map_cons, lowByte_toNat, littleBytes_digits n _ hshift,
        shiftRight_toNat]
      exact (Nat.digits_of_two_le_of_pos (by omega) (by omega)).symm

/-- The width is the least one that holds the value. -/
theorem littleBytes_length_le_iff {n : Nat} {v : UInt32} (h : v.toNat < 256 ^ n) (k : Nat) :
    (littleBytes n v).length ≤ k ↔ v.toNat < 256 ^ k := by
  rw [← List.length_map UInt8.toNat, littleBytes_digits n v h]
  exact Nat.digits_length_le_iff (by omega) _

/-- The highest byte is not zero. -/
theorem littleBytes_getLast? {n : Nat} {v : UInt32} (h : v.toNat < 256 ^ n) :
    (littleBytes n v).getLast? ≠ some 0 := by
  intro hlast
  have hd := littleBytes_digits n v h
  have hmap := congrArg List.getLast? hd
  rw [List.getLast?_map, hlast] at hmap
  have hne : Nat.digits 256 v.toNat ≠ [] := by
    intro h0
    rw [h0] at hmap
    simp at hmap
  have hv : v.toNat ≠ 0 := Nat.digits_ne_nil_iff_ne_zero.1 hne
  have hz := Nat.getLast_digit_ne_zero 256 hv
  rw [List.getLast?_eq_some_getLast hne] at hmap
  exact hz (Option.some.inj hmap).symm

theorem shiftIn_toNat : ∀ (bs : List UInt8) (acc : UInt32),
    acc.toNat * 256 ^ bs.length + 256 ^ bs.length ≤ 2 ^ 32 →
    (shiftIn acc bs).toNat =
      acc.toNat * 256 ^ bs.length + Nat.ofDigits 256 (bs.reverse.map UInt8.toNat)
  | [], acc, _ => by simp [shiftIn]
  | b :: bs, acc, h => by
    have hb := b.toNat_lt
    have hlen : 256 ^ (b :: bs).length = 256 * 256 ^ bs.length := by
      rw [List.length_cons, Nat.pow_succ, Nat.mul_comm]
    have hpos : 0 < 256 ^ bs.length := Nat.pos_of_ne_zero (by simp)
    rw [hlen] at h ⊢
    -- there is room for one more byte
    have hacc : acc.toNat * 256 + 256 ≤ 2 ^ 32 := by
      calc acc.toNat * 256 + 256 ≤ (acc.toNat * 256 + 256) * 256 ^ bs.length :=
            Nat.le_mul_of_pos_right _ hpos
        _ ≤ 2 ^ 32 := by
            calc _ = acc.toNat * (256 * 256 ^ bs.length) + 256 * 256 ^ bs.length := by ring
              _ ≤ 2 ^ 32 := h
    -- so the shift loses nothing, and the byte fills the low bits
    have hstep : ((acc <<< 8) ||| b.toUInt32).toNat = acc.toNat * 256 + b.toNat := by
      have hmod : acc.toNat * 2 ^ 8 % 2 ^ 32 = acc.toNat * 256 := by omega
      rw [UInt32.toNat_or, UInt32.toNat_shiftLeft, UInt8.toNat_toUInt32, Nat.shiftLeft_eq]
      show acc.toNat * 2 ^ 8 % 2 ^ 32 ||| b.toNat = _
      rw [hmod, shiftIn_eq]
    have hle : (acc.toNat * 256 + b.toNat) * 256 ^ bs.length + 256 ^ bs.length ≤ 2 ^ 32 := by
      calc (acc.toNat * 256 + b.toNat) * 256 ^ bs.length + 256 ^ bs.length
          = (acc.toNat * 256 + b.toNat + 1) * 256 ^ bs.length := by ring
        _ ≤ (acc.toNat * 256 + 256) * 256 ^ bs.length := Nat.mul_le_mul_right _ (by omega)
        _ = acc.toNat * (256 * 256 ^ bs.length) + 256 * 256 ^ bs.length := by ring
        _ ≤ 2 ^ 32 := h
    have ih := shiftIn_toNat bs ((acc <<< 8) ||| b.toUInt32) (by rw [hstep]; exact hle)
    rw [show shiftIn acc (b :: bs) = shiftIn ((acc <<< 8) ||| b.toUInt32) bs from rfl, ih, hstep,
      List.reverse_cons, List.map_append, Nat.ofDigits_append]
    simp
    ring

/-- Up to four bytes make a word of their width. -/
theorem shiftIn_lt {bs : List UInt8} (h : bs.length ≤ 4) :
    (shiftIn 0 bs).toNat < 256 ^ bs.length := by
  have hpow : 256 ^ bs.length ≤ 2 ^ 32 := Nat.pow_le_pow_right (by omega) h
  have hdigits : Nat.ofDigits 256 (bs.reverse.map UInt8.toNat) < 256 ^ bs.length := by
    have hlt : ∀ d ∈ bs.reverse.map UInt8.toNat, d < 256 := by
      intro d hd
      obtain ⟨b, -, rfl⟩ := List.mem_map.1 hd
      exact b.toNat_lt
    simpa using Nat.ofDigits_lt_base_pow_length (by omega) hlt
  have hzero : (0 : UInt32).toNat = 0 := rfl
  rw [shiftIn_toNat bs 0 (by rw [hzero]; omega), hzero]
  omega

/-- The bytes of a word, highest first, shift back into the word. -/
theorem shiftIn_littleBytes {n : Nat} (hn : n ≤ 4) {v : UInt32} (h : v.toNat < 256 ^ n) :
    shiftIn 0 (littleBytes n v).reverse = v := by
  have hlen : (littleBytes n v).length ≤ 4 :=
    Nat.le_trans ((littleBytes_length_le_iff h n).2 h) hn
  have hpow : 256 ^ (littleBytes n v).length ≤ 2 ^ 32 :=
    Nat.pow_le_pow_right (by omega) hlen
  rw [← UInt32.toNat_inj, shiftIn_toNat]
  · rw [List.reverse_reverse, littleBytes_digits n v h, Nat.ofDigits_digits]
    simp
  · simpa using hpow

end PulseCoap.Word
