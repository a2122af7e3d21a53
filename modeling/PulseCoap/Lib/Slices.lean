import Mathlib.Algebra.Ring.Nat
import Mathlib.Tactic.Common

/-!
# A list in slices of one size

Slice `k` of a list is the part from `k * size` on, `size` elements of it or as
many as there are. A list of length `l` has `count l size` of them, and every
one but the last is full.

`count` rounds up, so an empty list has no slice and a list of a multiple of
`size` has no empty one at its end. A sender that takes the slices in order and
marks every one with `more` behind it has sent the list when the mark is off.

* `slices_tile` — the slices make up the list.
* `slice_more` — what distinguishes the last one.
-/

namespace PulseCoap.Slices

variable {α : Type*}

/-- Slice `k`. -/
def slice (xs : List α) (size k : Nat) : List α :=
  xs.extract (k * size) (min xs.length ((k + 1) * size))

/-- There are elements behind slice `k`. -/
def more (xs : List α) (size k : Nat) : Bool := decide ((k + 1) * size < xs.length)

/-- How many slices a list of this length has. -/
def count (length size : Nat) : Nat := (length + size - 1) / size

/-- A slice is what is left, cut at its size. -/
theorem slice_eq (xs : List α) (size k : Nat) :
    slice xs size k = (xs.drop (k * size)).take size := by
  have hnext : (k + 1) * size = k * size + size := Nat.succ_mul k size
  unfold slice
  rw [List.extract_eq_take_drop]
  by_cases hfull : k * size + size ≤ xs.length
  · rw [show min xs.length ((k + 1) * size) - k * size = size by omega]
  · -- the rest of the list
    have hrest : (xs.drop (k * size)).length ≤ size := by
      rw [List.length_drop]
      omega
    rw [List.take_of_length_le hrest]
    refine List.take_of_length_le ?_
    rw [List.length_drop]
    omega

/-- The first `n` slices reach to `n * size`. -/
theorem take_slices (xs : List α) (size n : Nat) :
    (List.range n).flatMap (slice xs size) = xs.take (n * size) := by
  induction n with
  | zero => simp
  | succ n ih =>
    rw [List.range_succ, List.flatMap_append, ih, Nat.succ_mul, List.take_add]
    simp [slice_eq]

section

variable {xs : List α} {size : Nat} (hsize : 0 < size)

include hsize

/-- A slice that begins inside the list is one of them. -/
theorem slice_inside {k : Nat} : k * size < xs.length ↔ k < count xs.length size := by
  unfold count
  rw [Nat.lt_iff_add_one_le, Nat.lt_iff_add_one_le, Nat.le_div_iff_mul_le hsize, Nat.succ_mul]
  omega

/-- Only the last one has nothing behind it. -/
theorem slice_more {k : Nat} (hk : k < count xs.length size) :
    more xs size k = false ↔ k + 1 = count xs.length size := by
  have hnext : (k + 1) * size < xs.length ↔ k + 1 < count xs.length size := slice_inside hsize
  rw [more, decide_eq_false_iff_not, hnext]
  omega

/-- **The slices tile the list**: put together in their order they are the list again, with
nothing missing at the end and nothing twice. -/
theorem slices_tile : (List.range (count xs.length size)).flatMap (slice xs size) = xs := by
  rw [take_slices]
  refine List.take_of_length_le (Nat.le_of_not_lt fun hshort => ?_)
  exact Nat.lt_irrefl _ ((slice_inside hsize).1 hshort)

end

end PulseCoap.Slices
