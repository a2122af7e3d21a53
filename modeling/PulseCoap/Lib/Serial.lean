import Mathlib.Algebra.Ring.Nat
import Mathlib.Data.List.Chain

/-!
# Serial numbers

A counter that is sent modulo `2 * half` comes round. Of two values the receiver
takes the one that is ahead by less than half of the circle for the newer one.

The comparison is that of serial number arithmetic: at half of the circle the
two are incomparable, and beyond it the order turns round. So a series stays in
order as long as consecutive values are less than half of the circle apart, and
it may go round any number of times.

* `newer_iff` — how far a counter may have gone between two values.
* `isChain_snoc` — a series of values that grows by one.
-/

namespace PulseCoap

namespace Serial

/-- The value `w` is newer than `v`, on a circle of `2 * half` values. -/
def Newer (half v w : Nat) : Prop := (v < w ∧ w - v < half) ∨ (w < v ∧ half < v - w)

instance (half v w : Nat) : Decidable (Newer half v w) := inferInstanceAs (Decidable (_ ∨ _))

/-- **What is `k` counts later is newer** exactly when `k`, on the circle, is neither 0 nor half
of it or more. The value itself does not matter, so a sequence can be followed by its distances. -/
theorem newer_iff {half v : Nat} (hv : v < 2 * half) (k : Nat) :
    Newer half v ((v + k) % (2 * half)) ↔ 0 < k % (2 * half) ∧ k % (2 * half) < half := by
  have hk : k % (2 * half) < 2 * half := Nat.mod_lt _ (by omega)
  rw [← Nat.add_mod_mod]
  generalize k % (2 * half) = j at hk
  unfold Newer
  rcases Nat.lt_or_ge (v + j) (2 * half) with hlow | hhigh
  · -- not yet round
    rw [Nat.mod_eq_of_lt hlow]
    omega
  · rw [Nat.mod_eq_sub_mod hhigh, Nat.mod_eq_of_lt (by omega)]
    omega

/-- One more value at the end. -/
theorem isChain_snoc {α : Type} {R : α → α → Prop} {l : List α} {a : α} :
    (l ++ [a]).IsChain R ↔ l.IsChain R ∧ ∀ b ∈ l.getLast?, R b a := by
  simp [List.isChain_append]

end Serial

end PulseCoap
