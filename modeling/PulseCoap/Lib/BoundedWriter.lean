import Mathlib.Algebra.Ring.Nat
import Mathlib.Tactic.Common

/-!
# Sequential writers into a bounded buffer

A serializer that fills a caller's buffer front to back and gives up when the
next item does not fit is a function `List α → Except (List α) (List α)`: it
takes what stands in the buffer, and answers either the longer contents or, on
giving up, the contents it had reached by then. The position of the next write
is the length of the contents, so "no write at or beyond the capacity" is a
bound on both answers.

`Writes cap x w` says the whole behaviour of such a serializer at once: it
appends exactly `w` when that fits and otherwise gives up inside the buffer.
The rules below compose it along sequencing, so a serializer's specification
is the concatenation of its parts. `Extends cap x` is what is left of it when
nothing is known about the items.

Nothing is assumed of the items themselves. A writer that gives up may have
written part of its item, or nothing of it; what counts is that it has stayed
inside the buffer. `Writes.pure` and `Writes.bind` are the rules for a
serializer put together of others, `Extends.pure` and `Extends.bind` the same
for the weaker property.
-/

namespace PulseCoap.BoundedWriter

variable {α : Type}

/-- The contents of the buffer when the serializer stopped. -/
def contents : Except (List α) (List α) → List α
  | .ok out => out
  | .error out => out

/-- `x` appends `w`, or gives up without passing `cap` when `w` does not fit. -/
structure Writes (cap : Nat) (x : List α → Except (List α) (List α)) (w : List α) : Prop where
  fits : ∀ out, out.length + w.length ≤ cap → x out = .ok (out ++ w)
  full : ∀ out, out.length ≤ cap → cap < out.length + w.length →
    ∃ e, x out = .error e ∧ e.length ≤ cap

theorem Writes.pure (cap : Nat) : Writes cap (fun out : List α => .ok out) [] where
  fits out _ := by simp
  full out h₁ h₂ := by simp at h₂; omega

/-- Sequencing concatenates what is written. -/
theorem Writes.bind {cap : Nat} {x y : List α → Except (List α) (List α)} {u v : List α}
    (hx : Writes cap x u) (hy : Writes cap y v) :
    Writes cap (fun out => x out >>= y) (u ++ v) where
  fits out h := by
    rw [List.length_append] at h
    show x out >>= y = _
    rw [hx.fits out (by omega)]
    show y (out ++ u) = _
    rw [hy.fits (out ++ u) (by simp; omega), List.append_assoc]
  full out hout h := by
    rw [List.length_append] at h
    show ∃ e, x out >>= y = .error e ∧ _
    by_cases hu : out.length + u.length ≤ cap
    · -- the first part fits, so it is the second that runs out of room
      rw [hx.fits out hu]
      exact hy.full (out ++ u) (by simpa using hu) (by simp; omega)
    · obtain ⟨e, he, hlen⟩ := hx.full out hout (by omega)
      exact ⟨e, by rw [he]; rfl, hlen⟩

/-- `x` only appends, and stays inside the buffer. -/
def Extends (cap : Nat) (x : List α → Except (List α) (List α)) : Prop :=
  ∀ out r, x out = .ok r → out <+: r ∧ (out.length ≤ cap → r.length ≤ cap)

theorem Extends.pure (cap : Nat) : Extends cap fun out : List α => .ok out := by
  intro out r h
  cases h
  exact ⟨List.prefix_rfl, id⟩

theorem Extends.bind {cap : Nat} {x y : List α → Except (List α) (List α)} (hx : Extends cap x)
    (hy : Extends cap y) : Extends cap fun out => x out >>= y := by
  intro out r h
  cases hxo : x out with
  | error e =>
    simp only [hxo] at h
    cases h
  | ok mid =>
    simp only [hxo] at h
    obtain ⟨hpre, hlen⟩ := hx out mid hxo
    obtain ⟨hpre', hlen'⟩ := hy mid r h
    exact ⟨hpre.trans hpre', fun ho => hlen' (hlen ho)⟩

end PulseCoap.BoundedWriter
