import Mathlib.Algebra.Ring.Nat
import Mathlib.Tactic.Common
import Mathlib.Data.List.FinRange
import Mathlib.Data.Fintype.Card

/-!
# Fixed tables of slots

A table of `n` slots that a program scans from the front: the first slot that
satisfies a test is found, and one slot at a time is overwritten.

A program finds its entries by scanning for a key, so it is right only as long
as the key is one: `Keyed` says that no two live slots share it, and the lemmas
on `set` say how it is kept when a slot is written or emptied. Counting the
slots of a kind, in the whole table or before an index, is what an argument
needs in which one of several entries with the same key is taken away.

* `find?_eq_some`, `find?_eq_none` — the first slot, and what there is before it.
* `find?_unique` — with a key there is only one that could be found.
* `Keyed.set`, `Keyed.mono` — what keeps a key a key.
* `count_le`, `count_set_off` — how the count changes when slots are written.
-/

namespace PulseCoap

/-- A table of `n` slots. -/
abbrev Table (n : Nat) (α : Type) := Fin n → α

namespace Table

variable {n : Nat} {α : Type}

/-- Overwriting one slot. -/
def set (t : Table n α) (i : Fin n) (a : α) : Table n α := fun j => if j = i then a else t j

/-- The first slot that satisfies `p`. -/
def find? (p : α → Bool) (t : Table n α) : Option (Fin n) :=
  (List.finRange n).find? fun i => p (t i)

theorem set_apply (t : Table n α) (i j : Fin n) (a : α) :
    t.set i a j = if j = i then a else t j := rfl

@[simp] theorem set_self (t : Table n α) (i : Fin n) (a : α) : t.set i a i = a := if_pos rfl

@[simp] theorem set_ne (t : Table n α) {i j : Fin n} (a : α) (h : j ≠ i) :
    t.set i a j = t j := if_neg h

/-- The second write of a slot counts. -/
@[simp] theorem set_set (t : Table n α) (i : Fin n) (a b : α) :
    (t.set i a).set i b = t.set i b := by
  funext j
  by_cases h : j = i <;> simp [h]

@[simp] theorem set_eq_self (t : Table n α) (i : Fin n) : t.set i (t i) = t := by
  funext j
  by_cases h : j = i
  · rw [h, set_self]
  · rw [set_ne _ _ h]

/-- Writing an entry that satisfies what all the entries do. -/
theorem forall_set {P : α → Prop} {t : Table n α} (h : ∀ j, P (t j)) {i : Fin n} {a : α} (ha : P a)
    (j : Fin n) : P (t.set i a j) := by
  by_cases hji : j = i
  · rw [hji, set_self]
    exact ha
  · rw [set_ne _ _ hji]
    exact h j

theorem find?_eq_none {p : α → Bool} {t : Table n α} :
    t.find? p = none ↔ ∀ i, p (t i) = false := by
  simp [find?]

/-- What is found satisfies the test, and no slot before it does. -/
theorem find?_eq_some {p : α → Bool} {t : Table n α} {i : Fin n} :
    t.find? p = some i ↔ p (t i) = true ∧ ∀ j < i, p (t j) = false := by
  rw [find?, List.find?_eq_some_iff_getElem]
  constructor
  · rintro ⟨hp, k, hk, heq, hbefore⟩
    have hik : i.val = k := by rw [← heq]; simp
    refine ⟨hp, fun j hj => ?_⟩
    have := hbefore j.val (by rw [← hik]; exact hj)
    simpa using this
  · rintro ⟨hp, hbefore⟩
    refine ⟨hp, i.val, by simp, by simp, fun j hj => ?_⟩
    have := hbefore ⟨j, by omega⟩ hj
    simpa using this

/-- Tables that look the same to the test have the same first match. -/
theorem find?_congr {p : α → Bool} {t t' : Table n α} (h : ∀ i, p (t' i) = p (t i)) :
    t'.find? p = t.find? p := by
  unfold find?
  simp only [h]

/-- What is found satisfies `p`. -/
theorem find?_spec {p : α → Bool} {t : Table n α} {i : Fin n} (h : t.find? p = some i) :
    p (t i) = true := (find?_eq_some.1 h).1

/-- Where one satisfies `p`, one is found, not always the same. -/
theorem find?_isSome {p : α → Bool} {t : Table n α} {i : Fin n} (h : p (t i) = true) :
    ∃ j, t.find? p = some j := by
  cases hf : t.find? p with
  | none => rw [find?_eq_none.1 hf i] at h; cases h
  | some j => exact ⟨j, rfl⟩

/-- The first match stays the first match when it is overwritten by another. -/
theorem find?_set_self {p : α → Bool} {t : Table n α} {i : Fin n} {a : α}
    (h : t.find? p = some i) (ha : p a = true) : (t.set i a).find? p = some i := by
  obtain ⟨-, hbefore⟩ := find?_eq_some.1 h
  refine find?_eq_some.2 ⟨by rwa [set_self], fun j hj => ?_⟩
  rw [set_ne _ _ (by omega)]
  exact hbefore j hj

/-- A slot that alone satisfies the test is the one found. -/
theorem find?_unique {p : α → Bool} {t : Table n α} {i : Fin n} (h : p (t i) = true)
    (huniq : ∀ j, p (t j) = true → j = i) : t.find? p = some i := by
  obtain ⟨j, hj⟩ := find?_isSome h
  rw [hj, huniq j (find?_spec hj)]

/-- Where nothing matched, a match that is written is the one found. -/
theorem find?_set_new {p : α → Bool} {t : Table n α} {i : Fin n} {a : α}
    (h : t.find? p = none) (ha : p a = true) : (t.set i a).find? p = some i := by
  refine find?_unique (by rwa [set_self]) fun j hj => ?_
  by_contra hji
  rw [set_ne _ _ hji, find?_eq_none.1 h] at hj
  cases hj

/-! ## Keys -/

variable {κ : Type}

/-- No two live slots have the same key. -/
def Keyed (live : α → Prop) (key : α → κ) (t : Table n α) : Prop :=
  ∀ i j, live (t i) → live (t j) → key (t i) = key (t j) → i = j

/-- A table whose live slots are live slots of a keyed one is keyed. -/
theorem Keyed.mono {live : α → Prop} {key : α → κ} {t t' : Table n α} (h : t.Keyed live key)
    (hsub : ∀ i, live (t' i) → live (t i) ∧ key (t' i) = key (t i)) : t'.Keyed live key := by
  intro i j hi hj heq
  obtain ⟨hi, hki⟩ := hsub i hi
  obtain ⟨hj, hkj⟩ := hsub j hj
  exact h i j hi hj (by rw [← hki, ← hkj, heq])

/-- Writing a slot under a key no other live slot has. -/
theorem Keyed.set {live : α → Prop} {key : α → κ} {t : Table n α} (h : t.Keyed live key)
    {i : Fin n} {a : α} (hfresh : ∀ j, j ≠ i → live (t j) → key (t j) ≠ key a) :
    (t.set i a).Keyed live key := by
  intro j k hj hk heq
  by_cases hji : j = i
  · by_cases hki : k = i
    · exact hji.trans hki.symm
    · rw [hji, set_self, set_ne _ _ hki] at heq
      rw [set_ne _ _ hki] at hk
      exact absurd heq.symm (hfresh k hki hk)
  · rw [set_ne _ _ hji] at hj heq
    by_cases hki : k = i
    · rw [hki, set_self] at heq
      exact absurd heq (hfresh j hji hj)
    · rw [set_ne _ _ hki] at hk heq
      exact h j k hj hk heq

/-- Writing a slot that is no longer live, or has kept its key. -/
theorem Keyed.set_same {live : α → Prop} {key : α → κ} {t : Table n α} (h : t.Keyed live key)
    {i : Fin n} {a : α} (ha : live a → live (t i) ∧ key a = key (t i)) :
    (t.set i a).Keyed live key := by
  refine h.mono fun j hj => ?_
  by_cases hji : j = i
  · subst hji
    rw [set_self] at hj ⊢
    exact ha hj
  · rw [set_ne _ _ hji] at hj ⊢
    exact ⟨hj, rfl⟩

/-- In a keyed table the scan for a key finds the live slot that has it. -/
theorem Keyed.find?_eq {live : α → Prop} {key : α → κ} {t : Table n α} (h : t.Keyed live key)
    {p : α → Bool} {k : κ} (hp : ∀ a, p a = true ↔ live a ∧ key a = k) {i : Fin n}
    (hi : live (t i)) (hk : key (t i) = k) : t.find? p = some i := by
  refine find?_unique ((hp _).2 ⟨hi, hk⟩) fun j hj => ?_
  obtain ⟨hj, hkj⟩ := (hp _).1 hj
  exact h j i hj hi (hkj.trans hk.symm)

/-! ## Counting -/

variable (p : α → Prop) [DecidablePred p]

/-- How many slots satisfy `p`. -/
def count (t : Table n α) : Nat := (Finset.univ.filter fun i => p (t i)).card

/-- How many slots before `i` satisfy `p`. -/
def countBefore (t : Table n α) (i : Fin n) : Nat :=
  (Finset.univ.filter fun j => j < i ∧ p (t j)).card

variable {p}

/-- One that satisfies `p` is counted. -/
theorem count_pos {t : Table n α} {i : Fin n} (h : p (t i)) : 0 < t.count p :=
  Finset.card_pos.2 ⟨i, by simpa using h⟩

/-- Where less holds, less is counted. -/
theorem count_le {q : α → Prop} [DecidablePred q] {t t' : Table n α} (h : ∀ i, p (t' i) → q (t i)) :
    t'.count p ≤ t.count q := by
  refine Finset.card_le_card fun i hi => ?_
  rw [Finset.mem_filter] at hi ⊢
  exact ⟨hi.1, h i hi.2⟩

/-- Writing one slot adds one at most. -/
theorem count_set_le (t : Table n α) (i : Fin n) (a : α) : (t.set i a).count p ≤ t.count p + 1 := by
  have hsub : (Finset.univ.filter fun j => p (t.set i a j)) ⊆
      insert i (Finset.univ.filter fun j => p (t j)) := by
    intro j hj
    rw [Finset.mem_insert, Finset.mem_filter]
    by_cases hji : j = i
    · exact .inl hji
    · rw [Finset.mem_filter, set_ne t a hji] at hj
      exact .inr hj
  exact (Finset.card_le_card hsub).trans (Finset.card_insert_le ..)

/-- Fewer than all: some slot does not count. -/
theorem exists_of_count_lt {t : Table n α} (h : t.count p < n) : ∃ i, ¬ p (t i) := by
  by_contra hall
  have huniv : (Finset.univ.filter fun i => p (t i)) = Finset.univ :=
    Finset.filter_true_of_mem fun i _ => not_not.1 fun hi => hall ⟨i, hi⟩
  unfold count at h
  rw [huniv, Finset.card_univ, Fintype.card_fin] at h
  exact Nat.lt_irrefl n h

/-- Writing a slot without a change to what is counted. -/
theorem count_set_same {t : Table n α} {i : Fin n} {a : α} (h : p a ↔ p (t i)) :
    (t.set i a).count p = t.count p := by
  unfold count
  congr 1
  ext j
  by_cases hji : j = i
  · simp [hji, h]
  · simp [hji]

/-- One slot counts no longer. -/
theorem count_set_off {t : Table n α} {i : Fin n} {a : α} (hi : p (t i)) (ha : ¬ p a) :
    (t.set i a).count p + 1 = t.count p := by
  have herase : (Finset.univ.filter fun j => p (t.set i a j)) =
      (Finset.univ.filter fun j => p (t j)).erase i := by
    ext j
    by_cases hji : j = i
    · simp [hji, ha]
    · simp [hji]
  have hpos := count_pos (p := p) hi
  unfold count at hpos ⊢
  rw [herase, Finset.card_erase_of_mem (by simpa using hi)]
  omega

/-- A write behind `i`, or one that changes nothing for `p`. -/
theorem countBefore_set_same {t : Table n α} {i k : Fin n} {a : α} (h : k < i → (p a ↔ p (t k))) :
    (t.set k a).countBefore p i = t.countBefore p i := by
  unfold countBefore
  congr 1
  ext j
  by_cases hjk : j = k
  · by_cases hki : k < i
    · simp [hjk, h hki]
    · simp [hjk, hki]
  · simp [hjk]

/-- One slot before `i` counts no longer. -/
theorem countBefore_set_off {t : Table n α} {i k : Fin n} {a : α} (hki : k < i) (hk : p (t k))
    (ha : ¬ p a) : (t.set k a).countBefore p i + 1 = t.countBefore p i := by
  have herase : (Finset.univ.filter fun j => j < i ∧ p (t.set k a j)) =
      (Finset.univ.filter fun j => j < i ∧ p (t j)).erase k := by
    ext j
    by_cases hjk : j = k
    · simp [hjk, ha]
    · simp [hjk]
  have hmem : k ∈ Finset.univ.filter fun j => j < i ∧ p (t j) := by simpa using ⟨hki, hk⟩
  have hpos := Finset.card_pos.2 ⟨k, hmem⟩
  unfold countBefore
  rw [herase, Finset.card_erase_of_mem hmem]
  omega

/-- No slot before the first one counts. -/
theorem countBefore_eq_zero {t : Table n α} {i : Fin n} (h : ∀ j < i, ¬ p (t j)) :
    t.countBefore p i = 0 := by
  unfold countBefore
  rw [Finset.card_eq_zero, Finset.filter_eq_empty_iff]
  rintro j - ⟨hji, hj⟩
  exact h j hji hj

end Table

end PulseCoap
