import PulseCoap.Lib.Run
import PulseCoap.Lib.Table

/-!
# Rings

A queue of at most `n` entries in a ring of `n` slots, with a counter for each
end. The counters are never reduced to an index: they run modulo `M`, and a slot
is found by its counter modulo `n`.

The comparison is of what the actions put out, and `shown` says how much of an
entry that is: an implementation may keep more in a slot than it ever tells.
`Holds` relates the two machines: the counters are as many apart as the queue
has entries, and each entry is in the slot of its counter. A push keeps it
because the slot behind the last entry is none of the queue's, for which the
slots must come round with the counters.

* `queue`, `ring` — the two as machines with the same actions.
* `Holds.push`, `Holds.pop` — what one action preserves.
* `exec_eq` — if `n` divides `M` and is smaller, no sequence of actions tells the two apart.
* `exists_lost` — otherwise some sequence does, after a full round of the counters.
-/

namespace PulseCoap

namespace Ring

variable {α β : Type}

/-- What is done to a queue. -/
inductive Op (α : Type) where
  | push (a : α)
  | pop
  | idle

-- ===========================================================================
-- The queue
-- ===========================================================================

/-- A full queue drops what comes. -/
def queuePush (n : Nat) (q : List α) (a : α) : List α := if q.length < n then q ++ [a] else q

/-- The queue; `shown` is what a `pop` tells of an entry. -/
def queue (n : Nat) (shown : α → β) : Machine (List α) (Op α) (Option β) where
  init := []
  next q
    | .push a => (queuePush n q a, [])
    | .pop => (q.tail, [q.head?.map shown])
    | .idle => (q, [])

/-- The oldest entry stays the oldest. -/
theorem head?_queuePush {n : Nat} {q : List α} {a b : α} (h : q.head? = some b) :
    (queuePush n q a).head? = some b := by
  unfold queuePush
  split
  · rw [List.head?_append, h]
    rfl
  · exact h

-- ===========================================================================
-- The ring
-- ===========================================================================

end Ring

/-- `n` slots, and the counters of the two ends. -/
structure Ring (n : Nat) (α : Type) where
  slots : Table n α
  head  : Nat := 0
  tail  : Nat := 0

namespace Ring

variable {α β : Type} {n : Nat} [NeZero n]

def index (counter : Nat) : Fin n := Fin.ofNat n counter

/-- The entries between the counters, as far as they tell. -/
def used (M : Nat) (r : Ring n α) : Nat := (M - r.head + r.tail) % M

def push (M : Nat) (r : Ring n α) (a : α) : Ring n α :=
  if r.used M < n then
    { r with slots := r.slots.set (index r.tail) a, tail := (r.tail + 1) % M }
  else r

def pop (M : Nat) (r : Ring n α) : Ring n α × Option α :=
  if r.head = r.tail then (r, none)
  else ({ r with head := (r.head + 1) % M }, some (r.slots (index r.head)))

/-- Nothing has been stored over what the slots hold at first. -/
def start (blank : α) : Ring n α where
  slots := fun _ => blank

/-- The ring, with the actions of the queue. -/
def ring (n : Nat) [NeZero n] (M : Nat) (blank : α) (shown : α → β) :
    Machine (Ring n α) (Op α) (Option β) where
  init := start blank
  next r
    | .push a => (r.push M a, [])
    | .pop => ((r.pop M).1, [(r.pop M).2.map shown])
    | .idle => (r, [])

-- ===========================================================================
-- Counters that come round together with the slots
-- ===========================================================================

/-- The ring holds the entries of the queue, from its head on. -/
structure Holds (M : Nat) (r : Ring n α) (q : List α) : Prop where
  head   : r.head < M
  tail   : r.tail = (r.head + q.length) % M
  length : q.length ≤ n
  slots  : ∀ i, (h : i < q.length) → r.slots (index (r.head + i)) = q[i]

/-- Two counters are at one slot exactly when they agree modulo the ring. -/
theorem index_eq {i j : Nat} : (index i : Fin n) = index j ↔ i % n = j % n := by
  simp [index, Fin.ext_iff]

/-- Two of `n` counters in a row have different slots. -/
theorem index_ne {k i j : Nat} (hij : i < j) (hj : j < i + n) :
    (index (k + i) : Fin n) ≠ index (k + j) := by
  rw [Ne, index_eq]
  intro h
  have hdvd : n ∣ k + j - (k + i) := Nat.dvd_of_mod_eq_zero (Nat.sub_mod_eq_zero_of_mod_eq h.symm)
  have := Nat.le_of_dvd (by omega) hdvd
  omega

section

variable {M : Nat} (hdvd : n ∣ M) (hlt : n < M)

include hdvd in
/-- The way round does not show in the slot. -/
theorem index_mod (i : Nat) : (index (i % M) : Fin n) = index i :=
  index_eq.2 (Nat.mod_mod_of_dvd i hdvd)

variable {r : Ring n α} {q : List α}

include hlt

/-- The counters know how many entries there are. -/
theorem Holds.used (h : Holds M r q) : r.used M = q.length := by
  have hlen := h.length
  have hhead := h.head
  unfold Ring.used
  rw [h.tail, Nat.add_mod_mod, show M - r.head + (r.head + q.length) = q.length + M by omega,
    Nat.add_mod_right, Nat.mod_eq_of_lt (by omega)]

/-- They are the same when there is none. -/
theorem Holds.empty_iff (h : Holds M r q) : r.head = r.tail ↔ q = [] := by
  have hlen := h.length
  have hhead := h.head
  rw [h.tail, ← List.length_eq_zero_iff]
  constructor
  · intro heq
    by_contra hne
    rcases Nat.lt_or_ge (r.head + q.length) M with hlow | hhigh
    · rw [Nat.mod_eq_of_lt hlow] at heq
      omega
    · rw [Nat.mod_eq_sub_mod hhigh, Nat.mod_eq_of_lt (by omega)] at heq
      omega
  · intro hnil
    rw [hnil, Nat.add_zero, Nat.mod_eq_of_lt hhead]

include hdvd

/-- **A push** into a ring that is not full appends to the queue; a full one drops it. The slot
that is written is no slot of a waiting entry, as the counters are less than `n` apart. -/
theorem Holds.push (h : Holds M r q) (a : α) : Holds M (r.push M a) (queuePush n q a) := by
  unfold Ring.push queuePush
  rw [h.used hlt]
  split
  · next hroom =>
    refine ⟨h.head, ?_, ?_, fun i hi => ?_⟩
    · dsimp only
      rw [h.tail, Nat.mod_add_mod, List.length_append, List.length_singleton, Nat.add_assoc]
    · rw [List.length_append, List.length_singleton]
      exact hroom
    · dsimp only
      rw [List.length_append, List.length_singleton] at hi
      have htail : (index r.tail : Fin n) = index (r.head + q.length) := by
        rw [h.tail, index_mod hdvd]
      rcases Nat.lt_or_ge i q.length with hold | hnew
      · rw [htail, Table.set_ne _ _ (index_ne hold (by omega)), h.slots i hold,
          List.getElem_append_left hold]
      · obtain rfl : i = q.length := by omega
        rw [htail, Table.set_self, List.getElem_concat_length rfl]
  · exact h

/-- **A pop** takes the oldest element. Its slot is the one of the lower counter, and the other
entries keep theirs. -/
theorem Holds.pop (h : Holds M r q) :
    (r.pop M).2 = q.head? ∧ Holds M (r.pop M).1 q.tail := by
  unfold Ring.pop
  cases q with
  | nil =>
    rw [if_pos ((h.empty_iff hlt).2 rfl)]
    exact ⟨rfl, h⟩
  | cons a q =>
    rw [if_neg (mt (h.empty_iff hlt).1 (List.cons_ne_nil a q))]
    have hlen := h.length
    rw [List.length_cons] at hlen
    refine ⟨congrArg some (h.slots 0 (Nat.succ_pos _)), Nat.mod_lt _ (by omega), ?_,
      by simpa using by omega, fun i hi => ?_⟩
    · dsimp only
      rw [h.tail, List.length_cons, List.tail_cons, Nat.mod_add_mod]
      congr 1
      omega
    · dsimp only
      have hnext := h.slots (i + 1) (Nat.succ_lt_succ hi)
      rw [List.getElem_cons_succ] at hnext
      rw [← index_mod hdvd, Nat.mod_add_mod, index_mod hdvd, Nat.add_right_comm, Nat.add_assoc]
      exact hnext

/-- **The ring is the queue** for every sequence of actions, as long as the number of slots
divides the round of the counters and is less than it. -/
theorem exec_eq (blank : α) (shown : α → β) (ops : List (Op α)) :
    ((ring n M blank shown).exec [] (start blank) ops).1 = ((queue n shown).exec [] [] ops).1 := by
  have hstart : Holds M (start blank : Ring n α) ([] : List α) :=
    ⟨Nat.lt_of_le_of_lt (Nat.zero_le n) hlt, (Nat.zero_mod M).symm, Nat.zero_le n,
      fun _ hi => (nomatch hi)⟩
  have hstep : ∀ (q : List α) (r : Ring n α) (op : Op α), Holds M r q →
      ((ring n M blank shown).next r (id op)).2 = ((queue n shown).next q op).2 ∧
        Holds M ((ring n M blank shown).next r (id op)).1 ((queue n shown).next q op).1 := by
    intro q r op h
    cases op with
    | push a => exact ⟨rfl, h.push hdvd hlt a⟩
    | pop =>
      obtain ⟨hout, hnext⟩ := h.pop hdvd hlt
      refine ⟨?_, hnext⟩
      show [(r.pop M).2.map shown] = [q.head?.map shown]
      rw [hout]
    | idle => exact ⟨rfl, h⟩
  have hsame := Machine.exec_lockstep hstep ops [] [] (start blank) hstart
  rwa [List.map_id] at hsame

end

-- ===========================================================================
-- Counters that do not
-- ===========================================================================

variable {M : Nat} (blank : α) (shown : α → β)

variable {blank shown} in
/-- A `pop` that tells different entries. -/
theorem exec_ne {ops : List (Op α)} {r : Ring n α} {q : List α}
    (hring : ((ring n M blank shown).exec [] (start blank) ops).2 = r)
    (hqueue : ((queue n shown).exec [] [] ops).2 = q)
    (hpop : (r.pop M).2.map shown ≠ q.head?.map shown) :
    ((ring n M blank shown).exec [] (start blank) (ops ++ [.pop])).1 ≠
      ((queue n shown).exec [] [] (ops ++ [.pop])).1 := by
  rw [Machine.exec_concat, Machine.exec_concat, hring, hqueue]
  intro heq
  exact hpop (List.singleton_inj.1 (List.append_inj' heq rfl).2)

/-- As many pushes. -/
def pushes (a : α) (k : Nat) : List (Op α) := List.replicate k (.push a)

theorem pushes_succ (a : α) (k : Nat) : pushes a (k + 1) = pushes a k ++ [.push a] :=
  List.replicate_succ'

omit [NeZero n] in
/-- An entry that waits in the queue stays its first one. -/
theorem queue_pushes {ops : List (Op α)} {b : α}
    (h : ((queue n shown).exec [] [] ops).2.head? = some b) (a : α) (k : Nat) :
    ((queue n shown).exec [] [] (ops ++ pushes a k)).2.head? = some b := by
  induction k with
  | zero => simpa [pushes] using h
  | succ k ih =>
    rw [pushes_succ, ← List.append_assoc, Machine.exec_concat]
    exact head?_queuePush ih

/-- The first entry of a queue. -/
theorem queue_first {ops : List (Op α)} (h : ((queue n shown).exec [] [] ops).2 = []) (a : α) :
    ((queue n shown).exec [] [] (ops ++ [.push a])).2.head? = some a := by
  rw [Machine.exec_concat, h]
  show (queuePush n [] a).head? = some a
  rw [queuePush, if_pos (show ([] : List α).length < n from Nat.pos_of_neZero n)]
  rfl

/-- **More slots than counts**: a full round of pushes, and the ring looks empty. The queue has
an element to give by then. -/
theorem lost_of_le (hM : 0 < M) (hle : M ≤ n) (a : α) :
    ((ring n M blank shown).exec [] (start blank) (pushes a M ++ [.pop])).1 ≠
      ((queue n shown).exec [] [] (pushes a M ++ [.pop])).1 := by
  -- the write index goes around once, to where the read index is
  have hring : ∀ k ≤ M, ∃ slots,
      ((ring n M blank shown).exec [] (start blank) (pushes a k)).2 = ⟨slots, 0, k % M⟩ := by
    intro k
    induction k with
    | zero => exact fun _ => ⟨_, by rw [Nat.zero_mod]; rfl⟩
    | succ k ih =>
      intro hk
      obtain ⟨slots, hslots⟩ := ih (by omega)
      rw [pushes_succ, Machine.exec_concat, hslots]
      refine ⟨slots.set (index (k % M)) a, ?_⟩
      have hused : used M (⟨slots, 0, k % M⟩ : Ring n α) < n :=
        Nat.lt_of_lt_of_le (Nat.mod_lt _ hM) hle
      show Ring.push M _ a = _
      rw [Ring.push, if_pos hused]
      dsimp only
      rw [Nat.mod_add_mod]
  obtain ⟨slots, hslots⟩ := hring M (Nat.le_refl M)
  refine exec_ne hslots rfl ?_
  -- the queue still has the first of them
  have hfirst : ((queue n shown).exec [] [] (pushes a M)).2.head? = some a := by
    have hnone : ((queue n shown).exec [] [] []).2 = [] := rfl
    have h := queue_pushes shown (queue_first shown hnone a) a (M - 1)
    have hpushes : [] ++ [.push a] ++ pushes a (M - 1) = pushes a M := by
      obtain ⟨k, rfl⟩ := Nat.exists_eq_add_one.2 hM
      rfl
    rwa [hpushes] at h
  rw [hfirst, Ring.pop, if_pos (Nat.mod_self M).symm]
  exact nofun

/-- Counters that are the same leave room. -/
theorem used_same_lt (slots : Table n α) {k : Nat} (hk : k ≤ M) :
    used M ⟨slots, k, k⟩ < n := by
  unfold used
  dsimp only
  rw [Nat.sub_add_cancel hk, Nat.mod_self]
  exact Nat.pos_of_neZero n

/-- As many times in and out. -/
def rounds (a : α) : Nat → List (Op α)
  | 0 => []
  | k + 1 => rounds a k ++ [.push a] ++ [.pop]

theorem queue_rounds (a : α) (k : Nat) :
    ((queue n shown).exec [] [] (rounds a k)).2 = [] := by
  induction k with
  | zero => rfl
  | succ k ih =>
    rw [rounds, Machine.exec_concat, Machine.exec_concat, ih]
    show (queuePush n [] a).tail = []
    rw [queuePush, if_pos (show ([] : List α).length < n from Nat.pos_of_neZero n)]
    rfl

/-- Both counters have gone on as far. -/
theorem ring_rounds (a : α) {k : Nat} (hk : k < M) :
    ∃ slots, ((ring n M blank shown).exec [] (start blank) (rounds a k)).2 = ⟨slots, k, k⟩ := by
  induction k with
  | zero => exact ⟨_, rfl⟩
  | succ k ih =>
    obtain ⟨slots, hslots⟩ := ih (by omega)
    rw [rounds, Machine.exec_concat, Machine.exec_concat, hslots]
    refine ⟨slots.set (index k) a, ?_⟩
    have hused := used_same_lt slots (show k ≤ M by omega)
    show (Ring.pop M (Ring.push M _ a)).1 = _
    rw [Ring.push, if_pos hused, Ring.pop, if_neg]
    · dsimp only
      rw [Nat.mod_eq_of_lt hk]
    · dsimp only
      rw [Nat.mod_eq_of_lt hk]
      omega

/-- **A last count on another slot**: the entry that waits over the end of the round is written
over by the one that comes as many counts later as the round is too long. The ring gives back
the later one where the queue has the earlier one. -/
theorem lost_of_mod (hlt : n < M) (hmod : M % n ≠ 0) {a b : α} (hab : shown a ≠ shown b) :
    let ops := rounds a (M - 1) ++ [.push b] ++ pushes a (M % n)
    ((ring n M blank shown).exec [] (start blank) (ops ++ [.pop])).1 ≠
      ((queue n shown).exec [] [] (ops ++ [.pop])).1 := by
  intro ops
  have hn := Nat.pos_of_neZero n
  have hm : M % n < n := Nat.mod_lt _ hn
  -- the pushes that come behind `b`
  have hring : ∀ k ≤ M % n, ∃ slots,
      ((ring n M blank shown).exec [] (start blank)
        (rounds a (M - 1) ++ [.push b] ++ pushes a k)).2 = ⟨slots, M - 1, k⟩ ∧
      (0 < k → slots (index (k - 1)) = a) := by
    intro k
    induction k with
    | zero =>
      intro _
      have hlast : M - 1 < M := by omega
      obtain ⟨slots, hslots⟩ := ring_rounds (n := n) blank shown a hlast
      refine ⟨slots.set (index (M - 1)) b, ?_, fun h => absurd h (Nat.lt_irrefl 0)⟩
      have hused := used_same_lt slots (show M - 1 ≤ M by omega)
      rw [pushes, List.replicate_zero, List.append_nil, Machine.exec_concat, hslots]
      show Ring.push M _ b = _
      rw [Ring.push, if_pos hused]
      dsimp only
      rw [Nat.sub_add_cancel (by omega), Nat.mod_self]
    | succ k ih =>
      intro hk
      obtain ⟨slots, hslots, -⟩ := ih (by omega)
      refine ⟨slots.set (index k) a, ?_, fun _ => Table.set_self ..⟩
      have hused : used M (⟨slots, M - 1, k⟩ : Ring n α) < n := by
        unfold used
        dsimp only
        rw [Nat.mod_eq_of_lt (by omega)]
        omega
      rw [pushes_succ, ← List.append_assoc, Machine.exec_concat, hslots]
      show Ring.push M _ a = _
      rw [Ring.push, if_pos hused]
      dsimp only
      rw [Nat.mod_eq_of_lt (by omega)]
  obtain ⟨slots, hslots, hlast⟩ := hring _ (Nat.le_refl _)
  refine exec_ne hslots rfl ?_
  rw [queue_pushes shown (queue_first shown (queue_rounds shown a (M - 1)) b) a (M % n), Ring.pop,
    if_neg (by dsimp only; omega)]
  dsimp only
  -- both have the same slot
  have hslot : (index (M - 1) : Fin n) = index (M % n - 1) := by
    have hdiv := Nat.div_add_mod M n
    rw [index_eq, show M - 1 = n * (M / n) + (M % n - 1) by omega, Nat.mul_add_mod]
  rw [hslot, hlast (by omega)]
  exact fun h => hab (Option.some.inj h)

/-- **Otherwise** some sequence of actions tells the ring from the queue, and two entries that
look different are enough for it. The two ways to go wrong are the two lemmas above. -/
theorem exists_lost (hM : 0 < M) (hbad : ¬ (n ∣ M ∧ n < M)) {a b : α}
    (hab : shown a ≠ shown b) : ∃ ops : List (Op α), (∀ c, .push c ∈ ops → c = a ∨ c = b) ∧
      ((ring n M blank shown).exec [] (start blank) ops).1 ≠ ((queue n shown).exec [] [] ops).1 := by
  have hpushes : ∀ k c, .push c ∈ pushes a k → c = a := by
    intro k c hc
    cases List.eq_of_mem_replicate hc
    rfl
  -- the counters either come round out of step with the slots, or in fewer values than slots
  rcases Nat.lt_or_ge n M with hlt | hle
  · have hrounds : ∀ k c, .push c ∈ rounds a k → c = a := by
      intro k c hc
      induction k with
      | zero => cases hc
      | succ k ih =>
        simp only [rounds, List.mem_append, List.mem_singleton, reduceCtorEq, or_false,
          Op.push.injEq] at hc
        exact hc.elim ih id
    have hmod : M % n ≠ 0 := fun h => hbad ⟨Nat.dvd_of_mod_eq_zero h, hlt⟩
    refine ⟨_, fun c hc => ?_, lost_of_mod blank shown hlt hmod hab⟩
    simp only [List.mem_append, List.mem_singleton, reduceCtorEq, or_false, Op.push.injEq] at hc
    rcases hc with (hc | hc) | hc
    · exact .inl (hrounds _ c hc)
    · exact .inr hc
    · exact .inl (hpushes _ c hc)
  · refine ⟨_, fun c hc => .inl ?_, lost_of_le blank shown hM hle a⟩
    simp only [List.mem_append, List.mem_singleton, reduceCtorEq, or_false] at hc
    exact hpushes _ c hc

end Ring

end PulseCoap
