import PulseCoap.Pool.Spec

/-!
# PulseCoAP — a pool under a shifted clock

Two pools whose transactions differ in nothing but their deadlines, and these
by `d`, are treated alike by clocks that differ by `d`: `tick` looks at a
difference of the two. The deadline of a free slot is never read, so it may be
anything; in a pool just reset it is 0 under either clock.

The lemmas are about one operation each and hold for every `d`, the shift over
the end of the clock included: a deadline is computed by an addition that wraps,
and the difference of two words does not see a shift of both.

* `TxShift`, `PoolShift` — the relation.
* `PoolShift.start`, `PoolShift.complete`, `TxShift.tickSlot` — every operation
  keeps it, with the same result.
-/

namespace PulseCoap.TransactionPool

variable {cfg : Config} {d : UInt32}

/-- A deadline moves along with the clock. -/
theorem shift_add (a d b : UInt32) : a + d + b = a + b + d := by grind

/-- The time to a deadline stays. -/
theorem shift_sub (a b d : UInt32) : a + d - (b + d) = a - b := by grind

/-- The same transaction with its deadline shifted, where it has one. -/
def TxShift (d : UInt32) (t t' : Transaction) : Prop :=
  ∃ deadline, t' = { t with nextRetryAtMs := deadline } ∧
    (Awaiting t → deadline = t.nextRetryAtMs + d)

/-- So for every slot. -/
def PoolShift (d : UInt32) (pool pool' : TransactionPool cfg) : Prop :=
  ∀ i, TxShift d (pool i) (pool' i)

/-- A pool without transactions is its own shift. -/
theorem poolShift_of_free {pool : TransactionPool cfg} (h : ∀ i, ¬ Awaiting (pool i)) :
    PoolShift d pool pool :=
  fun i => ⟨(pool i).nextRetryAtMs, rfl, fun hi => absurd hi (h i)⟩

/-- One entry is written in both pools. -/
theorem PoolShift.set {pool pool' : TransactionPool cfg} (h : PoolShift d pool pool')
    (i : Fin cfg.maxTransactions) {t t' : Transaction} (ht : TxShift d t t') :
    PoolShift d (pool.set i t) (pool'.set i t') := by
  intro j
  by_cases hji : j = i
  · rw [hji, Table.set_self, Table.set_self]
    exact ht
  · rw [Table.set_ne _ _ hji, Table.set_ne _ _ hji]
    exact h j

/-- A scan that does not look at deadlines finds the same slot. -/
theorem PoolShift.find? {pool pool' : TransactionPool cfg} (h : PoolShift d pool pool')
    {p : Transaction → Bool}
    (hp : ∀ t deadline, p { t with nextRetryAtMs := deadline } = p t) :
    pool'.find? p = pool.find? p := by
  refine Table.find?_congr fun i => ?_
  obtain ⟨deadline, heq, -⟩ := h i
  rw [heq, hp]

/-- An entry is freed in both. -/
theorem TxShift.free {t t' : Transaction} (h : TxShift d t t') :
    TxShift d { t with state := .free } { t' with state := .free } := by
  obtain ⟨deadline, rfl, -⟩ := h
  exact ⟨deadline, rfl, (by intro hfree; cases hfree)⟩

/-- A transaction begins later by the same amount. -/
theorem PoolShift.start {pool pool' : TransactionPool cfg} (h : PoolShift d pool pool')
    (remote : Endpoint) (messageId : UInt16) (token message : Bytes) (nowMs : UInt32)
    (owner : Call) :
    PoolShift d (pool.start remote messageId token message nowMs owner).1
      (pool'.start remote messageId token message (nowMs + d) owner).1 := by
  have hfind : pool'.find? (·.state == .free) = pool.find? (·.state == .free) :=
    h.find? fun _ _ => rfl
  unfold TransactionPool.start
  split
  · exact h
  split
  · exact h
  rw [hfind]
  cases pool.find? (·.state == .free) with
  | none => exact h
  | some i =>
    refine h.set i ⟨_, rfl, fun _ => ?_⟩
    exact shift_add nowMs d _

/-- An ACK finds the same entry in both pools. -/
theorem PoolShift.matches {pool pool' : TransactionPool cfg} (h : PoolShift d pool pool')
    (remote : Endpoint) (messageId : UInt16) :
    pool'.find? (matchesId remote messageId) = pool.find? (matchesId remote messageId) :=
  h.find? fun _ _ => rfl

/-- So it frees the same entry. -/
theorem PoolShift.complete {pool pool' : TransactionPool cfg} (h : PoolShift d pool pool')
    (remote : Endpoint) (messageId : UInt16) :
    PoolShift d (pool.complete remote messageId).1 (pool'.complete remote messageId).1 := by
  unfold TransactionPool.complete
  rw [h.matches]
  cases pool.find? (matchesId remote messageId) with
  | none => exact h
  | some i => exact h.set i (h i).free

/-- So the token of a message ID is the same. -/
theorem PoolShift.getToken {pool pool' : TransactionPool cfg} (h : PoolShift d pool pool')
    (remote : Endpoint) (messageId : UInt16) :
    pool'.getToken remote messageId = pool.getToken remote messageId := by
  unfold TransactionPool.getToken
  rw [h.matches]
  cases pool.find? (matchesId remote messageId) with
  | none => rfl
  | some i =>
    obtain ⟨deadline, heq, -⟩ := h i
    simp only [Option.map_some, heq]

/-- What is due at one time is due at the other: only the signed difference counts. -/
theorem TxShift.notDue {t t' : Transaction} (h : TxShift d t t') (ht : Awaiting t)
    (nowMs : UInt32) : notDue (nowMs + d) t' = notDue nowMs t := by
  obtain ⟨deadline, rfl, hdeadline⟩ := h
  unfold TransactionPool.notDue
  have hdiff : t.nextRetryAtMs + d - (nowMs + d) = t.nextRetryAtMs - nowMs := shift_sub _ _ _
  simp only [hdeadline ht, hdiff]

/-- One pass of the scan does the same to both. -/
theorem TxShift.tickSlot (cfg : Config) {t t' : Transaction} (h : TxShift d t t')
    (nowMs : UInt32) :
    TxShift d (tickSlot cfg nowMs t).1 (tickSlot cfg (nowMs + d) t').1 ∧
      (tickSlot cfg (nowMs + d) t').2 = (tickSlot cfg nowMs t).2 := by
  by_cases ht : Awaiting t
  · have hdue := h.notDue ht nowMs
    obtain ⟨deadline, rfl, hdeadline⟩ := h
    have hstate : ¬ t.state ≠ .awaitingAck := not_not.2 ht
    have hstate' : ¬ ({ t with nextRetryAtMs := deadline } : Transaction).state ≠ .awaitingAck :=
      hstate
    unfold TransactionPool.tickSlot
    rw [if_neg hstate, if_neg hstate', hdue]
    split
    · exact ⟨⟨deadline, rfl, hdeadline⟩, rfl⟩
    · split
      · exact ⟨⟨_, rfl, fun _ => shift_add nowMs d _⟩, rfl⟩
      · exact ⟨⟨deadline, rfl, (by intro hfree; cases hfree)⟩, rfl⟩
  · obtain ⟨deadline, rfl, hdeadline⟩ := h
    have hstate : t.state ≠ .awaitingAck := ht
    have hstate' : ({ t with nextRetryAtMs := deadline } : Transaction).state ≠ .awaitingAck :=
      hstate
    unfold TransactionPool.tickSlot
    rw [if_pos hstate, if_pos hstate']
    exact ⟨⟨deadline, rfl, hdeadline⟩, rfl⟩

end PulseCoap.TransactionPool
