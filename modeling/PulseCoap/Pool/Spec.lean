import PulseCoap.Transaction

/-!
# PulseCoAP — what the operations of `TransactionPool` do

One lemma for each operation that says everything it can do to the pool, with
its guards; the client, the server and the pool on its own use these.

The guards of an operation are part of its lemma: that the token fits, that a
slot is free, that no earlier slot matches. A proof about runs splits a step
into these cases and never looks into the loops of the source.

* `start_cases` — a free slot is taken, or nothing happens.
* `complete_cases`, `completeByToken_cases` — the first match is freed.
* `tickSlot_cases` — a slot is passed over, resent or ended.
-/

namespace PulseCoap

namespace TransactionPool

variable {cfg : Config}

/-- The transaction `start` writes. -/
def started (cfg : Config) (remote : Endpoint) (messageId : UInt16) (token message : Bytes)
    (nowMs : UInt32) (owner : Call) : Transaction :=
  { state := .awaitingAck, remote, messageId, token, retriesSent := 0
    currentTimeoutMs := computeInitialTimeoutMs cfg messageId.toUInt32
    nextRetryAtMs := nowMs + computeInitialTimeoutMs cfg messageId.toUInt32, message, owner }

/-- `start` takes a free slot and returns it, or leaves the pool alone. -/
theorem start_eq (pool : TransactionPool cfg) (remote : Endpoint) (messageId : UInt16)
    (token message : Bytes) (nowMs : UInt32) (owner : Call) :
    pool.start remote messageId token message nowMs owner = (pool, none) ∨
      ∃ i, (pool i).state = .free ∧
        pool.start remote messageId token message nowMs owner =
          (pool.set i (started cfg remote messageId token message nowMs owner), some i) := by
  unfold start
  split
  · exact .inl rfl
  split
  · exact .inl rfl
  cases hf : pool.find? (·.state == .free) with
  | none => exact .inl rfl
  | some i => exact .inr ⟨i, by simpa using Table.find?_spec hf, rfl⟩

theorem start_cases (pool : TransactionPool cfg) (remote : Endpoint) (messageId : UInt16)
    (token message : Bytes) (nowMs : UInt32) (owner : Call) :
    (pool.start remote messageId token message nowMs owner).1 = pool ∨
      ∃ i, (pool i).state = .free ∧
        (pool.start remote messageId token message nowMs owner).1 =
          pool.set i (started cfg remote messageId token message nowMs owner) := by
  rcases start_eq pool remote messageId token message nowMs owner with h | ⟨i, hi, h⟩
  · exact .inl (by rw [h])
  · exact .inr ⟨i, hi, by rw [h]⟩

theorem matchesId_iff {remote : Endpoint} {messageId : UInt16} {t : Transaction} :
    matchesId remote messageId t = true ↔
      Awaiting t ∧ t.remote = remote ∧ t.messageId = messageId := by
  simp [matchesId, Awaiting, and_assoc]

/-- `complete` frees the first match. -/
theorem complete_cases (pool : TransactionPool cfg) (remote : Endpoint) (messageId : UInt16) :
    (pool.find? (matchesId remote messageId) = none ∧
        (pool.complete remote messageId).1 = pool) ∨
      ∃ i, pool.find? (matchesId remote messageId) = some i ∧
        (pool.complete remote messageId).1 = pool.set i { pool i with state := .free } := by
  unfold complete
  cases hf : pool.find? (matchesId remote messageId) with
  | none => exact .inl ⟨rfl, rfl⟩
  | some i => exact .inr ⟨i, rfl, rfl⟩

/-- So does `completeByToken`. -/
theorem completeByToken_cases (pool : TransactionPool cfg) (remote : Endpoint) (token : Bytes) :
    let found := pool.find? fun t =>
      t.state == .awaitingAck && t.remote == remote && t.token == token
    (found = none ∧ (pool.completeByToken remote token).1 = pool) ∨
      ∃ i, found = some i ∧ Awaiting (pool i) ∧
        (pool.completeByToken remote token).1 = pool.set i { pool i with state := .free } := by
  unfold completeByToken
  cases hf : pool.find? fun t =>
      t.state == .awaitingAck && t.remote == remote && t.token == token with
  | none => exact .inl ⟨rfl, rfl⟩
  | some i =>
    have hspec := Table.find?_spec hf
    simp only [Bool.and_eq_true, beq_iff_eq] at hspec
    exact .inr ⟨i, rfl, hspec.1.1, rfl⟩

/-- One pass of the scan passes over a slot, resends its message or ends it. -/
theorem tickSlot_cases (cfg : Config) (nowMs : UInt32) (t : Transaction) :
    (tickSlot cfg nowMs t = (t, none) ∧ (Awaiting t → notDue nowMs t = true)) ∨
      (Awaiting t ∧ notDue nowMs t = false ∧ t.retriesSent < cfg.maxRetransmit ∧
        tickSlot cfg nowMs t =
          ({ t with
              retriesSent := t.retriesSent + 1
              currentTimeoutMs := t.currentTimeoutMs * 2
              nextRetryAtMs := nowMs + t.currentTimeoutMs * 2 },
            some (.resend t.remote t.message))) ∨
      (Awaiting t ∧ notDue nowMs t = false ∧ ¬ t.retriesSent < cfg.maxRetransmit ∧
        tickSlot cfg nowMs t =
          ({ t with state := .free }, some (.timeout t.remote t.token))) := by
  unfold tickSlot
  by_cases hs : t.state = .awaitingAck
  · by_cases hd : notDue nowMs t = true
    · exact .inl ⟨by rw [if_neg (not_not.2 hs), if_pos hd], fun _ => hd⟩
    · rw [Bool.not_eq_true] at hd
      rw [if_neg (not_not.2 hs), if_neg (by simp [hd])]
      by_cases hr : t.retriesSent < cfg.maxRetransmit
      · exact .inr (.inl ⟨hs, hd, hr, if_pos hr⟩)
      · exact .inr (.inr ⟨hs, hd, hr, if_neg hr⟩)
  · exact .inl ⟨if_pos hs, fun h => absurd h hs⟩

end TransactionPool

end PulseCoap
