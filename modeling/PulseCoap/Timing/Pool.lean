import PulseCoap.Pool.Machine
import PulseCoap.Pool.Spec

/-!
# PulseCoAP — timers and the moment of the call

A call has no clock of its own: a timer it starts counts from `lastNowMs_`, the
`nowMs` of the poll before, or 0 before the first poll. A `Stamp` has both
times of a call, in the milliseconds of a clock that never wraps; the code is
given them modulo 2^32.

The stamps are kept beside the pool and not in it: the source has no such field.
`Stamps.after` gives the stamp of a step to the entries that are new in it,
which is all that a caller of `start` has to show. The clock of a stamp does not
wrap, and the deadline in the pool does, so `Ahead` compares them through the
signed difference that `tick` computes.

* `Event.OnTime` — what a caller expects: nothing is sent again before
  `PULSECOAP_ACK_TIMEOUT_MS`, and a discovery is open for
  `PULSECOAP_DISCOVER_TIMEOUT_MS`, each from the call on.
* `Armed` — where the deadline of a transaction is: at the stamp, plus its
  initial timeout.
* `armed_step`, `armed_resent` — what a step preserves, for any user of a pool.
-/

namespace PulseCoap.Timing

open TransactionPool
open Pool (clock)

variable {cfg : Config}

/-- When a call was made, and the `nowMs` of the poll before it (0 if there was none). -/
structure Stamp where
  call  : Nat
  prior : Nat
deriving DecidableEq, Repr

/-- The milliseconds from the poll before the call, as the code sees them. -/
def Stamp.elapsed (st : Stamp) (time : Nat) : UInt32 := clock time - clock st.prior

/-- What the polls of a run did to something a call at `tau` had opened. -/
inductive Event where
  /-- A poll at `t` sent the datagram of the call again, or tried to. -/
  | retransmitted (tau t : Nat)
  /-- A poll at `t` freed the discover slot. -/
  | expired (tau t : Nat)
  /-- A poll at `t` fired the discover handler. -/
  | found (tau t : Nat)
deriving DecidableEq, Repr

/-- The timers run from the moment of the call. -/
def Event.OnTime (cfg : Config) : Event → Prop
  | .retransmitted tau t => cfg.ackTimeoutMs.toNat ≤ t - tau
  | .expired tau t => cfg.discoverTimeoutMs.toNat ≤ t - tau
  | .found tau t => t - tau < cfg.discoverTimeoutMs.toNat

instance (cfg : Config) : ∀ e : Event, Decidable (e.OnTime cfg)
  | .retransmitted _ _ => inferInstanceAs (Decidable (_ ≤ _))
  | .expired _ _ => inferInstanceAs (Decidable (_ ≤ _))
  | .found _ _ => inferInstanceAs (Decidable (_ < _))

/-! ## Stamps of table entries -/

/-- For each entry of a table, the call that made it; `none` for entries that
`poll` made itself. -/
abbrev Stamps (n : Nat) := Table n (Option Stamp)

/-- The stamps after a step: entries that are new get this one. -/
def Stamps.after {α : Type} {n : Nat} (live : α → Bool) (old new : Table n α)
    (stamp : Option Stamp) (known : Stamps n) : Stamps n :=
  fun i => if live (new i) && !live (old i) then stamp else known i

/-- What was live before has the stamp it had. -/
theorem Stamps.after_old {α : Type} {n : Nat} {live : α → Bool} {old : Table n α} {i : Fin n}
    (ho : live (old i) = true) (new : Table n α) (stamp : Option Stamp) (known : Stamps n) :
    known.after live old new stamp i = known i := by
  unfold Stamps.after
  rw [ho, Bool.not_true, Bool.and_false]
  rfl

/-- What is live only now has the stamp of this step. -/
theorem Stamps.after_new {α : Type} {n : Nat} {live : α → Bool} {old new : Table n α} {i : Fin n}
    (ho : live (old i) = false) (hn : live (new i) = true) (stamp : Option Stamp)
    (known : Stamps n) : known.after live old new stamp i = stamp := by
  unfold Stamps.after
  rw [ho, hn]
  rfl

/-- An event for each marked entry whose call is known. -/
def eventsFor {n : Nat} (marked : Fin n → Bool) (known : Stamps n) (event : Stamp → Event) :
    List Event :=
  (List.finRange n).filterMap fun i => if marked i then (known i).map event else none

/-- An event is of something that is marked and stamped. -/
theorem mem_eventsFor {n : Nat} {marked : Fin n → Bool} {known : Stamps n}
    {event : Stamp → Event} {e : Event} (he : e ∈ eventsFor marked known event) :
    ∃ i st, marked i = true ∧ known i = some st ∧ e = event st := by
  obtain ⟨i, -, hi⟩ := List.mem_filterMap.1 he
  by_cases hm : marked i = true
  · rw [if_pos hm] at hi
    obtain ⟨st, hst, heq⟩ := Option.map_eq_some_iff.1 hi
    exact ⟨i, st, hm, hst, heq.symm⟩
  · rw [if_neg hm] at hi
    cases hi

/-! ## Transactions -/

/-- A transaction that has not ended. -/
def waits (t : Transaction) : Bool := t.state == .awaitingAck

/-- The entry waits for its ACK. -/
theorem waits_iff {t : Transaction} : waits t = true ↔ Awaiting t := by
  simp [waits, Awaiting]

/-- The scan has sent the message of this transaction again. -/
def sentAgain (t t' : Transaction) : Bool :=
  waits t && waits t' && decide (t.retriesSent < t'.retriesSent)

/-- The initial timeout of a transaction. -/
def timeoutOf (cfg : Config) (t : Transaction) : UInt32 :=
  computeInitialTimeoutMs cfg t.messageId.toUInt32

/-- The deadline of a transaction is ahead of the scan at `t`, by the signed
comparison of `tick`, when the initial timeout runs from the stamp. -/
def Ahead (st : Stamp) (time : Nat) (timeout : UInt32) : Prop :=
  (st.elapsed time).toNat < timeout.toNat ∧
    timeout.toNat < (st.elapsed time).toNat + 2 ^ 31

instance (st : Stamp) (time : Nat) (timeout : UInt32) : Decidable (Ahead st time timeout) :=
  inferInstanceAs (Decidable (_ ∧ _))

/-- A transaction younger than `PULSECOAP_ACK_TIMEOUT_MS` has its deadline where
the call put it. -/
def Armed (cfg : Config) (time : Nat) (known : Option Stamp) (t : Transaction) : Prop :=
  ∀ st ∈ known, Awaiting t → cfg.ackTimeoutMs.toNat ≤ time - st.call ∨
    t.nextRetryAtMs = clock st.prior + timeoutOf cfg t

/-- The scan at `time` does not reach a transaction younger than
`PULSECOAP_ACK_TIMEOUT_MS` at its deadline. -/
def Early (cfg : Config) (time : Nat) (known : Option Stamp) (t : Transaction) : Prop :=
  ∀ st ∈ known, Awaiting t → time - st.call < cfg.ackTimeoutMs.toNat →
    Ahead st time (timeoutOf cfg t)

instance (cfg : Config) (time : Nat) (known : Option Stamp) (t : Transaction) :
    Decidable (Early cfg time known t) :=
  inferInstanceAs (Decidable (∀ st ∈ known, _ → _ → _))

/-- What a step other than the scan makes of a slot: nothing, a free slot, or a
transaction whose deadline counts from `now`. -/
inductive Moves (cfg : Config) (now : UInt32) (t t' : Transaction) : Prop where
  | kept (h : t' = t)
  | freed (h : ¬ Awaiting t')
  | started (hfree : ¬ Awaiting t) (hretry : t'.nextRetryAtMs = now + timeoutOf cfg t')

/-- `start` moves every slot so. -/
theorem moves_start (pool : TransactionPool cfg) (remote : Endpoint) (messageId : UInt16)
    (token message : Bytes) (nowMs : UInt32) (owner : Call) (i : Fin cfg.maxTransactions) :
    Moves cfg nowMs (pool i) ((pool.start remote messageId token message nowMs owner).1 i) := by
  rcases start_cases pool remote messageId token message nowMs owner with heq | ⟨j, hj, heq⟩
  · exact .kept (by rw [heq])
  · rw [heq]
    by_cases hij : i = j
    · subst hij
      rw [Table.set_self]
      refine .started ?_ rfl
      rw [Awaiting, hj]
      rintro ⟨⟩
    · exact .kept (Table.set_ne _ _ hij)

/-- So does `complete`. -/
theorem moves_complete (pool : TransactionPool cfg) (remote : Endpoint) (messageId : UInt16)
    (nowMs : UInt32) (i : Fin cfg.maxTransactions) :
    Moves cfg nowMs (pool i) ((pool.complete remote messageId).1 i) := by
  rcases complete_cases pool remote messageId with ⟨-, heq⟩ | ⟨j, -, heq⟩
  · exact .kept (by rw [heq])
  · rw [heq]
    by_cases hij : i = j
    · subst hij
      rw [Table.set_self]
      exact .freed nofun
    · exact .kept (Table.set_ne _ _ hij)

/-- Nothing is sent again outside the scan. -/
theorem Moves.not_sentAgain {now : UInt32} {t t' : Transaction} (h : Moves cfg now t t') :
    sentAgain t t' = false := by
  cases h with
  | kept h =>
    subst h
    simp [sentAgain]
  | freed h =>
    have hw : waits t' = false := by
      rw [← Bool.not_eq_true, waits_iff]
      exact h
    simp [sentAgain, hw]
  | started hfree _ =>
    have hw : waits t = false := by
      rw [← Bool.not_eq_true, waits_iff]
      exact hfree
    simp [sentAgain, hw]

/-- A deadline that is met is met later as well. -/
theorem Armed.later {time time' : Nat} {known : Option Stamp} {t : Transaction}
    (h : Armed cfg time known t) (hle : time ≤ time') : Armed cfg time' known t := by
  intro st hst ha
  rcases h st hst ha with hlate | hretry
  · exact .inl (by omega)
  · exact .inr hretry

/-- **What a step outside the scan preserves**: the stamp it gives new
transactions is one of the poll they count from. -/
theorem armed_step {time : Nat} {now : UInt32} {known : Stamps cfg.maxTransactions}
    {pool pool' : TransactionPool cfg} {stamp : Option Stamp}
    (h : ∀ i, Armed cfg time (known i) (pool i))
    (hmoves : ∀ i, Moves cfg now (pool i) (pool' i))
    (hstamp : ∀ st ∈ stamp, now = clock st.prior) (i : Fin cfg.maxTransactions) :
    Armed cfg time (Stamps.after waits pool pool' stamp known i) (pool' i) := by
  intro st hst ha
  have hw : waits (pool' i) = true := waits_iff.2 ha
  cases hold : waits (pool i) with
  | true =>
    rw [Stamps.after_old hold] at hst
    rcases hmoves i with hkept | hfreed | ⟨hfree, -⟩
    · rw [hkept] at ha ⊢
      exact h i st hst ha
    · exact absurd ha hfreed
    · exact absurd (waits_iff.1 hold) hfree
  | false =>
    rw [Stamps.after_new hold hw] at hst
    rcases hmoves i with hkept | hfreed | ⟨-, hretry⟩
    · rw [hkept, hold] at hw
      cases hw
    · exact absurd ha hfreed
    · -- a new transaction, on the clock of the poll before
      rw [hstamp st hst] at hretry
      exact .inr hretry

/-- Before its deadline a transaction is not due. -/
theorem notDue_of_ahead {st : Stamp} {time : Nat} {t : Transaction}
    (hretry : t.nextRetryAtMs = clock st.prior + timeoutOf cfg t)
    (hahead : Ahead st time (timeoutOf cfg t)) : notDue (clock time) t = true := by
  obtain ⟨hlt, hclose⟩ := hahead
  have hrem : t.nextRetryAtMs - clock time = timeoutOf cfg t - st.elapsed time := by
    rw [hretry, Stamp.elapsed]
    grind
  have hnat : (timeoutOf cfg t - st.elapsed time).toNat =
      (timeoutOf cfg t).toNat - (st.elapsed time).toNat :=
    UInt32.toNat_sub_of_le _ _ (UInt32.le_iff_toNat_le.2 (Nat.le_of_lt hlt))
  unfold notDue
  rw [hrem]
  simp only [hnat, Bool.and_eq_true, decide_eq_true_eq]
  omega

/-- **The scan sends nothing too early**: where `Early` holds, a transaction that is due belongs
to a call that is the ACK timeout or longer ago. Its first deadline was counted from the poll
before the call, and the condition keeps the scan from reaching it in between. -/
theorem armed_resent {time : Nat} {known : Option Stamp} {t : Transaction}
    (h : Armed cfg time known t) (hearly : Early cfg time known t) (ha : Awaiting t)
    (hdue : notDue (clock time) t = false) {st : Stamp} (hst : st ∈ known) :
    cfg.ackTimeoutMs.toNat ≤ time - st.call := by
  by_contra hlt
  rcases h st hst ha with hlate | hretry
  · exact hlt hlate
  · have hnd := notDue_of_ahead hretry (hearly st hst ha (Nat.not_le.1 hlt))
    rw [hnd] at hdue
    cases hdue

/-- The scan starts nothing. -/
theorem awaiting_of_tickSlot {now : UInt32} {t : Transaction}
    (h : Awaiting (tickSlot cfg now t).1) : Awaiting t := by
  rcases tickSlot_cases cfg now t with ⟨heq, -⟩ | ⟨ha, -, -, -⟩ | ⟨ha, -, -, -⟩
  · rwa [heq] at h
  · exact ha
  · exact ha

/-- One pass of the scan: what stays waiting is armed, and what is sent again is
late enough. -/
theorem armed_tickSlot {time : Nat} {known : Option Stamp} {t : Transaction}
    (h : Armed cfg time known t) (hearly : Early cfg time known t) :
    Armed cfg time known (tickSlot cfg (clock time) t).1 ∧
      (sentAgain t (tickSlot cfg (clock time) t).1 = true →
        ∀ st ∈ known, cfg.ackTimeoutMs.toNat ≤ time - st.call) := by
  rcases tickSlot_cases cfg (clock time) t with ⟨heq, -⟩ | ⟨ha, hdue, -, heq⟩ | ⟨-, -, -, heq⟩
  · -- passed over
    rw [heq]
    refine ⟨h, fun hr => ?_⟩
    rw [Moves.not_sentAgain (.kept rfl : Moves cfg 0 t t)] at hr
    cases hr
  · -- sent again, and so late enough
    have hlate : ∀ st ∈ known, cfg.ackTimeoutMs.toNat ≤ time - st.call :=
      fun st hst => armed_resent h hearly ha hdue hst
    rw [heq]
    exact ⟨fun st hst _ => .inl (hlate st hst), fun _ => hlate⟩
  · -- ended
    rw [heq]
    have hfree : ¬ Awaiting ({ t with state := .free } : Transaction) := nofun
    refine ⟨fun _ _ ha => absurd ha hfree, fun hr => ?_⟩
    rw [Moves.not_sentAgain (.freed hfree : Moves cfg 0 t _)] at hr
    cases hr

end PulseCoap.Timing
