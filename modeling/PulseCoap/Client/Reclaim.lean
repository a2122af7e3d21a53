import PulseCoap.Client.Correlation

/-!
# PulseCoAP — pending slots given back

A client that hears nothing and is asked for nothing only polls. Its transactions
are retransmitted and end one by one, and each one that ends gives back the first
active slot with its token. That is the only way a slot is given back, so a one-shot
request that has no transaction of its own, because it was Non-confirmable, because
its empty ACK came and the response did not, or because the pool was full, keeps its
slot.

The first half is an argument about time. A transaction can use up a certain number
of milliseconds before it ends, which the polls take from; a poll takes less than
half a round of the clock, so none of them passes a deadline unseen. The second half
is an argument about counting. Several slots and several transactions may carry one
token, and each transaction that ends gives back the first of the slots; so what
matters for a slot is how many transactions there are beside those that the slots
before it will use.

* `QuietRun.noneWaiting` — every transaction ends, after at most two rounds of the
  32-bit clock for each time it is sent.
* `QuietRun.active_iff` — a slot is given back exactly when a transaction with its
  token is left for it.
* `reclaims_iff` — polling ends with no one-shot slot exactly when each of them has
  a transaction.
* `Reclaims.room` — then there is room for new requests again.
* `not_reclaims` — a Non-confirmable request that is never answered.
* `Covered` — a transaction is left for a slot.
* `GivesBack` — what every quiet step keeps of it.
-/

namespace PulseCoap

namespace Client

open TransactionPool

variable {cfg : Config}

/-- `poll` with no datagram and callbacks that make no calls: the states reached
`elapsed` ms after `c`. A poll comes less than half a round of the clock after
the one before, so that the signed difference of `tick` tells them apart. -/
inductive QuietRun (c : Client cfg) : (elapsed : Nat) → Client cfg → Prop where
  | start : QuietRun c 0 c
  | poll {elapsed : Nat} {c' : Client cfg} (gap : Nat) :
      QuietRun c elapsed c' → c'.control = .idle → gap < 2 ^ 31 →
        QuietRun c (elapsed + gap) (c'.step (.poll (c'.lastNowMs + UInt32.ofNat gap) none)).1
  | resume {elapsed : Nat} {c' : Client cfg} (sendOk : Bool) :
      QuietRun c elapsed c' → QuietRun c elapsed (c'.step (.resume sendOk)).1

/-- After some time of quiet polling only subscriptions have a slot. -/
def Reclaims (c : Client cfg) : Prop :=
  ∃ bound, ∀ elapsed c', QuietRun c elapsed c' → c'.control = .idle → bound ≤ elapsed →
    ∀ i, (c'.slots i).pending.active = true → (c'.slots i).pending.observing = true

/-- The transactions that wait for an ACK under a token. -/
def waitingUnder (c : Client cfg) (token : Bytes) : Nat :=
  c.transactions.count fun t => Awaiting t ∧ t.token = token

/-- The active slots with a token before slot `i`, the ones a timeout finds
first. -/
def activeBefore (c : Client cfg) (token : Bytes) (i : Fin cfg.maxTransactions) : Nat :=
  c.slots.countBefore (fun s => s.pending.active = true ∧ s.pending.token = token) i

/-- A transaction is left for slot `i` after the slots before it. -/
def Covered (c : Client cfg) (i : Fin cfg.maxTransactions) : Prop :=
  c.activeBefore (c.slots i).pending.token i < c.waitingUnder (c.slots i).pending.token

instance (c : Client cfg) (i : Fin cfg.maxTransactions) : Decidable (c.Covered i) :=
  inferInstanceAs (Decidable (_ < _))

/-- Every one-shot request has a transaction. -/
def AllCovered (c : Client cfg) : Prop :=
  ∀ i, (c.slots i).pending.active = true → (c.slots i).pending.observing = false → c.Covered i

instance (c : Client cfg) : Decidable c.AllCovered := inferInstanceAs (Decidable (∀ _, _ → _ → _))

/-! ## How long a transaction waits -/

/-- The time to the deadline, at least 1. -/
def timeLeft (nowMs : UInt32) (t : Transaction) : Nat :=
  let remaining := (t.nextRetryAtMs - nowMs).toNat
  if remaining = 0 then 2 ^ 32 else remaining

/-- What a transaction can still use up: two rounds of the clock for each
retransmission, and the time to the deadline. -/
def timeBudget (cfg : Config) (nowMs : UInt32) (t : Transaction) : Nat :=
  (cfg.maxRetransmit - t.retriesSent) * 2 ^ 33 + timeLeft nowMs t

/-- There is always some time left: a deadline that is now counts as a round away. -/
theorem timeLeft_pos (nowMs : UInt32) (t : Transaction) : 0 < timeLeft nowMs t := by
  unfold timeLeft
  simp only
  split <;> omega

/-- No deadline is further away than a round of the clock. -/
theorem timeLeft_le (nowMs : UInt32) (t : Transaction) : timeLeft nowMs t ≤ 2 ^ 32 := by
  unfold timeLeft
  simp only
  have h := (t.nextRetryAtMs - nowMs).toNat_lt
  split <;> omega

/-- So there is a bound for all transactions of a build. -/
theorem timeBudget_lt (cfg : Config) (nowMs : UInt32) (t : Transaction) :
    timeBudget cfg nowMs t < (cfg.maxRetransmit + 1) * 2 ^ 33 := by
  have hle := timeLeft_le nowMs t
  have hsub : (cfg.maxRetransmit - t.retriesSent) * 2 ^ 33 ≤ cfg.maxRetransmit * 2 ^ 33 :=
    Nat.mul_le_mul_right _ (Nat.sub_le _ _)
  unfold timeBudget
  omega

/-- A retransmission pays for the wait that follows it. -/
theorem timeBudget_retry (nowMs : UInt32) {t : Transaction} (h : t.retriesSent < cfg.maxRetransmit)
    (timeout deadline : UInt32) :
    timeBudget cfg nowMs { t with
      retriesSent := t.retriesSent + 1, currentTimeoutMs := timeout, nextRetryAtMs := deadline } +
        2 ^ 32 ≤ timeBudget cfg nowMs t := by
  have hleft := timeLeft_le nowMs { t with
    retriesSent := t.retriesSent + 1, currentTimeoutMs := timeout, nextRetryAtMs := deadline }
  have hpos := timeLeft_pos nowMs t
  have hone : cfg.maxRetransmit - t.retriesSent =
    cfg.maxRetransmit - (t.retriesSent + 1) + 1 := by omega
  unfold timeBudget
  rw [hone, Nat.add_mul]
  simp only
  omega

/-- The time to a deadline, some time later on the clock. -/
theorem remaining_advance (deadline nowMs : UInt32) {gap : Nat} (hgap : gap < 2 ^ 31) :
    (deadline - (nowMs + UInt32.ofNat gap)).toNat =
      ((deadline - nowMs).toNat + (2 ^ 32 - gap)) % 2 ^ 32 := by
  have hnow := nowMs.toNat_lt
  have hdeadline := deadline.toNat_lt
  rw [UInt32.toNat_sub, UInt32.toNat_sub, UInt32.toNat_add, UInt32.toNat_ofNat']
  omega

/-- The clock moves on, with or without passing the deadline; past it the
transaction is due. -/
theorem timeLeft_advance (nowMs : UInt32) (t : Transaction) {gap : Nat} (hgap : gap < 2 ^ 31) :
    gap + timeLeft (nowMs + UInt32.ofNat gap) t = timeLeft nowMs t ∨
      notDue (nowMs + UInt32.ofNat gap) t = false ∧
        gap + timeLeft (nowMs + UInt32.ofNat gap) t = timeLeft nowMs t + 2 ^ 32 := by
  have hlt := (t.nextRetryAtMs - nowMs).toNat_lt
  unfold timeLeft notDue
  simp only [remaining_advance _ _ hgap, Bool.and_eq_false_iff, decide_eq_false_iff_not]
  generalize (t.nextRetryAtMs - nowMs).toNat = remaining at hlt ⊢
  -- due now, due before the gap is over, or due behind it: only the second one loses a round
  by_cases hzero : remaining = 0
  · subst hzero
    by_cases hg : gap = 0
    · subst hg
      simp
    · left
      rw [if_pos rfl, if_neg (by omega)]
      omega
  · rw [if_neg hzero]
    by_cases hpass : gap < remaining
    · left
      rw [if_neg (by omega)]
      omega
    · right
      by_cases heq : gap = remaining
      · subst heq
        rw [if_pos (by omega)]
        omega
      · rw [if_neg (by omega)]
        omega

/-! ## One step of the scan -/

/-- The scan has still to come to slot `t` of the pool. -/
def ToCome (t : Fin cfg.maxTransactions) : Control cfg → Prop
  | .polling .expire _ => True
  | .polling (.tick index) _ => index ≤ t
  | _ => False

/-- Nothing is left to be done but the scan. -/
def Scanning : Control cfg → Prop
  | .idle => True
  | .polling .expire _ => True
  | .polling (.tick _) _ => True
  | _ => False

/-- `elapsed` ms after `c`, what transaction `t` has used up and what it can
still use up stay within its budget; a transaction that is due may exceed it by
a round of the clock until the scan comes to it. -/
def InBudget (c c' : Client cfg) (elapsed : Nat) (t : Fin cfg.maxTransactions) : Prop :=
  elapsed + timeBudget cfg c'.lastNowMs (c'.transactions t) ≤
      timeBudget cfg c.lastNowMs (c.transactions t) ∨
    ToCome t c'.control ∧ notDue c'.lastNowMs (c'.transactions t) = false ∧
      elapsed + timeBudget cfg c'.lastNowMs (c'.transactions t) ≤
        timeBudget cfg c.lastNowMs (c.transactions t) + 2 ^ 32

/-- `c'` has given back slots of `c`, each for a transaction that ended. -/
structure GivesBack (c c' : Client cfg) : Prop where
  narrows : Narrows c c'
  lost    : ∀ i, (c.slots i).pending.active = true → (c'.slots i).pending.active = false →
    c.Covered i
  covered : ∀ i, (c'.slots i).pending.active = true → (c'.Covered i ↔ c.Covered i)

/-- A step that leaves slots and transactions alone gives nothing back. -/
theorem givesBack_of_eq {c c' : Client cfg} (n : Narrows c c') (hs : c'.slots = c.slots)
    (ht : c'.transactions = c.transactions) : GivesBack c c' where
  narrows := n
  lost i hi hoff := by
    rw [hs, hi] at hoff
    cases hoff
  covered i _ := by
    unfold Covered activeBefore waitingUnder
    rw [hs, ht]

theorem GivesBack.trans {c c' c'' : Client cfg} (g : GivesBack c c') (g' : GivesBack c' c'') :
    GivesBack c c'' where
  narrows := g.narrows.trans g'.narrows
  lost i hi hoff := by
    cases hi' : (c'.slots i).pending.active with
    | true => exact (g.covered i hi').1 (g'.lost i hi' hoff)
    | false => exact g.lost i hi hi'
  covered i hi := (g'.covered i hi).trans (g.covered i (g'.narrows.active hi))

/-- A retransmission leaves its transaction waiting. -/
theorem waitingUnder_resent {c : Client cfg} {t : Fin cfg.maxTransactions} (token : Bytes) :
    (c.resent t).waitingUnder token = c.waitingUnder token :=
  Table.count_set_same Iff.rfl

/-- A transaction that ends counts no longer under its token. -/
theorem waitingUnder_freed {c : Client cfg} {t : Fin cfg.maxTransactions}
    (ht : Awaiting (c.transactions t)) :
    (c.freed t).waitingUnder (c.transactions t).token + 1 =
      c.waitingUnder (c.transactions t).token :=
  Table.count_set_off ⟨ht, rfl⟩ fun h => by cases h.1

theorem waitingUnder_freed_ne {c : Client cfg} {t : Fin cfg.maxTransactions} {token : Bytes}
    (hne : token ≠ (c.transactions t).token) :
    (c.freed t).waitingUnder token = c.waitingUnder token :=
  Table.count_set_same ⟨fun h => (by cases h.1), fun h => absurd h.2.symm hne⟩

/-- **A transaction ends and gives back the first slot with its token.** The owner's slot is
that one, unless an earlier slot has come to have the same token. -/
theorem givesBack_freed_release {c : Client cfg} {t j : Fin cfg.maxTransactions}
    (ht : Awaiting (c.transactions t))
    (hj : c.findPendingByToken (c.transactions t).token = some j) :
    GivesBack c ((c.freed t).release j) where
  narrows := (narrows_freed c t).trans (narrows_release _ j)
  lost i hi hoff := by
    have hij : i = j := by
      by_contra hne
      have hsame : ((c.freed t).release j).slots i = c.slots i := Table.set_ne _ _ hne
      rw [hsame, hi] at hoff
      cases hoff
    subst hij
    -- no slot before it has the token, and the transaction that ends is left for it
    obtain ⟨-, htok⟩ := findPendingByToken_spec hj
    have hfirst := (Table.find?_eq_some.1 hj).2
    have hzero : c.activeBefore (c.slots i).pending.token i = 0 :=
      Table.countBefore_eq_zero fun k hk => by
        have hno := hfirst k hk
        rw [htok]
        simpa using hno
    have hpos : 0 < c.waitingUnder (c.slots i).pending.token := Table.count_pos ⟨ht, htok.symm⟩
    unfold Covered
    omega
  covered i hi := by
    have hij : i ≠ j := by
      rintro rfl
      have hoff : ((c.freed t).release i).slots i = _ := Table.set_self ..
      rw [hoff] at hi
      cases hi
    have hsame : ((c.freed t).release j).slots i = c.slots i := Table.set_ne _ _ hij
    rw [hsame] at hi
    obtain ⟨hja, hjtok⟩ := findPendingByToken_spec hj
    unfold Covered
    rw [hsame]
    have hwait : ∀ token, ((c.freed t).release j).waitingUnder token =
      (c.freed t).waitingUnder token := fun _ => rfl
    rw [hwait]
    -- the counts of slot `i` change only if it shares the token of the transaction that ends
    by_cases htok : (c.slots i).pending.token = (c.transactions t).token
    · -- slot `j` is before slot `i`: both sides lose one
      have hji : j < i := by
        rcases lt_or_gt_of_ne hij with hlt | hgt
        · have hno := (Table.find?_eq_some.1 hj).2 i hlt
          simp [hi, htok] at hno
        · exact hgt
      have hbefore : ((c.freed t).release j).activeBefore (c.slots i).pending.token i + 1 =
          c.activeBefore (c.slots i).pending.token i :=
        Table.countBefore_set_off hji ⟨hja, hjtok.trans htok.symm⟩ fun h => by cases h.1
      have hafter := waitingUnder_freed (c := c) ht
      rw [← htok] at hafter
      omega
    · have hbefore : ((c.freed t).release j).activeBefore (c.slots i).pending.token i =
          c.activeBefore (c.slots i).pending.token i :=
        Table.countBefore_set_same fun _ =>
          ⟨fun h => (by cases h.1), fun h => absurd (h.2.symm.trans hjtok) htok⟩
      rw [hbefore, waitingUnder_freed_ne htok]

/-- A transaction ends whose token no slot has. -/
theorem givesBack_freed {c : Client cfg} {t : Fin cfg.maxTransactions}
    (hnone : c.findPendingByToken (c.transactions t).token = none) : GivesBack c (c.freed t) where
  narrows := narrows_freed c t
  lost i hi hoff := by
    have hsame : (c.freed t).slots i = c.slots i := rfl
    rw [hsame, hi] at hoff
    cases hoff
  covered i hi := by
    unfold Covered
    have hne := findPendingByToken_none hnone i hi
    have hwait := waitingUnder_freed_ne (c := c) (t := t) hne
    show c.activeBefore (c.slots i).pending.token i < _ ↔ _
    rw [show (c.freed t).waitingUnder ((c.freed t).slots i).pending.token = _ from hwait]

/-- An entry of the scan gives back one slot when its transaction ends, the first under its token.
-/
theorem givesBack_tickAt (c : Client cfg) (i : Fin cfg.maxTransactions) (sendOk : Bool) :
    GivesBack c (c.tickAt i sendOk).1 := by
  have hat : ∀ {c' : Client cfg} {k : Cont cfg} {b : Bool}, GivesBack c c' →
      GivesBack c (c'.at' k b) :=
    fun g => g.trans (givesBack_of_eq (narrows_at ..) rfl rfl)
  rcases tickAt_cases c i sendOk with ⟨-, heq⟩ | ⟨ha, -, -, heq⟩ | ⟨ha, -, -, heq⟩
  · rw [heq]
    exact hat (givesBack_of_eq (Narrows.refl c) rfl rfl)
  · rw [heq]
    refine hat ⟨narrows_resent ha, fun j hj hoff => ?_, fun j _ => ?_⟩
    · have hsame : (c.resent i).slots j = c.slots j := rfl
      rw [hsame, hj] at hoff
      cases hoff
    · unfold Covered
      rw [waitingUnder_resent]
      rfl
  rw [heq]
  rcases timeoutTrampoline_cases (c.freed i) (c.transactions i).token
    (c.transactions i).owner (.tick (i + 1)) with ⟨j, hj, ht⟩ | ⟨hnone, ht⟩
  · rw [ht, fireTimeout_eq]
    exact hat (givesBack_freed_release ha hj)
  · rw [ht, fireTimeout_eq]
    exact hat (givesBack_freed hnone)

/-- The pass over slot `i` keeps every budget, and settles that of slot `i`. -/
theorem inBudget_tickAt {c c' : Client cfg} {elapsed : Nat} {i : Fin cfg.maxTransactions} {b : Bool}
    (hc : c'.control = .polling (.tick i) b)
    (hbudget : ∀ t, Awaiting (c'.transactions t) → InBudget c c' elapsed t) (sendOk : Bool) :
    ∀ t, Awaiting ((c'.tickAt i sendOk).1.transactions t) →
      InBudget c (c'.tickAt i sendOk).1 elapsed t := by
  obtain ⟨⟨b', hcontrol⟩, hnow, hpool, -⟩ := tickAt_pool c' i sendOk
  intro t ht
  unfold InBudget
  rw [hnow, hpool, hcontrol]
  rw [hpool] at ht
  by_cases hti : t = i
  · subst hti
    rw [Table.set_self] at ht ⊢
    -- not due, sent again, or given up
    rcases tickSlot_cases cfg c'.lastNowMs (c'.transactions t) with
      ⟨heq, hnd⟩ | ⟨ha, -, hretry, heq⟩ | ⟨-, -, -, heq⟩
    · rw [heq] at ht ⊢
      rcases hbudget t ht with hle | ⟨-, hdue, -⟩
      · exact .inl hle
      · rw [hnd ht] at hdue
        cases hdue
    · left
      -- a retransmission pays for the wait up to the next
      have hpay := timeBudget_retry c'.lastNowMs hretry ((c'.transactions t).currentTimeoutMs * 2)
        (c'.lastNowMs + (c'.transactions t).currentTimeoutMs * 2)
      rw [heq]
      dsimp only
      rcases hbudget t ha with hle | ⟨-, -, hle⟩
      · omega
      · omega
    · rw [heq] at ht
      cases ht
  · rw [Table.set_ne _ _ hti] at ht ⊢
    rcases hbudget t ht with hle | ⟨hcome, hdue, hle⟩
    · exact .inl hle
    · rw [hc] at hcome
      -- the pass has not come to the entry yet
      have hlt : (i : Nat) ≤ t := hcome
      have hne : (i : Nat) ≠ t := fun heq => hti (Fin.ext heq.symm)
      exact .inr ⟨Nat.lt_of_le_of_ne hlt hne, hdue, hle⟩

/-! ## Quiet runs -/

/-- What a quiet run has done so far. -/
structure Quieted (c c' : Client cfg) (elapsed : Nat) : Prop where
  scanning : Scanning c'.control
  budget   : ∀ t, Awaiting (c'.transactions t) → InBudget c c' elapsed t
  gives    : GivesBack c c'

theorem step_poll_none {c : Client cfg} (hc : c.control = .idle) (nowMs : UInt32) :
    c.step (.poll nowMs none) = ((c.atTime nowMs).at' .expire false, []) := by
  simp only [step, hc]
  rfl

/-- Such a poll takes its time off every transaction's budget. -/
theorem Quieted.poll {c c' : Client cfg} {elapsed gap : Nat} (q : Quieted c c' elapsed)
    (hc : c'.control = .idle) (hgap : gap < 2 ^ 31) :
    Quieted c (c'.step (.poll (c'.lastNowMs + UInt32.ofNat gap) none)).1 (elapsed + gap) := by
  rw [step_poll_none hc]
  refine ⟨trivial, fun t ht => ?_,
    q.gives.trans (givesBack_of_eq ((narrows_atTime ..).trans (narrows_at ..)) rfl rfl)⟩
  have hold : elapsed + timeBudget cfg c'.lastNowMs (c'.transactions t) ≤
      timeBudget cfg c.lastNowMs (c.transactions t) := by
    rcases q.budget t ht with hle | ⟨hcome, -, -⟩
    · exact hle
    · rw [hc] at hcome
      exact hcome.elim
  show _ + timeBudget cfg (c'.lastNowMs + UInt32.ofNat gap) (c'.transactions t) ≤ _ ∨
    True ∧ notDue (c'.lastNowMs + UInt32.ofNat gap) (c'.transactions t) = false ∧
      _ + timeBudget cfg (c'.lastNowMs + UInt32.ofNat gap) (c'.transactions t) ≤ _
  unfold timeBudget at hold ⊢
  rcases timeLeft_advance c'.lastNowMs (c'.transactions t) hgap with heq | ⟨hdue, heq⟩
  · exact .inl (by omega)
  · exact .inr ⟨trivial, hdue, by omega⟩

/-- A segment of the scan. What is due there is sent again, which costs the budget a round, or it
ends. -/
theorem Quieted.resume {c c' : Client cfg} {elapsed : Nat} (q : Quieted c c' elapsed)
    (sendOk : Bool) : Quieted c (c'.step (.resume sendOk)).1 elapsed := by
  have hscan := q.scanning
  cases hc : c'.control with
  | idle =>
    rw [step_resume_idle hc]
    exact q
  | polling k b =>
    rw [hc] at hscan
    rw [step_resume hc]
    cases k with
    -- the scan starts behind the last expired discovery, with the budget of the poll
    | expire =>
      refine ⟨trivial, fun t ht => ?_, q.gives.trans
        (givesBack_of_eq ((narrows_expireDiscovers c').trans (narrows_at ..)) rfl rfl)⟩
      rcases q.budget t ht with hle | ⟨-, hdue, hle⟩
      · exact .inl hle
      · exact .inr ⟨Nat.zero_le _, hdue, hle⟩
    -- `inBudget_tickAt` for a pass of the scan; past the last slot nothing changes
    | tick index =>
      rw [resume_tick]
      by_cases hlt : index < cfg.maxTransactions
      · rw [dif_pos hlt]
        refine ⟨?_, inBudget_tickAt (i := ⟨index, hlt⟩) hc q.budget sendOk,
          q.gives.trans (givesBack_tickAt ..)⟩
        obtain ⟨⟨b', hcontrol⟩, -, -⟩ := tickAt_pool c' ⟨index, hlt⟩ sendOk
        rw [hcontrol]
        trivial
      · rw [dif_neg hlt]
        refine ⟨trivial, fun t ht => ?_,
          q.gives.trans (givesBack_of_eq (narrows_of_eq rfl rfl rfl rfl) rfl rfl)⟩
        rcases q.budget t ht with hle | ⟨hcome, -, -⟩
        · exact .inl hle
        · -- the scan has come to every slot
          rw [hc] at hcome
          exact absurd t.isLt (fun h => hlt (Nat.lt_of_le_of_lt hcome h))
    -- a client that hears nothing never comes to the other cuts
    | dispatch => exact hscan.elim
    | block1 => exact hscan.elim
    | block2 => exact hscan.elim
    | close => exact hscan.elim
    | ret => exact hscan.elim

/-- The invariant of quiet polling, by induction over the run. -/
theorem QuietRun.quieted {c c' : Client cfg} {elapsed : Nat} (hc : c.control = .idle)
    (r : QuietRun c elapsed c') : Quieted c c' elapsed := by
  induction r with
  | start =>
    refine ⟨?_, fun t _ => .inl (Nat.le_of_eq (Nat.zero_add _)),
      givesBack_of_eq (Narrows.refl c) rfl rfl⟩
    rw [hc]
    trivial
  | poll _ _ hidle hgap ih => exact ih.poll hidle hgap
  | resume sendOk _ ih => exact ih.resume sendOk

/-- **Every transaction ends** after some time of quiet polling: it waits `MAX_RETRANSMIT + 1`
times at most, and each time for less than two rounds of the clock. -/
theorem QuietRun.noneWaiting {c c' : Client cfg} {elapsed : Nat} (hc : c.control = .idle)
    (r : QuietRun c elapsed c') (hidle : c'.control = .idle)
    (hlong : (cfg.maxRetransmit + 1) * 2 ^ 33 ≤ elapsed) (t : Fin cfg.maxTransactions) :
    ¬ Awaiting (c'.transactions t) := by
  intro ht
  have hmax := timeBudget_lt cfg c.lastNowMs (c.transactions t)
  rcases (r.quieted hc).budget t ht with hle | ⟨hcome, -, -⟩
  · omega
  · rw [hidle] at hcome
    exact hcome

/-! ## Polling goes on -/

/-- A scan comes to its end. -/
theorem QuietRun.finish {c : Client cfg} {elapsed : Nat} : ∀ (n : Nat) {index : Nat} {c' : Client cfg}
    {b : Bool}, QuietRun c elapsed c' → c'.control = .polling (.tick index) b →
      cfg.maxTransactions ≤ index + n → ∃ c'', QuietRun c elapsed c'' ∧ c''.control = .idle := by
  intro n
  induction n with
  | zero =>
    intro index c' b r hc hn
    refine ⟨_, r.resume true, ?_⟩
    rw [step_resume hc, resume_tick, dif_neg (by omega)]
  | succ n ih =>
    intro index c' b r hc hn
    by_cases hlt : index < cfg.maxTransactions
    · obtain ⟨⟨b', hcontrol⟩, -, -⟩ := tickAt_pool c' ⟨index, hlt⟩ true
      have hnext : (c'.step (.resume true)).1.control = .polling (.tick (index + 1)) b' := by
        rw [step_resume hc, resume_tick, dif_pos hlt]
        exact hcontrol
      exact ih (r.resume true) hnext (by omega)
    · refine ⟨_, r.resume true, ?_⟩
      rw [step_resume hc, resume_tick, dif_neg hlt]

/-- The client can be polled for as long as one likes. -/
theorem exists_quietRun {c : Client cfg} (hc : c.control = .idle) :
    ∀ n : Nat, ∃ c', QuietRun c n c' ∧ c'.control = .idle := by
  intro n
  induction n with
  | zero => exact ⟨c, .start, hc⟩
  | succ n ih =>
    obtain ⟨c', r, hidle⟩ := ih
    have hpoll := r.poll 1 hidle (by omega)
    rw [step_poll_none hidle] at hpoll
    have hscan := hpoll.resume true
    exact hscan.finish cfg.maxTransactions (b := false) rfl (Nat.le_of_eq (Nat.zero_add _).symm)

/-! ## When the slots come back -/

/-- What is left once every transaction has ended. -/
theorem QuietRun.active_iff {c c' : Client cfg} {elapsed : Nat} (hc : c.control = .idle)
    (r : QuietRun c elapsed c') (hidle : c'.control = .idle)
    (hlong : (cfg.maxRetransmit + 1) * 2 ^ 33 ≤ elapsed) (i : Fin cfg.maxTransactions) :
    (c'.slots i).pending.active = true ↔ (c.slots i).pending.active = true ∧ ¬ c.Covered i := by
  have g := (r.quieted hc).gives
  constructor
  · intro hi
    refine ⟨g.narrows.active hi, fun hcov => ?_⟩
    have hleft := (g.covered i hi).2 hcov
    have hnone : c'.waitingUnder (c'.slots i).pending.token = 0 := by
      unfold waitingUnder Table.count
      rw [Finset.card_eq_zero, Finset.filter_eq_empty_iff]
      rintro t - ⟨ht, -⟩
      exact r.noneWaiting hc hidle hlong t ht
    unfold Covered at hleft
    omega
  · rintro ⟨hi, hcov⟩
    by_contra hoff
    exact hcov (g.lost i hi (by simpa using hoff))

/-- With a transaction for each, all of them are given back in time. -/
theorem AllCovered.reclaims {c : Client cfg} (hc : c.control = .idle) (h : c.AllCovered) :
    c.Reclaims := by
  refine ⟨(cfg.maxRetransmit + 1) * 2 ^ 33, fun elapsed c' r hidle hlong i hi => ?_⟩
  obtain ⟨hactive, hcov⟩ := (r.active_iff hc hidle hlong i).1 hi
  rw [(r.quieted hc).gives.narrows.slots i hi]
  by_contra hobs
  exact hcov (h i hactive (by simpa using hobs))

/-- Conversely, a slot without one is there however long the polling goes on. -/
theorem Reclaims.allCovered {c : Client cfg} (hc : c.control = .idle) (h : c.Reclaims) :
    c.AllCovered := by
  obtain ⟨bound, h⟩ := h
  intro i hi hobs
  by_contra hcov
  obtain ⟨c', r, hidle⟩ := exists_quietRun hc (bound + (cfg.maxRetransmit + 1) * 2 ^ 33)
  have hactive := (r.active_iff hc hidle (by omega) i).2 ⟨hi, hcov⟩
  have hobs' := h _ _ r hidle (by omega) i hactive
  rw [(r.quieted hc).gives.narrows.slots i hactive, hobs] at hobs'
  cases hobs'

/-- **One-shot slots are given back exactly when each has a transaction** left for it: under its
token more of them wait than there are active slots before it. A Non-confirmable request has
none, and neither has one whose transaction an ACK has settled. -/
theorem reclaims_iff {c : Client cfg} (hc : c.control = .idle) : c.Reclaims ↔ c.AllCovered :=
  ⟨fun h => h.allCovered hc, fun h => h.reclaims hc⟩

/-! ## Room for new requests -/

/-- How many slots are taken, and how many of them by subscriptions. -/
def slotsTaken (c : Client cfg) : Nat := c.slots.count fun s => s.pending.active = true
def subscriptions (c : Client cfg) : Nat :=
  c.slots.count fun s => s.pending.active = true ∧ s.pending.observing = true

/-- Calls one after the other, each with the result of its `send`. -/
def afterCalls (c : Client cfg) (calls : List (ClientCall × Bool)) : Client cfg :=
  calls.foldl (fun c p => (c.call p.2 p.1).1) c

/-- A step that registers nothing takes no slot. -/
theorem Narrows.slotsTaken_le {c c' : Client cfg} (n : Narrows c c') :
    c'.slotsTaken ≤ c.slotsTaken :=
  Table.count_le fun _ => n.active

/-- A request takes one slot at most. -/
theorem slotsTaken_issue (c : Client cfg) (a : RequestArgs) (sendOk : Bool)
    (hk : a.blockwise cfg = true → a.markObserving = false) :
    (c.issue a sendOk).1.slotsTaken ≤ c.slotsTaken + 1 := by
  rcases issue_cases c a sendOk hk with ⟨-, c', hr, heq⟩ | ⟨-, i, s, buf, -, -, -, heq⟩
  · rw [heq]
    exact Nat.le_succ_of_le hr.narrows.slotsTaken_le
  · rw [heq]
    exact Table.count_set_le ..

/-- So does a call; `cancelObserve` gives one back before. -/
theorem slotsTaken_call (c : Client cfg) (sendOk : Bool) (call : ClientCall) :
    (c.call sendOk call).1.slotsTaken ≤ c.slotsTaken + 1 := by
  rw [call_eq]
  cases hs : call.shape with
  | issue a => exact slotsTaken_issue c a sendOk (shape_blockwise hs)
  | cancel server path =>
    dsimp only
    cases c.findObserve server path with
    | none => exact Nat.le_succ _
    | some i =>
      refine (slotsTaken_issue (c.release i) _ sendOk fun hb => ?_).trans
        (Nat.succ_le_succ (narrows_release c i).slotsTaken_le)
      rw [deregister_blockwise] at hb
      cases hb
  | discover ep onDiscover userContext =>
    rcases discover_cases c ep onDiscover userContext sendOk with ⟨_, _, heq, -⟩ |
      ⟨_, _, -, -, heq⟩
    · dsimp only
      rw [heq]
      exact Nat.le_succ _
    · dsimp only
      rw [heq]
      exact Nat.le_succ _
  | handler h => exact Nat.le_succ _

/-- As many calls take as many slots at most, by induction over the calls. -/
theorem slotsTaken_afterCalls (calls : List (ClientCall × Bool)) :
    ∀ c : Client cfg, (c.afterCalls calls).slotsTaken ≤ c.slotsTaken + calls.length := by
  induction calls with
  | nil => exact fun c => Nat.le_refl _
  | cons p calls ih =>
    intro c
    have hone := slotsTaken_call c p.2 p.1
    have hrest := ih (c.call p.2 p.1).1
    rw [List.length_cons]
    exact hrest.trans (by omega)

/-- If not all slots are taken, one is found. -/
theorem freeSlot_of_slotsTaken {c : Client cfg} (h : c.slotsTaken < cfg.maxTransactions) :
    c.freeSlot.isSome = true := by
  obtain ⟨i, hi⟩ := Table.exists_of_count_lt h
  obtain ⟨j, hj⟩ : ∃ j, c.freeSlot = some j := Table.find?_isSome (i := i) (by simpa using hi)
  rw [hj]
  rfl

/-- **Where the slots are given back, there is room for new requests**: after some time of quiet
polling each of the next `PULSECOAP_MAX_TRANSACTIONS` calls finds a free slot, less one for each
subscription. The calls may be of any kind and need not succeed. -/
theorem Reclaims.room {c : Client cfg} (hc : c.control = .idle) (h : c.Reclaims) :
    ∃ bound, ∀ elapsed c', QuietRun c elapsed c' → c'.control = .idle → bound ≤ elapsed →
      ∀ calls : List (ClientCall × Bool), c.subscriptions + calls.length < cfg.maxTransactions →
        (c'.afterCalls calls).freeSlot.isSome = true := by
  obtain ⟨bound, h⟩ := h
  refine ⟨bound, fun elapsed c' r hidle hlong calls hroom => freeSlot_of_slotsTaken ?_⟩
  have hnarrow := (r.quieted hc).gives.narrows
  have hleft : c'.slotsTaken ≤ c.subscriptions := by
    refine Table.count_le fun i hi => ⟨hnarrow.active hi, ?_⟩
    rw [← hnarrow.slots i hi]
    exact h elapsed c' r hidle hlong i hi
  have hcalls := slotsTaken_afterCalls calls c'
  omega

/-- After a Confirmable `get`. -/
def asked : Client .default :=
  ((machine .default).next (machine .default).init
    (.call (.get localServer pathA none none true) true)).1

theorem reclaims_iff_asked : asked.Reclaims ↔ asked.AllCovered := reclaims_iff (by decide)

/-- **A Non-confirmable request keeps its slot** until it is answered: it is in no pool, and
nothing else has a timer for it. -/
theorem not_reclaims : ¬ ∀ h c, (machine .default).Run (fun _ _ => True) h c → c.control = .idle →
    c.Reclaims := by
  intro hall
  have r := Machine.Run.start.step (M := machine .default) (P := fun _ _ => True)
    (a := .call (.get localServer pathA none none false) true) trivial
  have hcov := (hall _ _ r (by decide)).allCovered (by decide)
  exact absurd hcov (by decide)

end Client

end PulseCoap
