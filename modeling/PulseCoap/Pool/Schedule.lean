import Mathlib.Data.List.Chain
import PulseCoap.Lib.Backoff
import PulseCoap.Pool.Machine
import PulseCoap.Pool.Spec

/-!
# PulseCoAP — the retransmission schedule

`tick` resends what has not been acknowledged, with a timeout that doubles, and
gives up after `PULSECOAP_MAX_RETRANSMIT` resends. The deadlines are 32-bit
words that wrap; `tick` tells due from not due by the sign of a difference.

A transaction keeps to the schedule of `Lib.Backoff` when

* `TimersFit` — the longest timeout of the build is shorter than `2^31` ms, half a
  round of the clock, and
* `TickGap` — its ticks come less than `2^31 - 2^17` ms apart.

It is not enough that *calls* come so close to each other: calls of `start` in a
row carry the clock past the half-way mark, and the tick after them takes a
deadline that has passed for one that is to come.

* `Standing` — where a transaction stands while the scan is under way.
* `Inv.scan` — the scan brings every transaction up to date.
* `on_schedule` — every transaction of every run, whatever the others do.
* `not_on_schedule` — calls that come close to each other are not enough.
-/

namespace PulseCoap.Pool

open TransactionPool Backoff

variable {cfg : Config}

/-! ## What the schedule is -/

/-- `computeInitialTimeoutMs` for a message. -/
def initialTimeout (cfg : Config) (a : StartArgs) : Nat :=
  (computeInitialTimeoutMs cfg a.messageId.toUInt32).toNat

/-- `ACK_TIMEOUT * NUM / DEN`. -/
def longestTimeout (cfg : Config) : Nat :=
  cfg.ackTimeoutMs.toNat * cfg.ackRandomNum.toNat / cfg.ackRandomDen.toNat

/-- What a callback is told. A resend leaves the slot taken, a timeout frees it first. -/
def firing (a : StartArgs) : Shot → Firing
  | .resend time => (time, .resend a.remote a.message, false)
  | .giveUp time => (time, .timeout a.remote a.token, true)

/-- Transaction `n`, started at `t0`, has been treated as it should be. -/
def OnSchedule (cfg : Config) (h : List Event) (n t0 : Nat) (a : StartArgs) : Prop :=
  let T := initialTimeout cfg a
  let shots := schedule T cfg.maxRetransmit 0 (t0 + T) (ticksOf n h)
  firings n h = shots.map (firing a) ∧
    shots.countP Shot.isResend ≤ cfg.maxRetransmit ∧ shots.countP (!·.isResend) ≤ 1 ∧
    cfg.ackTimeoutMs.toNat ≤ T ∧ T ≤ longestTimeout cfg

instance (cfg : Config) (h : List Event) (n t0 : Nat) (a : StartArgs) :
    Decidable (OnSchedule cfg h n t0 a) :=
  inferInstanceAs (Decidable (_ ∧ _))

/-- The timeouts of the build: positive, spread upwards, and shorter than half a round of the
clock up to the last backoff. -/
def TimersFit (cfg : Config) : Prop :=
  0 < cfg.ackTimeoutMs.toNat ∧ 0 < cfg.ackRandomDen.toNat ∧
    cfg.ackRandomDen.toNat ≤ cfg.ackRandomNum.toNat ∧
    longestTimeout cfg * 2 ^ cfg.maxRetransmit < 2 ^ 31

instance (cfg : Config) : Decidable (TimersFit cfg) := inferInstanceAs (Decidable (_ ∧ _))

/-- The jitter is a remainder of the span, so it stays below the upper end, if that is above the
base at all. -/
theorem jitter_range (base upper x : UInt32) :
    let span := if upper > base then upper - base else 0
    base.toNat ≤ (if span > 0 then base + x % span else base).toNat ∧
      (if span > 0 then base + x % span else base).toNat ≤ max base.toNat upper.toNat := by
  intro span
  by_cases hgt : upper > base
  · have hlt : base.toNat < upper.toNat := UInt32.lt_iff_toNat_lt.1 hgt
    have hspan : span.toNat = upper.toNat - base.toNat := by
      show (if upper > base then upper - base else 0).toNat = _
      rw [if_pos hgt]
      exact UInt32.toNat_sub_of_le _ _ (UInt32.le_of_lt hgt)
    have hpos : span > 0 := by
      rw [gt_iff_lt, UInt32.lt_iff_toNat_lt, hspan]
      exact Nat.sub_pos_of_lt hlt
    have hmod := Nat.mod_lt x.toNat (by omega : span.toNat > 0)
    have hupper := upper.toNat_lt
    rw [if_pos hpos, UInt32.toNat_add, UInt32.toNat_mod, Nat.mod_eq_of_lt (by omega)]
    omega
  · have hzero : ¬ span > 0 := by
      show ¬ (if upper > base then upper - base else 0) > 0
      rw [if_neg hgt]
      exact UInt32.lt_irrefl 0
    rw [if_neg hzero]
    exact ⟨Nat.le_refl _, Nat.le_max_left ..⟩

/-- The product that wraps is not above the exact one, so the range holds for it too. -/
theorem initialTimeout_range (fit : TimersFit cfg) (a : StartArgs) :
    cfg.ackTimeoutMs.toNat ≤ initialTimeout cfg a ∧
      initialTimeout cfg a ≤ longestTimeout cfg := by
  obtain ⟨-, hden, hspread, -⟩ := fit
  have hupper : (cfg.ackTimeoutMs * cfg.ackRandomNum / cfg.ackRandomDen).toNat ≤
      longestTimeout cfg := by
    rw [UInt32.toNat_div, UInt32.toNat_mul]
    exact Nat.div_le_div_right (Nat.mod_le _ _)
  have hbase : cfg.ackTimeoutMs.toNat ≤ longestTimeout cfg := by
    rw [longestTimeout, Nat.le_div_iff_mul_le hden]
    exact Nat.mul_le_mul_left _ hspread
  have hrange := jitter_range cfg.ackTimeoutMs
    (cfg.ackTimeoutMs * cfg.ackRandomNum / cfg.ackRandomDen)
  exact ⟨(hrange _).1, Nat.le_trans (hrange _).2 (Nat.max_le.2 ⟨hbase, hupper⟩)⟩

/-- No timeout of the schedule comes to `2^31`. -/
theorem timeout_lt (fit : TimersFit cfg) (a : StartArgs) {k : Nat} (hk : k ≤ cfg.maxRetransmit) :
    initialTimeout cfg a * 2 ^ k < 2 ^ 31 := by
  calc initialTimeout cfg a * 2 ^ k
      ≤ longestTimeout cfg * 2 ^ cfg.maxRetransmit :=
        Nat.mul_le_mul (initialTimeout_range fit a).2 (Nat.pow_le_pow_right (by omega) hk)
    _ < 2 ^ 31 := fit.2.2.2

/-- So a deadline is never at once. -/
theorem initialTimeout_pos (fit : TimersFit cfg) (a : StartArgs) : 0 < initialTimeout cfg a :=
  Nat.lt_of_lt_of_le fit.1 (initialTimeout_range fit a).1

/-! ## The slot of a transaction -/

/-- What the pool holds of transaction `n` after `k` resends. -/
def slotOf (cfg : Config) (n : Nat) (a : StartArgs) (k due : Nat) : Transaction :=
  { state := .awaitingAck, remote := a.remote, messageId := a.messageId, token := a.token
    retriesSent := k, currentTimeoutMs := clock (initialTimeout cfg a * 2 ^ k)
    nextRetryAtMs := clock due, message := a.message, owner := { id := n } }

/-- The 32-bit clock of a sum. With it a deadline that is computed on the wrapped clock is the
wrapped deadline. -/
theorem clock_add (a b : Nat) : clock a + clock b = clock (a + b) := by
  rw [← UInt32.toNat_inj]
  simp [clock]

/-- The doubling of the backoff, on the clock. It wraps in the same way on both sides. -/
theorem clock_double (a : Nat) : clock a * 2 = clock (a * 2) := by
  rw [← UInt32.toNat_inj]
  simp [clock]

theorem clock_toNat (v : UInt32) : clock v.toNat = v := by
  simp [clock]

/-- Within half a round of the clock the signed difference tells the order. -/
theorem notDue_iff {now due : Nat} (hpast : now < due + 2 ^ 31) (hfuture : due < now + 2 ^ 31)
    {t : Transaction} (ht : t.nextRetryAtMs = clock due) :
    notDue (clock now) t = true ↔ now < due := by
  unfold notDue
  simp only [ht, Bool.and_eq_true, decide_eq_true_eq]
  rw [clock, clock, UInt32.toNat_sub, UInt32.toNat_ofNat', UInt32.toNat_ofNat']
  omega

/-- What `start` writes is the slot of a transaction that no scan has seen: no resend counted,
and due after its first timeout. -/
theorem started_eq_slotOf (n now : Nat) (a : StartArgs) :
    started cfg a.remote a.messageId a.token a.message (clock now) { id := n } =
      slotOf cfg n a 0 (now + initialTimeout cfg a) := by
  unfold started slotOf
  rw [← clock_add, Nat.pow_zero, Nat.mul_one, initialTimeout, clock_toNat]

/-- A slot that is due is resent and armed for twice the time, or ended. -/
theorem tickSlot_slotOf {n k due now : Nat} {a : StartArgs} (hdue : due ≤ now)
    (hpast : now < due + 2 ^ 31) :
    tickSlot cfg (clock now) (slotOf cfg n a k due) =
      if k < cfg.maxRetransmit then
        (slotOf cfg n a (k + 1) (now + initialTimeout cfg a * 2 ^ (k + 1)),
          some (.resend a.remote a.message))
      else ({ slotOf cfg n a k due with state := .free }, some (.timeout a.remote a.token)) := by
  have hnot : notDue (clock now) (slotOf cfg n a k due) = false := by
    rw [← Bool.not_eq_true, notDue_iff hpast (by omega) rfl]
    omega
  rcases tickSlot_cases cfg (clock now) (slotOf cfg n a k due) with
    ⟨-, h⟩ | ⟨-, -, hk, h⟩ | ⟨-, -, hk, h⟩
  · rw [h rfl] at hnot
    cases hnot
  · have hk' : k < cfg.maxRetransmit := hk
    rw [h, if_pos hk']
    unfold slotOf
    rw [clock_double, clock_add, Nat.mul_assoc, ← Nat.pow_succ]
  · have hk' : ¬ k < cfg.maxRetransmit := hk
    rw [h, if_neg hk']
    rfl

/-! ## The history, one event more -/

theorem watch_concat (n : Nat) (h : List Event) (e : Event) :
    watch n (h ++ [e]) = (watch n h).see n e := by
  rw [watch, List.foldl_append]
  rfl

theorem firings_append (n : Nat) (h h' : List Event) :
    firings n (h ++ h') = firings n h ++ firings n h' := List.filterMap_append

/-- Only a `started` event starts anything. -/
theorem mem_concat_started {h : List Event} {e : Event} {n t0 : Nat} {a : StartArgs}
    (he : ∀ m time b, e ≠ .started m time b) :
    .started n t0 a ∈ h ++ [e] ↔ .started n t0 a ∈ h := by
  constructor
  · intro hmem
    rcases List.mem_append.1 hmem with hmem | hmem
    · exact hmem
    · exact absurd (List.mem_singleton.1 hmem).symm (he _ _ _)
  · exact fun hmem => List.mem_append_left _ hmem

/-! ## Where a transaction stands -/

/-- The timer of a transaction, when it was started. The schedule goes on from there and does
not look at the pool again. -/
def armed (cfg : Config) (t0 : Nat) (a : StartArgs) : Phase :=
  .waiting 0 (t0 + initialTimeout cfg a)

/-- Where the timer stands after a list of ticks. -/
def phaseAt (cfg : Config) (t0 : Nat) (a : StartArgs) (ticks : List Nat) : Phase :=
  (armed cfg t0 a).after (initialTimeout cfg a) cfg.maxRetransmit ticks

/-- What the callbacks should have been told by then: the shots of the timer at these ticks,
with the remote and the bytes of the start. -/
def told (cfg : Config) (t0 : Nat) (a : StartArgs) (ticks : List Nat) : List Firing :=
  ((armed cfg t0 a).shots (initialTimeout cfg a) cfg.maxRetransmit ticks).map (firing a)

/-- The last tick of a transaction, or its start. From there to the next tick there must be less
than `maxGap`. -/
def lastSeen (t0 : Nat) (ticks : List Nat) : Nat := ticks.getLast?.getD t0

theorem lastSeen_concat (t0 : Nat) (ticks : List Nat) (t : Nat) :
    lastSeen t0 (ticks ++ [t]) = t := by
  rw [lastSeen, List.getLast?_concat]
  rfl

theorem tickGap_concat {t0 : Nat} {ticks : List Nat} {t : Nat} (hgap : TickGap t0 (ticks ++ [t])) :
    TickGap t0 ticks ∧ t < lastSeen t0 ticks + maxGap := by
  have happ : ((t0 :: ticks) ++ [t]).IsChain fun a b => b < a + maxGap := hgap
  rw [List.isChain_append] at happ
  obtain ⟨hinit, -, hlast⟩ := happ
  refine ⟨hinit, hlast _ ?_ t rfl⟩
  rw [List.getLast?_cons]
  rfl

/-- Where transaction `n` stands while the slots of `left` are still to be scanned. -/
inductive Standing (s : State cfg) (left : List (Fin cfg.maxTransactions)) (h : List Event)
    (n t0 : Nat) (a : StartArgs) : Prop where
  /-- It waits for a deadline that is after the last tick. -/
  | waiting (i : Fin cfg.maxTransactions) (k due : Nat)
      (slot : s.pool i = slotOf cfg n a k due) (open_ : (watch n h).live = true)
      (phase : phaseAt cfg t0 a (ticksOf n h) = .waiting k due)
      (fired : firings n h = told cfg t0 a (ticksOf n h))
      (later : s.lastTick < due) (near : due < s.now + 2 ^ 31)
      (rearmed : lastSeen t0 (ticksOf n h) < due)
  /-- It has lost its slot. -/
  | gone (lost : ∀ i, Awaiting (s.pool i) → (s.pool i).owner.id ≠ n)
      (fired : firings n h = told cfg t0 a (ticksOf n h))
      (closed : (watch n h).live = false ∨ phaseAt cfg t0 a (ticksOf n h) = .ended)
  /-- The scan has yet to come to it, and it is due. -/
  | behind (i : Fin cfg.maxTransactions) (k due : Nat) (ticks : List Nat) (coming : i ∈ left)
      (slot : s.pool i = slotOf cfg n a k due) (open_ : (watch n h).live = true)
      (now : ticksOf n h = ticks ++ [s.lastTick])
      (phase : phaseAt cfg t0 a ticks = .waiting k due)
      (fired : firings n h = told cfg t0 a ticks)
      (passed : due ≤ s.lastTick) (recent : s.lastTick < due + 2 ^ 31)

/-- What holds of a run, also in the middle of a scan, when the slots of `left` are still to be
looked at. Between two calls `left` is empty. -/
structure Inv (left : List (Fin cfg.maxTransactions)) (h : List Event) (s : State cfg) : Prop where
  keyed    : s.pool.Keyed Awaiting (·.owner.id)
  counted  : ∀ i, Awaiting (s.pool i) → (s.pool i).owner.id < s.started
  unseen   : ∀ n, s.started ≤ n → watch n h = {} ∧ firings n h = []
  numbered : ∀ n t0 a, .started n t0 a ∈ h → n < s.started
  standing : ∀ n t0 a, .started n t0 a ∈ h → TickGap t0 (ticksOf n h) → Standing s left h n t0 a
  ticked   : s.lastTick ≤ s.now

/-! ## A transaction is started -/

/-- `start` finds the pool full, or fills a free entry. Which one it is does not matter to the
other transactions. -/
theorem startNow_cases (s : State cfg) (a : StartArgs) :
    startNow s a = (s, []) ∨
      ∃ i, (s.pool i).state = .free ∧
        startNow s a =
          ({ s with
              pool := s.pool.set i
                (slotOf cfg s.started a 0 (s.now + initialTimeout cfg a))
              started := s.started + 1 },
            [.started s.started s.now a]) := by
  unfold startNow
  rcases start_eq s.pool a.remote a.messageId a.token a.message (clock s.now)
    { id := s.started } with h | ⟨i, hi, h⟩
  · rw [h]
    exact .inl rfl
  · rw [h, started_eq_slotOf]
    exact .inr ⟨i, hi, rfl⟩

theorem startNow_now (s : State cfg) (a : StartArgs) : (startNow s a).1.now = s.now := by
  rcases startNow_cases s a with h | ⟨i, -, h⟩ <;> rw [h]

theorem startNow_lastTick (s : State cfg) (a : StartArgs) :
    (startNow s a).1.lastTick = s.lastTick := by
  rcases startNow_cases s a with h | ⟨i, -, h⟩ <;> rw [h]

variable {left : List (Fin cfg.maxTransactions)} {h : List Event} {s : State cfg}

/-- A slot that waits is not a free one. So what is written into a free slot leaves every
transaction where it is. -/
theorem ne_of_free {i j : Fin cfg.maxTransactions} (hi : (s.pool i).state = .free)
    (hj : Awaiting (s.pool j)) : j ≠ i := by
  intro hji
  rw [hji, Awaiting, hi] at hj
  cases hj

/-- What others do to a free slot, and an event that is not about it, leave a transaction where
it stands. -/
theorem Standing.other {n t0 : Nat} {a : StartArgs} (hst : Standing s left h n t0 a)
    {s' : State cfg} {h' : List Event} (hnow : s.now ≤ s'.now) (hlast : s'.lastTick = s.lastTick)
    (hwatch : watch n h' = watch n h) (hfirings : firings n h' = firings n h)
    (hkept : ∀ i, Awaiting (s.pool i) → (s.pool i).owner.id = n → s'.pool i = s.pool i)
    (hnew : ∀ i, Awaiting (s'.pool i) → (s'.pool i).owner.id = n → s'.pool i = s.pool i)
    {left' : List (Fin cfg.maxTransactions)}
    (hleft : ∀ i ∈ left, Awaiting (s.pool i) → (s.pool i).owner.id = n → i ∈ left') :
    Standing s' left' h' n t0 a := by
  have hticks : ticksOf n h' = ticksOf n h := by rw [ticksOf, hwatch]; rfl
  rcases hst with ⟨i, k, due, slot, open_, phase, fired, later, near, rearmed⟩ |
    ⟨lost, fired, closed⟩ |
    ⟨i, k, due, ticks, coming, slot, open_, now, phase, fired, passed, recent⟩
  · -- its slot is kept, and no tick of it is added: only the clock has moved
    have hi : Awaiting (s.pool i) ∧ (s.pool i).owner.id = n := by rw [slot]; exact ⟨rfl, rfl⟩
    refine .waiting i k due ((hkept i hi.1 hi.2).trans slot) (hwatch ▸ open_) ?_ ?_ ?_ ?_ ?_
    · rw [hticks, phase]
    · rw [hfirings, hticks, fired]
    · rw [hlast]
      exact later
    · omega
    · rw [hticks]
      exact rearmed
  · -- a slot that is new in the pool is not its own
    refine .gone ?_ ?_ ?_
    · intro i hi hid
      have hsame := hnew i hi hid
      rw [hsame] at hi hid
      exact lost i hi hid
    · rw [hfirings, hticks, fired]
    · rw [hwatch, hticks]
      exact closed
  · have hi : Awaiting (s.pool i) ∧ (s.pool i).owner.id = n := by rw [slot]; exact ⟨rfl, rfl⟩
    refine .behind i k due ticks (hleft i coming hi.1 hi.2) ((hkept i hi.1 hi.2).trans slot)
      (hwatch ▸ open_) ?_ phase ?_ ?_ ?_
    · rw [hticks, hlast, now]
    · rw [hfirings, fired]
    · rw [hlast]
      exact passed
    · rw [hlast]
      exact recent

/-- A transaction just started waits for its first deadline. The clock has not passed it, since
the timeouts of the build are positive. -/
theorem Inv.started (fit : TimersFit cfg) (inv : Inv left h s) {i : Fin cfg.maxTransactions}
    (hi : (s.pool i).state = .free) (a : StartArgs) :
    Inv left (h ++ [.started s.started s.now a])
      { s with
          pool := s.pool.set i (slotOf cfg s.started a 0 (s.now + initialTimeout cfg a))
          started := s.started + 1 } := by
  obtain ⟨hwatch, hfired⟩ := inv.unseen s.started (Nat.le_refl _)
  have hfree : ∀ j, Awaiting (s.pool j) → j ≠ i := fun j hj => ne_of_free hi hj
  refine ⟨?_, ?_, ?_, ?_, ?_, inv.ticked⟩
  · refine inv.keyed.set fun j _ hj hid => ?_
    have hlt := inv.counted j hj
    have heq' : (s.pool j).owner.id = s.started := hid
    omega
  · intro j hj
    by_cases hji : j = i
    · subst hji
      simp only [Table.set_self]
      exact Nat.lt_succ_self _
    · simp only [Table.set_ne _ _ hji] at hj ⊢
      exact Nat.lt_succ_of_lt (inv.counted j hj)
  · intro n hn
    have hn' : s.started + 1 ≤ n := hn
    obtain ⟨hw, hf⟩ := inv.unseen n (by omega)
    rw [watch_concat, firings_append, hw, hf]
    exact ⟨if_neg (by omega), rfl⟩
  · intro n t0 b hmem
    rcases List.mem_append.1 hmem with hmem | hmem
    · exact Nat.lt_succ_of_lt (inv.numbered n t0 b hmem)
    · cases List.mem_singleton.1 hmem
      exact Nat.lt_succ_self _
  · intro n t0 b hmem hgap
    rcases List.mem_append.1 hmem with hmem | hmem
    · -- an older transaction: its slot is not the free one
      have hn := inv.numbered n t0 b hmem
      have hwatch' : watch n (h ++ [.started s.started s.now a]) = watch n h := by
        rw [watch_concat]
        exact if_neg (by omega)
      rw [ticksOf, hwatch'] at hgap
      refine (inv.standing n t0 b hmem hgap).other ?_ ?_ hwatch' ?_ ?_ ?_ ?_
      · exact Nat.le_refl _
      · rfl
      · rw [firings_append]
        exact List.append_nil _
      · exact fun j hj _ => Table.set_ne _ _ (hfree j hj)
      · intro j _ hid
        by_cases hji : j = i
        · subst hji
          simp only [Table.set_self] at hid
          have hid' : s.started = n := hid
          omega
        · exact Table.set_ne _ _ hji
      · exact fun _ hj _ _ => hj
    · cases List.mem_singleton.1 hmem
      have hlive : watch s.started (h ++ [.started s.started s.now a]) = { live := true } := by
        rw [watch_concat, hwatch]
        exact if_pos rfl
      have hticks : ticksOf s.started (h ++ [.started s.started s.now a]) = [] := by
        rw [ticksOf, hlive]
      have hpos := initialTimeout_pos fit a
      have hle := timeout_lt fit a (Nat.zero_le _)
      have hticked := inv.ticked
      refine .waiting i 0 (s.now + initialTimeout cfg a) (Table.set_self _ _ _) ?_ ?_ ?_ ?_ ?_ ?_
      · rw [hlive]
      · rw [hticks]
        rfl
      · rw [firings_append, hfired, hticks]
        rfl
      · show s.lastTick < _
        omega
      · show _ < s.now + 2 ^ 31
        rw [Nat.pow_zero, Nat.mul_one] at hle
        omega
      · rw [hticks]
        show s.now < _
        omega

/-- **A start keeps the invariant**: the new transaction is due at its first timeout. It gets a
number of its own, and the slot was free, so no other transaction loses its place. -/
theorem Inv.startNow (fit : TimersFit cfg) (inv : Inv left h s) (a : StartArgs) :
    Inv left (h ++ (startNow s a).2) (startNow s a).1 := by
  rcases startNow_cases s a with heq | ⟨i, hi, heq⟩
  · rw [heq, List.append_nil]
    exact inv
  · rw [heq]
    exact inv.started fit hi a

/-- So do the starts of a callback, one after the other. The time does not move while a callback
runs. -/
theorem startAll_spec (fit : TimersFit cfg) (as : List StartArgs) :
    ∀ {h : List Event} {s : State cfg}, Inv left h s →
      Inv left (h ++ (startAll s as).2) (startAll s as).1 ∧
        (startAll s as).1.now = s.now ∧ (startAll s as).1.lastTick = s.lastTick := by
  induction as with
  | nil =>
    intro h s inv
    show Inv left (h ++ []) s ∧ _
    rw [List.append_nil]
    exact ⟨inv, rfl, rfl⟩
  | cons a as ih =>
    intro h s inv
    obtain ⟨hinv, hnow, hlast⟩ := ih (inv.startNow fit a)
    refine ⟨?_, hnow.trans (startNow_now s a), hlast.trans (startNow_lastTick s a)⟩
    rw [List.append_assoc] at hinv
    exact hinv

/-! ## The scan -/

variable {i : Fin cfg.maxTransactions}

/-- A slot whose deadline is to come is passed over. The two bounds say that the signed
difference has not wrapped. -/
theorem tickSlot_later {n k due now : Nat} {a : StartArgs} (hlater : now < due)
    (hnear : due < now + 2 ^ 31) :
    (tickSlot cfg (clock now) (slotOf cfg n a k due)).2 = none := by
  have hnot : notDue (clock now) (slotOf cfg n a k due) = true :=
    (notDue_iff (by omega) (by omega) rfl).2 hlater
  rcases tickSlot_cases cfg (clock now) (slotOf cfg n a k due) with
    ⟨h, -⟩ | ⟨-, hdue, -⟩ | ⟨-, hdue, -⟩
  · rw [h]
  · rw [hnot] at hdue
    cases hdue
  · rw [hnot] at hdue
    cases hdue

/-- The scan does not pass over a slot that is due, if it is late by less than half a round of
the clock. -/
theorem tickSlot_due {n k due now : Nat} {a : StartArgs} (hdue : due ≤ now)
    (hpast : now < due + 2 ^ 31) :
    (tickSlot cfg (clock now) (slotOf cfg n a k due)).2 ≠ none := by
  rw [tickSlot_slotOf hdue hpast]
  split <;> exact Option.some_ne_none _

/-- An entry that is not due is left to the next scan. No transaction stands behind in it: those
that were due are. -/
theorem Inv.passedOver (inv : Inv (i :: left) h s) (hnow : s.now = s.lastTick)
    (hnone : (tickSlot cfg (clock s.now) (s.pool i)).2 = none) : Inv left h s := by
  refine { inv with standing := fun n t0 a hmem hgap => ?_ }
  rcases inv.standing n t0 a hmem hgap with
    ⟨j, k, due, slot, open_, phase, fired, later, near, rearmed⟩ |
    ⟨lost, fired, closed⟩ |
    ⟨j, k, due, ticks, coming, slot, open_, now, phase, fired, passed, recent⟩
  · exact .waiting j k due slot open_ phase fired later near rearmed
  · exact .gone lost fired closed
  · refine .behind j k due ticks ?_ slot open_ now phase fired passed recent
    rcases List.mem_cons.1 coming with hji | hj
    · rw [← hji, slot] at hnone
      exact absurd hnone (tickSlot_due (by omega) (by omega))
    · exact hj

/-- A callback is about one transaction, the one whose slot was due. -/
theorem firings_fired (h : List Event) (n m time : Nat) (event : TickEvent) (free : Bool) :
    firings n (h ++ [.fired m time event free]) =
      if m = n then firings n h ++ [(time, event, free)] else firings n h := by
  rw [firings_append]
  by_cases hm : m = n
  · rw [if_pos hm]
    simp [firings, hm]
  · rw [if_neg hm]
    simp [firings, hm]

/-- The timer and the callbacks after one tick more. -/
theorem phaseAt_concat (cfg : Config) (t0 : Nat) (a : StartArgs) (ticks : List Nat) (t : Nat) :
    phaseAt cfg t0 a (ticks ++ [t]) =
      ((phaseAt cfg t0 a ticks).tick (initialTimeout cfg a) cfg.maxRetransmit t).1 :=
  Phase.after_concat _ _ _

theorem told_concat (cfg : Config) (t0 : Nat) (a : StartArgs) (ticks : List Nat) (t : Nat) :
    told cfg t0 a (ticks ++ [t]) = told cfg t0 a ticks ++
      ((phaseAt cfg t0 a ticks).tick (initialTimeout cfg a) cfg.maxRetransmit t).2.map
        (firing a) := by
  rw [told, Phase.shots_concat, List.map_append]
  rfl

/-- The slot that was due is brought up to date: the timer of its transaction has seen the tick,
and the callback has been told what the timer says. -/
theorem Inv.caughtUp (fit : TimersFit cfg) (inv : Inv (i :: left) h s)
    (hnow : s.now = s.lastTick) {t : Transaction} {event : TickEvent}
    (htick : tickSlot cfg (clock s.now) (s.pool i) = (t, some event)) (hi : Awaiting (s.pool i))
    {t0 : Nat} {a : StartArgs}
    (hst : Standing s (i :: left) h (s.pool i).owner.id t0 a) :
    Standing { s with pool := s.pool.set i t } left
      (h ++ [.fired (s.pool i).owner.id s.now event (t.state == .free)])
      (s.pool i).owner.id t0 a := by
  generalize hn : (s.pool i).owner.id = n at hst ⊢
  have hslot : ∀ j, Awaiting (s.pool j) → (s.pool j).owner.id = n → j = i :=
    fun j hj hid => inv.keyed j i hj hi (hid.trans hn.symm)
  have hwatch : ∀ e, watch n (h ++ [.fired n s.now event e]) = watch n h :=
    fun e => watch_concat _ _ _
  have hticks : ∀ e, ticksOf n (h ++ [.fired n s.now event e]) = ticksOf n h :=
    fun e => congrArg Watch.ticks (hwatch e)
  rcases hst with ⟨j, k, due, slot, open_, phase, fired, later, near, rearmed⟩ |
    ⟨lost, fired, closed⟩ |
    ⟨j, k, due, ticks, coming, slot, open_, now, phase, fired, passed, recent⟩
  · -- not due, so the scan would have passed over it
    have hji : j = i := hslot j (by rw [slot]; rfl) (by rw [slot]; rfl)
    subst hji
    have hnone : (tickSlot cfg (clock s.now) (slotOf cfg n a k due)).2 = none :=
      tickSlot_later (hnow ▸ later) near
    rw [← slot, htick] at hnone
    cases hnone
  · exact absurd hn (lost i hi)
  · have hji : j = i := hslot j (by rw [slot]; rfl) (by rw [slot]; rfl)
    subst hji
    have hpassed : due ≤ s.now := by omega
    rw [slot, tickSlot_slotOf hpassed (by omega)] at htick
    have hphase := phaseAt_concat cfg t0 a ticks s.lastTick
    have htold := told_concat cfg t0 a ticks s.lastTick
    rw [phase] at hphase htold
    by_cases hk : k < cfg.maxRetransmit
    · rw [if_pos hk] at htick
      rw [Phase.tick_resend passed hk] at hphase htold
      cases htick
      have hle := timeout_lt fit a (k := k + 1) hk
      have hpos : 0 < initialTimeout cfg a * 2 ^ (k + 1) :=
        Nat.mul_pos (initialTimeout_pos fit a) (Nat.two_pow_pos _)
      refine .waiting j (k + 1) (s.now + initialTimeout cfg a * 2 ^ (k + 1))
        (Table.set_self _ _ _) ?_ ?_ ?_ ?_ ?_ ?_
      · rw [hwatch]
        exact open_
      · rw [hticks, now, hphase, hnow]
      · rw [firings_fired, if_pos rfl, hticks, now, htold, fired, hnow]
        rfl
      · show s.lastTick < _
        omega
      · show _ < s.now + 2 ^ 31
        omega
      · rw [hticks, now, lastSeen_concat]
        omega
    · rw [if_neg hk] at htick
      rw [Phase.tick_giveUp passed (by omega)] at hphase htold
      cases htick
      refine .gone ?_ ?_ (.inr ?_)
      · intro j' hj' hid
        by_cases hjj : j' = j
        · subst hjj
          simp only [Table.set_self] at hj'
          cases hj'
        · simp only [Table.set_ne _ _ hjj] at hj' hid
          exact hjj (hslot j' hj' hid)
      · rw [firings_fired, if_pos rfl, hticks, now, htold, fired, hnow]
        rfl
      · rw [hticks, now, hphase]

/-- **An entry that fires keeps the invariant**: it goes to its next phase, or is free. The
event it has told is the next one of the schedule of its own ticks. -/
theorem Inv.fired (fit : TimersFit cfg) (inv : Inv (i :: left) h s) (hnow : s.now = s.lastTick)
    {t : Transaction} {event : TickEvent}
    (htick : tickSlot cfg (clock s.now) (s.pool i) = (t, some event)) :
    Inv left (h ++ [.fired (s.pool i).owner.id s.now event (t.state == .free)])
      { s with pool := s.pool.set i t } := by
  -- a slot that says something was awaiting, and it keeps its owner
  have ⟨hi, howner⟩ : Awaiting (s.pool i) ∧ t.owner = (s.pool i).owner := by
    rcases tickSlot_cases cfg (clock s.now) (s.pool i) with
      ⟨heq, -⟩ | ⟨hi, -, -, heq⟩ | ⟨hi, -, -, heq⟩
    · rw [htick] at heq
      cases heq
    · rw [htick] at heq
      cases heq
      exact ⟨hi, rfl⟩
    · rw [htick] at heq
      cases heq
      exact ⟨hi, rfl⟩
  refine ⟨?_, ?_, ?_, ?_, ?_, inv.ticked⟩
  · exact inv.keyed.set_same fun _ => ⟨hi, congrArg Call.id howner⟩
  · -- the slots that are in use
    intro j hj
    by_cases hji : j = i
    · subst hji
      simp only [Table.set_self, howner]
      exact inv.counted j hi
    · simp only [Table.set_ne _ _ hji] at hj ⊢
      exact inv.counted j hj
  · -- a transaction that has not been started is not mentioned
    intro n hn
    obtain ⟨hw, hf⟩ := inv.unseen n hn
    have hlt := inv.counted i hi
    have hn' : s.started ≤ n := hn
    rw [watch_concat, firings_fired, if_neg (by omega), hw, hf]
    exact ⟨rfl, rfl⟩
  · intro n t0 a hmem
    rw [mem_concat_started (by intros; exact Event.noConfusion)] at hmem
    exact inv.numbered n t0 a hmem
  · -- the transaction of the slot has caught up, the others stand where they stood
    intro n t0 a hmem hgap
    rw [mem_concat_started (by intros; exact Event.noConfusion)] at hmem
    have hwatch : ∀ e, watch n (h ++ [.fired (s.pool i).owner.id s.now event e]) = watch n h :=
      fun e => watch_concat _ _ _
    rw [ticksOf, hwatch] at hgap
    have hst := inv.standing n t0 a hmem hgap
    by_cases hn : (s.pool i).owner.id = n
    · subst hn
      exact inv.caughtUp fit hnow htick hi hst
    · have hne : ∀ j, (s.pool j).owner.id = n → j ≠ i := by
        intro j hid hji
        rw [hji] at hid
        exact hn hid
      refine hst.other ?_ ?_ ?_ ?_ ?_ ?_ ?_
      · exact Nat.le_refl _
      · rfl
      · exact hwatch _
      · rw [firings_fired, if_neg hn]
      · exact fun j _ hid => Table.set_ne _ _ (hne j hid)
      · intro j _ hid
        by_cases hji : j = i
        · subst hji
          simp only [Table.set_self, howner] at hid
          exact absurd hid hn
        · exact Table.set_ne _ _ hji
      · intro j hj _ hid
        exact (List.mem_cons.1 hj).resolve_left (hne j hid)

/-- The scan brings one slot more up to date, whatever its callback starts. A slot that is
filled in the meantime is not due yet, wherever it lies. -/
theorem visit_spec (fit : TimersFit cfg)
    (callback : Fin cfg.maxTransactions → TickEvent → List StartArgs)
    (inv : Inv (i :: left) h s) (hnow : s.now = s.lastTick) :
    Inv left (h ++ (visit callback s i).2) (visit callback s i).1 ∧
      (visit callback s i).1.now = s.now ∧ (visit callback s i).1.lastTick = s.lastTick := by
  unfold visit
  rcases htick : tickSlot cfg (clock s.now) (s.pool i) with ⟨t, _ | event⟩
  · refine ⟨?_, rfl, rfl⟩
    rw [List.append_nil]
    exact inv.passedOver hnow (by rw [htick])
  · obtain ⟨hinv, hnow', hlast⟩ := startAll_spec fit (callback i event) (inv.fired fit hnow htick)
    refine ⟨?_, hnow', hlast⟩
    rw [List.append_assoc] at hinv
    exact hinv

/-- The whole scan, by induction over the entries that are left, with the callback's starts in
between. -/
theorem scan_spec (fit : TimersFit cfg)
    (callback : Fin cfg.maxTransactions → TickEvent → List StartArgs)
    (left : List (Fin cfg.maxTransactions)) :
    ∀ {h : List Event} {s : State cfg}, Inv left h s → s.now = s.lastTick →
      Inv [] (h ++ (scan callback s left).2) (scan callback s left).1 := by
  induction left with
  | nil =>
    intro h s inv _
    show Inv [] (h ++ []) s
    rw [List.append_nil]
    exact inv
  | cons i left ih =>
    intro h s inv hnow
    obtain ⟨hinv, hnow', hlast⟩ := visit_spec fit callback inv hnow
    have hrest := ih hinv (by rw [hnow', hlast, hnow])
    rw [List.append_assoc] at hrest
    exact hrest

/-! ## The calls -/

/-- A scan is noted for a transaction that is live; one that has lost its slot to a caller has
had its last tick. -/
theorem watch_ticked {n : Nat} {h : List Event} (hlive : (watch n h).live = true) (time : Nat) :
    watch n (h ++ [.ticked time]) = { live := true, ticks := ticksOf n h ++ [time] } := by
  rw [watch_concat]
  show (if (watch n h).live then
    { live := (watch n h).live, ticks := ticksOf n h ++ [time] } else watch n h) = _
  rw [if_pos hlive, hlive]

theorem watch_ticked_closed {n : Nat} {h : List Event} (hlive : (watch n h).live = false)
    (time : Nat) : watch n (h ++ [.ticked time]) = watch n h := by
  rw [watch_concat]
  show (if (watch n h).live then _ else watch n h) = _
  rw [hlive]
  rfl

/-- The beginning of a scan fires nothing. What it finds due, it fires slot by slot. -/
theorem firings_ticked (n : Nat) (h : List Event) (time : Nat) :
    firings n (h ++ [.ticked time]) = firings n h := by
  rw [firings_append]
  exact List.append_nil _

/-- When a tick begins, whoever is due by then is behind; the others wait on. The gap to the
tick before is what keeps the difference from wrapping. -/
theorem Standing.begin {n t0 : Nat} {a : StartArgs} (hst : Standing s [] h n t0 a) {time : Nat}
    (hnow : s.now ≤ time) (hlive : (watch n h).live = true)
    (hgap : time < lastSeen t0 (ticksOf n h) + maxGap) :
    Standing { s with now := time, lastTick := time } (List.finRange _) (h ++ [.ticked time])
      n t0 a := by
  have hwatch := watch_ticked hlive time
  have hticks : ticksOf n (h ++ [.ticked time]) = ticksOf n h ++ [time] :=
    congrArg Watch.ticks hwatch
  have hfirings := firings_ticked n h time
  have hphase := phaseAt_concat cfg t0 a (ticksOf n h) time
  have htold := told_concat cfg t0 a (ticksOf n h) time
  rcases hst with ⟨i, k, due, slot, -, phase, fired, later, near, rearmed⟩ |
    ⟨lost, fired, closed⟩ | ⟨_, _, _, _, coming, _⟩
  · by_cases hdue : time < due
    · rw [phase, Phase.tick_of_lt hdue] at hphase htold
      refine .waiting i k due slot ?_ ?_ ?_ hdue ?_ ?_
      · rw [hwatch]
      · rw [hticks, hphase]
      · rw [hfirings, hticks, htold, fired]
        exact (List.append_nil _).symm
      · show due < time + 2 ^ 31
        omega
      · rw [hticks, lastSeen_concat]
        exact hdue
    · refine .behind i k due (ticksOf n h) (List.mem_finRange i) slot ?_ hticks phase ?_ ?_ ?_
      · rw [hwatch]
      · rw [hfirings, fired]
      · exact Nat.not_lt.1 hdue
      · -- the deadline is after the tick before, and this tick comes soon after that one
        show time < due + 2 ^ 31
        unfold maxGap at hgap
        omega
  · have hended : phaseAt cfg t0 a (ticksOf n h) = .ended :=
      closed.resolve_left (by rw [hlive]; exact Bool.noConfusion)
    rw [hended] at hphase htold
    refine .gone lost ?_ (.inr ?_)
    · rw [hfirings, hticks, htold, fired]
      exact (List.append_nil _).symm
    · rw [hticks, hphase]
      rfl
  · cases coming

/-- A scan begins: every entry is left to look at. -/
theorem Inv.begin (inv : Inv [] h s) {time : Nat} (hnow : s.now ≤ time) :
    Inv (List.finRange _) (h ++ [.ticked time]) { s with now := time, lastTick := time } := by
  refine ⟨inv.keyed, inv.counted, ?_, ?_, ?_, Nat.le_refl _⟩
  · intro n hn
    obtain ⟨hw, hf⟩ := inv.unseen n hn
    rw [watch_concat, firings_append, hw, hf]
    exact ⟨rfl, rfl⟩
  · intro n t0 a hmem
    rw [mem_concat_started (by intros; exact Event.noConfusion)] at hmem
    exact inv.numbered n t0 a hmem
  intro n t0 a hmem hgap
  rw [mem_concat_started (by intros; exact Event.noConfusion)] at hmem
  cases hlive : (watch n h).live with
  | false =>
    have hwatch := watch_ticked_closed hlive time
    have hticks : ticksOf n (h ++ [.ticked time]) = ticksOf n h := by rw [ticksOf, hwatch]; rfl
    rw [hticks] at hgap
    rcases inv.standing n t0 a hmem hgap with ⟨_, _, _, _, open_, _⟩ | ⟨lost, fired, closed⟩ |
      ⟨_, _, _, _, coming, _⟩
    · rw [hlive] at open_
      cases open_
    · refine .gone lost ?_ (.inl ?_)
      · rw [firings_ticked, hticks, fired]
      · rw [hwatch, hlive]
    · cases coming
  | true =>
    rw [ticksOf, watch_ticked hlive] at hgap
    obtain ⟨hbefore, hlast⟩ := tickGap_concat hgap
    exact (inv.standing n t0 a hmem hbefore).begin hnow hlive hlast

/-- A caller frees a slot. Its transaction is told nothing more, and the timers of the others do
not see it. -/
theorem Inv.freed (inv : Inv [] h s) (hi : Awaiting (s.pool i)) :
    Inv [] (h ++ [.freed (s.pool i).owner.id])
      { s with pool := s.pool.set i { s.pool i with state := .free } } := by
  have hfreed : ∀ {j}, Awaiting ((s.pool.set i { s.pool i with state := .free }) j) →
      j ≠ i ∧ Awaiting (s.pool j) := by
    intro j hj
    by_cases hji : j = i
    · rw [hji, Table.set_self] at hj
      cases hj
    · rw [Table.set_ne _ _ hji] at hj
      exact ⟨hji, hj⟩
  refine ⟨?_, ?_, ?_, ?_, ?_, inv.ticked⟩
  · exact inv.keyed.set_same fun hfree => by cases hfree
  · intro j hj
    obtain ⟨hji, hj⟩ := hfreed hj
    simp only [Table.set_ne _ _ hji]
    exact inv.counted j hj
  · -- nothing is known of a transaction that is still to come
    intro n hn
    obtain ⟨hw, hf⟩ := inv.unseen n hn
    have hlt := inv.counted i hi
    have hn' : s.started ≤ n := hn
    rw [watch_concat, firings_append, hw, hf]
    exact ⟨if_neg (by omega), rfl⟩
  · intro n t0 a hmem
    rw [mem_concat_started (by intros; exact Event.noConfusion)] at hmem
    exact inv.numbered n t0 a hmem
  · intro n t0 a hmem hgap
    rw [mem_concat_started (by intros; exact Event.noConfusion)] at hmem
    have hticks : ticksOf n (h ++ [.freed (s.pool i).owner.id]) = ticksOf n h := by
      rw [ticksOf, watch_concat]
      show Watch.ticks (if _ then _ else _) = _
      split <;> rfl
    rw [hticks] at hgap
    have hst := inv.standing n t0 a hmem hgap
    have hfirings : firings n (h ++ [.freed (s.pool i).owner.id]) = firings n h := by
      rw [firings_append]
      exact List.append_nil _
    by_cases hn : (s.pool i).owner.id = n
    · -- the watch of this transaction closes: it has been told all it will be told
      have hwatch : watch n (h ++ [.freed (s.pool i).owner.id]) =
          { live := false, ticks := ticksOf n h } := by
        rw [watch_concat]
        exact if_pos hn
      have htold : firings n h = told cfg t0 a (ticksOf n h) := by
        rcases hst with ⟨_, _, _, _, _, _, fired, _⟩ | ⟨_, fired, _⟩ | ⟨_, _, _, _, coming, _⟩
        · exact fired
        · exact fired
        · cases coming
      refine .gone ?_ ?_ (.inl ?_)
      · intro j hj hid
        obtain ⟨hji, hj⟩ := hfreed hj
        simp only [Table.set_ne _ _ hji] at hid
        exact hji (inv.keyed j i hj hi (hid.trans hn.symm))
      · rw [hfirings, hticks, htold]
      · rw [hwatch]
    · refine hst.other ?_ ?_ ?_ ?_ ?_ ?_ ?_
      · exact Nat.le_refl _
      · rfl
      · rw [watch_concat]
        exact if_neg hn
      · exact hfirings
      · intro j _ hid
        refine Table.set_ne _ _ fun hji => ?_
        rw [hji] at hid
        exact hn hid
      · intro j hj _
        exact Table.set_ne _ _ (hfreed hj).1
      · exact fun _ hj _ _ => hj

/-- The invariant of a run between two calls. Whatever is due by the last tick has been told so. -/
theorem inv_of_run (fit : TimersFit cfg) {origin : Nat}
    (r : (machine cfg origin).Run Forward h s) : Inv [] h s := by
  refine Machine.Run.invariant (I := fun h s => Inv [] h s) ?_ ?_ r
  · -- nothing has been started
    refine ⟨?_, ?_, ?_, ?_, ?_, Nat.le_refl _⟩
    · intro i j hi
      cases hi
    · intro i hi
      cases hi
    · exact fun _ _ => ⟨rfl, rfl⟩
    · intro n t0 a hmem
      cases hmem
    · intro n t0 a hmem
      cases hmem
  · intro h s action _ inv hforward
    cases action with
    | start time a =>
      have hinv : Inv [] h { s with now := time } := by
        have hle : s.now ≤ time := hforward time rfl
        refine ⟨inv.keyed, inv.counted, inv.unseen, inv.numbered, fun n t0 b hmem hgap => ?_, ?_⟩
        · refine (inv.standing n t0 b hmem hgap).other ?_ ?_ ?_ ?_ ?_ ?_ ?_
          · exact hle
          · rfl
          · rfl
          · rfl
          · exact fun _ _ _ => rfl
          · exact fun _ _ _ => rfl
          · exact fun _ hj _ _ => hj
        · exact Nat.le_trans inv.ticked hle
      exact hinv.startNow fit a
    | complete remote messageId =>
      rcases complete_cases s.pool remote messageId with ⟨hnone, heq⟩ | ⟨i, hsome, heq⟩
      · show Inv [] (h ++ (release s _ _).2) (release s _ _).1
        rw [heq, hnone]
        exact (List.append_nil h).symm ▸ inv
      · show Inv [] (h ++ (release s _ _).2) (release s _ _).1
        rw [heq, hsome]
        exact inv.freed (matchesId_iff.1 (Table.find?_spec hsome)).1
    | completeByToken remote token =>
      rcases completeByToken_cases s.pool remote token with ⟨hnone, heq⟩ | ⟨i, hsome, hi, heq⟩
      · show Inv [] (h ++ (release s _ _).2) (release s _ _).1
        rw [heq, hnone]
        exact (List.append_nil h).symm ▸ inv
      · show Inv [] (h ++ (release s _ _).2) (release s _ _).1
        rw [heq, hsome]
        exact inv.freed hi
    | tick time callback =>
      have hscan := scan_spec fit callback _ (inv.begin (hforward time rfl)) rfl
      rw [List.append_assoc] at hscan
      exact hscan

/-- **Retransmission schedule.** In every run, every transaction `start` accepted whose ticks come
soon enough after each other is resent at the ticks of its own schedule, with its own bytes, and
its timeout fires once, when its slot is free. The right-hand sides know its start, its initial
timeout and the ticks since, and nothing of the other slots. -/
theorem on_schedule (cfg : Config) (fit : TimersFit cfg) (origin : Nat) {h : List Event}
    {s : State cfg} (r : (machine cfg origin).Run Forward h s) {n t0 : Nat} {a : StartArgs}
    (hstarted : .started n t0 a ∈ h) (hgap : TickGap t0 (ticksOf n h)) :
    OnSchedule cfg h n t0 a := by
  have htold : firings n h = told cfg t0 a (ticksOf n h) := by
    rcases (inv_of_run fit r).standing n t0 a hstarted hgap with
      ⟨_, _, _, _, _, _, fired, _⟩ | ⟨_, fired, _⟩ | ⟨_, _, _, _, coming, _⟩
    · exact fired
    · exact fired
    · cases coming
  have hrange := initialTimeout_range fit a
  refine ⟨?_, count_resends_le _ _ _ _ _, count_giveUps_le _ _ _ _ _, hrange⟩
  rw [htold, told, armed, Phase.shots_waiting]

/-- A message that is sent. -/
def sample (messageId : UInt16) : StartArgs :=
  { remote := default, messageId, token := [1], message := [0x41] }

/-- Started at 100 ms, ticked after five seconds and after two minutes. -/
def twoTicks : List (Action Config.default) :=
  [.start 100 (sample 7), .tick 5100 fun _ _ => [sample 8], .tick 120000 fun _ _ => []]

theorem on_schedule_sample :
    OnSchedule Config.default ((machine Config.default 0).exec [] (machine _ 0).init twoTicks).1
      0 100 (sample 7) :=
  on_schedule Config.default (by decide) 0 (.exec .start (by decide)) (by decide +kernel)
    (by decide +kernel)

/-- Three calls of `start`, each a quarter of a round of the clock after the call before, and a
tick another quarter later. -/
def slowStarts : List (Action Config.default) :=
  [.start 0 (sample 7), .start (2 ^ 30) (sample 8), .start (2 ^ 31) (sample 9),
    .tick (3 * 2 ^ 30) fun _ _ => []]

/-- The build with a timeout of half a round of the clock. -/
def slowBuild : Config :=
  { Config.default with
    ackTimeoutMs := 0x80000000, maxRetransmit := 0, retransmit_lt := by decide }

/-- The build whose range of timeouts is empty. -/
def emptyRangeBuild : Config := { Config.default with ackRandomNum := 1, ackRandomDen := 2 }

/-- The build whose timeouts are 0: what a callback starts is due in the scan that is on. -/
def zeroBuild : Config := { Config.default with ackTimeoutMs := 0 }

/-- A resend after which the callback starts another message. -/
def startsAgain : List (Action zeroBuild) :=
  [.start 0 (sample 7), .tick 0 fun _ _ => [sample 8]]

/-- **The schedule is not kept** when calls, not ticks, are what comes close after each other; nor
in builds whose timeouts are too long for a signed difference, or whose range is empty; nor with
timeouts of 0, where what a callback starts in a tick is resent in that tick or not, as its slot is
behind the one that has fired or before it. -/
theorem not_on_schedule :
    (∃ (h : List Event) (s : State Config.default),
      (machine Config.default 0).Run StepGap h s ∧
        .started 0 0 (sample 7) ∈ h ∧ ¬ OnSchedule Config.default h 0 0 (sample 7)) ∧
    (∀ cfg ∈ [slowBuild, emptyRangeBuild], ∃ (h : List Event) (s : State cfg),
      (machine cfg 0).Run StepGap h s ∧ .started 0 0 (sample 7) ∈ h ∧
        TickGap 0 (ticksOf 0 h) ∧ ¬ OnSchedule cfg h 0 0 (sample 7)) ∧
    ∃ (h : List Event) (s : State zeroBuild),
      (machine zeroBuild 0).Run StepGap h s ∧ .started 1 0 (sample 8) ∈ h ∧
        TickGap 0 (ticksOf 1 h) ∧ ¬ OnSchedule zeroBuild h 1 0 (sample 8) := by
  have hslow : (machine Config.default 0).Meets StepGap (machine _ 0).init slowStarts := by decide
  refine ⟨⟨_, _, .exec .start hslow, ?_, ?_⟩, ?_, ?_⟩
  · decide +kernel
  · decide +kernel
  · intro cfg hcfg
    simp only [List.mem_cons, List.not_mem_nil, or_false] at hcfg
    rcases hcfg with rfl | rfl
    · have hmeets : (machine slowBuild 0).Meets StepGap (machine _ 0).init
          [.start 0 (sample 7), .tick 0 fun _ _ => []] := by decide
      refine ⟨_, _, .exec .start hmeets, ?_, ?_, ?_⟩ <;> decide +kernel
    · have hmeets : (machine emptyRangeBuild 0).Meets StepGap (machine _ 0).init
          [.start 0 (sample 7)] := by decide
      refine ⟨_, _, .exec .start hmeets, ?_, ?_, ?_⟩ <;> decide +kernel
  · have hmeets : (machine zeroBuild 0).Meets StepGap (machine _ 0).init startsAgain := by decide
    refine ⟨_, _, .exec .start hmeets, ?_, ?_, ?_⟩ <;> decide +kernel

end PulseCoap.Pool
