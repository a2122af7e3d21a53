import Mathlib.Algebra.Ring.Nat
import Mathlib.Tactic.Common

/-!
# Exponential backoff over a clock that ticks

A timer armed with an initial timeout `T` waits for the first tick at or after
its deadline, acts, and doubles its timeout from the time of that tick. It acts
`max` times and gives up the time after.

`schedule` says what such a timer does at a list of ticks, over the natural
numbers: no clock wraps here. `Phase` is the same timer one tick at a time, and
what a program keeps of it: how often the timer has acted and when it is due
next. A program learns of its ticks one by one, so what is proved of it is
`shots_concat`, at the end of the list; the induction is on the ticks before. The
bounds need no clock: they follow from the number of times the phase has acted.

* `shots_concat` — one more tick adds what the phase reached does at it.
* `count_resends_le`, `count_giveUps_le` — the timer acts at most `max` times,
  and gives up at most once.
-/

namespace PulseCoap.Backoff

/-- What a timer that is due does. -/
inductive Shot where
  | resend (time : Nat)
  | giveUp (time : Nat)
deriving DecidableEq, Repr

/-- What a timer does that has acted `k` times and is due at `due`. -/
def schedule (T max : Nat) : (k due : Nat) → (ticks : List Nat) → List Shot
  | _, _, [] => []
  | k, due, t :: ts =>
    if t < due then schedule T max k due ts
    else if k < max then .resend t :: schedule T max (k + 1) (t + T * 2 ^ (k + 1)) ts
    else [.giveUp t]

/-- How far a timer has come. -/
inductive Phase where
  | waiting (k due : Nat)
  | ended
deriving DecidableEq, Repr

namespace Phase

variable (T max : Nat)

/-- A tick at time `t`. -/
def tick (t : Nat) : Phase → Phase × List Shot
  | waiting k due =>
    if t < due then (waiting k due, [])
    else if k < max then (waiting (k + 1) (t + T * 2 ^ (k + 1)), [.resend t])
    else (ended, [.giveUp t])
  | ended => (ended, [])

/-- The phase after a list of ticks. -/
def after : Phase → List Nat → Phase
  | p, [] => p
  | p, t :: ts => after (p.tick T max t).1 ts

/-- The shots of a list of ticks. -/
def shots : Phase → List Nat → List Shot
  | _, [] => []
  | p, t :: ts => (p.tick T max t).2 ++ shots (p.tick T max t).1 ts

variable {T max}

theorem after_concat (p : Phase) (ts : List Nat) (t : Nat) :
    p.after T max (ts ++ [t]) = ((p.after T max ts).tick T max t).1 := by
  induction ts generalizing p with
  | nil => rfl
  | cons u us ih => exact ih _

theorem shots_concat (p : Phase) (ts : List Nat) (t : Nat) :
    p.shots T max (ts ++ [t]) = p.shots T max ts ++ ((p.after T max ts).tick T max t).2 := by
  induction ts generalizing p with
  | nil => simp [shots, after]
  | cons u us ih =>
    show (p.tick T max u).2 ++ shots T max (p.tick T max u).1 (us ++ [t]) = _
    rw [ih, ← List.append_assoc]
    rfl

/-- Before its deadline nothing is due. -/
theorem tick_of_lt {k due t : Nat} (h : t < due) :
    (waiting k due).tick T max t = (waiting k due, []) := if_pos h

/-- At the deadline it is sent again, and the next wait is twice as long. -/
theorem tick_resend {k due t : Nat} (h : due ≤ t) (hk : k < max) :
    (waiting k due).tick T max t = (waiting (k + 1) (t + T * 2 ^ (k + 1)), [.resend t]) := by
  rw [tick, if_neg (by omega), if_pos hk]

/-- After the last time it is given up. -/
theorem tick_giveUp {k due t : Nat} (h : due ≤ t) (hk : max ≤ k) :
    (waiting k due).tick T max t = (ended, [.giveUp t]) := by
  rw [tick, if_neg (by omega), if_neg (by omega)]

/-- Then nothing comes any more. -/
theorem shots_ended (ts : List Nat) : ended.shots T max ts = [] := by
  induction ts with
  | nil => rfl
  | cons t ts ih => exact ih

/-- Tick by tick, the timer keeps to the schedule. -/
theorem shots_waiting (k due : Nat) (ts : List Nat) :
    (waiting k due).shots T max ts = schedule T max k due ts := by
  induction ts generalizing k due with
  | nil => rfl
  | cons t ts ih =>
    rw [shots, schedule]
    by_cases hdue : t < due
    · rw [if_pos hdue, tick_of_lt hdue]
      exact ih k due
    by_cases hk : k < max
    · rw [if_neg hdue, if_pos hk, tick_resend (by omega) hk]
      exact congrArg (.resend t :: ·) (ih _ _)
    · rw [if_neg hdue, if_neg hk, tick_giveUp (by omega) (by omega), shots_ended]
      rfl

end Phase

/-! ## How often it acts -/

/-- The timer acts once more. -/
def Shot.isResend : Shot → Bool
  | .resend _ => true
  | .giveUp _ => false

/-- No more retransmissions than the maximum. -/
theorem count_resends_le (T max k due : Nat) (ts : List Nat) :
    (schedule T max k due ts).countP Shot.isResend ≤ max - k := by
  induction ts generalizing k due with
  | nil => simp [schedule]
  | cons t ts ih =>
    rw [schedule]
    by_cases hdue : t < due
    · rw [if_pos hdue]
      exact ih k due
    by_cases hk : k < max
    · have hrest := ih (k + 1) (t + T * 2 ^ (k + 1))
      rw [if_neg hdue, if_pos hk, List.countP_cons_of_pos rfl]
      omega
    · simp [hdue, hk, Shot.isResend]

theorem count_giveUps_le (T max k due : Nat) (ts : List Nat) :
    (schedule T max k due ts).countP (!·.isResend) ≤ 1 := by
  induction ts generalizing k due with
  | nil => simp [schedule]
  | cons t ts ih =>
    rw [schedule]
    by_cases hdue : t < due
    · rw [if_pos hdue]
      exact ih k due
    by_cases hk : k < max
    · rw [if_neg hdue, if_pos hk, List.countP_cons_of_neg (by simp [Shot.isResend])]
      exact ih _ _
    · simp [hdue, hk, Shot.isResend]

end PulseCoap.Backoff
