import PulseCoap.Lib.Run

/-!
# Paths of a machine

A run is what a machine has done from its start. A path is what it can do from a
state: a list of steps that meet a condition, with what they put out on the way.
Paths compose, and a run that is followed by a path is a run.

Where a run theorem says that something never happens, a path says that
something can still happen: it is what a liveness result is stated with, the
steps of a network that delivers among the steps of one that may do anything.

* `Path.cons`, `Path.trans` — how paths are put together.
* `Run.path` — a run goes on along a path.
* `Path.invariant` — the invariant rule.
-/

namespace PulseCoap

namespace Machine

variable {σ α ε : Type} {M : Machine σ α ε} {P : σ → α → Prop}

/-- Steps that meet `P` lead from one state to another, and put this out. -/
inductive Path (M : Machine σ α ε) (P : σ → α → Prop) : σ → List ε → σ → Prop where
  | refl (s : σ) : Path M P s [] s
  | step {s s' : σ} {a : α} {ev : List ε} :
      P s a → Path M P (M.next s a).1 ev s' → Path M P s ((M.next s a).2 ++ ev) s'

theorem Path.single {s : σ} {a : α} (h : P s a) : M.Path P s (M.next s a).2 (M.next s a).1 := by
  have hp := Path.step h (Path.refl (M.next s a).1)
  rwa [List.append_nil] at hp

/-- A step whose result is known. -/
theorem Path.cons {s s₁ s' : σ} {a : α} {ev₁ ev : List ε} (h : P s a) (hnext : M.next s a = (s₁, ev₁))
    (p : M.Path P s₁ ev s') : M.Path P s (ev₁ ++ ev) s' := by
  have hp := Path.step h (show M.Path P (M.next s a).1 ev s' by rw [hnext]; exact p)
  rwa [hnext] at hp

theorem Path.trans {s s' s'' : σ} {ev ev' : List ε} (p : M.Path P s ev s')
    (p' : M.Path P s' ev' s'') : M.Path P s (ev ++ ev') s'' := by
  induction p with
  | refl => exact p'
  | step h _ ih =>
    rw [List.append_assoc]
    exact .step h (ih p')

/-- A run goes on along a path. -/
theorem Run.path {h ev : List ε} {s s' : σ} (r : M.Run P h s) (p : M.Path P s ev s') :
    M.Run P (h ++ ev) s' := by
  induction p generalizing h with
  | refl =>
    rw [List.append_nil]
    exact r
  | step hp _ ih =>
    rw [← List.append_assoc]
    exact ih (r.step hp)

/-- The invariant rule. -/
theorem Path.invariant {I : σ → Prop} (hstep : ∀ s a, I s → P s a → I (M.next s a).1) {s s' : σ}
    {ev : List ε} (p : M.Path P s ev s') : I s → I s' := by
  induction p with
  | refl => exact id
  | step h _ ih => exact fun hi => ih (hstep _ _ hi h)

end Machine

end PulseCoap
