import Mathlib.Algebra.Ring.Nat
import Mathlib.Tactic.Common

/-!
# Runs of a state machine with outputs

A machine takes one action at a time and answers with a list of outputs.
`Run M P` are its runs from the initial state in which every step meets the
condition `P` on the state before it and the action taken; a run is known by
the outputs so far and the state it has reached.

The outputs of a run are kept beside its state because most properties are about
both: what was sent, and what is still remembered of it. The condition `P` is
where the assumptions of a result stand. It sees the state before the step and
the action, and nothing of what the step makes of them, so a result about the
runs under a condition does not assume what it proves.

* `Run.invariant` — the induction rule: what holds at the start and is kept by
  every step of a run holds of every run.
* `Run.invariant_outputs` — the same for an invariant of the states and a property of the
  outputs that it gives.
* `Run.exec` — a list of actions whose steps meet the condition is a run, so
  that concrete runs are evaluated.
* `meets_congr`, `meets_imp` — two conditions that agree, or one that implies the other, where
  an invariant holds.
* `exec_forall_iff` — which lists of actions have only outputs of a kind.
* `exec_lockstep` — two machines that stay related while each action of one is
  answered by the other with the same outputs have the same outputs.
* `Followed` — each output of one kind has one of another kind behind it.
-/

namespace PulseCoap

/-- A machine with states `σ`, actions `α` and outputs `ε`. -/
structure Machine (σ α ε : Type) where
  init : σ
  next : σ → α → σ × List ε

namespace Machine

variable {σ α ε : Type} (M : Machine σ α ε)

/-- The runs whose steps all meet `P`. -/
inductive Run (P : σ → α → Prop) : List ε → σ → Prop where
  | start : Run P [] M.init
  | step {h : List ε} {s : σ} {a : α} :
      Run P h s → P s a → Run P (h ++ (M.next s a).2) (M.next s a).1

/-- What a list of actions makes of a run. -/
def exec : List ε → σ → List α → List ε × σ
  | h, s, [] => (h, s)
  | h, s, a :: as => exec (h ++ (M.next s a).2) (M.next s a).1 as

/-- Every step of the list meets `P`. -/
def Meets (P : σ → α → Prop) : σ → List α → Prop
  | _, [] => True
  | s, a :: as => P s a ∧ Meets P (M.next s a).1 as

instance decidableMeets (P : σ → α → Prop) [∀ s a, Decidable (P s a)] :
    ∀ (s : σ) (as : List α), Decidable (M.Meets P s as)
  | _, [] => .isTrue trivial
  | s, a :: as =>
    haveI := decidableMeets P (M.next s a).1 as
    inferInstanceAs (Decidable (P s a ∧ M.Meets P (M.next s a).1 as))

variable {M} {P : σ → α → Prop}

theorem meets_of_forall (hp : ∀ s a, P s a) : ∀ (s : σ) (as : List α), M.Meets P s as
  | _, [] => trivial
  | s, a :: as => ⟨hp s a, meets_of_forall hp (M.next s a).1 as⟩

/-- The invariant rule. -/
theorem Run.invariant {I : List ε → σ → Prop} (init : I [] M.init)
    (step : ∀ {h : List ε} {s : σ} {a : α}, M.Run P h s → I h s → P s a →
      I (h ++ (M.next s a).2) (M.next s a).1)
    {h : List ε} {s : σ} (r : M.Run P h s) : I h s := by
  induction r with
  | start => exact init
  | step r hp ih => exact step r ih hp

/-- The invariant rule where the invariant speaks of the state, and gives a property of what a
step puts out. -/
theorem Run.invariant_outputs {I : σ → Prop} {Q : ε → Prop} (init : I M.init)
    (step : ∀ {s : σ} {a : α}, I s → P s a → I (M.next s a).1 ∧ ∀ e ∈ (M.next s a).2, Q e)
    {h : List ε} {s : σ} (r : M.Run P h s) : I s ∧ ∀ e ∈ h, Q e := by
  induction r with
  | start => exact ⟨init, List.forall_mem_nil Q⟩
  | step _ hp ih =>
    obtain ⟨inv, hall⟩ := ih
    obtain ⟨inv', hnew⟩ := step inv hp
    exact ⟨inv', List.forall_mem_append.2 ⟨hall, hnew⟩⟩

/-- A run under a stronger condition is one under a weaker condition. -/
theorem Run.mono {Q : σ → α → Prop} (hpq : ∀ s a, P s a → Q s a) {h : List ε} {s : σ}
    (r : M.Run P h s) : M.Run Q h s := by
  induction r with
  | start => exact .start
  | step _ hp ih => exact .step ih (hpq _ _ hp)

/-- A list of actions that meets the condition prolongs a run. -/
theorem Run.exec {h : List ε} {s : σ} (r : M.Run P h s) :
    ∀ {as : List α}, M.Meets P s as → M.Run P (M.exec h s as).1 (M.exec h s as).2 := by
  intro as
  induction as generalizing h s with
  | nil => exact fun _ => r
  | cons a as ih => exact fun hm => ih (r.step hm.1) hm.2

/-- What is out stays out. -/
theorem mem_exec_of_mem {e : ε} (as : List α) :
    ∀ {h : List ε} {s : σ}, e ∈ h → e ∈ (M.exec h s as).1 := by
  induction as with
  | nil => exact id
  | cons a as ih => exact fun he => ih (List.mem_append_left _ he)

/-- Two conditions that agree as long as an invariant holds, which one of them keeps, are met by
the same lists of actions. -/
theorem meets_congr {P Q : σ → α → Prop} {I : σ → Prop}
    (hkeep : ∀ s a, I s → Q s a → I (M.next s a).1)
    (hstep : ∀ s a, I s → (P s a ↔ Q s a)) (as : List α) :
    ∀ s : σ, I s → (M.Meets P s as ↔ M.Meets Q s as) := by
  induction as with
  | nil => exact fun _ _ => Iff.rfl
  | cons a as ih =>
    intro s hs
    rw [Meets, Meets, hstep s a hs]
    exact and_congr_right fun hq => ih _ (hkeep s a hs hq)

/-- What a list of actions meets, its last one meets after the others. -/
theorem Meets.last {P : σ → α → Prop} {a : α} (as : List α) :
    ∀ {h : List ε} {s : σ}, M.Meets P s (as ++ [a]) → P (M.exec h s as).2 a := by
  induction as with
  | nil => exact fun hm => hm.1
  | cons _ _ ih => exact fun hm => ih hm.2

/-- A condition that implies another one as long as an invariant holds, which it keeps. -/
theorem meets_imp {P Q : σ → α → Prop} {I : σ → Prop}
    (hkeep : ∀ s a, I s → P s a → I (M.next s a).1)
    (hstep : ∀ s a, I s → P s a → Q s a) (as : List α) :
    ∀ s : σ, I s → M.Meets P s as → M.Meets Q s as := by
  induction as with
  | nil => exact fun _ _ _ => trivial
  | cons a as ih =>
    rintro s hs ⟨hp, hrest⟩
    exact ⟨hstep s a hs hp, ih _ (hkeep s a hs hp) hrest⟩

/-- The outputs of a list of actions all satisfy `Q` exactly when its steps all meet `P`, if each
step does so by `P`, as long as an invariant holds. -/
theorem exec_forall_iff {Q : ε → Prop} {P : σ → α → Prop} {I : σ → Prop}
    (hkeep : ∀ s a, I s → P s a → I (M.next s a).1)
    (hstep : ∀ s a, I s → ((∀ e ∈ (M.next s a).2, Q e) ↔ P s a)) (as : List α) :
    ∀ (h : List ε) (s : σ), I s →
      ((∀ e ∈ (M.exec h s as).1, Q e) ↔ (∀ e ∈ h, Q e) ∧ M.Meets P s as) := by
  induction as with
  | nil =>
    intro h s _
    exact (and_iff_left trivial).symm
  | cons a as ih =>
    intro h s hs
    by_cases hp : P s a
    · rw [exec, ih _ _ (hkeep s a hs hp), Meets]
      have hq := (hstep s a hs).2 hp
      simp only [List.mem_append, or_imp, forall_and]
      exact ⟨fun h => ⟨h.1.1, hp, h.2⟩, fun h => ⟨⟨h.1, hq⟩, h.2.2⟩⟩
    · -- the step that fails the condition puts out what fails `Q`
      refine iff_of_false (fun hq => hp ((hstep s a hs).1 fun e he => hq e ?_)) fun h => hp h.2.1
      exact mem_exec_of_mem as (List.mem_append_right _ he)

/-- One more action at the end. -/
theorem exec_concat (as : List α) (a : α) : ∀ (h : List ε) (s : σ),
    M.exec h s (as ++ [a]) =
      ((M.exec h s as).1 ++ (M.next (M.exec h s as).2 a).2, (M.next (M.exec h s as).2 a).1) := by
  induction as with
  | nil => exact fun _ _ => rfl
  | cons _ _ ih => exact fun _ _ => ih _ _

/-- Two machines in lockstep have the same outputs, as long as the actions are of a kind. -/
theorem exec_lockstep_on {σ' α' : Type} {M : Machine σ α ε} {M' : Machine σ' α' ε} {Q : α → Prop}
    {R : σ → σ' → Prop} {f : α → α'}
    (step : ∀ s s' a, Q a → R s s' → (M'.next s' (f a)).2 = (M.next s a).2 ∧
      R (M.next s a).1 (M'.next s' (f a)).1) (as : List α) :
    ∀ (h : List ε) (s : σ) (s' : σ'), (∀ a ∈ as, Q a) → R s s' →
      (M'.exec h s' (as.map f)).1 = (M.exec h s as).1 := by
  induction as with
  | nil =>
    intro h s s' _ _
    rfl
  | cons a as ih =>
    intro h s s' hq hr
    obtain ⟨ha, has⟩ := List.forall_mem_cons.1 hq
    obtain ⟨hout, hnext⟩ := step s s' a ha hr
    show (M'.exec (h ++ (M'.next s' (f a)).2) _ (as.map f)).1 = _
    rw [hout]
    exact ih _ _ _ has hnext

/-- Two machines in lockstep have the same outputs. -/
theorem exec_lockstep {σ' α' : Type} {M : Machine σ α ε} {M' : Machine σ' α' ε}
    {R : σ → σ' → Prop} {f : α → α'}
    (step : ∀ s s' a, R s s' → (M'.next s' (f a)).2 = (M.next s a).2 ∧
      R (M.next s a).1 (M'.next s' (f a)).1) (as : List α) (h : List ε) (s : σ) (s' : σ')
    (hr : R s s') : (M'.exec h s' (as.map f)).1 = (M.exec h s as).1 :=
  exec_lockstep_on (Q := fun _ => True) (fun s s' a _ => step s s' a) as h s s'
    (fun _ _ => trivial) hr

end Machine

/-! ## Histories -/

section Histories

variable {ε : Type} {p q : ε → Prop} {h : List ε}

/-- Behind every `p` of the history there is a `q`. -/
def Followed (p q : ε → Prop) (h : List ε) : Prop :=
  ∀ pre e post, h = pre ++ e :: post → p e → ∃ e' ∈ post, q e'

theorem followed_nil : Followed p q [] := by
  intro pre e post heq
  cases pre <;> cases heq

/-- A `q` at the end is behind all that was there before. -/
theorem followed_concat_of {e : ε} (hp : ¬ p e) (hq : q e) : Followed p q (h ++ [e]) := by
  intro pre x post heq hx
  rcases List.eq_nil_or_concat post with rfl | ⟨post', e', rfl⟩
  · obtain ⟨-, hlast⟩ := List.append_inj' heq rfl
    obtain rfl := List.singleton_inj.1 hlast
    exact absurd hx hp
  · rw [List.concat_eq_append, ← List.cons_append, ← List.append_assoc] at heq
    obtain ⟨-, hlast⟩ := List.append_inj' heq rfl
    obtain rfl := List.singleton_inj.1 hlast
    exact ⟨e, by simp, hq⟩

/-- What is no `p` does no harm. -/
theorem Followed.append (hf : Followed p q h) {es : List ε} (hp : ∀ e ∈ es, ¬ p e) :
    Followed p q (h ++ es) := by
  intro pre x post heq hx
  rcases List.append_eq_append_iff.1 heq with ⟨mid, -, hes⟩ | ⟨mid, hh, hrest⟩
  · exact absurd hx (hp x (by rw [hes]; simp))
  · cases mid with
    | nil => exact absurd hx (hp x (by rw [List.nil_append] at hrest; rw [← hrest]; simp))
    | cons y ys =>
      obtain ⟨rfl, rfl⟩ := List.cons.inj hrest
      obtain ⟨e', he', hq⟩ := hf pre x ys hh hx
      exact ⟨e', List.mem_append_left _ he', hq⟩

end Histories

end PulseCoap
