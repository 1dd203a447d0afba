import Mathlib.Data.List.Basic

/-! # Runs and their histories

A run of a step relation, with the list of its steps, the most recent first. Each entry keeps the
state before and after it, so that what happened earlier can be said of the history alone. `Allowed ok`
restricts a run to steps that meet `ok`, which may look at the history before the step.

`Run.invariant` is the induction over runs: what holds at the start and is kept by every allowed step
holds after every allowed run. Where exactly the allowed steps keep it, exactly the allowed runs do
(`Run.good_iff`). `Run.simulate` carries runs of one system over to another. `Run.since` finds the step that brought
about what holds now. -/

namespace Blitzd.Lib

variable {σ ε : Type*}

structure Entry (σ ε : Type*) where
  before : σ
  event : ε
  after : σ

/-- `h` is a run from `s₀` to the last state. -/
inductive Run (step : σ → ε → σ → Prop) (s₀ : σ) : List (Entry σ ε) → σ → Prop
  | nil : Run step s₀ [] s₀
  | snoc {h : List (Entry σ ε)} {s s' : σ} {e : ε} :
      Run step s₀ h s → step s e s' → Run step s₀ (⟨s, e, s'⟩ :: h) s'

/-- Every step of the history met the condition, given the history before it. -/
def Allowed (ok : List (Entry σ ε) → σ → ε → Prop) : List (Entry σ ε) → Prop
  | [] => True
  | x :: h => ok h x.before x.event ∧ Allowed ok h

variable {step : σ → ε → σ → Prop} {s₀ s : σ} {ok : List (Entry σ ε) → σ → ε → Prop}

/-- **The invariant rule**, for invariants that may speak of the history. -/
theorem Run.invariant {I : List (Entry σ ε) → σ → Prop} (h0 : I [] s₀)
    (hstep : ∀ {h s e s'}, I h s → ok h s e → step s e s' → I (⟨s, e, s'⟩ :: h) s')
    {h : List (Entry σ ε)} (hr : Run step s₀ h s) (hok : Allowed ok h) : I h s := by
  induction hr with
  | nil => exact h0
  | snoc _ hs ih => exact hstep (ih hok.2) hok.1 hs

/-- The rule for runs of any steps. -/
theorem Run.always {I : σ → Prop} (h0 : I s₀) (hstep : ∀ {s e s'}, I s → step s e s' → I s')
    {h : List (Entry σ ε)} (hr : Run step s₀ h s) : I s := by
  induction hr with
  | nil => exact h0
  | snoc _ hs ih => exact hstep ih hs

theorem Run.one {e : ε} {s' : σ} (h : step s e s') : Run step s [⟨s, e, s'⟩] s' := .snoc .nil h

theorem Run.trans {h h' : List (Entry σ ε)} {s' : σ} (hr : Run step s₀ h s) (hr' : Run step s h' s') :
    Run step s₀ (h' ++ h) s' := by
  induction hr' with
  | nil => exact hr
  | snoc _ hs ih => exact .snoc ih hs

/-- **Simulation**: where each step of one system is a run of another, so is each of its runs. `f` is what the other
system sees of a state. -/
theorem Run.simulate {σ' ε' : Type*} {step' : σ' → ε' → σ' → Prop} {f : σ' → σ} {I : σ' → Prop} {t₀ t : σ'}
    {k : List (Entry σ' ε')} (hI : I t₀)
    (hstep : ∀ {t e t'}, I t → step' t e t' → I t' ∧ ∃ h, Run step (f t) h (f t')) (hr : Run step' t₀ k t) :
    I t ∧ ∃ h, Run step (f t₀) h (f t) := by
  induction hr with
  | nil => exact ⟨hI, [], .nil⟩
  | snoc _ hs ih =>
    obtain ⟨hIt, h, hrun⟩ := ih
    obtain ⟨hIt', h', hrun'⟩ := hstep hIt hs
    exact ⟨hIt', h' ++ h, hrun.trans hrun'⟩

/-- There was an entry `A`, which may look at the history before it, and none since then was `Q`. -/
def Since (Q : Entry σ ε → Prop) (A : Entry σ ε → List (Entry σ ε) → Prop) (h : List (Entry σ ε)) : Prop :=
  ∃ newer x older, h = newer ++ x :: older ∧ A x older ∧ ∀ y ∈ newer, ¬ Q y

/-- **What holds now was brought about**: a property that does not hold at the start, and that a step that is not `A`
and ends in it has found already, holds since a step that was `A`. -/
theorem Run.since {β : Type*} {P : σ → β → Prop} {Q : Entry σ ε → Prop} {A : β → Entry σ ε → List (Entry σ ε) → Prop}
    (h0 : ∀ b, ¬ P s₀ b)
    (hstep : ∀ {h s e s' b}, Run step s₀ h s → step s e s' → P s' b → A b ⟨s, e, s'⟩ h ∨ P s b ∧ ¬ Q ⟨s, e, s'⟩)
    {h : List (Entry σ ε)} {b : β} (hr : Run step s₀ h s) (hb : P s b) : Since Q (A b) h := by
  induction hr with
  | nil => exact absurd hb (h0 b)
  | snoc hr hs ih =>
    rcases hstep hr hs hb with hA | ⟨hP, hQ⟩
    · exact ⟨[], _, _, rfl, hA, fun y hy => by cases hy⟩
    · obtain ⟨newer, x, older, rfl, hA, hnewer⟩ := ih hP
      exact ⟨_ :: newer, x, older, rfl, hA, List.forall_mem_cons.mpr ⟨hQ, hnewer⟩⟩

/-- Steps from good states keep an invariant, and lead to good states exactly when they meet `ok`. -/
theorem Run.good_iff {I P : σ → Prop} {ok : σ → ε → Prop} (hI : I s₀) (hP : P s₀)
    (hstep : ∀ {s e s'}, I s → P s → step s e s' → I s' ∧ (P s' ↔ ok s e))
    {h : List (Entry σ ε)} (hr : Run step s₀ h s) :
    (∀ x ∈ h, P x.after) ↔ Allowed (fun _ => ok) h := by
  have hboth : ((∀ x ∈ h, P x.after) → I s ∧ P s) ∧ ((∀ x ∈ h, P x.after) ↔ Allowed (fun _ => ok) h) := by
    induction hr with
    | nil => exact ⟨fun _ => ⟨hI, hP⟩, iff_of_true (fun x hx => by cases hx) trivial⟩
    | snoc hr hs ih =>
      obtain ⟨hlast, hiff⟩ := ih
      rw [List.forall_mem_cons, Allowed, ← hiff]
      constructor
      · rintro ⟨hnew, hold⟩
        obtain ⟨hIs, hPs⟩ := hlast hold
        exact ⟨(hstep hIs hPs hs).1, hnew⟩
      · refine and_congr_left fun hold => ?_
        obtain ⟨hIs, hPs⟩ := hlast hold
        exact (hstep hIs hPs hs).2
  exact hboth.2

end Blitzd.Lib
