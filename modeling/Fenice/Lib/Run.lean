import Mathlib.Tactic.Common
import Mathlib.Logic.Relation

/-!
# Runs of a partial step function

A system is a step function `σ → α → Option σ`; `none` says that the action is
not enabled in the state. `exec` folds a list of actions, `GuardedRun` is a run
in which every action also meets a condition on the state it is taken in.
-/

namespace Fenice.Run

variable {σ α : Type*} (step : σ → α → Option σ) (guard : σ → α → Prop)

/-- Fold a list of actions over a state. -/
def exec : σ → List α → Option σ
  | s, [] => some s
  | s, a :: as => (step s a).bind fun t => exec t as

@[simp] theorem exec_nil (s : σ) : exec step s [] = some s := rfl

theorem exec_cons (s : σ) (a : α) (as : List α) :
    exec step s (a :: as) = (step s a).bind fun t => exec step t as := rfl

theorem exec_append {step : σ → α → Option σ} {s t u : σ} {as bs : List α}
    (h : exec step s as = some t) (ht : exec step t bs = some u) :
    exec step s (as ++ bs) = some u := by
  induction as generalizing s with
  | nil =>
    cases h
    exact ht
  | cons a as ih =>
    simp only [exec_cons, List.cons_append, Option.bind_eq_some_iff] at h ⊢
    obtain ⟨v, hv, h⟩ := h
    exact ⟨v, hv, ih h⟩

/-- A property that every step preserves holds at the end of a run that starts in it. -/
theorem exec_invariant {step : σ → α → Option σ} {Inv : σ → Prop}
    (hstep : ∀ s a t, Inv s → step s a = some t → Inv t) {s u : σ} {as : List α}
    (h : exec step s as = some u) (hs : Inv s) : Inv u := by
  induction as generalizing s with
  | nil =>
    cases h
    exact hs
  | cons a as ih =>
    obtain ⟨t, ht, hrest⟩ := Option.bind_eq_some_iff.mp h
    exact ih hrest (hstep _ _ _ hs ht)

/-- A run every step of which is taken in a state where `guard` allows it. -/
inductive GuardedRun : σ → List α → σ → Prop
  | nil (s) : GuardedRun s [] s
  | cons {s t u a as} (hg : guard s a) (hs : step s a = some t)
      (tail : GuardedRun t as u) : GuardedRun s (a :: as) u

variable {step guard}

theorem GuardedRun.exec_eq {s u : σ} {as : List α} (h : GuardedRun step guard s as u) :
    exec step s as = some u := by
  induction h with
  | nil s => rfl
  | cons hg hs tail ih => rw [exec_cons, hs]; exact ih

theorem GuardedRun.snoc {s t u : σ} {as : List α} {a : α} (h : GuardedRun step guard s as t)
    (hg : guard t a) (hs : step t a = some u) : GuardedRun step guard s (as ++ [a]) u := by
  induction h with
  | nil s => exact .cons hg hs (.nil _)
  | cons hg' hs' tail ih => exact .cons hg' hs' (ih hg hs)

theorem GuardedRun.mono {guard' : σ → α → Prop} (hg : ∀ s a, guard s a → guard' s a) {s u : σ}
    {as : List α} (h : GuardedRun step guard s as u) : GuardedRun step guard' s as u := by
  induction h with
  | nil s => exact .nil s
  | cons hguard hs tail ih => exact .cons (hg _ _ hguard) hs ih

/-- A property that every allowed step preserves holds at the end of a run
that starts in it. -/
theorem GuardedRun.invariant {Inv : σ → Prop}
    (hstep : ∀ s a t, Inv s → guard s a → step s a = some t → Inv t)
    {s u : σ} {as : List α} (h : GuardedRun step guard s as u) (hs : Inv s) : Inv u := by
  induction h with
  | nil s => exact hs
  | cons hg he tail ih => exact ih (hstep _ _ _ hs hg he)

/-- A relation between two systems that every allowed step keeps, the second
system moving by `rel` or standing still, carries over to runs. -/
theorem GuardedRun.simulation {τ : Type*} {rel : τ → τ → Prop} {Sim : σ → τ → Prop}
    (hstep : ∀ s a t x, Sim s x → guard s a → step s a = some t →
      ∃ y, Relation.ReflTransGen rel x y ∧ Sim t y)
    {s u : σ} {as : List α} (h : GuardedRun step guard s as u) {x : τ} (hs : Sim s x) :
    ∃ y, Relation.ReflTransGen rel x y ∧ Sim u y := by
  induction h generalizing x with
  | nil s => exact ⟨x, .refl, hs⟩
  | cons hg he tail ih =>
    obtain ⟨y, hxy, hy⟩ := hstep _ _ _ _ hs hg he
    obtain ⟨z, hyz, hz⟩ := ih hy
    exact ⟨z, hxy.trans hyz, hz⟩

/-- Whether a list of actions is a guarded run can be tested. -/
def allowed (step : σ → α → Option σ) (guard : σ → α → Prop)
    [∀ s a, Decidable (guard s a)] : σ → List α → Bool
  | _, [] => true
  | s, a :: as => decide (guard s a) && match step s a with
    | some t => allowed step guard t as
    | none => false

theorem GuardedRun.of_allowed [∀ s a, Decidable (guard s a)] {s u : σ} {as : List α}
    (h : allowed step guard s as = true) (he : exec step s as = some u) :
    GuardedRun step guard s as u := by
  induction as generalizing s with
  | nil =>
    cases he
    exact .nil _
  | cons a as ih =>
    simp only [allowed, Bool.and_eq_true, decide_eq_true_eq] at h
    obtain ⟨hg, ht⟩ := h
    rw [exec_cons] at he
    cases hs : step s a with
    | none =>
      rw [hs] at he
      cases he
    | some t =>
      rw [hs] at he ht
      exact .cons hg hs (ih ht he)

/-- The condition holds of every action on the way, as far as the steps succeed. -/
def Along (step : σ → α → Option σ) (guard : σ → α → Prop) : σ → List α → Prop
  | _, [] => True
  | s, a :: as => guard s a ∧ ∀ t ∈ step s a, Along step guard t as

instance Along.decidable [∀ s a, Decidable (guard s a)] :
    ∀ s as, Decidable (Along step guard s as)
  | _, [] => isTrue trivial
  | s, a :: as =>
    have : ∀ t, Decidable (Along step guard t as) := fun t => Along.decidable t as
    inferInstanceAs (Decidable (guard s a ∧ ∀ t ∈ step s a, Along step guard t as))

/-- If allowed steps succeed and preserve a property of the state and the actions
to come, a run along which the condition holds goes to its end. -/
theorem Along.run {Inv : σ → List α → Prop}
    (hstep : ∀ s a as, Inv s (a :: as) → guard s a → ∃ t, step s a = some t ∧ Inv t as)
    {s : σ} {as : List α} (h : Along step guard s as) (hs : Inv s as) :
    ∃ t, exec step s as = some t ∧ Inv t [] := by
  induction as generalizing s with
  | nil => exact ⟨s, rfl, hs⟩
  | cons a as ih =>
    obtain ⟨hg, htail⟩ := h
    obtain ⟨t, ht, hi⟩ := hstep s a as hs hg
    obtain ⟨u, hu, hiu⟩ := ih (htail t ht) hi
    refine ⟨u, ?_, hiu⟩
    rw [exec_cons, ht]
    exact hu

end Fenice.Run
