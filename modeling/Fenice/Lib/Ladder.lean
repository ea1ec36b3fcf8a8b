import Mathlib.Order.Bounds.Basic
import Mathlib.Data.List.Basic
import Mathlib.Tactic.Common

/-!
# Ladders

A list of rungs in strict order, with the switch statements that climb it: a case for each rung
tries the next one and falls through to the case of that. What is tried from a rung on are the
rungs beyond it, in order, so that the first one that is available is the nearest.
-/

namespace Fenice.Ladder

variable {α β : Type*}

/-- What the cases of a switch try from the label `v` on, each falling through to the next. -/
def fallThrough [DecidableEq α] (cases : List (α × β)) (v : α) : List β :=
  (cases.dropWhile fun c => c.1 ≠ v).map Prod.snd

/-- Each rung with the next one. -/
def steps (l : List α) : List (α × α) := l.zip l.tail

theorem map_snd_steps (l : List α) : (steps l).map Prod.snd = l.tail := by
  rw [steps, List.map_snd_zip]
  rw [List.length_tail]
  omega

section Relation

variable {r : α → α → Prop} [DecidableRel r] [DecidableEq α]

theorem fallThrough_steps (hirrefl : ∀ a, ¬ r a a) (hasymm : ∀ a b, r a b → ¬ r b a) {l : List α}
    (hl : l.Pairwise r) {x : α} (hx : x ∈ l) :
    fallThrough (steps l) x = l.filter fun y => r x y := by
  induction l with
  | nil => cases hx
  | cons a l ih =>
    obtain ⟨ha, hl⟩ := List.pairwise_cons.mp hl
    rcases eq_or_ne a x with rfl | hne
    · have hkept : (steps (a :: l)).dropWhile (fun c => c.1 ≠ a) = steps (a :: l) := by
        cases l with
        | nil => rfl
        | cons b l => simp [steps]
      have hall : l.filter (fun y => r a y) = l := List.filter_eq_self.mpr (by simpa using ha)
      rw [fallThrough, hkept, map_snd_steps, List.tail_cons, List.filter_cons,
        if_neg (mt of_decide_eq_true (hirrefl a)), hall]
    · have hxl : x ∈ l := (List.mem_cons.mp hx).resolve_left hne.symm
      have hskip : fallThrough (steps (a :: l)) x = fallThrough (steps l) x := by
        cases l with
        | nil => cases hxl
        | cons b l => simp [fallThrough, steps, hne]
      have hback := hasymm a x (ha x hxl)
      rw [hskip, ih hl hxl, List.filter_cons, if_neg (mt of_decide_eq_true hback)]

end Relation

section Order

variable [LinearOrder α] {p : α → Bool} {l : List α} {x y : α}

theorem fallThrough_up (hl : l.Pairwise (· < ·)) (hx : x ∈ l) :
    fallThrough (steps l) x = l.filter fun y => x < y :=
  fallThrough_steps (fun _ => lt_irrefl _) (fun _ _ h => lt_asymm h) hl hx

theorem fallThrough_down (hl : l.Pairwise (· > ·)) (hx : x ∈ l) :
    fallThrough (steps l) x = l.filter fun y => x > y :=
  fallThrough_steps (r := (· > ·)) (fun _ => lt_irrefl _) (fun _ _ h => lt_asymm h) hl hx

theorem isLeast_of_find? (hl : l.Pairwise (· < ·)) (h : l.find? p = some x) :
    IsLeast {y | y ∈ l ∧ p y = true} x := by
  refine ⟨⟨List.mem_of_find?_eq_some h, List.find?_some h⟩, ?_⟩
  rintro y ⟨hy, hpy⟩
  induction l with
  | nil => cases hy
  | cons a l ih =>
    obtain ⟨ha, hl⟩ := List.pairwise_cons.mp hl
    by_cases hpa : p a = true
    · rw [List.find?_cons_of_pos hpa] at h
      cases h
      rcases List.mem_cons.mp hy with rfl | hy
      · exact le_rfl
      · exact (ha y hy).le
    · rw [List.find?_cons_of_neg hpa] at h
      rcases List.mem_cons.mp hy with rfl | hy
      · exact absurd hpy hpa
      · exact ih hl h hy

theorem isGreatest_of_find? (hl : l.Pairwise (· > ·)) (h : l.find? p = some x) :
    IsGreatest {y | y ∈ l ∧ p y = true} x :=
  isLeast_of_find? (α := αᵒᵈ) hl h

variable {s : Set α}

theorem isGreatest_below (hx : x ∈ s) (h : IsLeast {z | z ∈ s ∧ x < z} y) :
    IsGreatest {z | z ∈ s ∧ z < y} x := by
  refine ⟨⟨hx, h.1.2⟩, ?_⟩
  rintro z ⟨hz, hzy⟩
  by_contra hlt
  exact absurd (h.2 ⟨hz, not_le.mp hlt⟩) (not_le.mpr hzy)

theorem isLeast_above (hx : x ∈ s) (h : IsGreatest {z | z ∈ s ∧ z < x} y) :
    IsLeast {z | z ∈ s ∧ y < z} x := by
  refine ⟨⟨hx, h.1.2⟩, ?_⟩
  rintro z ⟨hz, hyz⟩
  by_contra hlt
  exact absurd (h.2 ⟨hz, not_le.mp hlt⟩) (not_le.mpr hyz)

end Order

end Fenice.Ladder
