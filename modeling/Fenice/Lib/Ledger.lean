import Mathlib.Data.List.Perm.Subperm
import Mathlib.Tactic.Common

/-!
# Two allocators

A program gets its blocks from one of two allocators and has to give each back to the one that
it came from. The calls that were made stand in a list, the last one first. What the program has
to do is to hand to `xfree` only blocks that the tracked allocator gave out and that are not
released yet, and none of those to `free` or `realloc`.
-/

namespace Fenice.Ledger
open List

variable {α : Type*}

/-- A call with the block that it returns or releases. -/
inductive Call (α : Type*) where
  | xalloc (a : α)
  | xfree (a : α)
  | alloc (a : α)
  | free (a : α)
  | realloc (a b : α)
  deriving DecidableEq

section Calls

variable [DecidableEq α]

/-- The blocks of the tracked allocator that are not released yet. -/
def tracked : List (Call α) → List α
  | [] => []
  | .xalloc a :: log => a :: tracked log
  | .alloc _ :: log => tracked log
  | .xfree a :: log | .free a :: log | .realloc a _ :: log => (tracked log).erase a

/-- The blocks of both allocators that are not released yet. -/
def inUse : List (Call α) → List α
  | [] => []
  | .xalloc a :: log | .alloc a :: log => a :: inUse log
  | .xfree a :: log | .free a :: log => (inUse log).erase a
  | .realloc a b :: log => b :: (inUse log).erase a

/-- A block goes back to the allocator that it came from. -/
def Paired : List (Call α) → Prop
  | [] => True
  | .xalloc _ :: log | .alloc _ :: log => Paired log
  | .xfree a :: log => a ∈ tracked log ∧ Paired log
  | .free a :: log | .realloc a _ :: log => a ∉ tracked log ∧ Paired log

/-- A new block is not the null pointer, and none that is in use. -/
def Fresh (null : α) : List (Call α) → Prop
  | [] => True
  | .xalloc a :: log | .alloc a :: log => a ≠ null ∧ a ∉ inUse log ∧ Fresh null log
  | .xfree _ :: log | .free _ :: log => Fresh null log
  | .realloc a b :: log => b ≠ null ∧ b ∉ (inUse log).erase a ∧ Fresh null log

/-- A program that has kept to the allocators and still has the tracked blocks `owned`. -/
structure Keeps (null : α) (log : List (Call α)) (owned : List α) : Prop where
  fresh : Fresh null log
  paired : Paired log
  owns : owned <+~ tracked log

end Calls

section Blocks

variable [DecidableEq α] {null a : α} {log : List (Call α)} {owned owned' : List α}

/-- A block of the tracked allocator is not given out again before it is released. -/
theorem tracked_sublist (h : Fresh null log) (hp : Paired log) : tracked log <+ inUse log := by
  induction log with
  | nil => exact .slnil
  | cons c log ih =>
    cases c with
    | xalloc a => exact (ih h.2.2 hp).cons_cons a
    | alloc a => exact (ih h.2.2 hp).cons a
    | xfree a | free a => exact (ih h hp.2).erase a
    | realloc a b => exact ((ih h.2.2 hp.2).erase a).cons b

theorem xalloc_mem_of_tracked (h : a ∈ tracked log) : .xalloc a ∈ log := by
  induction log with
  | nil => cases h
  | cons c log ih =>
    cases c with
    | xalloc b =>
      rcases mem_cons.mp h with rfl | h
      · exact mem_cons_self
      · exact mem_cons_of_mem _ (ih h)
    | alloc b => exact mem_cons_of_mem _ (ih h)
    | xfree b | free b | realloc b b' => exact mem_cons_of_mem _ (ih (mem_of_mem_erase h))

theorem length_tracked_le : (tracked log).length ≤ log.length := by
  induction log with
  | nil => exact Nat.le_refl _
  | cons c log ih =>
    rw [length_cons]
    cases c with
    | xalloc b => exact Nat.succ_le_succ ih
    | alloc b => exact Nat.le_succ_of_le ih
    | xfree b | free b | realloc b b' =>
      exact Nat.le_succ_of_le (Nat.le_trans length_erase_le ih)

namespace Keeps

theorem nil : Keeps null ([] : List (Call α)) [] := ⟨trivial, trivial, .refl _⟩

theorem weaken (h : Keeps null log owned) (hsub : owned' <+~ owned) : Keeps null log owned' :=
  ⟨h.fresh, h.paired, hsub.trans h.owns⟩

theorem forget (h : Keeps null log (a :: owned)) : Keeps null log owned :=
  h.weaken (sublist_cons_self a owned).subperm

theorem xalloc (h : Keeps null log owned) (hnull : a ≠ null) (ha : a ∉ inUse log) :
    Keeps null (.xalloc a :: log) (a :: owned) :=
  ⟨⟨hnull, ha, h.fresh⟩, h.paired, (subperm_cons a).mpr h.owns⟩

theorem xfree (h : Keeps null log (a :: owned)) : Keeps null (.xfree a :: log) owned := by
  have howns := h.owns.erase a
  rw [erase_cons_head] at howns
  exact ⟨h.fresh, ⟨h.owns.subset mem_cons_self, h.paired⟩, howns⟩

theorem alloc (h : Keeps null log owned) (hnull : a ≠ null) (ha : a ∉ inUse log) :
    Keeps null (.alloc a :: log) owned :=
  ⟨⟨hnull, ha, h.fresh⟩, h.paired, h.owns⟩

theorem free (h : Keeps null log owned) (ha : a ∉ tracked log) :
    Keeps null (.free a :: log) owned := by
  have hsame : tracked (.free a :: log) = tracked log := erase_of_not_mem ha
  refine ⟨h.fresh, ⟨ha, h.paired⟩, ?_⟩
  rw [hsame]
  exact h.owns

theorem alloc_free (h : Keeps null log owned) (hnull : a ≠ null) (ha : a ∉ inUse log) :
    Keeps null (.free a :: .alloc a :: log) owned :=
  (h.alloc hnull ha).free fun hmem => ha ((tracked_sublist h.fresh h.paired).subset hmem)

end Keeps

end Blocks

end Fenice.Ledger
