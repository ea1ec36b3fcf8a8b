import Mathlib.Data.List.Basic
import Mathlib.Data.List.Lemmas
import Mathlib.Tactic.Ring

/-!
# Messages in blocks

A message is cut into blocks of `n` elements, and what is left is shorter than a block. A
consumer that is fed in pieces keeps the state behind the complete blocks and the rest.
-/

namespace Fenice.Blocks

variable {α σ : Type*} {n : ℕ} {f : σ → List α → σ} {s₀ s : σ} {l m p : List α}

def blocks (n : ℕ) (l : List α) : List (List α) :=
  (List.range (l.length / n)).map fun i => (l.drop (n * i)).take n

/-- What stands behind the last complete block. -/
def rest (n : ℕ) (l : List α) : List α := l.drop (n * (l.length / n))

theorem length_rest (n : ℕ) (l : List α) : (rest n l).length = l.length % n := by
  rw [rest, List.length_drop, Nat.mod_eq_sub]

theorem rest_short (hn : 0 < n) (l : List α) : (rest n l).length < n := by
  rw [length_rest]
  exact Nat.mod_lt _ hn

theorem blocks_of_short (h : l.length < n) : blocks n l = [] := by
  rw [blocks, Nat.div_eq_of_lt h]
  rfl

theorem rest_of_short (h : l.length < n) : rest n l = l := by
  rw [rest, Nat.div_eq_of_lt h]
  rfl

theorem blocks_append_block (hn : 0 < n) (hl : l.length = n) (m : List α) :
    blocks n (l ++ m) = l :: blocks n m := by
  have hdiv : (l ++ m).length / n = m.length / n + 1 := by
    rw [List.length_append, hl, Nat.add_comm, Nat.add_div_right _ hn]
  rw [blocks, hdiv, List.range_succ_eq_map, List.map_cons, List.map_map, Nat.mul_zero,
    List.drop_zero, List.take_left' hl]
  refine congrArg (l :: ·) (List.map_congr_left fun i _ => ?_)
  have hdrop : n * Nat.succ i = l.length + n * i := by
    rw [hl, Nat.mul_succ, Nat.add_comm]
  rw [Function.comp_apply, hdrop, List.drop_length_add_append]

theorem rest_append_block (hn : 0 < n) (hl : l.length = n) (m : List α) :
    rest n (l ++ m) = rest n m := by
  have hdiv : n * ((l ++ m).length / n) = l.length + n * (m.length / n) := by
    rw [List.length_append, hl, Nat.add_comm n, Nat.add_div_right _ hn, Nat.mul_succ, Nat.add_comm]
  rw [rest, hdiv, List.drop_length_add_append]
  rfl

theorem append_eq (hn : 0 < n) (l m : List α) :
    blocks n (l ++ m) = blocks n l ++ blocks n (rest n l ++ m) ∧
      rest n (l ++ m) = rest n (rest n l ++ m) := by
  induction h : l.length using Nat.strong_induction_on generalizing l with
  | _ k ih =>
    by_cases hshort : l.length < n
    · rw [blocks_of_short hshort, rest_of_short hshort]
      exact ⟨rfl, rfl⟩
    · have hfirst : (l.take n).length = n := by
        rw [List.length_take, min_eq_left (Nat.not_lt.mp hshort)]
      have hlt : (l.drop n).length < k := by
        rw [List.length_drop]
        omega
      obtain ⟨hblocks, hrest⟩ := ih _ hlt (l.drop n) rfl
      have hl : blocks n l = l.take n :: blocks n (l.drop n) ∧ rest n l = rest n (l.drop n) := by
        rw [← blocks_append_block hn hfirst, ← rest_append_block hn hfirst (l.drop n),
          List.take_append_drop]
        exact ⟨rfl, rfl⟩
      have hlm : l ++ m = l.take n ++ (l.drop n ++ m) := by
        rw [← List.append_assoc, List.take_append_drop]
      rw [hlm, blocks_append_block hn hfirst, rest_append_block hn hfirst, hblocks, hrest, hl.1,
        hl.2]
      exact ⟨rfl, rfl⟩

/-- The state and the rest behind the message `l`. -/
structure Fed (n : ℕ) (f : σ → List α → σ) (s₀ : σ) (l : List α) (s : σ) (p : List α) : Prop where
  state : s = (blocks n l).foldl f s₀
  kept : p = rest n l

theorem Fed.nil : Fed n f s₀ [] s₀ [] := by
  refine ⟨?_, ?_⟩
  · rw [blocks, List.length_nil, Nat.zero_div]
    rfl
  · rw [rest, List.drop_nil]

theorem Fed.feed (h : Fed n f s₀ l s p) (hn : 0 < n) (m : List α) :
    Fed n f s₀ (l ++ m) ((blocks n (p ++ m)).foldl f s) (rest n (p ++ m)) := by
  obtain ⟨hblocks, hrest⟩ := append_eq hn l m
  refine ⟨?_, ?_⟩
  · rw [hblocks, List.foldl_append, ← h.state, h.kept]
  · rw [hrest, h.kept]

theorem Fed.length (h : Fed n f s₀ l s p) : p.length = l.length % n := by
  rw [h.kept, length_rest]

theorem Fed.complete (h : Fed n f s₀ l s p) (hl : l.length % n = 0) : p = [] := by
  rw [← List.length_eq_zero_iff, h.length, hl]

end Fenice.Blocks
