import Mathlib.Tactic.Common
import Mathlib.Tactic.Linarith
import Mathlib.Logic.Function.Iterate
import Mathlib.Data.Fintype.EquivFin
import Mathlib.Data.List.Perm.Subperm
import Mathlib.Data.Nat.ModEq

/-!
# Cyclic successor functions

A ring of `n` elements under a successor function `next` is given by the order
`ord` in which the elements are met: `ord 0, ord 1, …, ord (n - 1)` are
distinct, each is followed by the one after it and the last one by the first.
-/

namespace Fenice.Ring

variable {α : Type*}

structure IsRing (next : α → α) (ord : ℕ → α) (n : ℕ) : Prop where
  pos : 0 < n
  inj : ∀ i < n, ∀ j < n, ord i = ord j → i = j
  succ : ∀ i, i + 1 < n → next (ord i) = ord (i + 1)
  wrap : next (ord (n - 1)) = ord 0

namespace IsRing

variable {next : α → α} {ord : ℕ → α} {n : ℕ}

theorem ne (h : IsRing next ord n) {i j : ℕ} (hi : i < n) (hj : j < n) (hij : i ≠ j) :
    ord i ≠ ord j := fun he => hij (h.inj i hi j hj he)

theorem next_mem (h : IsRing next ord n) {i : ℕ} (hi : i < n) :
    ∃ j < n, next (ord i) = ord j := by
  by_cases hl : i + 1 < n
  · exact ⟨i + 1, hl, h.succ i hl⟩
  · have he : i = n - 1 := by omega
    exact ⟨0, h.pos, he ▸ h.wrap⟩

theorem iterate (h : IsRing next ord n) {i k : ℕ} (hk : i + k < n) :
    next^[k] (ord i) = ord (i + k) := by
  induction k with
  | zero => rfl
  | succ k ih =>
    rw [Function.iterate_succ_apply', ih (by omega), h.succ _ (by omega)]
    rfl

theorem index_of_lt {next ord : ℕ → ℕ} (h : IsRing next ord n)
    (hb : ∀ i < n, ord i < n) {s : ℕ} (hs : s < n) : ∃ i < n, s = ord i := by
  let f : Fin n → Fin n := fun i => ⟨ord i, hb i i.isLt⟩
  have hinj : Function.Injective f := by
    intro i j he
    exact Fin.ext (h.inj i i.isLt j j.isLt (congrArg Fin.val he))
  obtain ⟨i, hi⟩ := Finite.injective_iff_surjective.mp hinj ⟨s, hs⟩
  exact ⟨i, i.isLt, (congrArg Fin.val hi).symm⟩

theorem iterate_mod (h : IsRing next ord n) {i : ℕ} (hi : i < n) (k : ℕ) :
    next^[k] (ord i) = ord ((i + k) % n) := by
  induction k with
  | zero => rw [Nat.add_zero, Nat.mod_eq_of_lt hi, Function.iterate_zero_apply]
  | succ k ih =>
    have hlt : (i + k) % n < n := Nat.mod_lt _ h.pos
    rw [Function.iterate_succ_apply', ih, ← Nat.add_assoc, ← Nat.mod_add_mod (i + k) n 1]
    by_cases hl : (i + k) % n + 1 < n
    · rw [h.succ _ hl, Nat.mod_eq_of_lt hl]
    · have he : (i + k) % n = n - 1 := by omega
      rw [he, h.wrap, Nat.sub_add_cancel h.pos, Nat.mod_self]

theorem iterate_self (h : IsRing next ord n) {i : ℕ} (hi : i < n) :
    next^[n] (ord i) = ord i := by
  rw [h.iterate_mod hi, Nat.add_mod_right, Nat.mod_eq_of_lt hi]

theorem perm_range {next ord : ℕ → ℕ} (h : IsRing next ord n) (hb : ∀ i < n, ord i < n) {i : ℕ}
    (hi : i < n) : List.Perm ((List.range n).map fun k => next^[k] (ord i)) (List.range n) := by
  have hnodup : ((List.range n).map fun k => next^[k] (ord i)).Nodup := by
    refine List.Nodup.map_on ?_ List.nodup_range
    intro j hj k hk he
    rw [List.mem_range] at hj hk
    rw [h.iterate_mod hi, h.iterate_mod hi] at he
    have hmod := h.inj _ (Nat.mod_lt _ h.pos) _ (Nat.mod_lt _ h.pos) he
    have hjk : j ≡ k [MOD n] := Nat.ModEq.add_left_cancel' i hmod
    exact Nat.ModEq.eq_of_lt_of_lt hjk hj hk
  have hsub : ((List.range n).map fun k => next^[k] (ord i)) ⊆ List.range n := by
    intro x hx
    obtain ⟨k, -, rfl⟩ := List.mem_map.mp hx
    rw [h.iterate_mod hi, List.mem_range]
    exact hb _ (Nat.mod_lt _ h.pos)
  exact (List.subperm_of_subset hnodup hsub).perm_of_length_le (by simp)

theorem congr (h : IsRing next ord n) {next' : α → α}
    (he : ∀ i < n, next' (ord i) = next (ord i)) : IsRing next' ord n where
  pos := h.pos
  inj := h.inj
  succ := fun i hi => (he i (by omega)).trans (h.succ i hi)
  wrap := (he (n - 1) (by have := h.pos; omega)).trans h.wrap

end IsRing

/-- The order read from its second element on, the first one coming last. -/
def rotate (ord : ℕ → α) (n : ℕ) : ℕ → α :=
  fun i => if i + 1 < n then ord (i + 1) else ord 0

theorem rotate_of_lt {ord : ℕ → α} {n i : ℕ} (h : i + 1 < n) :
    rotate ord n i = ord (i + 1) := if_pos h

theorem rotate_last {ord : ℕ → α} {n : ℕ} (h : 0 < n) : rotate ord n (n - 1) = ord 0 :=
  if_neg (by omega)

theorem IsRing.rotate {next : α → α} {ord : ℕ → α} {n : ℕ} (h : IsRing next ord n) :
    IsRing next (rotate ord n) n where
  pos := h.pos
  inj := by
    intro i hi j hj he
    unfold Ring.rotate at he
    split at he <;> split at he
    · have := h.inj _ ‹_› _ ‹_› he; omega
    · have := h.inj _ ‹_› _ h.pos he; omega
    · have := h.inj _ h.pos _ ‹_› he; omega
    · omega
  succ := by
    intro i hi
    rw [rotate_of_lt hi, h.succ i hi |>.symm]
    unfold Ring.rotate
    split
    · rw [h.succ i hi, h.succ (i + 1) ‹_›]
    · have hl : i + 1 = n - 1 := by omega
      rw [h.succ i hi, hl, h.wrap]
  wrap := by
    rw [rotate_last h.pos]
    unfold Ring.rotate
    split
    · exact h.succ 0 ‹_›
    · have hn : n - 1 = 0 := by omega
      have hw := h.wrap
      rwa [hn] at hw

/-- The order of a ring before whose first element `k` new ones are inserted. -/
def splice (page ord : ℕ → α) (k : ℕ) : ℕ → α :=
  fun i => if i < k then page i else ord (i - k)

theorem splice_of_lt {page ord : ℕ → α} {k i : ℕ} (h : i < k) :
    splice page ord k i = page i := if_pos h

theorem splice_of_le {page ord : ℕ → α} {k i : ℕ} (h : k ≤ i) :
    splice page ord k i = ord (i - k) := if_neg (by omega)

theorem IsRing.splice {next next' : α → α} {page ord : ℕ → α} {n k : ℕ}
    (h : IsRing next ord n) (hk : 0 < k)
    (hinj : ∀ i < k, ∀ j < k, page i = page j → i = j)
    (hdisj : ∀ i < k, ∀ j < n, page i ≠ ord j)
    (hpage : ∀ i, i + 1 < k → next' (page i) = page (i + 1))
    (hout : next' (page (k - 1)) = ord 0)
    (hin : next' (ord (n - 1)) = page 0)
    (hold : ∀ i, i + 1 < n → next' (ord i) = next (ord i)) :
    IsRing next' (splice page ord k) (n + k) where
  pos := by omega
  inj := by
    intro i hi j hj he
    unfold Ring.splice at he
    split at he <;> split at he
    · exact hinj i ‹_› j ‹_› he
    · exact absurd he (hdisj i ‹_› (j - k) (by omega))
    · exact absurd he.symm (hdisj j ‹_› (i - k) (by omega))
    · have := h.inj _ (by omega) _ (by omega) he; omega
  succ := by
    intro i hi
    have hp := h.pos
    rcases Nat.lt_trichotomy (i + 1) k with hlt | heq | hgt
    · rw [splice_of_lt (by omega), splice_of_lt hlt, hpage i hlt]
    · rw [splice_of_lt (by omega), splice_of_le (by omega), show i + 1 - k = 0 by omega,
        show i = k - 1 by omega, hout]
    · rw [splice_of_le (by omega), splice_of_le (by omega), hold _ (by omega),
        h.succ _ (by omega), show i - k + 1 = i + 1 - k by omega]
  wrap := by
    have hp := h.pos
    rw [splice_of_le (by omega), splice_of_lt hk, show n + k - 1 - k = n - 1 by omega, hin]

end Fenice.Ring
