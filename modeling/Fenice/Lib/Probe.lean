import Mathlib.Data.Finset.Card
import Mathlib.Data.Nat.Find
import Mathlib.Logic.Function.Basic
import Mathlib.Order.Interval.Finset.Nat
import Mathlib.Tactic.Common

/-!
# Open addressing with linear probing

A table of `n` positions. An entry is looked for from its home position on, around the end of
the table, up to the first empty position. `Sound` is what makes every entry found, `Holed` what
is left of it when one position has been emptied.
-/

namespace Fenice.Probe

variable {α : Type*}

/-- How far `y` is behind `x`, around the end of the table. -/
def dist (n x y : ℕ) : ℕ := (y + n - x) % n

/-- Look for `a` from position `i` on; `none` if neither `a` nor an empty position is met. -/
def find [DecidableEq α] (n : ℕ) (t : ℕ → Option α) (a : α) : ℕ → ℕ → Option ℕ
  | 0, _ => none
  | fuel + 1, i =>
    if t i = none then some i
    else if t i = some a then some i
    else find n t a fuel ((i + 1) % n)

/-- Every entry stands once in the table, and no position between its home and itself is empty. -/
structure Sound (n : ℕ) (home : α → ℕ) (t : ℕ → Option α) : Prop where
  reach : ∀ x < n, ∀ a, t x = some a → ∀ k < dist n (home a) x, t ((home a + k) % n) ≠ none
  once : ∀ x < n, ∀ y < n, ∀ a, t x = some a → t y = some a → x = y

/-- The same with one empty position `g` that the walks may meet. -/
structure Holed (n : ℕ) (home : α → ℕ) (t : ℕ → Option α) (g : ℕ) : Prop where
  empty : t g = none
  reach : ∀ x < n, ∀ a, t x = some a → ∀ k < dist n (home a) x,
    t ((home a + k) % n) ≠ none ∨ (home a + k) % n = g
  once : ∀ x < n, ∀ y < n, ∀ a, t x = some a → t y = some a → x = y

/-- The walk from `h` to `x` goes over `g`. -/
def Passes (n h x g : ℕ) : Prop := dist n h g < dist n h x

instance (n h x g : ℕ) : Decidable (Passes n h x g) := inferInstanceAs (Decidable (_ < _))

section Dist

variable {n x y d : ℕ}

theorem dist_lt (hn : 0 < n) (x y : ℕ) : dist n x y < n := Nat.mod_lt _ hn

theorem add_dist (hx : x < n) (hy : y < n) : (x + dist n x y) % n = y := by
  rw [dist, Nat.add_mod_mod, show x + (y + n - x) = y + n by omega, Nat.add_mod_right,
    Nat.mod_eq_of_lt hy]

theorem dist_add (hx : x < n) (hd : d < n) : dist n x ((x + d) % n) = d := by
  rw [dist]
  by_cases hlt : x + d < n
  · rw [Nat.mod_eq_of_lt hlt, show x + d + n - x = d + n by omega, Nat.add_mod_right,
      Nat.mod_eq_of_lt hd]
  · have hwrap : (x + d) % n = x + d - n := by
      rw [Nat.mod_eq_sub_mod (by omega), Nat.mod_eq_of_lt (by omega)]
    rw [hwrap, show x + d - n + n - x = d by omega, Nat.mod_eq_of_lt hd]

theorem dist_self : dist n x x = 0 := by
  rw [dist, Nat.add_sub_cancel_left, Nat.mod_self]

end Dist

section Find

variable [DecidableEq α] {n : ℕ} {home : α → ℕ} {t : ℕ → Option α} {a : α} {i x d fuel : ℕ}

/-- A walk ends at the first position that is empty or holds what is looked for. -/
theorem find_walk (hi : i < n) (hd : ∀ k < d, t ((i + k) % n) ≠ none ∧ t ((i + k) % n) ≠ some a)
    (hend : t ((i + d) % n) = none ∨ t ((i + d) % n) = some a) (hfuel : d < fuel) :
    find n t a fuel i = some ((i + d) % n) := by
  induction d generalizing i fuel with
  | zero =>
    rw [Nat.add_zero, Nat.mod_eq_of_lt hi] at hend ⊢
    cases fuel with
    | zero => omega
    | succ fuel =>
      rw [find]
      rcases hend with h | h
      · rw [if_pos h]
      · rw [if_neg (by simp [h]), if_pos h]
  | succ d ih =>
    have hnext : (i + 1) % n < n := Nat.mod_lt _ (by omega)
    have hshift : ∀ k, ((i + 1) % n + k) % n = (i + (k + 1)) % n := by
      intro k
      rw [Nat.mod_add_mod, Nat.add_assoc, Nat.add_comm 1 k]
    cases fuel with
    | zero => omega
    | succ fuel =>
      have hfirst := hd 0 (Nat.succ_pos d)
      rw [Nat.add_zero, Nat.mod_eq_of_lt hi] at hfirst
      rw [find, if_neg hfirst.1, if_neg hfirst.2, ← hshift d]
      refine ih hnext ?_ ?_ (by omega)
      · intro k hk
        rw [hshift]
        exact hd (k + 1) (by omega)
      · rw [hshift]
        exact hend

theorem Sound.find_entry (h : Sound n home t) (hhome : home a < n) (hx : x < n)
    (ha : t x = some a) (hfuel : n ≤ fuel) : find n t a fuel (home a) = some x := by
  have hd : dist n (home a) x < n := dist_lt (by omega) _ _
  have hend := add_dist hhome hx
  have hwalk : ∀ k < dist n (home a) x, t ((home a + k) % n) ≠ none ∧
      t ((home a + k) % n) ≠ some a := by
    intro k hk
    refine ⟨h.reach x hx a ha k hk, fun hsame => ?_⟩
    have hkn : k < n := by omega
    have hkx := h.once _ (Nat.mod_lt _ (by omega)) x hx a hsame ha
    rw [← hkx, dist_add hhome hkn] at hk
    omega
  rw [find_walk hhome hwalk (.inr (by rw [hend, ha])) (by omega), hend]

theorem find_absent (hhome : home a < n) (habsent : ∀ x < n, t x ≠ some a)
    (hempty : ∃ e < n, t e = none) (hfuel : n ≤ fuel) :
    ∃ x < n, find n t a fuel (home a) = some x ∧ t x = none ∧
      ∀ k < dist n (home a) x, t ((home a + k) % n) ≠ none := by
  have hsome : ∃ d, t ((home a + d) % n) = none := by
    obtain ⟨e, he, hnone⟩ := hempty
    exact ⟨dist n (home a) e, by rw [add_dist hhome he, hnone]⟩
  have hfirst := Nat.find_spec hsome
  have hlt : Nat.find hsome < n := by
    obtain ⟨e, he, hnone⟩ := hempty
    have hle := Nat.find_min' hsome (by rw [add_dist hhome he, hnone] :
      t ((home a + dist n (home a) e) % n) = none)
    exact hle.trans_lt (dist_lt (by omega) _ _)
  refine ⟨_, Nat.mod_lt _ (by omega), find_walk hhome ?_ (.inl hfirst) (by omega), hfirst, ?_⟩
  · intro k hk
    exact ⟨Nat.find_min hsome hk, habsent _ (Nat.mod_lt _ (by omega))⟩
  · intro k hk
    rw [dist_add hhome hlt] at hk
    exact Nat.find_min hsome hk

end Find

section Table

variable {n : ℕ} {home : α → ℕ} {t : ℕ → Option α} {a : α} {x g : ℕ}

theorem Sound.insert (h : Sound n home t) (habsent : ∀ x < n, t x ≠ some a)
    (hwalk : ∀ k < dist n (home a) x, t ((home a + k) % n) ≠ none) :
    Sound n home (Function.update t x (some a)) where
  reach := by
    intro y hy b hb k hk
    have hmore : ∀ z, t z ≠ none → Function.update t x (some a) z ≠ none := by
      intro z hz
      rw [Function.update_apply]
      split
      · exact Option.some_ne_none a
      · exact hz
    rw [Function.update_apply] at hb
    split at hb
    · rename_i hyx
      cases hb
      exact hmore _ (hwalk k (hyx ▸ hk))
    · exact hmore _ (h.reach y hy b hb k hk)
  once := by
    intro y hy z hz b hb hc
    rw [Function.update_apply] at hb hc
    split at hb <;> split at hc
    · omega
    · cases hb
      exact absurd hc (habsent z hz)
    · cases hc
      exact absurd hb (habsent y hy)
    · exact h.once y hy z hz b hb hc

theorem Sound.remove (h : Sound n home t) (g : ℕ) : Holed n home (Function.update t g none) g where
  empty := Function.update_self ..
  reach := by
    intro x hx a ha k hk
    rw [Function.update_apply] at ha
    split at ha
    · cases ha
    · by_cases hg : (home a + k) % n = g
      · exact .inr hg
      · rw [Function.update_of_ne hg]
        exact .inl (h.reach x hx a ha k hk)
  once := by
    intro x hx y hy a ha hb
    rw [Function.update_apply] at ha hb
    split at ha <;> split at hb
    · cases ha
    · cases ha
    · cases hb
    · exact h.once x hx y hy a ha hb

theorem Holed.move (h : Holed n home t g) (hx : x < n) (ha : t x = some a)
    (hhome : home a = g) :
    Holed n home (Function.update (Function.update t g (some a)) x none) x where
  empty := Function.update_self ..
  reach := by
    intro y hy b hb k hk
    by_cases hwalk : (home b + k) % n = x
    · exact .inr hwalk
    · left
      rw [Function.update_of_ne hwalk]
      rw [Function.update_apply] at hb
      split at hb
      · cases hb
      · rw [Function.update_apply] at hb
        split at hb
        · -- the entry that was moved is at home
          rename_i hyg
          cases hb
          rw [hhome, hyg, dist_self] at hk
          omega
        · rw [Function.update_apply]
          split
          · exact Option.some_ne_none a
          · exact (h.reach y hy b hb k hk).resolve_right ‹_›
  once := by
    have hold : ∀ z < n, ∀ b, Function.update (Function.update t g (some a)) x none z = some b →
        z ≠ x ∧ (z = g ∧ b = a ∨ z ≠ g ∧ t z = some b) := by
      intro z hz b hb
      rw [Function.update_apply] at hb
      split at hb
      · cases hb
      · rename_i hzx
        rw [Function.update_apply] at hb
        split at hb
        · rename_i hzg
          cases hb
          exact ⟨hzx, .inl ⟨hzg, rfl⟩⟩
        · rename_i hzg
          exact ⟨hzx, .inr ⟨hzg, hb⟩⟩
    intro y hy z hz b hb hc
    obtain ⟨hyx, hy'⟩ := hold y hy b hb
    obtain ⟨hzx, hz'⟩ := hold z hz b hc
    rcases hy' with ⟨hyg, hya⟩ | ⟨-, hty⟩
    · rcases hz' with ⟨hzg, -⟩ | ⟨-, htz⟩
      · rw [hyg, hzg]
      · exact absurd (h.once z hz x hx b htz (hya ▸ ha)) hzx
    · rcases hz' with ⟨-, hza⟩ | ⟨-, htz⟩
      · exact absurd (h.once y hy x hx b hty (hza ▸ ha)) hyx
      · exact h.once y hy z hz b hty htz

theorem Holed.sound (h : Holed n home t g) (hhome : ∀ a, home a < n)
    (hpass : ∀ x < n, ∀ a, t x = some a → ¬ Passes n (home a) x g) : Sound n home t where
  reach := by
    intro x hx a ha k hk
    refine (h.reach x hx a ha k hk).resolve_right fun hg => hpass x hx a ha ?_
    have hlt := dist_lt (show 0 < n by have := hhome a; omega) (home a) x
    rw [Passes, ← hg, dist_add (hhome a) (by omega)]
    exact hk
  once := h.once

theorem exists_empty {live : List α} (hlive : ∀ x < n, ∀ a, t x = some a → a ∈ live)
    (honce : ∀ x < n, ∀ y < n, ∀ a, t x = some a → t y = some a → x = y)
    (hlen : live.length < n) : ∃ e < n, t e = none := by
  classical
  by_contra hnone
  push Not at hnone
  have hle : (Finset.range n).card ≤ live.toFinset.card := by
    refine Finset.card_le_card_of_injOn (fun x => (t x).getD (live.headD (Classical.choice ?_)))
      ?_ ?_
    · obtain ⟨a, ha⟩ := Option.ne_none_iff_exists'.mp (hnone 0 (by omega))
      exact ⟨a⟩
    · intro x hx
      have hxn : x < n := by simpa using hx
      obtain ⟨a, ha⟩ := Option.ne_none_iff_exists'.mp (hnone x hxn)
      simp only [ha, Option.getD_some, List.coe_toFinset, Set.mem_ofPred_eq]
      exact hlive x hxn a ha
    · intro x hx y hy he
      have hxn : x < n := by simpa using hx
      have hyn : y < n := by simpa using hy
      obtain ⟨a, ha⟩ := Option.ne_none_iff_exists'.mp (hnone x hxn)
      obtain ⟨b, hb⟩ := Option.ne_none_iff_exists'.mp (hnone y hyn)
      have hab : a = b := by simpa [ha, hb] using he
      exact honce x hxn y hyn a ha (hab ▸ hb)
  rw [Finset.card_range] at hle
  have hcard := List.toFinset_card_le live
  omega

end Table

end Fenice.Probe
