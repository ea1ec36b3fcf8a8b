import Mathlib.Tactic.Common
import Mathlib.Data.List.Nodup
import Mathlib.Data.List.Range
import Mathlib.Data.List.Perm.Subperm

/-!
# Singly linked lists in memory

Cells that point to the next one, in a memory of cells. `IsList` says which
cells are reached from a pointer, and the operations of such lists (a cell
written, appended behind the last, taken out behind another or at the head) are
given by what they do to that list.
-/

namespace Fenice.Linked

structure Cell (α : Type*) where
  value : α
  next : Option ℕ

/-- What stands at each address; `none` at one that is not in use. -/
abbrev Memory (α : Type*) := List (Option (Cell α))

variable {α : Type*} {m : Memory α} {a b : Option ℕ} {cells xs ys : List (ℕ × α)} {r l : ℕ}
  {v w u : α} {c : Cell α}

namespace Memory

def get (m : Memory α) (r : ℕ) : Option (Cell α) := (m[r]?).join

/-- The memory is extended up to the address. -/
def put (m : Memory α) (r : ℕ) (c : Option (Cell α)) : Memory α :=
  (m ++ List.replicate (r + 1 - m.length) none).set r c

theorem get_put_self (m : Memory α) (r : ℕ) (c : Option (Cell α)) : (m.put r c).get r = c := by
  have hlt : r < (m ++ List.replicate (r + 1 - m.length) none).length := by
    rw [List.length_append, List.length_replicate]
    omega
  rw [get, put, List.getElem?_set_self hlt]
  rfl

theorem get_put_ne (m : Memory α) (c : Option (Cell α)) {r r' : ℕ} (h : r ≠ r') :
    (m.put r c).get r' = m.get r' := by
  rw [get, put, List.getElem?_set_ne h, get]
  by_cases hlt : r' < m.length
  · rw [List.getElem?_append_left hlt]
  · rw [List.getElem?_append_right (by omega), List.getElem?_replicate,
      List.getElem?_eq_none (show m.length ≤ r' by omega)]
    split_ifs <;> rfl

theorem lt_of_get {m : Memory α} {r : ℕ} {c : Cell α} (h : m.get r = some c) : r < m.length := by
  by_contra hge
  rw [get, List.getElem?_eq_none (by omega)] at h
  cases h

end Memory

/-- From `a` on the cells follow one another, and the last one points to `b`. -/
def Chain (m : Memory α) : Option ℕ → List (ℕ × α) → Option ℕ → Prop
  | a, [], b => a = b
  | a, (r, v) :: cells, b => a = some r ∧ ∃ n, m.get r = some ⟨v, n⟩ ∧ Chain m n cells b

/-- The address of the last cell, or `b` if there is none. -/
def lastOf (xs : List (ℕ × α)) (b : Option ℕ) : Option ℕ :=
  (xs.getLast?.map Prod.fst).or b

theorem lastOf_cons (r : ℕ) (v : α) (xs : List (ℕ × α)) (b : Option ℕ) :
    lastOf ((r, v) :: xs) b = lastOf xs (some r) := by
  cases xs with
  | nil => rfl
  | cons x xs =>
    rw [lastOf, lastOf, List.getLast?_cons_cons]
    cases h : (x :: xs).getLast? with
    | none => cases List.getLast?_eq_none_iff.mp h
    | some y => rfl

theorem lastOf_concat (xs : List (ℕ × α)) (b : Option ℕ) : lastOf (xs ++ [(l, u)]) b = some l := by
  rw [lastOf, List.getLast?_concat]
  rfl

namespace Chain

theorem append : Chain m a (xs ++ ys) b ↔ ∃ n, Chain m a xs n ∧ Chain m n ys b := by
  induction xs generalizing a with
  | nil =>
    constructor
    · intro h
      exact ⟨a, rfl, h⟩
    · rintro ⟨n, rfl, h⟩
      exact h
  | cons x xs ih =>
    constructor
    · rintro ⟨ha, k, hk, h⟩
      obtain ⟨n, hn, hb⟩ := ih.mp h
      exact ⟨n, ⟨ha, k, hk, hn⟩, hb⟩
    · rintro ⟨n, ⟨ha, k, hk, hn⟩, hb⟩
      exact ⟨ha, k, hk, ih.mpr ⟨n, hn, hb⟩⟩

theorem put (h : Chain m a cells b) (hr : ∀ p ∈ cells, p.1 ≠ r) (c : Option (Cell α)) :
    Chain (m.put r c) a cells b := by
  induction cells generalizing a with
  | nil => exact h
  | cons x cells ih =>
    obtain ⟨ha, n, hn, h⟩ := h
    refine ⟨ha, n, ?_, ih h fun p hp => hr p (List.mem_cons_of_mem _ hp)⟩
    rw [m.get_put_ne c (hr x (List.mem_cons_self ..)).symm, hn]

theorem used (h : Chain m a cells b) : ∀ p ∈ cells, ∃ n, m.get p.1 = some ⟨p.2, n⟩ := by
  induction cells generalizing a with
  | nil =>
    intro p hp
    cases hp
  | cons x cells ih =>
    obtain ⟨-, n, hn, h⟩ := h
    intro p hp
    rcases List.mem_cons.mp hp with rfl | hp
    · exact ⟨n, hn⟩
    · exact ih h p hp

end Chain

/-- The cells that are reached from `a`, each once. -/
structure IsList (m : Memory α) (a : Option ℕ) (cells : List (ℕ × α)) : Prop where
  chain : Chain m a cells none
  apart : (cells.map Prod.fst).Nodup

namespace IsList

theorem nil (m : Memory α) : IsList m none [] := ⟨rfl, List.nodup_nil⟩

theorem length_le (h : IsList m a cells) : cells.length ≤ m.length := by
  have hsub : cells.map Prod.fst ⊆ List.range m.length := by
    intro r hr
    obtain ⟨p, hp, rfl⟩ := List.mem_map.mp hr
    obtain ⟨n, hn⟩ := h.chain.used p hp
    exact List.mem_range.mpr (Memory.lt_of_get hn)
  have hle := (List.Nodup.subperm h.apart hsub).length_le
  rwa [List.length_map, List.length_range] at hle

theorem fresh (h : IsList m a cells) (hr : m.get r = none) : ∀ p ∈ cells, p.1 ≠ r := by
  rintro p hp rfl
  obtain ⟨n, hn⟩ := h.chain.used p hp
  rw [hr] at hn
  cases hn

theorem at_cell (h : IsList m a (xs ++ (r, v) :: ys)) : ∃ n, m.get r = some ⟨v, n⟩ ∧
    Chain m a xs (some r) ∧ Chain m n ys none ∧ (∀ p ∈ xs, p.1 ≠ r) ∧ ∀ p ∈ ys, p.1 ≠ r := by
  obtain ⟨k, hxs, hk, n, hn, hys⟩ := Chain.append.mp h.chain
  have hapart := h.apart
  rw [List.map_append, List.map_cons, List.nodup_append] at hapart
  obtain ⟨-, htail, hne⟩ := hapart
  refine ⟨n, hn, hk ▸ hxs, hys, ?_, ?_⟩
  · intro p hp
    exact hne _ (List.mem_map_of_mem hp) _ (List.mem_cons_self ..)
  · intro p hp he
    exact (List.nodup_cons.mp htail).1 (List.mem_map.mpr ⟨p, hp, he⟩)

theorem write (h : IsList m a (xs ++ (r, v) :: ys)) (hc : m.get r = some c) (w : α) :
    IsList (m.put r (some { c with value := w })) a (xs ++ (r, w) :: ys) := by
  obtain ⟨n, hn, hxs, hys, hx, hy⟩ := h.at_cell
  obtain rfl : c = ⟨v, n⟩ := Option.some.inj (hc.symm.trans hn)
  refine ⟨Chain.append.mpr ⟨some r, hxs.put hx _, rfl, n, m.get_put_self r _, hys.put hy _⟩, ?_⟩
  have hapart := h.apart
  rw [List.map_append, List.map_cons] at hapart ⊢
  exact hapart

theorem single (m : Memory α) (r : ℕ) (v : α) :
    IsList (m.put r (some ⟨v, none⟩)) (some r) [(r, v)] :=
  ⟨⟨rfl, none, m.get_put_self r _, rfl⟩, List.nodup_singleton _⟩

theorem append (h : IsList m a (xs ++ [(l, u)])) (hc : m.get l = some c) (hr : m.get r = none)
    (v : α) :
    IsList ((m.put l (some { c with next := some r })).put r (some ⟨v, none⟩)) a
      (xs ++ [(l, u)] ++ [(r, v)]) := by
  have hfresh := h.fresh hr
  obtain ⟨n, hn, hxs, -, hx, -⟩ := h.at_cell
  obtain rfl : c = ⟨u, n⟩ := Option.some.inj (hc.symm.trans hn)
  have hchain : Chain (m.put l (some ⟨u, some r⟩)) a (xs ++ [(l, u)]) (some r) :=
    Chain.append.mpr ⟨some l, hxs.put hx _, rfl, some r, m.get_put_self l _, rfl⟩
  constructor
  · exact Chain.append.mpr
      ⟨some r, hchain.put hfresh _, rfl, none, Memory.get_put_self _ r _, rfl⟩
  · rw [List.map_append, List.nodup_append]
    refine ⟨h.apart, List.nodup_singleton _, ?_⟩
    intro x hx y hy
    obtain ⟨p, hp, rfl⟩ := List.mem_map.mp hx
    rw [List.map_singleton, List.mem_singleton] at hy
    rw [hy]
    exact hfresh p hp

theorem dropFirst (h : IsList m a ((r, v) :: ys)) (hc : m.get r = some c) :
    IsList (m.put r none) c.next ys := by
  have hcut : IsList m a ([] ++ (r, v) :: ys) := h
  obtain ⟨n, hn, -, hys, -, hy⟩ := at_cell hcut
  obtain rfl : c = ⟨v, n⟩ := Option.some.inj (hc.symm.trans hn)
  exact ⟨hys.put hy _, (List.nodup_cons.mp h.apart).2⟩

theorem dropNext {cl : Cell α} (h : IsList m a (xs ++ [(l, u)] ++ (r, v) :: ys))
    (hl : m.get l = some cl) (hc : m.get r = some c) :
    IsList ((m.put l (some { cl with next := c.next })).put r none) a (xs ++ [(l, u)] ++ ys) := by
  obtain ⟨n, hn, hfront, hys, hx, hy⟩ := h.at_cell
  obtain rfl : c = ⟨v, n⟩ := Option.some.inj (hc.symm.trans hn)
  have hsplit : xs ++ [(l, u)] ++ (r, v) :: ys = xs ++ (l, u) :: ((r, v) :: ys) := by simp
  obtain ⟨k, hk, hxs, -, hxl, hyl⟩ := at_cell (hsplit ▸ h)
  obtain rfl : cl = ⟨u, k⟩ := Option.some.inj (hl.symm.trans hk)
  have hne : r ≠ l := hyl _ (List.mem_cons_self ..)
  have hchain : Chain (m.put l (some ⟨u, n⟩)) a (xs ++ [(l, u)] ++ ys) none := by
    have hys' := hys.put (fun p hp => hyl p (List.mem_cons_of_mem _ hp)) (some ⟨u, n⟩)
    exact Chain.append.mpr ⟨n, Chain.append.mpr
      ⟨some l, hxs.put hxl _, rfl, n, m.get_put_self l _, rfl⟩, hys'⟩
  constructor
  · refine hchain.put ?_ _
    intro p hp
    rcases List.mem_append.mp hp with hp | hp
    · exact hx p hp
    · exact hy p hp
  · have hapart := h.apart
    rw [List.map_append, List.map_cons] at hapart
    rw [List.map_append]
    exact hapart.sublist ((List.sublist_cons_self _ _).append_left _)

end IsList

end Fenice.Linked
