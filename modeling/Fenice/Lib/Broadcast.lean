import Mathlib.Tactic.Common
import Mathlib.Logic.Relation
import Mathlib.Logic.Function.Basic

/-!
# A log with independent readers

What a packet buffer with several consumers is for, without slots or counters:
items are appended to a log, a reader joins at a position of it and from there
takes the items one after the other.
-/

namespace Fenice.Broadcast

structure Reader (α : Type*) where
  start : ℕ
  got : List α

structure Log (α : Type*) where
  items : List α
  readers : ℕ → Option (Reader α)

variable {α : Type*}

def empty : Log α := ⟨[], fun _ => none⟩

inductive Step : Log α → Log α → Prop
  | publish (s : Log α) (a : α) : Step s { s with items := s.items ++ [a] }
  | join (s : Log α) (i k : ℕ) (hi : s.readers i = none) (hk : k ≤ s.items.length) :
      Step s { s with readers := Function.update s.readers i (some ⟨k, []⟩) }
  | take (s : Log α) (i : ℕ) (r : Reader α) (a : α) (hi : s.readers i = some r)
      (ha : s.items[r.start + r.got.length]? = some a) :
      Step s { s with
        readers := Function.update s.readers i (some { r with got := r.got ++ [a] }) }

/-- Every reader has an unbroken stretch of the log that begins where it joined. -/
def Delivered (s : Log α) : Prop :=
  ∀ i r, s.readers i = some r →
    r.start + r.got.length ≤ s.items.length ∧
      r.got = (s.items.drop r.start).take r.got.length

theorem empty_delivered : Delivered (empty : Log α) := by
  intro i r h
  cases h

theorem take_drop_append {l : List α} {k n : ℕ} (a : α) (h : k + n ≤ l.length) :
    ((l ++ [a]).drop k).take n = (l.drop k).take n := by
  rw [List.drop_append_of_le_length (by omega), List.take_append_of_le_length]
  simp only [List.length_drop]
  omega

theorem take_drop_succ {l : List α} {k n : ℕ} {a : α} (h : l[k + n]? = some a) :
    (l.drop k).take (n + 1) = (l.drop k).take n ++ [a] := by
  rw [List.take_add_one, List.getElem?_drop, h]
  rfl

theorem Step.delivered {s t : Log α} (h : Step s t) (hs : Delivered s) : Delivered t := by
  cases h with
  | publish a =>
    intro i r hi
    obtain ⟨hl, hg⟩ := hs i r hi
    simp only [List.length_append, List.length_cons, List.length_nil]
    exact ⟨by omega, hg.trans (take_drop_append a hl).symm⟩
  | join i k hi hk =>
    intro j r hj
    by_cases hij : j = i
    · subst hij
      simp only [Function.update_self, Option.some.injEq] at hj
      subst hj
      exact ⟨by simpa using hk, by simp⟩
    · simp only [Function.update_of_ne hij] at hj
      exact hs j r hj
  | take i r a hi ha =>
    intro j q hj
    by_cases hij : j = i
    · subst hij
      simp only [Function.update_self, Option.some.injEq] at hj
      subst hj
      obtain ⟨hl, hg⟩ := hs j r hi
      have hlt := (List.getElem?_eq_some_iff.mp ha).1
      simp only [List.length_append, List.length_cons, List.length_nil]
      exact ⟨by omega, by rw [Nat.zero_add, take_drop_succ ha, ← hg]⟩
    · simp only [Function.update_of_ne hij] at hj
      exact hs j q hj

theorem delivered_of_steps {s t : Log α} (h : Relation.ReflTransGen Step s t)
    (hs : Delivered s) : Delivered t := by
  induction h with
  | refl => exact hs
  | tail _ ht ih => exact ht.delivered ih

end Fenice.Broadcast
