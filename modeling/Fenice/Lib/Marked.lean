import Mathlib.Data.List.Basic
import Mathlib.Order.Monotone.Basic
import Mathlib.Order.Nat
import Mathlib.Tactic.Common

/-!
# Messages in marked packets

A sender cuts each message into packets and marks the last of them. A receiver that hears a
stretch of the packets collects them up to each mark.
-/

namespace Fenice.Marked

variable {α β : Type*} (last : α → Bool)

/-- The packets of one message: there is a last one, and it alone is marked. -/
structure Whole (l : List α) : Prop where
  ends : ∃ x, l.getLast? = some x ∧ last x = true
  unmarked : ∀ x ∈ l.dropLast, last x = false

/-- What is collected up to each mark, with `acc` collected already. -/
def cutFrom (acc : List α) : List α → List (List α)
  | [] => []
  | x :: l => if last x then (acc ++ [x]) :: cutFrom [] l else cutFrom (acc ++ [x]) l

/-- The messages that are received, as far as they can be decoded. -/
def received (decode : List α → Option β) (l : List α) : List β :=
  (cutFrom last [] l).filterMap decode

variable {last}

theorem cutFrom_unmarked {l : List α} (h : ∀ x ∈ l, last x = false) (acc rest : List α) :
    cutFrom last acc (l ++ rest) = cutFrom last (acc ++ l) rest := by
  induction l generalizing acc with
  | nil => simp
  | cons x l ih =>
    have hx : last x = false := h x (by simp)
    rw [List.cons_append, cutFrom, hx]
    simp [ih fun y hy => h y (by simp [hy])]

theorem cutFrom_short {l : List α} (h : ∀ x ∈ l, last x = false) (acc : List α) :
    cutFrom last acc l = [] := by
  have := cutFrom_unmarked h acc []
  simpa [cutFrom] using this

namespace Whole

theorem ne_nil {l : List α} (h : Whole last l) : l ≠ [] := by
  rintro rfl
  obtain ⟨x, hx, -⟩ := h.ends
  cases hx

theorem length_pos {l : List α} (h : Whole last l) : 0 < l.length :=
  List.length_pos_iff.mpr h.ne_nil

theorem snoc {l : List α} {x : α} (hl : ∀ y ∈ l, last y = false) (hx : last x = true) :
    Whole last (l ++ [x]) where
  ends := ⟨x, by simp, hx⟩
  unmarked := by simpa using hl

theorem cut {l : List α} (h : Whole last l) (rest : List α) :
    cutFrom last [] (l ++ rest) = l :: cutFrom last [] rest := by
  obtain ⟨x, hx, hmark⟩ := h.ends
  have hsplit : l = l.dropLast ++ [x] := (List.dropLast_append_getLast? x hx).symm
  rw [hsplit, List.append_assoc, cutFrom_unmarked h.unmarked, List.singleton_append, cutFrom,
    if_pos hmark, List.nil_append]

theorem drop {l : List α} (h : Whole last l) {k : ℕ} (hk : k < l.length) :
    Whole last (l.drop k) where
  ends := by
    rw [List.getLast?_drop, if_neg (by omega)]
    exact h.ends
  unmarked := by
    intro x hx
    refine h.unmarked x ?_
    rw [List.dropLast_eq_take, List.length_drop, List.take_drop] at hx
    rw [List.dropLast_eq_take]
    exact (List.take_prefix_take_left (by omega)).subset (List.mem_of_mem_drop hx)

theorem take {l : List α} (h : Whole last l) {k : ℕ} (hk : k < l.length) :
    ∀ x ∈ l.take k, last x = false := by
  intro x hx
  refine h.unmarked x ?_
  rw [List.dropLast_eq_take]
  exact (List.take_prefix_take_left (by omega)).subset hx

end Whole

/-! ### A stretch of the packets of many messages -/

section Stream

variable (packets : ℕ → List α)

/-- The packets of the first `n` messages. -/
def upTo (n : ℕ) : List α := (List.range n).flatMap packets

/-- The number of packets in front of message `n`. -/
def start (n : ℕ) : ℕ := (upTo packets n).length

@[simp] theorem upTo_zero : upTo packets 0 = [] := rfl

@[simp] theorem start_zero : start packets 0 = 0 := rfl

theorem upTo_succ (n : ℕ) : upTo packets (n + 1) = upTo packets n ++ packets n := by
  simp [upTo, List.range_succ]

theorem start_succ (n : ℕ) : start packets (n + 1) = start packets n + (packets n).length := by
  rw [start, upTo_succ, List.length_append, start]

theorem start_mono : Monotone (start packets) :=
  monotone_nat_of_le_succ fun n => by
    rw [start_succ]
    omega

theorem upTo_add (n k : ℕ) :
    upTo packets (n + k) = upTo packets n ++ (List.range' n k).flatMap packets := by
  induction k with
  | zero => simp
  | succ k ih => simp [← Nat.add_assoc, upTo_succ, ih, List.range'_1_concat]

/-- Message `i` is the first one that begins at packet number `a` or behind it. -/
structure FirstFrom (a i : ℕ) : Prop where
  le : a ≤ start packets i
  before : ∀ k, i = k + 1 → start packets k < a

/-- The packets in front of number `b` are those of `j` messages and a part of the next. -/
structure Reaches (b j : ℕ) : Prop where
  le : start packets j ≤ b
  lt : b < start packets (j + 1)

variable {packets}

theorem exists_reaches (h : ∀ i, Whole last (packets i)) (b : ℕ) : ∃ j, Reaches packets b j := by
  induction b with
  | zero =>
    have := (h 0).length_pos
    exact ⟨0, by simp, by simpa [start_succ] using this⟩
  | succ b ih =>
    obtain ⟨j, hj⟩ := ih
    have hle := hj.le
    have hlt := hj.lt
    by_cases hnext : b + 1 < start packets (j + 1)
    · exact ⟨j, by omega, hnext⟩
    · have := (h (j + 1)).length_pos
      exact ⟨j + 1, by omega, by rw [start_succ packets (j + 1)]; omega⟩

theorem exists_firstFrom (h : ∀ i, Whole last (packets i)) (a : ℕ) :
    ∃ i, FirstFrom packets a i := by
  obtain ⟨i, hi⟩ := exists_reaches h a
  by_cases heq : a = start packets i
  · refine ⟨i, heq.le, fun k hk => ?_⟩
    have := (h k).length_pos
    rw [heq, hk, start_succ]
    omega
  · refine ⟨i + 1, hi.lt.le, fun k hk => ?_⟩
    have hle := hi.le
    obtain rfl : i = k := by omega
    omega

theorem drop_upTo {i a : ℕ} (ha : a ≤ start packets i) (k : ℕ) :
    (upTo packets (i + k)).drop a =
      (upTo packets i).drop a ++ (List.range' i k).flatMap packets := by
  rw [upTo_add, List.drop_append_of_le_length ha]

theorem drop_inside {i a : ℕ} (ha : start packets i ≤ a) :
    (upTo packets (i + 1)).drop a = (packets i).drop (a - start packets i) := by
  rw [upTo_succ, List.drop_append, List.drop_of_length_le ha, List.nil_append, start]

section Receiver

variable {decode : List α → Option β} {message : ℕ → β}

theorem received_units (h : ∀ i, Whole last (packets i))
    (hdecode : ∀ i, decode (packets i) = some (message i)) (i k : ℕ) {tail : List α}
    (htail : ∀ x ∈ tail, last x = false) :
    received last decode ((List.range' i k).flatMap packets ++ tail) =
      (List.range' i k).map message := by
  induction k generalizing i with
  | zero => simp [received, cutFrom_short htail]
  | succ k ih =>
    have hrest := ih (i + 1)
    simp only [received] at hrest ⊢
    rw [List.range'_succ, List.flatMap_cons, List.append_assoc, (h i).cut,
      List.filterMap_cons_some (hdecode i), hrest, List.map_cons]

theorem received_late (h : ∀ i, Whole last (packets i))
    (hlate : ∀ i k, 0 < k → k < (packets i).length → decode ((packets i).drop k) = none)
    {i a : ℕ} (ha : FirstFrom packets a i) (rest : List α) :
    received last decode ((upTo packets i).drop a ++ rest) = received last decode rest := by
  cases i with
  | zero => simp
  | succ k =>
    have hk := ha.before k rfl
    have hle := ha.le
    rw [start_succ] at hle
    rw [drop_inside hk.le]
    by_cases hend : a - start packets k < (packets k).length
    · rw [received, ((h k).drop hend).cut, List.filterMap_cons_none (hlate k _ (by omega) hend),
        received]
    · rw [List.drop_of_length_le (by omega), List.nil_append]

/-- Packets in front of number `b` are the same ones whatever comes behind them. -/
theorem take_upTo {m n b : ℕ} (hm : b ≤ start packets m) (hn : b ≤ start packets n) :
    (upTo packets m).take b = (upTo packets n).take b := by
  have hle : ∀ {m n : ℕ}, m ≤ n → b ≤ start packets m →
      (upTo packets m).take b = (upTo packets n).take b := by
    intro m n hmn hb
    obtain ⟨k, rfl⟩ := Nat.exists_eq_add_of_le hmn
    rw [upTo_add, List.take_append_of_le_length hb]
  rcases Nat.le_total m n with h | h
  · exact hle h hm
  · exact (hle h hn).symm

theorem received_nothing {l : List α} (h : ∀ x ∈ l, last x = false) :
    received last decode l = [] := by
  rw [received, cutFrom_short h, List.filterMap_nil]

/-- A receiver that hears packets `a` to `b - 1` gets the messages that begin and end among
them, one after the other. -/
theorem received_stretch (h : ∀ i, Whole last (packets i))
    (hdecode : ∀ i, decode (packets i) = some (message i))
    (hlate : ∀ i k, 0 < k → k < (packets i).length → decode ((packets i).drop k) = none)
    {i j a b n : ℕ} (ha : FirstFrom packets a i) (hb : Reaches packets b j) (hab : a ≤ b)
    (hn : b ≤ start packets n) :
    received last decode (((upTo packets n).drop a).take (b - a)) =
      (List.range' i (j - i)).map message := by
  have hstretch : ((upTo packets n).drop a).take (b - a) =
      ((upTo packets (j + 1)).drop a).take (b - a) := by
    rw [← List.drop_take, ← List.drop_take, take_upTo hn hb.lt.le]
  rw [hstretch]
  have hle := hb.le
  have hlt := hb.lt
  have hfirst := ha.le
  have hlen : b - start packets j < (packets j).length := by
    rw [start_succ] at hlt
    omega
  by_cases hij : i ≤ j
  · obtain ⟨k, rfl⟩ := Nat.exists_eq_add_of_le hij
    have hmono := start_mono packets hij
    have hlength : ((upTo packets (i + k)).drop a).length = start packets (i + k) - a := by
      rw [List.length_drop, start]
    have hsplit : ((upTo packets (i + k + 1)).drop a).take (b - a) =
        (upTo packets i).drop a ++ ((List.range' i k).flatMap packets ++
          (packets (i + k)).take (b - start packets (i + k))) := by
      rw [upTo_succ, List.drop_append_of_le_length (hfirst.trans hmono), List.take_append, hlength,
        List.take_of_length_le (by omega), drop_upTo hfirst, List.append_assoc,
        show b - a - (start packets (i + k) - a) = b - start packets (i + k) by omega]
    rw [hsplit, received_late h hlate ha, Nat.add_sub_cancel_left]
    exact received_units h hdecode i k ((h (i + k)).take hlen)
  · -- the stretch lies within message number `j`
    have hja : start packets j < a := by
      have hk := ha.before (i - 1) (by omega)
      have := start_mono packets (show j ≤ i - 1 by omega)
      omega
    rw [drop_inside hja.le, List.take_drop, show j - i = 0 by omega]
    refine received_nothing fun x hx => (h j).take hlen x ?_
    rw [show b - start packets j = a - start packets j + (b - a) by omega]
    exact List.mem_of_mem_drop hx

end Receiver

end Stream

end Fenice.Marked
