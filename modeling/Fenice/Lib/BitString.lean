import Mathlib.Data.List.GetD
import Mathlib.Data.Nat.Bitwise
import Mathlib.Tactic.Common
import Mathlib.Tactic.Ring

/-!
# Strings of bits

The bits of a byte string, the most significant of each byte first, and the number that a string
of binary digits denotes. The bit at `k` stands in the byte at `k / 8`, at distance `k % 8` from
its upper end.
-/

namespace Fenice.BitString

/-- The number with these binary digits, the most significant first. -/
def value (bs : List Bool) : ℕ := bs.foldl (fun v b => 2 * v + b.toNat) 0

def byteBits (x : UInt8) : List Bool := (List.range 8).map fun i => x.toNat.testBit (7 - i)

/-- The bits of a byte string. -/
def bitString (d : List UInt8) : List Bool := d.flatMap byteBits

/-- The bit at `k`; there are zeros behind the string. -/
def bitAt (d : List UInt8) (k : ℕ) : Bool := (d.getD (k / 8) 0).toNat.testBit (7 - k % 8)

section Value

variable {as bs : List Bool} {b : Bool}

theorem value_foldl (v : ℕ) (bs : List Bool) :
    bs.foldl (fun v b => 2 * v + b.toNat) v = v * 2 ^ bs.length + value bs := by
  induction bs generalizing v with
  | nil => simp [value]
  | cons b bs ih =>
    rw [value, List.foldl_cons, List.foldl_cons, ih, ih, List.length_cons, pow_succ]
    ring

@[simp] theorem value_nil : value [] = 0 := rfl

theorem value_append (as bs : List Bool) :
    value (as ++ bs) = value as * 2 ^ bs.length + value bs := by
  rw [value, List.foldl_append, value_foldl, ← value]

theorem value_cons (b : Bool) (bs : List Bool) :
    value (b :: bs) = b.toNat * 2 ^ bs.length + value bs := by
  rw [value, List.foldl_cons, value_foldl, Nat.mul_zero, Nat.zero_add]

theorem value_lt (bs : List Bool) : value bs < 2 ^ bs.length := by
  induction bs with
  | nil => simp
  | cons b bs ih =>
    rw [value_cons, List.length_cons, pow_succ]
    have hb : b.toNat ≤ 1 := Bool.toNat_le b
    have hmul := Nat.mul_le_mul_right (2 ^ bs.length) hb
    omega

end Value

section Bits

variable {d : List UInt8} {k n : ℕ}

@[simp] theorem length_byteBits (x : UInt8) : (byteBits x).length = 8 := by
  rw [byteBits, List.length_map, List.length_range]

@[simp] theorem length_bitString (d : List UInt8) : (bitString d).length = 8 * d.length := by
  induction d with
  | nil => rfl
  | cons x d ih =>
    rw [bitString, List.flatMap_cons, List.length_append, length_byteBits, ← bitString, ih,
      List.length_cons]
    omega

theorem value_byteBits (x : UInt8) : value (byteBits x) = x.toNat := by
  have hall : ∀ n < 256, value ((List.range 8).map fun i => n.testBit (7 - i)) = n := by
    decide +kernel
  exact hall x.toNat x.toNat_lt

theorem bitString_getElem? (h : k < 8 * d.length) : (bitString d)[k]? = some (bitAt d k) := by
  induction d generalizing k with
  | nil => simp at h
  | cons x d ih =>
    rw [bitString, List.flatMap_cons, ← bitString]
    rcases Nat.lt_or_ge k 8 with hk | hk
    · have hdiv : k / 8 = 0 := by omega
      rw [List.getElem?_append_left (by rwa [length_byteBits]), bitAt, hdiv, Nat.mod_eq_of_lt hk,
        List.getD_cons_zero]
      simp [byteBits, hk]
    · rw [List.length_cons] at h
      have hdiv : k / 8 = (k - 8) / 8 + 1 := by omega
      have hmod : k % 8 = (k - 8) % 8 := by omega
      rw [List.getElem?_append_right (by rwa [length_byteBits]), length_byteBits,
        ih (by omega), bitAt, bitAt, hdiv, hmod, List.getD_cons_succ]

theorem take_drop_bitString (h : k + n ≤ 8 * d.length) :
    ((bitString d).drop k).take n = (List.range n).map fun i => bitAt d (k + i) := by
  apply List.ext_getElem?
  intro i
  rw [List.getElem?_take]
  split
  · rename_i hi
    rw [List.getElem?_drop, bitString_getElem? (by omega)]
    simp [hi]
  · rename_i hi
    simp [Nat.le_of_not_lt hi]

theorem byteBits_eq (h : 8 ∣ k) :
    byteBits (d.getD (k / 8) 0) = (List.range 8).map fun i => bitAt d (k + i) := by
  obtain ⟨m, rfl⟩ := h
  refine List.map_congr_left fun i hi => ?_
  have hi8 : i < 8 := List.mem_range.mp hi
  have hdiv : (8 * m + i) / 8 = m := by omega
  have hmod : (8 * m + i) % 8 = i := by omega
  rw [bitAt, hdiv, hmod, Nat.mul_div_cancel_left m (by decide)]

end Bits

end Fenice.BitString
