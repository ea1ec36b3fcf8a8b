import Fenice.Lib.BitString
import Fenice.Lib.CString
import Mathlib.Data.BitVec
import Mathlib.Data.Int.ModEq

/-!
# Bit fields (read_MPEG4ES_utils.c)

`get_field` reads a number of any width that begins at any bit. Where it can it takes a whole
byte, elsewhere a bit. Both kinds of step append what they read to the number read so far.
-/

namespace Fenice.Mediainfo
open Fenice.BitString Fenice.CString

/-- The loop of `get_field` with `i`, `*offset` and `v`; `none` if it does not end, or if it reads
behind the string. -/
def fieldLoop (d : List UInt8) (bits : BitVec 32) :
    ℕ → BitVec 32 → BitVec 32 → BitVec 32 → Option (BitVec 32 × BitVec 32)
  | 0, i, offset, v => if i < bits then none else some (v, offset)
  | fuel + 1, i, offset, v =>
    if i < bits then
      (d[(offset / 8).toNat]?).bind fun x =>
        if 8 ≤ bits - i ∧ offset % 8 = 0 then
          fieldLoop d bits fuel (i + 8) (offset + 8) (v <<< 8 ||| x.toBitVec.setWidth 32)
        else
          fieldLoop d bits fuel (i + 1) (offset + 1)
            (v <<< 1 ||| (x.toBitVec.setWidth 32 >>> (7 - offset % 8) &&& 1))
    else some (v, offset)

/-- `get_field`, with `*offset` behind it; its result is an `int`. -/
def get_field (d : List UInt8) (bits offset : BitVec 32) : Option (ℤ × BitVec 32) :=
  (fieldLoop d bits bits.toNat 0 offset 0).map fun (v, offset) => (v.toInt, offset)

/-- The loop that knows no bytes. -/
def bitLoop (d : List UInt8) : ℕ → BitVec 32 → BitVec 32 → Option (BitVec 32 × BitVec 32)
  | 0, offset, v => some (v, offset)
  | bits + 1, offset, v =>
    (d[(offset / 8).toNat]?).bind fun x =>
      bitLoop d bits (offset + 1)
        (v <<< 1 ||| (x.toBitVec.setWidth 32 >>> (7 - offset % 8) &&& 1))

/-- The `n` bits from `k` on, as far as a `uint32` names them: behind bit `2 ^ 32` comes the
first one again. -/
def fieldBits (d : List UInt8) (k n : ℕ) : List Bool :=
  (List.range n).map fun i => bitAt d ((k + i) % 2 ^ 32)

/-- The 32 bits of a number. -/
def word (bs : List Bool) : BitVec 32 := BitVec.ofNat 32 (value bs)

section Fields

variable {d : List UInt8} {k n : ℕ}

@[simp] theorem length_fieldBits (d : List UInt8) (k n : ℕ) : (fieldBits d k n).length = n := by
  rw [fieldBits, List.length_map, List.length_range]

theorem fieldBits_add (d : List UInt8) (k m n : ℕ) :
    fieldBits d k (m + n) = fieldBits d k m ++ fieldBits d (k + m) n := by
  rw [fieldBits, List.range_add, List.map_append, List.map_map, fieldBits, fieldBits]
  congr 1
  refine List.map_congr_left fun i _ => ?_
  rw [Function.comp_apply, Nat.add_assoc]

theorem fieldBits_mod (d : List UInt8) (k n : ℕ) :
    fieldBits d (k % 2 ^ 32) n = fieldBits d k n := by
  refine List.map_congr_left fun i _ => ?_
  rw [Nat.mod_add_mod]

theorem fieldBits_eq (h : k + n ≤ 8 * d.length) (hk : k + n ≤ 2 ^ 32) :
    fieldBits d k n = ((bitString d).drop k).take n := by
  rw [take_drop_bitString h]
  refine List.map_congr_left fun i hi => ?_
  have hin : i < n := List.mem_range.mp hi
  rw [Nat.mod_eq_of_lt (by omega)]

theorem ofNat_two_pow (n : ℕ) : BitVec.ofNat 32 (2 ^ n) = 2 ^ n := by
  induction n with
  | zero => rfl
  | succ n ih =>
    rw [Nat.pow_succ, BitVec.ofNat_mul, ih, pow_succ]
    rfl

theorem word_append (as bs : List Bool) :
    word (as ++ bs) = word as * 2 ^ bs.length + word bs := by
  rw [word, value_append, BitVec.ofNat_add, BitVec.ofNat_mul, ofNat_two_pow, word, word]

end Fields

/-! ### Both kinds of step -/

section Steps

variable {d : List UInt8} {bits i offset v : BitVec 32} {x : UInt8} {fuel n : ℕ}

/-- Shifting a number and setting the bits below is adding to a multiple of it. -/
theorem shift_or (v x : BitVec 32) (n : ℕ) (hx : x.toNat < 2 ^ n) :
    v <<< n ||| x = v * 2 ^ n + x := by
  have hand : v <<< n &&& x = 0 := by
    apply BitVec.eq_of_getLsbD_eq
    intro j hj
    rw [BitVec.getLsbD_and, BitVec.getLsbD_shiftLeft]
    rcases Nat.lt_or_ge j n with hlt | hge
    · simp [hlt]
    · have hzero : x.getLsbD j = false :=
        Nat.testBit_lt_two_pow (lt_of_lt_of_le hx (Nat.pow_le_pow_right (by decide) hge))
      simp [hzero]
  have hpow : BitVec.twoPow 32 n = BitVec.ofNat 32 (2 ^ n) := by
    apply BitVec.eq_of_toNat_eq
    rw [BitVec.toNat_twoPow, BitVec.toNat_ofNat]
  rw [← BitVec.add_eq_or_of_and_eq_zero _ _ hand, BitVec.shiftLeft_eq_mul_twoPow, hpow,
    ofNat_two_pow]

theorem byte_step (v : BitVec 32) (x : UInt8) :
    v <<< 8 ||| x.toBitVec.setWidth 32 = v * 2 ^ 8 + word (byteBits x) := by
  have hx : (x.toBitVec.setWidth 32).toNat = x.toNat := by
    rw [BitVec.toNat_setWidth, UInt8.toNat_toBitVec, Nat.mod_eq_of_lt]
    exact lt_trans x.toNat_lt (by decide)
  rw [shift_or _ _ _ (by rw [hx]; exact x.toNat_lt), word, value_byteBits]
  congr 1
  apply BitVec.eq_of_toNat_eq
  rw [hx, BitVec.toNat_ofNat, Nat.mod_eq_of_lt]
  exact lt_trans x.toNat_lt (by decide)

theorem bit_step (v offset : BitVec 32) (x : UInt8) :
    v <<< 1 ||| (x.toBitVec.setWidth 32 >>> (7 - offset % 8) &&& 1) =
      v * 2 ^ 1 + word [x.toNat.testBit (7 - offset.toNat % 8)] := by
  have hshift : (7 - offset % 8).toNat = 7 - offset.toNat % 8 := by
    have hmod : offset.toNat % 8 < 8 := Nat.mod_lt _ (by decide)
    have hoff : (offset % 8).toNat = offset.toNat % 8 := BitVec.toNat_umod
    rw [BitVec.toNat_sub_of_le (by rw [BitVec.le_def, hoff]; simp; omega), hoff]
    rfl
  have hx : (x.toBitVec.setWidth 32).toNat = x.toNat := by
    rw [BitVec.toNat_setWidth, UInt8.toNat_toBitVec, Nat.mod_eq_of_lt]
    exact lt_trans x.toNat_lt (by decide)
  have hbit : x.toBitVec.setWidth 32 >>> (7 - offset % 8) &&& 1 =
      word [x.toNat.testBit (7 - offset.toNat % 8)] := by
    apply BitVec.eq_of_toNat_eq
    have hle := Bool.toNat_le (x.toNat.testBit (7 - offset.toNat % 8))
    have hone : (1 : BitVec 32).toNat = 1 := rfl
    rw [BitVec.toNat_and, BitVec.ushiftRight_eq', BitVec.toNat_ushiftRight, hx, hshift, hone,
      Nat.and_one_is_mod, Nat.shiftRight_eq_div_pow, ← Nat.toNat_testBit, word,
      BitVec.toNat_ofNat, value_cons, value_nil, List.length_nil]
    omega
  rw [hbit]
  refine shift_or _ _ _ (lt_of_le_of_lt (Nat.mod_le _ _) ?_)
  exact value_lt [x.toNat.testBit (7 - offset.toNat % 8)]

theorem field_byte (h : offset.toNat + n ≤ 8 * d.length) (hn : 0 < n) :
    d[(offset / 8).toNat]? = some (d.getD (offset.toNat / 8) 0) := by
  have hdiv : (offset / 8).toNat = offset.toNat / 8 := BitVec.toNat_udiv
  have hlt : offset.toNat / 8 < d.length := by omega
  rw [hdiv, List.getElem?_eq_getElem hlt, List.getD_eq_getElem _ _ hlt]

theorem append_field {m : ℕ} (v : BitVec 32) (hm : m ≤ n) (offset : BitVec 32)
    (d : List UInt8) :
    (v * 2 ^ m + word (fieldBits d offset.toNat m)) * 2 ^ (n - m) +
        word (fieldBits d (offset + BitVec.ofNat 32 m).toNat (n - m)) =
      v * 2 ^ n + word (fieldBits d offset.toNat n) := by
  have hn : n = m + (n - m) := by omega
  have hnext : fieldBits d (offset + BitVec.ofNat 32 m).toNat (n - m) =
      fieldBits d (offset.toNat + m) (n - m) := by
    rw [BitVec.toNat_add, BitVec.toNat_ofNat, Nat.add_mod_mod, fieldBits_mod]
  have hall : word (fieldBits d offset.toNat n) =
      word (fieldBits d offset.toNat m) * 2 ^ (n - m) +
        word (fieldBits d (offset.toNat + m) (n - m)) := by
    conv_lhs => rw [hn]
    rw [fieldBits_add, word_append, length_fieldBits]
  have hpow : (2 : BitVec 32) ^ n = 2 ^ m * 2 ^ (n - m) := by
    conv_lhs => rw [hn]
    rw [pow_add]
  rw [hnext, hall, hpow]
  ring

theorem fieldBits_byte (d : List UInt8) (h : 8 ∣ offset.toNat) :
    fieldBits d offset.toNat 8 = byteBits (d.getD (offset.toNat / 8) 0) := by
  have hlt := offset.isLt
  rw [byteBits_eq h]
  refine List.map_congr_left fun i hi => ?_
  have hi8 : i < 8 := List.mem_range.mp hi
  rw [Nat.mod_eq_of_lt (by omega)]

theorem fieldBits_bit (d : List UInt8) (offset : BitVec 32) :
    fieldBits d offset.toNat 1 =
      [(d.getD (offset.toNat / 8) 0).toNat.testBit (7 - offset.toNat % 8)] := by
  have hlt := offset.isLt
  rw [fieldBits, List.range_one, List.map_cons, List.map_nil, Nat.add_zero,
    Nat.mod_eq_of_lt hlt, bitAt]

theorem toNat_add_left (m : ℕ) (hi : i.toNat + m ≤ bits.toNat) :
    (i + BitVec.ofNat 32 m).toNat = i.toNat + m := by
  have hlt := bits.isLt
  rw [BitVec.toNat_add, BitVec.toNat_ofNat, Nat.add_mod_mod, Nat.mod_eq_of_lt (by omega)]

theorem stays_inside (m : ℕ) (hm : m ≤ n) (h : offset.toNat + n ≤ 8 * d.length) :
    (offset + BitVec.ofNat 32 m).toNat + (n - m) ≤ 8 * d.length := by
  have hle := Nat.mod_le (offset.toNat + m) (2 ^ 32)
  rw [BitVec.toNat_add, BitVec.toNat_ofNat, Nat.add_mod_mod]
  omega

theorem aligned_iff : offset % 8 = 0 ↔ 8 ∣ offset.toNat := by
  have hmod : (offset % 8).toNat = offset.toNat % 8 := BitVec.toNat_umod
  rw [← BitVec.toNat_inj, hmod, Nat.dvd_iff_mod_eq_zero]
  rfl

theorem fieldLoop_eq (hi : i.toNat ≤ bits.toNat) (hfuel : bits.toNat - i.toNat ≤ fuel)
    (hin : offset.toNat + (bits.toNat - i.toNat) ≤ 8 * d.length) :
    fieldLoop d bits fuel i offset v =
      some (v * 2 ^ (bits.toNat - i.toNat) +
        word (fieldBits d offset.toNat (bits.toNat - i.toNat)),
        offset + BitVec.ofNat 32 (bits.toNat - i.toNat)) := by
  induction fuel generalizing i offset v with
  | zero =>
    have hdone : bits.toNat - i.toNat = 0 := by omega
    have hnlt : ¬ i < bits := by
      rw [BitVec.lt_def]
      omega
    rw [fieldLoop, if_neg hnlt, hdone]
    simp [word, fieldBits]
  | succ fuel ih =>
    rw [fieldLoop]
    by_cases hlt : i < bits
    · have hpos : i.toNat < bits.toNat := hlt
      have hleft : (bits - i).toNat = bits.toNat - i.toNat := BitVec.toNat_sub_of_le hi
      -- a step of either kind
      have hstep : ∀ m, 0 < m → m ≤ bits.toNat - i.toNat →
          fieldLoop d bits fuel (i + BitVec.ofNat 32 m) (offset + BitVec.ofNat 32 m)
            (v * 2 ^ m + word (fieldBits d offset.toNat m)) =
          some (v * 2 ^ (bits.toNat - i.toNat) +
            word (fieldBits d offset.toNat (bits.toNat - i.toNat)),
            offset + BitVec.ofNat 32 (bits.toNat - i.toNat)) := by
        intro m hm hle
        have him : (i + BitVec.ofNat 32 m).toNat = i.toNat + m :=
          toNat_add_left m (by omega : i.toNat + m ≤ bits.toNat)
        have hrest : bits.toNat - (i + BitVec.ofNat 32 m).toNat = bits.toNat - i.toNat - m := by
          omega
        have hend : offset + BitVec.ofNat 32 m + BitVec.ofNat 32 (bits.toNat - i.toNat - m) =
            offset + BitVec.ofNat 32 (bits.toNat - i.toNat) := by
          rw [BitVec.add_assoc, ← BitVec.ofNat_add, Nat.add_sub_cancel' hle]
        rw [ih (by omega) (by omega) (hrest ▸ stays_inside m hle hin), hrest,
          append_field v hle, hend]
      rw [if_pos hlt, field_byte hin (by omega), Option.bind_some]
      split
      · rename_i hbyte
        have h8 : 8 ≤ bits.toNat - i.toNat := by
          have hle := BitVec.le_def.mp hbyte.1
          rwa [hleft] at hle
        rw [byte_step, ← fieldBits_byte d (aligned_iff.mp hbyte.2)]
        exact hstep 8 (by decide) h8
      · rw [bit_step, ← fieldBits_bit d offset]
        exact hstep 1 (by decide) (by omega)
    · have hge : bits.toNat ≤ i.toNat := BitVec.not_lt.mp hlt
      have hdone : bits.toNat - i.toNat = 0 := by omega
      rw [if_neg hlt, hdone]
      simp [word, fieldBits]

theorem bitLoop_eq (hin : offset.toNat + n ≤ 8 * d.length) :
    bitLoop d n offset v =
      some (v * 2 ^ n + word (fieldBits d offset.toNat n), offset + BitVec.ofNat 32 n) := by
  induction n generalizing offset v with
  | zero => simp [bitLoop, word, fieldBits]
  | succ n ih =>
    have hrest := stays_inside 1 (Nat.le_add_left 1 n) hin
    have hend : offset + BitVec.ofNat 32 1 + BitVec.ofNat 32 n =
        offset + BitVec.ofNat 32 (n + 1) := by
      rw [BitVec.add_assoc, ← BitVec.ofNat_add, Nat.add_comm 1 n]
    have happend := append_field v (Nat.le_add_left 1 n) offset d
    rw [Nat.add_sub_cancel] at hrest happend
    rw [bitLoop, field_byte hin (Nat.succ_pos n), Option.bind_some, bit_step,
      ← fieldBits_bit d offset]
    change bitLoop d n (offset + BitVec.ofNat 32 1) _ = _
    rw [ih hrest, happend, hend]

end Steps

/-! ### Fields -/

section Reading

variable {d : List UInt8} {offset : BitVec 32} {w m n : ℕ}

theorem get_field_eq (hw : w < 2 ^ 32) (hin : offset.toNat + w ≤ 8 * d.length) :
    get_field d (BitVec.ofNat 32 w) offset =
      some (int32 (value (fieldBits d offset.toNat w)), offset + BitVec.ofNat 32 w) := by
  have hbits : (BitVec.ofNat 32 w).toNat = w := by
    rw [BitVec.toNat_ofNat, Nat.mod_eq_of_lt hw]
  have hleft : (BitVec.ofNat 32 w).toNat - (0 : BitVec 32).toNat = w := hbits
  have hloop : fieldLoop d (BitVec.ofNat 32 w) (BitVec.ofNat 32 w).toNat 0 offset 0 =
      some (0 * 2 ^ w + word (fieldBits d offset.toNat w), offset + BitVec.ofNat 32 w) := by
    have hi : (0 : BitVec 32).toNat ≤ (BitVec.ofNat 32 w).toNat := Nat.zero_le _
    have hfuel : (BitVec.ofNat 32 w).toNat - (0 : BitVec 32).toNat ≤ (BitVec.ofNat 32 w).toNat :=
      Nat.sub_le _ _
    have h := fieldLoop_eq (v := 0) hi hfuel (hleft.symm ▸ hin)
    rwa [hleft] at h
  rw [get_field, hloop, Option.map_some, zero_mul, zero_add]
  dsimp only
  rw [word, toInt_ofNat]

theorem bitLoop_word (hin : offset.toNat + w ≤ 8 * d.length) :
    (bitLoop d w offset 0).map (fun (v, offset) => (v.toInt, offset)) =
      some (int32 (value (fieldBits d offset.toNat w)), offset + BitVec.ofNat 32 w) := by
  rw [bitLoop_eq hin, Option.map_some, zero_mul, zero_add]
  dsimp only
  rw [word, toInt_ofNat]

theorem int32_modEq (x : ℤ) : int32 x ≡ x [ZMOD 2 ^ 32] := by
  unfold int32 Int.ModEq
  omega

theorem int32_congr {x y : ℤ} (h : x ≡ y [ZMOD 2 ^ 32]) : int32 x = int32 y := by
  unfold Int.ModEq at h
  unfold int32
  omega

theorem int32_append (as bs : List Bool) :
    int32 (value (as ++ bs)) =
      int32 (int32 (value as) * 2 ^ bs.length + int32 (value bs)) := by
  have h := ((int32_modEq (value as)).mul_right (2 ^ bs.length)).add (int32_modEq (value bs))
  rw [int32_congr h, value_append]
  push_cast
  rfl

end Reading

/-- What is read of the field with the width `w` at `offset`: the number with its bits as an
`int`, by single bits as well, and in two parts as well. -/
structure ReadsField (d : List UInt8) (offset : BitVec 32) (w : ℕ) (r : ℤ) : Prop where
  read : get_field d (BitVec.ofNat 32 w) offset = some (r, offset + BitVec.ofNat 32 w)
  digits : r = int32 (value (fieldBits d offset.toNat w))
  named : offset.toNat + w ≤ 2 ^ 32 →
    fieldBits d offset.toNat w = ((bitString d).drop offset.toNat).take w
  single : (bitLoop d w offset 0).map (fun (v, offset) => (v.toInt, offset)) =
    some (r, offset + BitVec.ofNat 32 w)
  parts : ∀ m n, m + n = w → ∃ r₁ r₂,
    get_field d (BitVec.ofNat 32 m) offset = some (r₁, offset + BitVec.ofNat 32 m) ∧
    get_field d (BitVec.ofNat 32 n) (offset + BitVec.ofNat 32 m) =
      some (r₂, offset + BitVec.ofNat 32 w) ∧
    r = int32 (r₁ * 2 ^ n + r₂)

/-- `get_field` reads every field that lies in the string. -/
theorem reads_every_field (d : List UInt8) (offset : BitVec 32) (w : ℕ) (hw : w ≤ 32)
    (hin : offset.toNat + w ≤ 8 * d.length) : ∃ r, ReadsField d offset w r := by
  have hlt : w < 2 ^ 32 := lt_of_le_of_lt hw (by decide)
  refine ⟨_, get_field_eq hlt hin, rfl, fieldBits_eq hin, bitLoop_word hin, ?_⟩
  rintro m n rfl
  have hrest := stays_inside m (Nat.le_add_right m n) hin
  rw [Nat.add_sub_cancel_left] at hrest
  have hend : offset + BitVec.ofNat 32 m + BitVec.ofNat 32 n =
      offset + BitVec.ofNat 32 (m + n) := by
    rw [BitVec.add_assoc, ← BitVec.ofNat_add]
  have hnext : fieldBits d (offset + BitVec.ofNat 32 m).toNat n =
      fieldBits d (offset.toNat + m) n := by
    rw [BitVec.toNat_add, BitVec.toNat_ofNat, Nat.add_mod_mod, fieldBits_mod]
  refine ⟨int32 (value (fieldBits d offset.toNat m)),
    int32 (value (fieldBits d (offset.toNat + m) n)), get_field_eq (by omega) (by omega), ?_, ?_⟩
  · rw [get_field_eq (by omega) hrest, hend, hnext]
  · rw [fieldBits_add, int32_append, length_fieldBits]

/-- Seven bits that begin with the fourth one. -/
theorem reads_every_field_across : ∃ r, ReadsField [0xb5, 0x3c] 3 7 r :=
  reads_every_field [0xb5, 0x3c] 3 7 (by decide) (by decide)

example : get_field [0xb5, 0x3c] 7 3 = some (0b1010100, 10) := by decide +kernel

/-- With 32 bits the number is one that an `int` has not. -/
theorem four_bytes_negative : ¬ ∀ (d : List UInt8) (offset : BitVec 32) (w : ℕ), w ≤ 32 →
    offset.toNat + w ≤ 8 * d.length →
      get_field d (BitVec.ofNat 32 w) offset =
        some ((value (((bitString d).drop offset.toNat).take w) : ℤ),
          offset + BitVec.ofNat 32 w) := by
  intro hall
  have h := hall [0xff, 0xff, 0xff, 0xff] 0 32 (by decide) (by decide)
  revert h
  decide +kernel

end Fenice.Mediainfo
