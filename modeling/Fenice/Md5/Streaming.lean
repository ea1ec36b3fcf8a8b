import Fenice.Lib.Blocks
import Fenice.Md5.Digest

/-!
# A digest does not depend on the pieces

However a message is cut into calls of `MD5Update`, `MD5Final` gives the digest of the padded
message.
-/

namespace Fenice.Md5
open Fenice.CString Fenice.Blocks

variable {w : ℕ}

/-- A number in eight bytes, the lowest one first. -/
def lengthBytes (n : ℕ) : Bytes := (List.range 8).map fun i => UInt8.ofNat (n / 256 ^ i)

/-- A one bit, zeros up to 56 bytes modulo 64, and the number of bits. -/
def padding (n : ℕ) : Bytes :=
  0x80 :: List.replicate ((119 - n % 64) % 64) 0 ++ lengthBytes (8 * n)

def initState (w : ℕ) : State w := ⟨0x67452301, 0xefcdab89, 0x98badcfe, 0x10325476⟩

/-- The digest of a message, block by block. -/
def md5 (w : ℕ) (message : Bytes) : Bytes :=
  Encode ((blocks 64 (message ++ padding message.length)).foldl MD5Transform (initState w)).words

/-- `MD5Init`, a call of `MD5Update` for each piece, and `MD5Final`. -/
def digestOf (w : ℕ) (junk : Bytes) (hjunk : junk.length = 64) (pieces : List Bytes) :
    Option Bytes :=
  (pieces.foldlM MD5Update (MD5Init w junk hjunk)).bind MD5Final

/-! ### The loop -/

theorem transformLoop_eq {input : Bytes} (hlen : input.length + 63 < 2 ^ 32) {i : ℕ}
    (hi : i ≤ input.length) (s : State w) :
    ∃ j, transformLoop input i s =
        some (j, (blocks 64 (input.drop i)).foldl MD5Transform s) ∧
      input.drop j = rest 64 (input.drop i) := by
  induction h : input.length - i using Nat.strong_induction_on generalizing i s with
  | _ k ih =>
    have hwrap : (i + 63) % 2 ^ 32 = i + 63 := Nat.mod_eq_of_lt (by omega)
    have hdrop : (input.drop i).length = input.length - i := List.length_drop
    rw [transformLoop, hwrap]
    by_cases hmore : i + 63 < input.length
    · rw [if_pos hmore, if_pos (by omega : i + 64 ≤ input.length)]
      obtain ⟨j, hloop, hj⟩ := ih (input.length - (i + 64)) (by omega) (by omega)
        (MD5Transform s ((input.drop i).take 64)) rfl
      have hblock : ((input.drop i).take 64).length = 64 := by
        rw [List.length_take, hdrop]
        omega
      have hcut : input.drop i = (input.drop i).take 64 ++ input.drop (i + 64) := by
        rw [← List.drop_drop, List.take_append_drop]
      refine ⟨j, ?_, ?_⟩
      · rw [hloop, hcut, blocks_append_block (by decide) hblock, List.foldl_cons, ← hcut]
      · rw [hj, hcut, rest_append_block (by decide) hblock]
    · rw [if_neg hmore]
      have hshort : (input.drop i).length < 64 := by
        rw [hdrop]
        omega
      exact ⟨i, by rw [blocks_of_short hshort]; rfl, (rest_of_short hshort).symm⟩

theorem copyIn_eq (c : MD5_CTX w) {index : ℕ} {bytes : Bytes} (h : index + bytes.length ≤ 64) :
    ∃ c', c.copyIn index bytes = some c' ∧ c'.state = c.state ∧ c'.count₀ = c.count₀ ∧
      c'.count₁ = c.count₁ ∧
      c'.buffer.take (index + bytes.length) = c.buffer.take index ++ bytes := by
  have hfull := c.full
  have hindex : (c.buffer.take index).length = index := by
    rw [List.length_take]
    omega
  unfold MD5_CTX.copyIn
  rw [dif_pos h]
  refine ⟨_, rfl, rfl, rfl, rfl, ?_⟩
  dsimp only
  rw [← List.append_assoc]
  exact List.take_left' (by rw [List.length_append, hindex])

/-- The context has taken in the message; `buffer` begins with what is left of it. -/
def Holds (c : MD5_CTX w) (m : Bytes) : Prop :=
  Fed 64 MD5Transform (initState w) m c.state (c.buffer.take (m.length % 64))

/-- The input is too short for a block: it is put behind what is in the buffer. -/
theorem buffered_holds {c : MD5_CTX w} {m input : Bytes} (hc : Holds c m)
    (hroom : m.length % 64 + input.length < 64) :
    ∃ c', (c.counted input.length).copyIn (m.length % 64) input = some c' ∧
      c'.count₀ = (c.counted input.length).count₀ ∧
      c'.count₁ = (c.counted input.length).count₁ ∧ Holds c' (m ++ input) := by
  have hfull := c.full
  have hfed : Fed 64 MD5Transform _ _ _ _ := hc.feed (by decide) input
  obtain ⟨c₁, hcopy, hstate, hcount₀, hcount₁, hbuffer⟩ :=
    copyIn_eq (c.counted input.length) hroom.le
  refine ⟨c₁, hcopy, hcount₀, hcount₁, ?_⟩
  have hshort : (c.buffer.take (m.length % 64) ++ input).length < 64 := by
    rw [List.length_append, List.length_take]
    omega
  rw [blocks_of_short hshort, rest_of_short hshort] at hfed
  have hmod : (m ++ input).length % 64 = m.length % 64 + input.length := by
    rw [List.length_append]
    omega
  rw [Holds, hmod, hbuffer, hstate]
  exact hfed

theorem MD5Update_holds {c : MD5_CTX w} {m input : Bytes} (hc : Holds c m)
    (hindex : c.index = m.length % 64) (hlen : input.length + 63 < 2 ^ 32) :
    ∃ c', MD5Update c input = some c' ∧ c'.count₀ = (c.counted input.length).count₀ ∧
      c'.count₁ = (c.counted input.length).count₁ ∧ Holds c' (m ++ input) := by
  have hmod : m.length % 64 < 64 := Nat.mod_lt _ (by decide)
  unfold MD5Update
  dsimp only
  rw [hindex]
  by_cases hpart : 64 - m.length % 64 ≤ input.length
  · -- the buffer is filled and transformed, then whole blocks of the input
    have hfed : Fed 64 MD5Transform _ _ _ _ := hc.feed (by decide) input
    rw [if_pos hpart]
    have htake : (input.take (64 - m.length % 64)).length = 64 - m.length % 64 := by
      rw [List.length_take, min_eq_left hpart]
    have hall : m.length % 64 + (input.take (64 - m.length % 64)).length = 64 := by
      rw [htake]
      omega
    obtain ⟨c₁, hcopy, hstate, hcount₀, hcount₁, hbuffer⟩ :=
      copyIn_eq (c.counted input.length) hall.le
    have hblock : c₁.buffer = c.buffer.take (m.length % 64) ++ input.take (64 - m.length % 64) := by
      rw [hall, List.take_of_length_le c₁.full.le] at hbuffer
      exact hbuffer
    obtain ⟨j, hloop, hj⟩ := transformLoop_eq hlen hpart (MD5Transform c₁.state c₁.buffer)
    have hshort : 0 + (input.drop j).length ≤ 64 := by
      rw [hj, Nat.zero_add]
      exact (rest_short (by decide) _).le
    obtain ⟨c₂, hcopy₂, hstate₂, hcount₀₂, hcount₁₂, hbuffer₂⟩ :=
      copyIn_eq { c₁ with
        state := (blocks 64 (input.drop (64 - m.length % 64))).foldl MD5Transform
          (MD5Transform c₁.state c₁.buffer) } hshort
    rw [hcopy, Option.bind_some, hloop, Option.bind_some]
    refine ⟨c₂, hcopy₂, hcount₀₂.trans hcount₀, hcount₁₂.trans hcount₁, ?_⟩
    have hcut : c.buffer.take (m.length % 64) ++ input =
        c₁.buffer ++ input.drop (64 - m.length % 64) := by
      rw [hblock, List.append_assoc, List.take_append_drop]
    rw [hcut, blocks_append_block (by decide) c₁.full, rest_append_block (by decide) c₁.full,
      ← hj, List.foldl_cons] at hfed
    rw [Nat.zero_add, List.take_zero, List.nil_append] at hbuffer₂
    rw [Holds, hstate₂, ← hfed.length, hbuffer₂]
    dsimp only
    rw [hstate]
    exact hfed
  · rw [if_neg hpart]
    exact buffered_holds hc (by omega)

/-! ### The number of bits -/

/-- `count` is the number of bits of `n` bytes. In words of more than 32 bits it is only
followed below 2^33 bits. -/
def Counted (c : MD5_CTX w) (n : ℕ) : Prop :=
  w = 32 ∧ c.count₀.toNat + 2 ^ 32 * c.count₁.toNat = 8 * n % 2 ^ 64 ∨
    32 < w ∧ n < 2 ^ 30 ∧ c.count₀.toNat = 8 * n ∧ c.count₁.toNat = 0

theorem toNat_bits {n : ℕ} (hw : 32 ≤ w) (hn : n < 2 ^ 32) :
    (BitVec.ofNat w n <<< 3).toNat = 8 * n % 2 ^ w ∧
      (BitVec.ofNat w n >>> 29).toNat = n / 2 ^ 29 := by
  have hlt : n < 2 ^ w := lt_of_lt_of_le hn (Nat.pow_le_pow_right (by decide) hw)
  rw [BitVec.toNat_shiftLeft, BitVec.toNat_ushiftRight, BitVec.toNat_ofNat, Nat.mod_eq_of_lt hlt,
    Nat.shiftLeft_eq, Nat.shiftRight_eq_div_pow, Nat.mul_comm]
  exact ⟨rfl, rfl⟩

theorem counted_toNat (c : MD5_CTX w) {k : ℕ} (hw : 32 ≤ w) (hk : k < 2 ^ 32) :
    (c.counted k).count₀.toNat = (c.count₀.toNat + 8 * k % 2 ^ w) % 2 ^ w ∧
      (c.counted k).count₁.toNat = (c.count₁.toNat +
        (if (c.count₀.toNat + 8 * k % 2 ^ w) % 2 ^ w < 8 * k % 2 ^ w then 1 else 0) +
          k / 2 ^ 29) % 2 ^ w := by
  obtain ⟨hbits, hhigh⟩ := toNat_bits hw hk
  have hone : (1 : BitVec w).toNat = 1 := Nat.mod_eq_of_lt (Nat.one_lt_two_pow (by omega))
  unfold MD5_CTX.counted
  dsimp only
  rw [BitVec.toNat_add, BitVec.toNat_add, hhigh, hbits]
  refine ⟨rfl, ?_⟩
  simp only [BitVec.lt_def, BitVec.toNat_add, hbits]
  split_ifs
  · rw [BitVec.toNat_add, hone, Nat.mod_add_mod]
  · rfl

theorem Counted.counted {c : MD5_CTX w} {n k : ℕ} (h : Counted c n) (hk : k < 2 ^ 32)
    (hbound : w = 32 ∨ k < 2 ^ 29 ∧ n + k < 2 ^ 30) : Counted (c.counted k) (n + k) := by
  have hw : 32 ≤ w := by
    rcases h with ⟨hw, -⟩ | ⟨hw, -⟩ <;> omega
  have h₀ := c.count₀.isLt
  have h₁ := c.count₁.isLt
  obtain ⟨hc₀, hc₁⟩ := counted_toNat c hw hk
  rcases h with ⟨rfl, h⟩ | ⟨hgt, hn, hcount₀, hcount₁⟩
  · refine Or.inl ⟨rfl, ?_⟩
    rw [hc₀, hc₁]
    split_ifs <;> omega
  · -- nothing is carried
    have hbound : k < 2 ^ 29 ∧ n + k < 2 ^ 30 := by omega
    have hroom : 2 ^ 33 ≤ 2 ^ w := Nat.pow_le_pow_right (by decide) hgt
    have hmod : 8 * k % 2 ^ w = 8 * k := Nat.mod_eq_of_lt (by omega)
    have hsum : (c.count₀.toNat + 8 * k) % 2 ^ w = 8 * n + 8 * k := by
      rw [hcount₀]
      exact Nat.mod_eq_of_lt (by omega)
    refine Or.inr ⟨hgt, hbound.2, ?_, ?_⟩
    · rw [hc₀, hmod, hsum]
      omega
    · rw [hc₁, hmod, hsum, if_neg (by omega), hcount₁, Nat.div_eq_of_lt hbound.1]
      exact Nat.zero_mod _

theorem Counted.index {c : MD5_CTX w} {n : ℕ} (h : Counted c n) : c.index = n % 64 := by
  have hw : 32 ≤ w := by
    rcases h with ⟨hw, -⟩ | ⟨hw, -⟩ <;> omega
  have hmask : (0x3f : BitVec w).toNat = 2 ^ 6 - 1 := by
    have hlt : 63 < 2 ^ w := lt_of_lt_of_le (by decide) (Nat.pow_le_pow_right (by decide) hw)
    exact Nat.mod_eq_of_lt hlt
  have hindex : c.index = c.count₀.toNat / 8 % 64 := by
    rw [MD5_CTX.index, BitVec.toNat_and, hmask, Nat.and_two_pow_sub_one_eq_mod,
      BitVec.toNat_ushiftRight, Nat.shiftRight_eq_div_pow]
  rw [hindex]
  rcases h with ⟨rfl, h⟩ | ⟨-, -, h, -⟩ <;> omega

theorem Counted.init (hw : 32 ≤ w) (junk : Bytes) (hjunk : junk.length = 64) :
    Counted (MD5Init w junk hjunk) 0 := by
  rcases Nat.eq_or_lt_of_le hw with rfl | hlt
  · exact Or.inl ⟨rfl, rfl⟩
  · refine Or.inr ⟨hlt, by decide, ?_, ?_⟩ <;> exact BitVec.toNat_zero

/-! ### The digest -/

theorem byteAt_eq (hw : 32 ≤ w) (x : BitVec w) (shift : ℕ) :
    byteAt x shift = UInt8.ofNat (x.toNat / 2 ^ shift) := by
  have hmask : (0xff : BitVec w).toNat = 2 ^ 8 - 1 := by
    have hlt : 255 < 2 ^ w := lt_of_lt_of_le (by decide) (Nat.pow_le_pow_right (by decide) hw)
    exact Nat.mod_eq_of_lt hlt
  rw [byteAt, BitVec.toNat_and, hmask, Nat.and_two_pow_sub_one_eq_mod, BitVec.toNat_ushiftRight,
    Nat.shiftRight_eq_div_pow, ← UInt8.toNat_inj, UInt8.toNat_ofNat', UInt8.toNat_ofNat',
    Nat.mod_mod]

theorem Counted.encode {c : MD5_CTX w} {n : ℕ} (h : Counted c n) (hn : w = 32 ∨ n < 2 ^ 29) :
    Encode [c.count₀, c.count₁] = lengthBytes (8 * n) := by
  have hw : 32 ≤ w := by
    rcases h with ⟨hw, -⟩ | ⟨hw, -⟩ <;> omega
  have hparts : c.count₀.toNat = 8 * n % 2 ^ 32 ∧ c.count₁.toNat = 8 * n / 2 ^ 32 % 2 ^ 32 := by
    rcases h with ⟨rfl, h⟩ | ⟨hgt, -, h₀, h₁⟩
    · have h₀ := c.count₀.isLt
      have h₁ := c.count₁.isLt
      omega
    · omega
  have hbyte : ∀ a b : ℕ, a % 256 = b % 256 → UInt8.ofNat a = UInt8.ofNat b := by
    intro a b hab
    rw [← UInt8.toNat_inj, UInt8.toNat_ofNat', UInt8.toNat_ofNat']
    exact hab
  have hencode : Encode [c.count₀, c.count₁] =
      [UInt8.ofNat (c.count₀.toNat / 2 ^ 0), UInt8.ofNat (c.count₀.toNat / 2 ^ 8),
        UInt8.ofNat (c.count₀.toNat / 2 ^ 16), UInt8.ofNat (c.count₀.toNat / 2 ^ 24),
        UInt8.ofNat (c.count₁.toNat / 2 ^ 0), UInt8.ofNat (c.count₁.toNat / 2 ^ 8),
        UInt8.ofNat (c.count₁.toNat / 2 ^ 16), UInt8.ofNat (c.count₁.toNat / 2 ^ 24)] := by
    simp only [← byteAt_eq hw]
    rfl
  have hlength : lengthBytes (8 * n) =
      [UInt8.ofNat (8 * n / 256 ^ 0), UInt8.ofNat (8 * n / 256 ^ 1), UInt8.ofNat (8 * n / 256 ^ 2),
        UInt8.ofNat (8 * n / 256 ^ 3), UInt8.ofNat (8 * n / 256 ^ 4), UInt8.ofNat (8 * n / 256 ^ 5),
        UInt8.ofNat (8 * n / 256 ^ 6), UInt8.ofNat (8 * n / 256 ^ 7)] := rfl
  rw [hencode, hlength, hparts.1, hparts.2]
  simp only [List.cons.injEq, and_true]
  refine ⟨?_, ?_, ?_, ?_, ?_, ?_, ?_, ?_⟩ <;> exact hbyte _ _ (by omega)

theorem length_lengthBytes (n : ℕ) : (lengthBytes n).length = 8 := by
  rw [lengthBytes, List.length_map, List.length_range]

theorem padding_eq (n : ℕ) :
    padding n = PADDING.take (if n % 64 < 56 then 56 - n % 64 else 120 - n % 64) ++
      lengthBytes (8 * n) := by
  have hmod : n % 64 < 64 := Nat.mod_lt _ (by decide)
  have hlen : (if n % 64 < 56 then 56 - n % 64 else 120 - n % 64) = (119 - n % 64) % 64 + 1 := by
    split_ifs <;> omega
  rw [padding, hlen, PADDING, List.take_succ_cons, List.take_replicate, min_eq_left (by omega)]

theorem MD5Final_eq {c : MD5_CTX w} {m : Bytes} (hc : Holds c m) (hcount : Counted c m.length)
    (hm : w = 32 ∨ m.length < 2 ^ 29) : MD5Final c = some (md5 w m) := by
  have hindex := hcount.index
  have hmod : m.length % 64 < 64 := Nat.mod_lt _ (by decide)
  have hbits := hcount.encode hm
  have hpad := padding_eq m.length
  unfold MD5Final
  dsimp only
  rw [← MD5_CTX.index, hindex, hbits]
  generalize hpadding : PADDING.take (if m.length % 64 < 56 then 56 - m.length % 64
    else 120 - m.length % 64) = pad at hpad ⊢
  have hlen : pad.length = (119 - m.length % 64) % 64 + 1 := by
    rw [← hpadding, List.length_take]
    have hall : PADDING.length = 64 := rfl
    rw [hall]
    split_ifs <;> omega
  have hpadlen : pad.length + 63 < 2 ^ 32 := by omega
  obtain ⟨c₁, hupdate₁, h₀, h₁, hc₁⟩ := MD5Update_holds hc hindex hpadlen
  have hcount₁ : Counted c₁ (m ++ pad).length := by
    have := hcount.counted (k := pad.length) (by omega) (by omega)
    rw [List.length_append]
    unfold Counted at this ⊢
    rw [h₀, h₁]
    exact this
  have hbitslen : (lengthBytes (8 * m.length)).length + 63 < 2 ^ 32 := by
    rw [length_lengthBytes]
    decide
  obtain ⟨c₂, hupdate₂, -, -, hc₂⟩ := MD5Update_holds hc₁ hcount₁.index hbitslen
  rw [hupdate₁, Option.bind_some, hupdate₂, Option.map_some, md5, hpad, ← List.append_assoc,
    hc₂.state]

theorem MD5Update_counted {c : MD5_CTX w} {m p : Bytes} (hc : Holds c m)
    (hcount : Counted c m.length) (hp : p.length + 63 < 2 ^ 32)
    (hm : w = 32 ∨ (m ++ p).length < 2 ^ 29) :
    ∃ c', MD5Update c p = some c' ∧ Holds c' (m ++ p) ∧ Counted c' (m ++ p).length := by
  obtain ⟨c', hupdate, h₀, h₁, hc'⟩ := MD5Update_holds hc hcount.index hp
  have hbound : w = 32 ∨ p.length < 2 ^ 29 ∧ m.length + p.length < 2 ^ 30 := by
    refine hm.imp_right fun hm => ?_
    rw [List.length_append] at hm
    omega
  have hcounted := hcount.counted (k := p.length) (by omega) hbound
  refine ⟨c', hupdate, hc', ?_⟩
  rw [List.length_append]
  unfold Counted at hcounted ⊢
  rw [h₀, h₁]
  exact hcounted

theorem pieces_digest {pieces : List Bytes} {m : Bytes} {c : MD5_CTX w} (hc : Holds c m)
    (hcount : Counted c m.length) (hpieces : ∀ p ∈ pieces, p.length + 63 < 2 ^ 32)
    (hm : w = 32 ∨ (m ++ pieces.flatten).length < 2 ^ 29) :
    (pieces.foldlM MD5Update c).bind MD5Final = some (md5 w (m ++ pieces.flatten)) := by
  induction pieces generalizing m c with
  | nil =>
    rw [List.flatten_nil, List.append_nil] at hm ⊢
    exact MD5Final_eq hc hcount hm
  | cons p pieces ih =>
    rw [List.flatten_cons, ← List.append_assoc] at hm ⊢
    have hfirst : w = 32 ∨ (m ++ p).length < 2 ^ 29 := hm.imp_right fun hm => by
      rw [List.length_append] at hm
      omega
    obtain ⟨c₁, hupdate, hc₁, hcount₁⟩ :=
      MD5Update_counted hc hcount (hpieces p List.mem_cons_self) hfirst
    rw [List.foldlM_cons]
    dsimp only [Bind.bind]
    rw [hupdate, Option.bind_some]
    exact ih hc₁ hcount₁ (fun q hq => hpieces q (List.mem_cons_of_mem p hq)) hm

theorem init_digest {pieces : List Bytes} {junk : Bytes} (hjunk : junk.length = 64)
    (hpieces : ∀ p ∈ pieces, p.length + 63 < 2 ^ 32)
    (hw : w = 32 ∨ 32 < w ∧ pieces.flatten.length < 2 ^ 29) :
    (pieces.foldlM MD5Update (MD5Init w junk hjunk)).bind MD5Final =
      some (md5 w pieces.flatten) := by
  have hw' : 32 ≤ w := by
    rcases hw with rfl | ⟨h, -⟩ <;> omega
  have hinit : Holds (MD5Init w junk hjunk) [] := .nil
  have h := pieces_digest hinit (.init hw' junk hjunk) hpieces (hw.imp_right And.right)
  rwa [List.nil_append] at h

/-- Every way to cut a message into calls gives its digest, whatever `buffer` held before. -/
theorem digest_independent {pieces : List Bytes} {junk : Bytes}
    (hjunk : junk.length = 64) (hpieces : ∀ p ∈ pieces, p.length + 63 < 2 ^ 32)
    (hw : w = 32 ∨ 32 < w ∧ pieces.flatten.length < 2 ^ 29) :
    digestOf w junk hjunk pieces = some (md5 w pieces.flatten) :=
  init_digest hjunk hpieces hw

/-- The digest of "abc" in two pieces. -/
theorem digest_independent_abc :
    digestOf 32 (List.replicate 64 7) rfl [lit "a", lit "bc"] = some (md5 32 (lit "abc")) :=
  digest_independent rfl (by decide) (Or.inl rfl)

example : md5 32 (lit "abc") =
    [0x90, 0x01, 0x50, 0x98, 0x3c, 0xd2, 0x4f, 0xb0, 0xd6, 0x96, 0x3f, 0x7d, 0x28, 0xe1, 0x7f,
      0x72] := by
  decide +kernel

-- with an `unsigned long` of 64 bits it is another function
example : md5 64 (lit "abc") ≠ md5 32 (lit "abc") := by decide +kernel

theorem md_32_eq {junk string : Bytes} (hjunk : junk.length = 64)
    (hlen : string.length + 63 < 2 ^ 32) (hw : w = 32 ∨ 32 < w ∧ string.length < 2 ^ 29) :
    md_32 w junk hjunk string =
      some (((Decode 32 (md5 w string) 16).take 3).foldl (· ^^^ ·) 0) := by
  have h : ([string].foldlM MD5Update (MD5Init w junk hjunk)).bind MD5Final = _ :=
    init_digest hjunk (by simpa using hlen) (by simpa using hw)
  rw [List.flatten_singleton, List.foldlM_cons] at h
  dsimp only [Bind.bind, List.foldlM_nil, Pure.pure] at h
  rw [Option.bind_assoc] at h
  unfold md_32
  obtain ⟨c, hc, hfinal⟩ := Option.bind_eq_some_iff.mp h
  rw [hc, Option.bind_some]
  rw [Option.bind_some] at hfinal
  rw [hfinal, Option.map_some]

end Fenice.Md5
