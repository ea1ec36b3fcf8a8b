import Fenice.Lib.CString
import Mathlib.Data.Nat.Digits.Defs

/-!
# Searching, splitting and printing C strings

More of `<string.h>` and `<stdio.h>`. A string is given by the bytes from a
pointer on and ends with the list; a result that is a pointer into the string
is given by what stands from there on.
-/

namespace Fenice.CString

/-- The string at the start of a memory area: all in front of the first zero. -/
def cstr (s : Bytes) : Bytes := s.takeWhile (· != 0)

def strstr (s word : Bytes) : Option Bytes :=
  if s.take word.length = word then some s
  else
    match s with
    | [] => none
    | _ :: s => strstr s word

def strchr : Bytes → UInt8 → Option Bytes
  | [], _ => none
  | d :: s, c => if d = c then some (d :: s) else strchr s c

def strrchr : Bytes → UInt8 → Option Bytes
  | [], _ => none
  | d :: s, c =>
    match strrchr s c with
    | some t => some t
    | none => if d = c then some (d :: s) else none

/-- `strcasecmp (s, t) == 0`. -/
def eqNoCase (s t : Bytes) : Bool := s.map toLower == t.map toLower

/-- A conversion `%<width>s`: the word and what follows it; `none` at the end of
the string. -/
def scanWord (width : ℕ) (s : Bytes) : Option (Bytes × Bytes) :=
  let t := s.dropWhile isSpace
  let word := (t.take width).takeWhile fun c => !isSpace c
  if word = [] then none else some (word, t.drop word.length)

/-- A conversion `%s` or `%*s`. -/
def scanAnyWord (s : Bytes) : Option (Bytes × Bytes) := scanWord s.length s

/-- A numeral as `strtoul` reads it: a minus sign negates modulo 2^64. -/
def strtoul (s : Bytes) : Option (ℕ × Bytes) :=
  (numeral s).map fun n =>
    (if decimal n.2.1 < 2 ^ 64 then
      if n.1 then (2 ^ 64 - decimal n.2.1) % 2 ^ 64 else decimal n.2.1
    else 2 ^ 64 - 1, n.2.2)

/-- Conversions `%u` and `%hu`, with what follows. -/
def scanUnsigned (s : Bytes) : Option (ℕ × Bytes) :=
  (strtoul (s.dropWhile isSpace)).map fun n => (n.1 % 2 ^ 32, n.2)

def scanShort (s : Bytes) : Option ℕ :=
  (strtoul (s.dropWhile isSpace)).map fun n => n.1 % 2 ^ 16

def atol (s : Bytes) : ℤ := (scanLong s).getD 0

/-- The tokens that repeated calls of `strtok_r` give for one delimiter. -/
def tokens (delim : UInt8) (s : Bytes) : List Bytes :=
  (s.splitOnP (· == delim)).filter (· != [])

/-- The memory `strtok` works on, and the place where its next call goes on. -/
structure Strtok where
  mem : Bytes
  next : ℕ

/-- `strtok` from the offset `next`: the delimiters are passed over, and the byte
behind the token becomes zero. -/
def strtok (t : Strtok) (delims : Bytes) : Option Bytes × Strtok :=
  let start := t.next + ((t.mem.drop t.next).takeWhile fun c => delims.contains c).length
  let token := (t.mem.drop start).takeWhile fun c => c != 0 && !delims.contains c
  let stop := start + token.length
  if token = [] then (none, { t with next := start })
  else if t.mem.getD stop 0 = 0 then (some token, { t with next := stop })
  else (some token, ⟨t.mem.set stop 0, stop + 1⟩)

/-- `%u` and `%d` of `printf`. -/
def natText (n : ℕ) : Bytes :=
  if n = 0 then [48] else ((Nat.digits 10 n).map fun d => 48 + d.toUInt8).reverse

def intText (x : ℤ) : Bytes := if x < 0 then 45 :: natText x.natAbs else natText x.natAbs

/-! ### Printed numbers -/

theorem digit_toNat {d : ℕ} (h : d < 10) : (48 + d.toUInt8).toNat = 48 + d := by
  have hall : ∀ d < 10, (48 + (d : ℕ).toUInt8).toNat = 48 + d := by decide
  exact hall d h

theorem isDigit_natText (n : ℕ) : ∀ c ∈ natText n, isDigit c = true := by
  intro c hc
  unfold natText at hc
  split at hc
  · rw [List.mem_singleton.mp hc]
    rfl
  · obtain ⟨d, hd, rfl⟩ := List.mem_map.mp (List.mem_reverse.mp hc)
    have hlt : d < 10 := Nat.digits_lt_base (by omega) hd
    rw [isDigit_bounds, digit_toNat hlt]
    omega

theorem natText_ne_nil (n : ℕ) : natText n ≠ [] := by
  unfold natText
  split
  · exact List.cons_ne_nil _ _
  · rename_i h
    simpa using Nat.digits_ne_nil_iff_ne_zero.mpr h

theorem digits_natText (n : ℕ) :
    Nat.ofDigits 10 ((natText n).reverse.map fun c => c.toNat - 48) = n := by
  unfold natText
  split
  · rename_i h
    rw [h]
    rfl
  · rw [List.reverse_reverse, List.map_map]
    have hmap : (Nat.digits 10 n).map ((fun c : UInt8 => c.toNat - 48) ∘
        fun d => 48 + d.toUInt8) = Nat.digits 10 n := by
      rw [List.map_congr_left (g := id) ?_, List.map_id]
      intro d hd
      have hlt : d < 10 := Nat.digits_lt_base (by omega) hd
      simp only [Function.comp_apply, digit_toNat hlt, id]
      omega
    rw [hmap, Nat.ofDigits_digits]

theorem natText_inj {m n : ℕ} (h : natText m = natText n) : m = n := by
  rw [← digits_natText m, h, digits_natText n]

theorem natText_head (n : ℕ) : (natText n).head? ≠ some 45 := by
  intro h
  have hd := isDigit_natText n 45 (List.mem_of_head? h)
  cases hd

theorem intText_inj {x y : ℤ} (h : intText x = intText y) : x = y := by
  unfold intText at h
  split at h <;> split at h
  · have := natText_inj ((List.cons.inj h).2)
    omega
  · exact absurd (congrArg List.head? h.symm) (natText_head _)
  · exact absurd (congrArg List.head? h) (natText_head _)
  · have := natText_inj h
    omega

theorem cr_notMem_intText (x : ℤ) : cr ∉ intText x := by
  intro h
  unfold intText at h
  split at h
  · rcases List.mem_cons.mp h with h | h
    · cases h
    · cases isDigit_natText _ _ h
  · cases isDigit_natText _ _ h

theorem intText_line {x y : ℤ} {s t : Bytes} (h : intText x ++ cr :: s = intText y ++ cr :: t) :
    x = y := by
  have hx := cr_notMem_intText x
  have hy := cr_notMem_intText y
  have htake : ∀ {z : ℤ} (u : Bytes), cr ∉ intText z →
      (intText z ++ cr :: u).takeWhile (· != cr) = intText z := by
    intro z u hz
    rw [List.takeWhile_append_of_pos]
    · rw [List.takeWhile_cons_of_neg (by simp), List.append_nil]
    · intro c hc
      rw [bne_iff_ne]
      intro he
      exact hz (he ▸ hc)
  apply intText_inj
  rw [← htake s hx, h, htake t hy]

end Fenice.CString
