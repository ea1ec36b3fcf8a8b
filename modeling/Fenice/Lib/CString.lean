import Mathlib.Tactic.Common
import Mathlib.Data.Nat.Notation
import Mathlib.Data.Int.Notation
import Mathlib.Tactic.Linarith
import Mathlib.Data.List.TakeWhile

/-!
# C strings over byte lists

The functions of `<string.h>` and `<stdio.h>` that a text protocol in C is
written with, on the bytes from a pointer on. A list that ends stands for a
string that ends there, as a zero byte does.
-/

namespace Fenice.CString

abbrev Bytes := List UInt8

/-- What is asked of the bytes of a string is tested on these bytes, not on all 256. -/
instance decidableBytes (s : Bytes) (p : UInt8 → Prop) [DecidablePred p] :
    Decidable (∀ c ∈ s, p c) := List.decidableBAll p s

/-- The bytes of a literal. -/
def lit (s : String) : Bytes := s.toList.map fun c => c.toNat.toUInt8

def cr : UInt8 := 13
def lf : UInt8 := 10

def isEol (c : UInt8) : Bool := c == cr || c == lf

/-- A blank or a tab. -/
def isBlank (c : UInt8) : Bool := c == 32 || c == 9

/-- `isspace` in the C locale. -/
def isSpace (c : UInt8) : Bool := c == 32 || (9 ≤ c && c ≤ 13)

def isDigit (c : UInt8) : Bool := 48 ≤ c && c ≤ 57

/-- The value of a string of decimal digits. -/
def decimal (s : Bytes) : ℕ := s.foldl (fun n c => 10 * n + (c.toNat - 48)) 0

/-- Conversions to `int` and `unsigned int`. -/
@[irreducible] def int32 (x : ℤ) : ℤ := (x + 2 ^ 31) % 2 ^ 32 - 2 ^ 31
@[irreducible] def uint32 (x : ℤ) : ℕ := (x % 2 ^ 32).toNat

theorem toInt_ofNat (n : ℕ) : (BitVec.ofNat 32 n).toInt = int32 n := by
  unfold int32
  rw [BitVec.toInt_eq_toNat_cond, BitVec.toNat_ofNat]
  split <;> omega

theorem int32_of_small {x : ℤ} (h : 0 ≤ x) (hx : x < 2 ^ 31) : int32 x = x := by
  unfold int32
  omega

theorem uint32_of_small {x : ℕ} (hx : x < 2 ^ 32) : uint32 x = x := by
  unfold uint32
  omega

def toLower (c : UInt8) : UInt8 := if 65 ≤ c && c ≤ 90 then c + 32 else c

/-- `strncasecmp (s, word, strlen (word)) == 0`. -/
def startsNoCase (word s : Bytes) : Bool := (s.take word.length).map toLower == word.map toLower

/-- `strcspn (s, "\r\n")`. -/
def lineLen (s : Bytes) : ℕ := (s.takeWhile fun c => !isEol c && c != 0).length

/-- An optional sign and digits: whether the sign is a minus, the digits, and
what follows them. `none` if there is no digit. -/
def numeral (s : Bytes) : Option (Bool × Bytes × Bytes) :=
  let sign := s.head?
  let t := if sign = some 45 ∨ sign = some 43 then s.drop 1 else s
  if t.takeWhile isDigit = [] then none
  else some (decide (sign = some 45), t.takeWhile isDigit, t.dropWhile isDigit)

/-- A numeral as `strtol` reads it, and cut to `int`. -/
def strtol (s : Bytes) : Option ℤ :=
  (numeral s).map fun n =>
    if n.1 then max (-(decimal n.2.1 : ℤ)) (-2 ^ 63) else min (decimal n.2.1 : ℤ) (2 ^ 63 - 1)

def scanSigned (s : Bytes) : Option ℤ := (strtol s).map int32

/-- `sscanf (s, "%d", &x)` and `sscanf (s, "%ld", &x)`; `none` if nothing was
converted. -/
def scanInt (s : Bytes) : Option ℤ := scanSigned (s.dropWhile isSpace)
def scanLong (s : Bytes) : Option ℤ := strtol (s.dropWhile isSpace)

/-! ### Lemmas -/

theorem startsNoCase_append {word s : Bytes} (h : word.length ≤ s.length) (t : Bytes) :
    startsNoCase word (s ++ t) = startsNoCase word s := by
  unfold startsNoCase
  rw [List.take_append_of_le_length h]

theorem lineLen_append {line t : Bytes} (hl : ∀ c ∈ line, isEol c = false ∧ c ≠ 0)
    (ht : ∀ c ∈ t.head?, isEol c = true) : lineLen (line ++ t) = line.length := by
  unfold lineLen
  rw [List.takeWhile_append_of_pos]
  · cases t with
    | nil => simp
    | cons c t =>
      have hc := ht c rfl
      simp [hc]
  · intro c hc
    obtain ⟨h1, h2⟩ := hl c hc
    simp [h1, h2]

theorem le_lineLen_append {line : Bytes} (hl : ∀ c ∈ line, isEol c = false ∧ c ≠ 0) (t : Bytes) :
    line.length ≤ lineLen (line ++ t) := by
  unfold lineLen
  rw [List.takeWhile_append_of_pos]
  · simp
  · intro c hc
    obtain ⟨h1, h2⟩ := hl c hc
    simp [h1, h2]

theorem isSpace_of_isBlank {c : UInt8} (h : isBlank c = true) : isSpace c = true := by
  simp only [isBlank, Bool.or_eq_true, beq_iff_eq] at h
  rcases h with rfl | rfl <;> decide

theorem isDigit_bounds {c : UInt8} : isDigit c = true ↔ 48 ≤ c.toNat ∧ c.toNat ≤ 57 := by
  simp only [isDigit, Bool.and_eq_true, decide_eq_true_eq, UInt8.le_iff_toNat_le,
    UInt8.reduceToNat]

theorem isSpace_bounds {c : UInt8} :
    isSpace c = true ↔ c.toNat = 32 ∨ 9 ≤ c.toNat ∧ c.toNat ≤ 13 := by
  simp only [isSpace, Bool.or_eq_true, Bool.and_eq_true, decide_eq_true_eq, beq_iff_eq,
    UInt8.le_iff_toNat_le, UInt8.reduceToNat, ← UInt8.toNat_inj]

theorem isSpace_false_of_isDigit {c : UInt8} (h : isDigit c = true) : isSpace c = false := by
  rw [isDigit_bounds] at h
  rw [Bool.eq_false_iff, ne_eq, isSpace_bounds]
  omega

theorem scanSigned_digits {digits t : Bytes} (hd : ∀ c ∈ digits, isDigit c = true)
    (hne : digits ≠ []) (ht : ∀ c ∈ t.head?, isDigit c = false)
    (hsmall : decimal digits < 2 ^ 31) :
    scanSigned (digits ++ t) = some (decimal digits : ℤ) := by
  obtain ⟨d, ds, rfl⟩ := List.exists_cons_of_ne_nil hne
  have hdig := isDigit_bounds.mp (hd d (List.mem_cons_self ..))
  have hsign : (d :: ds ++ t).head? ≠ some 45 ∧ (d :: ds ++ t).head? ≠ some 43 := by
    simp only [List.cons_append, List.head?_cons, ne_eq, Option.some.injEq, ← UInt8.toNat_inj,
      UInt8.reduceToNat]
    omega
  have htake : (d :: ds ++ t).takeWhile isDigit = d :: ds := by
    rw [List.takeWhile_append_of_pos hd]
    cases t with
    | nil => simp
    | cons c t => simp [ht c rfl]
  unfold scanSigned strtol numeral
  simp only [hsign.1, hsign.2, or_self, if_false, htake, hne, decide_false, Option.map_some]
  rw [if_neg Bool.false_ne_true, min_eq_left (by omega), int32_of_small (by omega) (by omega)]

theorem scanInt_digits {blanks digits t : Bytes} (hb : ∀ c ∈ blanks, isBlank c = true)
    (hd : ∀ c ∈ digits, isDigit c = true) (hne : digits ≠ [])
    (ht : ∀ c ∈ t.head?, isDigit c = false) (hsmall : decimal digits < 2 ^ 31) :
    scanInt (blanks ++ (digits ++ t)) = some (decimal digits : ℤ) := by
  obtain ⟨d, ds, rfl⟩ := List.exists_cons_of_ne_nil hne
  have hnospace := isSpace_false_of_isDigit (hd d (List.mem_cons_self ..))
  unfold scanInt
  rw [List.dropWhile_append_of_pos fun c hc => isSpace_of_isBlank (hb c hc)]
  rw [List.cons_append, List.dropWhile_cons_of_neg (by simp [hnospace]), ← List.cons_append]
  exact scanSigned_digits hd hne ht hsmall

end Fenice.CString
