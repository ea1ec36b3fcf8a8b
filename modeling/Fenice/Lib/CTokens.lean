import Fenice.Lib.CText
import Mathlib.Data.List.Induction

/-!
# Where `strtok` finds its tokens, and numbers read back
-/

namespace Fenice.CString

/-- No byte of a token is zero or one of the delimiters. -/
def Token (delims token : Bytes) : Prop :=
  token ≠ [] ∧ ∀ c ∈ token, c ≠ 0 ∧ c ∉ delims

/-- A token is taken from where it stands, so long as it does not go on behind. -/
theorem strtok_run {delims token : Bytes} (h : Token delims token) (back : Bytes)
    (hback : ∀ c ∈ back.head?, c = 0 ∨ c ∈ delims) :
    ((token ++ back).takeWhile fun c => delims.contains c) = [] ∧
    ((token ++ back).takeWhile fun c => c != 0 && !delims.contains c) = token := by
  obtain ⟨hne, hplain⟩ := h
  constructor
  · obtain ⟨c, rest, rfl⟩ := List.exists_cons_of_ne_nil hne
    have hc := (hplain c (List.mem_cons_self ..)).2
    rw [List.cons_append, List.takeWhile_cons_of_neg (by simpa using hc)]
  · rw [List.takeWhile_append_of_pos]
    · cases back with
      | nil => rw [List.takeWhile_nil, List.append_nil]
      | cons d back =>
        have hd := hback d rfl
        rw [List.takeWhile_cons_of_neg, List.append_nil]
        rcases hd with rfl | hd
        · simp
        · simp [hd]
    · intro c hc
      obtain ⟨h0, hdelim⟩ := hplain c hc
      simp [h0, hdelim]

/-- A token in front of a delimiter: the delimiter becomes zero. -/
theorem strtok_before {delims token : Bytes} (h : Token delims token) (front back : Bytes)
    {d : UInt8} (hd : d ∈ delims) (hd0 : d ≠ 0) :
    strtok ⟨front ++ (token ++ d :: back), front.length⟩ delims =
      (some token, ⟨front ++ (token ++ 0 :: back), front.length + token.length + 1⟩) := by
  obtain ⟨hskip, htake⟩ := strtok_run h (d :: back) (fun c hc => by
    cases hc
    exact .inr hd)
  have hstop : (front ++ (token ++ d :: back)).getD (front.length + token.length) 0 = d := by
    rw [← List.append_assoc, ← List.length_append, List.getD_eq_getElem?_getD,
      List.getElem?_append_right (Nat.le_refl _), Nat.sub_self]
    rfl
  have hset : (front ++ (token ++ d :: back)).set (front.length + token.length) 0 =
      front ++ (token ++ 0 :: back) := by
    rw [← List.append_assoc, ← List.length_append, List.set_append_right _ _ (Nat.le_refl _),
      Nat.sub_self, List.append_assoc]
    rfl
  simp only [strtok, List.drop_left, hskip, List.length_nil, Nat.add_zero, htake, h.1, if_false]
  rw [hstop, if_neg hd0, hset]

theorem strtok_last {delims token : Bytes} (h : Token delims token) (front : Bytes) :
    (strtok ⟨front ++ token, front.length⟩ delims).1 = some token := by
  obtain ⟨hskip, htake⟩ := strtok_run h [] (fun c hc => by cases hc)
  rw [List.append_nil] at hskip htake
  have hstop : (front ++ token).getD (front.length + token.length) 0 = 0 := by
    rw [← List.length_append, List.getD_eq_getElem?_getD,
      List.getElem?_eq_none (Nat.le_refl _), Option.getD_none]
  simp only [strtok, List.drop_left, hskip, List.length_nil, Nat.add_zero, htake, h.1, if_false,
    hstop, if_true]

theorem foldl_decimal (digits : Bytes) :
    digits.foldl (fun n c => 10 * n + (c.toNat - 48)) 0 =
      Nat.ofDigits 10 (digits.reverse.map fun c => c.toNat - 48) := by
  induction digits using List.reverseRecOn with
  | nil => rfl
  | append_singleton digits c ih =>
    rw [List.foldl_append, List.foldl_cons, List.foldl_nil, ih, List.reverse_append,
      List.reverse_singleton, List.singleton_append, List.map_cons, Nat.ofDigits_cons]
    exact Nat.add_comm _ _

theorem decimal_natText (n : ℕ) : decimal (natText n) = n := by
  rw [decimal, foldl_decimal, digits_natText]

theorem strtol_digits {digits : Bytes} (hd : ∀ c ∈ digits, isDigit c = true) (hne : digits ≠ []) :
    strtol digits = some (min (decimal digits : ℤ) (2 ^ 63 - 1)) := by
  obtain ⟨d, ds, rfl⟩ := List.exists_cons_of_ne_nil hne
  have hdig := isDigit_bounds.mp (hd d (List.mem_cons_self ..))
  have hsign : (d :: ds).head? ≠ some 45 ∧ (d :: ds).head? ≠ some 43 := by
    simp only [List.head?_cons, ne_eq, Option.some.injEq, ← UInt8.toNat_inj, UInt8.reduceToNat]
    omega
  have htake : (d :: ds).takeWhile isDigit = d :: ds := List.takeWhile_eq_self_iff.mpr hd
  unfold strtol numeral
  simp only [hsign.1, hsign.2, or_self, if_false, htake, hne, decide_false, Option.map_some]
  rw [if_neg Bool.false_ne_true]

theorem atol_natText {n : ℕ} (hn : n < 2 ^ 63) : atol (natText n) = n := by
  obtain ⟨d, ds, hcons⟩ := List.exists_cons_of_ne_nil (natText_ne_nil n)
  have hnospace : isSpace d = false := by
    apply isSpace_false_of_isDigit
    apply isDigit_natText n
    rw [hcons]
    exact List.mem_cons_self ..
  have hdrop : (natText n).dropWhile isSpace = natText n := by
    rw [hcons, List.dropWhile_cons_of_neg (by rw [hnospace]; exact Bool.false_ne_true)]
  rw [atol, scanLong, hdrop, strtol_digits (isDigit_natText n) (natText_ne_nil n), decimal_natText,
    Option.getD_some, min_eq_left]
  have : (n : ℤ) < 2 ^ 63 := by exact_mod_cast hn
  omega

end Fenice.CString
