import Fenice.Lib.CSearch

/-!
# What is read from one line

A search or a conversion that comes to its end in a line gives what it gives on the line
alone: what stands behind the carriage return does not matter.
-/

namespace Fenice.CString

/-- Not only white space. -/
def NonBlank (s : Bytes) : Prop := ∃ c ∈ s, isSpace c = false

instance (s : Bytes) : Decidable (NonBlank s) :=
  inferInstanceAs (Decidable (∃ c ∈ s, isSpace c = false))

theorem NonBlank.of_suffix {s t : Bytes} (h : NonBlank s) (hs : s <:+ t) : NonBlank t := by
  obtain ⟨c, hc, hspace⟩ := h
  exact ⟨c, hs.subset hc, hspace⟩

/-! ### Searches -/

theorem strstr_cons (c : UInt8) (s word : Bytes) :
    strstr (c :: s) word =
      if (c :: s).take word.length = word then some (c :: s) else strstr s word := by
  rw [strstr]

theorem strstr_length {s word t : Bytes} (h : strstr s word = some t) :
    word.length ≤ s.length := by
  have hsome : (strstr s word).isSome = true := by rw [h, Option.isSome_some]
  exact (strstr_isSome.mp hsome).length_le

theorem strstr_nil (s : Bytes) : strstr s [] = some s := by
  unfold strstr
  exact if_pos rfl

theorem strstr_append {s word t : Bytes} (h : strstr s word = some t) (x : Bytes) :
    strstr (s ++ x) word = some (t ++ x) := by
  induction s with
  | nil =>
    have hword : word = [] := List.eq_nil_of_length_eq_zero (Nat.le_zero.mp (strstr_length h))
    rw [hword, strstr_nil] at h ⊢
    cases h
    rfl
  | cons c s ih =>
    have hlen := strstr_length h
    rw [List.cons_append, strstr_cons, ← List.cons_append, List.take_append_of_le_length hlen]
    rw [strstr_cons] at h
    by_cases hword : (c :: s).take word.length = word
    · rw [if_pos hword] at h ⊢
      cases h
      rfl
    · rw [if_neg hword] at h ⊢
      exact ih h

theorem strstr_within {s x word : Bytes} (h : word <:+: s ++ x → word <:+: s) :
    strstr (s ++ x) word = (strstr s word).map (· ++ x) := by
  cases hfound : strstr s word with
  | some q => exact strstr_append hfound _
  | none =>
    rw [Option.map_none, ← Option.not_isSome_iff_eq_none, strstr_isSome]
    intro hin
    have hsome := strstr_isSome.mpr (h hin)
    rw [hfound] at hsome
    cases hsome

theorem strchr_append {s t : Bytes} {c : UInt8} (h : strchr s c = some t) (x : Bytes) :
    strchr (s ++ x) c = some (t ++ x) := by
  induction s with
  | nil => cases h
  | cons d s ih =>
    rw [List.cons_append, strchr]
    rw [strchr] at h
    by_cases hd : d = c
    · rw [if_pos hd] at h ⊢
      cases h
      rfl
    · rw [if_neg hd] at h ⊢
      exact ih h

theorem strchr_drop {s t : Bytes} {c : UInt8} (h : strchr s c = some t) (x : Bytes) :
    (t ++ x).drop 1 = t.drop 1 ++ x := by
  induction s with
  | nil => cases h
  | cons d s ih =>
    rw [strchr] at h
    by_cases hd : d = c
    · rw [if_pos hd] at h
      cases h
      rfl
    · rw [if_neg hd] at h
      exact ih h

/-! ### Words -/

theorem NonBlank.dropWhile_ne {s : Bytes} (h : NonBlank s) : s.dropWhile isSpace ≠ [] := by
  obtain ⟨c, hc, hspace⟩ := h
  intro hnil
  have hall := List.dropWhile_eq_nil_iff.mp hnil c hc
  rw [hspace] at hall
  cases hall

theorem dropWhile_line {s : Bytes} (h : NonBlank s) (x : Bytes) :
    (s ++ x).dropWhile isSpace = s.dropWhile isSpace ++ x := by
  rw [List.dropWhile_append, List.isEmpty_eq_false_iff.mpr h.dropWhile_ne,
    if_neg Bool.false_ne_true]

theorem dropWhile_blank {s : Bytes} (h : ∀ c ∈ s, isSpace c = true) (x : Bytes) :
    (s ++ x).dropWhile isSpace = x.dropWhile isSpace := List.dropWhile_append_of_pos h

theorem scanWord_eq_some {width : ℕ} {s word rest : Bytes} :
    scanWord width s = some (word, rest) ↔
      word ≠ [] ∧ ((s.dropWhile isSpace).take width).takeWhile (fun c => !isSpace c) = word ∧
        rest = (s.dropWhile isSpace).drop word.length := by
  simp only [scanWord, Option.ite_none_left_eq_some, Option.some.injEq, Prod.mk.injEq]
  constructor
  · rintro ⟨hne, rfl, rfl⟩
    exact ⟨hne, rfl, rfl⟩
  · rintro ⟨hne, rfl, rfl⟩
    exact ⟨hne, rfl, rfl⟩

theorem scanWord_nonBlank {width : ℕ} {s word rest : Bytes}
    (h : scanWord width s = some (word, rest)) : NonBlank s := by
  obtain ⟨hne, hword, -⟩ := scanWord_eq_some.mp h
  obtain ⟨c, word', rfl⟩ := List.exists_cons_of_ne_nil hne
  have hc : c ∈ ((s.dropWhile isSpace).take width).takeWhile fun c => !isSpace c := by
    rw [hword]
    exact List.mem_cons_self ..
  refine ⟨c, ?_, by simpa using List.mem_takeWhile_imp hc⟩
  exact (List.dropWhile_suffix _).subset (List.take_subset _ _ ((List.takeWhile_subset _) hc))

theorem take_takeWhile_line (width : ℕ) (s : Bytes) {c : UInt8} (hc : isSpace c = true)
    (x : Bytes) :
    ((s ++ c :: x).take width).takeWhile (fun c => !isSpace c) =
      (s.take width).takeWhile fun c => !isSpace c := by
  induction s generalizing width with
  | nil =>
    cases width with
    | zero => rfl
    | succ width => simp [hc]
  | cons d s ih =>
    cases width with
    | zero => rfl
    | succ width =>
      rw [List.cons_append, List.take_succ_cons, List.take_succ_cons, List.takeWhile_cons,
        List.takeWhile_cons, ih]

theorem scanWord_line {width : ℕ} {s word rest : Bytes} (h : scanWord width s = some (word, rest))
    {c : UInt8} (hc : isSpace c = true) (x : Bytes) :
    scanWord width (s ++ c :: x) = some (word, rest ++ c :: x) := by
  have hs := scanWord_nonBlank h
  obtain ⟨hne, hword, rfl⟩ := scanWord_eq_some.mp h
  have hlen : word.length ≤ (s.dropWhile isSpace).length := by
    rw [← hword]
    exact ((List.takeWhile_prefix _).length_le).trans (List.length_take_le' _ _)
  refine scanWord_eq_some.mpr ⟨hne, ?_, ?_⟩
  · rw [dropWhile_line hs, take_takeWhile_line _ _ hc, hword]
  · rw [dropWhile_line hs, List.drop_append_of_le_length hlen]

/-- A width the word cannot reach. -/
theorem scanWord_wide {width : ℕ} {s : Bytes} (h : s.length ≤ width) :
    scanWord width s = scanAnyWord s := by
  have hlen : (s.dropWhile isSpace).length ≤ s.length := (List.dropWhile_suffix _).length_le
  rw [scanAnyWord, scanWord, scanWord, List.take_of_length_le (hlen.trans h),
    List.take_of_length_le hlen]

theorem scanAnyWord_line {s word rest : Bytes} (h : scanAnyWord s = some (word, rest))
    {c : UInt8} (hc : isSpace c = true) (x : Bytes) :
    scanAnyWord (s ++ c :: x) = some (word, rest ++ c :: x) := by
  have hlen : s.length ≤ (s ++ c :: x).length := by
    rw [List.length_append]
    exact Nat.le_add_right ..
  rw [← scanWord_wide hlen] at h
  exact scanWord_line h hc x

theorem takeWhile_take (p : UInt8 → Bool) (m : ℕ) (s : Bytes) :
    (s.take m).takeWhile p = (s.takeWhile p).take m := by
  induction s generalizing m with
  | nil => simp
  | cons c s ih =>
    cases m with
    | zero => rfl
    | succ m =>
      rw [List.take_succ_cons]
      by_cases hc : p c = true
      · rw [List.takeWhile_cons_of_pos hc, List.takeWhile_cons_of_pos hc, ih, List.take_succ_cons]
      · rw [List.takeWhile_cons_of_neg hc, List.takeWhile_cons_of_neg hc]
        rfl

theorem scanWord_fits {width : ℕ} {s word rest : Bytes} (h : scanAnyWord s = some (word, rest))
    (hw : word.length ≤ width) : scanWord width s = some (word, rest) := by
  obtain ⟨hne, hword, hrest⟩ := scanWord_eq_some.mp h
  have hlen : (s.dropWhile isSpace).length ≤ s.length := (List.dropWhile_suffix _).length_le
  rw [List.take_of_length_le hlen] at hword
  refine scanWord_eq_some.mpr ⟨hne, ?_, hrest⟩
  rw [takeWhile_take, hword, List.take_of_length_le hw]

theorem scanWord_of_nonBlank {s : Bytes} (h : NonBlank s) {width : ℕ} (hw : 0 < width) :
    ∃ word rest, scanWord width s = some (word, rest) := by
  obtain ⟨c, t, ht⟩ := List.exists_cons_of_ne_nil h.dropWhile_ne
  have hc : isSpace c = false := by
    have hhead := List.head?_dropWhile_not isSpace s
    rw [ht] at hhead
    exact hhead
  obtain ⟨width, rfl⟩ := Nat.exists_eq_succ_of_ne_zero (Nat.pos_iff_ne_zero.mp hw)
  refine ⟨_, _, scanWord_eq_some.mpr ⟨?_, rfl, rfl⟩⟩
  rw [ht, List.take_succ_cons, List.takeWhile_cons_of_pos (by simp [hc])]
  exact List.cons_ne_nil _ _

/-! ### Numbers -/

section Numbers

variable {c : UInt8} (hc : isSpace c = true)
include hc

theorem space_ne {d : UInt8} (hd : isSpace d = false) : c ≠ d := by
  rintro rfl
  rw [hc] at hd
  cases hd

theorem space_not_digit : isDigit c = false := by
  have hc := hc
  unfold isSpace at hc
  unfold isDigit
  simp only [Bool.or_eq_true, Bool.and_eq_true, beq_iff_eq, decide_eq_true_eq,
    UInt8.le_iff_toNat_le] at hc
  rcases hc with rfl | ⟨-, hle⟩
  · rfl
  · simp only [Bool.and_eq_false_iff, decide_eq_false_iff_not, UInt8.le_iff_toNat_le]
    left
    change ¬ 48 ≤ c.toNat
    change c.toNat ≤ 13 at hle
    omega

theorem digits_line (s x : Bytes) :
    (s ++ c :: x).takeWhile isDigit = s.takeWhile isDigit ∧
      (s ++ c :: x).dropWhile isDigit = s.dropWhile isDigit ++ c :: x := by
  have hdigit := space_not_digit hc
  induction s with
  | nil => exact ⟨List.takeWhile_cons_of_neg (by simp [hdigit]), by simp [hdigit]⟩
  | cons d s ih =>
    obtain ⟨htake, hdrop⟩ := ih
    rw [List.cons_append, List.takeWhile_cons, List.takeWhile_cons, List.dropWhile_cons,
      List.dropWhile_cons, htake, hdrop]
    cases isDigit d <;> exact ⟨rfl, rfl⟩

theorem numeral_line (s x : Bytes) :
    numeral (s ++ c :: x) = (numeral s).map fun n => (n.1, n.2.1, n.2.2 ++ c :: x) := by
  cases s with
  | nil =>
    have hminus : c ≠ 45 := space_ne hc rfl
    have hplus : c ≠ 43 := space_ne hc rfl
    simp [numeral, hminus, hplus, space_not_digit hc]
  | cons d s =>
    have hhead : ((d :: s) ++ c :: x).head? = (d :: s).head? := rfl
    have hdrop : ((d :: s) ++ c :: x).drop 1 = (d :: s).drop 1 ++ c :: x := rfl
    unfold numeral
    simp only [hhead, hdrop, ← apply_ite (fun t => t ++ c :: x), (digits_line hc _ x).1,
      (digits_line hc _ x).2]
    split_ifs <;> rfl

theorem strtol_line (s x : Bytes) : strtol (s ++ c :: x) = strtol s := by
  rw [strtol, strtol, numeral_line hc, Option.map_map]
  rfl

theorem scanLong_line {s : Bytes} (h : NonBlank s) (x : Bytes) :
    scanLong (s ++ c :: x) = scanLong s := by
  rw [scanLong, scanLong, dropWhile_line h, strtol_line hc]

theorem scanInt_line {s : Bytes} (h : NonBlank s) (x : Bytes) :
    scanInt (s ++ c :: x) = scanInt s := by
  rw [scanInt, scanInt, dropWhile_line h, scanSigned, scanSigned, strtol_line hc]

theorem scanUnsigned_line {s : Bytes} (h : NonBlank s) (x : Bytes) :
    (scanUnsigned (s ++ c :: x)).map Prod.fst = (scanUnsigned s).map Prod.fst := by
  rw [scanUnsigned, scanUnsigned, dropWhile_line h, strtoul, strtoul, numeral_line hc]
  simp only [Option.map_map]
  rfl

end Numbers

theorem scanUnsigned_nonBlank {s : Bytes} (h : (scanUnsigned s).isSome = true) : NonBlank s := by
  by_contra hblank
  have hall : ∀ c ∈ s, isSpace c = true := by
    intro c hc
    by_contra hspace
    exact hblank ⟨c, hc, Bool.eq_false_iff.mpr hspace⟩
  rw [scanUnsigned, List.dropWhile_eq_nil_iff.mpr hall] at h
  cases h

end Fenice.CString
