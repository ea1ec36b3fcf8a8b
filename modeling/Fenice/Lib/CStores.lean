import Fenice.Lib.CText

/-!
# What `strcpy` and `sscanf` store

A store is counted with the zero byte behind the string.
-/

namespace Fenice.CString

/-- A string put into an array of `size` bytes. -/
structure Store where
  bytes : ℕ
  size : ℕ
  deriving DecidableEq

def Store.Fits (s : Store) : Prop := s.bytes ≤ s.size

instance (s : Store) : Decidable s.Fits := inferInstanceAs (Decidable (s.bytes ≤ s.size))

/-- `strcpy` into an array. -/
def strcpy (size : ℕ) (s : Bytes) : Store := ⟨s.length + 1, size⟩

/-- The conversions of a format: `%s` with or without a width into an array, `%*s`, and
`%d` or `%u`. -/
inductive Conversion where
  | word (width : Option ℕ) (size : ℕ)
  | skip (width : Option ℕ)
  | number
  deriving DecidableEq

/-- The word of a conversion; without a width it is as long as the string allows. -/
def scanField (width : Option ℕ) (s : Bytes) : Option (Bytes × Bytes) :=
  scanWord (width.getD s.length) s

/-- The stores of `sscanf`, which ends with the first conversion that fails. -/
def scanStores : List Conversion → Bytes → List Store
  | [], _ => []
  | .word width size :: format, s =>
    match scanField width s with
    | none => []
    | some (word, s) => strcpy size word :: scanStores format s
  | .skip width :: format, s =>
    match scanField width s with
    | none => []
    | some (_, s) => scanStores format s
  | .number :: format, s =>
    match scanUnsigned s with
    | none => []
    | some (_, s) => scanStores format s

def AllFit (stores : List Store) : Prop := ∀ s ∈ stores, s.Fits

instance (stores : List Store) : Decidable (AllFit stores) :=
  inferInstanceAs (Decidable (∀ s ∈ stores, s.Fits))

@[simp] theorem strcpy_fits {size : ℕ} {s : Bytes} : (strcpy size s).Fits ↔ s.length < size :=
  Iff.rfl

@[simp] theorem allFit_nil : AllFit [] := List.forall_mem_nil _

@[simp] theorem allFit_cons {s : Store} {stores : List Store} :
    AllFit (s :: stores) ↔ s.Fits ∧ AllFit stores := List.forall_mem_cons

@[simp] theorem allFit_append {stores stores' : List Store} :
    AllFit (stores ++ stores') ↔ AllFit stores ∧ AllFit stores' := List.forall_mem_append

theorem scanWord_length {width : ℕ} {s word rest : Bytes}
    (h : scanWord width s = some (word, rest)) : word.length ≤ width := by
  simp only [scanWord, Option.ite_none_left_eq_some, Option.some.injEq, Prod.mk.injEq] at h
  obtain ⟨_, rfl, _⟩ := h
  exact ((List.takeWhile_prefix _).length_le).trans (List.length_take_le _ _)

theorem scanWord_parts {width : ℕ} {s word rest : Bytes}
    (h : scanWord width s = some (word, rest)) : word.length ≤ s.length ∧ rest <:+ s := by
  simp only [scanWord, Option.ite_none_left_eq_some, Option.some.injEq, Prod.mk.injEq] at h
  obtain ⟨_, rfl, rfl⟩ := h
  have hsuffix : s.dropWhile isSpace <:+ s := List.dropWhile_suffix _
  constructor
  · exact ((List.takeWhile_prefix _).length_le.trans (List.length_take_le' _ _)).trans
      hsuffix.length_le
  · exact (List.drop_suffix _ _).trans hsuffix

theorem allFit_end (s : Bytes) : AllFit (scanStores [] s) := allFit_nil

theorem allFit_word {width : Option ℕ} {size : ℕ} {format : List Conversion} {s : Bytes} :
    AllFit (scanStores (.word width size :: format) s) ↔
      ∀ t ∈ scanField width s, t.1.length < size ∧ AllFit (scanStores format t.2) := by
  rw [scanStores]
  cases scanField width s with
  | none => simp
  | some t => simp

theorem allFit_bounded {width size : ℕ} (h : width < size) {format : List Conversion} {s : Bytes} :
    AllFit (scanStores (.word (some width) size :: format) s) ↔
      ∀ t ∈ scanWord width s, AllFit (scanStores format t.2) := by
  rw [allFit_word]
  constructor
  · exact fun hs t ht => (hs t ht).2
  · exact fun hs t ht => ⟨Nat.lt_of_le_of_lt (scanWord_length ht) h, hs t ht⟩

theorem allFit_skip {width : Option ℕ} {format : List Conversion} {s : Bytes} :
    AllFit (scanStores (.skip width :: format) s) ↔
      ∀ t ∈ scanField width s, AllFit (scanStores format t.2) := by
  rw [scanStores]
  cases scanField width s with
  | none => simp
  | some t => simp

theorem allFit_number {format : List Conversion} {s : Bytes} :
    AllFit (scanStores (.number :: format) s) ↔
      ∀ t ∈ scanUnsigned s, AllFit (scanStores format t.2) := by
  rw [scanStores]
  cases scanUnsigned s with
  | none => simp
  | some t => simp

/-- No word is longer than its array allows. -/
def Conversion.Bounded : Conversion → Prop
  | .word (some width) size => width < size
  | .word none _ => False
  | .skip _ | .number => True

theorem scanStores_fit {format : List Conversion} (h : ∀ c ∈ format, c.Bounded) (s : Bytes) :
    AllFit (scanStores format s) := by
  induction format generalizing s with
  | nil => exact allFit_nil
  | cons c format ih =>
    obtain ⟨hc, hrest⟩ := List.forall_mem_cons.mp h
    cases c with
    | skip width => exact allFit_skip.mpr fun t _ => ih hrest t.2
    | number => exact allFit_number.mpr fun t _ => ih hrest t.2
    | word width size =>
      cases width with
      | none => exact hc.elim
      | some width => exact (allFit_bounded hc).mpr fun t _ => ih hrest t.2

theorem strcpy_strlen (s : Bytes) : ¬ (strcpy s.length s).Fits := Nat.lt_irrefl _

end Fenice.CString
