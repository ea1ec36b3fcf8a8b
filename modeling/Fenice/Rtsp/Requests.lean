import Fenice.Rtsp.Framing

/-!
# Well-formed requests

A request line and headers each ended by CRLF, an empty line, and a body of as
many bytes as the first `Content-Length` header says.
-/

namespace Fenice.Rtsp
open Fenice.CString

structure Header where
  name : Bytes
  value : Bytes
  deriving DecidableEq

structure Request where
  line : Bytes
  headers : List Header
  body : Bytes
  deriving DecidableEq

def eol : Bytes := [cr, lf]

/-- Neither a terminator nor a zero byte. -/
def Clean (s : Bytes) : Prop := ∀ c ∈ s, isEol c = false ∧ c ≠ 0

instance (s : Bytes) : Decidable (Clean s) := by unfold Clean; infer_instance

namespace Header

def bytes (h : Header) : Bytes := h.name ++ 58 :: h.value

structure WellFormed (h : Header) : Prop where
  name_ne : h.name ≠ []
  name : ∀ c ∈ h.name, isBlank c = false ∧ c ≠ 58
  name_clean : Clean h.name
  value_clean : Clean h.value

instance (h : Header) : Decidable h.WellFormed :=
  decidable_of_iff (h.name ≠ [] ∧ (∀ c ∈ h.name, isBlank c = false ∧ c ≠ 58) ∧ Clean h.name ∧
    Clean h.value)
    ⟨fun ⟨h1, h2, h3, h4⟩ => ⟨h1, h2, h3, h4⟩, fun ⟨h1, h2, h3, h4⟩ => ⟨h1, h2, h3, h4⟩⟩

/-- Whether the name is `Content-Length`. -/
def isContentLength (h : Header) : Bool :=
  h.name.map toLower == hdrContentLength.map toLower

/-- Whether the name begins with `Content-Length`. -/
def startsWord (h : Header) : Bool := startsNoCase hdrContentLength h.name

/-- The number a `Content-Length` header gives. -/
def contentLength (h : Header) : Option ℕ :=
  let s := h.value.dropWhile isBlank
  let digits := s.takeWhile isDigit
  if digits ≠ [] ∧ (s.dropWhile isDigit).all isBlank = true then some (decimal digits) else none

end Header

def headerBytes (hs : List Header) : Bytes := hs.flatMap fun h => h.bytes ++ eol

namespace Request

/-- Request line, headers and empty line. -/
def head (r : Request) : Bytes := r.line ++ (eol ++ (headerBytes r.headers ++ eol))

def bytes (r : Request) : Bytes := r.head ++ r.body

/-- The length of the body by the headers. -/
def contentLength (r : Request) : Option ℕ :=
  match r.headers.find? Header.isContentLength with
  | none => some 0
  | some h => h.contentLength

structure WellFormed (r : Request) : Prop where
  line_ne : r.line ≠ []
  line_clean : Clean r.line
  not_interleaved : r.line.head? ≠ some 36
  headers : ∀ h ∈ r.headers, h.WellFormed
  length : r.contentLength = some r.body.length

instance (r : Request) : Decidable r.WellFormed :=
  decidable_of_iff (r.line ≠ [] ∧ Clean r.line ∧ r.line.head? ≠ some 36 ∧
    (∀ h ∈ r.headers, h.WellFormed) ∧ r.contentLength = some r.body.length)
    ⟨fun ⟨h1, h2, h3, h4, h5⟩ => ⟨h1, h2, h3, h4, h5⟩,
      fun ⟨h1, h2, h3, h4, h5⟩ => ⟨h1, h2, h3, h4, h5⟩⟩

/-- The request does not run into the two shortcuts of `RTSP_full_msg_rcvd`: the
body does not begin with a line terminator, and no header in front of
`Content-Length` has a name that goes on where that word ends. -/
structure Plain (r : Request) : Prop where
  body_start : ∀ c ∈ r.body.head?, isEol c = false
  length_first : ∀ h, r.headers.find? Header.startsWord = some h → h.isContentLength = true

instance (r : Request) : Decidable r.Plain :=
  have : Decidable (∀ c ∈ r.body.head?, isEol c = false) :=
    Option.decidableForallMem _
  decidable_of_iff ((∀ c ∈ r.body.head?, isEol c = false) ∧
    ∀ h ∈ r.headers.find? Header.startsWord, h.isContentLength = true)
    ⟨fun ⟨h1, h2⟩ => ⟨h1, h2⟩, fun ⟨h1, h2⟩ => ⟨h1, h2⟩⟩

end Request

/-- A line begins at `o` of which fewer bytes were received than the word
`Content-Length` has, and what is left over behind them completes the word and
goes on with a number. Only the first lines with that word are looked at. -/
def staleWord (bytes : Bytes) (inSize : ℕ) : ℕ → List Header → Bool
  | _, [] => false
  | o, h :: hs =>
    decide (o < inSize) &&
      (decide (inSize < o + hdrContentLength.length) &&
          startsNoCase hdrContentLength (bytes.drop o) &&
          (scanInt (bytes.drop (o + hdrContentLength.length))).isSome ||
        !h.startsWord &&
          staleWord bytes inSize (o + h.bytes.length + 2) hs)

/-- What a read must leave in the buffer when the requests `rs` are outstanding.
Each complete request is followed by at most its own length, or the rest is
zero; the incomplete one is not a request without body short of its last byte,
and does not end inside a word that older bytes complete. -/
def Unharmed : List Request → InBuffer → Prop
  | [], _ => True
  | r :: rs, ib =>
    if r.bytes.length ≤ ib.size then
      (∀ c ∈ ib.received.drop (2 * r.bytes.length), c = 0) ∧
        ∀ ib' ∈ RTSP_remove_msg r.bytes.length ib, Unharmed rs ib'
    else
      ¬ (r.body = [] ∧ ib.size + 1 = r.bytes.length) ∧
        staleWord ib.bytes ib.size (r.line.length + 2) r.headers = false

instance Unharmed.decidable : ∀ rs ib, Decidable (Unharmed rs ib)
  | [], _ => isTrue trivial
  | r :: rs, ib =>
    have : ∀ ib', Decidable (Unharmed rs ib') := fun ib' => Unharmed.decidable rs ib'
    inferInstanceAs (Decidable (if r.bytes.length ≤ ib.size then
        (∀ c ∈ ib.received.drop (2 * r.bytes.length), c = 0) ∧
          ∀ ib' ∈ RTSP_remove_msg r.bytes.length ib, Unharmed rs ib'
      else
        ¬ (r.body = [] ∧ ib.size + 1 = r.bytes.length) ∧
          staleWord ib.bytes ib.size (r.line.length + 2) r.headers = false))

/-! ### Words at the start of a header -/

theorem isContentLength_starts {h : Header} (hc : h.isContentLength = true) :
    h.startsWord = true := by
  simp only [Header.isContentLength, beq_iff_eq] at hc
  have hlen : h.name.length = hdrContentLength.length := by
    have := congrArg List.length hc
    simpa using this
  simp only [Header.startsWord, startsNoCase, beq_iff_eq]
  rw [← hlen, List.take_length]
  exact hc

/-- The word has no colon, so it is found in a header line iff it begins the name. -/
theorem starts_header {h : Header} (t : Bytes) :
    startsNoCase hdrContentLength (h.bytes ++ t) = h.startsWord := by
  unfold Header.startsWord
  by_cases hlen : hdrContentLength.length ≤ h.name.length
  · unfold Header.bytes
    rw [List.append_assoc, startsNoCase_append hlen]
  · have hshort : h.name.length < 14 := by
      have : hdrContentLength.length = 14 := by decide
      omega
    have hfalse : startsNoCase hdrContentLength h.name = false := by
      simp only [startsNoCase, beq_eq_false_iff_ne]
      intro he
      have := congrArg List.length he
      simp only [List.length_map, List.length_take] at this
      omega
    rw [hfalse]
    simp only [startsNoCase, beq_eq_false_iff_ne]
    intro he
    -- the byte of the word that stands against the colon
    have hcolon := congrArg (fun l => l[h.name.length]?) he
    simp only [Header.bytes, List.append_assoc, List.cons_append, List.getElem?_map] at hcolon
    rw [List.getElem?_take_of_lt (by have : hdrContentLength.length = 14 := by decide
                                     omega),
      List.getElem?_append_right le_rfl, Nat.sub_self, List.getElem?_cons_zero] at hcolon
    have hword : ∀ i < 14, (hdrContentLength[i]?).map toLower ≠ some 58 := by decide
    exact hword _ hshort hcolon.symm

theorem isContentLength_length {h : Header} (hc : h.isContentLength = true) :
    h.name.length = hdrContentLength.length := by
  simp only [Header.isContentLength, beq_iff_eq] at hc
  have := congrArg List.length hc
  simpa using this

/-! ### The number behind the word -/

theorem contentLength_parts {h : Header} {n : ℕ} (hn : h.contentLength = some n) :
    ∃ b d b', h.value = b ++ (d ++ b') ∧ (∀ c ∈ b, isBlank c = true) ∧
      (∀ c ∈ d, isDigit c = true) ∧ d ≠ [] ∧ (∀ c ∈ b', isBlank c = true) ∧ decimal d = n := by
  unfold Header.contentLength at hn
  simp only [Option.ite_none_right_eq_some, Option.some.injEq, List.all_eq_true] at hn
  obtain ⟨⟨hne, hb'⟩, hd⟩ := hn
  refine ⟨h.value.takeWhile isBlank, (h.value.dropWhile isBlank).takeWhile isDigit,
    (h.value.dropWhile isBlank).dropWhile isDigit, ?_, ?_, ?_, hne, hb', hd⟩
  · rw [List.takeWhile_append_dropWhile, List.takeWhile_append_dropWhile]
  · exact fun c hc => List.mem_takeWhile_imp hc
  · exact fun c hc => List.mem_takeWhile_imp hc

theorem isDigit_false_of_isBlank {c : UInt8} (h : isBlank c = true) : isDigit c = false := by
  simp only [isBlank, Bool.or_eq_true, beq_iff_eq] at h
  rcases h with rfl | rfl <;> decide

/-- Colons and spaces are skipped, and the number is read from what is left of
the line. -/
theorem contentLength_line {h : Header} {n : ℕ} (hw : h.WellFormed)
    (hc : h.isContentLength = true) (hn : h.contentLength = some n) (hsmall : n < 2 ^ 31)
    {t : Bytes} (ht : t.head? = some cr) :
    ∃ l, l ≠ [] ∧ Clean l ∧
      (h.bytes ++ t).drop (hdrContentLength.length +
        (((h.bytes ++ t).drop hdrContentLength.length).takeWhile isColonOrSpace).length) = l ++ t ∧
      ∀ stale, scanInt (l ++ (t ++ stale)) = some (n : ℤ) := by
  obtain ⟨b, d, b', hv, hb, hd, hne, hb', rfl⟩ := contentLength_parts hn
  have hname := isContentLength_length hc
  have hdrop : ∀ k, (h.bytes ++ t).drop (hdrContentLength.length + k) =
      (58 :: (b ++ (d ++ (b' ++ t)))).drop k := by
    intro k
    rw [← hname, ← List.drop_drop]
    simp only [Header.bytes, List.append_assoc, List.drop_left, List.cons_append, hv]
  obtain ⟨sp, bl, rfl, hsp, hbl⟩ : ∃ sp bl, b = sp ++ bl ∧
      (∀ c ∈ sp, isColonOrSpace c = true) ∧
      ∀ c ∈ bl.head?, isColonOrSpace c = false := by
    refine ⟨b.takeWhile isColonOrSpace, b.dropWhile isColonOrSpace,
      List.takeWhile_append_dropWhile.symm, fun c hc => List.mem_takeWhile_imp hc, ?_⟩
    intro c hcm
    have := List.head?_dropWhile_not isColonOrSpace b
    rw [Option.mem_def] at hcm
    rw [hcm] at this
    simpa using this
  have hrest : ∀ c ∈ (bl ++ (d ++ (b' ++ t))).head?, isColonOrSpace c = false := by
    intro c hcm
    cases bl with
    | cons x xs => exact hbl c hcm
    | nil =>
      obtain ⟨x, xs, rfl⟩ := List.exists_cons_of_ne_nil hne
      simp only [List.nil_append, List.cons_append, List.head?_cons, Option.mem_def,
        Option.some.injEq] at hcm
      have hx := hd x (List.mem_cons_self ..)
      subst hcm
      rw [isDigit_bounds] at hx
      simp only [isColonOrSpace, Bool.or_eq_false_iff, beq_eq_false_iff_ne, ne_eq,
        ← UInt8.toNat_inj, UInt8.reduceToNat]
      omega
  have htake : (58 :: ((sp ++ bl) ++ (d ++ (b' ++ t)))).takeWhile isColonOrSpace =
      58 :: sp := by
    rw [List.append_assoc, ← List.cons_append, List.takeWhile_append_of_pos]
    · cases hl : bl ++ (d ++ (b' ++ t)) with
      | nil => simp
      | cons c l =>
        rw [hl] at hrest
        rw [List.takeWhile_cons_of_neg (by simp [hrest c rfl]), List.append_nil]
    · intro c hcm
      rcases List.mem_cons.mp hcm with rfl | hcm
      · rfl
      · exact hsp c hcm
  have hclean : Clean (bl ++ (d ++ b')) := by
    intro c hcm
    apply hw.value_clean c
    rw [hv, List.append_assoc]
    exact List.mem_append_right _ hcm
  refine ⟨bl ++ (d ++ b'), by simp [hne], hclean, ?_, ?_⟩
  · have h0 := hdrop 0
    rw [Nat.add_zero, List.drop_zero] at h0
    rw [h0, htake, hdrop, ← htake, htake]
    simp only [List.length_cons, List.drop_succ_cons, List.append_assoc, List.drop_left]
  · intro stale
    simp only [List.append_assoc]
    apply scanInt_digits
    · exact fun c hcm => hb c (List.mem_append_right _ hcm)
    · exact hd
    · exact hne
    · intro c hcm
      cases b' with
      | nil =>
        rw [List.nil_append, List.head?_append, ht] at hcm
        cases hcm
        rfl
      | cons x xs =>
        cases hcm
        exact isDigit_false_of_isBlank (hb' _ (List.mem_cons_self ..))
    · exact hsmall

end Fenice.Rtsp
