import Fenice.Rtsp.Segmentation

/-!
# Progress of the handler through the input

The lengths that `RTSP_full_msg_rcvd` reports lie between one byte and what was
received, unless the numbers in the message lead it out of the buffer. The loop
of `RTSP_handler` comes to an end exactly when they do.
-/

namespace Fenice.Rtsp
open Fenice.CString

/-! ### The lines of the head -/

/-- Whether the word `Content-Length` begins at `o`. -/
def wordAt (bytes : Bytes) (o : ℕ) : Bool := startsNoCase hdrContentLength (bytes.drop o)

/-- Where the head ends: at an empty line or a zero byte, behind the received part,
or with the terminators of the blank line. -/
inductive HeadEnd where
  | broken
  | notFull
  | here (e : ℕ)

def HeadEnd.offset : HeadEnd → Option ℕ
  | .here e => some e
  | _ => none

/-- The offsets at which lines begin behind the one at `o`, and the end of the
head, as far as received. -/
def headLines (bytes : Bytes) (inSize : ℕ) : ℕ → ℕ → List ℕ × HeadEnd
  | 0, _ => ([], .broken)
  | fuel + 1, o =>
    let n := lineLen (bytes.drop o)
    if n = 0 then ([], .broken)
    else if inSize < o + n then ([], .notFull)
    else
      match lineEnd bytes inSize (o + n) 0 with
      | .last e => ([], .here e)
      | .notFull => ([], .notFull)
      | .next o' =>
        let r := headLines bytes inSize fuel o'
        (o' :: r.1, r.2)

/-- The number behind the word at `o`; the rest of its line must not be empty. -/
def numberAt (bytes : Bytes) (inSize o : ℕ) : Option ℤ :=
  let ml := o + hdrContentLength.length
  let skip := (((bytes.take inSize).drop ml).takeWhile isColonOrSpace).length
  if lineLen (bytes.drop (ml + skip)) = 0 then none else scanInt (bytes.drop (ml + skip))

namespace InBuffer

def lines (ib : InBuffer) : List ℕ × HeadEnd := headLines ib.bytes ib.size (ib.size + 1) 0

/-- The first header line that begins with the word. -/
def lengthLine (ib : InBuffer) : Option ℕ := ib.lines.1.find? (wordAt ib.bytes)

/-- The received part ends inside the word, older bytes complete it, and a number
follows them. -/
def Overrun (ib : InBuffer) : Prop :=
  ∃ o ∈ ib.lengthLine, ib.size < o + hdrContentLength.length ∧
    (scanInt (ib.bytes.drop (o + hdrContentLength.length))).isSome = true

/-- The number is the length of the head with a minus sign. -/
def Cancelled (ib : InBuffer) : Prop :=
  ∃ o ∈ ib.lengthLine, o + hdrContentLength.length ≤ ib.size ∧
    ∃ n ∈ numberAt ib.bytes ib.size o, ∃ e ∈ ib.lines.2.offset, (e : ℤ) + n = 0

/-- The length of an interleaved packet without its first four bytes. -/
def packetLength (ib : InBuffer) : ℕ :=
  256 * (ib.bytes.getD 2 0).toNat + (ib.bytes.getD 3 0).toNat

/-- The numbers in the input do not lead out of the received part. -/
def Measured (ib : InBuffer) : Prop :=
  if ib.bytes.head? = some 36 then ib.packetLength ≤ ib.size → 4 + ib.packetLength ≤ ib.size
  else ¬ ib.Overrun ∧ ¬ ib.Cancelled

instance (ib : InBuffer) : Decidable ib.Overrun := by
  unfold Overrun
  infer_instance

instance (ib : InBuffer) : Decidable ib.Cancelled := by
  unfold Cancelled
  infer_instance

instance (ib : InBuffer) : Decidable ib.Measured := by
  unfold Measured
  infer_instance

end InBuffer

/-- A message or a packet of `n` bytes was found. -/
def Found (ib : InBuffer) (n : ℤ) : Prop :=
  ∃ h b, (RTSP_full_msg_rcvd ib = .method h b ∨ RTSP_full_msg_rcvd ib = .interleaved h b) ∧
    n = h + b

/-- The reported lengths add up to something that was received. -/
def Counted (ib : InBuffer) : Prop := ∀ n, Found ib n → 1 ≤ n ∧ n ≤ ib.size

/-- The buffers that the loop of `RTSP_handler` looks at. -/
inductive Visited (ib : InBuffer) : InBuffer → Prop
  | start : Visited ib ib
  | discard {ib₁ ib₂ : InBuffer} {n : ℤ} : Visited ib ib₁ → 0 < ib₁.size → Found ib₁ n →
      RTSP_discard_msg ib₁ = some ib₂ → Visited ib ib₂

/-! ### The end of a line -/

theorem terminators_le (s : Bytes) (tc ws : ℕ) :
    (terminators s tc ws).1 + (terminators s tc ws).2 ≤ tc + ws + s.length := by
  induction s generalizing tc ws with
  | nil => exact Nat.le_refl _
  | cons c s ih =>
    unfold terminators
    rw [List.length_cons]
    split
    · have := ih (tc + 1) ws
      omega
    · split
      · have := ih tc (ws + 1)
        omega
      · dsimp only
        omega

section Scan

variable {bytes : Bytes} {inSize : ℕ}

theorem lineEnd_body (bytes : Bytes) {ml : ℕ} (hml : ml ≤ inSize) (hsmall : inSize < 2 ^ 31) (bl : ℤ) :
    (∃ e, lineEnd bytes inSize ml 0 = .last e ∧ e ≤ inSize ∧
        lineEnd bytes inSize ml bl =
          if uint32 (e + bl) ≤ inSize then .last (uint32 (e + bl)) else .notFull) ∨
      (lineEnd bytes inSize ml 0 = .notFull ∧ lineEnd bytes inSize ml bl = .notFull) ∨
      ∃ o, ml ≤ o ∧ o < inSize ∧ lineEnd bytes inSize ml 0 = .next o ∧
        lineEnd bytes inSize ml bl = .next o := by
  have hle := terminators_le ((bytes.take inSize).drop ml) 0 0
  rw [List.length_drop, List.length_take] at hle
  unfold lineEnd
  generalize terminators ((bytes.take inSize).drop ml) 0 0 = t at hle ⊢
  by_cases heomh : 2 < t.1 ∨ t.1 = 2 ∧ bytes[ml]? = bytes[ml + 1]?
  · have hzero : uint32 ((ml + t.1 + t.2 : ℕ) + 0) = ml + t.1 + t.2 := by
      have := uint32_of_small (x := ml + t.1 + t.2) (by omega)
      rw [add_zero]
      exact this
    refine Or.inl ⟨ml + t.1 + t.2, ?_, by omega, ?_⟩
    · simp only [heomh, if_true, true_and, hzero]
      rw [if_pos (by omega)]
    · simp only [heomh, if_true, true_and]
      by_cases hfits : uint32 ((ml + t.1 + t.2 : ℕ) + bl) ≤ inSize
      · rw [if_pos hfits, if_pos hfits]
      · rw [if_neg hfits, if_neg hfits, if_pos (by omega)]
  · simp only [heomh, if_false, false_and]
    by_cases hend : inSize ≤ ml + t.1 + t.2
    · rw [if_pos hend]
      exact Or.inr (Or.inl ⟨rfl, rfl⟩)
    · rw [if_neg hend]
      exact Or.inr (Or.inr ⟨_, by omega, by omega, rfl, rfl⟩)

/-- What the scan gives when the head ends at `e` and the body is `bl` bytes long. -/
def Ends (bytes : Bytes) (inSize : ℕ) (e : HeadEnd) (bl : ℤ) (f : Framing) : Prop :=
  match e with
  | .broken => f = .error
  | .notFull => f = .notFull
  | .here e =>
    f = if uint32 (e + bl) ≤ inSize then messageEnd bytes inSize (uint32 (e + bl)) bl
      else .notFull

/-- What is done at the start of a line. -/
def atLine (bytes : Bytes) (inSize fuel o : ℕ) (mb : Bool) (bl : ℤ) : Framing :=
  if mb = false ∧ wordAt bytes o = true then
    let ml := o + hdrContentLength.length
    let skip := (((bytes.take inSize).drop ml).takeWhile isColonOrSpace).length
    match scanInt (bytes.drop (ml + skip)) with
    | none => .error
    | some bl => scanLines bytes inSize fuel (ml + skip) true bl
  else scanLines bytes inSize fuel o mb bl

theorem scanLines_succ (fuel ml : ℕ) (mb : Bool) (bl : ℤ) :
    scanLines bytes inSize (fuel + 1) ml mb bl =
      if inSize < ml then messageEnd bytes inSize ml bl
      else if lineLen (bytes.drop ml) = 0 then .error
      else if inSize < ml + lineLen (bytes.drop ml) then .notFull
      else
        match lineEnd bytes inSize (ml + lineLen (bytes.drop ml)) bl with
        | .last ml => messageEnd bytes inSize ml bl
        | .notFull => .notFull
        | .next ml => atLine bytes inSize fuel ml mb bl := rfl

theorem headLines_succ (fuel o : ℕ) :
    headLines bytes inSize (fuel + 1) o =
      if lineLen (bytes.drop o) = 0 then ([], .broken)
      else if inSize < o + lineLen (bytes.drop o) then ([], .notFull)
      else
        match lineEnd bytes inSize (o + lineLen (bytes.drop o)) 0 with
        | .last e => ([], .here e)
        | .notFull => ([], .notFull)
        | .next o' =>
          (o' :: (headLines bytes inSize fuel o').1, (headLines bytes inSize fuel o').2) := rfl

theorem scanLines_round {o ml : ℕ} (hml : ml ≤ inSize)
    (hline : o + lineLen (bytes.drop o) = ml + lineLen (bytes.drop ml)) (hom : o ≤ ml)
    (hpos : 0 < lineLen (bytes.drop ml)) (hsmall : inSize < 2 ^ 31) (fuel : ℕ) (mb : Bool)
    (bl : ℤ) :
    (∃ o', o < o' ∧ o' < inSize ∧
        headLines bytes inSize (fuel + 1) o =
          (o' :: (headLines bytes inSize fuel o').1, (headLines bytes inSize fuel o').2) ∧
        scanLines bytes inSize (fuel + 1) ml mb bl = atLine bytes inSize fuel o' mb bl) ∨
      (headLines bytes inSize (fuel + 1) o).1 = [] ∧
        Ends bytes inSize (headLines bytes inSize (fuel + 1) o).2 bl
          (scanLines bytes inSize (fuel + 1) ml mb bl) := by
  rw [scanLines_succ, headLines_succ, hline, if_neg (by omega : ¬ inSize < ml),
    if_neg (by omega : ¬ lineLen (bytes.drop ml) = 0),
    if_neg (by omega : ¬ lineLen (bytes.drop o) = 0)]
  by_cases hcut : inSize < ml + lineLen (bytes.drop ml)
  · rw [if_pos hcut, if_pos hcut]
    exact Or.inr ⟨rfl, rfl⟩
  rw [if_neg hcut, if_neg hcut]
  rcases lineEnd_body bytes (Nat.le_of_not_lt hcut) hsmall bl with
    ⟨e, h0, -, hbl⟩ | ⟨h0, hbl⟩ | ⟨o', hle, hlt, h0, hbl⟩
  · rw [h0, hbl]
    refine Or.inr ⟨rfl, ?_⟩
    unfold Ends
    dsimp only
    by_cases hfits : uint32 (e + bl) ≤ inSize
    · rw [if_pos hfits, if_pos hfits]
    · rw [if_neg hfits, if_neg hfits]
  · rw [h0, hbl]
    exact Or.inr ⟨rfl, rfl⟩
  · rw [h0, hbl]
    exact Or.inl ⟨o', by omega, hlt, rfl, rfl⟩

theorem scanLines_known {o ml fuel : ℕ} (hml : ml ≤ inSize)
    (hline : o + lineLen (bytes.drop o) = ml + lineLen (bytes.drop ml)) (hom : o ≤ ml)
    (hpos : 0 < lineLen (bytes.drop ml) ∨ o = ml) (hsmall : inSize < 2 ^ 31) (bl : ℤ) :
    Ends bytes inSize (headLines bytes inSize fuel o).2 bl
      (scanLines bytes inSize fuel ml true bl) := by
  induction fuel generalizing o ml with
  | zero => rfl
  | succ fuel ih =>
    by_cases hzero : lineLen (bytes.drop ml) = 0
    · -- the line is empty, or cut off by a zero byte
      have he : o = ml := by omega
      rw [headLines_succ, scanLines_succ, if_neg (by omega : ¬ inSize < ml), if_pos hzero,
        if_pos (by rw [he]; exact hzero)]
      rfl
    rcases scanLines_round hml hline hom (by omega) hsmall fuel true bl with
      ⟨o', -, hlt, hhead, hscan⟩ | ⟨-, hends⟩
    · rw [hhead, hscan]
      unfold atLine
      rw [if_neg (by rintro ⟨h, -⟩; cases h)]
      exact ih (Nat.le_of_lt hlt) rfl le_rfl (Or.inr rfl)
    · exact hends

/-! ### The line with the word -/

theorem lineLen_take {s : Bytes} {k : ℕ} (hc : Clean (s.take k)) (hk : k ≤ s.length) :
    lineLen s = k + lineLen (s.drop k) := by
  have hlen : (s.take k).length = k := by
    rw [List.length_take, min_eq_left hk]
  conv_lhs => rw [← List.take_append_drop k s]
  unfold lineLen
  rw [List.takeWhile_append_of_pos, List.length_append, hlen]
  intro c hm
  obtain ⟨h1, h2⟩ := hc c hm
  simp [h1, h2]

theorem word_clean {s : Bytes} (h : startsNoCase hdrContentLength s = true) :
    Clean (s.take hdrContentLength.length) ∧ hdrContentLength.length ≤ s.length := by
  have hword : ∀ d ∈ hdrContentLength.map toLower, d ≠ toLower cr ∧ d ≠ toLower lf ∧ d ≠ toLower 0 := by
    decide
  simp only [startsNoCase, beq_iff_eq] at h
  constructor
  · intro c hm
    have hc := List.mem_map_of_mem (f := toLower) hm
    rw [h] at hc
    obtain ⟨h1, h2, h3⟩ := hword _ hc
    refine ⟨?_, fun he => h3 (by rw [he])⟩
    simp only [isEol, Bool.or_eq_false_iff, beq_eq_false_iff_ne]
    exact ⟨fun he => h1 (by rw [he]), fun he => h2 (by rw [he])⟩
  · have hlen := congrArg List.length h
    rw [List.length_map, List.length_map, List.length_take] at hlen
    omega

theorem colon_clean {c : UInt8} (h : isColonOrSpace c = true) : isEol c = false ∧ c ≠ 0 := by
  simp only [isColonOrSpace, Bool.or_eq_true, beq_iff_eq] at h
  rcases h with rfl | rfl <;> decide

theorem word_line {w : ℕ} (hin : inSize ≤ bytes.length) (hw : wordAt bytes w = true)
    (hle : w + hdrContentLength.length ≤ inSize) :
    ∃ k, w + hdrContentLength.length +
        (((bytes.take inSize).drop (w + hdrContentLength.length)).takeWhile isColonOrSpace).length =
          w + k ∧
      w + k ≤ inSize ∧
      w + lineLen (bytes.drop w) = w + k + lineLen (bytes.drop (w + k)) := by
  obtain ⟨hword, hlen⟩ := word_clean hw
  have htail : Clean (((bytes.take inSize).drop (w + hdrContentLength.length)).takeWhile
      isColonOrSpace) := fun c hm => colon_clean (List.mem_takeWhile_imp hm)
  have hskip := (List.takeWhile_prefix (l := (bytes.take inSize).drop
    (w + hdrContentLength.length)) isColonOrSpace)
  generalize ((bytes.take inSize).drop (w + hdrContentLength.length)).takeWhile isColonOrSpace =
    skipped at htail hskip ⊢
  have hsl := hskip.length_le
  rw [List.length_drop, List.length_take, min_eq_left hin] at hsl
  refine ⟨hdrContentLength.length + skipped.length, by omega, by omega, ?_⟩
  have hskipped : (bytes.drop (w + hdrContentLength.length)).take skipped.length = skipped := by
    have hp : skipped <+: bytes.drop (w + hdrContentLength.length) := by
      refine hskip.trans ?_
      rw [List.drop_take]
      exact List.take_prefix _ _
    exact (List.prefix_iff_eq_take.mp hp).symm
  rw [lineLen_take hword hlen, List.drop_drop,
    lineLen_take (k := skipped.length) (by rw [hskipped]; exact htail)
      (by rw [List.length_drop]; omega), List.drop_drop, Nat.add_assoc w]
  omega

/-- The whole scan, by the lines of the head. -/
def ScanEnds (bytes : Bytes) (inSize : ℕ) (lines : List ℕ × HeadEnd) (f : Framing) : Prop :=
  match lines.1.find? (wordAt bytes) with
  | none => Ends bytes inSize lines.2 0 f
  | some w =>
    if inSize < w + hdrContentLength.length then
      match scanInt (bytes.drop (w + hdrContentLength.length)) with
      | none => f = .error
      | some n => f = messageEnd bytes inSize (w + hdrContentLength.length) n
    else
      match numberAt bytes inSize w with
      | none => f = .error
      | some n => Ends bytes inSize lines.2 n f

theorem atLine_word {w fuel : ℕ} (hin : inSize ≤ bytes.length) (hsmall : inSize < 2 ^ 31)
    (hw : wordAt bytes w = true) (hfuel : 0 < fuel) (lines : List ℕ) :
    ScanEnds bytes inSize (w :: lines, (headLines bytes inSize fuel w).2)
      (atLine bytes inSize fuel w false 0) := by
  unfold ScanEnds atLine
  rw [List.find?_cons_of_pos hw, if_pos ⟨rfl, hw⟩]
  dsimp only
  by_cases hcut : inSize < w + hdrContentLength.length
  · have hempty : (bytes.take inSize).drop (w + hdrContentLength.length) = [] :=
      List.drop_eq_nil_of_le (by rw [List.length_take]; omega)
    rw [if_pos hcut, hempty, List.takeWhile_nil, List.length_nil, Nat.add_zero]
    cases scanInt (bytes.drop (w + hdrContentLength.length)) with
    | none => rfl
    | some n =>
      obtain ⟨fuel, rfl⟩ := Nat.exists_eq_succ_of_ne_zero (Nat.ne_of_gt hfuel)
      dsimp only
      rw [scanLines_succ, if_pos hcut]
  · rw [if_neg hcut]
    obtain ⟨k, hk, hle, hline⟩ := word_line hin hw (Nat.le_of_not_lt hcut)
    unfold numberAt
    dsimp only
    rw [hk]
    by_cases hzero : lineLen (bytes.drop (w + k)) = 0
    · rw [if_pos hzero]
      cases scanInt (bytes.drop (w + k)) with
      | none => rfl
      | some n =>
        obtain ⟨fuel, rfl⟩ := Nat.exists_eq_succ_of_ne_zero (Nat.ne_of_gt hfuel)
        dsimp only
        rw [scanLines_succ, if_neg (by omega), if_pos hzero]
    · rw [if_neg hzero]
      cases scanInt (bytes.drop (w + k)) with
      | none => rfl
      | some n =>
        exact scanLines_known hle hline (Nat.le_add_right w k) (Or.inl (by omega)) hsmall n

theorem scanLines_ends {o fuel : ℕ} (hin : inSize ≤ bytes.length) (hsmall : inSize < 2 ^ 31)
    (ho : o ≤ inSize) (hfuel : inSize < fuel + o) :
    ScanEnds bytes inSize (headLines bytes inSize fuel o) (scanLines bytes inSize fuel o false 0) := by
  induction fuel generalizing o with
  | zero => omega
  | succ fuel ih =>
    by_cases hzero : lineLen (bytes.drop o) = 0
    · rw [headLines_succ, scanLines_succ, if_neg (by omega : ¬ inSize < o), if_pos hzero,
        if_pos hzero]
      rfl
    rcases scanLines_round ho rfl le_rfl (Nat.pos_of_ne_zero hzero) hsmall fuel false 0 with
      ⟨o', hlt, hlt', hhead, hscan⟩ | ⟨hnil, hends⟩
    · rw [hhead, hscan]
      by_cases hw : wordAt bytes o' = true
      · exact atLine_word hin hsmall hw (by omega) _
      · have hstep := ih (Nat.le_of_lt hlt') (by omega)
        unfold ScanEnds at hstep ⊢
        unfold atLine
        rw [if_neg (by rintro ⟨-, h⟩; exact hw h), List.find?_cons_of_neg hw]
        exact hstep
    · unfold ScanEnds
      rw [hnil]
      exact hends

end Scan

/-! ### The total length -/

theorem scanInt_range {s : Bytes} {n : ℤ} (h : scanInt s = some n) : -2 ^ 31 ≤ n ∧ n < 2 ^ 31 := by
  unfold scanInt scanSigned at h
  obtain ⟨x, -, rfl⟩ := Option.map_eq_some_iff.mp h
  unfold int32
  omega

theorem numberAt_range {bytes : Bytes} {inSize o : ℕ} {n : ℤ}
    (h : numberAt bytes inSize o = some n) : -2 ^ 31 ≤ n ∧ n < 2 ^ 31 := by
  unfold numberAt at h
  dsimp only at h
  split at h
  · cases h
  · exact scanInt_range h

theorem headLines_end {bytes : Bytes} {inSize fuel o e : ℕ} (hsmall : inSize < 2 ^ 31)
    (h : (headLines bytes inSize fuel o).2.offset = some e) :
    0 < lineLen (bytes.drop o) ∧ o < e ∧ e ≤ inSize := by
  induction fuel generalizing o with
  | zero => cases h
  | succ fuel ih =>
    rw [headLines_succ] at h
    by_cases hzero : lineLen (bytes.drop o) = 0
    · rw [if_pos hzero] at h
      cases h
    by_cases hcut : inSize < o + lineLen (bytes.drop o)
    · rw [if_neg hzero, if_pos hcut] at h
      cases h
    rw [if_neg hzero, if_neg hcut] at h
    have hle := terminators_le ((bytes.take inSize).drop (o + lineLen (bytes.drop o))) 0 0
    rw [List.length_drop, List.length_take] at hle
    have hml : o + lineLen (bytes.drop o) ≤ inSize := by omega
    rcases lineEnd_body bytes hml hsmall 0 with
      ⟨e', h0, hin, -⟩ | ⟨h0, -⟩ | ⟨o', hge, hlt, h0, -⟩
    · rw [h0] at h
      cases h
      refine ⟨by omega, ?_, hin⟩
      unfold lineEnd at h0
      generalize terminators ((bytes.take inSize).drop (o + lineLen (bytes.drop o))) 0 0 = t
        at h0 hle
      dsimp only at h0
      have hzero : uint32 ((o + lineLen (bytes.drop o) + t.1 + t.2 : ℕ) + 0) =
          o + lineLen (bytes.drop o) + t.1 + t.2 := by
        have := uint32_of_small (x := o + lineLen (bytes.drop o) + t.1 + t.2) (by omega)
        rw [add_zero]
        exact this
      by_cases heomh : 2 < t.1 ∨ t.1 = 2 ∧ bytes[o + lineLen (bytes.drop o)]? =
          bytes[o + lineLen (bytes.drop o) + 1]?
      · rw [if_pos heomh, hzero, if_pos ⟨heomh, by omega⟩] at h0
        cases h0
        omega
      · rw [if_neg heomh, if_neg fun h => heomh h.1] at h0
        split at h0 <;> cases h0
    · rw [h0] at h
      cases h
    · rw [h0] at h
      have := ih h
      exact ⟨by omega, by omega, this.2.2⟩

theorem uint32_eq {x : ℤ} {k : ℕ} (hk : k < 2 ^ 30) (hx : -2 ^ 31 ≤ x ∧ x < 2 ^ 31 + 2 ^ 30)
    (hle : uint32 x ≤ k) : (uint32 x : ℤ) = x := by
  unfold uint32 at *
  omega

theorem messageEnd_within {inSize e : ℕ} {bl : ℤ} (bytes : Bytes) (hsmall : inSize < 2 ^ 30)
    (he : e ≤ inSize) (hbl : -2 ^ 31 ≤ bl ∧ bl < 2 ^ 31) (hfits : uint32 (e + bl) ≤ inSize) :
    ∃ ml : ℕ, (ml : ℤ) = e + bl ∧ ml ≤ inSize ∧
      messageEnd bytes inSize (uint32 (e + bl)) bl =
        .method e (bl + (((bytes.take inSize).drop ml).takeWhile (· == 0)).length) := by
  have hml := uint32_eq hsmall (by omega) hfits
  refine ⟨uint32 (e + bl), hml, hfits, ?_⟩
  unfold messageEnd
  rw [if_pos hfits, show (uint32 (e + bl) : ℤ) - bl = e by omega,
    int32_of_small (by omega) (by omega)]

theorem messageEnd_beyond {bytes : Bytes} {inSize ml : ℕ} {bl : ℤ} (hsmall : bytes.length < 2 ^ 30)
    (hml : ml < 2 ^ 30) (hout : inSize < ml) (hbl : -2 ^ 31 ≤ bl ∧ bl < 2 ^ 31) :
    ∃ h b, messageEnd bytes inSize ml bl = .method h b ∧ ¬ (1 ≤ h + b ∧ h + b ≤ inSize) ∧
      inSize < int32 (h + b) := by
  unfold messageEnd
  rw [if_neg (by omega)]
  refine ⟨_, _, rfl, ?_⟩
  have hz := (List.takeWhile_sublist (l := bytes.drop ml) (· == 0)).length_le
  rw [List.length_drop] at hz
  generalize ((bytes.drop ml).takeWhile (· == 0)).length = z at hz ⊢
  unfold int32
  omega

theorem zeros_start {bytes : Bytes} (inSize : ℕ) (h : 0 < lineLen bytes) :
    (bytes.take inSize).takeWhile (· == 0) = [] := by
  cases bytes with
  | nil => rw [List.take_nil, List.takeWhile_nil]
  | cons c s =>
    cases inSize with
    | zero => rfl
    | succ n =>
      rw [List.take_succ_cons, List.takeWhile_cons_of_neg]
      intro hc
      rw [beq_iff_eq.mp hc] at h
      exact absurd h (by simp [lineLen])

/-! ### The reported lengths -/

/-- What is wrong with a message that is not measured. -/
structure Astray (ib : InBuffer) (n : ℤ) : Prop where
  found : Found ib n
  total : ¬ (1 ≤ n ∧ n ≤ ib.size)
  removed : int32 n = 0 ∨ ib.size < int32 n

theorem found_unique {ib : InBuffer} {m n : ℤ} (hm : Found ib m) (hn : Found ib n) : m = n := by
  obtain ⟨h, b, hf, rfl⟩ := hm
  obtain ⟨h', b', hf', rfl⟩ := hn
  rcases hf with hf | hf <;> rcases hf' with hf' | hf' <;> rw [hf] at hf' <;> cases hf' <;> rfl

theorem not_found {ib : InBuffer} (hw : Waits (RTSP_full_msg_rcvd ib)) : Counted ib := by
  intro n ⟨h, b, hf, _⟩
  rcases hw with hw | hw <;> rcases hf with hf | hf <;> rw [hw] at hf <;> cases hf

theorem counted_of_found {ib : InBuffer} {n : ℤ} (hf : Found ib n) (hn : 1 ≤ n ∧ n ≤ ib.size) :
    Counted ib := by
  intro m hm
  rw [found_unique hm hf]
  exact hn

/-- A head that ends at `e` with a number `bl` behind the word, or 0 without one. -/
theorem ends_measured {ib : InBuffer} {bl : ℤ} (hbl : -2 ^ 31 ≤ bl ∧ bl < 2 ^ 31)
    (h : Ends ib.bytes ib.size ib.lines.2 bl (RTSP_full_msg_rcvd ib)) :
    Counted ib ∧ (∀ e ∈ ib.lines.2.offset, (e : ℤ) + bl ≠ 0) ∨
      (∃ n, Astray ib n) ∧ ∃ e ∈ ib.lines.2.offset, (e : ℤ) + bl = 0 := by
  have hsize := ib.fits
  unfold bufferSize at hsize
  cases hend : ib.lines.2 with
  | broken =>
    rw [hend] at h
    refine Or.inl ⟨not_found (Or.inl h), ?_⟩
    intro e he
    cases he
  | notFull =>
    rw [hend] at h
    refine Or.inl ⟨not_found (Or.inr h), ?_⟩
    intro e he
    cases he
  | here e =>
    obtain ⟨hline, hpos, hle⟩ := headLines_end (by omega) (congrArg HeadEnd.offset hend)
    rw [List.drop_zero] at hline
    rw [hend] at h
    unfold Ends at h
    dsimp only at h
    by_cases hfits : uint32 (e + bl) ≤ ib.size
    · obtain ⟨ml, hml, hmle, heq⟩ := messageEnd_within ib.bytes (by omega) hle hbl hfits
      rw [if_pos hfits, heq] at h
      have hz := (List.takeWhile_sublist (l := (ib.bytes.take ib.size).drop ml) (· == 0)).length_le
      rw [List.length_drop, List.length_take] at hz
      by_cases hzero : ml = 0
      · rw [hzero, List.drop_zero, zeros_start ib.size hline, List.length_nil] at h
        refine Or.inr ⟨⟨0, ⟨_, _, Or.inl h, by omega⟩, by omega, Or.inl ?_⟩, e, rfl, by omega⟩
        exact int32_of_small le_rfl (by omega)
      · refine Or.inl ⟨counted_of_found ⟨_, _, Or.inl h, rfl⟩ (by omega), ?_⟩
        intro e' he'
        cases he'
        omega
    · rw [if_neg hfits] at h
      refine Or.inl ⟨not_found (Or.inr h), ?_⟩
      intro e' he'
      cases he'
      intro hsum
      rw [hsum] at hfits
      exact hfits (by unfold uint32; omega)

/-- An interleaved packet: its first four bytes are not counted against `in_size`. -/
theorem packet_measured {ib : InBuffer} (h36 : ib.bytes.head? = some 36) :
    ib.Measured ∧ Counted ib ∨ ¬ ib.Measured ∧ ∃ n, Astray ib n := by
  have hb2 := (ib.bytes.getD 2 0).toNat_lt
  have hb3 := (ib.bytes.getD 3 0).toNat_lt
  have hmsg : RTSP_full_msg_rcvd ib =
      if ib.packetLength ≤ ib.size then .interleaved 4 ib.packetLength else .notFull := by
    unfold RTSP_full_msg_rcvd
    rw [if_pos h36]
    rfl
  have hmeasured : ib.Measured ↔ (ib.packetLength ≤ ib.size → 4 + ib.packetLength ≤ ib.size) := by
    unfold InBuffer.Measured
    rw [if_pos h36]
  have hlen : ib.packetLength < 65536 := by
    unfold InBuffer.packetLength
    omega
  rw [hmeasured]
  by_cases hle : ib.packetLength ≤ ib.size
  · rw [if_pos hle] at hmsg
    have hf : Found ib (4 + ib.packetLength) := ⟨_, _, Or.inr hmsg, rfl⟩
    by_cases hin : 4 + ib.packetLength ≤ ib.size
    · exact Or.inl ⟨fun _ => hin, counted_of_found hf (by omega)⟩
    · refine Or.inr ⟨fun h => hin (h hle), _, hf, by omega, Or.inr ?_⟩
      rw [int32_of_small (by omega) (by omega)]
      omega
  · rw [if_neg hle] at hmsg
    exact Or.inl ⟨fun h => absurd h hle, not_found (Or.inr hmsg)⟩

theorem measured_iff {ib : InBuffer} (h36 : ib.bytes.head? ≠ some 36) :
    ib.Measured ↔ ¬ ib.Overrun ∧ ¬ ib.Cancelled := by
  unfold InBuffer.Measured
  rw [if_neg h36]

/-- Whatever was received, the lengths are counted iff it is measured. -/
theorem measured_or_astray {ib : InBuffer} (hpos : 0 < ib.size) :
    ib.Measured ∧ Counted ib ∨ ¬ ib.Measured ∧ ∃ n, Astray ib n := by
  by_cases h36 : ib.bytes.head? = some 36
  · exact packet_measured h36
  rw [measured_iff h36]
  have hsize := ib.fits
  have hfull := ib.full
  unfold bufferSize at hsize hfull
  have hscan : ScanEnds ib.bytes ib.size ib.lines
      (scanLines ib.bytes ib.size (ib.size + 1) 0 false 0) :=
    scanLines_ends (by omega) (by omega) (Nat.zero_le _) (by omega)
  have hmsg : RTSP_full_msg_rcvd ib = scanLines ib.bytes ib.size (ib.size + 1) 0 false 0 := by
    unfold RTSP_full_msg_rcvd
    rw [if_neg h36]
  rw [← hmsg] at hscan
  unfold ScanEnds at hscan
  unfold InBuffer.Overrun InBuffer.Cancelled
  change match ib.lengthLine with
    | none => _
    | some w => _ at hscan
  cases hw : ib.lengthLine with
  | none =>
    rw [hw] at hscan
    rcases ends_measured (by omega) hscan with ⟨hc, -⟩ | ⟨-, e, he, hsum⟩
    · refine Or.inl ⟨⟨?_, ?_⟩, hc⟩
      · intro ⟨o, ho, _⟩
        cases ho
      · intro ⟨o, ho, _⟩
        cases ho
    · have := headLines_end (by omega) he
      omega
  | some w =>
    rw [hw] at hscan
    dsimp only at hscan
    by_cases hcut : ib.size < w + hdrContentLength.length
    · rw [if_pos hcut] at hscan
      cases hnum : scanInt (ib.bytes.drop (w + hdrContentLength.length)) with
      | none =>
        rw [hnum] at hscan
        refine Or.inl ⟨⟨?_, ?_⟩, not_found (Or.inl hscan)⟩
        · intro ⟨o, ho, _, hsome⟩
          cases ho
          rw [hnum] at hsome
          cases hsome
        · intro ⟨o, ho, hle, _⟩
          cases ho
          omega
      | some n =>
        rw [hnum] at hscan
        dsimp only at hscan
        have hword : hdrContentLength.length = 14 := by decide
        have hlt : w < 2 ^ 29 := by
          by_contra hge
          have hempty : ib.bytes.drop (w + hdrContentLength.length) = [] :=
            List.drop_eq_nil_of_le (by omega)
          rw [hempty, show scanInt [] = none by decide] at hnum
          cases hnum
        have hbytes : ib.bytes.length < 2 ^ 30 := by omega
        obtain ⟨h, b, heq, htotal, hrem⟩ :=
          messageEnd_beyond hbytes (by omega) hcut (scanInt_range hnum)
        rw [heq] at hscan
        refine Or.inr ⟨?_, h + b, ⟨h, b, Or.inl hscan, rfl⟩, htotal, Or.inr hrem⟩
        intro ⟨hover, _⟩
        exact hover ⟨w, rfl, hcut, by rw [hnum]; rfl⟩
    · rw [if_neg hcut] at hscan
      have hover : ¬ ∃ o ∈ some w, ib.size < o + hdrContentLength.length ∧
          (scanInt (ib.bytes.drop (o + hdrContentLength.length))).isSome = true := by
        intro ⟨o, ho, hlt, _⟩
        cases ho
        exact hcut hlt
      cases hnum : numberAt ib.bytes ib.size w with
      | none =>
        rw [hnum] at hscan
        refine Or.inl ⟨⟨hover, ?_⟩, not_found (Or.inl hscan)⟩
        intro ⟨o, ho, _, n, hn, _⟩
        cases ho
        rw [hnum] at hn
        cases hn
      | some n =>
        rw [hnum] at hscan
        dsimp only at hscan
        rcases ends_measured (numberAt_range hnum) hscan with ⟨hc, hno⟩ | ⟨hast, e, he, hsum⟩
        · refine Or.inl ⟨⟨hover, ?_⟩, hc⟩
          intro ⟨o, ho, _, m, hm, e, he, hsum⟩
          cases ho
          rw [hnum] at hm
          cases hm
          exact hno e he hsum
        · exact Or.inr ⟨fun ⟨_, hcan⟩ => hcan ⟨w, rfl, by omega, n, hnum, e, he, hsum⟩, hast⟩

/-! ### The loop of the handler -/

section Handler

variable {σ : Type*} (onMethod onInterleaved : σ → InBuffer → ℤ → ℤ → σ)

theorem remove_zero (ib : InBuffer) : RTSP_remove_msg 0 ib = some ib := by
  unfold RTSP_remove_msg
  rw [dif_pos ⟨le_rfl, by omega⟩]
  dsimp only [Int.toNat_zero]
  rw [if_neg fun h => h.2 rfl]
  rfl

theorem remove_beyond {ib : InBuffer} {len : ℤ} (h : ib.size < len) :
    RTSP_remove_msg len ib = none := by
  unfold RTSP_remove_msg
  rw [dif_neg fun hc => absurd hc.2 (by omega)]

theorem discard_found {ib : InBuffer} {n : ℤ} (hf : Found ib n) :
    RTSP_discard_msg ib = RTSP_remove_msg (int32 n) ib := by
  obtain ⟨h, b, hf, rfl⟩ := hf
  unfold RTSP_discard_msg
  rcases hf with hf | hf <;> rw [hf]

theorem discard_counted {ib : InBuffer} {n : ℤ} (hf : Found ib n) (hc : 1 ≤ n ∧ n ≤ ib.size) :
    ∃ ib', RTSP_discard_msg ib = some ib' ∧ ib'.size < ib.size := by
  have hsize := ib.fits
  unfold bufferSize at hsize
  rw [discard_found hf, int32_of_small (by omega) (by omega)]
  unfold RTSP_remove_msg
  rw [dif_pos ⟨by omega, hc.2⟩]
  dsimp only
  split
  · exact ⟨_, rfl, by dsimp only; omega⟩
  · exact ⟨_, rfl, by dsimp only; omega⟩

theorem handlerLoop_found {ib : InBuffer} {n : ℤ} (hf : Found ib n) (hpos : 0 < ib.size)
    (fuel : ℕ) (st : σ) :
    ∃ st', handlerLoop onMethod onInterleaved (fuel + 1) st ib =
      (RTSP_discard_msg ib).bind fun ib' => handlerLoop onMethod onInterleaved fuel st' ib' := by
  obtain ⟨h, b, hf, -⟩ := hf
  rcases hf with hf | hf
  · refine ⟨onMethod st ib h b, ?_⟩
    conv_lhs => unfold handlerLoop
    rw [if_neg (by omega), hf]
  · refine ⟨onInterleaved st ib h b, ?_⟩
    conv_lhs => unfold handlerLoop
    rw [if_neg (by omega), hf]

/-- A message that is not measured is handled for ever, or leads out of the buffer. -/
theorem handlerLoop_astray {ib : InBuffer} {n : ℤ} (ha : Astray ib n) (hpos : 0 < ib.size)
    (fuel : ℕ) (st : σ) : handlerLoop onMethod onInterleaved fuel st ib = none := by
  induction fuel generalizing st with
  | zero => rfl
  | succ fuel ih =>
    obtain ⟨st', hround⟩ := handlerLoop_found onMethod onInterleaved ha.found hpos fuel st
    rw [hround, discard_found ha.found]
    rcases ha.removed with h0 | hout
    · rw [h0, remove_zero, Option.bind_some]
      exact ih st'
    · rw [remove_beyond hout, Option.bind_none]

theorem Visited.trans {ib ib₁ ib₂ : InBuffer} (h : Visited ib ib₁) (h' : Visited ib₁ ib₂) :
    Visited ib ib₂ := by
  induction h' with
  | start => exact h
  | discard _ hpos hf hd ih => exact ih.discard hpos hf hd

theorem handlerLoop_returns {ib : InBuffer}
    (hm : ∀ ib', Visited ib ib' → 0 < ib'.size → ib'.Measured) {fuel : ℕ} (hfuel : ib.size < fuel)
    (st : σ) : ∃ r, handlerLoop onMethod onInterleaved fuel st ib = some r := by
  induction fuel generalizing ib st with
  | zero => omega
  | succ fuel ih =>
    by_cases hpos : 0 < ib.size
    · rcases measured_or_astray hpos with ⟨-, hc⟩ | ⟨hno, -⟩
      · by_cases hfound : ∃ n, Found ib n
        · obtain ⟨n, hf⟩ := hfound
          obtain ⟨st', hround⟩ := handlerLoop_found onMethod onInterleaved hf hpos fuel st
          obtain ⟨ib', hd, hlt⟩ := discard_counted hf (hc n hf)
          rw [hround, hd, Option.bind_some]
          have hstep := Visited.start.discard hpos hf hd
          exact ih (fun ib'' hv => hm ib'' (hstep.trans hv)) (by omega) st'
        · unfold handlerLoop
          rw [if_neg (by omega)]
          cases hmsg : RTSP_full_msg_rcvd ib with
          | method h b => exact absurd ⟨h + b, h, b, Or.inl hmsg, rfl⟩ hfound
          | interleaved h b => exact absurd ⟨h + b, h, b, Or.inr hmsg, rfl⟩ hfound
          | error => exact ⟨_, rfl⟩
          | notFull => exact ⟨_, rfl⟩
      · exact absurd (hm ib Visited.start hpos) hno
    · unfold handlerLoop
      rw [if_pos (by omega)]
      exact ⟨_, rfl⟩

theorem visited_measured {ib ib' : InBuffer} (hv : Visited ib ib') {fuel : ℕ} {st : σ}
    (h : ∃ r, handlerLoop onMethod onInterleaved fuel st ib = some r) :
    ∃ fuel' st', ∃ r, handlerLoop onMethod onInterleaved fuel' st' ib' = some r := by
  induction hv with
  | start => exact ⟨fuel, st, h⟩
  | discard _ hpos hf hd ih =>
    obtain ⟨fuel', st', r, hr⟩ := ih
    cases fuel' with
    | zero => cases hr
    | succ fuel' =>
      obtain ⟨st'', hround⟩ := handlerLoop_found onMethod onInterleaved hf hpos fuel' st'
      rw [hround, hd, Option.bind_some] at hr
      exact ⟨fuel', st'', r, hr⟩

/-- The lengths are within what was received iff the numbers in it are, and the
handler returns iff they are for every message that it comes to. -/
theorem input_consumed (ib : InBuffer) (hpos : 1 ≤ ib.size) (st : σ) :
    (Counted ib ↔ ib.Measured) ∧
      ((∃ r, RTSP_handler onMethod onInterleaved st ib = some r) ↔
        ∀ ib', Visited ib ib' → 1 ≤ ib'.size → ib'.Measured) := by
  constructor
  · rcases measured_or_astray hpos with ⟨hm, hc⟩ | ⟨hno, n, ha⟩
    · exact ⟨fun _ => hm, fun _ => hc⟩
    · exact ⟨fun hc => absurd (hc n ha.found) ha.total, fun hm => absurd hm hno⟩
  · constructor
    · intro h ib' hv hpos'
      obtain ⟨fuel, st', r, hr⟩ := visited_measured onMethod onInterleaved hv h
      rcases measured_or_astray hpos' with ⟨hm, -⟩ | ⟨-, n, ha⟩
      · exact hm
      · rw [handlerLoop_astray onMethod onInterleaved ha hpos'] at hr
        cases hr
    · exact fun hm => handlerLoop_returns onMethod onInterleaved hm (Nat.lt_succ_self _) st

end Handler

/-- The first four bytes of an interleaved packet with one byte to follow. -/
def packetHead : InBuffer := InBuffer.empty.append [36, 0, 0, 1] (by decide)

theorem input_consumed_packet :
    1 ≤ packetHead.size ∧ (Counted packetHead ↔ packetHead.Measured) ∧
      ((∃ r, RTSP_handler dispatch pass [] packetHead = some r) ↔
        ∀ ib', Visited packetHead ib' → 1 ≤ ib'.size → ib'.Measured) :=
  ⟨by decide, input_consumed dispatch pass packetHead (by decide) []⟩

/-- The packet is taken for complete, and more is removed than was received. -/
theorem packet_head_overconsumed :
    1 ≤ packetHead.size ∧ RTSP_full_msg_rcvd packetHead = .interleaved 4 1 ∧
      ¬ Counted packetHead := by
  have hmsg : RTSP_full_msg_rcvd packetHead = .interleaved 4 1 := by decide +kernel
  refine ⟨by decide, hmsg, ?_⟩
  intro hc
  have hle := (hc 5 ⟨4, 1, Or.inr hmsg, rfl⟩).2
  exact absurd hle (by decide)

end Fenice.Rtsp
