import Fenice.Lib.Run
import Fenice.Rtsp.Requests

/-!
# Independence of the segmentation

Whatever way a stream of requests is cut into reads, the handler finds each
request with its own bytes, as long as the reads leave the buffer unharmed.
-/

namespace Fenice.Rtsp
open Fenice.CString Fenice.Run

/-! ### The end of a line -/

section Lines

variable {pre s stale : Bytes}

theorem take_received (pre s stale : Bytes) :
    (pre ++ (s ++ stale)).take (pre.length + s.length) = pre ++ s := by
  rw [← List.append_assoc, ← List.length_append, List.take_left]

theorem byte_at (pre s : Bytes) (k : ℕ) : (pre ++ s)[pre.length + k]? = s[k]? := by
  rw [List.getElem?_append_right (Nat.le_add_right _ _), Nat.add_sub_cancel_left]

theorem lineEnd_terminators :
    terminators (((pre ++ (s ++ stale)).take (pre.length + s.length)).drop pre.length) 0 0 =
      terminators s 0 0 := by
  rw [take_received, List.drop_left]

theorem terminators_stop {c : UInt8} {tc : ℕ} (hc : isEol c = false) (hb : tc < 3 → isBlank c = false)
    (t : Bytes) : terminators (c :: t) tc 0 = (tc, 0) := by
  unfold terminators
  rw [if_neg (by simp [hc]), if_neg]
  rintro ⟨hlt, hblank⟩
  rw [hb hlt] at hblank
  cases hblank

theorem terminators_stop_four {next : Bytes} (h : ∀ c ∈ next.head?, isEol c = false) :
    terminators next 4 0 = (4, 0) := by
  cases next with
  | nil => rfl
  | cons c t => exact terminators_stop (h c rfl) (fun h3 => absurd h3 (by decide)) t

theorem lineEnd_next {c : UInt8} {next : Bytes} (hc : isEol c = false) (hb : isBlank c = false)
    (bl : ℤ) (hs : s = eol ++ c :: next) :
    lineEnd (pre ++ (s ++ stale)) (pre.length + s.length) pre.length bl =
      .next (pre.length + 2) := by
  have ht : terminators s 0 0 = (2, 0) := by
    rw [hs]
    exact terminators_stop hc (fun _ => hb) next
  have hcrlf : (pre ++ (s ++ stale))[pre.length]? ≠ (pre ++ (s ++ stale))[pre.length + 1]? := by
    rw [byte_at pre _ 1, ← Nat.add_zero pre.length, byte_at pre _ 0, hs]
    simp [eol, cr, lf]
  have hlen : s.length = next.length + 3 := by
    rw [hs]
    simp [eol]
  unfold lineEnd
  simp only [lineEnd_terminators, ht]
  simp only [lt_irrefl, true_and, hcrlf, or_self, if_false, false_and, Nat.add_zero]
  rw [if_neg (by omega)]

theorem lineEnd_last (pre stale : Bytes) {next s : Bytes}
    (hn : ∀ c ∈ next.head?, isEol c = false) (bl : ℕ) (hbl : pre.length + 4 + bl < 2 ^ 32) (hs : s = eol ++ (eol ++ next)) :
    lineEnd (pre ++ (s ++ stale)) (pre.length + s.length) pre.length bl =
      if bl ≤ next.length then .last (pre.length + 4 + bl) else .notFull := by
  have ht : terminators s 0 0 = (4, 0) := by
    rw [hs]
    exact terminators_stop_four hn
  have hlen : s.length = next.length + 4 := by
    rw [hs]
    simp [eol]
  have hml : uint32 ((pre.length + 4 + 0 : ℕ) + (bl : ℤ)) = pre.length + 4 + bl := by
    have := uint32_of_small hbl
    rw [← this]
    congr 1
  unfold lineEnd
  simp only [lineEnd_terminators, ht, hml]
  by_cases hle : bl ≤ next.length
  · rw [if_pos ⟨Or.inl (by omega), by rw [if_pos (Or.inl (by omega))]; omega⟩, if_pos hle,
      if_pos (Or.inl (by omega))]
  · rw [if_pos (Or.inl (by omega)), if_neg (by omega), if_pos (by omega), if_neg hle]

theorem lineEnd_cut (pre stale : Bytes) {s : Bytes} (bl : ℤ) (hs : s = [] ∨ s = [cr] ∨ s = eol) :
    lineEnd (pre ++ (s ++ stale)) (pre.length + s.length) pre.length bl = .notFull := by
  unfold lineEnd
  simp only [lineEnd_terminators]
  rcases hs with rfl | rfl | rfl
  · simp [terminators]
  · simp [terminators, isEol]
  · have hcrlf : (pre ++ (eol ++ stale))[pre.length]? ≠ (pre ++ (eol ++ stale))[pre.length + 1]? := by
      rw [byte_at pre _ 1, ← Nat.add_zero pre.length, byte_at pre _ 0]
      simp [eol, cr, lf]
    have ht : terminators eol 0 0 = (2, 0) := by decide
    simp only [ht, lt_irrefl, true_and, hcrlf, or_self, if_false, false_and, Nat.add_zero]
    rw [if_pos (by simp [eol])]

/-- The received part ends before the last byte of the empty line; a body is still to come. -/
theorem lineEnd_short {bl : ℕ} (hpos : 0 < bl) (hbl : pre.length + 4 + bl < 2 ^ 32)
    (hs : s = eol ++ [cr]) :
    lineEnd (pre ++ (s ++ stale)) (pre.length + s.length) pre.length bl = .notFull := by
  have ht : terminators s 0 0 = (3, 0) := by
    rw [hs]
    decide
  have hlen : s.length = 3 := by
    rw [hs]
    rfl
  have hml : uint32 ((pre.length + 3 + 0 : ℕ) + (bl : ℤ)) = pre.length + 3 + bl := by
    have := uint32_of_small (x := pre.length + 3 + bl) (by omega)
    rw [← this]
    congr 1
  unfold lineEnd
  simp only [lineEnd_terminators, ht, hml]
  rw [if_pos (Or.inl (by omega)), if_neg (by omega), if_pos (by omega)]

/-! ### One round of the scan -/

/-- A round on a line that is followed by a terminator or by the end of what was
received. -/
theorem scanLines_line {l t : Bytes} (hl : l ≠ []) (hc : Clean l)
    (ht : ∀ c ∈ (t ++ stale).head?, isEol c = true) (fuel : ℕ) (mb : Bool) (bl : ℤ)
    (hs : s = l ++ t) :
    scanLines (pre ++ (s ++ stale)) (pre.length + s.length) (fuel + 1) pre.length mb bl =
      match lineEnd ((pre ++ l) ++ (t ++ stale)) ((pre ++ l).length + t.length)
          (pre ++ l).length bl with
      | .last ml => messageEnd (pre ++ (s ++ stale)) (pre.length + s.length) ml bl
      | .notFull => .notFull
      | .next ml =>
        if mb = false ∧
            startsNoCase hdrContentLength ((pre ++ (s ++ stale)).drop ml) = true then
          let ml := ml + hdrContentLength.length
          let skip := ((((pre ++ (s ++ stale)).take (pre.length + s.length)).drop ml).takeWhile isColonOrSpace).length
          match scanInt ((pre ++ (s ++ stale)).drop (ml + skip)) with
          | none => .error
          | some bl => scanLines (pre ++ (s ++ stale)) (pre.length + s.length) fuel (ml + skip) true bl
        else scanLines (pre ++ (s ++ stale)) (pre.length + s.length) fuel ml mb bl := by
  have hlen : 0 < l.length := List.length_pos_iff.mpr hl
  have hbytes : pre ++ (s ++ stale) = (pre ++ l) ++ (t ++ stale) := by
    rw [hs]
    simp only [List.append_assoc]
  have hsize : pre.length + s.length = (pre ++ l).length + t.length := by
    rw [hs]
    simp only [List.length_append]
    omega
  have hcontrol : lineLen ((pre ++ (s ++ stale)).drop pre.length) = l.length := by
    rw [List.drop_left, hs, List.append_assoc]
    exact lineLen_append hc ht
  have hml : pre.length + l.length = (pre ++ l).length := by rw [List.length_append]
  conv_lhs => unfold scanLines
  simp only [hcontrol]
  rw [if_neg (by omega), if_neg (by omega), if_neg (by rw [hs, List.length_append]; omega), hml]
  rewrite [hbytes, hsize]
  rfl

/-- The look at the start of a line for a `Content-Length`. -/
def checkLine (pre s stale : Bytes) (fuel : ℕ) (mb : Bool) (bl : ℤ) : Framing :=
  if mb = false ∧ startsNoCase hdrContentLength (s ++ stale) = true then
    let skip := ((s.drop hdrContentLength.length).takeWhile isColonOrSpace).length
    match scanInt ((s ++ stale).drop (hdrContentLength.length + skip)) with
    | none => .error
    | some bl =>
      scanLines (pre ++ (s ++ stale)) (pre.length + s.length) fuel
        (pre.length + (hdrContentLength.length + skip)) true bl
  else scanLines (pre ++ (s ++ stale)) (pre.length + s.length) fuel pre.length mb bl

theorem scanLines_header {l s' : Bytes} (hl : l ≠ []) (hc : Clean l) {c : UInt8} {next : Bytes}
    (hs' : s' = c :: next) (hce : isEol c = false) (hcb : isBlank c = false) (fuel : ℕ)
    (mb : Bool) (bl : ℤ) (hs : s = l ++ (eol ++ s')) :
    scanLines (pre ++ (s ++ stale)) (pre.length + s.length) (fuel + 1) pre.length mb bl =
      checkLine (pre ++ (l ++ eol)) s' stale fuel mb bl := by
  have hbytes : pre ++ (s ++ stale) = (pre ++ (l ++ eol)) ++ (s' ++ stale) := by
    rw [hs]
    simp only [List.append_assoc]
  have hsize : pre.length + s.length = (pre ++ (l ++ eol)).length + s'.length := by
    rw [hs]
    simp only [List.length_append]
    omega
  have hml : (pre ++ l).length + 2 = (pre ++ (l ++ eol)).length := by
    simp only [List.length_append, eol, List.length_cons, List.length_nil]
    omega
  rw [scanLines_line hl hc (t := eol ++ s') (by simp [eol, isEol]) fuel mb bl hs]
  rw [lineEnd_next hce hcb bl (by rw [hs'])]
  simp only [hml]
  rw [hbytes, hsize, take_received]
  unfold checkLine
  rw [List.drop_left]
  have hdrop : ∀ k, ((pre ++ (l ++ eol)) ++ (s' ++ stale)).drop
      ((pre ++ (l ++ eol)).length + k) = (s' ++ stale).drop k := by
    intro k
    rw [← List.drop_drop, List.drop_left]
  have hdrop' : ((pre ++ (l ++ eol)) ++ s').drop
      ((pre ++ (l ++ eol)).length + hdrContentLength.length) = s'.drop hdrContentLength.length := by
    rw [← List.drop_drop, List.drop_left]
  rw [hdrop', Nat.add_assoc, hdrop]

/-- Where the scan goes on behind the word and what is passed over. -/
def lengthAt (s : Bytes) : ℕ :=
  hdrContentLength.length + ((s.drop hdrContentLength.length).takeWhile isColonOrSpace).length

theorem checkLine_found (hstart : startsNoCase hdrContentLength (s ++ stale) = true)
    (hle : lengthAt s ≤ s.length) (fuel : ℕ) (bl : ℤ) :
    checkLine pre s stale fuel false bl =
      match scanInt (s.drop (lengthAt s) ++ stale) with
      | none => .error
      | some n =>
        scanLines ((pre ++ s.take (lengthAt s)) ++ (s.drop (lengthAt s) ++ stale))
          ((pre ++ s.take (lengthAt s)).length + (s.drop (lengthAt s)).length) fuel
          (pre ++ s.take (lengthAt s)).length true n := by
  have hlen : (pre ++ s.take (lengthAt s)).length = pre.length + lengthAt s := by
    rw [List.length_append, List.length_take, min_eq_left hle]
  have hbytes : (pre ++ s.take (lengthAt s)) ++ (s.drop (lengthAt s) ++ stale) =
      pre ++ (s ++ stale) := by
    rw [List.append_assoc, ← List.append_assoc (s.take _), List.take_append_drop]
  unfold checkLine
  rw [if_pos ⟨rfl, hstart⟩, hbytes, hlen, List.length_drop,
    ← List.drop_append_of_le_length hle, Nat.add_assoc, Nat.add_sub_cancel' hle]
  rfl

/-- Nothing is dispatched. -/
def Waits (f : Framing) : Prop := f = .error ∨ f = .notFull

theorem scanLines_unfinished (hc : Clean s) (fuel : ℕ) (mb : Bool) (bl : ℤ) :
    Waits (scanLines (pre ++ (s ++ stale)) (pre.length + s.length) fuel pre.length mb bl) := by
  cases fuel with
  | zero => exact Or.inl rfl
  | succ fuel =>
    have hle := le_lineLen_append hc stale
    unfold scanLines
    simp only [List.drop_left]
    rw [if_neg (by omega)]
    by_cases h0 : lineLen (s ++ stale) = 0
    · rw [if_pos h0]
      exact Or.inl rfl
    · rw [if_neg h0]
      by_cases hlt : pre.length + s.length < pre.length + lineLen (s ++ stale)
      · rw [if_pos hlt]
        exact Or.inr rfl
      · have hcut := lineEnd_cut (pre ++ s) stale (s := []) bl (Or.inl rfl)
        simp only [List.nil_append, List.length_nil, Nat.add_zero, List.append_assoc,
          List.length_append] at hcut
        rw [if_neg hlt, show lineLen (s ++ stale) = s.length by omega, hcut]
        exact Or.inr rfl

/-! ### The body length on the way through the headers -/

/-- The first header that begins with the word is a `Content-Length` of `n`. -/
def LengthFirst (hs : List Header) (n : ℕ) : Prop :=
  match hs.find? Header.startsWord with
  | none => n = 0
  | some h => h.isContentLength = true ∧ h.contentLength = some n

/-- What the scan knows in front of the headers `hs`. -/
def Known (hs : List Header) (n : ℕ) (mb : Bool) (bl : ℤ) : Prop :=
  mb = true ∧ bl = n ∨ mb = false ∧ bl = 0 ∧ LengthFirst hs n

theorem Known.nil {n : ℕ} {mb : Bool} {bl : ℤ} (h : Known [] n mb bl) : bl = n := by
  rcases h with ⟨-, h⟩ | ⟨-, h, hn⟩
  · exact h
  · simp only [LengthFirst, List.find?_nil] at hn
    rw [h, hn]
    rfl

theorem Known.skip {h : Header} {hs : List Header} {n : ℕ} {mb : Bool} {bl : ℤ}
    (hk : Known (h :: hs) n mb bl)
    (hno : ¬ (mb = false ∧ h.startsWord = true)) : Known hs n mb bl := by
  rcases hk with hk | ⟨hmb, hbl, hf⟩
  · exact Or.inl hk
  · have hname : h.startsWord = false := by simpa [hmb] using hno
    simp only [LengthFirst, List.find?_cons, hname] at hf
    exact Or.inr ⟨hmb, hbl, hf⟩

theorem Known.found {h : Header} {hs : List Header} {n : ℕ} {mb : Bool} {bl : ℤ}
    (hk : Known (h :: hs) n mb bl) (hmb : mb = false)
    (hname : h.startsWord = true) :
    h.isContentLength = true ∧ h.contentLength = some n := by
  rcases hk with ⟨ht, -⟩ | ⟨-, -, hf⟩
  · rw [ht] at hmb
    cases hmb
  · simpa only [LengthFirst, List.find?_cons, hname] using hf

theorem LengthFirst.of_request {r : Request} (hw : r.WellFormed) (hp : r.Plain) :
    LengthFirst r.headers r.body.length := by
  have hlen := hw.length
  have hfirst := hp.length_first
  have hiff : ∀ hs : List Header, (∀ h, hs.find? Header.startsWord = some h →
      h.isContentLength = true) →
      hs.find? Header.startsWord =
        hs.find? Header.isContentLength := by
    intro hs hf
    induction hs with
    | nil => rfl
    | cons h hs ih =>
      by_cases hn : h.startsWord = true
      · have hc := hf h (by rw [List.find?_cons_of_pos hn])
        rw [List.find?_cons_of_pos hn, List.find?_cons_of_pos hc]
      · have hc : ¬ h.isContentLength = true := fun hc => hn (isContentLength_starts hc)
        rw [List.find?_cons_of_neg hn, List.find?_cons_of_neg hc]
        exact ih fun h' hh => hf h' (by rw [List.find?_cons_of_neg hn]; exact hh)
  unfold LengthFirst
  rw [hiff r.headers hfirst] at *
  cases hfind : r.headers.find? Header.isContentLength with
  | none =>
    simp only [Request.contentLength, hfind, Option.some.injEq] at hlen
    exact hlen.symm
  | some h =>
    simp only [Request.contentLength, hfind] at hlen
    exact ⟨hfirst h (hfind ▸ rfl), hlen⟩

theorem header_head {h : Header} (hw : h.WellFormed) (t : Bytes) :
    ∃ c next, h.bytes ++ t = c :: next ∧ isEol c = false ∧ isBlank c = false := by
  obtain ⟨c, cs, hc⟩ := List.exists_cons_of_ne_nil hw.name_ne
  have hm : c ∈ h.name := hc ▸ List.mem_cons_self ..
  refine ⟨c, cs ++ 58 :: (h.value ++ t), ?_, (hw.name_clean c hm).1, (hw.name c hm).1⟩
  simp only [Header.bytes, hc, List.cons_append, List.append_assoc]

theorem header_clean {h : Header} (hw : h.WellFormed) : Clean h.bytes := by
  intro c hc
  rcases List.mem_append.mp hc with hn | hv
  · exact hw.name_clean c hn
  · rcases List.mem_cons.mp hv with rfl | hv
    · decide
    · exact hw.value_clean c hv

theorem header_ne {h : Header} : h.bytes ≠ [] := by
  simp [Header.bytes]

theorem headerBytes_cons (h : Header) (hs : List Header) (t : Bytes) :
    headerBytes (h :: hs) ++ t = h.bytes ++ (eol ++ (headerBytes hs ++ t)) := by
  simp only [headerBytes, List.flatMap_cons, List.append_assoc]

/-! ### Complete and incomplete requests -/

theorem scanLines_complete {body rest : Bytes} (hnext : ∀ c ∈ (body ++ rest).head?, isEol c = false)
    {hs : List Header} (hw : ∀ h ∈ hs, h.WellFormed) {l : Bytes} (hl : l ≠ []) (hc : Clean l)
    {mb : Bool} {bl : ℤ} (hk : Known hs body.length mb bl) {fuel : ℕ} (hf : hs.length < fuel)
    (hs' : s = l ++ (eol ++ (headerBytes hs ++ (eol ++ (body ++ rest)))))
    (hsmall : pre.length + s.length < 2 ^ 31) :
    scanLines (pre ++ (s ++ stale)) (pre.length + s.length) fuel pre.length mb bl =
      messageEnd (pre ++ (s ++ stale)) (pre.length + s.length)
        (pre.length + s.length - rest.length) body.length := by
  induction hs generalizing pre s l mb bl fuel with
  | nil =>
    obtain ⟨fuel, rfl⟩ := Nat.exists_eq_succ_of_ne_zero (Nat.ne_of_gt hf)
    have hbl := hk.nil
    have hlen : s.length = l.length + (4 + (body.length + rest.length)) := by
      rw [hs']
      simp only [headerBytes, List.flatMap_nil, List.length_append, List.length_nil, eol,
        List.length_cons]
      omega
    have hend := lineEnd_last (pre ++ l) stale (s := eol ++ (eol ++ (body ++ rest))) hnext
      body.length
      (by rw [List.length_append]; omega) rfl
    rw [scanLines_line hl hc (t := eol ++ (eol ++ (body ++ rest))) (by simp [eol, isEol]) fuel mb bl
      (by rw [hs']; rfl), hbl, hend, if_pos (by rw [List.length_append]; omega)]
    simp only [List.length_append]
    congr 1
    omega
  | cons h hs ih =>
    obtain ⟨fuel, rfl⟩ := Nat.exists_eq_succ_of_ne_zero (Nat.ne_of_gt (Nat.zero_lt_of_lt hf))
    have hwh := hw h (List.mem_cons_self ..)
    have hws : ∀ h' ∈ hs, h'.WellFormed := fun h' hm => hw h' (List.mem_cons_of_mem _ hm)
    obtain ⟨s', hs''⟩ : ∃ s', s' = h.bytes ++ (eol ++ (headerBytes hs ++ (eol ++ (body ++ rest)))) :=
      ⟨_, rfl⟩
    have hss : s = l ++ (eol ++ s') := by rw [hs', headerBytes_cons, hs'']
    obtain ⟨c, next, hcn, hce, hcb⟩ := header_head hwh
      (eol ++ (headerBytes hs ++ (eol ++ (body ++ rest))))
    have hlen : pre.length + s.length = (pre ++ (l ++ eol)).length + s'.length := by
      rw [hss]
      simp only [List.length_append]
      omega
    have hbytes : pre ++ (s ++ stale) = (pre ++ (l ++ eol)) ++ (s' ++ stale) := by
      rw [hss]
      simp only [List.append_assoc]
    rw [scanLines_header hl hc (hs''.trans hcn) hce hcb fuel mb bl hss]
    rw [hbytes, hlen]
    rw [hlen] at hsmall
    have hstart : startsNoCase hdrContentLength (s' ++ stale) =
        h.startsWord := by
      rw [hs'', List.append_assoc, starts_header]
    by_cases hfound : mb = false ∧ h.startsWord = true
    · -- the number is read, and the scan goes on behind it
      obtain ⟨hcl, hn⟩ := hk.found hfound.1 hfound.2
      obtain ⟨l', hl', hc', hdrop, hscan⟩ := contentLength_line hwh hcl hn (by
        have := congrArg List.length hs''
        simp only [List.length_append] at this
        omega) (t := eol ++ (headerBytes hs ++ (eol ++ (body ++ rest)))) rfl
      rw [← hs''] at hdrop
      change s'.drop (lengthAt s') = _ at hdrop
      have hle : lengthAt s' ≤ s'.length := by
        by_contra hlt
        rw [List.drop_eq_nil_of_le (by omega)] at hdrop
        exact hl' (List.append_eq_nil_iff.mp hdrop.symm).1
      have hnum : scanInt (s'.drop (lengthAt s') ++ stale) = some (body.length : ℤ) := by
        rw [hdrop, List.append_assoc]
        exact hscan stale
      have hsplit : (pre ++ (l ++ eol)).length + s'.length =
          ((pre ++ (l ++ eol)) ++ s'.take (lengthAt s')).length + (s'.drop (lengthAt s')).length := by
        simp only [List.length_append, List.length_take, List.length_drop]
        omega
      have hbytes' : (pre ++ (l ++ eol)) ++ (s' ++ stale) =
          ((pre ++ (l ++ eol)) ++ s'.take (lengthAt s')) ++ (s'.drop (lengthAt s') ++ stale) := by
        conv_lhs => rw [← List.take_append_drop (lengthAt s') s']
        simp only [List.append_assoc]
      rw [hfound.1, checkLine_found (hstart.trans hfound.2) hle, hnum]
      simp only
      rw [hbytes', hsplit]
      rw [hsplit] at hsmall
      exact ih hws hl' hc' (Or.inl ⟨rfl, rfl⟩) (by simp only [List.length_cons] at hf; omega) hdrop
        hsmall
    · unfold checkLine
      rw [hstart, if_neg hfound]
      exact ih hws header_ne (header_clean hwh) (hk.skip hfound)
        (by simp only [List.length_cons] at hf; omega) hs'' hsmall

theorem prefix_split {a b t : Bytes} (h : t <+: a ++ b) :
    t <+: a ∨ ∃ u, u ≠ [] ∧ t = a ++ u ∧ u <+: b := by
  obtain ⟨r, hr⟩ := h
  rcases List.append_eq_append_iff.mp hr with ⟨v, ha, -⟩ | ⟨v, ht, hb⟩
  · exact Or.inl ⟨v, ha.symm⟩
  · by_cases hv : v = []
    · rw [hv, List.append_nil] at ht
      exact Or.inl (ht ▸ List.prefix_rfl)
    · exact Or.inr ⟨v, hv, ht, r, hb.symm⟩

theorem Clean.front {a t : Bytes} (h : Clean a) (ht : t <+: a) : Clean t :=
  fun c hc => h c (ht.subset hc)

theorem prefix_eol {t : Bytes} (h : t <+: eol) : t = [] ∨ t = [cr] ∨ t = eol := by
  have hlen := h.length_le
  rw [List.prefix_iff_eq_take] at h
  simp only [eol, List.length_cons, List.length_nil] at hlen
  rcases Nat.lt_or_ge t.length 1 with h0 | h1
  · exact Or.inl (List.length_eq_zero_iff.mp (by omega))
  · rcases Nat.lt_or_ge t.length 2 with h2 | h2
    · rw [show t.length = 1 by omega] at h
      exact Or.inr (Or.inl h)
    · rw [show t.length = 2 by omega] at h
      exact Or.inr (Or.inr h)

theorem checkLine_unfinished {h : Header} (hw : h.WellFormed) {t : Bytes} (ht : t <+: h.bytes)
    (fuel : ℕ) (mb : Bool) (bl : ℤ)
    (hstale : mb = false → ¬ (t.length < hdrContentLength.length ∧
      startsNoCase hdrContentLength (t ++ stale) = true ∧
      (scanInt ((t ++ stale).drop hdrContentLength.length)).isSome = true)) : Waits (checkLine pre t stale fuel mb bl) := by
  have hc : Clean t := (header_clean hw).front ht
  by_cases hfound : mb = false ∧ startsNoCase hdrContentLength (t ++ stale) = true
  · by_cases hshort : t.length < hdrContentLength.length
    · -- the rest of the word is left over from earlier messages
      unfold checkLine
      rw [if_pos hfound, List.drop_eq_nil_of_le (Nat.le_of_lt hshort)]
      simp only [List.takeWhile_nil, List.length_nil, Nat.add_zero]
      cases hscan : scanInt ((t ++ stale).drop hdrContentLength.length) with
      | none => exact Or.inl rfl
      | some n => exact absurd ⟨hshort, hfound.2, by rw [hscan]; rfl⟩ (hstale hfound.1)
    · have hle : lengthAt t ≤ t.length := by
        have := (List.takeWhile_sublist (l := t.drop hdrContentLength.length)
          isColonOrSpace).length_le
        rw [List.length_drop] at this
        unfold lengthAt
        omega
      rw [hfound.1, checkLine_found hfound.2 hle]
      cases scanInt (t.drop (lengthAt t) ++ stale) with
      | none => exact Or.inl rfl
      | some n => exact scanLines_unfinished (fun c hm => hc c (List.mem_of_mem_drop hm)) fuel true n
  · unfold checkLine
    rw [if_neg hfound]
    exact scanLines_unfinished hc fuel mb bl

/-- The scan of a request of which only a part was received, from inside one of
its lines. -/
theorem scanLines_partial {body : Bytes} (hbody : ∀ c ∈ body.head?, isEol c = false)
    {hs : List Header} (hw : ∀ h ∈ hs, h.WellFormed) {l : Bytes} (hl : l ≠ []) (hc : Clean l)
    {mb : Bool} {bl : ℤ} (hk : Known hs body.length mb bl) {full : Bytes}
    (hfull : full = l ++ (eol ++ (headerBytes hs ++ (eol ++ body)))) (hpre : s <+: full)
    (hlt : s.length < full.length) (hshort : ¬ (body = [] ∧ s.length + 1 = full.length))
    (hstale : mb = false → staleWord (pre ++ (s ++ stale)) (pre.length + s.length)
      (pre.length + l.length + 2) hs = false)
    (hsmall : pre.length + full.length < 2 ^ 31) (fuel : ℕ) :
    Waits (scanLines (pre ++ (s ++ stale)) (pre.length + s.length) fuel pre.length mb bl) := by
  induction hs generalizing pre s l mb bl fuel full with
  | nil =>
    cases fuel with
    | zero => exact Or.inl rfl
    | succ fuel =>
      have hbl := hk.nil
      subst hfull
      rcases prefix_split hpre with hsl | ⟨t, hne, rfl, ht⟩
      · exact scanLines_unfinished (hc.front hsl) _ mb bl
      have hhead : ∀ c ∈ (t ++ stale).head?, isEol c = true := by
        obtain ⟨c, cs, rfl⟩ := List.exists_cons_of_ne_nil hne
        obtain ⟨r, hr⟩ := ht
        have : c = cr := (List.cons.inj hr).1
        rintro d hd
        cases hd
        rw [this]
        rfl
      rw [scanLines_line hl hc hhead fuel mb bl rfl]
      simp only [headerBytes, List.flatMap_nil, List.nil_append] at ht hlt hshort
      have hend : lineEnd ((pre ++ l) ++ (t ++ stale)) ((pre ++ l).length + t.length)
          (pre ++ l).length bl = .notFull := by
        rcases prefix_split ht with ht1 | ⟨u, hune, rfl, hu⟩
        · exact lineEnd_cut _ _ bl (prefix_eol ht1)
        rcases prefix_split hu with hu1 | ⟨v, hvne, rfl, hv⟩
        · rcases prefix_eol hu1 with rfl | rfl | rfl
          · exact absurd rfl hune
          · -- one byte of the empty line is missing
            have hpos : 0 < body.length := by
              apply List.length_pos_iff.mpr
              intro hb
              apply hshort
              subst hb
              exact ⟨rfl, by simp [eol]⟩
            rw [hbl]
            apply lineEnd_short hpos _ rfl
            simp only [List.length_append, eol, List.length_cons, List.length_nil] at hsmall ⊢
            omega
          · rw [hbl]
            rw [lineEnd_last (pre ++ l) stale (fun c hc => absurd hc (by simp)) _ _
              (congrArg (eol ++ ·) (List.append_nil eol).symm)]
            · rw [if_neg]
              simp only [List.length_append] at hlt
              simp only [List.length_nil]
              omega
            · simp only [List.length_append, eol, List.length_cons, List.length_nil] at hsmall ⊢
              omega
        · rw [hbl]
          have hvb : ∀ c ∈ v.head?, isEol c = false := by
            obtain ⟨c, cs, rfl⟩ := List.exists_cons_of_ne_nil hvne
            obtain ⟨r, rfl⟩ := hv
            exact hbody
          rw [lineEnd_last (pre ++ l) stale hvb _ _ rfl]
          · rw [if_neg]
            simp only [List.length_append] at hlt
            omega
          · simp only [List.length_append, eol, List.length_cons, List.length_nil] at hsmall ⊢
            omega
      rw [hend]
      exact Or.inr rfl
  | cons h hs ih =>
    cases fuel with
    | zero => exact Or.inl rfl
    | succ fuel =>
      have hwh := hw h (List.mem_cons_self ..)
      have hws : ∀ h' ∈ hs, h'.WellFormed := fun h' hm => hw h' (List.mem_cons_of_mem _ hm)
      rw [headerBytes_cons] at hfull
      rw [hfull] at hpre
      rcases prefix_split hpre with hsl | ⟨t, hne, rfl, ht⟩
      · exact scanLines_unfinished (hc.front hsl) _ mb bl
      rcases prefix_split ht with ht1 | ⟨u, hune, rfl, hu⟩
      · -- the received part ends in the terminators of this line
        have hhead : ∀ c ∈ (t ++ stale).head?, isEol c = true := by
          rcases prefix_eol ht1 with rfl | rfl | rfl
          · exact absurd rfl hne
          · exact fun c hm => by cases hm; rfl
          · exact fun c hm => by cases hm; rfl
        rw [scanLines_line hl hc hhead fuel mb bl rfl, lineEnd_cut _ _ bl (prefix_eol ht1)]
        exact Or.inr rfl
      obtain ⟨c, next, hcn, hce, hcb⟩ := header_head hwh (eol ++ (headerBytes hs ++ (eol ++ body)))
      obtain ⟨c', next', rfl⟩ := List.exists_cons_of_ne_nil hune
      obtain rfl : c' = c := by
        obtain ⟨r, hr⟩ := hu
        rw [hcn] at hr
        exact (List.cons.inj hr).1
      rw [scanLines_header hl hc rfl hce hcb fuel mb bl rfl]
      generalize hu' : c' :: next' = u at *
      have hbytes : pre ++ ((l ++ (eol ++ u)) ++ stale) = (pre ++ (l ++ eol)) ++ (u ++ stale) := by
        simp only [List.append_assoc]
      have hlen : pre.length + (l ++ (eol ++ u)).length = (pre ++ (l ++ eol)).length + u.length := by
        simp only [List.length_append]
        omega
      have hat : pre.length + l.length + 2 = (pre ++ (l ++ eol)).length := by
        simp only [List.length_append, eol, List.length_cons, List.length_nil]
        omega
      rw [hbytes, hlen, hat] at hstale
      have hupos : 0 < u.length := List.length_pos_iff.mpr hune
      have hdrop : ∀ k, ((pre ++ (l ++ eol)) ++ (u ++ stale)).drop ((pre ++ (l ++ eol)).length + k) =
          (u ++ stale).drop k := by
        intro k
        rw [← List.drop_drop, List.drop_left]
      -- what the condition on left over bytes says about this header
      have hword : mb = false → ¬ (u.length < hdrContentLength.length ∧
          startsNoCase hdrContentLength (u ++ stale) = true ∧
          (scanInt ((u ++ stale).drop hdrContentLength.length)).isSome = true) := by
        rintro hmb ⟨h1, h2, h3⟩
        have := hstale hmb
        simp only [staleWord, hdrop, List.drop_left, Bool.and_eq_false_iff, Bool.or_eq_false_iff,
          decide_eq_false_iff_not] at this
        rcases this with h0 | ⟨⟨(h0 | h0) | h0, -⟩⟩
        · omega
        · omega
        · rw [h2] at h0; cases h0
        · rw [h3] at h0; cases h0
      have hcut : full.length = l.length + (2 + (h.bytes ++ (eol ++ (headerBytes hs ++
          (eol ++ body)))).length) := by
        rw [hfull]
        simp only [List.length_append, eol, List.length_cons, List.length_nil]
      rcases prefix_split hu with hub | ⟨v, hvne, rfl, hv⟩
      · exact checkLine_unfinished hwh hub fuel mb bl hword
      have hstart : startsNoCase hdrContentLength ((h.bytes ++ v) ++ stale) = h.startsWord := by
        rw [List.append_assoc, starts_header]
      by_cases hfound : mb = false ∧ h.startsWord = true
      · -- the whole line was received, and with it the number
        obtain ⟨hcl, hn⟩ := hk.found hfound.1 hfound.2
        have hvcr : v.head? = some cr := by
          obtain ⟨c, cs, rfl⟩ := List.exists_cons_of_ne_nil hvne
          obtain ⟨r, hr⟩ := hv
          have : c = cr := (List.cons.inj hr).1
          rw [this]
          rfl
        obtain ⟨l', hl', hc', hl'drop, hscan⟩ := contentLength_line hwh hcl hn (by
          simp only [List.length_append] at hsmall hcut
          omega) hvcr
        change (h.bytes ++ v).drop (lengthAt (h.bytes ++ v)) = l' ++ v at hl'drop
        have hle : lengthAt (h.bytes ++ v) ≤ (h.bytes ++ v).length := by
          by_contra hgt
          rw [List.drop_eq_nil_of_le (by omega)] at hl'drop
          exact hl' (List.append_eq_nil_iff.mp hl'drop.symm).1
        have hnum : scanInt ((h.bytes ++ v).drop (lengthAt (h.bytes ++ v)) ++ stale) =
            some (body.length : ℤ) := by
          rw [hl'drop, List.append_assoc]
          exact hscan stale
        have hdroplen := congrArg List.length hl'drop
        rw [hfound.1, checkLine_found (hstart.trans hfound.2) hle, hnum]
        simp only
        rw [hl'drop]
        simp only [List.length_drop, List.length_append, eol, List.length_cons,
          List.length_nil] at hdroplen hlt hcut hsmall hshort
        refine ih hws hl' hc' (Or.inl ⟨rfl, rfl⟩) rfl
          ((List.prefix_append_right_inj l').mpr hv) ?_ ?_ (fun hf => by cases hf) ?_ fuel
        · simp only [List.length_append, eol, List.length_cons, List.length_nil]
          omega
        · rintro ⟨hb, he⟩
          refine hshort ⟨hb, ?_⟩
          simp only [List.length_append, eol, List.length_cons, List.length_nil] at he
          omega
        · simp only [List.length_append, List.length_take, eol, List.length_cons, List.length_nil]
          omega
      · unfold checkLine
        rw [hstart, if_neg hfound]
        simp only [List.length_append, eol, List.length_cons, List.length_nil] at hlt hcut hsmall hshort
        refine ih hws header_ne (header_clean hwh) (hk.skip hfound) rfl
          ((List.prefix_append_right_inj h.bytes).mpr hv) ?_ ?_ ?_ ?_ fuel
        · simp only [List.length_append, eol, List.length_cons, List.length_nil]
          omega
        · rintro ⟨hb, he⟩
          refine hshort ⟨hb, ?_⟩
          simp only [List.length_append, eol, List.length_cons, List.length_nil] at he
          omega
        · intro hmb
          have hno : h.startsWord = false := by simpa [hmb] using hfound
          have := hstale hmb
          simp only [staleWord, hno, Bool.not_false, Bool.true_and, Bool.and_eq_false_iff,
            Bool.or_eq_false_iff, decide_eq_false_iff_not] at this
          rcases this with h0 | ⟨-, h0⟩
          · omega
          · exact h0
        · simp only [List.length_append, eol, List.length_cons, List.length_nil]
          omega

end Lines

/-! ### One request at the front of the buffer -/

section Buffer

variable {ib : InBuffer} {r : Request}

theorem bytes_split (ib : InBuffer) :
    ∃ stale, ib.bytes = [] ++ (ib.received ++ stale) ∧
      ib.size = ([] : Bytes).length + ib.received.length := by
  refine ⟨ib.bytes.drop ib.size, ?_, ?_⟩
  · rw [List.nil_append, InBuffer.received, List.take_append_drop]
  · rw [ib.length_received, List.length_nil, Nat.zero_add]

theorem headers_le (hs : List Header) : hs.length ≤ (headerBytes hs).length := by
  induction hs with
  | nil => exact Nat.zero_le _
  | cons h hs ih =>
    have hcons := congrArg List.length (headerBytes_cons h hs [])
    simp only [List.length_append, List.length_nil, Nat.add_zero, eol, List.length_cons] at hcons
    rw [List.length_cons]
    omega

theorem request_bytes (r : Request) (t : Bytes) :
    r.bytes ++ t = r.line ++ (eol ++ (headerBytes r.headers ++ (eol ++ (r.body ++ t)))) := by
  simp only [Request.bytes, Request.head, List.append_assoc]

theorem request_length (r : Request) :
    r.bytes.length = r.line.length + (headerBytes r.headers).length + r.body.length + 4 := by
  simp only [Request.bytes, Request.head, List.length_append, eol, List.length_cons,
    List.length_nil]
  omega

/-- A request does not begin like an interleaved packet, and neither does a part of it. -/
theorem not_interleaved (hw : r.WellFormed) {t : Bytes} (ht : ib.received ++ t = r.bytes ∨
    ∃ rest, ib.received = r.bytes ++ rest) (hpos : 0 < ib.size) : ib.bytes.head? ≠ some 36 := by
  obtain ⟨c, cs, hc⟩ := List.exists_cons_of_ne_nil hw.line_ne
  have hd := hw.not_interleaved
  rw [hc, List.head?_cons] at hd
  obtain ⟨d, ds, hrec⟩ := List.exists_cons_of_ne_nil
    (List.length_pos_iff.mp (by rw [ib.length_received]; exact hpos))
  have hcd : d = c := by
    rcases ht with ht | ⟨rest, ht⟩
    · rw [hrec, ← List.append_nil r.bytes, request_bytes, hc] at ht
      exact (List.cons.inj ht).1
    · rw [hrec, request_bytes, hc] at ht
      exact (List.cons.inj ht).1
  obtain ⟨stale, hb, -⟩ := bytes_split ib
  rw [hb, hrec, hcd]
  exact hd

theorem full_msg_complete (hw : r.WellFormed) (hp : r.Plain) {rest : Bytes}
    (hr : ib.received = r.bytes ++ rest)
    (hrest : ∀ c ∈ rest.head?, isEol c = false ∧ c ≠ 0) :
    RTSP_full_msg_rcvd ib = .method r.head.length r.body.length := by
  have hlen := request_length r
  have hsize : ib.size = r.bytes.length + rest.length := by
    rw [← ib.length_received, hr, List.length_append]
  have hfits := ib.fits
  unfold bufferSize at hfits
  have hhead : r.head.length = r.line.length + (headerBytes r.headers).length + 4 := by
    simp only [Request.head, List.length_append, eol, List.length_cons, List.length_nil]
    omega
  unfold RTSP_full_msg_rcvd
  rw [if_neg (not_interleaved hw (t := []) (Or.inr ⟨rest, hr⟩) (by omega))]
  obtain ⟨stale, hb, hs⟩ := bytes_split ib
  rw [hb, hs]
  have hnext : ∀ c ∈ (r.body ++ rest).head?, isEol c = false := by
    intro c hc
    cases hbody : r.body with
    | nil =>
      rw [hbody] at hc
      exact (hrest c hc).1
    | cons d ds =>
      rw [hbody] at hc
      exact hp.body_start c (by rw [hbody]; exact hc)
  have hheaders := headers_le r.headers
  rw [show (0 : ℕ) = ([] : Bytes).length from rfl]
  rw [scanLines_complete hnext hw.headers hw.line_ne hw.line_clean
    (Or.inr ⟨rfl, rfl, LengthFirst.of_request hw hp⟩)
    (by rw [ib.length_received]; omega) (hr.trans (request_bytes r rest))
    (by rw [ib.length_received]; simp only [List.length_nil]; omega)]
  rw [← hb, ← hs]
  unfold messageEnd
  rw [if_pos (by omega)]
  change Framing.method (int32 (((ib.size - rest.length : ℕ) : ℤ) - r.body.length))
    (r.body.length + ((ib.received.drop (ib.size - rest.length)).takeWhile (· == 0)).length) = _
  have hdrop : ib.received.drop (ib.size - rest.length) = rest := by
    rw [hr, hsize, Nat.add_sub_cancel, List.drop_left]
  have hzero : rest.takeWhile (· == 0) = [] := by
    cases rest with
    | nil => rfl
    | cons c cs => exact List.takeWhile_cons_of_neg (by simp [(hrest c rfl).2])
  rw [hdrop, hzero, int32_of_small (by omega) (by omega)]
  congr 1
  omega

theorem full_msg_partial (hw : r.WellFormed) (hp : r.Plain) (hr : ib.received <+: r.bytes)
    (hlt : ib.size < r.bytes.length) (hpos : 0 < ib.size)
    (hshort : ¬ (r.body = [] ∧ ib.size + 1 = r.bytes.length))
    (hstale : staleWord ib.bytes ib.size (r.line.length + 2) r.headers = false)
    (hsmall : r.bytes.length < 2 ^ 31) : Waits (RTSP_full_msg_rcvd ib) := by
  obtain ⟨t, ht⟩ := hr
  unfold RTSP_full_msg_rcvd
  rw [if_neg (not_interleaved hw (Or.inl ht) hpos)]
  obtain ⟨stale, hb, hs⟩ := bytes_split ib
  rw [hb, hs] at hstale
  rw [hb, hs, show (0 : ℕ) = ([] : Bytes).length from rfl]
  have hfull : r.bytes = r.line ++ (eol ++ (headerBytes r.headers ++ (eol ++ r.body))) := by
    have := request_bytes r []
    simpa only [List.append_nil] using this
  refine scanLines_partial hp.body_start hw.headers hw.line_ne hw.line_clean
    (Or.inr ⟨rfl, rfl, LengthFirst.of_request hw hp⟩) hfull ⟨t, ht⟩ ?_ ?_ (fun _ => ?_) ?_ _
  · rw [ib.length_received]
    exact hlt
  · rw [ib.length_received]
    exact hshort
  · rw [List.length_nil, Nat.zero_add] at hstale ⊢
    rw [Nat.zero_add]
    exact hstale
  · rw [List.length_nil, Nat.zero_add]
    exact hsmall

/-- What is left of the received part when a message was removed and nothing of
it wiped. -/
theorem remove_received (ib : InBuffer) {n : ℕ} (hn : n ≤ ib.size) (hz : ∀ c ∈ ib.received.drop (2 * n), c = 0) :
    ∃ ib', RTSP_remove_msg n ib = some ib' ∧ ib'.received = ib.received.drop n := by
  have hfits := ib.fits
  have hfull := ib.full
  unfold RTSP_remove_msg
  rw [dif_pos ⟨by omega, by omega⟩]
  simp only [Int.toNat_natCast]
  by_cases hcase : ib.size - n ≠ 0 ∧ n ≠ 0
  · rw [if_pos hcase]
    refine ⟨_, rfl, ?_⟩
    apply List.ext_getElem?
    intro i
    unfold InBuffer.received at hz ⊢
    simp only [List.getElem?_drop]
    by_cases hi : i < ib.size - n
    · rw [List.getElem?_take_of_lt hi, List.getElem?_take_of_lt (by omega)]
      by_cases hin : i < n
      · rw [List.getElem?_append_left, List.getElem?_take_of_lt hin, List.getElem?_append_left,
          List.getElem?_drop]
        · rw [List.length_drop]
          omega
        · simp only [List.length_take, List.length_append, List.length_drop]
          omega
      · -- beyond the length of the message there are zeros
        have hlen : ((ib.bytes.drop n ++ ib.bytes.drop (bufferSize - n)).take n).length = n := by
          simp only [List.length_take, List.length_append, List.length_drop]
          omega
        rw [List.getElem?_append_right (by omega), hlen, List.getElem?_replicate,
          if_pos (by omega)]
        obtain ⟨c, hc⟩ : ∃ c, ib.bytes[n + i]? = some c :=
          ⟨_, List.getElem?_eq_getElem (by omega)⟩
        rw [hc, hz c]
        rw [List.mem_iff_getElem?]
        refine ⟨n + i - 2 * n, ?_⟩
        rw [List.getElem?_drop, List.getElem?_take_of_lt (by omega), ← hc]
        congr 1
        omega
    · rw [List.getElem?_eq_none, List.getElem?_eq_none]
      · simp only [List.length_take]
        omega
      · simp only [List.length_take, List.length_append, List.length_replicate]
        omega
  · rw [if_neg hcase]
    refine ⟨_, rfl, ?_⟩
    unfold InBuffer.received
    simp only
    rcases Nat.eq_zero_or_pos n with rfl | hpos
    · rfl
    · rw [show ib.size - n = 0 by omega, List.take_zero, List.drop_eq_nil_of_le]
      rw [List.length_take]
      omega

end Buffer

/-! ### The handler -/

/-- What is dispatched for a message: its bytes. -/
def dispatch (log : List Bytes) (ib : InBuffer) (hdrLen bodyLen : ℤ) : List Bytes :=
  log ++ [ib.bytes.take (hdrLen + bodyLen).toNat]

/-- Interleaved packets are not requests. -/
def pass (log : List Bytes) (_ : InBuffer) (_ _ : ℤ) : List Bytes := log

theorem request_pos {r : Request} (hw : r.WellFormed) (rest : Bytes) :
    ∀ c ∈ (r.bytes ++ rest).head?, isEol c = false ∧ c ≠ 0 := by
  obtain ⟨c, cs, hc⟩ := List.exists_cons_of_ne_nil hw.line_ne
  intro d hd
  rw [request_bytes, hc] at hd
  cases hd
  exact hw.line_clean c (hc ▸ List.mem_cons_self ..)

theorem stream_head {rs : List Request} (hw : ∀ r ∈ rs, r.WellFormed) {a b : Bytes}
    (h : rs.flatMap Request.bytes = a ++ b) : ∀ c ∈ a.head?, isEol c = false ∧ c ≠ 0 := by
  intro c hc
  cases rs with
  | nil =>
    rw [List.flatMap_nil] at h
    rw [(List.append_eq_nil_iff.mp h.symm).1] at hc
    cases hc
  | cons r rs =>
    rw [List.flatMap_cons] at h
    apply request_pos (hw r (List.mem_cons_self ..)) (rs.flatMap Request.bytes) c
    rw [h, List.head?_append]
    rw [Option.mem_def] at hc
    rw [hc]
    rfl

theorem handlerLoop_spec {rs : List Request} (hw : ∀ r ∈ rs, r.WellFormed)
    (hp : ∀ r ∈ rs, r.Plain) {ib : InBuffer} {unread : Bytes}
    (hstream : rs.flatMap Request.bytes = ib.received ++ unread) (hu : Unharmed rs ib)
    (hsmall : ∀ r ∈ rs, r.bytes.length < 2 ^ 31) {fuel : ℕ} (hf : ib.size < fuel)
    (log : List Bytes) :
    ∃ k ib' f, handlerLoop dispatch pass fuel log ib =
        some (log ++ (rs.take k).map Request.bytes, ib', f) ∧ k ≤ rs.length ∧
      (rs.drop k).flatMap Request.bytes = ib'.received ++ unread ∧
      ∀ r ∈ (rs.drop k).head?, ib'.size < r.bytes.length := by
  induction rs generalizing ib fuel log with
  | nil =>
    obtain ⟨fuel, rfl⟩ := Nat.exists_eq_succ_of_ne_zero (Nat.ne_of_gt (Nat.zero_lt_of_lt hf))
    have h0 : ib.size = 0 := by
      rw [List.flatMap_nil] at hstream
      rw [← ib.length_received, (List.append_eq_nil_iff.mp hstream.symm).1, List.length_nil]
    refine ⟨0, ib, .notFull, ?_, le_rfl, hstream, fun r hr => by cases hr⟩
    unfold handlerLoop
    rw [if_pos h0]
    simp
  | cons r rs ih =>
    obtain ⟨fuel, rfl⟩ := Nat.exists_eq_succ_of_ne_zero (Nat.ne_of_gt (Nat.zero_lt_of_lt hf))
    have hwr := hw r (List.mem_cons_self ..)
    have hpr := hp r (List.mem_cons_self ..)
    have hws : ∀ r' ∈ rs, r'.WellFormed := fun r' hm => hw r' (List.mem_cons_of_mem _ hm)
    have hrlen := request_length r
    by_cases h0 : ib.size = 0
    · refine ⟨0, ib, .notFull, ?_, Nat.zero_le _, hstream, ?_⟩
      · unfold handlerLoop
        rw [if_pos h0]
        simp
      · intro r' hr'
        cases hr'
        omega
    unfold Unharmed at hu
    rw [List.flatMap_cons] at hstream
    by_cases hle : r.bytes.length ≤ ib.size
    · rw [if_pos hle] at hu
      obtain ⟨hz, hrest⟩ := hu
      obtain ⟨rest, hrec⟩ : ∃ rest, ib.received = r.bytes ++ rest := by
        rcases List.append_eq_append_iff.mp hstream with ⟨v, hv, -⟩ | ⟨v, hv, -⟩
        · exact ⟨v, hv⟩
        · have := congrArg List.length hv
          rw [List.length_append, ib.length_received] at this
          have hvn : v = [] := List.length_eq_zero_iff.mp (by omega)
          exact ⟨[], by rw [hv, hvn, List.append_nil, List.append_nil]⟩
      have htail : rs.flatMap Request.bytes = rest ++ unread := by
        rw [hrec, List.append_assoc] at hstream
        exact List.append_cancel_left hstream
      obtain ⟨ib', hrem, hrec'⟩ := remove_received ib hle hz
      rw [hrec, List.drop_left] at hrec'
      have hsize' : ib'.size < ib.size := by
        rw [← ib'.length_received, ← ib.length_received, hrec, hrec', List.length_append]
        omega
      have hmsg := full_msg_complete hwr hpr hrec (stream_head hws htail)
      have htotal : (r.head.length : ℤ) + r.body.length = r.bytes.length := by
        simp only [Request.bytes, List.length_append]
        omega
      have hdiscard : RTSP_discard_msg ib = some ib' := by
        have := ib.fits
        unfold bufferSize at this
        unfold RTSP_discard_msg
        rw [hmsg]
        simp only
        rw [htotal, int32_of_small (by omega) (by omega)]
        exact hrem
      have hbytes : ib.bytes.take r.bytes.length = r.bytes := by
        obtain ⟨stale, hb, -⟩ := bytes_split ib
        rw [hb, hrec, List.nil_append, List.append_assoc, List.take_left]
      obtain ⟨k, ib'', f, hloop, hk, hdrop, hnext⟩ :=
        ih hws (fun r' hm => hp r' (List.mem_cons_of_mem _ hm)) (htail.trans (by rw [hrec']))
          (hrest ib' hrem) (fun r' hm => hsmall r' (List.mem_cons_of_mem _ hm))
          (show ib'.size < fuel by omega) (log ++ [r.bytes])
      refine ⟨k + 1, ib'', f, ?_, by rw [List.length_cons]; omega, hdrop, hnext⟩
      unfold handlerLoop
      rw [if_neg h0, hmsg]
      simp only
      rw [hdiscard, Option.bind_some]
      unfold dispatch at hloop ⊢
      rw [htotal, Int.toNat_natCast, hbytes, hloop]
      simp
    · -- the request is not complete: nothing is dispatched
      rw [if_neg hle] at hu
      obtain ⟨hshort, hstale⟩ := hu
      have hpre : ib.received <+: r.bytes := by
        rcases List.append_eq_append_iff.mp hstream with ⟨v, hv, -⟩ | ⟨v, hv, -⟩
        · have := congrArg List.length hv
          rw [List.length_append, ib.length_received] at this
          omega
        · exact ⟨v, hv.symm⟩
      have hwaits := full_msg_partial hwr hpr hpre (by omega) (by omega) hshort hstale
        (hsmall r (List.mem_cons_self ..))
      refine ⟨0, ib, RTSP_full_msg_rcvd ib, ?_, Nat.zero_le _, ?_, ?_⟩
      · unfold handlerLoop
        rw [if_neg h0]
        rcases hwaits with hw' | hw' <;> rw [hw'] <;> simp
      · rw [List.drop_zero, List.flatMap_cons]
        exact hstream
      · intro r' hr'
        cases hr'
        omega

/-! ### Reads -/

/-- One read of a connection; the log holds what was dispatched so far. -/
def serve (s : List Bytes × InBuffer) (chunk : Bytes) : Option (List Bytes × InBuffer) :=
  (receive dispatch pass s.1 s.2 chunk).map fun r => (r.1, r.2.1)

/-- A read that fits into the buffer and leaves it unharmed. -/
def ReadGuard (reqs : List Request) (s : List Bytes × InBuffer) (chunk : Bytes) : Prop :=
  ∃ h : s.2.size + chunk.length ≤ bufferSize,
    Unharmed (reqs.drop s.1.length) (s.2.append chunk h)

instance (reqs : List Request) (s : List Bytes × InBuffer) (chunk : Bytes) :
    Decidable (ReadGuard reqs s chunk) := by
  unfold ReadGuard
  infer_instance

/-- A connection on which the complete requests were dispatched and the bytes of
the next one wait in the buffer. -/
structure Framed (reqs : List Request) (s : List Bytes × InBuffer) (reads : List Bytes) : Prop where
  le : s.1.length ≤ reqs.length
  dispatched : s.1 = (reqs.take s.1.length).map Request.bytes
  stream : (reqs.drop s.1.length).flatMap Request.bytes = s.2.received ++ reads.flatten
  unfinished : ∀ r ∈ (reqs.drop s.1.length).head?, s.2.size < r.bytes.length

theorem append_received {ib : InBuffer} {chunk : Bytes} (h : ib.size + chunk.length ≤ bufferSize) :
    (ib.append chunk h).received = ib.received ++ chunk := by
  unfold InBuffer.append
  unfold InBuffer.received
  simp only
  have hlen : (ib.bytes.take ib.size ++ chunk).length = ib.size + chunk.length := by
    have := ib.full
    have := ib.fits
    simp only [List.length_append, List.length_take]
    omega
  rw [← hlen, List.take_left]

theorem Framed.step {reqs : List Request} (hw : ∀ r ∈ reqs, r.WellFormed)
    (hp : ∀ r ∈ reqs, r.Plain) (hfit : ∀ r ∈ reqs, r.bytes.length ≤ bufferSize)
    {s : List Bytes × InBuffer} {chunk : Bytes} {reads : List Bytes}
    (h : Framed reqs s (chunk :: reads)) (hg : ReadGuard reqs s chunk) :
    ∃ t, serve s chunk = some t ∧ Framed reqs t reads ∧ s.1.length ≤ t.1.length := by
  obtain ⟨hroom, hu⟩ := hg
  have hsub : ∀ r ∈ reqs.drop s.1.length, r ∈ reqs := fun r hr => List.mem_of_mem_drop hr
  obtain ⟨k, ib, f, hloop, hk, hstream, hnext⟩ :=
    handlerLoop_spec (fun r hr => hw r (hsub r hr)) (fun r hr => hp r (hsub r hr))
      (show _ = (s.2.append chunk hroom).received ++ reads.flatten by
        rw [append_received, List.append_assoc, ← List.flatten_cons]
        exact h.stream) hu
      (fun r hr => by have := hfit r (hsub r hr); unfold bufferSize at this; omega)
      (Nat.lt_succ_self _) s.1
  have hle := h.le
  rw [List.length_drop] at hk
  have hlen : (s.1 ++ ((reqs.drop s.1.length).take k).map Request.bytes).length =
      s.1.length + k := by
    rw [List.length_append, List.length_map, List.length_take, List.length_drop]
    omega
  refine ⟨(s.1 ++ ((reqs.drop s.1.length).take k).map Request.bytes, ib), ?_, ?_⟩
  · unfold serve receive RTSP_handler
    rw [dif_pos hroom, hloop]
    rfl
  · refine ⟨⟨by simp only [hlen]; omega, ?_, ?_, ?_⟩, by simp only [hlen]; omega⟩
    · simp only [hlen]
      rw [List.take_add, List.map_append]
      congr 1
      exact h.dispatched
    · simp only [hlen]
      rw [← List.drop_drop]
      exact hstream
    · simp only [hlen]
      rw [← List.drop_drop]
      exact hnext

theorem alone_unharmed {reqs : List Request} (hw : ∀ r ∈ reqs, r.WellFormed) {ib : InBuffer}
    (h0 : ib.size = 0) : Unharmed reqs ib := by
  cases reqs with
  | nil => trivial
  | cons r rs =>
    have hlen := request_length r
    have hline := List.length_pos_iff.mpr (hw r (List.mem_cons_self ..)).line_ne
    unfold Unharmed
    rw [if_neg (by omega)]
    refine ⟨by omega, ?_⟩
    cases r.headers with
    | nil => rfl
    | cons h hs => simp [staleWord, h0]

theorem Framed.one {reqs : List Request} {s t : List Bytes × InBuffer} {r : Request}
    {rs : List Request} (hd : reqs.drop s.1.length = r :: rs)
    (ht : Framed reqs t (rs.map Request.bytes)) (hle : s.1.length ≤ t.1.length) :
    t.1.length = s.1.length + 1 ∧ t.2.size = 0 := by
  have hpos : ∀ r' ∈ reqs, 0 < r'.bytes.length := by
    intro r' _
    rw [request_length]
    omega
  have hstream := congrArg List.length ht.stream
  have hflat : (rs.map Request.bytes).flatten = rs.flatMap Request.bytes := rfl
  rw [hflat, List.length_append, InBuffer.length_received] at hstream
  have hlen := congrArg List.length hd
  rw [List.length_drop, List.length_cons] at hlen
  have htle := ht.le
  obtain ⟨j, hj⟩ := Nat.exists_eq_add_of_le hle
  have hdrop : reqs.drop t.1.length = (r :: rs).drop j := by
    rw [hj, ← List.drop_drop, hd]
  cases j with
  | zero =>
    have hlt := ht.unfinished r (by rw [hdrop]; rfl)
    rw [hdrop, List.drop_zero, List.flatMap_cons, List.length_append] at hstream
    omega
  | succ j =>
    rw [hdrop, List.drop_succ_cons] at hstream
    have hsplit : (rs.flatMap Request.bytes).length =
        ((rs.take j).flatMap Request.bytes).length + ((rs.drop j).flatMap Request.bytes).length := by
      rw [← List.length_append, ← List.flatMap_append, List.take_append_drop]
    cases j with
    | zero =>
      rw [List.drop_zero] at hstream
      exact ⟨hj, by omega⟩
    | succ j =>
      cases rs with
      | nil =>
        rw [List.length_nil] at hlen
        omega
      | cons r' rs =>
        have := hpos r' (List.mem_of_mem_drop (i := s.1.length) (by rw [hd]; simp))
        have hfirst : 0 < (((r' :: rs).take (j + 1)).flatMap Request.bytes).length := by
          rw [List.take_succ_cons, List.flatMap_cons, List.length_append]
          omega
        omega

theorem alone {reqs : List Request} (hw : ∀ r ∈ reqs, r.WellFormed) (hp : ∀ r ∈ reqs, r.Plain)
    (hfit : ∀ r ∈ reqs, r.bytes.length ≤ bufferSize) {rs : List Request}
    {s : List Bytes × InBuffer} (hd : reqs.drop s.1.length = rs)
    (hs : Framed reqs s (rs.map Request.bytes)) (h0 : s.2.size = 0) :
    Along serve (ReadGuard reqs) s (rs.map Request.bytes) := by
  induction rs generalizing s with
  | nil => trivial
  | cons r rs ih =>
    have hr : r ∈ reqs := List.mem_of_mem_drop (i := s.1.length) (by rw [hd]; simp)
    have hroom : s.2.size + r.bytes.length ≤ bufferSize := by
      have := hfit r hr
      omega
    have hg : ReadGuard reqs s r.bytes := by
      refine ⟨hroom, ?_⟩
      rw [hd]
      unfold Unharmed
      have hsize : (s.2.append r.bytes hroom).size = r.bytes.length := by
        change s.2.size + r.bytes.length = _
        omega
      rw [if_pos (by rw [hsize]), List.drop_eq_nil_of_le (by rw [InBuffer.length_received]; omega)]
      refine ⟨fun c hc => absurd hc List.not_mem_nil, fun ib' hib => ?_⟩
      apply alone_unharmed fun r' hm => hw r' (List.mem_of_mem_drop (i := s.1.length) (by
        rw [hd]
        exact List.mem_cons_of_mem _ hm))
      obtain ⟨ib'', hrem, hrec⟩ := remove_received (s.2.append r.bytes hroom)
        (n := r.bytes.length) (by rw [hsize]) (by
          rw [List.drop_eq_nil_of_le (by rw [InBuffer.length_received]; omega)]
          exact fun c hc => by cases hc)
      rw [Option.mem_def] at hib
      rw [hib, Option.some.injEq] at hrem
      have := congrArg List.length hrec
      rw [← hrem, InBuffer.length_received, List.length_drop, InBuffer.length_received] at this
      omega
    refine ⟨hg, fun t ht => ?_⟩
    obtain ⟨t', ht', hft, hle⟩ := Framed.step hw hp hfit hs hg
    rw [Option.mem_def] at ht
    rw [ht, Option.some.injEq] at ht'
    subst ht'
    obtain ⟨hlen, hsize⟩ := Framed.one hd hft hle
    exact ih (by rw [hlen, ← List.drop_drop, hd]; rfl) hft hsize

theorem Framed.start {reqs : List Request} {reads : List Bytes}
    (hcut : reads.flatten = reqs.flatMap Request.bytes) :
    Framed reqs ([], InBuffer.empty) reads := by
  refine ⟨Nat.zero_le _, rfl, ?_, ?_⟩
  · rw [List.length_nil, List.drop_zero, hcut]
    rfl
  · intro r hr
    rw [request_length]
    change 0 < _
    omega

/-- A run along which every read leaves the buffer unharmed dispatches the requests. -/
theorem dispatched_all {reqs : List Request} (hw : ∀ r ∈ reqs, r.WellFormed)
    (hp : ∀ r ∈ reqs, r.Plain) (hfit : ∀ r ∈ reqs, r.bytes.length ≤ bufferSize)
    {reads : List Bytes} (hcut : reads.flatten = reqs.flatMap Request.bytes)
    (h : Along serve (ReadGuard reqs) ([], InBuffer.empty) reads) :
    ∃ ib, exec serve ([], InBuffer.empty) reads = some (reqs.map Request.bytes, ib) ∧
      ib.size = 0 := by
  have hstart := Framed.start hcut
  obtain ⟨⟨log, ib⟩, hexec, hend⟩ :=
    Along.run (fun s chunk reads (hf : Framed reqs s (chunk :: reads)) hg => by
      obtain ⟨t, ht, hft, -⟩ := Framed.step hw hp hfit hf hg
      exact ⟨t, ht, hft⟩) h hstart
  -- nothing is unread, so no request is left
  have hnone : reqs.drop log.length = [] := by
    cases hd : reqs.drop log.length with
    | nil => rfl
    | cons r rs =>
      have hlt := hend.unfinished r (by rw [hd]; rfl)
      have hstream := congrArg List.length hend.stream
      rw [hd] at hstream
      simp only [List.flatMap_cons, List.length_append, List.flatten_nil, List.length_nil,
        InBuffer.length_received] at hstream
      simp only at hlt
      omega
  have hall : log = reqs.map Request.bytes := by
    have hd := hend.dispatched
    have hle := List.drop_eq_nil_iff.mp hnone
    simp only at hd
    rw [List.take_of_length_le hle] at hd
    exact hd
  refine ⟨ib, by rw [hexec, hall], ?_⟩
  have hstream := congrArg List.length hend.stream
  simp only [hnone, List.flatMap_nil, List.length_nil, List.flatten_nil, List.append_nil,
    InBuffer.length_received] at hstream
  exact hstream.symm

/-- The sequence that is dispatched is the one of the requests, with exactly
their bytes, and the same as when every request arrives alone. -/
theorem segmentation_independent {reqs : List Request} (hw : ∀ r ∈ reqs, r.WellFormed)
    (hp : ∀ r ∈ reqs, r.Plain) (hfit : ∀ r ∈ reqs, r.bytes.length ≤ bufferSize)
    {reads : List Bytes} (hcut : reads.flatten = reqs.flatMap Request.bytes)
    (h : Along serve (ReadGuard reqs) ([], InBuffer.empty) reads) :
    (exec serve ([], InBuffer.empty) reads).map Prod.fst = some (reqs.map Request.bytes) ∧
      (exec serve ([], InBuffer.empty) reads).map Prod.fst =
        (exec serve ([], InBuffer.empty) (reqs.map Request.bytes)).map Prod.fst := by
  have halone := alone hw hp hfit (s := ([], InBuffer.empty)) rfl (Framed.start rfl) rfl
  obtain ⟨ib, hexec, -⟩ := dispatched_all hw hp hfit hcut h
  obtain ⟨ib', hexec', -⟩ := dispatched_all hw hp hfit rfl halone
  rw [hexec, hexec']
  exact ⟨rfl, rfl⟩

def optionsRequest : Request :=
  { line := lit "OPTIONS * RTSP/1.0", headers := [⟨lit "CSeq", lit " 1"⟩], body := [] }

def announceRequest : Request :=
  { line := lit "ANNOUNCE * RTSP/1.0"
    headers := [⟨lit "CSeq", lit " 2"⟩, ⟨lit "content-length", lit " 3"⟩], body := lit "v=0" }

/-- A cut in the first request, and the second one pipelined behind it in part. -/
theorem pipelined_in_parts :
    let reads := [announceRequest.bytes.take 10,
      announceRequest.bytes.drop 10 ++ optionsRequest.bytes.take 20, optionsRequest.bytes.drop 20]
    (exec serve ([], InBuffer.empty) reads).map Prod.fst =
        some [announceRequest.bytes, optionsRequest.bytes] ∧
      (exec serve ([], InBuffer.empty) reads).map Prod.fst =
        (exec serve ([], InBuffer.empty) [announceRequest.bytes, optionsRequest.bytes]).map
          Prod.fst :=
  @segmentation_independent [announceRequest, optionsRequest] (by decide) (by decide +kernel)
    (by decide) _ (by decide) (by decide +kernel)

/-- A read that ends in front of the last line feed of a request without body:
three terminators are taken for the end, one byte early. -/
theorem last_byte_cut_off :
    ¬ ∀ (reqs : List Request) (reads : List Bytes), (∀ r ∈ reqs, r.WellFormed) →
      reads.flatten = reqs.flatMap Request.bytes →
      ∃ ib, exec serve ([], InBuffer.empty) reads = some (reqs.map Request.bytes, ib) := by
  intro h
  obtain ⟨ib, hex⟩ := h [optionsRequest] [optionsRequest.bytes.dropLast, [lf]] (by decide)
    (by decide)
  have hlog : (exec serve ([], InBuffer.empty) [optionsRequest.bytes.dropLast, [lf]]).map Prod.fst =
      some [optionsRequest.bytes] := congrArg (Option.map Prod.fst) hex
  exact absurd hlog (by decide +kernel)

end Fenice.Rtsp
