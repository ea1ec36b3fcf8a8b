import Fenice.Rtsp.Consumption

/-!
# Where a well-formed message ends

`RTSP_full_msg_rcvd` on one message alone: behind it there are other bytes or
zeros, or only a part of it was received and the rest of the buffer is zero.
-/

namespace Fenice.Rtsp
open Fenice.CString

namespace Request

/-- A message of the protocol; it may begin like an interleaved packet. -/
structure Regular (r : Request) : Prop where
  line_ne : r.line ≠ []
  line_clean : Clean r.line
  headers : ∀ h ∈ r.headers, h.WellFormed
  length : r.contentLength = some r.body.length

instance (r : Request) : Decidable r.Regular :=
  decidable_of_iff (r.line ≠ [] ∧ Clean r.line ∧ (∀ h ∈ r.headers, h.WellFormed) ∧
    r.contentLength = some r.body.length)
    ⟨fun ⟨h1, h2, h3, h4⟩ => ⟨h1, h2, h3, h4⟩, fun ⟨h1, h2, h3, h4⟩ => ⟨h1, h2, h3, h4⟩⟩

end Request

/-- The offset of the first header whose name begins with `Content-Length`. -/
def lengthOffset : ℕ → List Header → Option ℕ
  | _, [] => none
  | o, h :: hs => if h.startsWord = true then some o else lengthOffset (o + h.bytes.length + 2) hs

namespace Request

def wordOffset (r : Request) : Option ℕ := lengthOffset (r.line.length + 2) r.headers

/-- The number that stands behind the word in the part `p` of the message; 0 as
long as the word is not complete. `none`: there is no number. -/
def number (r : Request) (p : Bytes) : Option ℤ :=
  match r.wordOffset with
  | none => some 0
  | some w =>
    if p.length < w + hdrContentLength.length then some 0
    else scanInt ((p.drop (w + hdrContentLength.length)).dropWhile isColonOrSpace)

/-- The number behind the word is the length of the body, or only zeros of the body
are beyond it, and the body does not go on with terminators. -/
def Exact (r : Request) : Prop :=
  r.line.head? ≠ some 36 ∧ (∀ c ∈ r.body.head?, isEol c = false) ∧
    ∃ n ∈ r.number r.bytes, 0 ≤ n ∧ n ≤ r.body.length ∧ ∀ c ∈ r.body.drop n.toNat, c = 0

/-- What of `p` is taken for the head, once it ends in three terminators. -/
def headSeen (r : Request) (p : Bytes) : ℕ :=
  min p.length r.head.length + ((p.drop r.head.length).takeWhile isEol).length

/-- The part `p` has a number behind a complete word, and the head with it leads
beyond what was received. -/
def Awaited (r : Request) (p : Bytes) : Prop :=
  if r.line.head? = some 36 then p.length < 256 * (p.getD 2 0).toNat + (p.getD 3 0).toNat
  else
    ∃ n ∈ r.number p, r.head.length ≤ p.length + 1 →
      ¬ (0 ≤ (r.headSeen p : ℤ) + n ∧ (r.headSeen p : ℤ) + n ≤ p.length)

instance (r : Request) : Decidable r.Exact :=
  have : Decidable (∀ c ∈ r.body.head?, isEol c = false) :=
    Option.decidableForallMem _
  inferInstanceAs (Decidable (r.line.head? ≠ some 36 ∧ (∀ c ∈ r.body.head?, isEol c = false) ∧
    ∃ n ∈ r.number r.bytes, 0 ≤ n ∧ n ≤ r.body.length ∧ ∀ c ∈ r.body.drop n.toNat, c = 0))

instance (r : Request) (p : Bytes) : Decidable (r.Awaited p) := by
  unfold Awaited
  infer_instance

end Request

/-! ### Numbers in front of other bytes -/

theorem takeWhile_append_stop {q : UInt8 → Bool} {t : Bytes} (s : Bytes)
    (ht : ∀ c ∈ t.head?, q c = false) : (s ++ t).takeWhile q = s.takeWhile q := by
  induction s with
  | nil =>
    cases t with
    | nil => rfl
    | cons c t => exact List.takeWhile_cons_of_neg (by simp [ht c rfl])
  | cons c s ih =>
    rw [List.cons_append]
    by_cases hc : q c = true
    · rw [List.takeWhile_cons_of_pos hc, List.takeWhile_cons_of_pos hc, ih]
    · rw [List.takeWhile_cons_of_neg hc, List.takeWhile_cons_of_neg hc]

theorem strtol_append {s t : Bytes} (hs : s ≠ []) (ht : ∀ c ∈ t.head?, isDigit c = false) :
    strtol (s ++ t) = strtol s := by
  obtain ⟨c, s, rfl⟩ := List.exists_cons_of_ne_nil hs
  unfold strtol numeral
  dsimp only [List.cons_append, List.head?_cons]
  by_cases hsign : some c = some 45 ∨ some c = some 43
  · rw [if_pos hsign, if_pos hsign, List.drop_succ_cons, List.drop_succ_cons, List.drop_zero,
      List.drop_zero, takeWhile_append_stop s ht]
    split <;> rfl
  · rw [if_neg hsign, if_neg hsign, ← List.cons_append, takeWhile_append_stop (c :: s) ht]
    split <;> rfl

theorem scanInt_append {s t : Bytes} (hs : s.dropWhile isSpace ≠ [])
    (ht : ∀ c ∈ t.head?, isDigit c = false) : scanInt (s ++ t) = scanInt s := by
  have hdrop : (s ++ t).dropWhile isSpace = s.dropWhile isSpace ++ t := by
    rw [List.dropWhile_append, if_neg (by rw [List.isEmpty_iff]; exact hs)]
  unfold scanInt scanSigned
  rw [hdrop, strtol_append hs ht]

theorem scanInt_spaces {s : Bytes} (hs : s.dropWhile isSpace = []) : scanInt s = none := by
  unfold scanInt
  rw [hs]
  rfl

theorem scanInt_zero {s t : Bytes} (ht : ∀ c ∈ t, c = 0) : scanInt (s ++ t) = scanInt s := by
  have hhead : ∀ c ∈ t.head?, c = 0 := fun c hc => ht c (List.mem_of_mem_head? hc)
  by_cases hs : s.dropWhile isSpace = []
  · rw [scanInt_spaces hs]
    have hdrop : (s ++ t).dropWhile isSpace = t := by
      rw [List.dropWhile_append, if_pos (by rw [hs]; rfl)]
      cases t with
      | nil => rfl
      | cons c t =>
        rw [List.dropWhile_cons_of_neg]
        rw [hhead c rfl]
        decide
    unfold scanInt scanSigned strtol numeral
    rw [hdrop]
    cases t with
    | nil => rfl
    | cons c t =>
      obtain rfl := hhead c rfl
      rfl
  · refine scanInt_append hs ?_
    intro c hc
    rw [hhead c hc]
    decide

/-! ### Lines of a message -/

theorem lineLen_stop {line t : Bytes} (hl : Clean line)
    (ht : ∀ c ∈ t.head?, isEol c = true ∨ c = 0) : lineLen (line ++ t) = line.length := by
  unfold lineLen
  rw [takeWhile_append_stop]
  · rw [List.takeWhile_eq_self_iff.mpr]
    intro c hc
    obtain ⟨h1, h2⟩ := hl c hc
    simp [h1, h2]
  · intro c hc
    rcases ht c hc with h | h
    · simp [h]
    · simp [h]

theorem terminators_eols {tc : ℕ} (htc : 3 ≤ tc) (s : Bytes) :
    terminators s tc 0 = (tc + (s.takeWhile isEol).length, 0) := by
  induction s generalizing tc with
  | nil => rfl
  | cons c s ih =>
    unfold terminators
    by_cases hc : isEol c = true
    · rw [if_pos hc, ih (by omega), List.takeWhile_cons_of_pos hc, List.length_cons]
      congr 1
      omega
    · rw [if_neg hc, if_neg (by omega), List.takeWhile_cons_of_neg hc]
      rfl

section Lines

variable {pre s stale : Bytes}

theorem lineEnd_three {t : Bytes} (hs : s = eol ++ cr :: t) (hsmall : pre.length + s.length < 2 ^ 31) :
    lineEnd (pre ++ (s ++ stale)) (pre.length + s.length) pre.length 0 =
      .last (pre.length + 3 + (t.takeWhile isEol).length) := by
  have ht : terminators s 0 0 = (3 + (t.takeWhile isEol).length, 0) := by
    rw [hs]
    exact terminators_eols le_rfl t
  have hle := (List.takeWhile_sublist (l := t) isEol).length_le
  have hlen : s.length = t.length + 3 := by
    rw [hs]
    rfl
  unfold lineEnd
  rw [lineEnd_terminators, ht]
  dsimp only
  have heomh : 2 < 3 + (t.takeWhile isEol).length ∨ 3 + (t.takeWhile isEol).length = 2 ∧
      (pre ++ (s ++ stale))[pre.length]? = (pre ++ (s ++ stale))[pre.length + 1]? :=
    Or.inl (by omega)
  have hml : uint32 ((pre.length + (3 + (t.takeWhile isEol).length) + 0 : ℕ) + 0) =
      pre.length + 3 + (t.takeWhile isEol).length := by
    have := uint32_of_small (x := pre.length + (3 + (t.takeWhile isEol).length) + 0) (by omega)
    rw [add_zero, this]
    omega
  rw [if_pos heomh, hml, if_pos ⟨heomh, by omega⟩]

theorem headLines_line {l t : Bytes} (hl : l ≠ []) (hc : Clean l)
    (ht : ∀ c ∈ (t ++ stale).head?, isEol c = true ∨ c = 0) (fuel : ℕ) (hs : s = l ++ t) :
    headLines (pre ++ (s ++ stale)) (pre.length + s.length) (fuel + 1) pre.length =
      match lineEnd ((pre ++ l) ++ (t ++ stale)) ((pre ++ l).length + t.length)
          (pre ++ l).length 0 with
      | .last e => ([], .here e)
      | .notFull => ([], .notFull)
      | .next o' =>
        (o' :: (headLines (pre ++ (s ++ stale)) (pre.length + s.length) fuel o').1,
          (headLines (pre ++ (s ++ stale)) (pre.length + s.length) fuel o').2) := by
  have hlen : 0 < l.length := List.length_pos_iff.mpr hl
  have hbytes : pre ++ (s ++ stale) = (pre ++ l) ++ (t ++ stale) := by
    rw [hs]
    simp only [List.append_assoc]
  have hsize : pre.length + s.length = (pre ++ l).length + t.length := by
    rw [hs]
    simp only [List.length_append]
    omega
  have hcontrol : lineLen ((pre ++ (s ++ stale)).drop pre.length) = l.length := by
    rw [List.drop_left, hs, List.append_assoc]
    exact lineLen_stop hc ht
  rw [headLines_succ, hcontrol, if_neg (by omega),
    if_neg (by rw [hs, List.length_append]; omega),
    show pre.length + l.length = (pre ++ l).length by rw [List.length_append]]
  rewrite [hbytes, hsize]
  rfl

/-- What the scan finds in the lines behind one line: the offset of the first
header with the word, and the end of the head. -/
def LinesAre (bytes : Bytes) (lines : List ℕ × HeadEnd) (w : Option ℕ) (e : HeadEnd) : Prop :=
  lines.1.find? (wordAt bytes) = w ∧ lines.2 = e

theorem headLines_head {hs : List Header} (hw : ∀ h ∈ hs, h.WellFormed) {l next : Bytes}
    (hl : l ≠ []) (hc : Clean l) {fuel : ℕ} (hf : hs.length < fuel)
    (hs' : s = l ++ (eol ++ (headerBytes hs ++ (eol ++ next))))
    (hsmall : pre.length + s.length < 2 ^ 31) :
    LinesAre (pre ++ (s ++ stale))
      (headLines (pre ++ (s ++ stale)) (pre.length + s.length) fuel pre.length)
      (lengthOffset (pre.length + l.length + 2) hs)
      (.here (pre.length + l.length + (headerBytes hs).length + 4 +
        (next.takeWhile isEol).length)) := by
  induction hs generalizing pre s l fuel with
  | nil =>
    obtain ⟨fuel, rfl⟩ := Nat.exists_eq_succ_of_ne_zero (Nat.ne_of_gt hf)
    have hlen : (pre ++ l).length + (eol ++ (eol ++ next)).length < 2 ^ 31 := by
      rw [hs'] at hsmall
      simp only [headerBytes, List.flatMap_nil, List.length_append, List.length_nil] at hsmall ⊢
      omega
    rw [headLines_line hl hc (t := eol ++ (eol ++ next)) (by simp [eol, isEol]) fuel
      (by rw [hs']; rfl), lineEnd_three (s := eol ++ (eol ++ next)) (t := lf :: next) rfl hlen]
    refine ⟨rfl, ?_⟩
    rw [List.takeWhile_cons_of_pos (by decide)]
    simp only [headerBytes, List.flatMap_nil, List.length_append, List.length_nil, List.length_cons]
    congr 1
    omega
  | cons h hs ih =>
    obtain ⟨fuel, rfl⟩ := Nat.exists_eq_succ_of_ne_zero (Nat.ne_of_gt (Nat.zero_lt_of_lt hf))
    have hwh := hw h (List.mem_cons_self ..)
    have hws : ∀ h' ∈ hs, h'.WellFormed := fun h' hm => hw h' (List.mem_cons_of_mem _ hm)
    obtain ⟨s', hs''⟩ : ∃ s', s' = h.bytes ++ (eol ++ (headerBytes hs ++ (eol ++ next))) := ⟨_, rfl⟩
    have hss : s = l ++ (eol ++ s') := by rw [hs', headerBytes_cons, hs'']
    obtain ⟨c, next', hcn, hce, hcb⟩ := header_head hwh (eol ++ (headerBytes hs ++ (eol ++ next)))
    have hlen : pre.length + s.length = (pre ++ (l ++ eol)).length + s'.length := by
      rw [hss]
      simp only [List.length_append]
      omega
    have hbytes : pre ++ (s ++ stale) = (pre ++ (l ++ eol)) ++ (s' ++ stale) := by
      rw [hss]
      simp only [List.append_assoc]
    have hat : (pre ++ l).length + 2 = (pre ++ (l ++ eol)).length := by
      simp only [List.length_append, eol, List.length_cons, List.length_nil]
      omega
    have hword : wordAt ((pre ++ (l ++ eol)) ++ (s' ++ stale)) (pre ++ (l ++ eol)).length =
        h.startsWord := by
      unfold wordAt
      rw [List.drop_left, hs'', List.append_assoc, starts_header]
    obtain ⟨hfind, hend⟩ := @ih (pre ++ (l ++ eol)) s' hws _ header_ne (header_clean hwh) fuel
      (by rw [List.length_cons] at hf; omega) hs'' (by rw [← hlen]; exact hsmall)
    rw [headLines_line hl hc (t := eol ++ s') (by simp [eol, isEol]) fuel hss,
      lineEnd_next hce hcb 0 (by rw [hs'', hcn]), hat, hbytes, hlen]
    constructor
    · dsimp only
      unfold lengthOffset
      by_cases hstart : h.startsWord = true
      · rw [List.find?_cons_of_pos (by rw [hword]; exact hstart), if_pos hstart, ← hat,
          List.length_append]
      · rw [List.find?_cons_of_neg (by rw [hword]; exact hstart), if_neg hstart, hfind, ← hat,
          List.length_append]
    · dsimp only
      rw [hend]
      have hcons := congrArg List.length (headerBytes_cons h hs [])
      simp only [List.length_append, List.length_nil, Nat.add_zero, eol, List.length_cons] at hcons ⊢
      congr 1
      omega

theorem lengthOffset_ge {o w : ℕ} {hs : List Header} (h : lengthOffset o hs = some w) : o ≤ w := by
  induction hs generalizing o with
  | nil => cases h
  | cons x hs ih =>
    unfold lengthOffset at h
    split at h
    · cases h
      exact le_rfl
    · have := ih h
      omega

theorem word_zeros {t : Bytes} (hs : ∀ c ∈ stale, c = 0) (ht : t.length < hdrContentLength.length) :
    startsNoCase hdrContentLength (t ++ stale) = false := by
  have hword : ∀ c ∈ hdrContentLength.map toLower, c ≠ toLower 0 := by decide
  unfold startsNoCase
  rw [beq_eq_false_iff_ne]
  intro he
  have hat := congrArg (fun l : Bytes => l[t.length]?) he
  rw [List.getElem?_map, List.getElem?_take_of_lt ht, List.getElem?_append_right le_rfl,
    Nat.sub_self] at hat
  cases stale with
  | nil =>
    have hl := congrArg List.length he
    rw [List.length_map, List.length_map, List.length_take, List.append_nil] at hl
    omega
  | cons c cs =>
    rw [List.getElem?_cons_zero, Option.map_some] at hat
    exact hword _ (List.mem_of_getElem? hat.symm) (by rw [hs c (List.mem_cons_self ..)])

theorem word_part {h : Header} {u x : Bytes} (hs : ∀ c ∈ stale, c = 0) (hu : u <+: h.bytes ++ x) :
    startsNoCase hdrContentLength (u ++ stale) =
      (h.startsWord && decide (hdrContentLength.length ≤ u.length)) := by
  by_cases hlen : hdrContentLength.length ≤ u.length
  · obtain ⟨y, hy⟩ := hu
    rw [startsNoCase_append hlen, ← startsNoCase_append hlen y, hy, starts_header,
      decide_eq_true hlen, Bool.and_true]
  · rw [word_zeros hs (by omega), decide_eq_false hlen, Bool.and_false]

/-- The word as far as it was received. -/
def wordSeen (w : Option ℕ) (size : ℕ) : Option ℕ :=
  w.filter fun w => w + hdrContentLength.length ≤ size

theorem wordSeen_some {w size : ℕ} :
    wordSeen (some w) size = if w + hdrContentLength.length ≤ size then some w else none := by
  unfold wordSeen
  by_cases h : w + hdrContentLength.length ≤ size
  · rw [if_pos h]
    exact Option.filter_some_pos (decide_eq_true h)
  · rw [if_neg h]
    exact Option.filter_some_neg (decide_eq_false h)

theorem wordSeen_far {o size : ℕ} {hs : List Header} (h : size < o + hdrContentLength.length) :
    wordSeen (lengthOffset o hs) size = none := by
  cases hw : lengthOffset o hs with
  | none => rfl
  | some w =>
    have := lengthOffset_ge hw
    rw [wordSeen_some, if_neg (by omega)]

theorem headLines_part (hz : ∀ c ∈ stale, c = 0) {hs : List Header}
    (hw : ∀ h ∈ hs, h.WellFormed) {l full : Bytes} (hl : l ≠ []) (hc : Clean l) {fuel : ℕ}
    (hf : s.length < fuel) (hfull : full = l ++ (eol ++ (headerBytes hs ++ eol)))
    (hpre : s <+: full) (hlt : s.length < full.length) (hne : s ≠ [])
    (hsmall : pre.length + s.length < 2 ^ 31) :
    LinesAre (pre ++ (s ++ stale))
      (headLines (pre ++ (s ++ stale)) (pre.length + s.length) fuel pre.length)
      (wordSeen (lengthOffset (pre.length + l.length + 2) hs) (pre.length + s.length))
      (if s.length + 1 = full.length then .here (pre.length + s.length) else .notFull) := by
  have hzhead : ∀ c ∈ stale.head?, c = 0 := fun c hm => hz c (List.mem_of_mem_head? hm)
  induction hs generalizing pre s l fuel full with
  | nil =>
    obtain ⟨fuel, rfl⟩ := Nat.exists_eq_succ_of_ne_zero (Nat.ne_of_gt (Nat.zero_lt_of_lt hf))
    subst hfull
    rcases prefix_split hpre with hsl | ⟨t, hne', rfl, ht⟩
    · have hle := hsl.length_le
      have hcut := lineEnd_cut (pre ++ s) stale 0 (Or.inl rfl)
      rw [headLines_line hne (hc.front hsl) (t := []) (fun c hm => Or.inr (hzhead c hm)) fuel
        (List.append_nil s).symm, hcut]
      refine ⟨rfl, ?_⟩
      rw [if_neg]
      simp only [List.length_append, eol, List.length_cons, List.length_nil]
      omega
    · have hhead : ∀ c ∈ (t ++ stale).head?, isEol c = true ∨ c = 0 := by
        obtain ⟨d, t, rfl⟩ := List.exists_cons_of_ne_nil hne'
        obtain ⟨r, hr⟩ := ht
        intro c hm
        cases hm
        rw [(List.cons.inj hr).1]
        exact Or.inl (by decide)
      rw [headLines_line hl hc hhead fuel rfl]
      simp only [headerBytes, List.flatMap_nil, List.nil_append] at ht hlt ⊢
      rcases prefix_split ht with ht1 | ⟨u, hune, rfl, hu⟩
      · rw [lineEnd_cut _ _ 0 (prefix_eol ht1)]
        refine ⟨rfl, ?_⟩
        have hle := ht1.length_le
        rw [if_neg]
        simp only [List.length_append, eol, List.length_cons, List.length_nil] at hle ⊢
        omega
      · rcases prefix_eol hu with rfl | rfl | rfl
        · exact absurd rfl hune
        · have hthree : lineEnd ((pre ++ l) ++ ((eol ++ [cr]) ++ stale))
              ((pre ++ l).length + (eol ++ [cr]).length) (pre ++ l).length 0 = _ :=
            lineEnd_three (t := []) rfl (by
              simp only [List.length_append, eol, List.length_cons, List.length_nil] at hsmall ⊢
              omega)
          rw [hthree]
          refine ⟨rfl, ?_⟩
          rw [if_pos (by simp only [List.length_append, eol, List.length_cons, List.length_nil])]
          simp only [List.length_append, List.takeWhile_nil, eol, List.length_cons, List.length_nil]
          congr 1
        · simp only [List.length_append] at hlt
          omega
  | cons h hs ih =>
    obtain ⟨fuel, rfl⟩ := Nat.exists_eq_succ_of_ne_zero (Nat.ne_of_gt (Nat.zero_lt_of_lt hf))
    have hwh := hw h (List.mem_cons_self ..)
    have hws : ∀ h' ∈ hs, h'.WellFormed := fun h' hm => hw h' (List.mem_cons_of_mem _ hm)
    rw [headerBytes_cons] at hfull
    rw [hfull] at hpre
    rcases prefix_split hpre with hsl | ⟨t, hne', rfl, ht⟩
    · have hle := hsl.length_le
      have hcut := lineEnd_cut (pre ++ s) stale 0 (Or.inl rfl)
      rw [headLines_line hne (hc.front hsl) (t := []) (fun c hm => Or.inr (hzhead c hm)) fuel
        (List.append_nil s).symm, hcut, wordSeen_far (by omega), if_neg]
      · exact ⟨rfl, rfl⟩
      · rw [hfull]
        simp only [List.length_append, eol, List.length_cons, List.length_nil]
        omega
    rcases prefix_split ht with ht1 | ⟨u, hune, rfl, hu⟩
    · have hle := ht1.length_le
      have hhead : ∀ c ∈ (t ++ stale).head?, isEol c = true ∨ c = 0 := by
        rcases prefix_eol ht1 with rfl | rfl | rfl
        · exact absurd rfl hne'
        · exact fun c hm => by cases hm; exact Or.inl rfl
        · exact fun c hm => by cases hm; exact Or.inl rfl
      rw [headLines_line hl hc hhead fuel rfl, lineEnd_cut _ _ 0 (prefix_eol ht1), wordSeen_far, if_neg]
      · exact ⟨rfl, rfl⟩
      · rw [hfull]
        simp only [List.length_append, eol, List.length_cons, List.length_nil] at hle ⊢
        omega
      · have hword : hdrContentLength.length = 14 := by decide
        simp only [List.length_append, eol, List.length_cons, List.length_nil] at hle ⊢
        omega
    obtain ⟨c, next, hcn, hce, hcb⟩ := header_head hwh (eol ++ (headerBytes hs ++ eol))
    have hu' : ∃ next', u = c :: next' := by
      obtain ⟨d, u, rfl⟩ := List.exists_cons_of_ne_nil hune
      obtain ⟨r, hr⟩ := hu
      rw [hcn] at hr
      exact ⟨u, by rw [(List.cons.inj hr).1]⟩
    obtain ⟨next', hu'⟩ := hu'
    have hlen : pre.length + (l ++ (eol ++ u)).length = (pre ++ (l ++ eol)).length + u.length := by
      simp only [List.length_append]
      omega
    have hbytes : pre ++ ((l ++ (eol ++ u)) ++ stale) = (pre ++ (l ++ eol)) ++ (u ++ stale) := by
      simp only [List.append_assoc]
    have hat : (pre ++ l).length + 2 = (pre ++ (l ++ eol)).length := by
      simp only [List.length_append, eol, List.length_cons, List.length_nil]
      omega
    have hat' : pre.length + l.length + 2 = (pre ++ (l ++ eol)).length := by
      rw [← hat, List.length_append]
    have hcut : full.length = l.length + (2 + (h.bytes ++ (eol ++ (headerBytes hs ++ eol))).length) := by
      rw [hfull]
      simp only [List.length_append, eol, List.length_cons, List.length_nil]
    have hword : wordAt ((pre ++ (l ++ eol)) ++ (u ++ stale)) (pre ++ (l ++ eol)).length =
        (h.startsWord && decide (hdrContentLength.length ≤ u.length)) := by
      unfold wordAt
      rw [List.drop_left]
      exact word_part hz hu
    have hsl : (l ++ (eol ++ u)).length = l.length + (2 + u.length) := by
      simp only [List.length_append, eol, List.length_cons, List.length_nil]
    obtain ⟨hfind, hend⟩ := @ih (pre ++ (l ++ eol)) u hws _ _ header_ne (header_clean hwh) fuel
      (by omega) rfl hu (by omega) hune
      (by rw [← hlen]; exact hsmall)
    rw [headLines_line hl hc (t := eol ++ u) (by simp [eol, isEol]) fuel rfl,
      lineEnd_next hce hcb 0 (by rw [hu']), hat, hbytes, hlen, hat']
    constructor
    · dsimp only
      unfold lengthOffset
      by_cases hstart : h.startsWord = true
      · rw [if_pos hstart]
        by_cases hfits : hdrContentLength.length ≤ u.length
        · rw [List.find?_cons_of_pos (by rw [hword, hstart, decide_eq_true hfits]; rfl)]
          rw [wordSeen_some, if_pos (by omega)]
        · rw [List.find?_cons_of_neg (by rw [hword, decide_eq_false hfits, Bool.and_false]; simp),
            hfind, wordSeen_far (by omega), wordSeen_some, if_neg (by omega)]
      · rw [List.find?_cons_of_neg (by rw [hword, Bool.eq_false_iff.mpr hstart]; simp), hfind,
          if_neg hstart]
    · dsimp only
      rw [hend]
      by_cases hlast : u.length + 1 = (h.bytes ++ (eol ++ (headerBytes hs ++ eol))).length
      · rw [if_pos hlast, if_pos (by omega)]
      · rw [if_neg hlast, if_neg (by omega)]

end Lines

/-! ### The number of a message -/

section Number

variable {r : Request}

theorem lengthOffset_some {o w : ℕ} {hs : List Header} (h : lengthOffset o hs = some w) :
    ∃ hs₁ x hs₂, hs = hs₁ ++ x :: hs₂ ∧ x.startsWord = true ∧
      (∀ y ∈ hs₁, y.startsWord = false) ∧ w = o + (headerBytes hs₁).length := by
  induction hs generalizing o with
  | nil => cases h
  | cons y hs ih =>
    unfold lengthOffset at h
    by_cases hy : y.startsWord = true
    · rw [if_pos hy] at h
      cases h
      exact ⟨[], y, hs, rfl, hy, fun _ hm => absurd hm List.not_mem_nil, rfl⟩
    · rw [if_neg hy] at h
      obtain ⟨hs₁, x, hs₂, rfl, hx, hno, hw⟩ := ih h
      refine ⟨y :: hs₁, x, hs₂, rfl, hx, ?_, ?_⟩
      · intro z hz
        rcases List.mem_cons.mp hz with rfl | hz
        · exact Bool.eq_false_iff.mpr hy
        · exact hno z hz
      · have hcons := congrArg List.length (headerBytes_cons y hs₁ [])
        simp only [List.length_append, List.length_nil, Nat.add_zero, eol, List.length_cons] at hcons
        omega

theorem name_length {h : Header} (hs : h.startsWord = true) :
    hdrContentLength.length ≤ h.name.length := by
  have := congrArg List.length (beq_iff_eq.mp hs)
  rw [List.length_map, List.length_map, List.length_take] at this
  omega

theorem word_length {h : Header} (hs : h.startsWord = true) :
    hdrContentLength.length ≤ h.bytes.length := by
  have := name_length hs
  rw [Header.bytes, List.length_append]
  omega

theorem lengthOffset_le {o w : ℕ} {hs : List Header} (h : lengthOffset o hs = some w) :
    w + hdrContentLength.length ≤ o + (headerBytes hs).length := by
  obtain ⟨hs₁, x, hs₂, rfl, hx, -, rfl⟩ := lengthOffset_some h
  have := word_length hx
  simp only [headerBytes, List.flatMap_append, List.flatMap_cons, List.length_append]
  omega

/-- Behind the word a header goes on with something that is no colon, no space and
no terminator. -/
theorem behind_word {h : Header} (hw : h.WellFormed) (hs : h.startsWord = true)
    (hn : h.isContentLength = true → ∃ n, h.contentLength = some n) :
    ∃ v, h.bytes.drop hdrContentLength.length =
        (h.bytes.drop hdrContentLength.length).takeWhile isColonOrSpace ++ v ∧
      v.dropWhile isSpace ≠ [] ∧ (h.bytes.drop hdrContentLength.length).dropWhile isColonOrSpace = v ∧
      Clean v := by
  refine ⟨(h.bytes.drop hdrContentLength.length).dropWhile isColonOrSpace,
    List.takeWhile_append_dropWhile.symm, ?_, rfl, ?_⟩
  · have hlen := name_length hs
    have hdrop : h.bytes.drop hdrContentLength.length =
        h.name.drop hdrContentLength.length ++ 58 :: h.value := by
      unfold Header.bytes
      rw [List.drop_append_of_le_length hlen]
    rw [hdrop]
    -- a byte that is passed over neither as a colon nor as white space
    suffices hbyte : ∃ a c b, h.name.drop hdrContentLength.length ++ 58 :: h.value = a ++ c :: b ∧
        isColonOrSpace c = false ∧ ∃ d ∈ c :: b, isSpace d = false by
      obtain ⟨a, c, b, heq, hc, d, hd, hds⟩ := hbyte
      intro hnil
      rw [List.dropWhile_eq_nil_iff] at hnil
      refine absurd (hnil d ?_) (by rw [hds]; simp)
      rw [heq, List.dropWhile_append]
      split
      · rw [List.dropWhile_cons_of_neg (by simp [hc])]
        exact hd
      · exact List.mem_append_right _ hd
    by_cases hlong : h.name.drop hdrContentLength.length = []
    · have hcl : h.isContentLength = true := by
        have htake : h.name.take hdrContentLength.length = h.name := by
          have := List.take_append_drop hdrContentLength.length h.name
          rw [hlong, List.append_nil] at this
          exact this
        unfold Header.startsWord startsNoCase at hs
        rw [htake] at hs
        exact hs
      obtain ⟨n, hn⟩ := hn hcl
      obtain ⟨b, d, b', hv, -, hd, hne, -, -⟩ := contentLength_parts hn
      obtain ⟨c, d, rfl⟩ := List.exists_cons_of_ne_nil hne
      have hc := hd c (List.mem_cons_self ..)
      refine ⟨58 :: b, c, d ++ b', ?_, ?_, c, List.mem_cons_self .., isSpace_false_of_isDigit hc⟩
      · rw [hlong, hv, List.nil_append]
        rfl
      · rw [isDigit_bounds] at hc
        simp only [isColonOrSpace, Bool.or_eq_false_iff, beq_eq_false_iff_ne, ne_eq,
          ← UInt8.toNat_inj, UInt8.reduceToNat]
        omega
    · obtain ⟨c, b, hcb⟩ := List.exists_cons_of_ne_nil hlong
      have hm : c ∈ h.name := List.mem_of_mem_drop (hcb ▸ List.mem_cons_self ..)
      obtain ⟨hblank, hcolon⟩ := hw.name c hm
      refine ⟨[], c, b ++ 58 :: h.value, by rw [hcb]; rfl, ?_, 58, ?_, by decide⟩
      · simp only [isBlank, Bool.or_eq_false_iff, beq_eq_false_iff_ne] at hblank
        simp only [isColonOrSpace, Bool.or_eq_false_iff, beq_eq_false_iff_ne]
        exact ⟨hcolon, hblank.1⟩
      · exact List.mem_cons_of_mem _ (List.mem_append_right _ (List.mem_cons_self ..))
  · intro c hc
    exact header_clean hw c (List.mem_of_mem_drop ((List.dropWhile_sublist _).subset hc))

theorem word_header (hr : r.Regular) {w : ℕ} (h : r.wordOffset = some w) (rest : Bytes) :
    ∃ (front : Bytes) (x : Header) (behind : Bytes), x.WellFormed ∧ x.startsWord = true ∧
      (x.isContentLength = true → ∃ n, x.contentLength = some n) ∧
      r.bytes ++ rest = front ++ (x.bytes ++ (eol ++ behind)) ∧ front.length = w := by
  obtain ⟨hs₁, x, hs₂, hhs, hx, hno, hw⟩ := lengthOffset_some h
  refine ⟨r.line ++ (eol ++ headerBytes hs₁), x, headerBytes hs₂ ++ (eol ++ (r.body ++ rest)),
    hr.headers x (by rw [hhs]; simp), hx, ?_, ?_, ?_⟩
  · intro hcl
    have hfind : r.headers.find? Header.isContentLength = some x := by
      rw [List.find?_eq_some_iff_append]
      refine ⟨hcl, hs₁, hs₂, hhs, ?_⟩
      intro y hy
      rw [Bool.not_eq_true', Bool.eq_false_iff]
      intro hyc
      have hyno := hno y hy
      rw [isContentLength_starts hyc] at hyno
      cases hyno
    have hlen := hr.length
    simp only [Request.contentLength, hfind] at hlen
    exact ⟨_, hlen⟩
  · rw [request_bytes, hhs]
    simp only [headerBytes, List.flatMap_append, List.flatMap_cons, List.append_assoc]
  · rw [hw]
    simp only [List.length_append, eol, List.length_cons, List.length_nil]
    omega

theorem behind_part (hr : r.Regular) {w : ℕ} (h : r.wordOffset = some w) {p rest : Bytes}
    (hp : p <+: r.bytes ++ rest) (hle : w + hdrContentLength.length ≤ p.length) :
    ∀ c ∈ ((p.drop (w + hdrContentLength.length)).dropWhile isColonOrSpace).head?,
      isEol c = false ∧ c ≠ 0 := by
  obtain ⟨front, x, behind, hx, hstart, hcl, hbytes, hfront⟩ := word_header hr h rest
  obtain ⟨v, hv, hne, hdrop, hclean⟩ := behind_word hx hstart hcl
  have hvne : v ≠ [] := by
    intro hnil
    rw [hnil] at hne
    exact hne rfl
  have hlen := word_length hstart
  have hq : p.drop (w + hdrContentLength.length) <+:
      x.bytes.drop hdrContentLength.length ++ (eol ++ behind) := by
    obtain ⟨t, ht⟩ := hp
    refine ⟨t, ?_⟩
    rw [← List.drop_append_of_le_length hle, ht, hbytes, ← hfront, ← List.drop_drop, List.drop_left,
      List.drop_append_of_le_length hlen]
  generalize p.drop (w + hdrContentLength.length) = q at hq ⊢
  intro c hc
  rcases prefix_split hq with hq | ⟨y, -, rfl, -⟩
  · have hm := List.mem_of_mem_head? hc
    exact header_clean hx c
      (List.mem_of_mem_drop (hq.subset ((List.dropWhile_sublist _).subset hm)))
  · rw [List.dropWhile_append, hdrop, if_neg (by rw [List.isEmpty_iff]; exact hvne)] at hc
    obtain ⟨d, v, rfl⟩ := List.exists_cons_of_ne_nil hvne
    cases hc
    exact hclean c (List.mem_cons_self ..)

theorem number_complete (hr : r.Regular) (rest : Bytes) :
    r.number (r.bytes ++ rest) = r.number r.bytes := by
  unfold Request.number
  cases h : r.wordOffset with
  | none => rfl
  | some w =>
    obtain ⟨front, x, behind, hx, hstart, hcl, hbytes, hfront⟩ := word_header hr h []
    obtain ⟨v, hv, hne, hdrop, -⟩ := behind_word hx hstart hcl
    have hlen := word_length hstart
    rw [List.append_nil] at hbytes
    have hnum : ∀ t, scanInt (((r.bytes ++ t).drop (w + hdrContentLength.length)).dropWhile
        isColonOrSpace) = scanInt v := by
      intro t
      have hvne : v ≠ [] := by
        intro hnil
        rw [hnil] at hne
        exact hne rfl
      rw [hbytes, ← hfront, List.append_assoc, ← List.drop_drop, List.drop_left, List.append_assoc,
        List.drop_append_of_le_length hlen, List.dropWhile_append, hdrop,
        if_neg (by rw [List.isEmpty_iff]; exact hvne)]
      refine scanInt_append hne ?_
      intro c hc
      cases hc
      decide
    have hfits : w + hdrContentLength.length ≤ r.bytes.length := by
      rw [hbytes, List.length_append, List.length_append]
      omega
    have h0 := hnum []
    rw [List.append_nil] at h0
    dsimp only
    rw [if_neg (by rw [List.length_append]; omega), if_neg (by omega), hnum rest, h0]

theorem drop_takeWhile {q : UInt8 → Bool} (s : Bytes) :
    s.drop (s.takeWhile q).length = s.dropWhile q := by
  conv_lhs =>
    enter [2]
    rw [← List.takeWhile_append_dropWhile (p := q) (l := s)]
  exact List.drop_left

theorem numberAt_part {p stale : Bytes} (hz : ∀ c ∈ stale, c = 0) {w : ℕ}
    (hhead : ∀ c ∈ ((p.drop (w + hdrContentLength.length)).dropWhile isColonOrSpace).head?,
      isEol c = false ∧ c ≠ 0)
    (hle : w + hdrContentLength.length ≤ p.length) :
    numberAt (p ++ stale) p.length w =
      scanInt ((p.drop (w + hdrContentLength.length)).dropWhile isColonOrSpace) := by
  have hdrop : (p ++ stale).drop (w + hdrContentLength.length +
      ((p.drop (w + hdrContentLength.length)).takeWhile isColonOrSpace).length) =
      (p.drop (w + hdrContentLength.length)).dropWhile isColonOrSpace ++ stale := by
    have hle' := (List.takeWhile_sublist (l := p.drop (w + hdrContentLength.length))
      isColonOrSpace).length_le
    rw [← List.drop_drop, List.drop_append_of_le_length hle, List.drop_append_of_le_length hle',
      drop_takeWhile]
  unfold numberAt
  dsimp only
  rw [List.take_left, hdrop, scanInt_zero hz]
  cases hu : (p.drop (w + hdrContentLength.length)).dropWhile isColonOrSpace with
  | nil => split <;> rfl
  | cons c u =>
    rw [hu] at hhead
    obtain ⟨hce, hc0⟩ := hhead c rfl
    rw [if_neg]
    unfold lineLen
    rw [List.cons_append, List.takeWhile_cons_of_pos (by simp [hce, hc0])]
    simp

end Number

/-! ### One message in the buffer -/

section Message

variable {r : Request} {ib : InBuffer}

theorem head_length (r : Request) :
    r.head.length = r.line.length + (headerBytes r.headers).length + 4 := by
  simp only [Request.head, List.length_append, eol, List.length_cons, List.length_nil]
  omega

theorem first_byte (hr : r.Regular) {rest : Bytes} (hp : ib.received <+: r.bytes ++ rest)
    (hpos : 0 < ib.size) : ib.bytes.head? = r.line.head? := by
  obtain ⟨c, l, hl⟩ := List.exists_cons_of_ne_nil hr.line_ne
  obtain ⟨d, t, hrec⟩ := List.exists_cons_of_ne_nil
    (List.length_pos_iff.mp (by rw [ib.length_received]; exact hpos))
  obtain ⟨u, hu⟩ := hp
  rw [hrec, request_bytes, hl] at hu
  have hdc : d = c := (List.cons.inj hu).1
  obtain ⟨stale, hb, -⟩ := bytes_split ib
  rw [hb, hrec, hl, hdc]
  rfl

theorem message_lines (hr : r.Regular) (hz : ∀ c ∈ ib.bytes.drop ib.size, c = 0) {rest : Bytes}
    (hp : ib.received <+: r.bytes ++ rest) (hpos : 0 < ib.size) :
    LinesAre ib.bytes ib.lines (wordSeen r.wordOffset ib.size)
      (if r.head.length ≤ ib.size + 1 then .here (r.headSeen ib.received) else .notFull) := by
  have hfits := ib.fits
  unfold bufferSize at hfits
  have hhead := head_length r
  have hlr := ib.length_received
  have hbytes : ib.bytes = ([] : Bytes) ++ (ib.received ++ ib.bytes.drop ib.size) := by
    rw [List.nil_append, InBuffer.received, List.take_append_drop]
  have hsize : ib.size = ([] : Bytes).length + ib.received.length := by
    rw [hlr, List.length_nil, Nat.zero_add]
  have hheaders := headers_le r.headers
  have hheadOf : r.head = r.line ++ (eol ++ (headerBytes r.headers ++ eol)) := rfl
  unfold Request.headSeen InBuffer.lines Request.wordOffset
  by_cases hall : r.head.length ≤ ib.size
  · -- the head is complete, and with it the word
    obtain ⟨next, hnext⟩ : ∃ next, ib.received = r.head ++ next := by
      have hpre : r.head <+: r.bytes ++ rest := by
        rw [Request.bytes, List.append_assoc]
        exact List.prefix_append _ _
      obtain ⟨next, h⟩ := List.prefix_of_prefix_length_le hpre hp (by rw [hlr]; exact hall)
      exact ⟨next, h.symm⟩
    obtain ⟨hfind, hend⟩ := @headLines_head [] ib.received (ib.bytes.drop ib.size) r.headers
      hr.headers r.line next hr.line_ne hr.line_clean (ib.size + 1) (by omega)
      (by rw [hnext, hheadOf]; simp only [List.append_assoc]) (by rw [List.length_nil]; omega)
    rw [← hbytes, ← hsize, List.length_nil, Nat.zero_add] at hfind hend
    constructor
    · rw [hfind]
      cases hw : lengthOffset (r.line.length + 2) r.headers with
      | none => rfl
      | some w =>
        have := lengthOffset_le hw
        rw [wordSeen_some, if_pos (by omega)]
    · rw [hend, if_pos (by omega), hnext, List.drop_left, List.length_append,
        min_eq_right (by omega), hhead]
  · have hpart : ib.received <+: r.head := by
      have hpre : r.head <+: r.bytes ++ rest := by
        rw [Request.bytes, List.append_assoc]
        exact List.prefix_append _ _
      exact List.prefix_of_prefix_length_le hp hpre (by omega)
    obtain ⟨hfind, hend⟩ := @headLines_part [] ib.received (ib.bytes.drop ib.size) hz r.headers
      hr.headers r.line r.head hr.line_ne hr.line_clean (ib.size + 1) (by omega) hheadOf hpart
      (by omega) (List.length_pos_iff.mp (by omega)) (by rw [List.length_nil]; omega)
    rw [← hbytes, ← hsize, List.length_nil] at hfind hend
    rw [Nat.zero_add] at hfind
    refine ⟨hfind, hend.trans ?_⟩
    rw [hlr, min_eq_left (by omega), List.drop_eq_nil_of_le (by omega), List.takeWhile_nil,
      List.length_nil, Nat.add_zero]
    by_cases hlast : ib.size + 1 = r.head.length
    · rw [if_pos hlast, if_pos (by omega)]
      rfl
    · rw [if_neg hlast, if_neg (by omega)]

theorem message_scan (hr : r.Regular) (h36 : r.line.head? ≠ some 36)
    (hz : ∀ c ∈ ib.bytes.drop ib.size, c = 0) {rest : Bytes} (hp : ib.received <+: r.bytes ++ rest)
    (hpos : 0 < ib.size) :
    match r.number ib.received with
    | none => RTSP_full_msg_rcvd ib = .error
    | some n =>
      Ends ib.bytes ib.size
        (if r.head.length ≤ ib.size + 1 then .here (r.headSeen ib.received) else .notFull) n
        (RTSP_full_msg_rcvd ib) := by
  have hfits := ib.fits
  have hfull := ib.full
  unfold bufferSize at hfits hfull
  have hlr := ib.length_received
  have hscan : ScanEnds ib.bytes ib.size ib.lines
      (scanLines ib.bytes ib.size (ib.size + 1) 0 false 0) :=
    scanLines_ends (by omega) (by omega) (Nat.zero_le _) (by omega)
  have hmsg : RTSP_full_msg_rcvd ib = scanLines ib.bytes ib.size (ib.size + 1) 0 false 0 := by
    unfold RTSP_full_msg_rcvd
    rw [if_neg (by rw [first_byte hr hp hpos]; exact h36)]
  obtain ⟨hfind, hend⟩ := message_lines hr hz hp hpos
  rw [← hmsg] at hscan
  unfold ScanEnds at hscan
  rw [hfind, hend] at hscan
  unfold Request.number
  cases hw : r.wordOffset with
  | none =>
    rw [hw] at hscan
    exact hscan
  | some w =>
    rw [hw, wordSeen_some] at hscan
    dsimp only
    rw [hlr]
    by_cases hle : w + hdrContentLength.length ≤ ib.size
    · rw [if_neg (by omega)]
      rw [if_pos hle] at hscan
      dsimp only at hscan
      have hbytes : ib.bytes = ib.received ++ ib.bytes.drop ib.size := by
        rw [InBuffer.received, List.take_append_drop]
      have hnum := numberAt_part hz (behind_part hr hw hp (by omega)) (by omega)
      rw [← hbytes, hlr] at hnum
      rw [if_neg (by omega), hnum] at hscan
      exact hscan
    · rw [if_pos (by omega)]
      rw [if_neg hle] at hscan
      exact hscan

theorem number_range {p : Bytes} {n : ℤ} (h : r.number p = some n) : -2 ^ 31 ≤ n ∧ n < 2 ^ 31 := by
  unfold Request.number at h
  split at h
  · cases h
    omega
  · split at h
    · cases h
      omega
    · exact scanInt_range h

theorem uint32_le_iff {x : ℤ} {k : ℕ} (hk : k < 2 ^ 30) (hx : -2 ^ 31 ≤ x ∧ x < 2 ^ 31 + 2 ^ 30) :
    uint32 x ≤ k ↔ 0 ≤ x ∧ x ≤ k := by
  unfold uint32
  omega

/-- A part of the message is waited for iff it has a number, and does not end
behind what is taken for the whole message. -/
theorem awaits_exactly (hr : r.Regular) (hz : ∀ c ∈ ib.bytes.drop ib.size, c = 0)
    (hp : ib.received <+: r.bytes) (hpos : 0 < ib.size) :
    RTSP_full_msg_rcvd ib = .notFull ↔ r.Awaited ib.received := by
  have hfits := ib.fits
  unfold bufferSize at hfits
  have hlr := ib.length_received
  have hp' : ib.received <+: r.bytes ++ [] := by rwa [List.append_nil]
  unfold Request.Awaited
  by_cases h36 : r.line.head? = some 36
  · rw [if_pos h36, hlr]
    have hget : ∀ k, ib.received.getD k 0 = ib.bytes.getD k 0 := by
      intro k
      rw [List.getD_eq_getElem?_getD, List.getD_eq_getElem?_getD, InBuffer.received]
      by_cases hk : k < ib.size
      · rw [List.getElem?_take_of_lt hk]
      · rw [List.getElem?_take_eq_none (by omega)]
        cases hb : ib.bytes[k]? with
        | none => rfl
        | some c =>
          refine (hz c ?_).symm
          rw [List.mem_iff_getElem?]
          exact ⟨k - ib.size, by rw [List.getElem?_drop, Nat.add_sub_cancel' (by omega), hb]⟩
    rw [hget, hget]
    unfold RTSP_full_msg_rcvd
    rw [if_pos (by rw [first_byte hr hp' hpos]; exact h36)]
    dsimp only
    split
    · exact ⟨fun h => (by cases h), fun h => (by omega)⟩
    · exact ⟨fun _ => (by omega), fun _ => rfl⟩
  · rw [if_neg h36, hlr]
    have hscan := message_scan hr h36 hz hp' hpos
    cases hn : r.number ib.received with
    | none =>
      rw [hn] at hscan
      rw [hscan]
      exact ⟨fun h => (by cases h), fun ⟨_, hm, _⟩ => (by cases hm)⟩
    | some n =>
      rw [hn] at hscan
      dsimp only at hscan
      have hrange := number_range hn
      have hseen : r.headSeen ib.received ≤ ib.size := by
        have := (List.takeWhile_sublist (l := ib.received.drop r.head.length) isEol).length_le
        rw [List.length_drop] at this
        unfold Request.headSeen
        omega
      by_cases hhead : r.head.length ≤ ib.size + 1
      · rw [if_pos hhead] at hscan
        unfold Ends at hscan
        dsimp only at hscan
        have hle := uint32_le_iff (x := (r.headSeen ib.received : ℤ) + n) (k := ib.size) (by omega)
          (by omega)
        by_cases hin : uint32 ((r.headSeen ib.received : ℤ) + n) ≤ ib.size
        · rw [if_pos hin] at hscan
          rw [hscan]
          constructor
          · intro h
            cases h
          · intro ⟨m, hm, hout⟩
            cases hm
            exact absurd (hle.mp hin) (hout hhead)
        · rw [if_neg hin] at hscan
          exact ⟨fun _ => ⟨n, rfl, fun _ h => hin (hle.mpr h)⟩, fun _ => hscan⟩
      · rw [if_neg hhead] at hscan
        exact ⟨fun _ => ⟨n, rfl, fun h => absurd h hhead⟩, fun _ => hscan⟩

theorem head_nonzero (hr : r.Regular) : ∀ c ∈ r.head, c ≠ 0 := by
  have heol : ∀ c ∈ eol, c ≠ 0 := by decide
  intro c hc
  unfold Request.head at hc
  rcases List.mem_append.mp hc with hc | hc
  · exact (hr.line_clean c hc).2
  rcases List.mem_append.mp hc with hc | hc
  · exact heol c hc
  rcases List.mem_append.mp hc with hc | hc
  · unfold headerBytes at hc
    obtain ⟨h, hm, hc⟩ := List.mem_flatMap.mp hc
    rcases List.mem_append.mp hc with hc | hc
    · exact (header_clean (hr.headers h hm) c hc).2
    · exact heol c hc
  · exact heol c hc

theorem zeros_behind {body rest : Bytes} (hrest : ∀ c ∈ rest.head?, c ≠ 0) (n : ℕ)
    (hn : n ≤ body.length) :
    n + (((body ++ rest).drop n).takeWhile (· == 0)).length = body.length ↔
      ∀ c ∈ body.drop n, c = 0 := by
  rw [List.drop_append_of_le_length hn, takeWhile_append_stop _ fun c hc => by simp [hrest c hc]]
  have hlen : (body.drop n).length = body.length - n := List.length_drop
  constructor
  · intro h
    have hall : (body.drop n).takeWhile (· == 0) = body.drop n :=
      (List.takeWhile_prefix _).eq_of_length (by omega)
    intro c hc
    rw [← hall] at hc
    have hzero : (c == 0) = true := List.mem_takeWhile_imp (p := (· == 0)) hc
    exact beq_iff_eq.mp hzero
  · intro h
    rw [List.takeWhile_eq_self_iff.mpr fun c hc => beq_iff_eq.mpr (h c hc)]
    omega

/-- A complete message is delimited exactly iff the number behind the word is right. -/
theorem delimits_exactly (hr : r.Regular) (hz : ∀ c ∈ ib.bytes.drop ib.size, c = 0) {rest : Bytes}
    (hp : ib.received = r.bytes ++ rest) (hrest : ∀ c ∈ rest.head?, isEol c = false ∧ c ≠ 0) :
    RTSP_full_msg_rcvd ib = .method r.head.length r.body.length ↔ r.Exact := by
  have hfits := ib.fits
  unfold bufferSize at hfits
  have hlr := ib.length_received
  have hlen := request_length r
  have hhead := head_length r
  have hsize : ib.size = r.head.length + (r.body ++ rest).length := by
    rw [← hlr, hp, Request.bytes, List.append_assoc, List.length_append]
  have hpos : 0 < ib.size := by omega
  have hpre : ib.received <+: r.bytes ++ rest := hp ▸ List.prefix_rfl
  have hreceived : ib.received = r.head ++ (r.body ++ rest) := by
    rw [hp, Request.bytes, List.append_assoc]
  unfold Request.Exact
  by_cases h36 : r.line.head? = some 36
  · -- it is taken for an interleaved packet
    constructor
    · intro h
      unfold RTSP_full_msg_rcvd at h
      rw [if_pos (by rw [first_byte hr hpre hpos]; exact h36)] at h
      dsimp only at h
      split at h <;> cases h
    · rintro ⟨h, _⟩
      exact absurd h36 h
  have hscan := message_scan hr h36 hz hpre hpos
  rw [if_pos (by omega), hp, number_complete hr rest, ← hp] at hscan
  cases hn : r.number r.bytes with
  | none =>
    rw [hn] at hscan
    rw [hscan]
    constructor
    · intro h
      cases h
    · rintro ⟨-, -, m, hm, -⟩
      cases hm
  | some n =>
    rw [hn] at hscan
    dsimp only at hscan
    have hrange := number_range hn
    -- the terminators at the start of the body are counted into the head
    have hseen : r.headSeen ib.received =
        r.head.length + ((r.body ++ rest).takeWhile isEol).length := by
      unfold Request.headSeen
      rw [hlr, hreceived, List.drop_left, min_eq_right (by omega)]
    have hnone : ((r.body ++ rest).takeWhile isEol).length = 0 ↔
        ∀ c ∈ r.body.head?, isEol c = false := by
      rw [List.length_eq_zero_iff, takeWhile_append_stop _ fun c hc => (hrest c hc).1]
      cases r.body with
      | nil => exact ⟨fun _ c hc => (by cases hc), fun _ => rfl⟩
      | cons c s =>
        constructor
        · intro h d hd
          cases hd
          by_contra hc
          rw [List.takeWhile_cons_of_pos (by simpa using hc)] at h
          cases h
        · intro h
          exact List.takeWhile_cons_of_neg (by simp [h c rfl])
    have hkle := (List.takeWhile_sublist (l := r.body ++ rest) isEol).length_le
    rw [hseen] at hscan
    generalize ((r.body ++ rest).takeWhile isEol).length = k at hscan hnone hkle
    unfold Ends at hscan
    dsimp only at hscan
    have hle := uint32_le_iff (x := ((r.head.length + k : ℕ) : ℤ) + n) (k := ib.size) (by omega)
      (by omega)
    have hbody : (r.body ++ rest).length = r.body.length + rest.length := List.length_append
    by_cases hin : uint32 (((r.head.length + k : ℕ) : ℤ) + n) ≤ ib.size
    · obtain ⟨ml, hml, hmle, hend⟩ := messageEnd_within (e := r.head.length + k) ib.bytes (by omega)
        (by omega) hrange hin
      rw [if_pos hin, hend] at hscan
      rw [hscan, Framing.method.injEq]
      change _ = _ ∧ n + (((ib.received.drop ml).takeWhile (· == 0)).length : ℤ) = _ ↔ _
      rw [hreceived]
      by_cases hneg : n < 0
      · -- the end is in the head, where there are no zeros
        constructor
        · rintro ⟨he, hsum⟩
          have hzero : (((r.head ++ (r.body ++ rest)).drop ml).takeWhile (· == 0)) = [] := by
            rw [List.drop_append_of_le_length (by omega)]
            cases hd : r.head.drop ml with
            | nil =>
              have := congrArg List.length hd
              rw [List.length_drop, List.length_nil] at this
              omega
            | cons c t =>
              have hc := head_nonzero hr c (List.mem_of_mem_drop (hd ▸ List.mem_cons_self ..))
              rw [List.cons_append, List.takeWhile_cons_of_neg (by simp [hc])]
          rw [hzero, List.length_nil] at hsum
          omega
        · rintro ⟨-, -, m, hm, h0, -⟩
          cases hm
          omega
      · obtain ⟨m, rfl⟩ := Int.eq_ofNat_of_zero_le (by omega : 0 ≤ n)
        by_cases hk : k = 0
        · subst hk
          have hmleq : ml = r.head.length + m := by omega
          rw [hmleq, ← List.drop_drop, List.drop_left]
          constructor
          · rintro ⟨_, hsum⟩
            have hm : m ≤ r.body.length := by omega
            refine ⟨h36, hnone.mp rfl, m, rfl, by omega, by omega, ?_⟩
            rw [Int.toNat_natCast]
            exact (zeros_behind (fun c hc => (hrest c hc).2) m hm).mp (by omega)
          · rintro ⟨_, _, m', hm', _, hmle', hzero⟩
            cases hm'
            rw [Int.toNat_natCast] at hzero
            have hm : m ≤ r.body.length := by omega
            have := (zeros_behind (fun c hc => (hrest c hc).2) m hm).mpr hzero
            exact ⟨by omega, by omega⟩
        · constructor
          · rintro ⟨he, _⟩
            omega
          · rintro ⟨_, hstart, _⟩
            exact absurd (hnone.mpr hstart) hk
    · rw [if_neg hin] at hscan
      rw [hscan]
      refine ⟨fun h => (by cases h), ?_⟩
      rintro ⟨_, hstart, m, hm, h0, hmle, _⟩
      cases hm
      have hk := hnone.mpr hstart
      exact absurd (hle.mpr (by omega)) hin

/-- A message, complete and in parts, with its conditions. -/
theorem delimited (hr : r.Regular) (hz : ∀ c ∈ ib.bytes.drop ib.size, c = 0) :
    (∀ rest, ib.received = r.bytes ++ rest →
        (∀ c ∈ rest.head?, isEol c = false ∧ isBlank c = false ∧ c ≠ 0) →
        (RTSP_full_msg_rcvd ib = .method r.head.length r.body.length ↔ r.Exact)) ∧
      (ib.received <+: r.bytes → ib.received ≠ [] → ib.received ≠ r.bytes →
        (RTSP_full_msg_rcvd ib = .notFull ↔ r.Awaited ib.received)) := by
  constructor
  · intro rest hp hrest
    exact delimits_exactly hr hz hp fun c hc => ⟨(hrest c hc).1, (hrest c hc).2.2⟩
  · intro hp hne _
    apply awaits_exactly hr hz hp
    rw [← ib.length_received]
    exact List.length_pos_iff.mpr hne

end Message

/-- A message with a body, as it is received in two parts. -/
def announce : Request :=
  { line := lit "ANNOUNCE rtsp://localhost/film.sd RTSP/1.0"
    headers := [⟨lit "CSeq", lit " 1"⟩, ⟨lit "Content-Length", lit " 4"⟩]
    body := lit "v=0\n" }

def announceCut : InBuffer :=
  InBuffer.empty.append
    (lit "ANNOUNCE rtsp://localhost/film.sd RTSP/1.0\r\nCSeq: 1\r\nContent-Length:") (by decide)

theorem announce_regular : announce.Regular := by decide +kernel

theorem append_zeros {chunk : Bytes} (h : InBuffer.empty.size + chunk.length ≤ bufferSize) :
    ∀ c ∈ (InBuffer.empty.append chunk h).bytes.drop (InBuffer.empty.append chunk h).size,
      c = 0 := by
  intro c hc
  have hreceived : InBuffer.empty.received = [] := rfl
  have hsize : InBuffer.empty.size + chunk.length = chunk.length := Nat.zero_add _
  simp only [InBuffer.append, hreceived, hsize, List.nil_append, List.drop_left] at hc
  exact List.eq_of_mem_replicate (List.mem_of_mem_drop hc)

theorem announceCut_zeros : ∀ c ∈ announceCut.bytes.drop announceCut.size, c = 0 :=
  append_zeros _

theorem delimited_announce :
    (announce.Regular ∧ ∀ c ∈ announceCut.bytes.drop announceCut.size, c = 0) ∧
      (∀ rest, announceCut.received = announce.bytes ++ rest →
          (∀ c ∈ rest.head?, isEol c = false ∧ isBlank c = false ∧ c ≠ 0) →
          (RTSP_full_msg_rcvd announceCut = .method announce.head.length announce.body.length ↔
            announce.Exact)) ∧
        (announceCut.received <+: announce.bytes → announceCut.received ≠ [] →
          announceCut.received ≠ announce.bytes →
          (RTSP_full_msg_rcvd announceCut = .notFull ↔ announce.Awaited announceCut.received)) :=
  ⟨⟨announce_regular, announceCut_zeros⟩, delimited announce_regular announceCut_zeros⟩

/-- The part is not waited for: the scan of the number fails. -/
theorem announce_cut_rejected :
    announce.Regular ∧ (∀ c ∈ announceCut.bytes.drop announceCut.size, c = 0) ∧
      announceCut.received <+: announce.bytes ∧ announceCut.received ≠ [] ∧
        announceCut.received ≠ announce.bytes ∧ RTSP_full_msg_rcvd announceCut = .error := by
  refine ⟨announce_regular, announceCut_zeros, ?_⟩
  decide +kernel

end Fenice.Rtsp
