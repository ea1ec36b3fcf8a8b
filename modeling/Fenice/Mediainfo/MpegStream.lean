import Fenice.Mediainfo.MpegHeads
import Mathlib.Tactic.IntervalCases

/-!
# Positions in an MPEG video stream

The readers know the file only as what is left of it. Here are the places in the whole file: where
a start code stands, how much of a header is read without a look for one, and where a reader that
finds its header complete comes to a stop.
-/

namespace Fenice.Mediainfo.Mpeg

/-! ### Start codes in the file -/

/-- The three bytes that every start code begins with stand at position `i`. -/
structure MarkAt (bytes : List UInt8) (i : ℕ) : Prop where
  zero : bytes[i]? = some 0
  again : bytes[i + 1]? = some 0
  one : bytes[i + 2]? = some 1

/-- The start code of `code`. -/
structure CodeAt (bytes : List UInt8) (i : ℕ) (code : UInt8) : Prop extends MarkAt bytes i where
  code : bytes[i + 3]? = some code

instance (bytes : List UInt8) (i : ℕ) : Decidable (MarkAt bytes i) :=
  decidable_of_iff (bytes[i]? = some 0 ∧ bytes[i + 1]? = some 0 ∧ bytes[i + 2]? = some 1)
    ⟨fun ⟨h1, h2, h3⟩ => ⟨h1, h2, h3⟩, fun ⟨h1, h2, h3⟩ => ⟨h1, h2, h3⟩⟩

instance (bytes : List UInt8) (i : ℕ) (code : UInt8) : Decidable (CodeAt bytes i code) :=
  decidable_of_iff (MarkAt bytes i ∧ bytes[i + 3]? = some code)
    ⟨fun ⟨h1, h2⟩ => ⟨h1, h2⟩, fun ⟨h1, h2⟩ => ⟨h1, h2⟩⟩

section Overlap

variable {bytes : List UInt8} {i j : ℕ} {code : UInt8}

theorem CodeAt.length (h : CodeAt bytes i code) : i + 4 ≤ bytes.length := by
  have := (List.getElem?_eq_some_iff.mp h.code).1
  omega

theorem MarkAt.apart (h : MarkAt bytes i) (hj : MarkAt bytes j) (hlt : i < j) : i + 3 ≤ j := by
  by_contra hle
  obtain rfl | rfl : j = i + 1 ∨ j = i + 2 := by omega
  · have hone := h.one
    rw [show i + 2 = i + 1 + 1 from rfl, hj.again] at hone
    cases hone
  · have hone := h.one
    rw [hj.zero] at hone
    cases hone

theorem CodeAt.apart (h : CodeAt bytes i code) (hcode : code ≠ 0) (hj : MarkAt bytes j)
    (hlt : i < j) : i + 4 ≤ j := by
  have hle := h.toMarkAt.apart hj hlt
  by_contra hlt'
  obtain rfl : j = i + 3 := by omega
  have hlast := h.code
  rw [hj.zero] at hlast
  exact hcode (Option.some.inj hlast).symm

theorem drop_cons {x : UInt8} {l : List UInt8} (h : bytes.drop i = x :: l) :
    bytes[i]? = some x ∧ bytes.drop (i + 1) = l := by
  constructor
  · have hhead := congrArg (fun l => l[0]?) h
    simpa using hhead
  · rw [← List.drop_drop, h]
    rfl

theorem markAt_iff {x y z : UInt8} {l : List UInt8} (h : bytes.drop i = x :: y :: z :: l) :
    MarkAt bytes i ↔ x = 0 ∧ y = 0 ∧ z = 1 := by
  obtain ⟨hx, h⟩ := drop_cons h
  obtain ⟨hy, h⟩ := drop_cons h
  obtain ⟨hz, -⟩ := drop_cons h
  constructor
  · rintro ⟨h1, h2, h3⟩
    rw [hx] at h1
    rw [hy] at h2
    rw [hz] at h3
    exact ⟨Option.some.inj h1, Option.some.inj h2, Option.some.inj h3⟩
  · rintro ⟨rfl, rfl, rfl⟩
    exact ⟨hx, hy, hz⟩

theorem MarkAt.drop (h : MarkAt bytes i) : ∃ l, bytes.drop i = 0 :: 0 :: 1 :: l := by
  have hlen := (List.getElem?_eq_some_iff.mp h.one).1
  obtain ⟨x, y, z, l, hl⟩ : ∃ x y z l, bytes.drop i = x :: y :: z :: l := by
    match hd : bytes.drop i with
    | x :: y :: z :: l => exact ⟨x, y, z, l, rfl⟩
    | [] | [x] | [x, y] =>
      have := congrArg List.length hd
      simp only [List.length_drop, List.length_cons, List.length_nil] at this
      omega
  obtain ⟨rfl, rfl, rfl⟩ := (markAt_iff hl).mp h
  exact ⟨l, hl⟩

end Overlap

/-- No start code begins from `a` on and before `b`. -/
def NoMark (bytes : List UInt8) (a b : ℕ) : Prop := ∀ j, a ≤ j → j < b → ¬ MarkAt bytes j

/-! ### Looking for a start code -/

section Scan

variable {bytes : List UInt8} {n : ℕ}

theorem scan_at {x y z : UInt8} {rest copied left : List UInt8}
    (hn : bytes.drop n = x :: y :: z :: rest) (h : scan x y z rest = (copied, some left)) :
    ∃ k, n ≤ k ∧ MarkAt bytes k ∧ bytes.drop (k + 3) = left ∧ NoMark bytes n k := by
  induction rest generalizing n x y z copied with
  | nil =>
    rw [scan] at h
    split_ifs at h with hmark
    · cases h
      refine ⟨n, le_rfl, (markAt_iff hn).mpr hmark, ?_, fun j hj hlt => by omega⟩
      rw [← List.drop_drop, hn]
      rfl
    · cases h
  | cons d rest ih =>
    rw [scan] at h
    split_ifs at h with hmark
    · cases h
      refine ⟨n, le_rfl, (markAt_iff hn).mpr hmark, ?_, fun j hj hlt => by omega⟩
      rw [← List.drop_drop, hn]
      rfl
    · dsimp only at h
      rcases hs : scan y z d rest with ⟨copied', left'⟩
      rw [hs] at h
      cases h
      obtain ⟨k, hk, hmark', hleft, hno⟩ := ih (drop_cons hn).2 hs
      refine ⟨k, by omega, hmark', hleft, fun j hj hlt => ?_⟩
      rcases Nat.eq_or_lt_of_le hj with rfl | hlt'
      · exact fun hc => hmark ((markAt_iff hn).mp hc)
      · exact hno j hlt' hlt

theorem scan_finds {x y z : UInt8} {rest : List UInt8} {k : ℕ}
    (hn : bytes.drop n = x :: y :: z :: rest) (hk : n ≤ k) (hmark : MarkAt bytes k) :
    ∃ copied left, scan x y z rest = (copied, some left) := by
  induction rest generalizing n x y z with
  | nil =>
    rw [scan]
    split_ifs with hstart
    · exact ⟨_, _, rfl⟩
    · have hlen := congrArg List.length hn
      have hlt := (List.getElem?_eq_some_iff.mp hmark.one).1
      simp only [List.length_drop, List.length_cons, List.length_nil] at hlen
      obtain rfl : k = n := by omega
      exact absurd ((markAt_iff hn).mp hmark) hstart
  | cons d rest ih =>
    rw [scan]
    split_ifs with hstart
    · exact ⟨_, _, rfl⟩
    · have hne : n ≠ k := by
        rintro rfl
        exact hstart ((markAt_iff hn).mp hmark)
      obtain ⟨copied, left, hs⟩ := ih (drop_cons hn).2 (by omega)
      rw [hs]
      exact ⟨_, _, rfl⟩

variable {c : Copy}

theorem next_start_code_at (hc : c.rest = bytes.drop n) (h : ¬ (next_start_code c).1 < 0) :
    ∃ k, n ≤ k ∧ MarkAt bytes k ∧ (next_start_code c).2.rest = bytes.drop (k + 3) ∧
      NoMark bytes n k := by
  obtain ⟨buf, rest⟩ := c
  have hneg : (-1 : ℤ) < 0 := by decide
  match rest, hc, h with
  | x :: y :: z :: rest, hc, h =>
    rw [next_start_code] at h ⊢
    dsimp only at h ⊢
    rcases hs : scan x y z rest with ⟨copied, _ | left⟩
    · rw [hs] at h
      exact absurd hneg h
    · obtain ⟨k, hk, hmark, hleft, hno⟩ := scan_at hc.symm hs
      exact ⟨k, hk, hmark, hleft.symm, hno⟩
  | [], _, h | [_], _, h | [_, _], _, h => exact absurd hneg h

theorem next_start_code_finds {k : ℕ} (hc : c.rest = bytes.drop n) (hk : n ≤ k)
    (hmark : MarkAt bytes k) : ¬ (next_start_code c).1 < 0 := by
  obtain ⟨buf, rest⟩ := c
  have hlt := (List.getElem?_eq_some_iff.mp hmark.one).1
  have hlen := congrArg List.length hc
  rw [next_start_code]
  match rest, hc, hlen with
  | x :: y :: z :: rest, hc, _ =>
    obtain ⟨copied, left, hs⟩ := scan_finds hc.symm hk hmark
    dsimp only
    rw [hs]
    have := (scan_found hs).2
    dsimp only
    omega
  | [], _, hlen | [_], _, hlen | [_, _], _, hlen =>
    simp only [List.length_drop, List.length_cons, List.length_nil] at hlen
    omega

/-! ### Looking for the end of a slice -/

theorem scanSlice_at {numBytes size : ℕ} {x aux : Aux} {rest copied left : List UInt8}
    (hn : bytes.drop n = x.a :: x.b :: x.c :: rest)
    (h : scanSlice numBytes size x rest = (copied, some (aux, left))) :
    ∃ k, n ≤ k ∧ bytes.drop k = aux.a :: aux.b :: aux.c :: left ∧ NoMark bytes n k ∧
      (aux.isStart ∨ numBytes ≤ size + copied.length) := by
  have hmark : ∀ {m : ℕ} {y : Aux} {l : List UInt8}, bytes.drop m = y.a :: y.b :: y.c :: l →
      (MarkAt bytes m ↔ y.isStart) := fun hm => markAt_iff hm
  induction rest generalizing n size x copied with
  | nil =>
    rw [scanSlice] at h
    split_ifs at h with hgo
    · cases h
    · cases h
      refine ⟨n, le_rfl, hn, fun j hj hlt => by omega, ?_⟩
      rw [List.length_nil]
      by_contra hno
      exact hgo ⟨fun hs => hno (.inl hs), by omega⟩
  | cons d rest ih =>
    rw [scanSlice] at h
    split_ifs at h with hgo
    · dsimp only at h
      rcases hs : scanSlice numBytes (size + 1) ⟨x.b, x.c, d⟩ rest with ⟨copied', r⟩
      rw [hs] at h
      cases h
      obtain ⟨k, hk, hleft, hno, hstop⟩ := ih (drop_cons hn).2 hs
      refine ⟨k, by omega, hleft, fun j hj hlt => ?_, ?_⟩
      · rcases Nat.eq_or_lt_of_le hj with rfl | hlt'
        · exact fun hc => hgo.1 ((hmark hn).mp hc)
        · exact hno j hlt' hlt
      · refine hstop.imp_right fun hle => ?_
        dsimp only
        rw [List.length_cons]
        omega
    · cases h
      refine ⟨n, le_rfl, hn, fun j hj hlt => by omega, ?_⟩
      rw [List.length_nil]
      by_contra hno
      exact hgo ⟨fun hs => hno (.inl hs), by omega⟩

/-- The four bytes that end a slice stand at `k`: they are the next start code, or there was no
more room. -/
theorem slice_at {numBytes : ℕ} {c' : Copy} {x : Aux} {code : UInt8}
    (hc : c.rest = bytes.drop n) (h : c.slice numBytes = (c', some (x, code))) :
    ∃ k, n ≤ k ∧ c'.rest = bytes.drop (k + 4) ∧ bytes[k + 3]? = some code ∧ NoMark bytes n k ∧
      (MarkAt bytes k ↔ x.isStart) ∧ (x.isStart ∨ numBytes ≤ c'.buf.length) ∧
      c.buf.length + 4 ≤ c'.buf.length := by
  obtain ⟨buf, rest⟩ := c
  match rest, hc, h with
  | y :: z :: u :: rest, hc, h =>
    rw [Copy.slice] at h
    dsimp only at h
    rcases hs : scanSlice numBytes buf.length ⟨y, z, u⟩ rest with ⟨copied, _ | ⟨aux, _ | ⟨d, left⟩⟩⟩
    · rw [hs] at h
      cases h
    · rw [hs] at h
      cases h
    · rw [hs] at h
      cases h
      obtain ⟨k, hk, hleft, hno, hstop⟩ := scanSlice_at hc.symm hs
      have hbehind : bytes.drop (k + 3) = code :: left :=
        (drop_cons (drop_cons (drop_cons hleft).2).2).2
      refine ⟨k, hk, (drop_cons hbehind).2.symm, (drop_cons hbehind).1, hno, markAt_iff hleft, ?_, ?_⟩
      · refine hstop.imp_right fun hle => ?_
        simp only [List.length_append]
        omega
      · simp only [List.length_append, Aux.bytes, List.length_cons, List.length_nil]
        omega
  | [], _, h | [_], _, h | [_, _], _, h => cases h

end Scan

/-! ### Where a reader stops -/

/-- A reader has come to the start code at `k`, whose last byte is the last one it copied. -/
structure StopsAt (bytes : List UInt8) (k : ℕ) (c : Copy) : Prop where
  rest : c.rest = bytes.drop (k + 4)
  code : CodeAt bytes k (c.back 1)

section Readers

variable {bytes : List UInt8} {n : ℕ} {c c' : Copy}

/-- `c` with `n` more bytes of the file. -/
def Copy.ahead (c : Copy) (n : ℕ) : Copy := ⟨c.buf ++ c.rest.take n, c.rest.drop n⟩

theorem read_ahead (mem : Memory) (hn : n ≤ c.rest.length) : c.read mem n = c.ahead n := by
  rcases Nat.eq_zero_or_pos n with rfl | hpos
  · simp [Copy.read, Copy.ahead]
  · exact (read_tracks mem hpos).complete c _ (if_pos hn)

theorem ahead_ahead (c : Copy) (m n : ℕ) : (c.ahead m).ahead n = c.ahead (m + n) := by
  simp only [Copy.ahead, List.append_assoc, List.drop_drop, List.take_add]

@[simp] theorem ahead_zero (c : Copy) : c.ahead 0 = c := by
  simp [Copy.ahead]

theorem read_behind (mem : Memory) {m : ℕ} (h : m + n ≤ c.rest.length) :
    (c.ahead m).read mem n = c.ahead (m + n) := by
  rw [← ahead_ahead, read_ahead]
  simp only [Copy.ahead, List.length_drop]
  omega

theorem ahead_rest (hc : c.rest = bytes.drop n) (m : ℕ) : (c.ahead m).rest = bytes.drop (n + m) := by
  rw [Copy.ahead, hc, List.drop_drop]

theorem ahead_back {k : ℕ} (hk : 0 < k) (hkn : k ≤ n) (hn : n ≤ c.rest.length) :
    (c.ahead n).back k = c.rest.getD (n - k) 0 := by
  have hlen : (c.buf ++ c.rest.take n).length - k = c.buf.length + (n - k) := by
    rw [List.length_append, List.length_take, Nat.min_eq_left hn]
    omega
  rw [Copy.back, Copy.ahead, hlen, List.getD_append_right _ _ _ _ (by omega)]
  simp only [Nat.add_sub_cancel_left, List.getD_eq_getElem?_getD, List.getElem?_take]
  rw [if_pos (by omega)]

theorem mark_at (hc : c.rest = bytes.drop n) (h : c.mark = some c') :
    ∃ k, n ≤ k ∧ StopsAt bytes k c' ∧ NoMark bytes n k := by
  rw [Copy.mark] at h
  split_ifs at h with hneg
  obtain ⟨k, hk, hmark, hrest, hno⟩ := next_start_code_at hc hneg
  refine ⟨k, hk, ?_, hno⟩
  obtain ⟨hone, h⟩ := Option.ite_none_right_eq_some.mp h
  obtain rfl : (next_start_code c).2.ahead 1 = c' := Option.some.inj h
  refine ⟨ahead_rest hrest 1, hmark, ?_⟩
  rw [ahead_back Nat.one_pos le_rfl hone, hrest]
  rw [hrest, List.length_drop] at hone
  simp only [List.getD_eq_getElem?_getD, List.getElem?_drop, Nat.sub_self, Nat.add_zero]
  rw [List.getElem?_eq_getElem (by omega)]
  rfl

theorem mark_finds {k : ℕ} {code : UInt8} (hc : c.rest = bytes.drop n) (hk : n ≤ k)
    (hcode : CodeAt bytes k code) : ∃ c', c.mark = some c' := by
  have hneg := next_start_code_finds hc hk hcode.toMarkAt
  obtain ⟨k', hk', hmark, hrest, hno⟩ := next_start_code_at hc hneg
  have hle : k' ≤ k := by
    by_contra hlt
    exact hno k hk (Nat.lt_of_not_le hlt) hcode.toMarkAt
  have hlen := hcode.length
  refine ⟨(next_start_code c).2.ahead 1, ?_⟩
  rw [Copy.mark, if_neg hneg]
  refine if_pos ?_
  rw [hrest, List.length_drop]
  omega

end Readers

/-! ### Complete headers -/

/-- The number of bytes of a header that are read without a look for a start code, from what
stands behind its code. -/
def fixedLength (code : UInt8) (l : List UInt8) : ℕ :=
  if code = 0xb3 then
    let n := if (l.getD 7 0 &&& 2) ≠ 0 then 72 else 8
    if (l.getD (n - 1) 0 &&& 1) ≠ 0 then n + 64 else n
  else if code = 0xb8 then 4
  else if code = 0x00 then
    if (bits (l.getD 1 0) 3 0x07).toNat = 2 ∨ (bits (l.getD 1 0) 3 0x07).toNat = 3 then 5 else 2
  else 0

/-- Behind the start code at `i` there are `n` bytes in which no picture begins, and then another
start code. -/
structure Whole (bytes : List UInt8) (i n : ℕ) : Prop where
  quiet : ∀ j, i < j → j < i + 4 + n → ¬ CodeAt bytes j 0x00
  next : ∃ k code, i + 4 + n ≤ k ∧ CodeAt bytes k code

/-- A code that a header reader or a loop over user data looks behind. -/
def Headed (code : UInt8) : Prop :=
  code = 0xb3 ∨ code = 0xb8 ∨ code = 0x00 ∨ code = 0xb2 ∨ code = 0xb5

/-- The code of the first start code from `n` on. -/
def FirstCode (bytes : List UInt8) (n k : ℕ) (code : UInt8) : Prop :=
  n ≤ k ∧ CodeAt bytes k code ∧ NoMark bytes n k

/-- The first start code is that of an extension, or of a sequence header with an extension behind
it. -/
def IsMpeg2 (bytes : List UInt8) : Prop :=
  ∃ k code, FirstCode bytes 0 k code ∧ (code = 0xb5 ∨ code = 0xb3 ∧
    ∃ m, FirstCode bytes (k + 4 + fixedLength 0xb3 (bytes.drop (k + 4))) m 0xb5)

/-- An MPEG video stream, as far as the readers depend on it: it has a start code, its headers are
complete and do not look like a picture, and in MPEG-2 five bytes follow the start code behind a
picture header. -/
structure Stream (bytes : List UInt8) : Prop where
  starts : ∃ k code, CodeAt bytes k code
  headers : ∀ i code, CodeAt bytes i code → Headed code →
    Whole bytes i (fixedLength code (bytes.drop (i + 4)))
  extensions : IsMpeg2 bytes → ∀ i k code, CodeAt bytes i 0x00 →
    FirstCode bytes (i + 4 + fixedLength 0x00 (bytes.drop (i + 4))) k code →
    code ≠ 0x00 ∧ Whole bytes k 5

/-! ### The readers on complete headers -/

/-- No picture begins between the start codes at `i` and `k`. -/
def NoPicture (bytes : List UInt8) (i k : ℕ) : Prop := ∀ j, i < j → j < k → ¬ CodeAt bytes j 0x00

/-- Behind the start code at `i` a reader has come to another one, with no picture in between. -/
def Reaches (bytes : List UInt8) (i : ℕ) (c : Copy) : Prop :=
  ∃ k, i + 4 ≤ k ∧ StopsAt bytes k c ∧ NoPicture bytes i k

section Headers

variable {bytes : List UInt8} {i n : ℕ} {c c' : Copy} (mem : Memory)

theorem NoPicture.trans {k m : ℕ} {code : UInt8} (h : NoPicture bytes i k)
    (h' : NoPicture bytes k m) (hcode : CodeAt bytes k code) (hne : code ≠ 0) :
    NoPicture bytes i m := by
  intro j hj hlt hpic
  rcases Nat.lt_trichotomy j k with hjk | rfl | hkj
  · exact h j hj hjk hpic
  · exact hne (Option.some.inj (hcode.code.symm.trans hpic.code))
  · exact h' j hkj hlt hpic

theorem Reaches.trans {k : ℕ} (hk : StopsAt bytes k c) (hi : i + 4 ≤ k) (hno : NoPicture bytes i k)
    (hne : c.back 1 ≠ 0) (h : Reaches bytes k c') : Reaches bytes i c' := by
  obtain ⟨m, hkm, hm, hno'⟩ := h
  exact ⟨m, by omega, hm, hno.trans hno' hk.code hne⟩

theorem Whole.length (h : Whole bytes i n) (hc : c.rest = bytes.drop (i + 4)) :
    n ≤ c.rest.length := by
  obtain ⟨k, code, hk, hcode⟩ := h.next
  have := hcode.length
  rw [hc, List.length_drop]
  omega

theorem next_code_first (h : Whole bytes i n) (hc : c.rest = bytes.drop (i + 4)) :
    ∃ k, StopsAt bytes k (next_code mem (c.ahead n)) ∧
      FirstCode bytes (i + 4 + n) k ((next_code mem (c.ahead n)).back 1) := by
  have hrest := ahead_rest hc n
  obtain ⟨k, code, hk, hcode⟩ := h.next
  obtain ⟨c', hmark⟩ := mark_finds hrest hk hcode
  obtain ⟨m, hm, hstop, hno⟩ := mark_at hrest hmark
  rw [(next_code_tracks mem).complete _ _ hmark]
  exact ⟨m, hstop, hm, hstop.code, hno⟩

/-- In front of the first start code behind a complete header no picture begins. -/
theorem Whole.noPicture {k : ℕ} {code : UInt8} (h : Whole bytes i n)
    (hk : FirstCode bytes (i + 4 + n) k code) : NoPicture bytes i k := by
  intro j hj hlt hpic
  rcases Nat.lt_or_ge j (i + 4 + n) with hjn | hjn
  · exact h.quiet j hj hjn hpic
  · exact hk.2.2 j hjn hlt hpic.toMarkAt

theorem next_code_reaches (h : Whole bytes i n) (hc : c.rest = bytes.drop (i + 4)) :
    Reaches bytes i (next_code mem (c.ahead n)) := by
  obtain ⟨k, hstop, hfirst⟩ := next_code_first mem h hc
  have hk := hfirst.1
  exact ⟨k, by omega, hstop, h.noPicture hfirst⟩

/-- A picture coding extension is read from the start code behind a picture header on. -/
theorem read_picture_coding_ext_reaches (h : Whole bytes i 5) (hc : c.rest = bytes.drop (i + 4)) :
    Reaches bytes i (read_picture_coding_ext mem c) := by
  have hlen := h.length hc
  have hthree : c.read mem 3 = c.ahead 3 := read_ahead mem (by omega)
  rw [read_picture_coding_ext, hthree, read_behind mem (by omega), read_behind mem hlen]
  exact next_code_reaches mem h hc

theorem seq_fixed (h : fixedLength 0xb3 c.rest ≤ c.rest.length) :
    read_matrices mem ((c.read mem 4).read mem 4) = c.ahead (fixedLength 0xb3 c.rest) := by
  rw [fixedLength, if_pos rfl] at h ⊢
  have height : 8 ≤ c.rest.length := by
    dsimp only at h
    split_ifs at h <;> omega
  have hfour : c.read mem 4 = c.ahead 4 := read_ahead mem (by omega)
  rw [hfour, read_behind mem height, read_matrices, ahead_back Nat.one_pos (by decide) height]
  dsimp only at h ⊢
  have hfirst : (if c.rest.getD (4 + 4 - 1) 0 &&& 2 ≠ 0 then (c.ahead (4 + 4)).read mem 64
      else c.ahead (4 + 4)) = c.ahead (if c.rest.getD 7 0 &&& 2 ≠ 0 then 72 else 8) := by
    split_ifs with hintra
    · rw [if_pos hintra] at h
      exact read_behind mem (by split_ifs at h <;> omega)
    · rfl
  have hle : (if c.rest.getD 7 0 &&& 2 ≠ 0 then 72 else 8) ≤ c.rest.length := by
    split_ifs at h ⊢ <;> omega
  rw [hfirst, ahead_back Nat.one_pos (by split_ifs <;> decide) hle]
  generalize (if c.rest.getD 7 0 &&& 2 ≠ 0 then 72 else 8) = n at h ⊢
  split_ifs at h ⊢ with hinter
  · exact read_behind mem h
  · rfl

variable (hs : Stream bytes)
include hs

theorem next_code_skips {k : ℕ} (hk : StopsAt bytes k c)
    (hcode : c.back 1 = 0xb5 ∨ c.back 1 = 0xb2) : Reaches bytes k (next_code mem c) := by
  have hwhole := hs.headers k _ hk.code (by rcases hcode with h | h <;> simp [Headed, h])
  have hzero : fixedLength (c.back 1) (bytes.drop (k + 4)) = 0 := by
    rcases hcode with h | h <;> rw [h] <;> rfl
  rw [hzero] at hwhole
  have := next_code_reaches mem hwhole hk.rest
  rwa [ahead_zero] at this

theorem skip_reaches {code : UInt8} (hcode : code = 0xb5 ∨ code = 0xb2)
    (h : Reaches bytes i c) :
    Reaches bytes i (if c.back 1 = code then next_code mem c else c) := by
  split_ifs with hback
  · obtain ⟨k, hk, hstop, hno⟩ := h
    have hne : c.back 1 ≠ 0 := by
      rcases hcode with rfl | rfl <;> rw [hback] <;> decide
    exact .trans hstop hk hno hne (next_code_skips mem hs hstop (hback ▸ hcode))
  · exact h

theorem end_of_head_reaches (h : Whole bytes i n) (hc : c.rest = bytes.drop (i + 4))
    (std : Standard) : Reaches bytes i (end_of_head mem std (c.ahead n)) := by
  have hnext := next_code_reaches mem h hc
  by_cases hstd : std = .mpeg1
  · rw [end_of_head, if_pos hstd]
    exact skip_reaches mem hs (.inr rfl) (skip_reaches mem hs (.inl rfl) hnext)
  · rw [end_of_head, if_neg hstd]
    exact hnext

theorem read_seq_head_reaches (std : Standard) (hc : c.rest = bytes.drop (i + 4))
    (hcode : CodeAt bytes i 0xb3) : Reaches bytes i (read_seq_head mem std c).1 := by
  have hwhole := hs.headers i _ hcode (.inl rfl)
  have hlen := hwhole.length hc
  rw [← hc] at hwhole hlen
  rw [read_seq_head, seq_fixed mem hlen]
  exact end_of_head_reaches mem hs hwhole hc std

theorem read_gop_head_reaches (std : Standard) (hc : c.rest = bytes.drop (i + 4))
    (hcode : CodeAt bytes i 0xb8) : Reaches bytes i (read_gop_head mem std c).1 := by
  have hwhole := hs.headers i _ hcode (.inr (.inl rfl))
  have hlen := hwhole.length hc
  have hfour : fixedLength 0xb8 (bytes.drop (i + 4)) = 4 := rfl
  rw [hfour] at hwhole hlen
  rw [read_gop_head, read_ahead mem hlen]
  exact end_of_head_reaches mem hs hwhole hc std

end Headers

end Fenice.Mediainfo.Mpeg
