import Fenice.H264.Packetize
import Mathlib.Data.List.Infix
import Mathlib.Data.List.Induction

/-!
# NAL units in a file (get_one_NALU_payload in read_h264.c)

The file is a stream with a position and an end-of-file flag that a failed read sets and
`fseek` clears. At the end of the file the loop goes back to the start and reads on into
the same array.
-/

namespace Fenice.H264

/-- A `FILE` opened for reading. -/
structure File where
  bytes : List UInt8
  pos : ℕ
  eof : Bool
  deriving DecidableEq

/-- `MAX_FRAME_ZISE`. -/
def maxFrameSize : ℕ := 100000

namespace File

/-- `fgetc`, stored in a `char`: at the end of the file that is 0xff. -/
def fgetc (f : File) : UInt8 × File :=
  if f.pos < f.bytes.length then (f.bytes.getD f.pos 0, { f with pos := f.pos + 1 })
  else (0xff, { f with eof := true })

/-- `fread (buff, 1, n, f)`; the bytes that were there. -/
def fread (n : ℕ) (f : File) : List UInt8 × File :=
  let got := (f.bytes.drop f.pos).take n
  (got, { f with pos := f.pos + got.length, eof := f.eof || decide (got.length < n) })

/-- `fseek (f, 0, SEEK_SET)`. -/
def rewind (f : File) : File := { f with pos := 0, eof := false }

/-- `fseek (f, -n, SEEK_CUR)`; `none`: there is no such position. -/
def back (n : ℕ) (f : File) : Option File :=
  if n ≤ f.pos then some { f with pos := f.pos - n, eof := false } else none

/-- One more byte, from the start of the file if the end was met before. -/
def nextByte (f : File) : UInt8 × File := (if f.eof then f.rewind else f).fgetc

end File

/-- `is_start_code_3bit (&buff[pos - 3])` and `is_start_code_4bit (&buff[pos - 4])`. -/
def startCode3 : List UInt8 := [0, 0, 1]
def startCode4 : List UInt8 := [0, 0, 0, 1]

def endsIn (code buff : List UInt8) : Bool := buff.drop (buff.length - code.length) == code

/-- The loop that looks for the next start code, with `room` bytes left of `buff`. The
result is the array up to the start code, and the length of the latter; `none`: it runs over the
end of the array. What is stored in `nalu` at the end of the file is stored again when the loop
is over. -/
def findStart : ℕ → List UInt8 → File → Option (List UInt8 × File × ℕ)
  | 0, _, _ => none
  | room + 1, buff, f =>
    let (c, f) := f.nextByte
    let buff := buff ++ [c]
    if endsIn startCode4 buff then some (buff, f, 4)
    else if endsIn startCode3 buff then some (buff, f, 3)
    else findStart room buff f

/-- What `get_one_NALU_payload` returns. `ran`: it wrote behind one of its arrays. -/
inductive NALURead where
  | found (header : UInt8) (payload : List UInt8) (f : File)
  | errEof (f : File)
  | errNotFound (f : File)
  | ran
  deriving DecidableEq

/-- `get_one_NALU_payload` behind a start code, which is what the array holds. A NAL unit is
given as its header byte, from which the fields are taken, and its payload. -/
def readPayload (buff : List UInt8) (f : File) : NALURead :=
  match findStart (maxFrameSize - buff.length) buff f with
  | none => .ran
  | some (all, f, n) =>
    match f.back n with
    | none => .errEof f
    | some f =>
      -- `nalu->len` is unsigned
      if all.length < buff.length + n + 1 then .ran
      else
        .found (all.getD buff.length 0)
          ((all.drop (buff.length + 1)).take (all.length - buff.length - n - 1)) f

/-- `get_one_NALU_payload`. -/
def readNALU (f : File) : NALURead :=
  let (buff, f) := f.fread 3
  if buff.length ≠ 3 then .errEof f
  else if buff = startCode3 then readPayload buff f
  else
    let (more, f) := f.fread 1
    if more.length ≠ 1 then .errEof f
    else if buff ++ more = startCode4 then readPayload (buff ++ more) f
    else .errNotFound f

/-! ### Files of NAL units -/

/-- A NAL unit: its bytes hold no `00 00 00` and no `00 00 01` and do not end in zero. -/
structure NalUnit where
  header : UInt8
  payload : List UInt8
  no_zeros : ¬ [0, 0, 0] <:+: header :: payload
  no_code : ¬ [0, 0, 1] <:+: header :: payload
  last_ne : (header :: payload).getLast (List.cons_ne_nil _ _) ≠ 0

/-- A NAL unit behind a start code of three or four bytes. -/
structure Coded where
  long : Bool
  unit : NalUnit

namespace Coded

def code (u : Coded) : List UInt8 := if u.long then startCode4 else startCode3

def content (u : Coded) : List UInt8 := u.unit.header :: u.unit.payload

def bytes (u : Coded) : List UInt8 := u.code ++ u.content

end Coded

/-- The file made of the units. -/
def annexB (us : List Coded) : List UInt8 := us.flatMap Coded.bytes

/-- The file, opened. -/
def opened (bytes : List UInt8) : File := ⟨bytes, 0, false⟩

/-- The NAL units that `n` calls of `get_one_NALU_payload` give one after the other; `none`:
one of them fails. -/
def readNALUs : ℕ → File → Option (List (UInt8 × List UInt8) × File)
  | 0, f => some ([], f)
  | n + 1, f =>
    match readNALU f with
    | .found header payload f =>
      (readNALUs n f).map fun (rest, f) => ((header, payload) :: rest, f)
    | _ => none

/-- The calls give the units of the file in order, and then begin with the first again. -/
def SplitsRight (us : List Coded) : Prop :=
  readNALUs us.length (opened (annexB us)) =
    some (us.map fun u => (u.unit.header, u.unit.payload), opened (annexB us))

/-! ### Looking for the start code -/

/-- The loop reads the bytes `l` on the way from one state of the file to another. -/
inductive Feeds : File → List UInt8 → File → Prop
  | nil (f : File) : Feeds f [] f
  | cons {f g h : File} {c : UInt8} {l : List UInt8} (hc : f.nextByte = (c, g))
      (tail : Feeds g l h) : Feeds f (c :: l) h

theorem Feeds.append {f g h : File} {l l' : List UInt8} (hl : Feeds f l g) (hl' : Feeds g l' h) :
    Feeds f (l ++ l') h := by
  induction hl with
  | nil f => exact hl'
  | cons hc tail ih => exact .cons hc (ih hl')

theorem endsIn_iff (code buff : List UInt8) : endsIn code buff = true ↔ code <:+ buff := by
  rw [endsIn, beq_iff_eq]
  constructor
  · intro h
    exact h ▸ List.drop_suffix _ _
  · rintro ⟨pre, rfl⟩
    simp

theorem findStart_feeds {f g : File} {l : List UInt8} (h : Feeds f l g) {room : ℕ}
    (hroom : l.length ≤ room) (hne : l ≠ []) (buff : List UInt8)
    (hearly : ∀ l₁ l₂, l = l₁ ++ l₂ → l₁ ≠ [] → l₂ ≠ [] → ¬ startCode3 <:+ buff ++ l₁)
    (hend : startCode3 <:+ buff ++ l) :
    findStart room buff f =
      some (buff ++ l, g, if startCode4 <:+ buff ++ l then 4 else 3) := by
  induction h generalizing room buff with
  | nil f => exact absurd rfl hne
  | @cons f g h c l hc tail ih =>
    cases room with
    | zero => simp at hroom
    | succ room =>
      have hlong : ∀ b, startCode4 <:+ b → startCode3 <:+ b :=
        fun b hb => List.IsSuffix.trans ⟨[0], rfl⟩ hb
      rw [findStart, hc]
      simp only [endsIn_iff]
      by_cases hl : l = []
      · subst hl
        cases tail
        by_cases h4 : startCode4 <:+ buff ++ [c]
        · rw [if_pos h4, if_pos h4]
        · rw [if_neg h4, if_neg h4, if_pos hend]
      · have hno : ¬ startCode3 <:+ buff ++ [c] := hearly [c] l rfl (by simp) hl
        rw [if_neg fun h4 => hno (hlong _ h4), if_neg hno, ih (by simpa using hroom) hl]
        · simp
        · intro l₁ l₂ he h₁ h₂
          have := hearly (c :: l₁) l₂ (by rw [he]; rfl) (by simp) h₂
          simpa using this
        · simpa using hend

/-! ### One unit -/

/-- What may stand between two start codes: no start code in it, and no zero at its end. -/
structure Clean (c : List UInt8) : Prop where
  no_code : ¬ startCode3 <:+: c
  last_ne : ∀ x, c.getLast? = some x → x ≠ 0
  ne_nil : c ≠ []

theorem Coded.clean (u : Coded) : Clean u.content where
  no_code := u.unit.no_code
  last_ne := by
    intro x hx
    rw [Coded.content, List.getLast?_eq_some_getLast (List.cons_ne_nil _ _)] at hx
    exact Option.some.inj hx ▸ u.unit.last_ne
  ne_nil := List.cons_ne_nil _ _

/-- The byte that `fgetc` gives at the end of the file is like a byte of the unit. -/
theorem Clean.append_ff {c : List UInt8} (h : Clean c) : Clean (c ++ [0xff]) where
  no_code := by
    rintro ⟨pre, post, he⟩
    cases post using List.reverseRecOn with
    | nil =>
      have hl := congrArg List.getLast? he
      simp [startCode3] at hl
    | append_singleton post x =>
      rw [← List.append_assoc] at he
      obtain ⟨hc, -⟩ := List.append_inj' he rfl
      exact h.no_code ⟨pre, post, hc⟩
  last_ne := by
    intro x hx
    have hff : (0xff : UInt8) = x := by simpa using hx
    rw [← hff]
    decide
  ne_nil := by simp

theorem Clean.not_within {c code l₁ l₂ : List UInt8} (h : Clean c)
    (hc : code = startCode3 ∨ code = startCode4) (he : c = l₁ ++ l₂) (h₁ : l₁ ≠ []) :
    ¬ startCode3 <:+ code ++ l₁ := by
  intro hs
  match l₁ with
  | [] => exact h₁ rfl
  | [a] => rcases hc with rfl | rfl <;> simp [startCode3, startCode4, List.suffix_cons_iff] at hs
  | [a, b] =>
    rcases hc with rfl | rfl <;> simp [startCode3, startCode4, List.suffix_cons_iff] at hs
  | a :: b :: d :: l =>
    have hl : startCode3 <:+ a :: b :: d :: l :=
      List.suffix_of_suffix_length_le hs (List.suffix_append _ _) (by simp [startCode3])
    refine h.no_code (hl.isInfix.trans ?_)
    rw [he]
    exact (List.prefix_append _ _).isInfix

theorem code_prefix {code s l : List UInt8} (hc : code = startCode3 ∨ code = startCode4)
    (he : code = s ++ l) (hl : l ≠ []) : ∀ x ∈ s, x = 0 := by
  intro x hx
  have hdrop : x ∈ code.dropLast := by
    rw [he, List.dropLast_append_of_ne_nil hl]
    exact List.mem_append_left _ hx
  rcases hc with rfl | rfl <;> simpa [startCode3, startCode4] using hdrop

theorem Clean.not_early {c code code' l₁ l₂ : List UInt8} (h : Clean c)
    (hc : code = startCode3 ∨ code = startCode4) (hc' : code' = startCode3 ∨ code' = startCode4)
    (he : c ++ code' = l₁ ++ l₂) (h₁ : l₁ ≠ []) (h₂ : l₂ ≠ []) :
    ¬ startCode3 <:+ code ++ l₁ := by
  rcases List.append_eq_append_iff.mp he with ⟨s, rfl, hs⟩ | ⟨t, ht, -⟩
  · cases s using List.reverseRecOn with
    | nil => exact @Clean.not_within c code (c ++ []) [] h hc (by simp) h₁
    | append_singleton s x =>
      intro hend
      have hx : x = 0 := code_prefix hc' hs h₂ x (by simp)
      obtain ⟨pre, hp⟩ := hend
      have hl := congrArg List.getLast? hp
      rw [← List.append_assoc, ← List.append_assoc, List.getLast?_concat] at hl
      simp [startCode3, hx] at hl
  · exact h.not_within hc ht h₁

theorem feeds_inside (pre l post : List UInt8) :
    Feeds ⟨pre ++ (l ++ post), pre.length, false⟩ l
      ⟨pre ++ (l ++ post), pre.length + l.length, false⟩ := by
  induction l generalizing pre with
  | nil => exact .nil _
  | cons c l ih =>
    have hnext : (⟨pre ++ (c :: l ++ post), pre.length, false⟩ : File).nextByte =
        (c, ⟨pre ++ (c :: l ++ post), pre.length + 1, false⟩) := by
      have hlt : pre.length < (pre ++ (c :: l ++ post)).length := by simp
      simp only [File.nextByte, File.fgetc, Bool.false_eq_true, if_false, if_pos hlt]
      simp [List.getD_eq_getElem?_getD]
    refine .cons hnext ?_
    have htail := ih (pre ++ [c])
    simp only [List.append_assoc, List.cons_append, List.nil_append, List.length_append,
      List.length_cons, List.length_nil] at htail ⊢
    rw [show pre.length + (l.length + 1) = pre.length + (0 + 1) + l.length by omega]
    exact htail

theorem feeds_around {bytes l : List UInt8} {g : File} (hl : l ≠ [])
    (h : Feeds (opened bytes) l g) : Feeds ⟨bytes, bytes.length, false⟩ (0xff :: l) g := by
  have hend : (⟨bytes, bytes.length, false⟩ : File).nextByte =
      (0xff, ⟨bytes, bytes.length, true⟩) := by
    simp [File.nextByte, File.fgetc]
  refine .cons hend ?_
  cases h with
  | nil f => exact absurd rfl hl
  | cons hc tail => exact .cons hc tail

theorem Coded.code_cases (u : Coded) : u.code = startCode3 ∨ u.code = startCode4 := by
  unfold Coded.code
  cases u.long
  · exact Or.inl rfl
  · exact Or.inr rfl

/-- The two start codes are told apart, because the content does not end in zero. -/
theorem Clean.code_length {c pre code : List UInt8} (h : Clean c)
    (hc : code = startCode3 ∨ code = startCode4) :
    (if startCode4 <:+ pre ++ (c ++ code) then 4 else 3) = code.length := by
  rcases hc with rfl | rfl
  · have hno : ¬ startCode4 <:+ pre ++ (c ++ startCode3) := by
      intro hs
      cases c using List.reverseRecOn with
      | nil => exact h.ne_nil rfl
      | append_singleton c x =>
        have hx : x ≠ 0 := h.last_ne x (by simp)
        obtain ⟨t, ht⟩ := hs
        have hr := congrArg List.reverse ht
        simp [startCode3, startCode4] at hr
        exact hx hr.1.symm
    rw [if_neg hno]
    rfl
  · rw [if_pos ⟨pre ++ c, by simp⟩]
    rfl

theorem fread_eq {pre l post : List UInt8} {n : ℕ} (hn : l.length = n) :
    File.fread n ⟨pre ++ (l ++ post), pre.length, false⟩ =
      (l, ⟨pre ++ (l ++ post), pre.length + n, false⟩) := by
  have hgot : ((pre ++ (l ++ post)).drop pre.length).take n = l := by
    rw [List.drop_left, ← hn, List.take_left]
  simp only [File.fread, hgot, hn, Nat.lt_irrefl, decide_false, Bool.or_self]

theorem findStart_mono {room : ℕ} {buff : List UInt8} {f : File} {r : List UInt8 × File × ℕ}
    (h : findStart room buff f = some r) (k : ℕ) : findStart (room + k) buff f = some r := by
  induction room generalizing buff f with
  | zero => cases h
  | succ room ih =>
    rw [Nat.add_right_comm, findStart]
    rw [findStart] at h
    dsimp only at h ⊢
    split_ifs at h ⊢
    · exact h
    · exact h
    · exact ih h

/-- The payload behind a start code, up to the start code behind it, if the array has room for
it all. -/
theorem readPayload_cases {code payload code' : List UInt8} {header : UInt8} {f g : File}
    (hc : code = startCode3 ∨ code = startCode4) (hc' : code' = startCode3 ∨ code' = startCode4)
    (hclean : Clean (header :: payload)) (hfeeds : Feeds f (header :: payload ++ code') g)
    (hback : code'.length ≤ g.pos) :
    readPayload code f = .ran ∧
        maxFrameSize < code.length + (payload.length + 1) + code'.length ∨
      readPayload code f =
        .found header payload { g with pos := g.pos - code'.length, eof := false } := by
  have hstart : ∀ room, (header :: payload ++ code').length ≤ room → findStart room code f =
      some (code ++ (header :: payload ++ code'), g, code'.length) := by
    intro room hroom
    rw [findStart_feeds hfeeds hroom (by simp) code]
    · rw [hclean.code_length hc']
    · intro l₁ l₂ he h₁ h₂
      exact hclean.not_early hc hc' he h₁ h₂
    · rcases hc' with rfl | rfl
      · exact ⟨code ++ (header :: payload), by simp⟩
      · exact ⟨code ++ (header :: payload) ++ [0], by simp [startCode3, startCode4]⟩
  have hlen : ¬ (code ++ (header :: payload ++ code')).length <
      code.length + code'.length + 1 := by
    simp only [List.length_append, List.length_cons]
    omega
  have hheader : (code ++ (header :: payload ++ code')).getD code.length 0 = header := by
    simp [List.getD_eq_getElem?_getD]
  have hpayload : ((code ++ (header :: payload ++ code')).drop (code.length + 1)).take
      ((code ++ (header :: payload ++ code')).length - code.length - code'.length - 1) =
        payload := by
    have hsize : (code ++ (header :: payload ++ code')).length - code.length - code'.length - 1 =
        payload.length := by
      simp only [List.length_append, List.length_cons]
      omega
    rw [hsize, List.drop_append, List.drop_of_length_le (by omega), Nat.add_sub_cancel_left]
    simp
  cases hfind : findStart (maxFrameSize - code.length) code f with
  | none =>
    refine Or.inl ⟨by simp only [readPayload, hfind], ?_⟩
    by_contra hfit
    have := hstart (maxFrameSize - code.length) (by
      simp only [List.length_append, List.length_cons]
      omega)
    rw [this] at hfind
    cases hfind
  | some r =>
    -- more room would not change the result
    have hr := findStart_mono hfind (header :: payload ++ code').length
    rw [hstart _ (by omega)] at hr
    cases hr
    exact Or.inr (by
      simp only [readPayload, hfind, File.back, if_pos hback, if_neg hlen, hheader, hpayload])

theorem readNALU_eq {pre code post : List UInt8}
    (hc : code = startCode3 ∨ code = startCode4) :
    readNALU ⟨pre ++ (code ++ post), pre.length, false⟩ =
      readPayload code ⟨pre ++ (code ++ post), pre.length + code.length, false⟩ := by
  rcases hc with rfl | rfl
  · rw [readNALU, fread_eq (n := 3) rfl]
    rfl
  · have h3 : File.fread 3 ⟨pre ++ (startCode4 ++ post), pre.length, false⟩ =
        ([0, 0, 0], ⟨pre ++ (startCode4 ++ post), pre.length + 3, false⟩) :=
      @fread_eq pre [0, 0, 0] (1 :: post) 3 rfl
    have h1 : File.fread 1 ⟨pre ++ (startCode4 ++ post), pre.length + 3, false⟩ =
        ([1], ⟨pre ++ (startCode4 ++ post), pre.length + 3 + 1, false⟩) := by
      have := @fread_eq (pre ++ [0, 0, 0]) [1] post 1 rfl
      simpa [startCode4] using this
    rw [readNALU, h3]
    dsimp only
    rw [h1]
    rfl

/-! ### The whole file -/

/-- What the calls give for a file that ends with the units `us`: the last payload has one
byte more, the one that `fgetc` returns at the end of the file. -/
def seen : List Coded → List (UInt8 × List UInt8)
  | [] => []
  | [u] => [(u.unit.header, u.unit.payload ++ [0xff])]
  | u :: v :: us => (u.unit.header, u.unit.payload) :: seen (v :: us)

/-- The units at the end of a file fit in the array of the reader, each with its start code
and the one behind it; `first` is the one at the start of the file. -/
def Fits (first : List UInt8) : List Coded → Prop
  | [] => True
  | [u] => u.bytes.length + 1 + first.length ≤ maxFrameSize
  | u :: v :: us => u.bytes.length + v.code.length ≤ maxFrameSize ∧ Fits first (v :: us)

theorem readNALU_middle (pre post : List UInt8) (u v : Coded) :
    readNALU ⟨pre ++ (u.bytes ++ (v.bytes ++ post)), pre.length, false⟩ = .ran ∧
        maxFrameSize < u.bytes.length + v.code.length ∨
      readNALU ⟨pre ++ (u.bytes ++ (v.bytes ++ post)), pre.length, false⟩ =
        .found u.unit.header u.unit.payload
          ⟨pre ++ (u.bytes ++ (v.bytes ++ post)), pre.length + u.bytes.length, false⟩ := by
  have hfile : pre ++ (u.bytes ++ (v.bytes ++ post)) =
      pre ++ (u.code ++ (u.content ++ v.code ++ (v.content ++ post))) := by
    simp only [Coded.bytes, List.append_assoc]
  have hfeeds := feeds_inside (pre ++ u.code) (u.content ++ v.code) (v.content ++ post)
  rw [List.append_assoc, List.length_append] at hfeeds
  rw [hfile, readNALU_eq u.code_cases]
  have hcases := readPayload_cases u.code_cases v.code_cases u.clean hfeeds
    (by simp only [List.length_append]; omega)
  simp only [Coded.bytes, Coded.content, List.length_append, List.length_cons] at hcases ⊢
  rcases hcases with ⟨hran, hlong⟩ | hfound
  · exact Or.inl ⟨hran, by omega⟩
  · refine Or.inr (hfound.trans ?_)
    congr 2
    omega

theorem readNALU_last (pre : List UInt8) (u : Coded) {first rest : List UInt8}
    (hfirst : first = startCode3 ∨ first = startCode4) (hfile : pre ++ u.bytes = first ++ rest) :
    readNALU ⟨pre ++ u.bytes, pre.length, false⟩ = .ran ∧
        maxFrameSize < u.bytes.length + 1 + first.length ∨
      readNALU ⟨pre ++ u.bytes, pre.length, false⟩ =
        .found u.unit.header (u.unit.payload ++ [0xff]) (opened (pre ++ u.bytes)) := by
  have hcontent : Feeds ⟨pre ++ u.bytes, pre.length + u.code.length, false⟩ u.content
      ⟨pre ++ u.bytes, (pre ++ u.bytes).length, false⟩ := by
    have := feeds_inside (pre ++ u.code) u.content []
    simpa only [Coded.bytes, List.append_nil, List.append_assoc, List.length_append,
      Nat.add_assoc] using this
  have hstart : Feeds (opened (pre ++ u.bytes)) first
      ⟨pre ++ u.bytes, first.length, false⟩ := by
    have := feeds_inside [] first rest
    simpa only [opened, List.nil_append, List.length_nil, Nat.zero_add, hfile] using this
  have hfeeds := hcontent.append
    (feeds_around (by rcases hfirst with rfl | rfl <;> simp [startCode3, startCode4]) hstart)
  have hsplit : u.content ++ 0xff :: first =
      u.unit.header :: (u.unit.payload ++ [0xff]) ++ first := by
    simp [Coded.content]
  rw [hsplit] at hfeeds
  have hclean : Clean (u.unit.header :: (u.unit.payload ++ [0xff])) := u.clean.append_ff
  have hcases := readPayload_cases u.code_cases hfirst hclean hfeeds le_rfl
  have hread := @readNALU_eq pre u.code u.content u.code_cases
  rw [show pre ++ (u.code ++ u.content) = pre ++ u.bytes from rfl] at hread
  rw [hread]
  simp only [Nat.sub_self] at hcases
  rcases hcases with ⟨hran, hlong⟩ | hfound
  · refine Or.inl ⟨hran, ?_⟩
    rw [List.length_append, List.length_singleton] at hlong
    simp only [Coded.bytes, Coded.content, List.length_append, List.length_cons]
    omega
  · exact Or.inr hfound

theorem readNALUs_seen (rest : List Coded) (hne : rest ≠ []) (pre : List UInt8)
    {first behind : List UInt8} (hfirst : first = startCode3 ∨ first = startCode4)
    (hfile : pre ++ annexB rest = first ++ behind) (hfit : Fits first rest) :
    readNALUs rest.length ⟨pre ++ annexB rest, pre.length, false⟩ =
      some (seen rest, opened (pre ++ annexB rest)) := by
  induction rest generalizing pre with
  | nil => exact absurd rfl hne
  | cons u us ih =>
    cases us with
    | nil =>
      simp only [annexB, List.flatMap_cons, List.flatMap_nil, List.append_nil] at hfile ⊢
      rcases readNALU_last pre u hfirst hfile with ⟨-, hlong⟩ | hfound
      · have : u.bytes.length + 1 + first.length ≤ maxFrameSize := hfit
        omega
      · simp only [readNALUs, List.length_cons, List.length_nil, hfound, Option.map_some, seen]
    | cons v us =>
      have hsplit : annexB (u :: v :: us) = u.bytes ++ (v.bytes ++ annexB us) := rfl
      have hassoc : pre ++ annexB (u :: v :: us) = pre ++ u.bytes ++ annexB (v :: us) := by
        rw [hsplit, List.append_assoc]
        rfl
      have hnext := ih (by simp) (pre ++ u.bytes) (by rw [← hassoc]; exact hfile) hfit.2
      rw [← hassoc, List.length_append] at hnext
      rcases readNALU_middle pre (annexB us) u v with ⟨-, hlong⟩ | hfound
      · have := hfit.1
        omega
      · rw [← hsplit] at hfound
        rw [List.length_cons, readNALUs, hfound]
        dsimp only
        rw [hnext]
        rfl

theorem readNALUs_ne (rest : List Coded) (hne : rest ≠ []) (pre : List UInt8)
    {first behind : List UInt8} (hfirst : first = startCode3 ∨ first = startCode4)
    (hfile : pre ++ annexB rest = first ++ behind) (g : File) :
    readNALUs rest.length ⟨pre ++ annexB rest, pre.length, false⟩ ≠
      some (rest.map fun u => (u.unit.header, u.unit.payload), g) := by
  induction rest generalizing pre with
  | nil => exact absurd rfl hne
  | cons u us ih =>
    cases us with
    | nil =>
      simp only [annexB, List.flatMap_cons, List.flatMap_nil, List.append_nil] at hfile ⊢
      rcases readNALU_last pre u hfirst hfile with ⟨hran, -⟩ | hfound
      · simp [readNALUs, hran]
      · simp [readNALUs, hfound]
    | cons v us =>
      have hsplit : annexB (u :: v :: us) = u.bytes ++ (v.bytes ++ annexB us) := rfl
      have hassoc : pre ++ annexB (u :: v :: us) = pre ++ u.bytes ++ annexB (v :: us) := by
        rw [hsplit, List.append_assoc]
        rfl
      have hnext := ih (by simp) (pre ++ u.bytes) (by rw [← hassoc]; exact hfile)
      rw [← hassoc, List.length_append] at hnext
      rw [List.length_cons, readNALUs]
      rcases readNALU_middle pre (annexB us) u v with ⟨hran, -⟩ | hfound
      · rw [← hsplit] at hran
        simp [hran]
      · rw [← hsplit] at hfound
        rw [hfound]
        intro h
        obtain ⟨⟨l, f⟩, hl, he⟩ := Option.map_eq_some_iff.mp h
        cases he
        exact hnext hl

theorem annexB_starts {u : Coded} {us : List Coded} :
    annexB (u :: us) = u.code ++ (u.content ++ annexB us) := by
  simp [annexB, Coded.bytes]

/-- No file of NAL units is split rightly: either the array is too small, or the last payload
ends with a byte that is not in the file. -/
theorem splitsRight_iff (us : List Coded) : SplitsRight us ↔ us = [] := by
  constructor
  · intro h
    cases us with
    | nil => rfl
    | cons u us =>
      exact absurd h (readNALUs_ne (u :: us) (by simp) [] u.code_cases annexB_starts _)
  · rintro rfl
    rfl

theorem readNALUs_annexB (u : Coded) (us : List Coded) (hfit : Fits u.code (u :: us)) :
    readNALUs (us.length + 1) (opened (annexB (u :: us))) =
      some (seen (u :: us), opened (annexB (u :: us))) :=
  readNALUs_seen (u :: us) (by simp) [] u.code_cases annexB_starts hfit

/-! ### Any call -/

theorem seen_cons {u : Coded} {us : List Coded} (h : us ≠ []) :
    seen (u :: us) = (u.unit.header, u.unit.payload) :: seen us := by
  cases us with
  | nil => exact absurd rfl h
  | cons v us => rfl

theorem Fits.tail {first : List UInt8} {u : Coded} {us : List Coded} (h : Fits first (u :: us)) :
    Fits first us := by
  cases us with
  | nil => trivial
  | cons v us => exact h.2

theorem Fits.behind {first : List UInt8} {done rest : List Coded} (h : Fits first (done ++ rest)) :
    Fits first rest := by
  induction done with
  | nil => exact h
  | cons u done ih => exact ih h.tail

/-- The payload that is given for a unit with `rest` behind it. -/
def Coded.given (u : Coded) (rest : List Coded) : UInt8 × List UInt8 :=
  (u.unit.header, if rest = [] then u.unit.payload ++ [0xff] else u.unit.payload)

theorem seen_at (done : List Coded) (u : Coded) (rest : List Coded) :
    (seen (done ++ u :: rest))[done.length]? = some (u.given rest) := by
  induction done with
  | nil =>
    cases rest with
    | nil => rfl
    | cons v rest => rfl
  | cons d done ih =>
    rw [List.cons_append, seen_cons (by simp), List.length_cons, List.getElem?_cons_succ]
    exact ih

/-- The file before unit number `i`, counted around. -/
def before (us : List Coded) (i : ℕ) : File :=
  ⟨annexB us, (annexB (us.take (i % us.length))).length, false⟩

/-- What the call there gives. -/
def seenAt (us : List Coded) (i : ℕ) : UInt8 × List UInt8 :=
  (seen us).getD (i % us.length) (0, [])

theorem annexB_append (us vs : List Coded) : annexB (us ++ vs) = annexB us ++ annexB vs := by
  simp [annexB]

theorem readNALU_before (u : Coded) (us : List Coded) (hfit : Fits u.code (u :: us)) (i : ℕ) :
    readNALU (before (u :: us) i) =
      .found (seenAt (u :: us) i).1 (seenAt (u :: us) i).2 (before (u :: us) (i + 1)) := by
  obtain ⟨all, hall⟩ : ∃ all, all = u :: us := ⟨_, rfl⟩
  have hpos : 0 < all.length := by simp [hall]
  have hlt : i % all.length < all.length := Nat.mod_lt _ hpos
  obtain ⟨done, w, rest, hsplit, hdone⟩ : ∃ done w rest, all = done ++ w :: rest ∧
      done.length = i % all.length :=
    ⟨all.take (i % all.length), all[i % all.length], all.drop (i % all.length + 1), by simp,
      by simp; omega⟩
  have htake : all.take (i % all.length) = done := by
    rw [← hdone, hsplit, List.take_left]
  have hseen : seenAt all i = w.given rest := by
    rw [seenAt, ← hdone, hsplit, List.getD_eq_getElem?_getD, seen_at]
    rfl
  have hfits : Fits u.code (w :: rest) := by
    rw [← hall, hsplit] at hfit
    exact hfit.behind
  have hfile : annexB all = annexB done ++ (w.bytes ++ annexB rest) := by
    rw [hsplit, annexB_append]
    rfl
  have hnow : before all i = ⟨annexB done ++ (w.bytes ++ annexB rest), (annexB done).length,
      false⟩ := by
    rw [before, htake, hfile]
  have hlength : all.length = done.length + (rest.length + 1) := by
    rw [hsplit, List.length_append, List.length_cons]
  have hmod : (i + 1) % all.length = (done.length + 1) % (done.length + (rest.length + 1)) := by
    rw [← Nat.mod_add_mod, ← hdone, hlength]
  rw [← hall, hseen, hnow]
  cases rest with
  | nil =>
    have hstart : annexB done ++ w.bytes = u.code ++ (u.content ++ annexB us) := by
      rw [← annexB_starts, ← hall, hfile]
      simp [annexB]
    have hnext : before all (i + 1) = opened (annexB done ++ w.bytes) := by
      rw [before, hmod, List.length_nil, Nat.mod_self, hfile]
      simp [opened, annexB]
    rw [hnext]
    simp only [annexB, List.flatMap_nil, List.append_nil]
    rcases readNALU_last (annexB done) w u.code_cases hstart with ⟨-, hlong⟩ | hfound
    · have : w.bytes.length + 1 + u.code.length ≤ maxFrameSize := hfits
      omega
    · exact hfound
  | cons v rest =>
    have hnext : before all (i + 1) =
        ⟨annexB done ++ (w.bytes ++ annexB (v :: rest)),
          (annexB done).length + w.bytes.length, false⟩ := by
      have htake' : all.take (done.length + 1) = done ++ [w] := by
        rw [hsplit, show done ++ w :: v :: rest = done ++ [w] ++ v :: rest by simp,
          List.take_left' (by simp)]
      rw [before, hmod, List.length_cons, Nat.mod_eq_of_lt (by omega), htake', hfile,
        annexB_append, List.length_append]
      simp [annexB]
    rw [hnext]
    rcases readNALU_middle (annexB done) (annexB rest) w v with ⟨-, hlong⟩ | hfound
    · have := hfits.1
      omega
    · exact hfound

/-- A parameter set behind four bytes, and a slice behind three. -/
def sampleSet : Coded := ⟨true, ⟨0x67, [0x42, 0, 0x1e], by decide, by decide, by decide⟩⟩
def sampleSlice : Coded := ⟨false, ⟨0x65, [0x88, 0x84], by decide, by decide, by decide⟩⟩

/-- The slice is given with a byte 0xff behind it. -/
theorem slice_gets_ff : ¬ SplitsRight [sampleSet, sampleSlice] ∧
    readNALUs 2 (opened (annexB [sampleSet, sampleSlice])) =
      some ([(0x67, [0x42, 0, 0x1e]), (0x65, [0x88, 0x84, 0xff])],
        opened (annexB [sampleSet, sampleSlice])) := by
  have hread := readNALUs_annexB sampleSet [sampleSlice] ⟨by decide, by unfold Fits; decide⟩
  refine ⟨fun h => ?_, hread⟩
  have := Option.some.inj (hread.symm.trans h)
  exact absurd (congrArg Prod.fst this) (by decide)

end Fenice.H264
