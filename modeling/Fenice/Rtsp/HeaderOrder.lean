import Fenice.Lib.CLine
import Fenice.Rtsp.Requests
import Fenice.Rtsp.Control
import Fenice.Rtsp.Searches

/-!
# Requests whose headers are in another order

`RTSP_validate_method` takes the first header for `CSeq`. The methods take the first place
of a name in the message for its header, and read on behind it as far as it goes.
-/

namespace Fenice.Rtsp
open Fenice.CString Fenice.Schedule Fenice.Playback

def readHeaders : List Bytes :=
  [hdrCseq, hdrSession, hdrTransport, hdrRange, hdrRequire, hdrAccept, hdrUserAgent,
    hdrContentLength]

/-- The same header lines in any order, and further ones of other names. -/
structure Rearranged (r r' : Request) : Prop where
  line : r'.line = r.line
  body : r'.body = r.body
  headers : ∃ further, r'.headers.Perm (r.headers ++ further) ∧
    ∀ h ∈ further, h.name ∉ readHeaders

/-- What is read of the first request is the same in the second, and the replies and the effects
are the same from any state. -/
structure HandledAlike (r r' : Request) : Prop where
  reads : SameReads r.bytes r'.bytes
  handled : ∀ w rtsp st, handleMessage w r.bytes rtsp st = handleMessage w r'.bytes rtsp st

/-! ### Requests that are read as they are written -/

/-- The first header of a name. -/
def Request.named (r : Request) (name : Bytes) : Option Header :=
  r.headers.find? fun h => h.name == name

/-- The method of a request line and what follows the version. -/
def lineFields (line : Bytes) : Option (Bytes × Bytes) :=
  (scanWord 31 line).bind fun m =>
    (scanWord 255 m.2).bind fun u => (scanWord 31 u.2).map fun v => (m.1, v.2)

theorem lineFields_words {line : Bytes} {f : Bytes × Bytes} (h : lineFields line = some f) :
    ∃ t u t' v, scanWord 31 line = some (f.1, t) ∧ scanWord 255 t = some (u, t') ∧
      scanWord 31 t' = some (v, f.2) := by
  obtain ⟨⟨m, t⟩, hm, h⟩ := Option.bind_eq_some_iff.mp h
  obtain ⟨⟨u, t'⟩, hu, h⟩ := Option.bind_eq_some_iff.mp h
  obtain ⟨⟨v, rest⟩, hv, rfl⟩ := Option.map_eq_some_iff.mp h
  exact ⟨t, u, t', v, hm, hu, hv⟩

/-- The line has something behind its first word, of which a conversion takes at most
`width` bytes. -/
def GoesOn (width : ℕ) (line : Bytes) : Prop := ∃ t ∈ scanWord width line, NonBlank t.2

/-- The first place of a name is where the line of the first header of that name begins, or there is
neither. -/
def Placed (name : Bytes) (r : Request) : Prop :=
  (strstr r.bytes name = none ∧ r.named name = none) ∨
    ∃ p ∈ strstr r.bytes name, ∃ h ∈ r.named name, h.bytes ++ eol <+: p

def rangeWords : List Bytes := [lit "npt", lit "smpte", lit "clock", lit "time"]

/-- The words that are looked for from a line `Range` on: those of the formats until one is found,
and `time`. -/
def searchedWords (line : Bytes) : List Bytes :=
  if lit "npt" <:+: line then [lit "npt", lit "time"]
  else if lit "smpte" <:+: line then [lit "npt", lit "smpte", lit "time"]
  else rangeWords

/-- The times of a line `Range` are in the line. -/
structure RangeLine (line : Bytes) : Prop where
  npt : ∀ q ∈ strstr line (lit "npt"), ∃ t ∈ strchr q 61, 45 ∈ t ∧ NonBlank (t.drop 1)
  time : (∃ word ∈ [lit "npt", lit "smpte", lit "clock"], word <:+: line) →
    ∀ q ∈ strstr line (lit "time"), ∃ t ∈ strchr q 61, 16 < t.length
  fields : (∀ word ∈ rangeWords, ¬ word <:+: line) →
    ∃ hour ∈ strchr line 58, ∃ min ∈ strchr (hour.drop 1) 58, ∃ sec ∈ strchr (min.drop 1) 58,
      NonBlank (sec.drop 1)

def Search.header : Search → Option Bytes
  | .cseq | .setupCseq => some hdrCseq
  | .session | .setupSession => some hdrSession
  | .transport => some hdrTransport
  | .range => some hdrRange
  | _ => none

/-- What is searched for is in the header of its name, and what is read of the header is in its
line. -/
def Search.Tidy (r : Request) : Search → Prop
  | .url => ((scanAnyWord r.line).bind fun m => scanWord 254 m.2).isSome = true
  | .cseq => Placed hdrCseq r ∧ ∀ h ∈ r.named hdrCseq, GoesOn 254 h.bytes
  | .setupCseq => Placed hdrCseq r ∧ ∀ h ∈ r.named hdrCseq, GoesOn h.bytes.length h.bytes
  | .session => Placed hdrSession r ∧ ∀ h ∈ r.named hdrSession, GoesOn 254 h.bytes
  | .setupSession => Placed hdrSession r ∧ ∀ h ∈ r.named hdrSession, GoesOn h.bytes.length h.bytes
  | .transport => Placed hdrTransport r ∧ ∀ h ∈ r.named hdrTransport, GoesOn 10 h.bytes
  | .range => Placed hdrRange r ∧ ∀ h ∈ r.named hdrRange, RangeLine h.bytes ∧
      ∀ p ∈ strstr r.bytes hdrRange, ∀ word ∈ searchedWords h.bytes, word <:+: p →
        word <:+: h.bytes
  | .require => hdrRequire <:+: r.bytes → ∃ h ∈ r.headers, h.name = hdrRequire
  | .accept => (hdrAccept <:+: r.bytes → ∃ h ∈ r.headers, h.name = hdrAccept) ∧
      (lit "application/sdp" <:+: r.bytes → (∃ h ∈ r.headers, h.name = hdrAccept) →
        ∃ h ∈ r.headers, h.name = hdrAccept ∧ lit "application/sdp" <:+: h.value)
  | .agent => ∀ p ∈ strstr r.bytes hdrUserAgent, lf ∈ p

/-- The header `CSeq`, with a number in its line, follows the three words of the request line. -/
def Request.CseqFirst (r : Request) : Prop :=
  (∃ f ∈ lineFields r.line, ∀ c ∈ f.2, isSpace c = true) ∧
    ∃ h ∈ r.headers.head?, h.name = hdrCseq ∧
      ∃ t ∈ scanWord 15 h.bytes, (scanUnsigned t.2).isSome = true

/-- The request is none of the responses that `RTSP_valid_response_msg` knows, nothing but its first
header is taken for `CSeq` and a number, and the searches in `made` find what they are for. -/
structure Tidy (made : List Search) (r : Request) : Prop where
  request : ∀ t ∈ scanWord 31 r.bytes, startsNoCase (lit "RTCP/") t.1 = false
  other : ¬ r.CseqFirst → ∀ f ∈ lineFields r.bytes, ∀ t ∈ scanWord 15 f.2,
    hdrCseq <:+: t.1 → scanUnsigned t.2 = none
  searches : ∀ s ∈ made, s.Tidy r

/-- Of several headers with the name of a search the same one is the first in both requests. -/
structure SameFirst (made : List Search) (r r' : Request) : Prop where
  number : r.CseqFirst → r'.CseqFirst → r.headers.head? = r'.headers.head?
  named : ∀ s ∈ made, ∀ name ∈ s.header, r.named name = r'.named name

instance (width : ℕ) (line : Bytes) : Decidable (GoesOn width line) :=
  inferInstanceAs (Decidable (∃ t ∈ scanWord width line, NonBlank t.2))

instance (name : Bytes) (r : Request) : Decidable (Placed name r) :=
  inferInstanceAs (Decidable ((strstr r.bytes name = none ∧ r.named name = none) ∨
    ∃ p ∈ strstr r.bytes name, ∃ h ∈ r.named name, h.bytes ++ eol <+: p))

instance (line : Bytes) : Decidable (RangeLine line) :=
  decidable_of_iff ((∀ q ∈ strstr line (lit "npt"), ∃ t ∈ strchr q 61, 45 ∈ t ∧
      NonBlank (t.drop 1)) ∧
    ((∃ word ∈ [lit "npt", lit "smpte", lit "clock"], word <:+: line) →
      ∀ q ∈ strstr line (lit "time"), ∃ t ∈ strchr q 61, 16 < t.length) ∧
    ((∀ word ∈ rangeWords, ¬ word <:+: line) →
      ∃ hour ∈ strchr line 58, ∃ min ∈ strchr (hour.drop 1) 58,
        ∃ sec ∈ strchr (min.drop 1) 58, NonBlank (sec.drop 1)))
    ⟨fun ⟨h1, h2, h3⟩ => ⟨h1, h2, h3⟩, fun ⟨h1, h2, h3⟩ => ⟨h1, h2, h3⟩⟩

instance (r : Request) (s : Search) : Decidable (s.Tidy r) :=
  match s with
  | .url =>
    inferInstanceAs (Decidable
      (((scanAnyWord r.line).bind fun m => scanWord 254 m.2).isSome = true))
  | .cseq =>
    inferInstanceAs (Decidable (Placed hdrCseq r ∧ ∀ h ∈ r.named hdrCseq, GoesOn 254 h.bytes))
  | .setupCseq =>
    inferInstanceAs (Decidable (Placed hdrCseq r ∧
      ∀ h ∈ r.named hdrCseq, GoesOn h.bytes.length h.bytes))
  | .session =>
    inferInstanceAs (Decidable (Placed hdrSession r ∧ ∀ h ∈ r.named hdrSession, GoesOn 254 h.bytes))
  | .setupSession =>
    inferInstanceAs (Decidable (Placed hdrSession r ∧
      ∀ h ∈ r.named hdrSession, GoesOn h.bytes.length h.bytes))
  | .transport =>
    inferInstanceAs (Decidable (Placed hdrTransport r ∧
      ∀ h ∈ r.named hdrTransport, GoesOn 10 h.bytes))
  | .range =>
    inferInstanceAs (Decidable (Placed hdrRange r ∧ ∀ h ∈ r.named hdrRange, RangeLine h.bytes ∧
      ∀ p ∈ strstr r.bytes hdrRange, ∀ word ∈ searchedWords h.bytes, word <:+: p →
        word <:+: h.bytes))
  | .require =>
    inferInstanceAs (Decidable (hdrRequire <:+: r.bytes → ∃ h ∈ r.headers, h.name = hdrRequire))
  | .accept =>
    inferInstanceAs (Decidable ((hdrAccept <:+: r.bytes → ∃ h ∈ r.headers, h.name = hdrAccept) ∧
      (lit "application/sdp" <:+: r.bytes → (∃ h ∈ r.headers, h.name = hdrAccept) →
        ∃ h ∈ r.headers, h.name = hdrAccept ∧ lit "application/sdp" <:+: h.value)))
  | .agent => inferInstanceAs (Decidable (∀ p ∈ strstr r.bytes hdrUserAgent, lf ∈ p))

instance (r : Request) : Decidable r.CseqFirst :=
  inferInstanceAs (Decidable ((∃ f ∈ lineFields r.line, ∀ c ∈ f.2, isSpace c = true) ∧
    ∃ h ∈ r.headers.head?, h.name = hdrCseq ∧
      ∃ t ∈ scanWord 15 h.bytes, (scanUnsigned t.2).isSome = true))

instance (made : List Search) (r : Request) : Decidable (Tidy made r) :=
  decidable_of_iff ((∀ t ∈ scanWord 31 r.bytes, startsNoCase (lit "RTCP/") t.1 = false) ∧
    (¬ r.CseqFirst → ∀ f ∈ lineFields r.bytes, ∀ t ∈ scanWord 15 f.2,
      hdrCseq <:+: t.1 → scanUnsigned t.2 = none) ∧
    ∀ s ∈ made, s.Tidy r)
    ⟨fun ⟨h1, h2, h3⟩ => ⟨h1, h2, h3⟩, fun ⟨h1, h2, h3⟩ => ⟨h1, h2, h3⟩⟩

instance (made : List Search) (r r' : Request) : Decidable (SameFirst made r r') :=
  decidable_of_iff ((r.CseqFirst → r'.CseqFirst → r.headers.head? = r'.headers.head?) ∧
    ∀ s ∈ made, ∀ name ∈ s.header, r.named name = r'.named name)
    ⟨fun ⟨h1, h2⟩ => ⟨h1, h2⟩, fun ⟨h1, h2⟩ => ⟨h1, h2⟩⟩

/-! ### The range is read from its line -/

section Float

variable {c : UInt8} (hc : isSpace c = true)
include hc

theorem scanExponent_line (s x : Bytes) : scanExponent (s ++ c :: x) = scanExponent s := by
  cases s with
  | nil =>
    have hsmall : c ≠ 101 := space_ne hc rfl
    have hlarge : c ≠ 69 := space_ne hc rfl
    simp [scanExponent, hsmall, hlarge]
  | cons d s =>
    rw [List.cons_append, scanExponent, scanExponent, strtol_line hc]

theorem scanFloat_line {s : Bytes} (h : NonBlank s) (x : Bytes) :
    scanFloat (s ++ c :: x) = scanFloat s := by
  have hhead : ∀ (t : Bytes) (d : UInt8), isSpace d = false → ((t ++ c :: x).head? = some d ↔
      t.head? = some d) := by
    intro t d hd
    cases t with
    | nil => simp [space_ne hc hd]
    | cons e t => exact Iff.rfl
  have hdrop : ∀ (t : Bytes) (d : UInt8), t.head? = some d →
      (t ++ c :: x).drop 1 = t.drop 1 ++ c :: x := by
    intro t d ht
    cases t with
    | nil => cases ht
    | cons e t => rfl
  unfold scanFloat
  simp only [dropWhile_line h, hhead _ 45 rfl, hhead _ 43 rfl]
  generalize s.dropWhile isSpace = u
  have hsigned : (if u.head? = some 45 ∨ u.head? = some 43 then (u ++ c :: x).drop 1
      else u ++ c :: x) =
      (if u.head? = some 45 ∨ u.head? = some 43 then u.drop 1 else u) ++ c :: x := by
    by_cases hsign : u.head? = some 45 ∨ u.head? = some 43
    · rw [if_pos hsign, if_pos hsign]
      rcases hsign with hsign | hsign
      · exact hdrop u _ hsign
      · exact hdrop u _ hsign
    · rw [if_neg hsign, if_neg hsign]
  rw [hsigned]
  generalize (if u.head? = some 45 ∨ u.head? = some 43 then u.drop 1 else u) = t
  simp only [(digits_line hc t x).1, (digits_line hc t x).2, hhead _ 46 rfl]
  generalize t.dropWhile isDigit = v
  by_cases hpoint : v.head? = some 46
  · simp only [hpoint, if_true, hdrop v _ hpoint, (digits_line hc _ x).1, (digits_line hc _ x).2,
      scanExponent_line hc]
  · simp only [hpoint, if_false, scanExponent_line hc]

end Float

theorem scanField_line {b : Bytes} {k n : ℕ} (h : k + n ≤ b.length) (x : Bytes) (field : ℤ) :
    scanField (b ++ x) k n field = scanField b k n field := by
  have hlen : n ≤ (b.drop k).length := by
    rw [List.length_drop]
    omega
  rw [scanField, scanField, List.drop_append_of_le_length (by omega),
    List.take_append_of_le_length hlen]

theorem get_UTC_time_line {b : Bytes} (h : 16 ≤ b.length) (t : Tm) (x : Bytes) :
    get_UTC_time t (b ++ x) = get_UTC_time t b := by
  have hlen : ¬ (b ++ x).length < 16 := by
    rw [List.length_append]
    omega
  rw [get_UTC_time, get_UTC_time, if_neg hlen, if_neg (by omega)]
  simp only [scanField_line (show 0 + 4 ≤ b.length by omega),
    scanField_line (show 4 + 2 ≤ b.length by omega), scanField_line (show 6 + 2 ≤ b.length by omega),
    scanField_line (show 9 + 2 ≤ b.length by omega),
    scanField_line (show 11 + 2 ≤ b.length by omega),
    scanField_line (show 13 + 2 ≤ b.length by omega)]

section Line

variable {line x : Bytes} {c : UInt8} (hc : isSpace c = true)
  (hx : ∀ word ∈ searchedWords line, word <:+: line ++ c :: x → word <:+: line)

theorem npt_searched (line : Bytes) : lit "npt" ∈ searchedWords line := by
  unfold searchedWords
  split_ifs <;> decide

theorem time_searched (line : Bytes) : lit "time" ∈ searchedWords line := by
  unfold searchedWords
  split_ifs <;> decide

theorem smpte_searched (hnpt : ¬ lit "npt" <:+: line) : lit "smpte" ∈ searchedWords line := by
  unfold searchedWords
  rw [if_neg hnpt]
  split_ifs <;> decide

theorem clock_searched (hnpt : ¬ lit "npt" <:+: line) (hsmpte : ¬ lit "smpte" <:+: line) :
    lit "clock" ∈ searchedWords line := by
  unfold searchedWords
  rw [if_neg hnpt, if_neg hsmpte]
  decide

include hx

theorem strstr_range {word : Bytes} (hword : word ∈ searchedWords line) :
    strstr (line ++ c :: x) word = (strstr line word).map (· ++ c :: x) :=
  strstr_within (hx word hword)

/-- `clock` is only looked for without `smpte`. -/
theorem unsupported_range (hnpt : ¬ lit "npt" <:+: line) :
    ((strstr (line ++ c :: x) (lit "smpte")).isSome ||
        (strstr (line ++ c :: x) (lit "clock")).isSome) =
      ((strstr line (lit "smpte")).isSome || (strstr line (lit "clock")).isSome) := by
  rw [strstr_range hx (smpte_searched hnpt), Option.isSome_map]
  by_cases hsmpte : lit "smpte" <:+: line
  · rw [strstr_isSome.mpr hsmpte, Bool.true_or, Bool.true_or]
  · rw [strstr_range hx (clock_searched hnpt hsmpte), Option.isSome_map]

/-- The time of day, unless there is a format without times. -/
theorem rangeTime_line (hl : RangeLine line) (timeTaken : Bool) (args : PlayArgs)
    (h : timeTaken = false → (strstr line (lit "time")).isSome = true →
      ∃ word ∈ [lit "npt", lit "smpte", lit "clock"], word <:+: line) :
    rangeTime timeTaken args (line ++ c :: x) = rangeTime timeTaken args line := by
  rw [rangeTime, rangeTime, strstr_range hx (time_searched line)]
  cases htime : strstr line (lit "time") with
  | none => rfl
  | some q =>
    cases timeTaken with
    | true => rfl
    | false =>
      obtain ⟨t, ht, hlen⟩ := hl.time (h rfl (by rw [htime]; rfl)) q htime
      have hb : 16 ≤ (t.drop 1).length := by
        rw [List.length_drop]
        omega
      have heq : strchr q 61 = some t := ht
      rw [Option.map_some]
      dsimp only
      rw [strchr_append heq, heq]
      dsimp only
      rw [strchr_drop heq, get_UTC_time_line hb]

omit hx in
include hc in
theorem nemesiTime_line (hl : RangeLine line) (hnone : ∀ word ∈ rangeWords, ¬ word <:+: line)
    (single : ℚ → ℚ) (t₀ : ℚ) :
    nemesiTime single t₀ (line ++ c :: x) = nemesiTime single t₀ line := by
  obtain ⟨hour, hhour, min, hmin, sec, hsec, hbehind⟩ := hl.fields hnone
  have hcolon : strchr line 58 = some hour := hhour
  have hcolon' : strchr (hour.drop 1) 58 = some min := hmin
  have hcolon'' : strchr (min.drop 1) 58 = some sec := hsec
  have hbehind' : NonBlank (min.drop 1) := by
    refine hbehind.of_suffix ((List.drop_suffix _ _).trans (strchr_suffix hcolon''))
  have hbehind'' : NonBlank (hour.drop 1) := by
    refine hbehind'.of_suffix ((List.drop_suffix _ _).trans (strchr_suffix hcolon'))
  rw [nemesiTime, nemesiTime, strchr_append hcolon, hcolon, Option.bind_some, Option.bind_some,
    strchr_drop hcolon, scanFloat_line hc hbehind'']
  rw [strchr_append hcolon', hcolon', Option.bind_some, Option.bind_some, strchr_drop hcolon',
    scanFloat_line hc hbehind']
  rw [strchr_append hcolon'', hcolon'', Option.map_some, Option.map_some, strchr_drop hcolon'',
    scanFloat_line hc hbehind]

include hc in
/-- The times of a line `Range`, whatever follows the line. -/
theorem rangeText_line (hl : RangeLine line) (single : ℚ → ℚ) (t₀ : ℚ) (args : PlayArgs) :
    (do
      let (timeTaken, args) ← rangeFormat single t₀ args (line ++ c :: x)
      rangeTime timeTaken args (line ++ c :: x)) =
      (do
        let (timeTaken, args) ← rangeFormat single t₀ args line
        rangeTime timeTaken args line) := by
  have hpass : ∀ (args : PlayArgs),
      (∃ word ∈ [lit "npt", lit "smpte", lit "clock"], word <:+: line) →
      rangeTime false args (line ++ c :: x) = rangeTime false args line :=
    fun args hin => rangeTime_line hx hl false args fun _ _ => hin
  unfold rangeFormat
  simp only [strstr_range hx (npt_searched line), strstr_range hx (time_searched line),
    Option.isSome_map]
  cases hnpt : strstr line (lit "npt") with
  | some q =>
    have hin : lit "npt" <:+: line := strstr_isSome.mp (by rw [hnpt]; rfl)
    obtain ⟨t, ht, hminus, hbehind⟩ := hl.npt q hnpt
    have heq : strchr q 61 = some t := ht
    have hminus' : (strchr (t ++ c :: x) 45).isSome = true :=
      CString.strchr_isSome.mpr (List.mem_append_left _ hminus)
    have hminus'' : (strchr t 45).isSome = true := CString.strchr_isSome.mpr hminus
    rw [Option.map_some]
    dsimp only
    rw [strchr_append heq, heq]
    dsimp only
    rw [strchr_drop heq, scanFloat_line hc hbehind, if_pos hminus', if_pos hminus'']
    exact hpass _ ⟨_, List.mem_cons_self .., hin⟩
  | none =>
    have hno : ¬ lit "npt" <:+: line := by
      rw [← strstr_isSome, hnpt]
      exact Bool.false_ne_true
    rw [Option.map_none]
    dsimp only
    rw [unsupported_range hx hno]
    by_cases hkind : ((strstr line (lit "smpte")).isSome || (strstr line (lit "clock")).isSome) = true
    · rw [if_pos hkind, if_pos hkind]
      rw [Bool.or_eq_true, strstr_isSome, strstr_isSome] at hkind
      apply hpass
      rcases hkind with hin | hin
      · exact ⟨_, List.mem_cons_of_mem _ (List.mem_cons_self ..), hin⟩
      · exact ⟨_, List.mem_cons_of_mem _ (List.mem_cons_of_mem _ (List.mem_cons_self ..)), hin⟩
    · rw [if_neg hkind, if_neg hkind]
      by_cases htime : (strstr line (lit "time")).isSome = true
      · rw [if_pos htime, if_pos htime]
        exact rangeTime_line hx hl true _ fun h => by cases h
      · rw [if_neg htime, if_neg htime]
        have hnone : ∀ word ∈ rangeWords, ¬ word <:+: line := by
          intro word hword hin
          have hsome := strstr_isSome.mpr hin
          rw [Bool.or_eq_true, not_or] at hkind
          simp only [rangeWords, List.mem_cons, List.not_mem_nil, or_false] at hword
          rcases hword with rfl | rfl | rfl | rfl
          · rw [hnpt] at hsome
            cases hsome
          · exact hkind.1 hsome
          · exact hkind.2 hsome
          · exact htime hsome
        rw [nemesiTime_line hc hl hnone]
        cases nemesiTime single t₀ line with
        | none => rfl
        | some startTime => exact rangeTime_line hx hl false _ fun _ h => absurd h htime

end Line

/-! ### The other headers -/

/-- One word and what is read behind it, whatever follows the line. -/
theorem scanWord_goesOn {width : ℕ} {line : Bytes} (h : GoesOn width line) :
    ∃ word rest, NonBlank rest ∧ ∀ {c : UInt8}, isSpace c = true → ∀ x,
      scanWord width (line ++ c :: x) = some (word, rest ++ c :: x) := by
  obtain ⟨⟨word, rest⟩, hscan, hrest⟩ := h
  exact ⟨word, rest, hrest, scanWord_line hscan⟩

theorem scanAnyWord_goesOn {line : Bytes} (h : GoesOn line.length line) :
    ∃ word rest, NonBlank rest ∧ ∀ {c : UInt8}, isSpace c = true → ∀ x,
      scanAnyWord (line ++ c :: x) = some (word, rest ++ c :: x) := by
  obtain ⟨⟨word, rest⟩, hscan, hrest⟩ := h
  exact ⟨word, rest, hrest, scanAnyWord_line hscan⟩

/-- The words of the formats are looked for in the line `Range`, and its times are in it. -/
def RangeRead (line behind : Bytes) : Prop :=
  RangeLine line ∧ ∀ word ∈ searchedWords line, word <:+: line ++ behind → word <:+: line

/-- A name is in neither message, or in both it is found at the front of one text, which ends in
front of white space. -/
def FoundAlike (P : Bytes → Bytes → Prop) (name inp inp' : Bytes) : Prop :=
  strstr inp name = none ∧ strstr inp' name = none ∨
    ∃ s c v v', isSpace c = true ∧ P s (c :: v) ∧ P s (c :: v') ∧
      strstr inp name = some (s ++ c :: v) ∧ strstr inp' name = some (s ++ c :: v')

namespace FoundAlike

variable {inp inp' : Bytes}

theorem cseq (h : FoundAlike (fun s _ => GoesOn 254 s) hdrCseq inp inp') :
    Search.cseq.Same inp inp' := by
  rw [Search.Same, scanCseq, scanCseq]
  rcases h with ⟨hn, hn'⟩ | ⟨s, c, v, v', hc, hs, -, hv, hv'⟩
  · rw [hn, hn']
  · obtain ⟨word, rest, hrest, hscan⟩ := scanWord_goesOn hs
    simp only [hv, hv', Option.bind_some, hscan hc, scanInt_line hc hrest]

theorem setupCseq (h : FoundAlike (fun s _ => GoesOn s.length s) hdrCseq inp inp') :
    Search.setupCseq.Same inp inp' := by
  rw [Search.Same, scanCseq, scanCseq]
  rcases h with ⟨hn, hn'⟩ | ⟨s, c, v, v', hc, hs, -, hv, hv'⟩
  · rw [hn, hn']
  · obtain ⟨word, rest, hrest, hscan⟩ := scanAnyWord_goesOn hs
    simp only [hv, hv', Option.bind_some, hscan hc, scanInt_line hc hrest]

theorem session (h : FoundAlike (fun s _ => GoesOn 254 s) hdrSession inp inp') :
    Search.session.Same inp inp' := by
  rw [Search.Same, scanSession, scanSession]
  rcases h with ⟨hn, hn'⟩ | ⟨s, c, v, v', hc, hs, -, hv, hv'⟩
  · rw [hn, hn']
  · obtain ⟨word, rest, hrest, hscan⟩ := scanWord_goesOn hs
    simp only [hv, hv', Option.map_some, hscan hc, Option.bind_some, scanLong_line hc hrest]

theorem setupSession (h : FoundAlike (fun s _ => GoesOn s.length s) hdrSession inp inp') :
    Search.setupSession.Same inp inp' := by
  intro w
  unfold Rtsp.setupSession
  rcases h with ⟨hn, hn'⟩ | ⟨s, c, v, v', hc, hs, -, hv, hv'⟩
  · rw [hn, hn']
  · obtain ⟨word, rest, hrest, hscan⟩ := scanAnyWord_goesOn hs
    simp only [hv, hv', hscan hc, Option.bind_some, scanInt_line hc hrest]

theorem transport (h : FoundAlike (fun s _ => GoesOn 10 s) hdrTransport inp inp') :
    Search.transport.Same inp inp' := by
  rw [Search.Same, transportTokens, transportTokens]
  rcases h with ⟨hn, hn'⟩ | ⟨s, c, v, v', hc, hs, -, hv, hv'⟩
  · rw [hn, hn']
  · obtain ⟨word, rest, hrest, hscan⟩ := scanWord_goesOn hs
    obtain ⟨settings, rest', hsettings⟩ := scanWord_of_nonBlank hrest (show 0 < 255 by omega)
    have hwords : ∀ x, ((scanWord 10 (s ++ c :: x)).bind fun t => scanWord 255 t.2).map Prod.fst =
        some settings := by
      intro x
      rw [hscan hc, Option.bind_some, scanWord_line hsettings hc, Option.map_some]
    rw [hv, hv']
    simp only [hwords]

theorem range (h : FoundAlike RangeRead hdrRange inp inp') : Search.range.Same inp inp' := by
  intro single t₀ stack
  unfold rangeArgs
  rcases h with ⟨hn, hn'⟩ | ⟨s, c, v, v', hc, hs, hs', hv, hv'⟩
  · rw [hn, hn']
  · rw [hv, hv']
    exact (rangeText_line hc hs.2 hs.1 single t₀ _).trans
      (rangeText_line hc hs'.2 hs.1 single t₀ _).symm

end FoundAlike

namespace Tidy

variable {r r' : Request} {made : List Search} {name : Bytes}

theorem rearranged_mem (hr : Rearranged r r') {h : Header} (hname : h.name ∈ readHeaders) :
    h ∈ r'.headers ↔ h ∈ r.headers := by
  obtain ⟨further, hperm, hfurther⟩ := hr.headers
  rw [hperm.mem_iff, List.mem_append]
  exact ⟨fun hh => hh.resolve_right fun hh => hfurther h hh hname, .inl⟩

theorem found_both {P : Bytes → Prop} (hp : Placed name r ∧ ∀ h ∈ r.named name, P h.bytes)
    (hp' : Placed name r') (hsame : r.named name = r'.named name) :
    FoundAlike (fun s _ => P s) name r.bytes r'.bytes := by
  have hline : ∀ {h : Header} {p : Bytes}, h.bytes ++ eol <+: p → ∃ x, p = h.bytes ++ cr :: x := by
    rintro h p ⟨x, rfl⟩
    exact ⟨lf :: x, by simp [eol]⟩
  obtain ⟨hp, hP⟩ := hp
  rcases hp with ⟨hnone, hno⟩ | ⟨p, hfound, h, hh, hpre⟩
  · rcases hp' with ⟨hnone', -⟩ | ⟨p', -, h', hh', -⟩
    · exact .inl ⟨hnone, hnone'⟩
    · rw [← hsame, hno] at hh'
      cases hh'
  · rcases hp' with ⟨-, hno'⟩ | ⟨p', hfound', h', hh', hpre'⟩
    · rw [hsame, hno'] at hh
      cases hh
    · rw [← hsame, show r.named name = some h from hh] at hh'
      cases hh'
      obtain ⟨x, rfl⟩ := hline hpre
      obtain ⟨x', rfl⟩ := hline hpre'
      exact .inr ⟨h.bytes, cr, x, x', rfl, hP h hh, hP h hh, hfound, hfound'⟩

theorem range_both (ht : Search.range.Tidy r) (ht' : Search.range.Tidy r')
    (hsame : r.named hdrRange = r'.named hdrRange) :
    FoundAlike RangeRead hdrRange r.bytes r'.bytes := by
  have hfound := found_both (P := fun s => RangeLine s ∧
      ∀ inp ∈ [r.bytes, r'.bytes], ∀ p ∈ strstr inp hdrRange, ∀ word ∈ searchedWords s,
        word <:+: p → word <:+: s)
    ⟨ht.1, fun h hh => ⟨(ht.2 h hh).1, ?_⟩⟩ ht'.1 hsame
  · rcases hfound with hnone | ⟨s, c, v, v', hc, hs, -, hv, hv'⟩
    · exact .inl hnone
    · exact .inr ⟨s, c, v, v', hc, ⟨hs.1, hs.2 _ (by simp) _ hv⟩, ⟨hs.1, hs.2 _ (by simp) _ hv'⟩, hv,
        hv'⟩
  · intro inp hinp
    rcases List.mem_pair.mp hinp with rfl | rfl
    · exact (ht.2 h hh).2
    · exact (ht'.2 h (hsame ▸ hh)).2

/-! ### What only has to be there -/

theorem header_part {h : Header} (hh : h ∈ r.headers) :
    ∃ front back, r.bytes = front ++ (h.bytes ++ (eol ++ back)) := by
  obtain ⟨before, after, hsplit⟩ := List.append_of_mem hh
  refine ⟨r.line ++ (eol ++ headerBytes before), headerBytes after ++ (eol ++ r.body), ?_⟩
  rw [Request.bytes, Request.head, hsplit, headerBytes, headerBytes, headerBytes,
    List.flatMap_append, List.flatMap_cons]
  simp only [List.append_assoc]

theorem name_part {h : Header} : h.name <:+: h.bytes := ⟨[], 58 :: h.value, rfl⟩

theorem value_part {h : Header} : h.value <:+: h.bytes :=
  ⟨h.name ++ [58], [], by simp [Header.bytes]⟩

theorem infix_of_header {h : Header} (hh : h ∈ r.headers) {word : Bytes}
    (hword : word <:+: h.bytes) : word <:+: r.bytes := by
  obtain ⟨front, back, hbytes⟩ := header_part hh
  exact hword.trans ⟨front, eol ++ back, by rw [hbytes, List.append_assoc]⟩

theorem named_both (hr : Rearranged r r') (hread : name ∈ readHeaders)
    (h : name <:+: r.bytes → ∃ h ∈ r.headers, h.name = name)
    (h' : name <:+: r'.bytes → ∃ h ∈ r'.headers, h.name = name) :
    name <:+: r.bytes ↔ name <:+: r'.bytes := by
  constructor
  · intro hin
    obtain ⟨h, hh, rfl⟩ := h hin
    exact infix_of_header ((rearranged_mem hr hread).mpr hh) name_part
  · intro hin
    obtain ⟨h, hh, rfl⟩ := h' hin
    exact infix_of_header ((rearranged_mem hr hread).mp hh) name_part

theorem require_both (hr : Rearranged r r') (ht : Search.require.Tidy r)
    (ht' : Search.require.Tidy r') : Search.require.Same r.bytes r'.bytes := by
  rw [Search.Same, Bool.eq_iff_iff, strstr_isSome, strstr_isSome]
  exact named_both hr (by simp [readHeaders]) ht ht'

theorem accept_both (hr : Rearranged r r') (ht : Search.accept.Tidy r)
    (ht' : Search.accept.Tidy r') : Search.accept.Same r.bytes r'.bytes := by
  have hread : hdrAccept ∈ readHeaders := by simp [readHeaders]
  have hmem : ∀ {h : Header}, h.name = hdrAccept → (h ∈ r'.headers ↔ h ∈ r.headers) :=
    fun hname => rearranged_mem hr (hname ▸ hread)
  have hsame : (strstr r.bytes hdrAccept).isSome = (strstr r'.bytes hdrAccept).isSome := by
    rw [Bool.eq_iff_iff, strstr_isSome, strstr_isSome]
    exact named_both hr hread ht.1 ht'.1
  rw [Search.Same, ← hsame]
  cases hsome : (strstr r.bytes hdrAccept).isSome with
  | false => rfl
  | true =>
    obtain ⟨h, hh, hname⟩ := ht.1 (strstr_isSome.mp hsome)
    have hsdp : (strstr r.bytes (lit "application/sdp")).isSome =
        (strstr r'.bytes (lit "application/sdp")).isSome := by
      rw [Bool.eq_iff_iff, strstr_isSome, strstr_isSome]
      constructor
      · intro hin
        obtain ⟨k, hk, hkname, hvalue⟩ := ht.2 hin ⟨h, hh, hname⟩
        exact infix_of_header ((hmem hkname).mpr hk) (hvalue.trans value_part)
      · intro hin
        obtain ⟨k, hk, hkname, hvalue⟩ := ht'.2 hin ⟨h, (hmem hname).mpr hh, hname⟩
        exact infix_of_header ((hmem hkname).mp hk) (hvalue.trans value_part)
    rw [← Option.not_isSome, ← Option.not_isSome, hsdp]

theorem agent_logged (ht : Search.agent.Tidy r) : logUserAgent r.bytes = some () := by
  unfold logUserAgent
  cases hfound : strstr r.bytes hdrUserAgent with
  | none => rfl
  | some p =>
    obtain ⟨q, hq⟩ := Option.isSome_iff_exists.mp (CString.strchr_isSome.mpr (ht p hfound))
    dsimp only
    rw [hq]
    rfl

/-! ### The request line and the first header -/

theorem bytes_eq (r : Request) :
    r.bytes = r.line ++ cr :: lf :: (headerBytes r.headers ++ (eol ++ r.body)) := by
  rw [Request.bytes, Request.head]
  simp only [eol, List.append_assoc, List.cons_append, List.nil_append]

theorem not_response (ht : Tidy made r) : RTSP_valid_response_msg r.bytes = false := by
  rw [RTSP_valid_response_msg]
  cases hword : scanWord 31 r.bytes with
  | none => rfl
  | some t =>
    dsimp only
    rw [ht.request t hword, Bool.false_and]

theorem url_line (ht : Search.url.Tidy r) : scanUrl r.bytes = scanUrl r.line := by
  obtain ⟨⟨url, rest⟩, hurl⟩ := Option.isSome_iff_exists.mp ht
  obtain ⟨⟨method, t⟩, hmethod, hscan⟩ := Option.bind_eq_some_iff.mp hurl
  rw [scanUrl, scanUrl, bytes_eq, scanAnyWord_line hmethod rfl, hmethod, Option.bind_some,
    Option.bind_some, scanWord_line hscan rfl, hscan]

theorem first_line (h : Header) (back : List Header) (body : Bytes) :
    headerBytes (h :: back) ++ (eol ++ body) =
      h.bytes ++ cr :: lf :: (headerBytes back ++ (eol ++ body)) := by
  rw [headerBytes, List.flatMap_cons]
  simp only [eol, headerBytes, List.append_assoc, List.cons_append, List.nil_append]

theorem lineFields_bytes {f : Bytes × Bytes} (h : lineFields r.line = some f) :
    lineFields r.bytes =
      some (f.1, f.2 ++ cr :: lf :: (headerBytes r.headers ++ (eol ++ r.body))) := by
  obtain ⟨t, u, t', v, hmethod, hurl, hversion⟩ := lineFields_words h
  have hcr : isSpace cr = true := rfl
  simp only [lineFields, bytes_eq, scanWord_line hmethod hcr, scanWord_line hurl hcr,
    scanWord_line hversion hcr, Option.bind_some, Option.map_some]

/-- The method and the number come from the three words of the line and what follows them. -/
theorem validate_fields (inp : Bytes) : RTSP_validate_method inp =
    (lineFields inp).bind fun f => (scanWord 15 f.2).bind fun t => (scanUnsigned t.2).bind fun n =>
      if (strstr t.1 hdrCseq).isNone then none
      else some (n.1, (methodNames.find? fun p => p.1 == f.1).map Prod.snd) := by
  unfold RTSP_validate_method lineFields
  cases scanWord 31 inp with
  | none => rfl
  | some m =>
    dsimp only [Option.bind_some]
    cases scanWord 255 m.2 with
    | none => rfl
    | some u =>
      dsimp only [Option.bind_some]
      cases scanWord 31 u.2 <;> rfl

theorem validated_first {f t : Bytes × Bytes} {h : Header} {n : ℕ × Bytes}
    (hf : lineFields r.line = some f) (hblank : ∀ c ∈ f.2, isSpace c = true)
    (hh : r.headers.head? = some h) (hname : h.name = hdrCseq)
    (ht : scanWord 15 h.bytes = some t) (hn : scanUnsigned t.2 = some n) :
    RTSP_validate_method r.bytes =
      some (n.1, (methodNames.find? fun p => p.1 == f.1).map Prod.snd) := by
  obtain ⟨word, rest⟩ := t
  obtain ⟨back, hheaders⟩ := List.head?_eq_some_iff.mp hh
  have hskip : ∀ s : Bytes, scanWord 15 (f.2 ++ cr :: lf :: s) = scanWord 15 s := by
    intro s
    rw [scanWord, scanWord, dropWhile_blank hblank]
    rfl
  have hcseq : (strstr word hdrCseq).isNone = false := by
    rw [← Option.not_isSome, Bool.not_eq_false', strstr_isSome]
    have hstarts := scanWord_eq_some.mp ht
    rw [Header.bytes, hname] at hstarts
    exact List.IsPrefix.isInfix ⟨_, hstarts.2.1⟩
  have hline := scanUnsigned_line (c := cr) rfl (scanUnsigned_nonBlank (by rw [hn]; rfl))
    (lf :: (headerBytes back ++ (eol ++ r.body)))
  rw [hn, Option.map_some] at hline
  obtain ⟨⟨n', t'⟩, hnumber, heq⟩ := Option.map_eq_some_iff.mp hline
  dsimp only at heq
  rw [validate_fields, lineFields_bytes hf, Option.bind_some]
  dsimp only
  rw [hskip, hheaders, first_line, scanWord_line ht rfl, Option.bind_some]
  dsimp only
  rw [hnumber, Option.bind_some, hcseq, if_neg Bool.false_ne_true, heq]

theorem validated_other (ht : Tidy made r) (hfirst : ¬ r.CseqFirst) :
    RTSP_validate_method r.bytes = none := by
  rw [validate_fields, Option.bind_eq_none_iff]
  intro f hf
  rw [Option.bind_eq_none_iff]
  intro t hscan
  rw [Option.bind_eq_none_iff]
  intro n hn
  by_cases hcseq : hdrCseq <:+: t.1
  · rw [ht.other hfirst f hf t hscan hcseq] at hn
    cases hn
  · rw [← strstr_isSome, Bool.not_eq_true, Option.isSome_eq_false_iff] at hcseq
    rw [hcseq, if_pos rfl]

theorem validated_isSome (ht : Tidy made r) :
    (RTSP_validate_method r.bytes).isSome = true ↔ r.CseqFirst := by
  constructor
  · intro hsome
    by_contra hfirst
    rw [ht.validated_other hfirst] at hsome
    cases hsome
  · rintro ⟨⟨f, hf, hblank⟩, h, hh, hname, t, hscan, hnumber⟩
    obtain ⟨n, hn⟩ := Option.isSome_iff_exists.mp hnumber
    rw [validated_first hf hblank hh hname hscan hn]
    rfl

theorem validated_both (hr : Rearranged r r') (ht : Tidy made r) (ht' : Tidy made r')
    (hsame : SameFirst made r r') (hfirst : r.CseqFirst ↔ r'.CseqFirst) :
    RTSP_validate_method r.bytes = RTSP_validate_method r'.bytes := by
  by_cases hf : r.CseqFirst
  · have hhead := hsame.number hf (hfirst.mp hf)
    obtain ⟨⟨f, hf, hblank⟩, h, hh, hname, t, hscan, hnumber⟩ := hf
    obtain ⟨n, hn⟩ := Option.isSome_iff_exists.mp hnumber
    rw [validated_first hf hblank hh hname hscan hn,
      validated_first (hr.line ▸ hf) hblank (hhead ▸ hh) hname hscan hn]
  · rw [ht.validated_other hf, ht'.validated_other fun hf' => hf (hfirst.mpr hf')]

theorem search_both (hr : Rearranged r r') {s : Search} (ht : s.Tidy r) (ht' : s.Tidy r')
    (hsame : ∀ name ∈ s.header, r.named name = r'.named name) : s.Same r.bytes r'.bytes := by
  cases s with
  | url => rw [Search.Same, url_line ht, url_line ht', hr.line]
  | cseq => exact (found_both ht ht'.1 (hsame _ rfl)).cseq
  | setupCseq =>
    exact (found_both (P := fun s => GoesOn s.length s) ht ht'.1 (hsame _ rfl)).setupCseq
  | session => exact (found_both ht ht'.1 (hsame _ rfl)).session
  | setupSession =>
    exact (found_both (P := fun s => GoesOn s.length s) ht ht'.1 (hsame _ rfl)).setupSession
  | transport => exact (found_both ht ht'.1 (hsame _ rfl)).transport
  | range => exact (range_both ht ht' (hsame _ rfl)).range
  | require => exact require_both hr ht ht'
  | accept => exact accept_both hr ht ht'
  | agent => rw [Search.Same, agent_logged ht, agent_logged ht']

theorem sameReads (hr : Rearranged r r') (ht : Tidy (Rtsp.searches r.bytes) r)
    (ht' : Tidy (Rtsp.searches r.bytes) r') (hsame : SameFirst (Rtsp.searches r.bytes) r r')
    (hfirst : r.CseqFirst ↔ r'.CseqFirst) : SameReads r.bytes r'.bytes where
  response := by rw [not_response ht, not_response ht']
  validated _ := validated_both hr ht ht' hsame hfirst
  found s hs := search_both hr (ht.searches s hs) (ht'.searches s hs) (hsame.named s hs)

end Tidy

/-- A PLAY of the film, and the same with its headers in another order and a further one. -/
def playOrdered : Request :=
  ⟨lit "PLAY rtsp://localhost/film.sd RTSP/1.0",
    [⟨hdrCseq, lit " 2"⟩, ⟨hdrSession, lit " 1"⟩, ⟨hdrRange, lit " npt=0-"⟩], []⟩

def playReordered : Request :=
  { playOrdered with
    headers := [⟨hdrCseq, lit " 2"⟩, ⟨hdrRange, lit " npt=0-"⟩, ⟨lit "X-Player", lit " film"⟩,
      ⟨hdrSession, lit " 1"⟩] }

/-- A DESCRIBE of the film without and with a header `Accept-Language`. -/
def askedFilm : Request :=
  ⟨lit "DESCRIBE rtsp://localhost/film.sd RTSP/1.0", [⟨hdrCseq, lit " 1"⟩], []⟩

def askedInEnglish : Request :=
  { askedFilm with
    headers := [⟨hdrCseq, lit " 1"⟩, ⟨lit "Accept-Language", lit " en"⟩] }

end Fenice.Rtsp
