import Fenice.Rtsp.HeaderOrder

/-!
# What stands behind a request in the input buffer

The string functions see `in_buffer` up to its first zero byte: the request, what was
received behind it, and what earlier messages left there.
-/

namespace Fenice.Rtsp
open Fenice.CString Fenice.Schedule Fenice.Playback

/-- `in_buffer` as a string. -/
def InBuffer.string (ib : InBuffer) : Bytes := cstr ib.bytes

/-- What the string functions see behind a message. -/
def InBuffer.behind (ib : InBuffer) (m : Bytes) : Bytes := ib.string.drop (cstr m).length

/-- The words of the request line and the word behind them end in the text, and a number would. -/
def FirstWords (s : Bytes) : Prop :=
  ∃ f ∈ lineFields s, startsNoCase (lit "RTCP/") f.1 = false ∧ GoesOn 15 f.2

/-- A text that ends in front of white space of the message. -/
def InLine (P : Bytes → Prop) (p : Bytes) : Prop :=
  ∃ s c v, p = s ++ c :: v ∧ isSpace c = true ∧ P s

/-- A name is in the message if `x` behind the message makes it be found, and what is read from
there on ends in the message. -/
def OwnHeader (P : Bytes → Prop) (name m x : Bytes) : Prop :=
  (name <:+: m ++ x → name <:+: m) ∧ ∀ p ∈ strstr m name, InLine P p

/-- What is searched for in a message with `x` behind it is in the message, and what is read there
ends in it. -/
def Search.Own (m x : Bytes) : Search → Prop
  | .url => InLine (fun s => ((scanAnyWord s).bind fun t => scanWord 254 t.2).isSome = true) m
  | .cseq => OwnHeader (GoesOn 254) hdrCseq m x
  | .setupCseq => OwnHeader (fun s => GoesOn s.length s) hdrCseq m x
  | .session => OwnHeader (GoesOn 254) hdrSession m x
  | .setupSession => OwnHeader (fun s => GoesOn s.length s) hdrSession m x
  | .transport => OwnHeader (GoesOn 10) hdrTransport m x
  | .range => (hdrRange <:+: m ++ x → hdrRange <:+: m) ∧ ∀ p ∈ strstr m hdrRange,
      InLine (fun s => RangeLine s ∧ ∀ word ∈ searchedWords s, word <:+: p ++ x → word <:+: s) p
  | .require => hdrRequire <:+: m ++ x → hdrRequire <:+: m
  | .accept => hdrAccept <:+: m ∧ ¬ lit "application/sdp" <:+: m ↔
      hdrAccept <:+: m ++ x ∧ ¬ lit "application/sdp" <:+: m ++ x
  | .agent => (hdrUserAgent <:+: m ++ x → hdrUserAgent <:+: m) ∧ ∀ p ∈ strstr m hdrUserAgent, lf ∈ p

/-- The words in front of the headers, and whatever the message is searched for, are its own. -/
structure Own (m x : Bytes) : Prop where
  line : InLine FirstWords m
  searches : ∀ s ∈ searches m, s.Own m x

/-- Nothing stands behind the message, or nothing of it is read. -/
def Alone (m : Bytes) (ib : InBuffer) : Prop := ib.behind m = [] ∨ Own (cstr m) (ib.behind m)

instance (s : Bytes) : Decidable (FirstWords s) :=
  inferInstanceAs (Decidable
    (∃ f ∈ lineFields s, startsNoCase (lit "RTCP/") f.1 = false ∧ GoesOn 15 f.2))

theorem ends_iff {P : Bytes → Prop} {p : Bytes} :
    (∃ s ∈ p.inits, (p.drop s.length).head?.any isSpace = true ∧ P s) ↔ InLine P p := by
  constructor
  · rintro ⟨s, hs, hspace, hP⟩
    obtain ⟨t, rfl⟩ := (List.mem_inits ..).mp hs
    rw [List.drop_left, Option.any_eq_true] at hspace
    obtain ⟨c, hc, hspace⟩ := hspace
    obtain ⟨v, rfl⟩ := List.head?_eq_some_iff.mp hc
    exact ⟨s, c, v, rfl, hspace, hP⟩
  · rintro ⟨s, c, v, rfl, hspace, hP⟩
    refine ⟨s, (List.mem_inits ..).mpr (List.prefix_append _ _), ?_, hP⟩
    rw [List.drop_left, List.head?_cons]
    exact hspace

instance (P : Bytes → Prop) [DecidablePred P] (p : Bytes) : Decidable (InLine P p) :=
  decidable_of_iff (∃ s ∈ p.inits, (p.drop s.length).head?.any isSpace = true ∧ P s) ends_iff

instance (P : Bytes → Prop) [DecidablePred P] (name m x : Bytes) :
    Decidable (OwnHeader P name m x) :=
  inferInstanceAs (Decidable ((name <:+: m ++ x → name <:+: m) ∧
    ∀ p ∈ strstr m name, InLine P p))

instance (m x : Bytes) (s : Search) : Decidable (s.Own m x) :=
  match s with
  | .url =>
    inferInstanceAs (Decidable
      (InLine (fun s => ((scanAnyWord s).bind fun t => scanWord 254 t.2).isSome = true) m))
  | .cseq => inferInstanceAs (Decidable (OwnHeader (GoesOn 254) hdrCseq m x))
  | .setupCseq => inferInstanceAs (Decidable (OwnHeader (fun s => GoesOn s.length s) hdrCseq m x))
  | .session => inferInstanceAs (Decidable (OwnHeader (GoesOn 254) hdrSession m x))
  | .setupSession =>
    inferInstanceAs (Decidable (OwnHeader (fun s => GoesOn s.length s) hdrSession m x))
  | .transport => inferInstanceAs (Decidable (OwnHeader (GoesOn 10) hdrTransport m x))
  | .range =>
    inferInstanceAs (Decidable ((hdrRange <:+: m ++ x → hdrRange <:+: m) ∧
      ∀ p ∈ strstr m hdrRange, InLine (fun s => RangeLine s ∧
        ∀ word ∈ searchedWords s, word <:+: p ++ x → word <:+: s) p))
  | .require => inferInstanceAs (Decidable (hdrRequire <:+: m ++ x → hdrRequire <:+: m))
  | .accept =>
    inferInstanceAs (Decidable (hdrAccept <:+: m ∧ ¬ lit "application/sdp" <:+: m ↔
      hdrAccept <:+: m ++ x ∧ ¬ lit "application/sdp" <:+: m ++ x))
  | .agent =>
    inferInstanceAs (Decidable ((hdrUserAgent <:+: m ++ x → hdrUserAgent <:+: m) ∧
      ∀ p ∈ strstr m hdrUserAgent, lf ∈ p))

instance (m x : Bytes) : Decidable (Own m x) :=
  decidable_of_iff (InLine FirstWords m ∧ ∀ s ∈ searches m, s.Own m x)
    ⟨fun ⟨h1, h2⟩ => ⟨h1, h2⟩, fun ⟨h1, h2⟩ => ⟨h1, h2⟩⟩

instance (m : Bytes) (ib : InBuffer) : Decidable (Alone m ib) :=
  inferInstanceAs (Decidable (ib.behind m = [] ∨ Own (cstr m) (ib.behind m)))

/-! ### The searches -/

section Searches

variable {m x : Bytes}

theorem OwnHeader.found {P : Bytes → Prop} {name : Bytes} (h : OwnHeader P name m x) :
    FoundAlike (fun s _ => P s) name m (m ++ x) := by
  have hfound := strstr_within h.1
  cases hp : strstr m name with
  | none =>
    rw [hp] at hfound
    exact .inl ⟨hp, hfound⟩
  | some p =>
    obtain ⟨s, c, v, rfl, hc, hP⟩ := h.2 p hp
    refine .inr ⟨s, c, v, v ++ x, hc, hP, hP, hp, ?_⟩
    rw [hfound, hp, Option.map_some, List.append_assoc, List.cons_append]

theorem range_found (h : Search.range.Own m x) : FoundAlike RangeRead hdrRange m (m ++ x) := by
  have hfound := strstr_within h.1
  cases hp : strstr m hdrRange with
  | none =>
    rw [hp] at hfound
    exact .inl ⟨hp, hfound⟩
  | some p =>
    obtain ⟨s, c, v, rfl, hc, hl, hin⟩ := h.2 p hp
    have hin' : ∀ word ∈ searchedWords s, word <:+: s ++ c :: v → word <:+: s := by
      intro word hword hv
      exact hin word hword (hv.trans (List.prefix_append _ _).isInfix)
    rw [List.append_assoc, List.cons_append] at hin
    refine .inr ⟨s, c, v, v ++ x, hc, ⟨hl, hin'⟩, ⟨hl, hin⟩, hp, ?_⟩
    rw [hfound, hp, Option.map_some, List.append_assoc, List.cons_append]

theorem require_own (h : Search.require.Own m x) : Search.require.Same m (m ++ x) := by
  rw [Search.Same, strstr_within h, Option.isSome_map]

theorem accept_own (h : Search.accept.Own m x) : Search.accept.Same m (m ++ x) := by
  rw [Search.Own, ← strstr_isSome, ← strstr_isSome, ← strstr_isSome, ← strstr_isSome] at h
  rw [Search.Same, Bool.eq_iff_iff, Bool.and_eq_true, Bool.and_eq_true, ← Option.not_isSome,
    ← Option.not_isSome, Bool.not_eq_true', Bool.not_eq_true', ← Bool.not_eq_true,
    ← Bool.not_eq_true]
  exact h

theorem agent_own (h : Search.agent.Own m x) : Search.agent.Same m (m ++ x) := by
  rw [Search.Same, logUserAgent, logUserAgent, strstr_within h.1]
  cases hp : strstr m hdrUserAgent with
  | none => rfl
  | some p =>
    obtain ⟨q, hq⟩ := Option.isSome_iff_exists.mp (CString.strchr_isSome.mpr (h.2 p hp))
    rw [Option.map_some]
    dsimp only
    rw [strchr_append hq, hq]
    rfl

theorem url_own (h : Search.url.Own m x) : Search.url.Same m (m ++ x) := by
  obtain ⟨s, c, v, rfl, hc, hs⟩ := h
  obtain ⟨⟨url, rest⟩, hurl⟩ := Option.isSome_iff_exists.mp hs
  obtain ⟨⟨method, t⟩, hmethod, hscan⟩ := Option.bind_eq_some_iff.mp hurl
  rw [Search.Same, List.append_assoc, List.cons_append]
  simp only [scanUrl, scanAnyWord_line hmethod hc, scanWord_line hscan hc, Option.bind_some]

theorem search_own {s : Search} (h : s.Own m x) : s.Same m (m ++ x) := by
  cases s with
  | url => exact url_own h
  | cseq => exact (OwnHeader.found h).cseq
  | setupCseq => exact (OwnHeader.found (P := fun s => GoesOn s.length s) h).setupCseq
  | session => exact (OwnHeader.found h).session
  | setupSession => exact (OwnHeader.found (P := fun s => GoesOn s.length s) h).setupSession
  | transport => exact (OwnHeader.found h).transport
  | range => exact (range_found h).range
  | require => exact require_own h
  | accept => exact accept_own h
  | agent => exact agent_own h

end Searches

/-! ### The request line -/

theorem firstWords_read {s : Bytes} (h : FirstWords s) {c : UInt8} (hc : isSpace c = true)
    (y y' : Bytes) :
    RTSP_validate_method (s ++ c :: y) = RTSP_validate_method (s ++ c :: y') ∧
      RTSP_valid_response_msg (s ++ c :: y) = RTSP_valid_response_msg (s ++ c :: y') := by
  obtain ⟨f, hfields, hrtcp, ⟨hdr, rest⟩, hhdr, hrest⟩ := h
  obtain ⟨t, u, t', v, hmethod, hurl, hversion⟩ := lineFields_words hfields
  have hseq : (scanUnsigned (rest ++ c :: y)).map Prod.fst =
      (scanUnsigned (rest ++ c :: y')).map Prod.fst := by
    rw [scanUnsigned_line hc hrest, scanUnsigned_line hc hrest]
  constructor
  · simp only [RTSP_validate_method, scanWord_line hmethod hc, scanWord_line hurl hc,
      scanWord_line hversion hc, scanWord_line hhdr hc, Option.bind_some]
    cases hn : scanUnsigned (rest ++ c :: y) with
    | none =>
      rw [hn, Option.map_none, eq_comm, Option.map_eq_none_iff] at hseq
      rw [hseq]
    | some n =>
      rw [hn, Option.map_some, eq_comm, Option.map_eq_some_iff] at hseq
      obtain ⟨n', hn', heq⟩ := hseq
      rw [hn', Option.bind_some, Option.bind_some, heq]
  · simp only [RTSP_valid_response_msg, scanWord_line hmethod hc, hrtcp, Bool.false_and]

theorem Own.sameReads {m x : Bytes} (h : Own m x) : SameReads m (m ++ x) := by
  obtain ⟨s, c, v, hm, hc, hfirst⟩ := h.line
  have hread : RTSP_validate_method m = RTSP_validate_method (m ++ x) ∧
      RTSP_valid_response_msg m = RTSP_valid_response_msg (m ++ x) := by
    rw [hm, List.append_assoc, List.cons_append]
    exact firstWords_read hfirst hc _ _
  exact ⟨hread.2, fun _ => hread.1, fun s hs => search_own (h.searches s hs)⟩

/-! ### Two histories of the buffer -/

theorem string_eq {m : Bytes} {ib : InBuffer} (h : m <+: ib.bytes) :
    ib.string = cstr m ++ ib.behind m := by
  have hpre : cstr m <+: ib.string := by
    obtain ⟨x, hx⟩ := h
    rw [InBuffer.string, ← hx, cstr, cstr, List.takeWhile_append]
    split_ifs with hall
    · have hwhole : m.takeWhile (· != 0) = m :=
        (List.takeWhile_prefix _).eq_of_length hall
      rw [hwhole]
      exact List.prefix_append _ _
    · exact List.prefix_rfl
  obtain ⟨y, hy⟩ := hpre
  rw [InBuffer.behind, ← hy, List.drop_left]

theorem alone_reads {m : Bytes} {ib : InBuffer} (h : m <+: ib.bytes) (ha : Alone m ib) :
    SameReads (cstr m) ib.string := by
  rw [string_eq h]
  rcases ha with hnone | hown
  · rw [hnone, List.append_nil]
    exact .refl _
  · exact hown.sameReads

/-- A SETUP of the film, alone, in front of a request, and in front of one that requires
something. -/
def setupFilm : Request :=
  ⟨lit "SETUP rtsp://localhost/film.sd!v.mpg RTSP/1.0",
    [⟨hdrCseq, lit " 1"⟩, ⟨hdrTransport, lit " RTP/AVP;unicast;client_port=3000-3001"⟩], []⟩

def optionsNext : Request := ⟨lit "OPTIONS * RTSP/1.0", [⟨hdrCseq, lit " 2"⟩], []⟩

def heard (chunk : Bytes) (h : chunk.length ≤ bufferSize) : InBuffer :=
  InBuffer.empty.append chunk (by rw [InBuffer.empty, Nat.zero_add]; exact h)

def requiresNext : Request :=
  { optionsNext with headers := [⟨hdrCseq, lit " 2"⟩, ⟨hdrRequire, lit " play.speed"⟩] }

end Fenice.Rtsp
