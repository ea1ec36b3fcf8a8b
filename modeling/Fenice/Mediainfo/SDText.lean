import Fenice.Lib.CStores
import Fenice.Mediainfo.SDFile

/-!
# Where the texts of an SD file go (parse_SD_file.c)

For each line that `parse_SD_file` looks at, what its conversions put into the arrays of the
descriptor and of the stream, and what the loops for `TITLE` and `CREATOR` read and copy. The
keyword of a line is that of an earlier one if the line is blank.
-/

namespace Fenice.Mediainfo
open Fenice.CString Fenice.Schedule

/-! ### The lines that are looked at -/

section
variable {σ : Type} (stop : Bytes) (body : Scan → σ → Option σ)

/-- The states in which `keywordLoop` runs its body, up to one in which the body goes wrong. -/
def keywordScans : List Bytes → Scan → σ → List Scan
  | [], sc, _ =>
    if eqNoCase sc.keyword stop || sc.eof then [] else (sc.fgets none).readKeyword.toList
  | chunk :: rest, sc, x =>
    if eqNoCase sc.keyword stop || sc.eof then []
    else
      match (sc.fgets (some chunk)).readKeyword with
      | none => []
      | some sc =>
        sc :: match body sc x with
          | none => []
          | some x => keywordScans rest sc x

end

/-- A line in front of a stream or of one. -/
structure Visit where
  stream : Bool
  sc : Scan

section
variable {δ : Type} (load : Loader) (put : δ → Item → δ)

/-- The lines that `parseStreams` looks at. -/
def streamVisits : ℕ → List Bytes → Scan → Option Bytes → Bool → δ → List Visit
  | 0, _, _, _, _, _ => []
  | fuel + 1, chunks, sc, sparam, first, d =>
    (keywordScans (lit "STREAM") (headLine put) chunks { sc with keyword := [] } d).map
        (⟨false, ·⟩) ++
      match keywordLoop (lit "STREAM") (headLine put) chunks { sc with keyword := [] } d with
      | none => []
      | some (chunks, sc, d) =>
        if sc.eof then []
        else
          (keywordScans (lit "STREAM_END") streamLine chunks { sc with keyword := [] }
              ⟨{}, sparam⟩).map (⟨true, ·⟩) ++
            match keywordLoop (lit "STREAM_END") streamLine chunks { sc with keyword := [] }
              ⟨{}, sparam⟩ with
            | none => []
            | some (chunks, sc, s) =>
              match validate_stream load s.p with
              | some (.ok p) =>
                if sc.eof then []
                else streamVisits fuel chunks sc s.sparam false (put d (.stream first p))
              | _ => []

/-- The lines that `parseText` looks at. -/
def textVisits (text : Bytes) (d : δ) : List Visit :=
  let chunks := lineChunks text.length text
  streamVisits load put (chunks.length + 1) chunks ⟨.fresh, [], false⟩ none true d

end

/-! ### What is stored -/

/-- The arrays behind the word in front of a value; numbers are not put in arrays. -/
def headArrays : List (Bytes × Conversion) :=
  [(lit "TWIN", .word none 255), (lit "MULTICAST", .word none 16)]

/-- `filename`, `encoding_name`, `aggregate`, `sparam`, `commons_dead` and `rdf_page`. -/
def streamArrays : List (Bytes × Conversion) :=
  [(lit "FILE_NAME", .word (some 255) 255), (lit "ENCODING_NAME", .word (some 10) 11),
    (lit "AGGREGATE", .word (some 50) 50), (lit "CODING_TYPE", .word (some 10) 10),
    (lit "MEDIA_SOURCE", .word (some 10) 10), (lit "LICENSE", .word none 255),
    (lit "VERIFY", .word none 255)]

/-- The fixed places from which `title` and `author` are copied. -/
def textColumns : List (Bytes × ℕ) := [(lit "TITLE", 7), (lit "CREATOR", 9)]

/-- What the loop has copied at the newline, or at the end of the array. -/
def copied (start : ℕ) (line : Line) : Line := (line.drop start).takeWhile (· != some lf)

/-- The elements of `line` that the loop reads. -/
def copyReads (start : ℕ) (line : Line) : List ℕ :=
  (List.range ((copied start line).length + 1)).map (start + ·)

namespace Visit

/-- `keyword` and `trash`, the array of the keyword, and `title` or `author`. -/
def stores (v : Visit) (t : Bytes) : List Store :=
  scanStores [.word none 80] t ++
    ((if v.stream then streamArrays else headArrays).flatMap fun a =>
      if eqNoCase v.sc.keyword a.1 then scanStores [.word none 80, a.2] t else []) ++
    if v.stream then
      textColumns.flatMap fun c =>
        if eqNoCase v.sc.keyword c.1 then [⟨(copied c.2 v.sc.line).length + 1, 80⟩] else []
    else []

end Visit

/-- The text behind a keyword, if the line begins with it. -/
def textBehind (keyword t : Bytes) : Option Bytes :=
  match scanAnyWord t with
  | none => none
  | some (word, rest) =>
    if eqNoCase word keyword then some ((rest.dropWhile isBlank).takeWhile (· != lf)) else none

/-- The loop stays in the string that `fgets` has read, and copies what stands behind the
keyword. -/
structure Copies (keyword : Bytes) (start : ℕ) (line : Line) (t : Bytes) : Prop where
  within : ∀ i ∈ copyReads start line, i ≤ t.length
  value : ∃ text, Line.untilNewline (line.drop start) = some text ∧
    textBehind keyword t = some (cstr text)

/-- Everything is put where it belongs. -/
structure Visit.Lands (v : Visit) (t : Bytes) : Prop where
  fit : AllFit (v.stores t)
  copies : v.stream = true → ∀ c ∈ textColumns, eqNoCase v.sc.keyword c.1 = true →
    Copies c.1 c.2 v.sc.line t

/-! ### The lines that are well placed -/

/-- The arrays that are too short for what their conversions allow. -/
def tightArrays (stream : Bool) : List (Bytes × ℕ) :=
  if stream then [(lit "AGGREGATE", 50), (lit "CODING_TYPE", 10), (lit "MEDIA_SOURCE", 10)]
  else [(lit "MULTICAST", 16)]

/-- The line begins with the keyword, its text begins at the place that the loop expects, and
a newline ends it. -/
structure TextPlaced (keyword : Bytes) (start : ℕ) (t : Bytes) : Prop where
  newline : lf ∈ t.drop start
  column : ∃ word rest, scanAnyWord t = some (word, rest) ∧ eqNoCase word keyword = true ∧
    t.length = start + (rest.dropWhile isBlank).length

structure Visit.Placed (v : Visit) (t : Bytes) : Prop where
  short : ∀ a ∈ tightArrays v.stream, eqNoCase v.sc.keyword a.1 = true →
    ∀ word ∈ secondWord t, word.length < a.2
  text : v.stream = true → ∀ c ∈ textColumns, eqNoCase v.sc.keyword c.1 = true →
    TextPlaced c.1 c.2 t

/-! ### What `fgets` leaves in the array -/

/-- A string of one line, in an array of 80 bytes. -/
structure LineOf (line : Line) (t : Bytes) : Prop where
  text : line.text = some t
  shape : ∃ stale, line = t.map some ++ some 0 :: stale
  size : line.length = 80
  oneLine : lf ∉ t.dropLast

/-- What `fgets` reads at once. -/
structure Piece (chunk : Bytes) : Prop where
  short : chunk.length ≤ 79
  oneLine : lf ∉ chunk.dropLast

theorem text_append {t : Bytes} (h : 0 ∉ t) (stale : Line) :
    Line.text (t.map some ++ some 0 :: stale) = some t := by
  induction t with
  | nil => rfl
  | cons c t ih =>
    have hc : c ≠ 0 := fun he => h (he ▸ List.mem_cons_self ..)
    rw [List.map_cons, List.cons_append, Line.text, if_neg hc,
      ih fun ht => h (List.mem_cons_of_mem _ ht)]
    rfl

theorem lineChunk_piece (n : ℕ) (s : Bytes) :
    (lineChunk n s).length ≤ n ∧ lf ∉ (lineChunk n s).dropLast := by
  induction n generalizing s with
  | zero => exact ⟨Nat.le_refl _, List.not_mem_nil⟩
  | succ n ih =>
    cases s with
    | nil => exact ⟨Nat.zero_le _, List.not_mem_nil⟩
    | cons c s =>
      rw [lineChunk]
      split
      · exact ⟨by rw [List.length_singleton]; omega, List.not_mem_nil⟩
      · rename_i hc
        obtain ⟨hlen, hone⟩ := ih s
        refine ⟨Nat.succ_le_succ hlen, ?_⟩
        intro hmem
        cases hs : lineChunk n s with
        | nil =>
          rw [hs] at hmem
          cases hmem
        | cons c' s' =>
          rw [hs, List.dropLast_cons_cons, ← hs] at hmem
          rcases List.mem_cons.mp hmem with he | hmem
          · exact hc he.symm
          · exact hone hmem

theorem lineChunks_piece {fuel : ℕ} {s : Bytes} : ∀ chunk ∈ lineChunks fuel s, Piece chunk := by
  induction fuel generalizing s with
  | zero => exact fun chunk h => absurd h List.not_mem_nil
  | succ fuel ih =>
    intro chunk h
    rw [lineChunks] at h
    split at h
    · cases h
    · rcases List.mem_cons.mp h with rfl | h
      · exact ⟨(lineChunk_piece 79 s).1, (lineChunk_piece 79 s).2⟩
      · exact ih chunk h

/-- The array is as at the start, or holds a line. -/
def Holds (line : Line) : Prop := line = .fresh ∨ ∃ t, LineOf line t

theorem Holds.size {line : Line} (h : Holds line) : line.length = 80 := by
  rcases h with rfl | ⟨t, ht⟩
  · exact List.length_replicate
  · exact ht.size

theorem fgets_line {chunk : Bytes} (hp : Piece chunk) {sc : Scan} (hs : sc.line.length = 80) :
    ∃ t, LineOf (sc.fgets (some chunk)).line t := by
  have hsplit : ∃ more, chunk ++ [0] = cstr chunk ++ 0 :: more := by
    have hboth := List.takeWhile_append_dropWhile (p := (· != 0)) (l := chunk)
    cases hd : chunk.dropWhile (· != 0) with
    | nil =>
      rw [hd, List.append_nil] at hboth
      exact ⟨[], by rw [cstr, hboth]⟩
    | cons c more =>
      have hc := List.head?_dropWhile_not (· != 0) chunk
      rw [hd] at hc
      have hc : c = 0 := by simpa using hc
      rw [hd, hc] at hboth
      refine ⟨more ++ [0], ?_⟩
      rw [cstr]
      conv_lhs => rw [← hboth]
      rw [List.append_assoc]
      rfl
  obtain ⟨more, hmore⟩ := hsplit
  have hzero : 0 ∉ cstr chunk := by
    intro h
    have := List.mem_takeWhile_imp h
    simp at this
  have hshape : (sc.fgets (some chunk)).line =
      (cstr chunk).map some ++ some 0 :: (more.map some ++ sc.line.drop (chunk.length + 1)) := by
    rw [Scan.fgets, hmore, List.map_append, List.append_assoc]
    rfl
  refine ⟨cstr chunk, ?_, ⟨_, hshape⟩, ?_, ?_⟩
  · rw [hshape]
    exact text_append hzero _
  · have := hp.short
    simp only [Scan.fgets, List.length_append, List.length_map, List.length_singleton,
      List.length_drop, hs]
    omega
  · intro h
    have hpre : cstr chunk <+: chunk := List.takeWhile_prefix _
    obtain ⟨rest, hrest⟩ := hpre
    apply hp.oneLine
    rw [← hrest]
    cases rest with
    | nil => rwa [List.append_nil]
    | cons c rest =>
      rw [List.dropLast_append_of_ne_nil (List.cons_ne_nil _ _)]
      exact List.mem_append_left _ (List.dropLast_subset _ h)

theorem readKeyword_line {sc sc' : Scan} (h : sc.readKeyword = some sc') : sc'.line = sc.line := by
  obtain ⟨t, _, rfl⟩ := Option.map_eq_some_iff.mp h
  split <;> rfl

theorem readKeyword_lineOf {sc sc' : Scan} (hs : Holds sc.line) (h : sc.readKeyword = some sc') :
    ∃ t, LineOf sc'.line t := by
  rw [readKeyword_line h]
  rcases hs with hfresh | hline
  · obtain ⟨t, ht, _⟩ := Option.map_eq_some_iff.mp h
    rw [hfresh] at ht
    cases ht
  · exact hline

section
variable {σ : Type} {stop : Bytes} {body : Scan → σ → Option σ}

theorem keywordLoop_holds {chunks chunks' : List Bytes} {sc sc' : Scan} {x y : σ}
    (hp : ∀ c ∈ chunks, Piece c) (hs : Holds sc.line)
    (h : keywordLoop stop body chunks sc x = some (chunks', sc', y)) :
    (∀ c ∈ chunks', Piece c) ∧ Holds sc'.line := by
  induction chunks generalizing sc x with
  | nil =>
    unfold keywordLoop at h
    split at h
    · cases h
      exact ⟨hp, hs⟩
    · obtain ⟨sc₁, hread, h⟩ := Option.bind_eq_some_iff.mp h
      obtain ⟨z, -, h⟩ := Option.map_eq_some_iff.mp h
      cases h
      have hlast : Holds (sc.fgets none).line := hs
      exact ⟨hp, .inr (readKeyword_lineOf hlast hread)⟩
  | cons chunk rest ih =>
    unfold keywordLoop at h
    split at h
    · cases h
      exact ⟨hp, hs⟩
    · obtain ⟨sc₁, hread, h⟩ := Option.bind_eq_some_iff.mp h
      obtain ⟨z, -, h⟩ := Option.bind_eq_some_iff.mp h
      obtain ⟨hchunk, hrest⟩ := List.forall_mem_cons.mp hp
      have hline := readKeyword_lineOf (.inr (fgets_line hchunk hs.size)) hread
      exact ih hrest (.inr hline) h

theorem keywordScans_lineOf {chunks : List Bytes} {sc : Scan} {x : σ}
    (hp : ∀ c ∈ chunks, Piece c) (hs : Holds sc.line) :
    ∀ sc' ∈ keywordScans stop body chunks sc x, ∃ t, LineOf sc'.line t := by
  induction chunks generalizing sc x with
  | nil =>
    intro sc' h
    unfold keywordScans at h
    split at h
    · cases h
    · have hlast : Holds (sc.fgets none).line := hs
      exact readKeyword_lineOf hlast (Option.mem_toList.mp h)
  | cons chunk rest ih =>
    intro sc' h
    obtain ⟨hchunk, hrest⟩ := List.forall_mem_cons.mp hp
    unfold keywordScans at h
    split at h
    · cases h
    · split at h
      · cases h
      · rename_i sc₁ hread
        have hline := readKeyword_lineOf (.inr (fgets_line hchunk hs.size)) hread
        rcases List.mem_cons.mp h with rfl | h
        · exact hline
        · split at h
          · cases h
          · exact ih hrest (.inr hline) sc' h

end

theorem streamVisits_lineOf {δ : Type} {load : Loader} {put : δ → Item → δ} {fuel : ℕ}
    {chunks : List Bytes} {sc : Scan} {sparam : Option Bytes} {first : Bool} {d : δ}
    (hp : ∀ c ∈ chunks, Piece c) (hs : Holds sc.line) :
    ∀ v ∈ streamVisits load put fuel chunks sc sparam first d, ∃ t, LineOf v.sc.line t := by
  induction fuel generalizing chunks sc sparam first d with
  | zero => exact fun v h => absurd h List.not_mem_nil
  | succ fuel ih =>
    intro v h
    have hs₀ : Holds { sc with keyword := [] }.line := hs
    unfold streamVisits at h
    rcases List.mem_append.mp h with h | h
    · obtain ⟨sc', hsc', rfl⟩ := List.mem_map.mp h
      exact keywordScans_lineOf hp hs₀ sc' hsc'
    · split at h
      · cases h
      · rename_i chunks₁ sc₁ d₁ hhead
        obtain ⟨hp₁, hs₁⟩ := keywordLoop_holds hp hs₀ hhead
        have hs₁' : Holds { sc₁ with keyword := [] }.line := hs₁
        split at h
        · cases h
        · rcases List.mem_append.mp h with h | h
          · obtain ⟨sc', hsc', rfl⟩ := List.mem_map.mp h
            exact keywordScans_lineOf hp₁ hs₁' sc' hsc'
          · split at h
            · cases h
            · rename_i chunks₂ sc₂ s hstream
              obtain ⟨hp₂, hs₂⟩ := keywordLoop_holds hp₁ hs₁' hstream
              split at h
              · split at h
                · cases h
                · exact ih hp₂ hs₂ v h
              · cases h

theorem textVisits_lineOf {δ : Type} {load : Loader} {put : δ → Item → δ} {text : Bytes} {d : δ} :
    ∀ v ∈ textVisits load put text d, ∃ t, LineOf v.sc.line t :=
  streamVisits_lineOf lineChunks_piece (.inl rfl)

/-! ### The copies -/

theorem LineOf.zero_notMem {line : Line} {t : Bytes} (h : LineOf line t) : 0 ∉ t := by
  have htext := h.text
  clear h
  induction line generalizing t with
  | nil => cases htext
  | cons c line ih =>
    cases c with
    | none => cases htext
    | some c =>
      rw [Line.text] at htext
      split at htext
      · cases htext
        exact List.not_mem_nil
      · rename_i hc
        obtain ⟨u, hu, rfl⟩ := Option.map_eq_some_iff.mp htext
        intro h
        rcases List.mem_cons.mp h with h | h
        · exact hc h.symm
        · exact ih hu h

theorem LineOf.length_lt {line : Line} {t : Bytes} (h : LineOf line t) : t.length < 80 := by
  obtain ⟨stale, rfl⟩ := h.shape
  have := h.size
  simp only [List.length_append, List.length_map, List.length_cons] at this
  omega

theorem copied_newline {u : Bytes} (h : lf ∈ u) (rest : Line) :
    (u.map some ++ rest).takeWhile (· != some lf) = (u.takeWhile (· != lf)).map some ∧
      (u.takeWhile (· != lf)).length < u.length ∧
      Line.untilNewline (u.map some ++ rest) = some (u.takeWhile (· != lf)) := by
  induction u with
  | nil => cases h
  | cons c u ih =>
    by_cases hc : c = lf
    · rw [hc]
      refine ⟨rfl, by simp, ?_⟩
      rw [List.map_cons, List.cons_append, Line.untilNewline, if_pos rfl]
      rfl
    · have hmem : lf ∈ u := (List.mem_cons.mp h).resolve_left fun he => hc he.symm
      obtain ⟨hcopied, hlen, huntil⟩ := ih hmem
      have hne : (some c != some lf) = true := by simpa using hc
      have hne' : (c != lf) = true := by simpa using hc
      rw [List.map_cons, List.cons_append, @List.takeWhile_cons_of_pos _ (· != some lf) _ _ hne,
        @List.takeWhile_cons_of_pos _ (· != lf) _ _ hne', hcopied, Line.untilNewline, if_neg hc, huntil]
      refine ⟨rfl, ?_, rfl⟩
      simpa using hlen

theorem copied_past {u : Bytes} (h : lf ∉ u) (rest : Line) :
    u.length < ((u.map some ++ some 0 :: rest).takeWhile (· != some lf)).length := by
  induction u with
  | nil => simp [lf]
  | cons c u ih =>
    have hc : (some c != some lf) = true := by
      simpa using fun he : c = lf => h (he ▸ List.mem_cons_self ..)
    rw [List.map_cons, List.cons_append, @List.takeWhile_cons_of_pos _ (· != some lf) _ _ hc, List.length_cons,
      List.length_cons]
    exact Nat.succ_lt_succ (ih fun hm => h (List.mem_cons_of_mem _ hm))

theorem LineOf.within_iff {line : Line} {t : Bytes} (h : LineOf line t) (start : ℕ) :
    (∀ i ∈ copyReads start line, i ≤ t.length) ↔ lf ∈ t.drop start := by
  obtain ⟨stale, rfl⟩ := h.shape
  have hreads : (∀ i ∈ copyReads start (t.map some ++ some 0 :: stale), i ≤ t.length) ↔
      start + (copied start (t.map some ++ some 0 :: stale)).length ≤ t.length := by
    simp only [copyReads, List.mem_map, List.mem_range, forall_exists_index, and_imp,
      forall_apply_eq_imp_iff₂]
    exact ⟨fun hall => hall _ (Nat.lt_succ_self _), fun hle i hi => by omega⟩
  rw [hreads]
  by_cases hstart : start ≤ t.length
  · have hdrop : (t.map some ++ some 0 :: stale).drop start =
        (t.drop start).map some ++ some 0 :: stale := by
      rw [List.drop_append_of_le_length (by rwa [List.length_map]), List.map_drop]
    rw [copied, hdrop]
    have hlen : (t.drop start).length = t.length - start := List.length_drop
    constructor
    · intro hle
      by_contra hnot
      have := copied_past hnot stale
      omega
    · intro hmem
      obtain ⟨hcopied, hlt, -⟩ := copied_newline hmem (some 0 :: stale)
      rw [hcopied, List.length_map]
      omega
  · rw [List.drop_eq_nil_of_le (by omega)]
    exact ⟨fun hle => by omega, fun hmem => by cases hmem⟩

theorem cstr_self {u : Bytes} (h : 0 ∉ u) : cstr u = u :=
  List.takeWhile_eq_self_iff.mpr fun _ hc => bne_iff_ne.mpr fun he => h (he ▸ hc)

theorem LineOf.untilNewline {line : Line} {t : Bytes} (h : LineOf line t) {start : ℕ}
    (hn : lf ∈ t.drop start) : ∃ text, Line.untilNewline (line.drop start) = some text ∧
      cstr text = (t.drop start).takeWhile (· != lf) := by
  have hzero := h.zero_notMem
  obtain ⟨stale, rfl⟩ := h.shape
  have hstart : start ≤ t.length := by
    by_contra hlt
    rw [List.drop_eq_nil_of_le (by omega)] at hn
    cases hn
  have hdrop : (t.map some ++ some 0 :: stale).drop start =
      (t.drop start).map some ++ some 0 :: stale := by
    rw [List.drop_append_of_le_length (by rwa [List.length_map]), List.map_drop]
  rw [hdrop, (copied_newline hn _).2.2]
  refine ⟨_, rfl, cstr_self fun hmem => hzero ?_⟩
  exact List.mem_of_mem_drop ((List.takeWhile_prefix _).subset hmem)

theorem takeWhile_lf {t v : Bytes} (hone : lf ∉ t.dropLast) (hv : v <:+ t) (hmem : lf ∈ v) :
    v.takeWhile (· != lf) = v.dropLast := by
  obtain ⟨front, rfl⟩ := hv
  have hne : v ≠ [] := List.ne_nil_of_mem hmem
  have hdrop : lf ∉ v.dropLast := by
    intro h
    apply hone
    rw [List.dropLast_append_of_ne_nil hne]
    exact List.mem_append_right _ h
  have hlast : v.dropLast ++ [lf] = v := by
    have hsplit := List.dropLast_append_getLast hne
    rw [← hsplit] at hmem
    rcases List.mem_append.mp hmem with h | h
    · exact absurd h hdrop
    · rw [List.mem_singleton.mp h]
      exact hsplit
  conv_lhs => rw [← hlast]
  rw [List.takeWhile_append_of_pos, List.takeWhile_cons_of_neg (by simp), List.append_nil]
  intro c hc
  exact bne_iff_ne.mpr fun he => hdrop (he ▸ hc)

/-- The word of a conversion and the blanks in front of it are no newline at the end of a line. -/
theorem scanAnyWord_newline {t word rest : Bytes} (hone : lf ∉ t.dropLast) (hmem : lf ∈ t)
    (h : scanAnyWord t = some (word, rest)) : rest <:+ t ∧ lf ∈ rest := by
  simp only [scanAnyWord, scanWord, Option.ite_none_left_eq_some, Option.some.injEq,
    Prod.mk.injEq] at h
  obtain ⟨hne, rfl, rfl⟩ := h
  have hsuffix : t.dropWhile isSpace <:+ t := List.dropWhile_suffix _
  refine ⟨(List.drop_suffix _ _).trans hsuffix, ?_⟩
  obtain ⟨u, hu⟩ : ∃ u, u = t.dropWhile isSpace := ⟨_, rfl⟩
  rw [← hu] at hne hsuffix ⊢
  have htake : u.take t.length = u := List.take_of_length_le hsuffix.length_le
  rw [htake] at hne ⊢
  obtain ⟨front, hfront⟩ := hsuffix
  have hune : u ≠ [] := by
    rintro rfl
    exact hne rfl
  -- the newline is the last byte, and a word has none
  have hlast : u.getLast hune = lf := by
    have hsplit := List.dropLast_append_getLast hune
    rw [← hfront, List.dropLast_append_of_ne_nil hune] at hone
    rw [← hfront] at hmem
    rcases List.mem_append.mp hmem with hm | hm
    · exact absurd (List.mem_append_left _ hm) hone
    · rw [← hsplit] at hm
      rcases List.mem_append.mp hm with hm | hm
      · exact absurd (List.mem_append_right _ hm) hone
      · exact (List.mem_singleton.mp hm).symm
  have hlf : lf ∈ u := hlast ▸ List.getLast_mem hune
  rw [← List.takeWhile_append_dropWhile (p := fun c => !isSpace c) (l := u)] at hlf
  rcases List.mem_append.mp hlf with hm | hm
  · have hspace := @List.mem_takeWhile_imp _ (fun c => !isSpace c) _ _ hm
    cases hspace
  · have hdrop := congrArg (List.drop (u.takeWhile fun c => !isSpace c).length)
      (@List.takeWhile_append_dropWhile _ (fun c => !isSpace c) u)
    rw [List.drop_left] at hdrop
    rw [← hdrop]
    exact hm

theorem mem_dropWhile_blank {u : Bytes} (h : lf ∈ u) : lf ∈ u.dropWhile isBlank := by
  rw [← List.takeWhile_append_dropWhile (p := isBlank) (l := u)] at h
  rcases List.mem_append.mp h with h | h
  · have hblank : isBlank lf = true := List.mem_takeWhile_imp h
    cases hblank
  · exact h

theorem textBehind_eq_some {keyword t text : Bytes} : textBehind keyword t = some text ↔
    ∃ word rest, scanAnyWord t = some (word, rest) ∧ eqNoCase word keyword = true ∧
      (rest.dropWhile isBlank).takeWhile (· != lf) = text := by
  unfold textBehind
  cases scanAnyWord t with
  | none => simp
  | some p =>
    obtain ⟨word, rest⟩ := p
    simp

/-- The loop copies the text of the keyword iff the text begins where the loop does. -/
theorem LineOf.copies_iff {line : Line} {t : Bytes} (h : LineOf line t) (keyword : Bytes)
    (start : ℕ) : Copies keyword start line t ↔ TextPlaced keyword start t := by
  have hlengths : ∀ {word rest}, lf ∈ t.drop start → scanAnyWord t = some (word, rest) →
      ((rest.dropWhile isBlank).takeWhile (· != lf) = (t.drop start).takeWhile (· != lf) ↔
        t.length = start + (rest.dropWhile isBlank).length) := by
    intro word rest hn hscan
    have hsuffix := List.drop_suffix start t
    obtain ⟨hrest, hlf⟩ := scanAnyWord_newline h.oneLine (List.mem_of_mem_drop hn) hscan
    have hvalue : rest.dropWhile isBlank <:+ t := (List.dropWhile_suffix _).trans hrest
    have hvlf := mem_dropWhile_blank hlf
    have hvpos := List.length_pos_of_mem hvlf
    have hnpos := List.length_pos_of_mem hn
    have hdrop : (t.drop start).length = t.length - start := List.length_drop
    rw [takeWhile_lf h.oneLine hvalue hvlf, takeWhile_lf h.oneLine hsuffix hn]
    constructor
    · intro he
      have hlen := congrArg List.length he
      rw [List.length_dropLast, List.length_dropLast] at hlen
      omega
    · intro hlen
      have hsame : (rest.dropWhile isBlank).length = (t.drop start).length := by omega
      have hle := List.suffix_of_suffix_length_le hvalue hsuffix (Nat.le_of_eq hsame)
      rw [hle.eq_of_length hsame]
  constructor
  · intro hc
    have hn := (h.within_iff start).mp hc.within
    obtain ⟨text, htext, hvalue⟩ := hc.value
    obtain ⟨text', htext', hcstr⟩ := h.untilNewline hn
    rw [htext] at htext'
    cases htext'
    obtain ⟨word, rest, hscan, hkeyword, htake⟩ := textBehind_eq_some.mp hvalue
    rw [hcstr] at htake
    exact ⟨hn, word, rest, hscan, hkeyword, (hlengths hn hscan).mp htake⟩
  · rintro ⟨hn, word, rest, hscan, hkeyword, hlen⟩
    obtain ⟨text, htext, hcstr⟩ := h.untilNewline hn
    refine ⟨(h.within_iff start).mpr hn, text, htext, textBehind_eq_some.mpr ?_⟩
    refine ⟨word, rest, hscan, hkeyword, ?_⟩
    rw [hcstr]
    exact (hlengths hn hscan).mpr hlen

/-! ### What fits -/

theorem forall_scanWord {width : ℕ} {s : Bytes} {P : ℕ → Prop} :
    (∀ p ∈ scanWord width s, P p.1.length) ↔
      0 < min width ((s.dropWhile isSpace).takeWhile fun c => !isSpace c).length →
        P (min width ((s.dropWhile isSpace).takeWhile fun c => !isSpace c).length) := by
  have hlen : (((s.dropWhile isSpace).take width).takeWhile fun c => !isSpace c).length =
      min width ((s.dropWhile isSpace).takeWhile fun c => !isSpace c).length := by
    rw [← List.take_takeWhile, List.length_take]
  unfold scanWord
  rw [← hlen]
  dsimp only
  split
  · rename_i hnil
    simp [hnil]
  · rename_i hne
    have hpos := List.length_pos_iff.mpr hne
    simp [hpos]

/-- The word of a line that is cut to a width is too long for its array iff the word is. -/
theorem scanWord_short {width size : ℕ} (hw : size ≤ width) (hsize : 0 < size) {s : Bytes} :
    (∀ p ∈ scanWord width s, p.1.length < size) ↔ ∀ p ∈ scanAnyWord s, p.1.length < size := by
  have hle : ((s.dropWhile isSpace).takeWhile fun c => !isSpace c).length ≤ s.length :=
    ((List.takeWhile_prefix _).length_le).trans (List.dropWhile_suffix _).length_le
  rw [scanAnyWord, @forall_scanWord width s (· < size), @forall_scanWord s.length s (· < size)]
  omega

theorem second_fit {t : Bytes} (ht : t.length < 80) (width : Option ℕ) (size : ℕ) :
    AllFit (scanStores [.word none 80, .word width size] t) ↔
      ∀ p ∈ scanAnyWord t, ∀ q ∈ scanField width p.2, q.1.length < size := by
  rw [allFit_word]
  simp only [allFit_word, allFit_end, and_true]
  constructor
  · exact fun h p hp => (h p hp).2
  · exact fun h p hp => ⟨Nat.lt_of_le_of_lt (scanWord_length hp) ht, h p hp⟩

theorem second_fit_long {t : Bytes} (ht : t.length < 80) {width : Option ℕ} {size : ℕ}
    (hsize : 80 ≤ size) : AllFit (scanStores [.word none 80, .word width size] t) := by
  rw [second_fit ht]
  intro p hp q hq
  have hrest := (scanWord_parts hp).2.length_le
  have hword := (scanWord_parts hq).1
  omega

theorem second_fit_bounded {t : Bytes} (ht : t.length < 80) {width size : ℕ} (h : width < size) :
    AllFit (scanStores [.word none 80, .word (some width) size] t) := by
  rw [second_fit ht]
  exact fun p _ q hq => Nat.lt_of_le_of_lt (scanWord_length hq) h

theorem second_fit_tight {t : Bytes} (ht : t.length < 80) {width : Option ℕ} {size : ℕ}
    (hw : ∀ n, width = some n → size ≤ n) (hsize : 0 < size) :
    AllFit (scanStores [.word none 80, .word width size] t) ↔
      ∀ word ∈ secondWord t, word.length < size := by
  rw [second_fit ht]
  have hsecond : (∀ word ∈ secondWord t, word.length < size) ↔
      ∀ p ∈ scanAnyWord t, ∀ q ∈ scanAnyWord p.2, q.1.length < size := by
    unfold secondWord
    simp only [Option.mem_def, Option.bind_eq_some_iff, Option.map_eq_some_iff]
    constructor
    · exact fun h p hp q hq => h q.1 ⟨p, hp, q, hq, rfl⟩
    · rintro h _ ⟨p, hp, q, hq, rfl⟩
      exact h p hp q hq
  rw [hsecond]
  cases width with
  | none => exact Iff.rfl
  | some n =>
    have hn := hw n rfl
    exact ⟨fun h p hp => (scanWord_short hn hsize).mp (h p hp),
      fun h p hp => (scanWord_short hn hsize).mpr (h p hp)⟩

theorem copied_length {line : Line} (h : line.length = 80) {start : ℕ} (hs : 1 ≤ start) :
    (copied start line).length + 1 ≤ 80 := by
  have hle : (copied start line).length ≤ (line.drop start).length :=
    (List.takeWhile_prefix _).length_le
  rw [List.length_drop, h] at hle
  omega

theorem stores_fit_iff {v : Visit} {t : Bytes} (h : LineOf v.sc.line t) :
    AllFit (v.stores t) ↔ ∀ a ∈ tightArrays v.stream, eqNoCase v.sc.keyword a.1 = true →
      ∀ word ∈ secondWord t, word.length < a.2 := by
  have ht := h.length_lt
  have hkeyword : AllFit (scanStores [.word none 80] t) := by
    rw [allFit_word]
    exact fun p hp => ⟨Nat.lt_of_le_of_lt (scanWord_length hp) ht, allFit_end _⟩
  have hif : ∀ {c : Bytes} {l : List Store}, AllFit (if eqNoCase v.sc.keyword c then l else []) ↔
      (eqNoCase v.sc.keyword c = true → AllFit l) := by
    intro c l
    split
    · rename_i hc
      exact ⟨fun hl _ => hl, fun hl => hl hc⟩
    · rename_i hc
      exact ⟨fun _ hl => absurd hl hc, fun _ => allFit_nil⟩
  have htext : AllFit (if v.stream then
      textColumns.flatMap fun c =>
        if eqNoCase v.sc.keyword c.1 then [⟨(copied c.2 v.sc.line).length + 1, 80⟩] else []
      else []) := by
    split
    · simp only [textColumns, List.flatMap_cons, List.flatMap_nil, allFit_append, hif, allFit_cons,
        allFit_nil, and_true]
      exact ⟨fun _ => copied_length h.size (by decide), fun _ => copied_length h.size (by decide)⟩
    · exact allFit_nil
  unfold Visit.stores
  rw [allFit_append, allFit_append]
  simp only [hkeyword, htext, true_and, and_true]
  cases v.stream with
  | false =>
    simp only [Bool.false_eq_true, if_false, headArrays, List.flatMap_cons, List.flatMap_nil,
      allFit_append, hif, allFit_nil, and_true, tightArrays, List.mem_singleton, forall_eq]
    have htight : AllFit (scanStores [.word none 80, .word none 16] t) ↔
        ∀ word ∈ secondWord t, word.length < 16 :=
      second_fit_tight ht (fun n hn => by cases hn) (by decide)
    rw [htight]
    exact ⟨fun hall => hall.2, fun hall => ⟨fun _ => second_fit_long ht (by decide), hall⟩⟩
  | true =>
    simp only [if_true, streamArrays, List.flatMap_cons, List.flatMap_nil, allFit_append, hif,
      allFit_nil, and_true, tightArrays, List.mem_cons, List.not_mem_nil, or_false,
      forall_eq_or_imp, forall_eq]
    have htight : ∀ n, 0 < n → (AllFit (scanStores [.word none 80, .word (some n) n] t) ↔
        ∀ word ∈ secondWord t, word.length < n) := fun n hn =>
      second_fit_tight ht (fun m hm => Nat.le_of_eq (Option.some.inj hm)) hn
    rw [htight 50 (by decide), htight 10 (by decide)]
    constructor
    · exact fun hall => ⟨hall.2.2.1, hall.2.2.2.1, hall.2.2.2.2.1⟩
    · intro hall
      refine ⟨fun _ => second_fit_long ht (by decide), fun _ => second_fit_bounded ht (by decide),
        hall.1, hall.2.1, hall.2.2, ?_, ?_⟩
      · exact fun _ => second_fit_long ht (by decide)
      · exact fun _ => second_fit_long ht (by decide)

theorem lands_iff {v : Visit} {t : Bytes} (h : LineOf v.sc.line t) : v.Lands t ↔ v.Placed t := by
  constructor
  · intro hl
    exact ⟨(stores_fit_iff h).mp hl.fit,
      fun hs c hc hk => (h.copies_iff c.1 c.2).mp (hl.copies hs c hc hk)⟩
  · intro hp
    exact ⟨(stores_fit_iff h).mpr hp.short,
      fun hs c hc hk => (h.copies_iff c.1 c.2).mpr (hp.text hs c hc hk)⟩

/-- The texts of a file go where they belong iff every line that is looked at is well placed. -/
theorem texts_land_iff {δ : Type} (load : Loader) (put : δ → Item → δ) (text : Bytes) (d : δ) :
    (∀ v ∈ textVisits load put text d, ∀ t ∈ v.sc.line.text, v.Lands t) ↔
      ∀ v ∈ textVisits load put text d, ∀ t ∈ v.sc.line.text, v.Placed t := by
  have hone : ∀ v ∈ textVisits load put text d, ∀ t ∈ v.sc.line.text, LineOf v.sc.line t := by
    intro v hv t ht
    obtain ⟨u, hu⟩ := textVisits_lineOf v hv
    have heq := hu.text
    rw [Option.mem_def.mp ht] at heq
    cases heq
    exact hu
  constructor
  · exact fun h v hv t ht => (lands_iff (hone v hv t ht)).mp (h v hv t ht)
  · exact fun h v hv t ht => (lands_iff (hone v hv t ht)).mpr (h v hv t ht)

/-! ### A file that is read to its end -/

theorem keywordScans_defined {σ : Type} {stop : Bytes} {body : Scan → σ → Option σ}
    {chunks : List Bytes} {sc : Scan} {x : σ} {out : List Bytes × Scan × σ}
    (h : keywordLoop stop body chunks sc x = some out) :
    ∀ sc' ∈ keywordScans stop body chunks sc x, ∃ y, (body sc' y).isSome = true := by
  induction chunks generalizing sc x with
  | nil =>
    intro sc' hmem
    unfold keywordScans at hmem
    unfold keywordLoop at h
    split at hmem
    · cases hmem
    · rename_i hgo
      rw [if_neg hgo] at h
      obtain ⟨sc₁, hread, h⟩ := Option.bind_eq_some_iff.mp h
      obtain ⟨z, hz, -⟩ := Option.map_eq_some_iff.mp h
      rw [hread, Option.toList_some, List.mem_singleton] at hmem
      exact ⟨x, by rw [hmem, hz]; rfl⟩
  | cons chunk rest ih =>
    intro sc' hmem
    unfold keywordScans at hmem
    unfold keywordLoop at h
    split at hmem
    · cases hmem
    · rename_i hgo
      rw [if_neg hgo] at h
      obtain ⟨sc₁, hread, h⟩ := Option.bind_eq_some_iff.mp h
      obtain ⟨z, hz, h⟩ := Option.bind_eq_some_iff.mp h
      rw [hread] at hmem
      rcases List.mem_cons.mp hmem with rfl | hmem
      · exact ⟨x, by rw [hz]; rfl⟩
      · rw [hz] at hmem
        exact ih h sc' hmem

theorem headLine_short {δ : Type} {put : δ → Item → δ} {sc : Scan} {d : δ} {t : Bytes}
    (h : (headLine put sc d).isSome = true) (ht : sc.line.text = some t) :
    ∀ a ∈ tightArrays false, eqNoCase sc.keyword a.1 = true →
      ∀ word ∈ secondWord t, word.length < a.2 := by
  intro a ha hk word hword
  rw [tightArrays, if_neg Bool.false_ne_true, List.mem_singleton] at ha
  subst ha
  rw [headLine, ht, Option.bind_some, if_pos hk, Option.mem_def.mp hword] at h
  by_contra hlong
  rw [Option.any_some, if_pos (decide_eq_true (Nat.not_lt.mp hlong))] at h
  cases h

theorem foldlM_isSome {α β : Type} {f : β → α → Option β} {as : List α} {b : β}
    (h : (as.foldlM f b).isSome = true) : ∀ a ∈ as, ∃ b, (f b a).isSome = true := by
  induction as generalizing b with
  | nil => exact fun a ha => absurd ha List.not_mem_nil
  | cons a as ih =>
    rw [List.foldlM_cons] at h
    intro a' ha'
    cases hb : f b a with
    | none =>
      rw [hb] at h
      cases h
    | some c =>
      rw [hb] at h
      rcases List.mem_cons.mp ha' with rfl | ha'
      · exact ⟨b, by rw [hb]; rfl⟩
      · exact ih h a' ha'
theorem secondWordUpTo_short {n : ℕ} (hn : 0 < n) {t : Bytes} :
    (∀ word ∈ secondWordUpTo n t, word.length < n) ↔ ∀ word ∈ secondWord t, word.length < n := by
  unfold secondWordUpTo secondWord
  cases scanAnyWord t with
  | none => simp
  | some p =>
    have hcut := scanWord_short (Nat.le_refl n) hn (s := p.2)
    simp only [Option.bind_some, Option.mem_def, Option.map_eq_some_iff, forall_exists_index,
      and_imp, forall_apply_eq_imp_iff₂] at hcut ⊢
    exact hcut

theorem readSparam_short {s : StreamScan} {t : Bytes} (h : (s.readSparam t).isSome = true) :
    ∀ word ∈ secondWord t, word.length < 10 := by
  refine (secondWordUpTo_short (by decide)).mp fun word hword => ?_
  by_contra hlong
  rw [StreamScan.readSparam, Option.mem_def.mp hword] at h
  dsimp only at h
  rw [if_pos (Nat.not_lt.mp hlong)] at h
  cases h

theorem aggregate_short {t : Bytes} (h : (secondWordUpTo 50 t).any (fun x => decide (50 ≤ x.length)) =
    false) : ∀ word ∈ secondWord t, word.length < 50 := by
  refine (secondWordUpTo_short (by decide)).mp fun word hword => ?_
  by_contra hlong
  rw [Option.mem_def.mp hword, Option.any_some, decide_eq_true (Nat.not_lt.mp hlong)] at h
  cases h

theorem streamLine_short {sc : Scan} {s : StreamScan} {t : Bytes}
    (h : (streamLine sc s).isSome = true) (ht : sc.line.text = some t) :
    ∀ a ∈ tightArrays true, eqNoCase sc.keyword a.1 = true →
      ∀ word ∈ secondWord t, word.length < a.2 := by
  unfold streamLine at h
  rw [ht, Option.bind_some] at h
  have hall := foldlM_isSome h
  intro a ha hk
  rw [tightArrays, if_pos rfl] at ha
  simp only [List.mem_cons, List.not_mem_nil, or_false] at ha
  rcases ha with rfl | rfl | rfl
  · obtain ⟨s', hs'⟩ := hall _ (List.mem_of_getElem? (i := 7) rfl)
    dsimp only at hs'
    rw [if_pos hk] at hs'
    apply aggregate_short
    by_contra hany
    rw [if_pos (Bool.not_eq_false _ ▸ hany)] at hs'
    cases hs'
  · obtain ⟨s', hs'⟩ := hall _ (List.mem_of_getElem? (i := 11) rfl)
    dsimp only at hs'
    rw [if_pos hk, sparamKeyword, Option.isSome_map] at hs'
    exact readSparam_short hs'
  · obtain ⟨s', hs'⟩ := hall _ (List.mem_of_getElem? (i := 16) rfl)
    dsimp only at hs'
    rw [if_pos hk, sparamKeyword, Option.isSome_map] at hs'
    exact readSparam_short hs'

/-- A file that the model reads to its end has put nothing into an array that is too short. -/
theorem read_short {δ : Type} {load : Loader} {put : δ → Item → δ} {fuel : ℕ}
    {chunks : List Bytes} {sc : Scan} {sparam : Option Bytes} {first : Bool} {d : δ}
    (h : (parseStreams load put fuel chunks sc sparam first d).isSome = true) :
    ∀ v ∈ streamVisits load put fuel chunks sc sparam first d, ∀ t ∈ v.sc.line.text,
      ∀ a ∈ tightArrays v.stream, eqNoCase v.sc.keyword a.1 = true →
        ∀ word ∈ secondWord t, word.length < a.2 := by
  induction fuel generalizing chunks sc sparam first d with
  | zero => cases h
  | succ fuel ih =>
    obtain ⟨out, hout⟩ := Option.isSome_iff_exists.mp h
    unfold parseStreams at hout
    obtain ⟨⟨chunks₁, sc₁, d₁⟩, hhead, hout⟩ := Option.bind_eq_some_iff.mp hout
    intro v hv t ht
    unfold streamVisits at hv
    rw [hhead] at hv
    dsimp only at hout hv
    rcases List.mem_append.mp hv with hv | hv
    · obtain ⟨sc', hsc', rfl⟩ := List.mem_map.mp hv
      obtain ⟨y, hy⟩ := keywordScans_defined hhead sc' hsc'
      exact headLine_short hy ht
    · split at hv
      · cases hv
      · rename_i heof
        rw [if_neg heof] at hout
        obtain ⟨⟨chunks₂, sc₂, s⟩, hstream, hout⟩ := Option.bind_eq_some_iff.mp hout
        obtain ⟨res, hres, hout⟩ := Option.bind_eq_some_iff.mp hout
        rw [hstream] at hv
        rcases List.mem_append.mp hv with hv | hv
        · obtain ⟨sc', hsc', rfl⟩ := List.mem_map.mp hv
          obtain ⟨y, hy⟩ := keywordScans_defined hstream sc' hsc'
          exact streamLine_short hy ht
        · dsimp only at hv
          rw [hres] at hv
          cases res with
          | error res => cases hv
          | ok p =>
            dsimp only at hout hv
            split at hv
            · cases hv
            · rename_i heof₂
              rw [if_neg heof₂] at hout
              exact ih (by rw [hout]; rfl) v hv t ht

def titledText : Bytes := lit "STREAM\nTITLE Film\nSTREAM_END\n"

theorem title_loses_letter : ¬ ∀ (load : Loader) (text : Bytes) (d : SDDescr),
    ∀ v ∈ textVisits load SDDescr.put text d, ∀ t ∈ v.sc.line.text, v.Lands t := by
  intro hall
  have hany : ((textVisits loadVideo SDDescr.put titledText {}).any fun v =>
      v.stream && eqNoCase v.sc.keyword (lit "TITLE") &&
        (decide (Line.untilNewline (v.sc.line.drop 7) = some (lit "ilm")) &&
          v.sc.line.text.any fun t => decide (textBehind (lit "TITLE") t = some (lit "Film")))) =
      true := by
    decide +kernel
  obtain ⟨v, hv, hline⟩ := List.any_eq_true.mp hany
  simp only [Bool.and_eq_true, decide_eq_true_eq] at hline
  obtain ⟨⟨hstream, hkeyword⟩, hcopied, htext⟩ := hline
  obtain ⟨t, ht, hbehind⟩ := (Option.any_eq_true _ _).mp htext
  have hlands := hall loadVideo titledText {} v hv t ht
  have hcopies := hlands.copies hstream (lit "TITLE", 7) (List.mem_cons_self ..) hkeyword
  obtain ⟨text, huntil, hvalue⟩ := hcopies.value
  rw [hcopied] at huntil
  cases huntil
  rw [of_decide_eq_true hbehind] at hvalue
  revert hvalue
  decide

end Fenice.Mediainfo
