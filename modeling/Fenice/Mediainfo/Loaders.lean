import Fenice.Mediainfo.Mp3
import Fenice.Mediainfo.Reload

/-!
# Media files and their functions (mediaopen.c, load_MPV.c, load_h264.c, register_media.c)

What `validate_stream` calls: the functions for the type of a file, and the loaders on the files
below the server's root. `fileStreams` are the streams that `parse_SD_file` hands to it.
-/

namespace Fenice.Mediainfo
open Fenice.CString

/-! ### The loaders -/

/-- The contents of the files that can be opened, by their names. -/
abbrev Disk := Bytes → Option Bytes

def ERR_INPUT_PARAM : ℤ := -5

def MED_ID3 : ℕ := 1048576

def mediaopen (disk : Disk) (p : MediaEntry) : Except ℤ Bytes :=
  if p.flags &&& ME_FILENAME = 0 then .error ERR_INPUT_PARAM
  else
    match disk p.filename with
    | none => .error ERR_NOT_FOUND
    | some file => .ok file

/-- `load_MPA`; the entry is fresh. -/
def load_MPA (disk : Disk) (p : MediaEntry) : Except ℤ MediaEntry :=
  (mediaopen disk p).bind fun file =>
    (Mpa.load_MPA
      { file := file
        buffData := fun _ => 0
        description := { live := decide (p.description.msource = .live) } }).map fun me =>
      p.describe fun d =>
        { d with
          bitrate := me.description.bitrate
          sampleRate := me.description.sampleRate
          frameLen := me.description.frameLen
          pktLen := .ofRat me.description.pktLen
          deltaMtime := .ofRat me.description.deltaMtime
          flags := d.flags ||| (if me.description.id3 then MED_ID3 else 0) ||| MED_BITRATE |||
            MED_SAMPLE_RATE ||| MED_FRAME_LEN ||| MED_PKT_LEN }

/-- `load_MPV` and `load_h264`. -/
def load_video (disk : Disk) (t : MediaFileType) (p : MediaEntry) : Except ℤ MediaEntry :=
  (mediaopen disk p).bind fun _ => loadVideo t p

/-- `media_handler->load_media`; there is none for `FILE_NONE`. -/
def load_media (disk : Disk) : Loader
  | .none, _ => .error ERR_GENERIC
  | .mp3, p => load_MPA disk p
  | .mpeg, p => load_video disk .mpeg p
  | .h264, p => load_video disk .h264 p

/-! ### The functions for a type -/

inductive LoadMedia where
  | load_MPA | load_MPV | load_h264
  deriving DecidableEq

inductive ReadMedia where
  | read_MP3 | read_MPEG_video | read_h264
  deriving DecidableEq

inductive FreeMedia where
  | free_MPA | free_MPV | free_h264
  deriving DecidableEq

/-- `media_fn`. -/
structure MediaFn where
  load : Option LoadMedia
  read : Option ReadMedia
  free : Option FreeMedia
  deriving DecidableEq

def media_func : MediaFileType → MediaFn
  | .none => ⟨none, none, none⟩
  | .mp3 => ⟨some .load_MPA, some .read_MP3, some .free_MPA⟩
  | .mpeg => ⟨some .load_MPV, some .read_MPEG_video, some .free_MPV⟩
  | .h264 => ⟨some .load_h264, some .read_h264, some .free_h264⟩

/-- `register_media`, what it sets. -/
def register_media (p : MediaEntry) : MediaFn := media_func p.description.ftype

/-! ### The streams of a file -/

/-- What `ENCODING_NAME` makes of a name. -/
def ftypeOf (encodingName : Bytes) : MediaFileType :=
  if encodingName = lit "MPA" then .mp3
  else if encodingName = lit "MPV" then .mpeg
  else if encodingName = lit "H264" then .h264
  else .none

section
variable {δ : Type} (load : Loader) (put : δ → Item → δ)

/-- The streams for which `parse_SD_file` calls `validate_stream`, as the lines have left them;
it is `parseStreams` with another result. -/
def validated : ℕ → List Bytes → Scan → Option Bytes → Bool → δ → List MediaEntry
  | 0, _, _, _, _, _ => []
  | fuel + 1, chunks, sc, sparam, first, d =>
    match keywordLoop (lit "STREAM") (headLine put) chunks { sc with keyword := [] } d with
    | none => []
    | some (chunks, sc, d) =>
      if sc.eof then []
      else
        match keywordLoop (lit "STREAM_END") streamLine chunks { sc with keyword := [] }
          ⟨{}, sparam⟩ with
        | none => []
        | some (chunks, sc, s) =>
          s.p :: match validate_stream load s.p with
            | some (.ok p) =>
              if sc.eof then [] else validated fuel chunks sc s.sparam false (put d (.stream first p))
            | _ => []

/-- The streams of a file. The list ends in front of a stream with a line that is undefined behaviour,
so what is said of every stream says nothing of that one and of those behind it. -/
def fileStreams (text : Bytes) (d : δ) : List MediaEntry :=
  let chunks := lineChunks text.length text
  validated load put (chunks.length + 1) chunks ⟨.fresh, [], false⟩ none true d

end

/-- A stream comes from this round, or from a later one behind a stream that is accepted. -/
theorem mem_validated_succ {δ : Type} {load : Loader} {put : δ → Item → δ} {p : MediaEntry}
    {fuel : ℕ} {chunks : List Bytes} {sc : Scan} {sparam : Option Bytes} {first : Bool} {d : δ}
    (hp : p ∈ validated load put (fuel + 1) chunks sc sparam first d) :
    ∃ chunks₁ sc₁ d₁ chunks₂ sc₂ s,
      keywordLoop (lit "STREAM") (headLine put) chunks { sc with keyword := [] } d =
        some (chunks₁, sc₁, d₁) ∧ sc₁.eof = false ∧
      keywordLoop (lit "STREAM_END") streamLine chunks₁ { sc₁ with keyword := [] } ⟨{}, sparam⟩ =
        some (chunks₂, sc₂, s) ∧
      (p = s.p ∨ ∃ q, validate_stream load s.p = some (.ok q) ∧ sc₂.eof = false ∧
        p ∈ validated load put fuel chunks₂ sc₂ s.sparam false (put d₁ (.stream first q))) := by
  rw [validated] at hp
  split at hp
  · cases hp
  · rename_i chunks₁ sc₁ d₁ hhead
    split_ifs at hp with heof
    · cases hp
    · split at hp
      · cases hp
      · rename_i chunks₂ sc₂ s hbody
        refine ⟨chunks₁, sc₁, d₁, chunks₂, sc₂, s, hhead, Bool.eq_false_of_not_eq_true heof, hbody,
          ?_⟩
        rcases List.mem_cons.mp hp with rfl | hp
        · exact .inl rfl
        · split at hp
          · rename_i q hvalid
            split_ifs at hp with heof'
            · cases hp
            · exact .inr ⟨q, hvalid, Bool.eq_false_of_not_eq_true heof', hp⟩
          · cases hp

theorem parseStreams_of_validated {δ : Type} {load : Loader} {put : δ → Item → δ} {p : MediaEntry}
    {res : ℤ} {fuel : ℕ} {chunks : List Bytes} {sc : Scan} {sparam : Option Bytes} {first : Bool}
    {d : δ} (hp : p ∈ validated load put fuel chunks sc sparam first d)
    (hres : validate_stream load p = some (.error res)) :
    parseStreams load put fuel chunks sc sparam first d = some (.error res) := by
  induction fuel generalizing chunks sc sparam first d with
  | zero => cases hp
  | succ fuel ih =>
    obtain ⟨chunks₁, sc₁, d₁, chunks₂, sc₂, s, hhead, heof, hbody, hp⟩ := mem_validated_succ hp
    rw [parseStreams, hhead, Option.bind_some]
    dsimp only
    rw [if_neg (Bool.eq_false_iff.mp heof), hbody, Option.bind_some]
    dsimp only
    rcases hp with rfl | ⟨q, hvalid, heof', hp⟩
    · rw [hres]
      rfl
    · rw [hvalid, Option.bind_some]
      dsimp only
      rw [if_neg (Bool.eq_false_iff.mp heof')]
      exact ih hp

/-! ### What the lines leave of a stream -/

theorem scanInt_int32 {s : Bytes} {n : ℤ} (h : scanInt s = some n) :
    -2 ^ 31 ≤ n ∧ n < 2 ^ 31 := by
  obtain ⟨x, -, rfl⟩ := Option.map_eq_some_iff.mp h
  unfold int32
  omega

/-- The type belongs to the encoding name, the medium is audio or video, and the frame rate is an
`int`. -/
structure Formed (p : MediaEntry) : Prop where
  ftype : p.description.ftype = ftypeOf p.description.encodingName
  mtype : p.description.mtype = .audio ∨ p.description.mtype = .video
  frameRate : -2 ^ 31 ≤ p.description.frameRate ∧ p.description.frameRate < 2 ^ 31

/-- A keyword that leaves these alone. -/
structure Apart (d e : Description) : Prop where
  ftype : e.ftype = d.ftype
  mtype : e.mtype = d.mtype
  encodingName : e.encodingName = d.encodingName
  frameRate : e.frameRate = d.frameRate

theorem Formed.apart {p : MediaEntry} (h : Formed p) {f : Description → Description}
    (hf : ∀ d, Apart d (f d)) : Formed (p.describe f) where
  ftype := by
    rw [MediaEntry.describe, (hf _).ftype, (hf _).encodingName]
    exact h.ftype
  mtype := by
    rw [MediaEntry.describe, (hf _).mtype]
    exact h.mtype
  frameRate := by
    rw [MediaEntry.describe, (hf _).frameRate]
    exact h.frameRate

/-- A function for a keyword that keeps what is asked of a stream. -/
def KeepsFormed (f : Line → Bytes → StreamScan → Option StreamScan) : Prop :=
  ∀ line t s s', Formed s.p → f line t s = some s' → Formed s'.p

theorem apart_store {α : Type} {flag : ℕ} {put : Description → α → Description}
    (hput : ∀ d x, Apart d (put d x)) (d : Description) (x : Option α) :
    Apart d (d.store flag x put) := by
  cases x with
  | none => exact ⟨rfl, rfl, rfl, rfl⟩
  | some x =>
    have h := hput { d with flags := d.flags ||| flag } x
    exact ⟨h.ftype, h.mtype, h.encodingName, h.frameRate⟩

theorem numberKeyword_keeps {α : Type} {conv : Bytes → Option α} {flag : ℕ}
    {put : Description → α → Description} (hput : ∀ d x, Apart d (put d x)) :
    KeepsFormed (numberKeyword conv flag put) := by
  intro line t s s' hs h
  cases h
  exact hs.apart fun d => apart_store hput d _

theorem sparamKeyword_keeps {α : Type} {values : List (Bytes × α)}
    {put : Description → α → Description} (hput : ∀ d x, Apart d (put d x)) :
    KeepsFormed (sparamKeyword values put) := by
  intro line t s s' hs h
  obtain ⟨⟨word, s₁⟩, hread, rfl⟩ := Option.map_eq_some_iff.mp h
  have hp : s₁.p = s.p := by
    unfold StreamScan.readSparam at hread
    split at hread
    · split_ifs at hread
      cases hread
      rfl
    · obtain ⟨_, -, hread⟩ := Option.map_eq_some_iff.mp hread
      cases hread
      rfl
  dsimp only
  rw [hp]
  exact hs.apart fun d => apart_store hput d _

theorem textKeyword_keeps {start flag : ℕ} {put : Description → Bytes → Description}
    (hput : ∀ d x, Apart d (put d x)) : KeepsFormed (textKeyword start flag put) := by
  intro line t s s' hs h
  obtain ⟨text, -, rfl⟩ := Option.map_eq_some_iff.mp h
  exact hs.apart fun d => apart_store hput d _

theorem encodingName_keeps : KeepsFormed encodingName := by
  intro line t s s' hs h
  cases h
  refine ⟨rfl, ?_, ?_⟩
  · cases secondWordUpTo 10 t <;>
    · dsimp only [MediaEntry.describe, Description.store]
      split
      · exact .inr rfl
      · exact hs.mtype
  · cases secondWordUpTo 10 t with
    | none => exact hs.frameRate
    | some x => exact hs.frameRate

theorem frameRate_keeps : KeepsFormed (numberKeyword secondInt MED_FRAME_RATE
    fun d x => { d with frameRate := x }) := by
  intro line t s s' hs h
  cases h
  refine ⟨?_, ?_, ?_⟩
  · cases secondInt t with
    | none => exact hs.ftype
    | some x => exact hs.ftype
  · cases secondInt t with
    | none => exact hs.mtype
    | some x => exact hs.mtype
  · cases hx : secondInt t with
    | none => exact hs.frameRate
    | some x =>
      obtain ⟨p, _, hp⟩ := Option.bind_eq_some_iff.mp hx
      exact scanInt_int32 hp

theorem entry_keeps {s : StreamScan} (hs : Formed s.p) (flags : ℕ) (filename aggregate : Bytes) :
    Formed { s.p with flags := flags, filename := filename, aggregate := aggregate } :=
  ⟨hs.ftype, hs.mtype, hs.frameRate⟩

theorem streamKeywords_keep : ∀ k ∈ streamKeywords, KeepsFormed k.2 := by
  intro k hk
  simp only [streamKeywords, List.mem_cons, List.not_mem_nil, or_false] at hk
  rcases hk with rfl | rfl | rfl | rfl | rfl | rfl | rfl | rfl | rfl | rfl | rfl | rfl | rfl | rfl |
    rfl | rfl | rfl | rfl | rfl | rfl | rfl
  all_goals first
    | exact numberKeyword_keeps fun d x => ⟨rfl, rfl, rfl, rfl⟩
    | exact sparamKeyword_keeps fun d x => ⟨rfl, rfl, rfl, rfl⟩
    | exact textKeyword_keeps fun d x => ⟨rfl, rfl, rfl, rfl⟩
    | exact encodingName_keeps
    | exact frameRate_keeps
    | skip
  · intro line t s s' hs h
    cases h
    exact entry_keeps hs _ _ _
  · intro line t s s' hs h
    dsimp only at h
    split_ifs at h
    cases h
    exact entry_keeps hs _ _ _

theorem foldlM_keeps {keywords : List (Bytes × (Line → Bytes → StreamScan → Option StreamScan))}
    (hkeep : ∀ k ∈ keywords, KeepsFormed k.2) {sc : Scan} {t : Bytes} {s s' : StreamScan}
    (hs : Formed s.p)
    (h : keywords.foldlM (fun s k =>
      if eqNoCase sc.keyword k.1 then k.2 sc.line t s else some s) s = some s') :
    Formed s'.p := by
  induction keywords generalizing s with
  | nil =>
    cases h
    exact hs
  | cons k keywords ih =>
    rw [List.foldlM_cons] at h
    obtain ⟨s₁, hk, h⟩ := Option.bind_eq_some_iff.mp h
    refine ih (fun k hmem => hkeep k (List.mem_cons_of_mem _ hmem)) ?_ h
    split_ifs at hk
    · exact hkeep k (List.mem_cons_self ..) _ _ _ _ hs hk
    · cases hk
      exact hs

theorem streamLine_keeps (sc : Scan) (s s' : StreamScan) (hs : Formed s.p)
    (h : streamLine sc s = some s') : Formed s'.p := by
  obtain ⟨t, -, h⟩ := Option.bind_eq_some_iff.mp h
  exact foldlM_keeps streamKeywords_keep hs h

theorem validated_formed {δ : Type} {load : Loader} {put : δ → Item → δ} {p : MediaEntry} {fuel : ℕ}
    {chunks : List Bytes} {sc : Scan} {sparam : Option Bytes} {first : Bool} {d : δ}
    (hp : p ∈ validated load put fuel chunks sc sparam first d) : Formed p := by
  induction fuel generalizing chunks sc sparam first d with
  | zero => cases hp
  | succ fuel ih =>
    obtain ⟨chunks₁, sc₁, d₁, chunks₂, sc₂, s, -, -, hbody, hp⟩ := mem_validated_succ hp
    have hfresh : Formed ({} : MediaEntry) := ⟨rfl, .inl rfl, by decide⟩
    have hs : Formed s.p :=
      keywordLoop_keeps (P := fun s => Formed s.p) streamLine_keeps hfresh hbody
    rcases hp with rfl | ⟨q, -, -, hp⟩
    · exact hs
    · exact ih hp

end Fenice.Mediainfo
