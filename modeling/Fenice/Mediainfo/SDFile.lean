import Fenice.Lib.Single
import Fenice.Rtsp.Url
import Fenice.Schedule.State
import Mathlib.Data.Rat.Defs
import Mathlib.Data.List.GetD

/-!
# SD files (mediainfo/parse_SD_file.c, validate_stream.c, enum_media.c)

A presentation is described by a text of lines with a keyword each. The lines are read
into one array, and what an earlier line has left in it behind the end of a shorter one is
still there.
-/

namespace Fenice.Mediainfo
open Fenice.CString Fenice.Rtsp Fenice.Schedule

/-! ### Lines -/

/-- `char line[80]`; a byte that was never written is `none`. -/
abbrev Line := List (Option UInt8)

def Line.fresh : Line := List.replicate 80 none

/-- The string in an array, if it has been written up to a zero. -/
def Line.text : Line → Option Bytes
  | [] => none
  | none :: _ => none
  | some c :: l => if c = 0 then some [] else (Line.text l).map (c :: ·)

/-- The loops for `TITLE` and `CREATOR` copy up to the next newline of the array. -/
def Line.untilNewline : Line → Option Bytes
  | [] => none
  | none :: _ => none
  | some c :: l => if c = lf then some [] else (Line.untilNewline l).map (c :: ·)

/-- What `fgets` reads at once: at most `n` bytes, and none behind a newline. -/
def lineChunk : ℕ → Bytes → Bytes
  | 0, _ => []
  | _, [] => []
  | n + 1, c :: s => if c = lf then [c] else c :: lineChunk n s

/-- What the calls of `fgets (line, 80, f)` read one after the other. -/
def lineChunks : ℕ → Bytes → List Bytes
  | 0, _ => []
  | fuel + 1, s =>
    if s = [] then [] else lineChunk 79 s :: lineChunks fuel (s.drop (lineChunk 79 s).length)

/-- The variables `line` and `keyword`, and `feof (f)`. -/
structure Scan where
  line : Line
  keyword : Bytes
  eof : Bool

/-- `fgets`. At the end of the file the line stays as it is. -/
def Scan.fgets (sc : Scan) : Option Bytes → Scan
  | none => { sc with eof := true }
  | some chunk =>
    { sc with
      line := (chunk ++ [0]).map some ++ sc.line.drop (chunk.length + 1)
      eof := decide (chunk.length < 79) && !chunk.contains lf }

/-- `sscanf (line, "%s", keyword)`. A blank line leaves the last keyword. -/
def Scan.readKeyword (sc : Scan) : Option Scan :=
  sc.line.text.map fun t =>
    match scanAnyWord t with
    | some (word, _) => { sc with keyword := word }
    | none => sc

/-- `while (strcasecmp (keyword, stop) != 0 && !feof (f))` with the body that reads a line
and looks at its keyword. -/
def keywordLoop {σ : Type} (stop : Bytes) (body : Scan → σ → Option σ) :
    List Bytes → Scan → σ → Option (List Bytes × Scan × σ)
  | [], sc, x =>
    if eqNoCase sc.keyword stop || sc.eof then some ([], sc, x)
    else (sc.fgets none).readKeyword.bind fun sc => (body sc x).map fun x => ([], sc, x)
  | chunk :: rest, sc, x =>
    if eqNoCase sc.keyword stop || sc.eof then some (chunk :: rest, sc, x)
    else (sc.fgets (some chunk)).readKeyword.bind fun sc =>
      (body sc x).bind fun x => keywordLoop stop body rest sc x

/-! ### Conversions behind the keyword -/

def secondWord (t : Bytes) : Option Bytes :=
  (scanAnyWord t).bind fun p => (scanAnyWord p.2).map Prod.fst

/-- `"%s%<width>s"`. -/
def secondWordUpTo (width : ℕ) (t : Bytes) : Option Bytes :=
  (scanAnyWord t).bind fun p => (scanWord width p.2).map Prod.fst

/-- `"%s %d"`. -/
def secondInt (t : Bytes) : Option ℤ := (scanAnyWord t).bind fun p => scanInt p.2

/-- `"%s %hd"`. -/
def secondShort (t : Bytes) : Option ℤ :=
  (scanAnyWord t).bind fun p => (scanLong p.2).map fun x => (x + 2 ^ 15) % 2 ^ 16 - 2 ^ 15

def isHexDigit (c : UInt8) : Bool := isDigit c || (97 ≤ toLower c && toLower c ≤ 102)

def hexValue (s : Bytes) : ℕ :=
  s.foldl (fun n c => 16 * n + if isDigit c then c.toNat - 48 else (toLower c).toNat - 87) 0

/-- Digits with a point among them and an exponent behind: the digits, how many of
them stand behind the point, and the exponent. -/
def mantissa (isDigit : UInt8 → Bool) (marker : UInt8) (u : Bytes) : Bytes × ℕ × ℤ :=
  let whole := u.takeWhile isDigit
  let v := u.drop whole.length
  let frac := if v.head? = some 46 then (v.drop 1).takeWhile isDigit else []
  let w := if v.head? = some 46 then (v.drop 1).drop frac.length else v
  let exponent : ℤ :=
    if w.head?.map toLower = some marker then ((numeral (w.drop 1)).map fun n =>
      if n.1 then -(decimal n.2.1 : ℤ) else decimal n.2.1).getD 0
    else 0
  (whole ++ frac, frac.length, exponent)

/-- A numeral without sign, decimal or hexadecimal, before it is rounded. -/
def scanRat (u : Bytes) : Option ℚ :=
  if startsNoCase (lit "0x") u then
    let (digits, frac, exponent) := mantissa isHexDigit 112 (u.drop 2)
    if digits = [] then none else some (hexValue digits * (2 : ℚ) ^ (exponent - 4 * frac))
  else
    let (digits, frac, exponent) := mantissa isDigit 101 u
    if digits = [] then none else some (decimal digits * (10 : ℚ) ^ (exponent - frac))

/-- `%f`. -/
def scanFloat (s : Bytes) : Option Single :=
  let t := s.dropWhile isSpace
  let neg := t.head? = some 45
  let u := if neg ∨ t.head? = some 43 then t.drop 1 else t
  if startsNoCase (lit "nan") u then some .nan
  else if startsNoCase (lit "infinity") u then some (.infinite neg)
  else if startsNoCase (lit "inf") u then
    if startsNoCase (lit "infi") u then none else some (.infinite neg)
  else (scanRat u).map fun x => .ofRat (if neg then -x else x)

def secondFloat (t : Bytes) : Option Single := (scanAnyWord t).bind fun p => scanFloat p.2

/-! ### Media -/

inductive MediaSource where
  | stored | live
  deriving DecidableEq

/-- `FILE_NONE`, `FILE_MP3`, `FILE_MPEG` and `FILE_H264`. -/
inductive MediaFileType where
  | none | mp3 | mpeg | h264
  deriving DecidableEq

/-- `media_coding`: `undefined`, `frame` and `sample`. -/
inductive MediaCoding where
  | undefined | frame | sample
  deriving DecidableEq

/-- `description` of a `media_entry`; `flags` has the bits `MED_*`. -/
structure Description where
  commonsDead : Bytes := []
  rdfPage : Bytes := []
  title : Bytes := []
  author : Bytes := []
  flags : ℕ := 0
  msource : MediaSource := .stored
  mtype : MediaType := .audio
  ftype : MediaFileType := .none
  payloadType : ℤ := 0
  clockRate : ℤ := 0
  sampleRate : ℤ := 0
  audioChannels : ℤ := 0
  bitPerSample : ℤ := 0
  encodingName : Bytes := []
  codingType : MediaCoding := .frame
  frameLen : ℤ := 0
  bitrate : ℤ := 0
  priority : ℤ := 0
  pktLen : Single := .finite 0
  deltaMtime : Single := .finite 0
  frameRate : ℤ := 0
  bytePerPckt : ℤ := 0
  deriving DecidableEq

/-- `media_entry`, without the state of its reader; `flags` has the bits `ME_*`. An SD file
does not give the port. -/
structure MediaEntry where
  flags : ℕ := 0
  filename : Bytes := []
  aggregate : Bytes := []
  rtpMulticastPort : ℤ := 0
  description : Description := {}
  deriving DecidableEq

def ME_FILENAME : ℕ := 1
def ME_AGGREGATE : ℕ := 8
def MED_PAYLOAD_TYPE : ℕ := 4
def MED_CLOCK_RATE : ℕ := 8
def MED_ENCODING_NAME : ℕ := 16
def MED_AUDIO_CHANNELS : ℕ := 32
def MED_SAMPLE_RATE : ℕ := 64
def MED_BIT_PER_SAMPLE : ℕ := 128
def MED_CODING_TYPE : ℕ := 256
def MED_FRAME_LEN : ℕ := 512
def MED_BITRATE : ℕ := 1024
def MED_PKT_LEN : ℕ := 2048
def MED_PRIORITY : ℕ := 4096
def MED_FRAME_RATE : ℕ := 16384
def MED_BYTE_PER_PCKT : ℕ := 32768
def MED_LICENSE : ℕ := 65536
def MED_RDF_PAGE : ℕ := 131072
def MED_TITLE : ℕ := 262144
def MED_CREATOR : ℕ := 524288
def MED_FORCE_FRAME_RATE : ℕ := 2097152

namespace Description

/-- `description.flags |= flag` and a conversion that may leave its variable alone. -/
def store {α : Type} (d : Description) (flag : ℕ) (x : Option α) (put : Description → α → Description) :
    Description :=
  let d := { d with flags := d.flags ||| flag }
  match x with
  | some a => put d a
  | none => d

end Description

def MediaEntry.describe (p : MediaEntry) (f : Description → Description) : MediaEntry :=
  { p with description := f p.description }

/-- The stream that is read, and the local array `sparam`, which no stream resets. -/
structure StreamScan where
  p : MediaEntry
  sparam : Option Bytes

/-- `sscanf (line, "%s%10s", trash, sparam)`; the array has ten bytes. -/
def StreamScan.readSparam (s : StreamScan) (t : Bytes) : Option (Bytes × StreamScan) :=
  match secondWordUpTo 10 t with
  | some word => if 10 ≤ word.length then none else some (word, { s with sparam := some word })
  | none => s.sparam.map fun word => (word, s)

def numberKeyword {α : Type} (conv : Bytes → Option α) (flag : ℕ)
    (put : Description → α → Description) (_ : Line) (t : Bytes) (s : StreamScan) :
    Option StreamScan :=
  some { s with p := s.p.describe fun d => d.store flag (conv t) put }

/-- `CODING_TYPE` and `MEDIA_SOURCE`, which have one flag, look for the word among some. -/
def sparamKeyword {α : Type} (values : List (Bytes × α)) (put : Description → α → Description)
    (_ : Line) (t : Bytes) (s : StreamScan) : Option StreamScan :=
  (s.readSparam t).map fun (word, s) =>
    let value := (values.find? fun v => eqNoCase word v.1).map Prod.snd
    { s with p := s.p.describe fun d => d.store MED_CODING_TYPE value put }

/-- `ENCODING_NAME` sets the types of the medium as well. -/
def encodingName (_ : Line) (t : Bytes) (s : StreamScan) : Option StreamScan :=
  some { s with p := s.p.describe fun d =>
    let d := d.store MED_ENCODING_NAME (secondWordUpTo 10 t) fun d x => { d with encodingName := x }
    let video := [lit "H26L", lit "MPV", lit "MP2T", lit "MP4V-ES", lit "H264"].any fun name =>
      (strstr d.encodingName name).isSome
    { d with
      mtype := if video then .video else d.mtype
      ftype :=
        if d.encodingName = lit "MPA" then .mp3
        else if d.encodingName = lit "MPV" then .mpeg
        else if d.encodingName = lit "H264" then .h264
        else .none } }

/-- `TITLE` and `CREATOR` copy what stands in the array from a fixed place on. -/
def textKeyword (start flag : ℕ) (put : Description → Bytes → Description) (line : Line) (_ : Bytes)
    (s : StreamScan) : Option StreamScan :=
  (Line.untilNewline (line.drop start)).map fun text =>
    { s with p := s.p.describe fun d => d.store flag (some (cstr text)) put }

/-- The keywords of a stream, in the order in which `parse_SD_file` asks for them. -/
def streamKeywords : List (Bytes × (Line → Bytes → StreamScan → Option StreamScan)) :=
  [(lit "FILE_NAME", fun _ t s => some { s with p :=
      { s.p with
        filename := (secondWordUpTo 255 t).getD s.p.filename, flags := s.p.flags ||| ME_FILENAME } }),
    (lit "BITRATE", numberKeyword secondInt MED_BITRATE fun d x => { d with bitrate := x }),
    (lit "PRIORITY", numberKeyword secondInt MED_PRIORITY fun d x => { d with priority := x }),
    (lit "PAYLOAD_TYPE",
      numberKeyword secondInt MED_PAYLOAD_TYPE fun d x => { d with payloadType := x }),
    (lit "CLOCK_RATE", numberKeyword secondInt MED_CLOCK_RATE fun d x => { d with clockRate := x }),
    (lit "ENCODING_NAME", encodingName),
    (lit "AUDIO_CHANNELS",
      numberKeyword secondShort MED_AUDIO_CHANNELS fun d x => { d with audioChannels := x }),
    (lit "AGGREGATE", fun _ t s =>
      let word := secondWordUpTo 50 t
      if word.any (fun x => decide (50 ≤ x.length)) then none
      else some { s with p :=
        { s.p with
          aggregate := word.getD s.p.aggregate, flags := s.p.flags ||| ME_AGGREGATE } }),
    (lit "SAMPLE_RATE",
      numberKeyword secondInt MED_SAMPLE_RATE fun d x => { d with sampleRate := x }),
    (lit "BIT_PER_SAMPLE",
      numberKeyword secondInt MED_BIT_PER_SAMPLE fun d x => { d with bitPerSample := x }),
    (lit "FRAME_LEN", numberKeyword secondInt MED_FRAME_LEN fun d x => { d with frameLen := x }),
    (lit "CODING_TYPE", sparamKeyword [(lit "FRAME", .frame), (lit "SAMPLE", .sample)]
      fun d x => { d with codingType := x }),
    (lit "PKT_LEN", numberKeyword secondFloat MED_PKT_LEN fun d x => { d with pktLen := x }),
    (lit "FRAME_RATE", numberKeyword secondInt MED_FRAME_RATE fun d x => { d with frameRate := x }),
    (lit "FORCE_FRAME_RATE",
      numberKeyword (fun _ => (none : Option ℤ)) MED_FORCE_FRAME_RATE fun d _ => d),
    (lit "BYTE_PER_PCKT",
      numberKeyword secondInt MED_BYTE_PER_PCKT fun d x => { d with bytePerPckt := x }),
    (lit "MEDIA_SOURCE", sparamKeyword [(lit "STORED", .stored), (lit "LIVE", .live)]
      fun d x => { d with msource := x }),
    (lit "LICENSE", numberKeyword secondWord MED_LICENSE fun d x => { d with commonsDead := x }),
    (lit "VERIFY", numberKeyword secondWord MED_RDF_PAGE fun d x => { d with rdfPage := x }),
    (lit "TITLE", textKeyword 7 MED_TITLE fun d x => { d with title := x }),
    (lit "CREATOR", textKeyword 9 MED_CREATOR fun d x => { d with author := x })]

/-- The body of the loop over the lines of a stream. -/
def streamLine (sc : Scan) (s : StreamScan) : Option StreamScan :=
  sc.line.text.bind fun t =>
    streamKeywords.foldlM (fun s k => if eqNoCase sc.keyword k.1 then k.2 sc.line t s else some s) s

/-! ### The addresses of multicast -/

/-- `strtoul (s, &s, 0)` where `s` starts with a digit. -/
def anyBase (s : Bytes) : ℕ × Bytes :=
  if (s.take 2).map toLower = [48, 120] ∧ ((s.drop 2).head?.any isHexDigit) then
    (hexValue ((s.drop 2).takeWhile isHexDigit), (s.drop 2).dropWhile isHexDigit)
  else if s.head? = some 48 then
    let isOctal := fun c : UInt8 => 48 ≤ c && c ≤ 55
    ((s.takeWhile isOctal).foldl (fun n c => 8 * n + (c.toNat - 48)) 0, s.dropWhile isOctal)
  else (decimal (s.takeWhile isDigit), s.dropWhile isDigit)

/-- The numbers of an address, with at most `dots` dots between them. -/
def addressParts : ℕ → Bytes → Option (List ℕ)
  | dots, s =>
    if s.head?.all (!isDigit ·) ∨ 2 ^ 32 ≤ (anyBase s).1 then none
    else
      match dots, (anyBase s).2 with
      | dots + 1, 46 :: t =>
        if 255 < (anyBase s).1 then none else (addressParts dots t).map ((anyBase s).1 :: ·)
      | _, [] => some [(anyBase s).1]
      | _, c :: _ => if isSpace c then some [(anyBase s).1] else none

/-- `inet_aton`: the address as a number. The last part takes all bytes that are left. -/
def inet_aton (s : Bytes) : Option ℕ :=
  (addressParts 3 s).bind fun parts =>
    let last := parts.getLastD 0
    let front := parts.dropLast
    if 256 ^ (4 - front.length) ≤ last then none
    else some (front.foldl (fun n x => 256 * n + x) 0 * 256 ^ (4 - front.length) + last)

def ERR_NOERROR : ℤ := 0
def ERR_GENERIC : ℤ := -1
def ERR_NOT_FOUND : ℤ := -2
def ERR_PARSE : ℤ := -3

def is_valid_multicast_address (ip : Bytes) : ℤ :=
  match inet_aton ip with
  | none => ERR_PARSE
  | some addr => if addr / 2 ^ 28 = 14 then ERR_NOERROR else ERR_GENERIC

/-- `DEFAULT_MULTICAST_ADDRESS`. -/
def defaultMulticastAddress : Bytes := lit "224.124.0.1"

/-! ### Payload types -/

/-- `RTP_static_payload`, without the number of the type. -/
structure StaticPayload where
  encName : Bytes := []
  clockRate : ℤ := -1
  channels : ℤ := -1
  bitPerSample : ℤ := -1
  type : MediaCoding := .undefined
  pktLen : Single := .finite (-1)

/-- `RTP_payload`; the types that are not listed have the entry `{-1, "", -1, …}`. -/
def RTP_payload (payloadType : ℕ) : StaticPayload :=
  match payloadType with
  | 0 => ⟨lit "PCMU", 8000, 1, 8, .sample, .finite 20⟩
  | 2 => ⟨lit "G726_32", 8000, 1, 4, .sample, .finite 20⟩
  | 3 => ⟨lit "GSM", 8000, 1, -1, .frame, .finite 20⟩
  | 4 => ⟨lit "G723", 8000, 1, -1, .frame, .finite 30⟩
  | 5 => ⟨lit "DVI4", 8000, 1, 4, .sample, .finite 20⟩
  | 6 => ⟨lit "DVI4", 16000, 1, 4, .sample, .finite 20⟩
  | 7 => ⟨lit "LPC", 8000, 1, -1, .frame, .finite 20⟩
  | 8 => ⟨lit "PCMA", 8000, 1, 8, .sample, .finite 20⟩
  | 9 => ⟨lit "G722", 8000, 1, 8, .sample, .finite 20⟩
  | 10 => ⟨lit "L16", 44100, 2, 16, .sample, .finite 20⟩
  | 11 => ⟨lit "L16", 44100, 1, 16, .sample, .finite 20⟩
  | 12 => ⟨lit "QCELP", 8000, 1, -1, .frame, .finite 20⟩
  | 14 => ⟨lit "MPA", 90000, 1, -1, .frame, .finite (-1)⟩
  | 15 => ⟨lit "G728", 8000, 1, -1, .frame, .finite 20⟩
  | 16 => ⟨lit "DVI4", 11025, 1, 4, .sample, .finite 20⟩
  | 17 => ⟨lit "DVI4", 22050, 1, 4, .sample, .finite 20⟩
  | 18 => ⟨lit "G729", 8000, 1, -1, .frame, .finite 20⟩
  | 25 => ⟨lit "CelB", 90000, 0, -1, .frame, .finite (-1)⟩
  | 26 => ⟨lit "JPEG", 90000, 0, -1, .frame, .finite (-1)⟩
  | 28 => ⟨lit "nv", 90000, 0, -1, .frame, .finite (-1)⟩
  | 31 => ⟨lit "H261", 90000, 0, -1, .frame, .finite (-1)⟩
  | 32 => ⟨lit "MPV", 90000, 0, -1, .frame, .finite (-1)⟩
  | 33 => ⟨lit "MP2T", 90000, 0, -1, .frame, .finite (-1)⟩
  | 34 => ⟨lit "H263", 90000, 0, -1, .frame, .finite (-1)⟩
  | _ => {}

/-- What `validate_stream` sets for a static payload type. -/
def Description.ofStatic (d : Description) (pt : StaticPayload) : Description :=
  { d with
    encodingName :=
      if d.flags &&& MED_ENCODING_NAME ≠ 0 ∧ d.encodingName = lit "RTP_SHM" then d.encodingName
      else pt.encName
    clockRate := pt.clockRate
    audioChannels := pt.channels
    bitPerSample := pt.bitPerSample
    codingType := pt.type
    pktLen := pt.pktLen
    flags := d.flags ||| MED_ENCODING_NAME ||| MED_CLOCK_RATE ||| MED_AUDIO_CHANNELS |||
      MED_BIT_PER_SAMPLE ||| MED_CODING_TYPE }

/-- `load_media` for each type of file: the error, or the medium as it is left. It looks into
the file of the medium. -/
abbrev Loader := MediaFileType → MediaEntry → Except ℤ MediaEntry

/-- `1 / (double) frame_rate * 1000`. -/
def ratePeriod (frameRate : ℤ) : Single :=
  if frameRate = 0 then .infinite false else .ofRat (1000 / frameRate)

/-- `load_MPV` and `load_h264`, where `mediaopen` finds the file. -/
def loadVideo (_ : MediaFileType) (p : MediaEntry) : Except ℤ MediaEntry :=
  if p.description.flags &&& MED_PKT_LEN ≠ 0 then
    .ok (p.describe fun d => { d with deltaMtime := d.pktLen })
  else if p.description.flags &&& MED_FRAME_RATE = 0 then .error ERR_PARSE
  else .ok (p.describe fun d =>
    { d with
      pktLen := ratePeriod d.frameRate
      deltaMtime := ratePeriod d.frameRate
      flags := d.flags ||| MED_PKT_LEN })

/-- `register_media` and the call of `load_media`, a null pointer for `FILE_NONE`. -/
def registerAndLoad (load : Loader) (p : MediaEntry) : Option (Except ℤ MediaEntry) :=
  if p.description.ftype = .none then none else some (load p.description.ftype p)

/-- `validate_stream`, what it does to the medium. A negative payload type is no index of
`RTP_payload`. -/
def validate_stream (load : Loader) (p : MediaEntry) : Option (Except ℤ MediaEntry) :=
  if p.flags &&& ME_FILENAME = 0 ∨ p.description.flags &&& MED_PAYLOAD_TYPE = 0 ∨
      p.description.flags &&& MED_PRIORITY = 0 then
    some (.error ERR_PARSE)
  else if 96 ≤ p.description.payloadType then
    if p.description.flags &&& MED_ENCODING_NAME = 0 ∨ p.description.flags &&& MED_CLOCK_RATE = 0
    then some (.error ERR_PARSE)
    else registerAndLoad load p
  else if p.description.payloadType < 0 then none
  else registerAndLoad load
    (p.describe fun d => d.ofStatic (RTP_payload d.payloadType.toNat))

/-! ### The file -/

/-- What a file does to the descriptor, in its order. A keyword without a word behind it gives
no value; a stream is the first one of this reading or not. -/
inductive Item where
  | twin (value : Option Bytes)
  | multicast (value : Option Bytes)
  | stream (first : Bool) (p : MediaEntry)
  deriving DecidableEq

section
variable {δ : Type} (load : Loader) (put : δ → Item → δ)

/-- The body of the loop in front of a stream. `multicast` has 16 bytes. -/
def headLine (sc : Scan) (d : δ) : Option δ :=
  sc.line.text.bind fun t =>
    let d := if eqNoCase sc.keyword (lit "TWIN") then put d (.twin (secondWord t)) else d
    if eqNoCase sc.keyword (lit "MULTICAST") then
      if (secondWord t).any (fun x => decide (16 ≤ x.length)) then none
      else some (put d (.multicast (secondWord t)))
    else some d

/-- The outer loop of `parse_SD_file`, with `sparam` and whether `p` is still null. -/
def parseStreams : ℕ → List Bytes → Scan → Option Bytes → Bool → δ → Option (Except ℤ δ)
  | 0, _, _, _, _, _ => none
  | fuel + 1, chunks, sc, sparam, first, d =>
    (keywordLoop (lit "STREAM") (headLine put) chunks { sc with keyword := [] } d).bind
      fun (chunks, sc, d) =>
        if sc.eof then some (.ok d)
        else
          (keywordLoop (lit "STREAM_END") streamLine chunks { sc with keyword := [] }
            ⟨{}, sparam⟩).bind fun (chunks, sc, s) =>
              (validate_stream load s.p).bind fun
                | .error res => some (.error res)
                | .ok p =>
                  if sc.eof then some (.ok (put d (.stream first p)))
                  else parseStreams fuel chunks sc s.sparam false (put d (.stream first p))

/-- `parse_SD_file` from `fopen` on. -/
def parseText (text : Bytes) (d : δ) : Option (Except ℤ δ) :=
  let chunks := lineChunks text.length text
  parseStreams load put (chunks.length + 1) chunks ⟨.fresh, [], false⟩ none true d

end

/-- `SD_descr`; the flags are `SD_FL_TWIN`, `SD_FL_MULTICAST` and `SD_FL_MULTICAST_PORT`. -/
structure SDDescr where
  filename : Bytes := []
  meList : List MediaEntry := []
  lastChange : ℤ := 0
  flTwin : Bool := false
  flMulticast : Bool := false
  flMulticastPort : Bool := false
  multicast : Bytes := []
  twin : Bytes := []
  deriving DecidableEq

/-- `parse_url (twin, server, sizeof (server), &port, object, sizeof (object)) == 0`. -/
def isUrl (twin : Bytes) : Bool :=
  match parse_url twin 255 255 with
  | .ok _ => true
  | _ => false

/-- What `validate_stream` does to the address: it is replaced where the check gives zero. -/
def checkedMulticast (multicast : Bytes) : Bytes :=
  if is_valid_multicast_address multicast = 0 then defaultMulticastAddress else multicast

namespace SDDescr

/-- A stream goes to the list, and `validate_stream` looks at the descriptor. -/
def put (d : SDDescr) : Item → SDDescr
  | .twin v => { d with twin := v.getD d.twin, flTwin := true }
  | .multicast v => { d with multicast := v.getD d.multicast, flMulticast := true }
  | .stream first p =>
    { d with
      meList := if first then [p] else d.meList ++ [p]
      flTwin := d.flTwin && isUrl d.twin
      multicast := checkedMulticast d.multicast }

end SDDescr

/-- What `stat` and `fopen` find under the name of a presentation. -/
structure StoredFile where
  ctime : ℤ
  text : Bytes

def parse_SD_file (load : Loader) (file : Option StoredFile) (d : SDDescr) :
    Option (Except ℤ SDDescr) :=
  match file with
  | none => some (.error ERR_NOT_FOUND)
  | some file =>
    if d.lastChange = file.ctime then some (.ok d)
    else parseText load SDDescr.put file.text { d with lastChange := file.ctime }

/-- Where the descriptor of a presentation stands in `SD_global_list`. -/
def listIndex (list : List SDDescr) (object : Bytes) : ℕ :=
  list.findIdx fun d => d.filename == object

/-- The list with a new descriptor at the end if there is none of the name. -/
def withDescr (list : List SDDescr) (object : Bytes) : List SDDescr :=
  if listIndex list object < list.length then list else list ++ [{ filename := object }]

/-- The descriptor that `enum_media` reads the file into. -/
def descrFor (list : List SDDescr) (object : Bytes) : SDDescr :=
  list.getD (listIndex list object) { filename := object }

/-- `enum_media` on `SD_global_list`. After an error the descriptor is taken out. -/
def enum_media (load : Loader) (list : List SDDescr) (object : Bytes) (file : Option StoredFile) :
    Option (Except ℤ SDDescr × List SDDescr) :=
  (parse_SD_file load file (descrFor list object)).map fun
    | .error res => (.error res, (withDescr list object).eraseIdx (listIndex list object))
    | .ok d => (.ok d, (withDescr list object).set (listIndex list object) d)

end Fenice.Mediainfo
