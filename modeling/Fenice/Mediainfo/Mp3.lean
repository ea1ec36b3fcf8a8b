import Mathlib.Algebra.Order.Ring.Nat
import Mathlib.Data.Rat.Init

/-!
# MPEG audio files (load_MPA.c, read_MP3.c)

`load_MPA` takes the bit rate and the sampling frequency of a file from its first frame.
`read_MP3` then cuts the file into packets by the length these two and the padding bit of each
header give, with one formula for all layers. The quotients are floats in the source: for the
rates of the tables the products are exact and no quotient that is not an integer comes within
1/147 of one, so that the integer part is that of the exact quotient.
-/

namespace Fenice.Mediainfo.Mpa

abbrev Bytes := List UInt8

/-- `ERR_PARSE` and `ERR_EOF`. -/
def errParse : ℤ := -3

@[inherit_doc errParse]
def errEof : ℤ := -8

/-- The fields of `description` that these two functions set and read. -/
structure Description where
  live : Bool
  id3 : Bool := false
  tagDim : ℕ := 0
  bitrate : ℕ := 0
  sampleRate : ℕ := 0
  frameLen : ℕ := 0
  pktLen : ℚ := 0
  deltaMtime : ℚ := 0
  deriving DecidableEq

/-- A `media_entry` and the contents of its file; `fd` is the offset of the open file, `none`
without `ME_FD`. -/
structure MediaEntry where
  file : Bytes
  fd : Option ℕ := none
  playOffset : ℚ := 0
  buffData : ℕ → UInt8
  buffSize : ℕ := 0
  description : Description

namespace MediaEntry

/-- `mediaopen` of a file that can be opened. -/
def mediaopen (me : MediaEntry) : MediaEntry := { me with fd := some 0 }

def mediaclose (me : MediaEntry) : MediaEntry := { me with fd := none, buffSize := 0 }

/-- `schedule_start` and `schedule_resume`, the field the reader looks at. -/
def play (me : MediaEntry) (start_time : ℚ) : MediaEntry :=
  { me with playOffset := start_time * 1000 }

/-- `read` of `n` bytes. -/
def read (me : MediaEntry) (n : ℕ) : Bytes × MediaEntry :=
  let got := (me.file.drop (me.fd.getD 0)).take n
  (got, { me with fd := some (me.fd.getD 0 + got.length) })

/-- `lseek`, which fails for an offset before the file. -/
def lseek (me : MediaEntry) (offset : ℤ) : MediaEntry :=
  if 0 ≤ offset then { me with fd := some offset.toNat } else me

end MediaEntry

/-- `got` in `buff` from byte `i` on. -/
def fill (buff : ℕ → UInt8) (i : ℕ) (got : Bytes) : ℕ → UInt8 := fun j =>
  if i ≤ j ∧ j < i + got.length then got.getD (j - i) 0 else buff j

/-- `(buff[0] == 0xff) && ((buff[1] & 0xe0) == 0xe0)`. -/
def sync (buff : ℕ → UInt8) : Bool := buff 0 == 0xff && buff 1 &&& 0xe0 == 0xe0

/-! ### load_MPA -/

/-- `BitrateMatrix`. -/
def bitrateMatrix : List (List ℕ) :=
  [[0, 0, 0, 0, 0],
   [32000, 32000, 32000, 32000, 8000],
   [64000, 48000, 40000, 48000, 16000],
   [96000, 56000, 48000, 56000, 24000],
   [128000, 64000, 56000, 64000, 32000],
   [160000, 80000, 64000, 80000, 40000],
   [192000, 96000, 80000, 96000, 48000],
   [224000, 112000, 96000, 112000, 56000],
   [256000, 128000, 112000, 128000, 64000],
   [288000, 160000, 128000, 144000, 80000],
   [320000, 192000, 160000, 160000, 96000],
   [352000, 224000, 192000, 176000, 112000],
   [384000, 256000, 224000, 192000, 128000],
   [416000, 320000, 256000, 224000, 144000],
   [448000, 384000, 320000, 256000, 160000],
   [0, 0, 0, 0, 0]]

/-- `ColIndex`. -/
def colIndex (b : UInt8) : Option ℕ :=
  match (b &&& 0x1e).toNat with
  | 18 => some 4
  | 20 => some 4
  | 22 => some 3
  | 26 => some 2
  | 28 => some 1
  | 30 => some 0
  | _ => none

/-- The sampling frequency that the third byte `c` of a header names. -/
def sampleRate (b c : UInt8) : Option ℕ :=
  match b &&& 0x08 != 0, (c &&& 0x0c).toNat with
  | true, 0 => some 44100
  | true, 4 => some 48000
  | true, 8 => some 32000
  | false, 0 => some 22050
  | false, 4 => some 24000
  | false, 8 => some 16000
  | _, _ => none

/-- `load_MPA` on the four bytes in `buff_data`. -/
def parseHeader (buff : ℕ → UInt8) (d : Description) : Except ℤ Description :=
  if sync buff then
    match colIndex (buff 1), sampleRate (buff 1) (buff 2) with
    | some col, some rate =>
      let frame_len := if buff 1 &&& 0x06 == 6 then 384 else 1152
      .ok { d with
        bitrate := (bitrateMatrix.getD ((buff 2 &&& 0xf0) / 16).toNat []).getD col 0
        sampleRate := rate
        frameLen := frame_len
        pktLen := frame_len / rate * 1000
        deltaMtime := frame_len / rate * 1000 }
    | _, _ => .error errParse
  else .error errParse

/-- `tag_dim`. -/
def tagDim (buff : ℕ → UInt8) : ℕ :=
  (buff 6 &&& 0x7f).toNat * 2 ^ 21 + (buff 7 &&& 0x7f).toNat * 2 ^ 14 +
    (buff 8 &&& 0x7f).toNat * 2 ^ 7 + (buff 9 &&& 0x7f).toNat

def load_MPA (p : MediaEntry) : Except ℤ MediaEntry :=
  let (head, p) := p.mediaopen.read 10
  let p := { p with buffData := fill p.buffData 0 head }
  if head.length ≠ 10 then .error errParse
  else
    let found : Except ℤ MediaEntry :=
      if head.take 3 = [0x49, 0x44, 0x33] then  -- "ID3"
        let dim := tagDim p.buffData
        let p := p.lseek (p.fd.getD 0 + dim)
        let (got, p) := p.read 4
        if got.length ≠ 4 then .error errParse
        else .ok { p with
          buffData := fill p.buffData 0 got
          description := { p.description with id3 := true, tagDim := dim } }
      else .ok p
    found.bind fun p =>
      let p := { p.mediaclose with buffSize := 4 }
      (parseHeader p.buffData p.description).map fun d => { p with description := d }

/-! ### read_MP3 -/

/-- The offset of random access: the integer part of the source's product. -/
def seekOffset (d : Description) (play_offset : ℚ) : ℤ :=
  let x := d.bitrate / 8 * play_offset / 1000
  x.num.tdiv x.den

/-- `N`, the number of bytes from a header to the next. -/
def packetLength (d : Description) (buff : ℕ → UInt8) : ℕ :=
  let n := d.frameLen * d.bitrate / (d.sampleRate * 8)
  if sync buff && buff 2 &&& 0x02 != 0 then n + 1 else n

/-- `read_MP3` up to its first `read`: the file is open, at the offset of random access. -/
def MediaEntry.ready (me : MediaEntry) : MediaEntry :=
  let me := if me.fd.isNone then me.mediaopen else me
  if me.playOffset ≠ -1 ∧ ¬ me.description.live then
    { me.lseek (seekOffset me.description me.playOffset) with playOffset := -1 }
  else me

/-- `read_MP3`, the bytes of `data` up to `*data_size` or the error. A header that makes `N`
smaller than 4 asks `read` for a negative number of bytes: it reads none and fails with -1, which
is not below `N - 4`. -/
def read_MP3 (me : MediaEntry) : Except ℤ Bytes × MediaEntry :=
  let (got, me) := me.ready.read 4
  let me := { me with buffData := fill me.buffData me.buffSize got }
  if got.length ≠ 4 then (.error errEof, me)
  else
    let me := { me with buffSize := 0 }
    let n := packetLength me.description me.buffData
    let data := [0, 0, 0, 0] ++ (List.range 4).map me.buffData
    if n < 4 then (.ok (data.take (n + 4)), me)
    else
      let (got, me) := me.read (n - 4)
      if got.length = 0 ∧ 4 < n then (.error errEof, me) else (.ok (data ++ got), me)

/-! ### Files -/

inductive Layer where
  | I
  | II
  | III
  deriving DecidableEq

/-- What is the same in all headers of a stream; `row` 0 is the free format. -/
structure Format where
  mpeg1 : Bool
  layer : Layer
  row : Fin 15
  freq : Fin 3

namespace Format

/-- The bit rate in kbit/s. -/
def kbits (fmt : Format) : ℕ :=
  match fmt.mpeg1, fmt.layer with
  | true, .I => 32 * fmt.row
  | true, .II => [0, 32, 48, 56, 64, 80, 96, 112, 128, 160, 192, 224, 256, 320, 384].getD fmt.row 0
  | true, .III => [0, 32, 40, 48, 56, 64, 80, 96, 112, 128, 160, 192, 224, 256, 320].getD fmt.row 0
  | false, .I =>
    [0, 32, 48, 56, 64, 80, 96, 112, 128, 144, 160, 176, 192, 224, 256].getD fmt.row 0
  | false, _ => [0, 8, 16, 24, 32, 40, 48, 56, 64, 80, 96, 112, 128, 144, 160].getD fmt.row 0

/-- The sampling frequency in Hz. -/
def hertz (fmt : Format) : ℕ :=
  (if fmt.mpeg1 then [44100, 48000, 32000] else [22050, 24000, 16000]).getD fmt.freq 0

/-- The number of slots of `samples / 8` bits for each sample, without padding. -/
def slots (fmt : Format) (samples : ℕ) : ℕ := samples * (fmt.kbits * 1000) / fmt.hertz

/-- The length of a frame, header and padding included: Layer I has slots of four bytes, and
Layer III of MPEG-2 half the samples of MPEG-1. -/
def frameLength (fmt : Format) (padding : Bool) : ℕ :=
  match fmt.layer with
  | .I => (fmt.slots 12 + padding.toNat) * 4
  | .II => fmt.slots 144 + padding.toNat
  | .III => fmt.slots (if fmt.mpeg1 then 144 else 72) + padding.toNat

/-- The second byte of a header. -/
def second (fmt : Format) (protection : Bool) : UInt8 :=
  let layer := match fmt.layer with
    | .I => 6
    | .II => 4
    | .III => 2
  .ofNat (0xf0 + 8 * fmt.mpeg1.toNat + layer + protection.toNat)

/-- The third byte of a header. -/
def third (fmt : Format) (padding privateBit : Bool) : UInt8 :=
  .ofNat (16 * fmt.row + 4 * fmt.freq + 2 * padding.toNat + privateBit.toNat)

end Format

/-- A frame of a stream; one in free format has any length. -/
structure Frame (fmt : Format) where
  protection : Bool
  padding : Bool
  privateBit : Bool
  fourth : UInt8
  body : Bytes
  sized : fmt.row = 0 ∨ 4 + body.length = fmt.frameLength padding

namespace Frame

variable {fmt : Format}

def bytes (f : Frame fmt) : Bytes :=
  [0xff, fmt.second f.protection, fmt.third f.padding f.privateBit, f.fourth] ++ f.body

end Frame

/-- An ID3v2 tag without a footer. -/
structure Tag where
  version : UInt8
  revision : UInt8
  flags : UInt8
  size : Fin 4 → UInt8
  body : Bytes
  size_lt : ∀ i, size i < 128
  sized : body.length = (size 0).toNat * 2 ^ 21 + (size 1).toNat * 2 ^ 14 +
    (size 2).toNat * 2 ^ 7 + (size 3).toNat

/-- The bytes in front of the first frame. -/
def Tag.bytes : Option Tag → Bytes
  | none => []
  | some t => [0x49, 0x44, 0x33, t.version, t.revision, t.flags, t.size 0, t.size 1, t.size 2,
      t.size 3] ++ t.body

/-- The frames of a file one after another. -/
def stream {fmt : Format} (frames : List (Frame fmt)) : Bytes := frames.flatMap Frame.bytes

/-- What a media entry goes through from the load of its file on. -/
inductive Loaded (p : MediaEntry) : MediaEntry → Prop
  | load {me : MediaEntry} (h : load_MPA p = .ok me) : Loaded p me
  | play {me : MediaEntry} (start_time : ℚ) (h : Loaded p me) : Loaded p (me.play start_time)
  | read {me : MediaEntry} (h : Loaded p me) : Loaded p (read_MP3 me).2
  | close {me : MediaEntry} (h : Loaded p me) : Loaded p me.mediaclose

/-- The media entry after `i` calls of `read_MP3`. -/
def after (me : MediaEntry) : ℕ → MediaEntry
  | 0 => me
  | i + 1 => after (read_MP3 me).2 i

/-- The calls of `read_MP3` from `me` on give the frames one after another. -/
def OneByOne {fmt : Format} (me : MediaEntry) (frames : List (Frame fmt)) : Prop :=
  ∀ i (h : i < frames.length),
    (read_MP3 (after me i)).1 = .ok ([0, 0, 0, 0] ++ frames[i].bytes)

/-- A frame as long as `read_MP3` takes it to be. -/
def Frame.Fits {fmt : Format} (f : Frame fmt) : Prop :=
  fmt.row ≠ 0 ∧ match fmt.layer with
    | .I => fmt.slots 48 % 4 = 3 * f.padding.toNat
    | .II => True
    | .III => fmt.mpeg1

/-- A frame shorter than `read_MP3` takes it to be. -/
def Frame.Short {fmt : Format} (f : Frame fmt) : Prop :=
  fmt.row ≠ 0 ∧ match fmt.layer with
    | .I => fmt.slots 48 % 4 ≠ 0 ∧ f.padding = false
    | .II => False
    | .III => ¬ fmt.mpeg1

/-- All frames are as long as `read_MP3` takes them to be; where the file ends with the last one,
that one may be shorter. -/
def Sized {fmt : Format} (tag : Option Tag) : List (Frame fmt) → Prop
  | [] => True
  | f :: fs => (f.Fits ∨ (f.Short ∧ fs = [] ∧ tag = none)) ∧ Sized tag fs

/-- The file read from its beginning is the stream of its frames, the first `n` bytes apart. -/
def Aligned {fmt : Format} (n : ℕ) (tag : Option Tag) (frames : List (Frame fmt)) : Prop :=
  ((Tag.bytes tag ++ stream frames).take (stream frames).length).drop n = (stream frames).drop n

/-! ### One call -/

section Call

variable {me : MediaEntry}

/-- What the next calls of `read_MP3` have in front of them: the header kept in `buff_data`, and
the file from behind the place where that header is taken from. -/
def ahead (me : MediaEntry) : Bytes :=
  (List.range me.buffSize).map me.buffData ++ me.file.drop (me.fd.getD 0 + me.buffSize)

/-- The file covers the header kept, and random access leaves the reader where it is. -/
structure Steady (me : MediaEntry) : Prop where
  kept : me.buffSize = 0 ∨ (me.buffSize = 4 ∧ 4 ≤ (me.file.drop (me.fd.getD 0)).length)
  unmoved : me.description.live ∨ me.playOffset = -1 ∨ (me.playOffset = 0 ∧ me.fd = none)

theorem ready_eq (h : Steady me) : ∃ x, me.ready = { me with
    fd := some (me.fd.getD 0), playOffset := x } ∧ (me.description.live ∨ x = -1) := by
  rcases me with ⟨file, fd, playOffset, buffData, buffSize, d⟩
  rcases h.unmoved with hl | hx | ⟨hx, hfd⟩
  · simp only at hl
    refine ⟨playOffset, ?_, .inl hl⟩
    cases fd with
    | none => simp [MediaEntry.ready, MediaEntry.mediaopen, hl]
    | some pos => simp [MediaEntry.ready, hl]
  · simp only at hx
    subst hx
    refine ⟨-1, ?_, .inr rfl⟩
    cases fd with
    | none => simp [MediaEntry.ready, MediaEntry.mediaopen]
    | some pos => simp [MediaEntry.ready]
  · simp only at hx hfd
    subst hx hfd
    by_cases hl : d.live
    · exact ⟨0, by simp [MediaEntry.ready, MediaEntry.mediaopen, hl], .inl hl⟩
    · refine ⟨-1, ?_, .inr rfl⟩
      have hx : (0 : ℚ) ≠ -1 := by decide
      have hseek : seekOffset d 0 = 0 := by simp [seekOffset, Rat.div_def]
      simp [MediaEntry.ready, MediaEntry.mediaopen, hl, MediaEntry.lseek, hseek, hx]

theorem fill_kept {buff : ℕ → UInt8} {got : Bytes} :
    (List.range 4).map (fill buff 4 got) = (List.range 4).map buff := by
  refine List.map_congr_left fun i hi => ?_
  have hlt : i < 4 := List.mem_range.mp hi
  simp [fill, show ¬ 4 ≤ i by omega]

theorem fill_zero {buff : ℕ → UInt8} {got : Bytes} {n : ℕ} (h : n ≤ got.length) :
    (List.range n).map (fill buff 0 got) = got.take n := by
  refine List.ext_getElem (by simp [h]) fun i h₁ h₂ => ?_
  have hlt : i < got.length := by
    simp only [List.length_take] at h₂
    omega
  simp [fill, hlt]

theorem range_map_getD {buff : ℕ → UInt8} {v : Bytes} {n : ℕ}
    (h : (List.range n).map buff = v.take n) {i : ℕ} (hi : i < n) : buff i = v.getD i 0 := by
  have hb : ((List.range n).map buff)[i]? = some (buff i) := by simp [hi]
  rw [h, List.getElem?_take_of_lt hi] at hb
  simp [List.getD_eq_getElem?_getD, hb]

theorem sync_congr {a b : ℕ → UInt8} (h : ∀ i < 4, a i = b i) : sync a = sync b := by
  simp [sync, h]

theorem packetLength_congr {a b : ℕ → UInt8} {d : Description} (h : ∀ i < 4, a i = b i) :
    packetLength d a = packetLength d b := by
  simp [packetLength, sync_congr h, h 2 (by omega)]

/-- The packet cut from the front of `v`. -/
def cut (d : Description) (v : Bytes) : Except ℤ Bytes :=
  let n := packetLength d fun i => v.getD i 0
  if v.length < 4 ∨ (v.length = 4 ∧ 4 < n) then .error errEof else .ok ([0, 0, 0, 0] ++ v.take n)

theorem header_ahead (h : Steady me) (hlen : 4 ≤ (ahead me).length) :
    (List.range 4).map
        (fill me.buffData me.buffSize ((me.file.drop (me.fd.getD 0)).take 4)) =
      (ahead me).take 4 ∧
    me.file.drop (me.fd.getD 0 + 4) = (ahead me).drop 4 ∧
    4 ≤ (me.file.drop (me.fd.getD 0)).length := by
  rcases h.kept with hk | ⟨hk, hfile⟩
  · have hahead : ahead me = me.file.drop (me.fd.getD 0) := by simp [ahead, hk]
    rw [hahead] at hlen
    have hget : 4 ≤ ((me.file.drop (me.fd.getD 0)).take 4).length := by
      rw [List.length_take]
      omega
    rw [hk, hahead, fill_zero hget, List.take_take, min_self, List.drop_drop]
    exact ⟨rfl, rfl, hlen⟩
  · have hrange : ((List.range 4).map me.buffData).length = 4 := by simp
    have hahead : ahead me =
        (List.range 4).map me.buffData ++ me.file.drop (me.fd.getD 0 + 4) := by
      simp [ahead, hk]
    rw [hk, hahead, fill_kept, List.take_left' hrange, List.drop_left' hrange]
    exact ⟨rfl, rfl, hfile⟩

theorem read_MP3_short (h : Steady me) (hlen : (ahead me).length < 4) :
    (read_MP3 me).1 = .error errEof := by
  rcases h.kept with hk | ⟨hk, hfile⟩
  · obtain ⟨x, hready, hx⟩ := ready_eq h
    have hahead : ahead me = me.file.drop (me.fd.getD 0) := by simp [ahead, hk]
    rw [hahead] at hlen
    have hgot : ((me.file.drop (me.fd.getD 0)).take 4).length ≠ 4 := by
      rw [List.length_take]
      omega
    simp only [read_MP3, hready, MediaEntry.read, Option.getD_some, hgot, ne_eq,
      not_false_eq_true, if_true]
  · simp [ahead, hk] at hlen

theorem read_MP3_spec (h : Steady me) (hv : 4 ≤ (ahead me).length) :
    (read_MP3 me).1 = cut me.description (ahead me) ∧
      (4 ≤ packetLength me.description (fun i => (ahead me).getD i 0) →
        Steady (read_MP3 me).2 ∧ (read_MP3 me).2.description = me.description ∧
        ahead (read_MP3 me).2 =
          (ahead me).drop (packetLength me.description fun i => (ahead me).getD i 0)) := by
  obtain ⟨hhead, htail, hlen⟩ := header_ahead h hv
  obtain ⟨x, hready, hx⟩ := ready_eq h
  have hn := packetLength_congr (d := me.description) fun i hi => range_map_getD hhead hi
  have hgot : ((me.file.drop (me.fd.getD 0)).take 4).length = 4 := by
    rw [List.length_take]
    omega
  generalize hw : ahead me = v at *
  generalize hN : packetLength me.description (fun i => v.getD i 0) = n at *
  simp only [read_MP3, hready, MediaEntry.read, Option.getD_some, hgot, ne_eq, not_true_eq_false,
    if_false, hn, hhead, htail, cut, hN, List.length_take, List.length_drop]
  by_cases hsmall : n < 4
  · rw [if_pos hsmall, if_neg (by omega)]
    refine ⟨?_, fun hle => by omega⟩
    rw [Nat.add_comm n 4, List.take_append, List.take_of_length_le (by simp)]
    simp only [List.length_cons, List.length_nil, Nat.zero_add, Nat.add_sub_cancel_left,
      List.take_take, Nat.min_eq_left hsmall.le, Nat.reduceAdd]
  · have hdrop : v.take 4 ++ (v.drop 4).take (n - 4) = v.take n := by
      rw [← List.take_add, Nat.add_sub_cancel' (by omega : 4 ≤ n)]
    have hrest : me.file.drop (me.fd.getD 0 + 4 + min (n - 4) (v.length - 4)) = v.drop n := by
      rw [← List.drop_drop, htail, List.drop_drop]
      rcases Nat.le_total n v.length with hle | hle
      · rw [Nat.min_eq_left (by omega), Nat.add_sub_cancel' (by omega : 4 ≤ n)]
      · rw [Nat.min_eq_right (by omega), Nat.add_sub_cancel' hv, List.drop_length,
          List.drop_eq_nil_of_le hle]
    rw [if_neg hsmall]
    by_cases hend : min (n - 4) (v.length - 4) = 0 ∧ 4 < n
    · rw [if_pos hend, if_pos (by omega)]
      refine ⟨rfl, fun _ => ⟨⟨.inl rfl, ?_⟩, rfl, ?_⟩⟩
      · exact hx.imp_right .inl
      · simpa [ahead] using hrest
    · rw [if_neg hend, if_neg (by omega)]
      refine ⟨?_, fun _ => ⟨⟨.inl rfl, ?_⟩, rfl, ?_⟩⟩
      · simp only [List.append_assoc, hdrop]
      · exact hx.imp_right .inl
      · simpa [ahead] using hrest

end Call

/-! ### Lengths -/

namespace Format

variable (fmt : Format)

theorem kbits_free (h : fmt.row = 0) : fmt.kbits = 0 := by
  rcases fmt with ⟨mpeg1, layer, row, freq⟩
  simp only at h
  subst h
  cases mpeg1 <;> cases layer <;> rfl

theorem slots_free (h : fmt.row = 0) (samples : ℕ) : fmt.slots samples = 0 := by
  simp [slots, fmt.kbits_free h]

theorem slots_large (h : fmt.row ≠ 0) : 4 ≤ fmt.slots 12 := by
  rcases fmt with ⟨mpeg1, layer, row, freq⟩
  revert h
  cases mpeg1 <;> cases layer <;> revert row freq <;> decide

theorem slots_part (k samples : ℕ) (hk : 0 < k) :
    fmt.slots samples = fmt.slots (k * samples) / k := by
  rw [slots, slots, Nat.div_div_eq_div_mul, Nat.mul_comm fmt.hertz, Nat.mul_assoc,
    Nat.mul_div_mul_left _ _ hk]

theorem slots_12_48 : fmt.slots 12 = fmt.slots 48 / 4 := fmt.slots_part 4 12 (by decide)

theorem slots_12_72 : fmt.slots 12 = fmt.slots 72 / 6 := fmt.slots_part 6 12 (by decide)

theorem slots_72_144 : fmt.slots 72 = fmt.slots 144 / 2 := fmt.slots_part 2 72 (by decide)

end Format

namespace Frame

variable {fmt : Format} (f : Frame fmt)

/-- `N` for the header of a frame. -/
def computed : ℕ :=
  fmt.slots (match fmt.layer with
    | .I => 48
    | _ => 144) + f.padding.toNat

theorem length_bytes : f.bytes.length = 4 + f.body.length := by
  rw [bytes, List.length_append]
  rfl

theorem length_large (h : fmt.row ≠ 0) : 4 < f.bytes.length := by
  have hsized := f.sized.resolve_left h
  have h12 := fmt.slots_large h
  have h72 := fmt.slots_12_72
  have h144 := fmt.slots_72_144
  rw [length_bytes, hsized]
  rcases hl : fmt.layer with _ | _ | _
  · simp only [Format.frameLength, hl]
    omega
  · simp only [Format.frameLength, hl]
    omega
  · simp only [Format.frameLength, hl]
    split_ifs <;> omega

theorem computed_free (h : fmt.row = 0) : f.computed < 4 := by
  have hp := Bool.toNat_le f.padding
  simp only [computed, fmt.slots_free h]
  omega

theorem fits_iff : f.Fits ↔ f.computed = f.bytes.length := by
  by_cases hrow : fmt.row = 0
  · have hc := f.computed_free hrow
    have hlen := f.length_bytes
    simp only [Fits, hrow, ne_eq, not_true_eq_false, false_and, false_iff]
    omega
  · have hsized := f.sized.resolve_left hrow
    have h12 := fmt.slots_large hrow
    have h48 := fmt.slots_12_48
    have h72 := fmt.slots_12_72
    have h144 := fmt.slots_72_144
    have hp := Bool.toNat_le f.padding
    rw [length_bytes, hsized]
    rcases hl : fmt.layer with _ | _ | _
    · simp only [Fits, computed, Format.frameLength, hl, ne_eq, hrow, not_false_eq_true, true_and]
      omega
    · simp [Fits, computed, Format.frameLength, hl, hrow]
    · by_cases hm : fmt.mpeg1
      · simp [Fits, computed, Format.frameLength, hl, hrow, hm]
      · simp only [Fits, computed, Format.frameLength, hl, hm, Bool.false_eq_true, and_false,
          if_false, false_iff]
        omega

theorem short_iff : f.Short ↔ f.bytes.length < f.computed := by
  by_cases hrow : fmt.row = 0
  · have hc := f.computed_free hrow
    have hlen := f.length_bytes
    simp only [Short, hrow, ne_eq, not_true_eq_false, false_and, false_iff]
    omega
  · have hsized := f.sized.resolve_left hrow
    have h12 := fmt.slots_large hrow
    have h48 := fmt.slots_12_48
    have h72 := fmt.slots_12_72
    have h144 := fmt.slots_72_144
    rw [length_bytes, hsized]
    rcases hl : fmt.layer with _ | _ | _
    · cases hpad : f.padding
      · simp only [Short, computed, Format.frameLength, hl, ne_eq, hrow, not_false_eq_true,
          true_and, hpad, and_true, Bool.toNat_false]
        omega
      · simp only [Short, computed, Format.frameLength, hl, hpad, Bool.true_eq_false, and_false,
          Bool.toNat_true, false_iff]
        omega
    · simp [Short, computed, Format.frameLength, hl]
    · by_cases hm : fmt.mpeg1
      · simp [Short, computed, Format.frameLength, hl, hm]
      · simp only [Short, computed, Format.frameLength, hl, hm, Bool.false_eq_true,
          not_false_eq_true, and_true, if_false, ne_eq, hrow, true_iff]
        omega

end Frame

/-! ### Headers -/

namespace Format

variable (fmt : Format)

theorem sync_second (protection : Bool) : (fmt.second protection &&& 0xe0 == 0xe0) = true := by
  rcases fmt with ⟨mpeg1, layer, row, freq⟩
  cases mpeg1 <;> cases layer <;> cases protection <;> revert row freq <;> decide

theorem padding_third (padding privateBit : Bool) :
    (fmt.third padding privateBit &&& 0x02 != 0) = padding := by
  rcases fmt with ⟨mpeg1, layer, row, freq⟩
  cases padding <;> cases privateBit <;> revert row freq <;> simp only [third] <;> decide

theorem sampleRate_header (protection padding privateBit : Bool) :
    sampleRate (fmt.second protection) (fmt.third padding privateBit) = some fmt.hertz := by
  rcases fmt with ⟨mpeg1, layer, row, freq⟩
  cases mpeg1 <;> cases layer <;> cases protection <;> cases padding <;> cases privateBit <;>
    revert row freq <;> decide

/-- The column for the version and the layer. -/
def col (fmt : Format) : ℕ :=
  match fmt.mpeg1, fmt.layer with
  | true, .I => 0
  | true, .II => 1
  | true, .III => 2
  | false, .I => 3
  | false, _ => 4

theorem colIndex_second (protection : Bool) : colIndex (fmt.second protection) = some fmt.col := by
  rcases fmt with ⟨mpeg1, layer, row, freq⟩
  cases mpeg1 <;> cases layer <;> cases protection <;> revert row freq <;> decide

theorem row_third (padding privateBit : Bool) :
    ((fmt.third padding privateBit &&& 0xf0) / 16).toNat = fmt.row := by
  rcases fmt with ⟨mpeg1, layer, row, freq⟩
  cases padding <;> cases privateBit <;> revert row freq <;> simp only [third] <;> decide

theorem bitrateMatrix_row : (bitrateMatrix.getD fmt.row []).getD fmt.col 0 = fmt.kbits * 1000 := by
  rcases fmt with ⟨mpeg1, layer, row, freq⟩
  cases mpeg1 <;> cases layer <;> revert row freq <;> decide

theorem layer_second (protection : Bool) :
    (fmt.second protection &&& 0x06 == 6) = decide (fmt.layer = .I) := by
  rcases fmt with ⟨mpeg1, layer, row, freq⟩
  cases mpeg1 <;> cases layer <;> cases protection <;> revert row freq <;> decide

end Format

/-- What `load_MPA` takes from a header is what the format says. -/
structure Detected (fmt : Format) (d : Description) : Prop where
  bitrate : d.bitrate = fmt.kbits * 1000
  sampleRate : d.sampleRate = fmt.hertz
  frameLen : d.frameLen = if fmt.layer = .I then 384 else 1152

/-- The header of a frame in `buff`. -/
def Frame.Heads {fmt : Format} (f : Frame fmt) (buff : ℕ → UInt8) : Prop :=
  ∀ i < 4, buff i = f.bytes.getD i 0

section Header

variable {fmt : Format} {f : Frame fmt} {d : Description} {buff : ℕ → UInt8}

theorem Frame.Heads.sync (h : f.Heads buff) : sync buff = true := by
  simpa [Mpa.sync, h 0 (by decide), h 1 (by decide), Frame.bytes] using
    fmt.sync_second f.protection

theorem packetLength_frame (hd : Detected fmt d) (h : f.Heads buff) :
    packetLength d buff = f.computed := by
  have hpad : (buff 2 &&& 0x02 != 0) = f.padding := by
    rw [h 2 (by decide)]
    exact fmt.padding_third f.padding f.privateBit
  have hquot : ∀ k, 8 * k * (fmt.kbits * 1000) / (fmt.hertz * 8) = fmt.slots k := by
    intro k
    rw [Format.slots, Nat.mul_comm fmt.hertz, Nat.mul_assoc, Nat.mul_div_mul_left _ _ (by decide)]
  have hslots : d.frameLen * d.bitrate / (d.sampleRate * 8) =
      fmt.slots (match fmt.layer with
        | .I => 48
        | _ => 144) := by
    rw [hd.bitrate, hd.sampleRate, hd.frameLen]
    rcases hl : fmt.layer with _ | _ | _
    · exact hquot 48
    · exact hquot 144
    · exact hquot 144
  simp only [packetLength, hslots, h.sync, hpad, Bool.true_and, Frame.computed]
  cases f.padding
  · rfl
  · rfl

theorem parseHeader_frame (h : f.Heads buff) :
    ∃ d', parseHeader buff d = .ok d' ∧ Detected fmt d' := by
  have h₁ : buff 1 = fmt.second f.protection := h 1 (by decide)
  have h₂ : buff 2 = fmt.third f.padding f.privateBit := h 2 (by decide)
  simp only [parseHeader, h.sync, h₁, h₂, fmt.colIndex_second, fmt.sampleRate_header, if_true]
  refine ⟨_, rfl, ?_, rfl, ?_⟩
  · simp only [fmt.row_third, fmt.bitrateMatrix_row]
  · simp only [fmt.layer_second, decide_eq_true_eq]

end Header

/-! ### Runs -/

section Runs

variable {fmt : Format} {me : MediaEntry} {d : Description}

theorem read_MP3_cut (h : Steady me) : (read_MP3 me).1 = cut me.description (ahead me) := by
  rcases Nat.lt_or_ge (ahead me).length 4 with hlen | hlen
  · rw [read_MP3_short h hlen, cut, if_pos (.inl hlen)]
  · exact (read_MP3_spec h hlen).1

theorem heads_take {f : Frame fmt} {v : Bytes} (h : v.take f.bytes.length = f.bytes) :
    f.Heads fun i => v.getD i 0 := by
  intro i hi
  have hlen := f.length_bytes
  have hb : f.bytes[i]? = v[i]? := by
    rw [← h, List.getElem?_take_of_lt (by omega)]
  simp only [List.getD_eq_getElem?_getD, hb]

/-- A packet is the frame in front exactly if that is as long as the header makes it, or
shorter and the last. -/
theorem cut_frame (hd : Detected fmt d) (f : Frame fmt) (v : Bytes) :
    cut d v = .ok ([0, 0, 0, 0] ++ f.bytes) ↔
      v.take f.bytes.length = f.bytes ∧ (f.Fits ∨ (f.Short ∧ v.length = f.bytes.length)) := by
  have hfour := f.length_bytes
  constructor
  · intro h
    simp only [cut] at h
    generalize hN : packetLength d (fun i => v.getD i 0) = n at h
    split_ifs at h with hend
    have htake : v.take n = f.bytes := List.append_cancel_left (Except.ok.inj h)
    have hlen : min n v.length = f.bytes.length := by rw [← htake, List.length_take]
    have hfront : v.take f.bytes.length = f.bytes := by
      rw [← htake, List.length_take, List.take_eq_take_iff]
      omega
    have hn : n = f.computed := hN ▸ packetLength_frame hd (heads_take hfront)
    refine ⟨hfront, ?_⟩
    rw [f.fits_iff, f.short_iff]
    omega
  · rintro ⟨hfront, hsize⟩
    have hn := packetLength_frame hd (heads_take hfront)
    have hle : f.bytes.length ≤ v.length := by
      have := congrArg List.length hfront
      rw [List.length_take] at this
      omega
    simp only [cut, hn]
    rcases hsize with hfits | ⟨hshort, hlast⟩
    · have hc := f.fits_iff.mp hfits
      rw [if_neg (by omega), hc, hfront]
    · have hc := f.short_iff.mp hshort
      have hlarge := f.length_large hshort.1
      rw [if_neg (by omega), List.take_of_length_le (by omega), ← hfront, hlast.symm,
        List.take_length]

theorem oneByOne_cons (f : Frame fmt) (fs : List (Frame fmt)) :
    OneByOne me (f :: fs) ↔
      (read_MP3 me).1 = .ok ([0, 0, 0, 0] ++ f.bytes) ∧ OneByOne (read_MP3 me).2 fs := by
  constructor
  · intro h
    refine ⟨h 0 (by simp), fun i hi => ?_⟩
    exact h (i + 1) (by simpa using hi)
  · rintro ⟨h₀, h⟩ i hi
    cases i with
    | zero => exact h₀
    | succ i => exact h i (by simpa using hi)

theorem stream_cons (f : Frame fmt) (fs : List (Frame fmt)) :
    stream (f :: fs) = f.bytes ++ stream fs := by
  simp [stream]

theorem read_MP3_fits (h : Steady me) (hd : Detected fmt me.description) {f : Frame fmt}
    (hfront : (ahead me).take f.bytes.length = f.bytes) (hfits : f.Fits) :
    Steady (read_MP3 me).2 ∧ (read_MP3 me).2.description = me.description ∧
      ahead (read_MP3 me).2 = (ahead me).drop f.bytes.length := by
  have hfour := f.length_bytes
  have hn := packetLength_frame hd (heads_take hfront)
  have hlen := congrArg List.length hfront
  rw [List.length_take] at hlen
  have hspec := (read_MP3_spec h (by omega)).2
  rw [hn, f.fits_iff.mp hfits] at hspec
  exact hspec (by omega)

theorem read_MP3_last (h : Steady me) (hd : Detected fmt me.description) {f : Frame fmt}
    (hfront : (ahead me).take f.bytes.length = f.bytes) (hshort : f.Short)
    (hlast : (ahead me).length = f.bytes.length) :
    Steady (read_MP3 me).2 ∧ ahead (read_MP3 me).2 = [] := by
  have hfour := f.length_bytes
  have hn := packetLength_frame hd (heads_take hfront)
  have hspec := (read_MP3_spec h (by omega)).2
  rw [hn] at hspec
  have hc := f.short_iff.mp hshort
  obtain ⟨hs, -, hahead⟩ := hspec (by omega)
  exact ⟨hs, by rw [hahead, List.drop_eq_nil_of_le (by omega)]⟩

theorem take_stream_cons (f : Frame fmt) (fs : List (Frame fmt)) (v : Bytes) :
    v.take (stream (f :: fs)).length = stream (f :: fs) ↔
      v.take f.bytes.length = f.bytes ∧
        (v.drop f.bytes.length).take (stream fs).length = stream fs := by
  rw [stream_cons, List.length_append, List.take_add]
  constructor
  · intro heq
    have hlen := congrArg List.length heq
    simp only [List.length_append, List.length_take, List.length_drop] at hlen
    refine List.append_inj heq ?_
    rw [List.length_take]
    omega
  · rintro ⟨hfront, hrest⟩
    rw [hfront, hrest]

/-- From any call on: the frames come one by one exactly if they are what is ahead and are of
the lengths the reader takes them to have. -/
theorem oneByOne_ahead (tag : Option Tag) (frames : List (Frame fmt)) (h : Steady me)
    (hd : Detected fmt me.description)
    (htag : tag = none ↔ (ahead me).length = (stream frames).length) :
    OneByOne me frames ↔
      (ahead me).take (stream frames).length = stream frames ∧ Sized tag frames := by
  induction frames generalizing me with
  | nil => simp [OneByOne, stream, Sized]
  | cons f fs ih =>
    rw [oneByOne_cons, read_MP3_cut h, cut_frame hd, take_stream_cons, Sized]
    rw [stream_cons, List.length_append] at htag
    have hlen : (ahead me).take f.bytes.length = f.bytes →
        f.bytes.length ≤ (ahead me).length := by
      intro hfront
      have := congrArg List.length hfront
      rw [List.length_take] at this
      omega
    constructor
    · rintro ⟨⟨hfront, hsize⟩, hrest⟩
      rcases hsize with hfits | ⟨hshort, hlast⟩
      · obtain ⟨hs, hdesc, hahead⟩ := read_MP3_fits h hd hfront hfits
        have htag' : tag = none ↔ (ahead (read_MP3 me).2).length = (stream fs).length := by
          have := hlen hfront
          rw [htag, hahead, List.length_drop]
          omega
        obtain ⟨htake, hsized⟩ := (ih hs (hdesc ▸ hd) htag').mp hrest
        exact ⟨⟨hfront, hahead ▸ htake⟩, .inl hfits, hsized⟩
      · obtain ⟨hs, hahead⟩ := read_MP3_last h hd hfront hshort hlast
        cases fs with
        | nil => exact ⟨⟨hfront, by simp [stream]⟩, .inr ⟨hshort, rfl, htag.mpr hlast⟩, trivial⟩
        | cons g gs =>
          have hnext := ((oneByOne_cons g gs).mp hrest).1
          rw [read_MP3_cut hs, hahead] at hnext
          simp [cut] at hnext
    · rintro ⟨⟨hfront, htake⟩, hsize, hsized⟩
      rcases hsize with hfits | ⟨hshort, rfl, hnone⟩
      · obtain ⟨hs, hdesc, hahead⟩ := read_MP3_fits h hd hfront hfits
        have htag' : tag = none ↔ (ahead (read_MP3 me).2).length = (stream fs).length := by
          have := hlen hfront
          rw [htag, hahead, List.length_drop]
          omega
        exact ⟨⟨hfront, .inl hfits⟩, (ih hs (hdesc ▸ hd) htag').mpr ⟨hahead ▸ htake, hsized⟩⟩
      · refine ⟨⟨hfront, .inr ⟨hshort, ?_⟩⟩, fun i hi => absurd hi (Nat.not_lt_zero i)⟩
        simpa [stream] using htag.mp hnone

end Runs

/-! ### From the load on -/

section Load

variable {fmt : Format} {tag : Option Tag} {f : Frame fmt} {rest : Bytes} {p me : MediaEntry}

theorem fill_heads {buff : ℕ → UInt8} {got : Bytes} (h : got.take 4 = f.bytes.take 4) :
    f.Heads (fill buff 0 got) := by
  have hfour := f.length_bytes
  have hlen := congrArg List.length h
  simp only [List.length_take] at hlen
  intro i hi
  have hb : got[i]? = f.bytes[i]? := by
    rw [← List.getElem?_take_of_lt hi, h, List.getElem?_take_of_lt hi]
  have hlt : i < got.length := by omega
  have hfill : fill buff 0 got i = got.getD i 0 := by simp [fill, hlt]
  rw [hfill, List.getD_eq_getElem?_getD, hb, List.getD_eq_getElem?_getD]

/-- What `load_MPA` leaves of a file whose first frame is `f`. -/
structure FromFile (p me : MediaEntry) (f : Frame fmt) : Prop where
  file : me.file = p.file
  fd : me.fd = none
  buffSize : me.buffSize = 4
  heads : f.Heads me.buffData
  detected : Detected fmt me.description

theorem parsed_spec {q : MediaEntry} (hfile : q.file = p.file) (hheads : f.Heads q.buffData)
    (h : (parseHeader q.buffData q.description).map
      (fun d => { q.mediaclose with buffSize := 4, description := d }) = .ok me) :
    FromFile p me f := by
  obtain ⟨d', hparse, hd⟩ := @parseHeader_frame fmt f q.description q.buffData hheads
  rw [hparse] at h
  cases h
  exact ⟨hfile, rfl, rfl, hheads, hd⟩

theorem toNat_and_7f (s : UInt8) (h : s < 128) : (s &&& 0x7f).toNat = s.toNat := by
  have hlt : s.toNat < 128 := h
  rw [UInt8.toNat_and]
  exact (Nat.and_two_pow_sub_one_eq_mod s.toNat 7).trans (Nat.mod_eq_of_lt hlt)

theorem tagDim_fill (t : Tag) (buff : ℕ → UInt8) :
    tagDim (fill buff 0 [0x49, 0x44, 0x33, t.version, t.revision, t.flags, t.size 0, t.size 1,
      t.size 2, t.size 3]) = t.body.length := by
  simp [tagDim, fill, toNat_and_7f _ (t.size_lt _), t.sized]

theorem load_MPA_spec (hfile : p.file = Tag.bytes tag ++ (f.bytes ++ rest))
    (h : load_MPA p = .ok me) : FromFile p me f := by
  have hfour := f.length_bytes
  simp only [load_MPA, MediaEntry.read, MediaEntry.mediaopen, Option.getD_some, List.drop_zero,
    Nat.zero_add] at h
  have hten : ¬ (p.file.take 10).length ≠ 10 := by
    intro hten
    rw [if_pos hten] at h
    cases h
  rw [if_neg hten] at h
  cases tag with
  | none =>
    have hfront : p.file.take 4 = f.bytes.take 4 := by
      rw [hfile, Tag.bytes, List.nil_append, List.take_append_of_le_length (by omega)]
    have hid : (p.file.take 10).take 3 ≠ [0x49, 0x44, 0x33] := by
      have htake : (p.file.take 10).take 3 = (f.bytes.take 4).take 3 := by
        rw [← hfront, List.take_take, List.take_take]
        rfl
      rw [htake]
      simp [Frame.bytes]
    rw [if_neg hid] at h
    refine parsed_spec (q := { p with
      fd := some (p.file.take 10).length
      buffData := fill p.buffData 0 (p.file.take 10) }) rfl (fill_heads ?_) h
    rw [List.take_take, ← hfront]
    rfl
  | some t =>
    obtain ⟨head, hhead, hid, hlen, hdim⟩ : ∃ head : Bytes, p.file.take 10 = head ∧
        head.take 3 = [0x49, 0x44, 0x33] ∧ head.length = 10 ∧
        tagDim (fill p.buffData 0 head) = t.body.length := by
      refine ⟨_, ?_, rfl, rfl, tagDim_fill t p.buffData⟩
      rw [hfile, Tag.bytes, List.append_assoc]
      rfl
    have hdrop : p.file.drop (10 + t.body.length) = f.bytes ++ rest := by
      rw [hfile, Tag.bytes, List.append_assoc, ← List.drop_drop]
      exact List.drop_left
    have hseek : ((10 : ℕ) : ℤ) + (t.body.length : ℤ) = ((10 + t.body.length : ℕ) : ℤ) := by
      simp
    have hfour' : ¬ ((f.bytes ++ rest).take 4).length ≠ 4 := by
      simp only [List.length_take, List.length_append]
      omega
    rw [hhead, if_pos hid, hdim, hlen, MediaEntry.lseek] at h
    rw [hseek, if_pos (Int.natCast_nonneg _)] at h
    simp only [Option.getD_some, Int.toNat_natCast, hdrop] at h
    rw [if_neg hfour'] at h
    refine parsed_spec (q := { p with
      fd := some (10 + t.body.length + ((f.bytes ++ rest).take 4).length)
      buffData := fill (fill p.buffData 0 head) 0 ((f.bytes ++ rest).take 4)
      description := { p.description with id3 := true, tagDim := t.body.length } }) rfl
      (fill_heads ?_) h
    rw [List.take_take, List.take_append_of_le_length (by omega)]
    rfl

theorem ready_keeps : me.ready.file = me.file ∧ me.ready.description = me.description := by
  simp only [MediaEntry.ready, MediaEntry.mediaopen, MediaEntry.lseek]
  split_ifs <;> exact ⟨rfl, rfl⟩

theorem read_keeps (n : ℕ) : (me.read n).2.file = me.file ∧
    (me.read n).2.description = me.description ∧ (me.read n).2.fd ≠ none :=
  ⟨rfl, rfl, Option.some_ne_none _⟩

theorem read_MP3_keeps : (read_MP3 me).2.file = me.file ∧
    (read_MP3 me).2.description = me.description ∧ (read_MP3 me).2.fd ≠ none := by
  obtain ⟨hfile, hdesc⟩ := @ready_keeps me
  obtain ⟨hf, hd, hfd⟩ := @read_keeps me.ready 4
  rw [read_MP3]
  rw [hfile] at hf
  rw [hdesc] at hd
  generalize me.ready.read 4 = r at hf hd hfd ⊢
  obtain ⟨got, me₁⟩ := r
  dsimp only at hf hd hfd ⊢
  split_ifs
  · exact ⟨hf, hd, hfd⟩
  · exact ⟨hf, hd, hfd⟩
  · exact ⟨hf, hd, Option.some_ne_none _⟩
  · exact ⟨hf, hd, Option.some_ne_none _⟩

/-- What holds of a media entry at every moment after its load. -/
structure Kept (p me : MediaEntry) (f : Frame fmt) : Prop where
  file : me.file = p.file
  detected : Detected fmt me.description
  closed : me.fd = none → me.buffSize = 0 ∨ (me.buffSize = 4 ∧ f.Heads me.buffData)

theorem Loaded.kept (hfile : p.file = Tag.bytes tag ++ (f.bytes ++ rest)) (h : Loaded p me) :
    Kept p me f := by
  induction h with
  | load h =>
    have hspec := load_MPA_spec hfile h
    exact ⟨hspec.file, hspec.detected, fun _ => .inr ⟨hspec.buffSize, hspec.heads⟩⟩
  | play start_time h ih => exact ⟨ih.file, ih.detected, ih.closed⟩
  | @read me h ih =>
    obtain ⟨hfile', hdesc, hfd⟩ := @read_MP3_keeps me
    exact ⟨hfile'.trans ih.file, hdesc ▸ ih.detected, fun hnone => absurd hnone hfd⟩
  | close h ih => exact ⟨ih.file, ih.detected, fun _ => .inl rfl⟩

theorem map_heads {buff : ℕ → UInt8} (h : f.Heads buff) :
    (List.range 4).map buff = f.bytes.take 4 := by
  have hrange : List.range 4 = [0, 1, 2, 3] := rfl
  rw [hrange]
  simp [h 0 (by decide), h 1 (by decide), h 2 (by decide), h 3 (by decide), Frame.bytes]

/-- At the start of a playback the header that is kept stands for the first bytes of the file. -/
theorem Kept.ahead_eq (h : Kept p me f) (hfd : me.fd = none) :
    (me.buffSize = 0 ∨ me.buffSize = 4) ∧
      ahead me = f.bytes.take me.buffSize ++ p.file.drop me.buffSize := by
  rcases h.closed hfd with hk | ⟨hk, hheads⟩
  · exact ⟨.inl hk, by simp [ahead, hk, hfd, h.file]⟩
  · refine ⟨.inr hk, ?_⟩
    simp only [ahead, hk, hfd, h.file, Option.getD_none, Nat.zero_add, map_heads hheads]

/-- From a start of playback the calls of `read_MP3` give the frames of the file one after
another exactly if the bytes of the file are those of its frames from its first byte on, the
header that is kept apart, and the frames are as long as one formula makes them. -/
theorem one_by_one_iff {frames : List (Frame fmt)} (hfile : p.file = Tag.bytes tag ++ stream frames)
    (hme : Loaded p me) (hfd : me.fd = none) (hstart : me.playOffset = 0) :
    OneByOne me frames ↔ Aligned me.buffSize tag frames ∧ Sized tag frames := by
  cases frames with
  | nil => simp [OneByOne, Aligned, stream, Sized]
  | cons f fs =>
    have hfour := f.length_bytes
    rw [stream_cons] at hfile
    have hkept := hme.kept hfile
    obtain ⟨hsize, hahead⟩ := hkept.ahead_eq hfd
    have hlong : 4 ≤ p.file.length := by
      rw [hfile, List.length_append, List.length_append]
      omega
    have hsteady : Steady me := by
      refine ⟨hsize.imp_right fun hk => ⟨hk, ?_⟩, .inr (.inr ⟨hstart, hfd⟩)⟩
      simpa [hfd, hkept.file] using hlong
    have hlen : (ahead me).length = p.file.length := by
      rw [hahead, List.length_append, List.length_take, List.length_drop]
      omega
    have htag : tag = none ↔ (ahead me).length = (stream (f :: fs)).length := by
      rw [hlen, hfile, stream_cons, List.length_append]
      cases tag with
      | none => simp [Tag.bytes]
      | some t => simp [Tag.bytes]
    rw [oneByOne_ahead tag _ hsteady hkept.detected htag, Aligned, stream_cons, hahead, ← hfile]
    refine and_congr_left' ?_
    generalize hs : f.bytes ++ stream fs = s
    have hkeep : (f.bytes.take me.buffSize).length = me.buffSize := by
      rw [List.length_take]
      omega
    have hle : me.buffSize ≤ s.length := by
      rw [← hs, List.length_append]
      omega
    have hfront : s = f.bytes.take me.buffSize ++ s.drop me.buffSize := by
      rw [← hs, List.drop_append_of_le_length (by omega), ← List.append_assoc,
        List.take_append_drop]
    rw [List.drop_take, List.take_append, hkeep, List.take_of_length_le (by omega)]
    nth_rewrite 2 [hfront]
    exact List.append_right_inj _

theorem aligned_none (n : ℕ) (frames : List (Frame fmt)) : Aligned n none frames := by
  simp [Aligned, Tag.bytes]

end Load

/-! ### Two files -/

/-- A media entry before its load. -/
def entryOf (file : Bytes) : MediaEntry :=
  { file, buffData := fun _ => 0, description := { live := false } }

/-- A frame of MPEG-1 Layer II at 32 kbit/s and 48 kHz. -/
def silence : Frame ⟨true, .II, 1, 1⟩ := ⟨true, false, false, 0, List.replicate 92 0, .inr rfl⟩

/-- A frame of MPEG-2 Layer III at 8 kbit/s and 24 kHz, with half the samples. -/
def silenceLow : Frame ⟨false, .III, 1, 1⟩ := ⟨true, false, false, 0, List.replicate 20 0, .inr rfl⟩

theorem silence_one_by_one : ∃ me, load_MPA (entryOf (stream [silence, silence])) = .ok me ∧
    OneByOne (me.play 0) [silence, silence] := by
  obtain ⟨me, hme⟩ : ∃ me, load_MPA (entryOf (stream [silence, silence])) = .ok me := ⟨_, rfl⟩
  have hfile : (entryOf (stream [silence, silence])).file =
      Tag.bytes none ++ stream [silence, silence] := rfl
  have hfrom := load_MPA_spec (hfile.trans (by rw [stream_cons])) hme
  have hfits : silence.Fits := ⟨by decide, trivial⟩
  refine ⟨me, hme, ?_⟩
  refine (one_by_one_iff hfile (.play 0 (.load hme)) hfrom.fd ?_).mpr ⟨aligned_none _ _, ?_⟩
  · simp [MediaEntry.play]
  · exact ⟨.inl hfits, .inl hfits, trivial⟩

/-- The packets are twice as long as the frames. -/
theorem layer_three_joined : ∃ me, load_MPA (entryOf (stream [silenceLow, silenceLow])) = .ok me ∧
    ¬ OneByOne (me.play 0) [silenceLow, silenceLow] := by
  obtain ⟨me, hme⟩ : ∃ me, load_MPA (entryOf (stream [silenceLow, silenceLow])) = .ok me :=
    ⟨_, rfl⟩
  have hfile : (entryOf (stream [silenceLow, silenceLow])).file =
      Tag.bytes none ++ stream [silenceLow, silenceLow] := rfl
  have hfrom := load_MPA_spec (hfile.trans (by rw [stream_cons])) hme
  have hsteady : Steady (me.play 0) := by
    refine ⟨.inr ⟨hfrom.buffSize, ?_⟩, .inr (.inr ⟨by simp [MediaEntry.play], hfrom.fd⟩)⟩
    simp only [MediaEntry.play, hfrom.fd, hfrom.file]
    decide
  refine ⟨me, hme, fun h => ?_⟩
  have hfirst := ((oneByOne_cons _ _).mp h).1
  have hsize := ((cut_frame hfrom.detected _ _).mp ((read_MP3_cut hsteady).symm.trans hfirst)).2
  have hlength : (ahead (me.play 0)).length = 48 := by
    simp only [ahead, MediaEntry.play, hfrom.fd, hfrom.file, hfrom.buffSize]
    simp [entryOf, stream, Frame.bytes, silenceLow]
  rcases hsize with hfits | ⟨-, hlast⟩
  · exact absurd hfits.2 (by decide)
  · rw [hlength] at hlast
    exact absurd hlast (by decide)

end Fenice.Mediainfo.Mpa
