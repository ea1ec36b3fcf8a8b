import Fenice.Mediainfo.GetFrame
import Mathlib.Algebra.Group.Nat.Defs
import Mathlib.Data.List.Infix

/-!
# MPEG video streams (read_MPEG_video.c, read_MPEG_utils.c, common_utils.c)

One call copies headers and slices of an MPEG-1 or MPEG-2 elementary stream from the file to
`data_tmp`, up to a header or a size, and returns what it copied behind the four bytes of the
RTP video header. `data_tmp` comes from `malloc`: `mem` is what it holds before anything is
written, which a read that falls short leaves in place. Its 65000 bytes are never tested for, so
a call that has copied more has left its memory.
-/

namespace Fenice.Mediainfo.Mpeg

/-- `standard`. -/
inductive Standard where
  | mpeg1
  | mpeg2
  | toProbe
  deriving DecidableEq

/-- `video_spec_head1`, the header in front of every packet. -/
structure VideoSpecHead1 where
  ffc : ℕ := 0
  ffv : ℕ := 0
  bfc : ℕ := 0
  fbv : ℕ := 0
  p : ℕ := 0
  e : ℕ := 0
  b : ℕ := 0
  s : ℕ := 0
  n : ℕ := 0
  an : ℕ := 0
  tr : ℕ := 0
  t : ℕ := 0
  mbz : ℕ := 0
  deriving DecidableEq

/-- The four bytes of the header, the highest bits first. -/
def VideoSpecHead1.bytes (v : VideoSpecHead1) : List UInt8 :=
  let x := v.ffc + v.ffv * 2 ^ 3 + v.bfc * 2 ^ 4 + v.fbv * 2 ^ 7 + v.p * 2 ^ 8 + v.e * 2 ^ 11 +
    v.b * 2 ^ 12 + v.s * 2 ^ 13 + v.n * 2 ^ 14 + v.an * 2 ^ 15 + v.tr * 2 ^ 16 + v.t * 2 ^ 26 +
    v.mbz * 2 ^ 27
  [.ofNat (x / 2 ^ 24), .ofNat (x / 2 ^ 16), .ofNat (x / 2 ^ 8), .ofNat x]

/-- `static_MPEG_video`, what is kept between two calls. The time code and `temp_ref` are of
type `char`. -/
structure StaticMpegVideo where
  vsh1 : VideoSpecHead1 := {}
  finalByte : UInt8 := 0
  tempRef : UInt8 := 0
  hours : UInt8 := 0
  minutes : UInt8 := 0
  seconds : UInt8 := 0
  picture : UInt8 := 0
  dataTotal : ℕ := 0
  std : Standard := .toProbe
  fragmented : Bool := false
  deriving DecidableEq

/-- The bytes of `data_tmp` up to `*data_size`, and those of the file not read yet. -/
structure Copy where
  buf : List UInt8
  rest : List UInt8
  deriving DecidableEq

/-- The bytes `malloc` did not clear. -/
abbrev Memory := ℕ → UInt8

namespace Copy

/-- `buf[*buf_size - k]`. -/
def back (c : Copy) (k : ℕ) : UInt8 := c.buf.getD (c.buf.length - k) 0

/-- `read (fin, &buf[*buf_size], n); *buf_size += n`, whose result nobody looks at. -/
def read (mem : Memory) (n : ℕ) (c : Copy) : Copy where
  buf := c.buf ++ (List.range n).map fun i => c.rest.getD i (mem (c.buf.length + i))
  rest := c.rest.drop n

end Copy

/-! ### Start codes -/

/-- The loop of `next_start_code` with the three bytes of `buf_aux`: what it copies, and what
it leaves in the file, `none` at the end of the file. -/
def scan (a b c : UInt8) (rest : List UInt8) : List UInt8 × Option (List UInt8) :=
  if a = 0 ∧ b = 0 ∧ c = 1 then ([a, b, c], some rest)
  else match rest with
    | [] => ([a], none)
    | d :: rest =>
      let r := scan b c d rest
      (a :: r.1, r.2)

/-- `next_start_code`: the number of bytes before the start code, or -1. -/
def next_start_code (c : Copy) : ℤ × Copy :=
  match c.rest with
  | x :: y :: z :: rest =>
    match scan x y z rest with
    | (copied, some rest) => (copied.length - 3, ⟨c.buf ++ copied, rest⟩)
    | (copied, none) => (-1, ⟨c.buf ++ copied, []⟩)
  | _ => (-1, ⟨c.buf, []⟩)

/-- `next_start_code` and the byte behind it, neither of which is tested. -/
def next_code (mem : Memory) (c : Copy) : Copy := (next_start_code c).2.read mem 1

/-- The end of the three header readers: extension and user data are skipped in MPEG-1. -/
def end_of_head (mem : Memory) (std : Standard) (c : Copy) : Copy :=
  let c := next_code mem c
  if std = .mpeg1 then
    let c := if c.back 1 = 0xb5 then next_code mem c else c
    if c.back 1 = 0xb2 then next_code mem c else c
  else c

/-! ### Headers -/

/-- The quantizer matrices at the end of a sequence header, as the bits of the byte before
each say. -/
def read_matrices (mem : Memory) (c : Copy) : Copy :=
  let c := if (c.back 1 &&& 2) ≠ 0 then c.read mem 64 else c
  if (c.back 1 &&& 1) ≠ 0 then c.read mem 64 else c

/-- `read_seq_head`; the second component is `description.bitrate`. -/
def read_seq_head (mem : Memory) (std : Standard) (c : Copy) : Copy × ℕ :=
  let c := (c.read mem 4).read mem 4
  let x := (c.back 4).toNat * 2 ^ 10 + (c.back 3).toNat * 2 ^ 2 + (c.back 2).toNat / 2 ^ 6
  let bitrate := if x ≠ 0x3FFFF then x * 400 else 0
  (end_of_head mem std (read_matrices mem c), bitrate)

/-- The bits of `x` that `mask` keeps once it is shifted to the right. -/
def bits (x shift mask : UInt8) : UInt8 := (x >>> shift) &&& mask

/-- The same for a shift to the left. -/
def bitsUp (x shift mask : UInt8) : UInt8 := (x <<< shift) &&& mask

/-- The time code that `read_gop_head` takes from four bytes. -/
structure TimeCode where
  hours : UInt8
  minutes : UInt8
  seconds : UInt8
  picture : UInt8
  deriving DecidableEq

def read_gop_head (mem : Memory) (std : Standard) (c : Copy) : Copy × TimeCode :=
  let c := c.read mem 4
  let byte1 := c.back 4
  let byte2 := c.back 3
  let byte3 := c.back 2
  let byte4 := c.back 1
  (end_of_head mem std c,
    { hours := bits byte1 2 0x1f
      minutes := bitsUp byte1 4 0x30 + bits byte2 4 0x0f
      seconds := bitsUp byte2 3 0x38 + bits byte3 5 0x07
      picture := bitsUp byte3 1 0x3e + bits byte4 7 0x01 })

/-- A `char` stored in the ten bits of `tr`: the sign is extended. -/
def tenBits (x : UInt8) : ℕ := if x < 128 then x.toNat else x.toNat + 768

/-- The part of `read_picture_head` for the motion vectors of a P or B picture. -/
def read_vectors (mem : Memory) (v : VideoSpecHead1) (c : Copy) : Copy × VideoSpecHead1 :=
  let c := c.read mem 2
  let byte3 := c.back 1
  let c := c.read mem 1
  let byte1 := c.back 1
  (c, { v with
    ffv := (bits byte3 2 0x01).toNat
    ffc := (bits byte3 0 0x03).toNat * 2 + (bits byte1 7 0x01).toNat
    fbv := if v.p = 3 then (bits byte1 6 0x01).toNat else 0
    bfc := if v.p = 3 then (bits byte1 3 0x07).toNat else 0 })

/-- `read_picture_head`; the second component is `temp_ref`. -/
def read_picture_head (mem : Memory) (std : Standard) (vsh1 : VideoSpecHead1) (c : Copy) :
    Copy × UInt8 × VideoSpecHead1 :=
  let c := c.read mem 2
  let byte1 := c.back 2
  let byte2 := c.back 1
  let tempRef := byte1 * 4 + bits byte2 6 0x03
  let v := { vsh1 with p := (bits byte2 3 0x07).toNat, tr := tenBits tempRef }
  let r := if v.p = 2 ∨ v.p = 3 then read_vectors mem v c
    else (c, { v with ffv := 0, ffc := 0, fbv := 0, bfc := 0 })
  (end_of_head mem std r.1, tempRef, r.2)

/-- `read_picture_coding_ext`; what it stores in `vsh2` is never used. -/
def read_picture_coding_ext (mem : Memory) (c : Copy) : Copy :=
  next_code mem (((c.read mem 3).read mem 1).read mem 1)

/-- `probe_standard`; the last component is the bitrate if there is a sequence header. -/
def probe_standard (mem : Memory) (std : Standard) (c : Copy) : Copy × Standard × Option ℕ :=
  let c := next_code mem c
  let r := if c.back 1 = 0xb3 then
      let head := read_seq_head mem std c
      (head.1, some head.2)
    else (c, none)
  (r.1, if r.1.back 1 = 0xb5 then .mpeg2 else .mpeg1, r.2)

/-! ### The loop over the headers -/

/-- What one call changes. -/
structure Work where
  copy : Copy
  stat : StaticMpegVideo
  bitrate : ℕ
  recallme : Bool
  seqHeadPres : Bool
  deriving DecidableEq

/-- A code that begins something else than a slice. -/
def isHeader (code : UInt8) : Prop := code > 0xAF ∨ code = 0x00

instance (code : UInt8) : Decidable (isHeader code) := by unfold isHeader; infer_instance

/-- A part of the call goes on, or has met the end of the file. -/
inductive Part (α : Type) where
  | goes (a : α)
  | errEof (w : Work)
  deriving DecidableEq

namespace Work

def code (w : Work) : UInt8 := w.stat.finalByte

def size (w : Work) : ℕ := w.copy.buf.length

/-- The header readers leave the last byte they read in `final_byte`. -/
def have_read (w : Work) (c : Copy) : Work :=
  { w with copy := c, stat := { w.stat with finalByte := c.back 1 } }

def seqHead (mem : Memory) (w : Work) : Work :=
  if w.code = 0xb3 then
    let r := read_seq_head mem w.stat.std w.copy
    { w.have_read r.1 with bitrate := r.2, seqHeadPres := true }
  else w

def gopHead (mem : Memory) (w : Work) : Work :=
  if w.code = 0xb8 then
    let r := read_gop_head mem w.stat.std w.copy
    let w := w.have_read r.1
    { w with stat := { w.stat with
        hours := r.2.hours, minutes := r.2.minutes
        seconds := r.2.seconds, picture := r.2.picture } }
  else w

def pictureHead (mem : Memory) (numBytes : ℕ) (w : Work) : Work :=
  if w.code = 0x00 then
    let r := read_picture_head mem w.stat.std w.stat.vsh1 w.copy
    let w := w.have_read r.1
    let w := { w with stat := { w.stat with tempRef := r.2.1, vsh1 := r.2.2 } }
    if w.stat.std = .mpeg2 ∧ w.size < numBytes then
      w.have_read (read_picture_coding_ext mem w.copy)
    else w
  else w

/-- A sequence end code. -/
def seqEnd (w : Work) : Work :=
  if w.code = 0xb7 then
    { w with recallme := false, stat := { w.stat with fragmented := false } }
  else w

/-- `next_start_code` and the code behind it, both of which are tested here. -/
def nextCode (w : Work) : Part Work :=
  match next_start_code w.copy with
  | (n, c) =>
    if n < 0 then .errEof { w with copy := c }
    else match c.rest with
      | [] => .errEof { w with copy := c }
      | code :: rest => .goes { w with
          copy := ⟨c.buf ++ [code], rest⟩, stat := { w.stat with finalByte := code } }

/-- The inner loop over user data and extensions. `none`: it is still running. -/
def userData : ℕ → Work → Option (Part Work)
  | 0, _ => none
  | fuel + 1, w =>
    if w.code = 0xb2 ∨ w.code = 0xb5 then
      match w.nextCode with
      | .errEof w => some (.errEof w)
      | .goes w => userData fuel w
    else some (.goes w)

/-- One iteration of the loop over the headers, up to the inner loop. -/
def header (mem : Memory) (numBytes : ℕ) (w : Work) : Work :=
  (((w.seqHead mem).gopHead mem).pictureHead mem numBytes).seqEnd

/-- The loop over the headers. -/
def headers (mem : Memory) (numBytes : ℕ) : ℕ → Work → Option (Part Work)
  | 0, _ => none
  | fuel + 1, w =>
    if isHeader w.code ∧ w.recallme = true then
      match userData fuel (w.header mem numBytes) with
      | some (.goes w) => headers mem numBytes fuel w
      | r => r
    else some (.goes w)

end Work

/-! ### The loop over the slices -/

/-- `buf_aux`. -/
structure Aux where
  a : UInt8
  b : UInt8
  c : UInt8
  deriving DecidableEq

def Aux.bytes (x : Aux) : List UInt8 := [x.a, x.b, x.c]

def Aux.isStart (x : Aux) : Prop := x.a = 0x00 ∧ x.b = 0x00 ∧ x.c = 0x01

instance (x : Aux) : Decidable x.isStart := by unfold Aux.isStart; infer_instance

/-- The loop that copies a slice, with `*data_size` in `size`: what it copies, then `buf_aux`
and the rest of the file, or nothing if the file ends. -/
def scanSlice (numBytes : ℕ) (size : ℕ) (x : Aux) (rest : List UInt8) :
    List UInt8 × Option (Aux × List UInt8) :=
  if ¬ x.isStart ∧ size < numBytes then
    match rest with
    | [] => ([x.a], none)
    | d :: rest =>
      let r := scanSlice numBytes (size + 1) ⟨x.b, x.c, d⟩ rest
      (x.a :: r.1, r.2)
  else ([], some (x, rest))

/-- A slice, or as much of it as there is room for, and the four bytes behind it: `buf_aux` and
the byte that goes to `final_byte`, or nothing if the file ends. -/
def Copy.slice (numBytes : ℕ) (c : Copy) : Copy × Option (Aux × UInt8) :=
  match c.rest with
  | x :: y :: z :: rest =>
    match scanSlice numBytes c.buf.length ⟨x, y, z⟩ rest with
    | (copied, none) => (⟨c.buf ++ copied, []⟩, none)
    | (copied, some (aux, [])) => (⟨c.buf ++ copied ++ aux.bytes, []⟩, none)
    | (copied, some (aux, code :: rest)) =>
      (⟨c.buf ++ copied ++ aux.bytes ++ [code], rest⟩, some (aux, code))
  | _ => (⟨c.buf, []⟩, none)

namespace Work

/-- A slice that ends in the code of a header is the last one of the packet. -/
def slice (numBytes : ℕ) (w : Work) : Part (Work × Aux) :=
  match w.copy.slice numBytes with
  | (c, none) => .errEof { w with copy := c }
  | (c, some (x, code)) =>
    .goes ({ w with
      copy := c
      recallme := !decide (x.isStart ∧ isHeader code)
      stat := { w.stat with finalByte := code, fragmented := !decide x.isStart } }, x)

/-- The loop over the slices of a packet. -/
def slices (numBytes : ℕ) : ℕ → Work × Aux → Option (Part (Work × Aux))
  | 0, _ => none
  | fuel + 1, (w, x) =>
    if w.size < numBytes ∧ w.recallme = true then
      match w.slice numBytes with
      | .errEof w => some (.errEof w)
      | .goes r => slices numBytes fuel r
    else some (.goes (w, x))

end Work

/-! ### One call -/

/-- The media: the whole file and the part of it not read yet, and what is kept between two
calls, `none` until the file is opened. -/
structure MpegMedia where
  bytes : List UInt8
  rest : List UInt8
  stat : Option StaticMpegVideo
  bytePerPckt : ℕ
  bitrate : ℕ
  live : Bool

/-- `num_bytes`, with `DEFAULT_BYTE_X_PKT`. -/
def MpegMedia.numBytes (me : MpegMedia) : ℕ :=
  if me.bytePerPckt > 261 then me.bytePerPckt else 1400

/-- The media once `mediaopen` has succeeded. -/
def MpegMedia.opened (me : MpegMedia) : MpegMedia :=
  if me.stat = none then { me with rest := me.bytes } else me

/-- What a call finds besides the media: the result of `mediaopen`, the bytes that
`data_tmp` and `buf_aux` hold before anything is written to them, and, if `play_offset` was
changed, the results of the floating point arithmetic for the seek: the position that
`random_access` gives and the bitrate put in place of one that is 0. -/
structure Circumstances where
  mediaopen : ℤ
  mem : Memory
  aux : Aux
  seek : Option (ℕ × ℕ)

structure MpegPacket where
  data : List UInt8
  mtime : Option ℤ
  recallme : Bool
  marker : Bool
  deriving DecidableEq

/-- The end of a call: a packet, an error, or `data_tmp` was overrun. -/
inductive MpegEnd where
  | packet (p : MpegPacket) (me : MpegMedia)
  | error (res : ℤ) (me : MpegMedia)
  | overrun

/-- The size of `data_tmp`. -/
def dataTmpSize : ℕ := 65000

/-- A value of type `char`. -/
def charValue (x : UInt8) : ℤ := if x < 128 then x.toNat else x.toNat - 256

/-- The state that a call leaves in the media. -/
def MpegMedia.left (me : MpegMedia) (w : Work) : MpegMedia :=
  { me with rest := w.copy.rest, stat := some w.stat, bitrate := w.bitrate }

/-- A call returns, if all it copied has found room. -/
def settle (w : Work) (r : MpegEnd) : MpegEnd :=
  if w.size ≤ dataTmpSize then r else .overrun

/-- The end of `read_MPEG_video`: the time, the header and the packet. The last four bytes
copied are left to the next call if they are a start code. -/
def finish (me : MpegMedia) (w : Work) (x : Aux) : MpegEnd :=
  let c : Copy :=
    if x.isStart then ⟨w.copy.buf.take (w.copy.buf.length - 4), w.copy.rest⟩ else w.copy
  let s := w.stat
  let mtime : ℤ := charValue s.hours * 3600000 + charValue s.minutes * 60000 +
    charValue s.seconds * 1000 + charValue s.tempRef * 40 + charValue s.picture * 40
  let v := { s.vsh1 with
    t := 0, mbz := 0, an := 0, n := 0
    s := if w.seqHeadPres then 1 else 0
    e := if s.fragmented then 0 else 1 }
  let s := { s with vsh1 := v, dataTotal := s.dataTotal + c.buf.length - 4 }
  let p : MpegPacket :=
    { data := (v.bytes ++ c.buf.drop 4).take c.buf.length
      mtime := if me.live then none else some mtime
      recallme := w.recallme
      marker := !w.recallme }
  settle w (.packet p (me.left { w with copy := c, stat := s }))

/-- The beginning of a packet: the file behind the start code the last call left, and what
`data_tmp` holds. `flag` and `wasSeeking` as in the source. -/
structure Begin where
  work : Work
  flag : Bool
  wasSeeking : Bool

/-- `probe_standard` on the file from where it stands. -/
def Work.probe (mem : Memory) (w : Work) : Work :=
  let r := probe_standard mem w.stat.std w.copy
  { w with
    copy := r.1, stat := { w.stat with std := r.2.1 }
    bitrate := r.2.2.getD w.bitrate, seqHeadPres := true }

/-- The first lines of a call, up to the probe of a file that was just opened. -/
def firstProbe (mem : Memory) (me : MpegMedia) (s : StaticMpegVideo) : Work :=
  let w : Work := ⟨⟨(List.range 4).map mem, me.rest⟩, s, me.bitrate, false, false⟩
  if s.std = .toProbe then w.probe mem else w

/-- From the start of the call to the end of the random access. -/
def begin_packet (cs : Circumstances) (me : MpegMedia) (s : StaticMpegVideo) : Begin :=
  let flag := decide (s.std = .toProbe)
  let w := firstProbe cs.mem me s
  match cs.seek with
  | none => ⟨w, flag, false⟩
  | some (count, bitrate) =>
    let r : Work × Bool :=
      if w.bitrate = 0 then ({ w with bitrate := bitrate }, false)
      else
        let w := { w with stat := { w.stat with fragmented := false } }
        if flag then (w, true)
        else ({ w with copy := { w.copy with rest := me.bytes } }.probe cs.mem, true)
    ⟨{ r.1 with copy := { r.1.copy with rest := me.bytes.drop count } }, flag, r.2⟩

/-- The start code that the call before has left, or that the probe ended with. -/
def Begin.startCode (b : Begin) : Work :=
  let w := { b.work with recallme := true }
  if b.flag ∧ ¬ b.wasSeeking then
    { w with stat := { w.stat with finalByte := w.copy.back 1 } }
  else
    { w with copy := { w.copy with buf := w.copy.buf ++ [0x00, 0x00, 0x01, w.code] } }

/-- Behind a sequence end code the next start code is read first. -/
def Work.afterSeqEnd (w : Work) : Part Work :=
  if w.code = 0xb7 then w.nextCode else .goes w

def endOfFile (me : MpegMedia) (w : Work) : MpegEnd := settle w (.error errEof (me.left w))

/-- A call that goes on with the slice the call before has begun. -/
def restOfSlice (me : MpegMedia) (w : Work) : MpegEnd :=
  match w.slice me.numBytes with
  | .errEof w => endOfFile me w
  | .goes (w, x) =>
    finish me { w with stat := { w.stat with vsh1 := { w.stat.vsh1 with b := 0 } } } x

/-- A call that begins with a start code. -/
def headersAndSlices (cs : Circumstances) (fuel : ℕ) (me : MpegMedia) (w : Work) :
    Option MpegEnd :=
  match w.afterSeqEnd with
  | .errEof w => some (endOfFile me w)
  | .goes w =>
    match w.headers cs.mem me.numBytes fuel with
    | none => none
    | some (.errEof w) => some (endOfFile me w)
    | some (.goes w) =>
      match Work.slices me.numBytes fuel (w, cs.aux) with
      | none => none
      | some (.errEof w) => some (endOfFile me w)
      | some (.goes (w, x)) => some <|
        finish me { w with stat := { w.stat with vsh1 := { w.stat.vsh1 with b := 1 } } } x

/-- `read_MPEG_video`. `none`: it is still running. -/
def read_MPEG_video (cs : Circumstances) (fuel : ℕ) (me : MpegMedia) : Option MpegEnd :=
  if me.stat = none ∧ cs.mediaopen < 0 then some (.error cs.mediaopen me)
  else
    let me := me.opened
    let b := begin_packet cs me (me.stat.getD {})
    if b.work.stat.fragmented then some (restOfSlice me b.work)
    else headersAndSlices cs fuel me b.startCode

end Fenice.Mediainfo.Mpeg
