import Fenice.Mediainfo.BitFields
import Fenice.Mediainfo.MpegHeads
import Mathlib.Data.Rat.Floor
import Mathlib.Data.Nat.Size

/-!
# MPEG-4 elementary streams (read_MPEG4ES_video.c, read_MPEG4ES_utils.c)

One call collects the headers up to a video object plane and that plane in `data`, up to the next
start code, and returns it; what is longer than a packet is kept in `more_data` and returned by
the calls that follow. Times are exact, or NaN.
-/

namespace Fenice.Mediainfo.Mpeg4
open Fenice.Mediainfo.Mpeg (Copy Memory next_start_code)

/-- `VOS_START_CODE`, `VOS_END_CODE`, `VO_START_CODE` and `VOP_START_CODE`. -/
def vosStartCode : UInt8 := 0xb0
def vosEndCode : UInt8 := 0xb1
def voStartCode : UInt8 := 0xb5
def vopStartCode : UInt8 := 0xb6

/-- A `double`; `none` is NaN. -/
abbrev Double := Option ℚ

/-- `a < b`, which is false if one of them is NaN. -/
def Double.less : Double → Double → Bool
  | some a, some b => decide (a < b)
  | _, _ => false

/-- `a <= b`. -/
def Double.leq (a b : Double) : Prop := ∃ p q, a = some p ∧ b = some q ∧ p ≤ q

/-- `a + x`. -/
def Double.plus (a : Double) (x : ℚ) : Double := a.map fun p => p + x

/-- `mpeg4_time_ref`. -/
structure Mpeg4TimeRef where
  vopTimeIncrementResolution : ℕ := 0
  vopTimeIncrement : ℕ := 0
  varTimeIncrement : ℕ := 0
  moduloTimeBase : ℕ := 0
  deriving DecidableEq

/-- `static_MPEG4_video_es`; `moreData` is as long as what was put there. -/
structure StaticMpeg4VideoEs where
  profileId : UInt8 := 0
  vtirBitlen : ℕ := 0
  ref1 : Mpeg4TimeRef := {}
  ref2 : Mpeg4TimeRef := {}
  lastNonBTimestamp : Double := some 0
  lastBTimestamp : Double := some 0
  timestamp : Double := some 0
  timeResolution : ℕ := 0
  finalByte : UInt8 := 0
  fragmented : Bool := false
  dataRead : ℕ := 0
  remainedDataSize : ℕ := 0
  moreData : List UInt8 := []
  vopCodingType : ℕ := 0
  deriving DecidableEq

/-- A call fails, or it writes behind `data` or reads behind the headers. -/
inductive Fault where
  | error (res : ℤ)
  | overrun
  deriving DecidableEq

/-- The size of `data`. -/
def dataSize : ℕ := 65000

/-- `ERR_EOF` and `ERR_PARSE`. -/
def errEof : ℤ := -8
def errParse : ℤ := -3

/-! ### Reading the file -/

/-- One byte to `data`. -/
def readByte (c : Copy) : Except Fault Copy :=
  match c.rest with
  | [] => .error (.error errEof)
  | x :: rest => if c.buf.length < dataSize then .ok ⟨c.buf ++ [x], rest⟩ else .error .overrun

/-- `next_start_code` and the byte behind it, both of which are tested. -/
def nextCode (c : Copy) : Except Fault Copy :=
  let r := next_start_code c
  if dataSize < r.2.buf.length then .error .overrun
  else if r.1 < 0 then .error (.error errEof)
  else readByte r.2

/-- `data` with some of the bytes behind `*data_size`, which the fields of a short header are
read from. -/
def text (mem : Memory) (c : Copy) : List UInt8 :=
  c.buf ++ (List.range 32).map fun i => mem (c.buf.length + i)

/-- `get_field (data, bits, &off)`. -/
def field (d : List UInt8) (bits off : ℕ) : Except Fault (ℕ × ℕ) :=
  match get_field d (BitVec.ofNat 32 bits) (BitVec.ofNat 32 off) with
  | none => .error .overrun
  | some (v, off) => .ok (v.toNat, off.toNat)

/-! ### Headers -/

def parse_visual_object_sequence (s : StaticMpeg4VideoEs) (c : Copy) :
    Except Fault (StaticMpeg4VideoEs × Copy) := do
  let c ← readByte c
  pure ({ s with profileId := c.back 1 }, c)

def parse_visual_object (mem : Memory) (c : Copy) : Except Fault Copy := do
  let off := c.buf.length * 8
  let c ← nextCode c
  let d := text mem c
  let (identifier, off) ← field d 1 off
  let _ ← field d 4 (if identifier ≠ 0 then off + 7 else off)
  pure c

def parse_video_object (c : Copy) : Except Fault Copy := nextCode c

/-- `ERR_PARSE` unless the bit at `off` is set. -/
def markerBit (d : List UInt8) (off : ℕ) : Except Fault ℕ := do
  let (bit, off) ← field d 1 off
  if bit = 0 then .error (.error errParse) else .ok off

/-- The vol control parameters; the offset behind them. -/
def skipControl (d : List UInt8) (off : ℕ) : Except Fault ℕ := do
  let (control, off) ← field d 1 off
  if control = 0 then .ok off
  else do
    let (vbv, off) ← field d 1 (off + 3)
    pure (if vbv ≠ 0 then off + 79 else off)

/-- The fields up to the first marker; the offset behind it. -/
def skipToResolution (d : List UInt8) (off : ℕ) : Except Fault ℕ := do
  let (identifier, off) ← field d 1 off
  let (aspect, off) ← field d 4 (if identifier ≠ 0 then off + 7 else off)
  let off ← skipControl d (if aspect = 15 then off + 16 else off)
  markerBit d (off + 2)

/-- The fixed VOP time increment, which must not be 0; 0 for a variable rate. -/
def fixedIncrement (d : List UInt8) (vtirBitlen off : ℕ) : Except Fault ℕ := do
  let (fixed, off) ← field d 1 off
  if fixed = 0 then .ok 0
  else do
    let (increment, _) ← field d vtirBitlen off
    if increment = 0 then .error (.error errParse) else .ok increment

def parse_video_object_layer (mem : Memory) (s : StaticMpeg4VideoEs) (c : Copy) :
    Except Fault (StaticMpeg4VideoEs × Copy) := do
  let off := c.buf.length * 8 + 9
  let c ← nextCode c
  let d := text mem c
  let off ← skipToResolution d off
  let (resolution, off) ← field d 16 off
  let off ← markerBit d off
  let vtirBitlen := Nat.size resolution
  let increment ← fixedIncrement d vtirBitlen off
  pure ({ s with
    vtirBitlen
    ref1 := { s.ref1 with
      vopTimeIncrementResolution := s.ref2.vopTimeIncrementResolution
      vopTimeIncrement := s.ref2.vopTimeIncrement }
    ref2 := { s.ref2 with
      vopTimeIncrementResolution := resolution, vopTimeIncrement := increment } }, c)

/-! ### A video object plane -/

/-- The loop that counts `modulo_time_base`, and the offset behind it. -/
def moduloTimeBase (d : List UInt8) (len : ℕ) : ℕ → ℕ → ℕ → Except Fault (ℕ × ℕ)
  | 0, n, off => .ok (n, off)
  | fuel + 1, n, off =>
    if off / 8 < len then do
      let (bit, off) ← field d 1 off
      if bit = 0 then .ok (n, off) else moduloTimeBase d len fuel (n + 1) off
    else .ok (n, off)

/-- The time of a number of increments. A resolution of 0 leaves no bits for the increment, so what
is multiplied with `1000 / 0.0` is 0 then, which gives NaN. -/
def Mpeg4TimeRef.time (r : Mpeg4TimeRef) : Double :=
  if r.vopTimeIncrementResolution = 0 then none
  else some (((r.moduloTimeBase : ℚ) * r.vopTimeIncrementResolution + r.varTimeIncrement) *
    (1000 / r.vopTimeIncrementResolution))

/-- The time of a plane that comes behind `last`: not before it and not far behind it. -/
def nextTime (last : Double) (step : ℚ) (t : Double) : Double :=
  let t := if t.less last then last.plus step else t
  if (last.plus (6 * step)).less t then last.plus step else t

/-- The times of a plane that is no B-frame. -/
def StaticMpeg4VideoEs.nonB (s : StaticMpeg4VideoEs) (base : ℕ) : StaticMpeg4VideoEs :=
  let s := { s with
    ref1 := { s.ref1 with moduloTimeBase := s.ref2.moduloTimeBase }
    ref2 := { s.ref2 with moduloTimeBase := (s.ref2.moduloTimeBase + base) % 2 ^ 32 } }
  let t := s.ref2.time
  let moduloTimeBase :=
    if t.less s.lastNonBTimestamp then (s.ref2.moduloTimeBase + 1) % 2 ^ 32
    else s.ref2.moduloTimeBase
  let t := nextTime s.lastNonBTimestamp s.timeResolution t
  { s with ref2 := { s.ref2 with moduloTimeBase }, timestamp := t, lastNonBTimestamp := t }

def StaticMpeg4VideoEs.bFrame (s : StaticMpeg4VideoEs) : StaticMpeg4VideoEs :=
  { s with timestamp := s.ref1.time, lastBTimestamp := s.ref1.time }

def StaticMpeg4VideoEs.plane (s : StaticMpeg4VideoEs) (codingType base increment : ℕ) :
    StaticMpeg4VideoEs :=
  let s := { s with
    vopCodingType := codingType
    ref1 := { s.ref1 with varTimeIncrement := increment }
    ref2 := { s.ref2 with varTimeIncrement := increment } }
  let s := if s.timeResolution = 0 ∧ increment ≠ 0 then
      { s with timeResolution :=
          ⌊(increment : ℚ) / s.ref2.vopTimeIncrementResolution * 1000⌋.toNat }
    else s
  if codingType ≠ 2 then s.nonB base else s.bFrame

def parse_video_object_plane (mem : Memory) (s : StaticMpeg4VideoEs) (c : Copy) :
    Except Fault (StaticMpeg4VideoEs × Copy) := do
  let off := c.buf.length * 8
  let c ← nextCode c
  let len := c.buf.length - 4
  let d := text mem c
  let (codingType, off) ← field d 2 off
  let (base, off) ← moduloTimeBase d len (8 * len) 0 off
  let off ← markerBit d off
  let (increment, _) ← field d s.vtirBitlen off
  pure (s.plane codingType base increment, c)

/-! ### One call -/

/-- One iteration of the loop over the headers, up to the next code. -/
def header (mem : Memory) (s : StaticMpeg4VideoEs) (c : Copy) :
    Except Fault (StaticMpeg4VideoEs × Copy) :=
  if s.finalByte = vosStartCode then do
    let (s, c) ← parse_visual_object_sequence s c
    let c ← nextCode c
    pure (s, c)
  else if s.finalByte = voStartCode then do
    let c ← parse_visual_object mem c
    pure (s, c)
  else if s.finalByte ≤ 0x1f then do
    let c ← parse_video_object c
    pure (s, c)
  else if s.finalByte ≤ 0x2f then parse_video_object_layer mem s c
  else do
    let c ← nextCode c
    pure (s, c)

/-- The loop over the headers. `none`: it is still running. -/
def headers (mem : Memory) : ℕ → StaticMpeg4VideoEs → Copy →
    Option (Except Fault (StaticMpeg4VideoEs × Copy))
  | 0, _, _ => none
  | fuel + 1, s, c =>
    if s.finalByte = vopStartCode then some (.ok (s, c))
    else match header mem s c with
      | .error f => some (.error f)
      | .ok (s, c) => headers mem fuel { s with finalByte := c.back 1 } c

/-- The media; `stat` is `none` until the file is opened. -/
structure Mpeg4Media where
  bytes : List UInt8
  rest : List UInt8
  stat : Option StaticMpeg4VideoEs := none
  bytePerPckt : ℤ := 0
  frameRate : ℕ := 0
  pktLen : ℚ := 0
  forceFrameRate : Bool := false
  live : Bool := false
  deriving DecidableEq

/-- `num_bytes`, with `DEFAULT_BYTE_X_PKT`. -/
def Mpeg4Media.numBytes (me : Mpeg4Media) : ℕ :=
  if me.bytePerPckt > 261 then me.bytePerPckt.toNat else 1400

structure Mpeg4Packet where
  data : List UInt8
  mtime : Double
  recallme : Bool
  marker : Bool
  deriving DecidableEq

/-- What a call finds: the result of `mediaopen`, the memory of `data`, and the value of
`*mtime`. -/
structure Call where
  mediaopen : ℤ
  mem : Memory
  mtime : ℚ

/-- The state at the start of a call, once the file is open. -/
def Mpeg4Media.start (me : Mpeg4Media) : StaticMpeg4VideoEs :=
  let s := me.stat.getD {}
  if s.ref2.vopTimeIncrementResolution = 0 then
    { s with
      ref1 := { s.ref1 with vopTimeIncrementResolution := me.frameRate }
      ref2 := { s.ref2 with vopTimeIncrementResolution := me.frameRate } }
  else s

/-- The next fragment of a plane that was too long for a packet. -/
def StaticMpeg4VideoEs.fragment (s : StaticMpeg4VideoEs) (numBytes : ℕ) :
    Mpeg4Packet × StaticMpeg4VideoEs :=
  let left := s.moreData.drop s.dataRead
  if s.remainedDataSize > numBytes then
    (⟨left.take numBytes, s.timestamp, true, false⟩,
      { s with
        remainedDataSize := s.remainedDataSize - numBytes, dataRead := s.dataRead + numBytes
        fragmented := true })
  else
    (⟨left.take s.remainedDataSize, s.timestamp, false, true⟩,
      { s with
        dataRead := s.dataRead + s.remainedDataSize, remainedDataSize := 0, fragmented := false })

/-- The end of a call that has collected `data`: a packet, or the first fragment. -/
def StaticMpeg4VideoEs.deliver (s : StaticMpeg4VideoEs) (numBytes : ℕ) (data : List UInt8) :
    List UInt8 × Bool × StaticMpeg4VideoEs :=
  if data.length > numBytes then
    (data.take numBytes, true, { s with
      moreData := data, remainedDataSize := data.length - numBytes, dataRead := numBytes
      fragmented := true })
  else (data, false, { s with fragmented := false })

/-- The start code that the last call has left in `final_byte`. -/
def StaticMpeg4VideoEs.front (s : StaticMpeg4VideoEs) : List UInt8 :=
  if s.finalByte = vosEndCode then [] else [0, 0, 1, s.finalByte]

/-- `pkt_len` and `time_resolution` follow each other. -/
def Mpeg4Media.resolve (me : Mpeg4Media) (s : StaticMpeg4VideoEs) (rest : List UInt8) :
    Mpeg4Media :=
  if s.timeResolution ≠ 0 ∧ me.forceFrameRate = false then
    { me with rest, stat := some s, pktLen := s.timeResolution }
  else { me with rest, stat := some { s with timeResolution := ⌊me.pktLen⌋.toNat } }

/-- The end of a call, once a plane is in `data`. -/
def Mpeg4Media.finish (me : Mpeg4Media) (call : Call) (s : StaticMpeg4VideoEs) (c : Copy) :
    Mpeg4Packet × Mpeg4Media :=
  let fresh := me.live ∧ |call.mtime| < 1
  if fresh ∧ s.ref2.moduloTimeBase ≠ 1 then
    -- skip until a key frame
    (⟨[], some call.mtime, true, false⟩,
      { me with rest := c.rest, stat := some { s with fragmented := false } })
  else
    let s := if fresh then
        { s with
          ref1 := { s.ref1 with moduloTimeBase := 0 }
          ref2 := { s.ref2 with moduloTimeBase := 0 }, timestamp := some 0 }
      else s
    let data := if s.finalByte = vosEndCode then c.buf else c.buf.take (c.buf.length - 4)
    let r := s.deliver me.numBytes data
    (⟨r.1, s.timestamp, r.2.1, !r.2.1⟩, me.resolve r.2.2 c.rest)

/-- The part of the file that a call reads from. -/
def Mpeg4Media.file (me : Mpeg4Media) : List UInt8 :=
  if me.stat = none then me.bytes else me.rest

/-- A call that begins at the start code the last one has left. -/
def Mpeg4Media.collect (me : Mpeg4Media) (call : Call) (s : StaticMpeg4VideoEs) :
    Option (Except Fault (Mpeg4Packet × Mpeg4Media)) :=
  (headers call.mem (me.file.length + 1) s ⟨s.front, me.file⟩).map fun r => do
    let (s, c) ← r
    let (s, c) ← parse_video_object_plane call.mem s c
    pure (me.finish call { s with finalByte := c.back 1 } c)

/-- `read_MPEG4ES_video`; `none`: it does not end. What a call that fails leaves behind (the place in
the file, `final_byte`, half of the fields) is not part of the result. -/
def read_MPEG4ES_video (me : Mpeg4Media) (call : Call) :
    Option (Except Fault (Mpeg4Packet × Mpeg4Media)) :=
  if me.stat = none ∧ call.mediaopen < 0 then some (.error (.error call.mediaopen))
  else if me.start.fragmented then
    let r := me.start.fragment me.numBytes
    some (.ok (r.1, { me with stat := some r.2 }))
  else me.collect call me.start

end Fenice.Mediainfo.Mpeg4
