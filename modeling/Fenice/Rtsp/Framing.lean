import Fenice.Lib.CString

/-!
# Requests in the input buffer (RTSP_full_msg_rcvd.c, RTSP_remove_msg.c, RTSP_handler.c)

`in_buffer` is a list of `RTSP_BUFFERSIZE` bytes of which the first `in_size`
were received; what lies behind them is left over from earlier messages and is
seen by the string functions.
-/

namespace Fenice.Rtsp
open Fenice.CString

/-- `RTSP_BUFFERSIZE`. -/
def bufferSize : ℕ := 4096

/-- `HDR_CONTENTLENGTH`. -/
def hdrContentLength : Bytes := lit "Content-Length"

structure InBuffer where
  bytes : Bytes
  size : ℕ
  full : bytes.length = bufferSize
  fits : size ≤ bufferSize

namespace InBuffer

/-- The zeroed buffer of a new connection. -/
def empty : InBuffer := ⟨List.replicate bufferSize 0, 0, List.length_replicate, Nat.zero_le _⟩

def received (ib : InBuffer) : Bytes := ib.bytes.take ib.size

/-- `memcpy` of a read behind the received part. -/
def append (ib : InBuffer) (chunk : Bytes) (h : ib.size + chunk.length ≤ bufferSize) : InBuffer where
  bytes := ib.received ++ chunk ++ ib.bytes.drop (ib.size + chunk.length)
  size := ib.size + chunk.length
  full := by
    have := ib.full
    have := ib.fits
    simp only [received, List.length_append, List.length_take, List.length_drop]
    omega
  fits := h

@[simp] theorem length_received (ib : InBuffer) : ib.received.length = ib.size := by
  unfold received
  rw [List.length_take, ib.full, min_eq_left ib.fits]

end InBuffer

/-- Return value of `RTSP_full_msg_rcvd` with `hdr_len` and `body_len`. -/
inductive Framing where
  | error
  | notFull
  | method (hdrLen bodyLen : ℤ)
  | interleaved (hdrLen bodyLen : ℤ)
  deriving DecidableEq

/-- The count of terminators and of white space between them. `eomh` is 0
whenever this loop is entered. -/
def terminators : Bytes → ℕ → ℕ → ℕ × ℕ
  | [], tc, ws => (tc, ws)
  | c :: s, tc, ws =>
    if isEol c then terminators s (tc + 1) ws
    else if tc < 3 ∧ isBlank c = true then terminators s tc (ws + 1)
    else (tc, ws)

/-- The end of `RTSP_full_msg_rcvd`: zero bytes behind the message are counted
into the body. -/
def messageEnd (bytes : Bytes) (inSize ml : ℕ) (bl : ℤ) : Framing :=
  let behind := if ml ≤ inSize then (bytes.take inSize).drop ml else bytes.drop ml
  .method (int32 (ml - bl)) (bl + (behind.takeWhile (· == 0)).length)

/-- What is passed over between `Content-Length` and its number. -/
def isColonOrSpace (c : UInt8) : Bool := c == 58 || c == 32

/-- What follows a line: the end of the message, another line, or nothing yet. -/
inductive LineEnd where
  | last (ml : ℕ)
  | next (ml : ℕ)
  | notFull

/-- The terminators behind a line that ends at `ml`, and at the end of the header
the body of `bl` bytes. -/
def lineEnd (bytes : Bytes) (inSize ml : ℕ) (bl : ℤ) : LineEnd :=
  let t := terminators ((bytes.take inSize).drop ml) 0 0
  let eomh := 2 < t.1 ∨ t.1 = 2 ∧ bytes[ml]? = bytes[ml + 1]?
  let ml := ml + t.1 + t.2
  let ml := if eomh then uint32 (ml + bl) else ml
  if eomh ∧ ml ≤ inSize then .last ml
  else if inSize ≤ ml then .notFull
  else .next ml

/-- The loop of `RTSP_full_msg_rcvd`. Every round passes at least one byte, so
`inSize + 1` rounds are enough. -/
def scanLines (bytes : Bytes) (inSize : ℕ) : ℕ → ℕ → Bool → ℤ → Framing
  | 0, _, _, _ => .error
  | fuel + 1, ml, mb, bl =>
    if inSize < ml then messageEnd bytes inSize ml bl
    else
      let control := lineLen (bytes.drop ml)
      if control = 0 then .error
      else if inSize < ml + control then .notFull
      else
        match lineEnd bytes inSize (ml + control) bl with
        | .last ml => messageEnd bytes inSize ml bl
        | .notFull => .notFull
        | .next ml =>
          if mb = false ∧ startsNoCase hdrContentLength (bytes.drop ml) = true then
            let ml := ml + hdrContentLength.length
            let skip := (((bytes.take inSize).drop ml).takeWhile isColonOrSpace).length
            match scanInt (bytes.drop (ml + skip)) with
            | none => .error
            | some bl => scanLines bytes inSize fuel (ml + skip) true bl
          else scanLines bytes inSize fuel ml mb bl

/-- `RTSP_full_msg_rcvd`; the 16 bits behind the channel of an interleaved packet
are its length. -/
def RTSP_full_msg_rcvd (ib : InBuffer) : Framing :=
  if ib.bytes.head? = some 36 then
    let bl := 256 * (ib.bytes.getD 2 0).toNat + (ib.bytes.getD 3 0).toNat
    if bl ≤ ib.size then .interleaved 4 bl else .notFull
  else scanLines ib.bytes ib.size (ib.size + 1) 0 false 0

/-- `RTSP_remove_msg`. `none`: `in_size` would wrap, and the process goes on
outside of the buffer. -/
def RTSP_remove_msg (len : ℤ) (ib : InBuffer) : Option InBuffer :=
  if h : 0 ≤ len ∧ len ≤ ib.size then
    let n := len.toNat
    if ib.size - n ≠ 0 ∧ n ≠ 0 then
      some
        { bytes := ((ib.bytes.drop n ++ ib.bytes.drop (bufferSize - n)).take n) ++
            List.replicate (bufferSize - n) 0
          size := ib.size - n
          full := by
            have := ib.full
            have := ib.fits
            have hn : n ≤ ib.size := by omega
            simp only [List.length_append, List.length_take, List.length_drop,
              List.length_replicate]
            omega
          fits := by
            have := ib.fits
            omega }
    else some { ib with size := ib.size - n, fits := by have := ib.fits; omega }
  else none

/-- `RTSP_discard_msg` looks for the length of the message again. -/
def RTSP_discard_msg (ib : InBuffer) : Option InBuffer :=
  match RTSP_full_msg_rcvd ib with
  | .method h b | .interleaved h b => RTSP_remove_msg (int32 (h + b)) ib
  | _ => some ib

section Handler

variable {σ : Type*} (onMethod onInterleaved : σ → InBuffer → ℤ → ℤ → σ)

/-- The loop of `RTSP_handler` around what is done with a message; the handlers
do not write to `in_buffer`. `none`: the loop does not come to an end, or
leaves the buffer. -/
def handlerLoop : ℕ → σ → InBuffer → Option (σ × InBuffer × Framing)
  | 0, _, _ => none
  | fuel + 1, st, ib =>
    if ib.size = 0 then some (st, ib, .notFull)
    else
      match RTSP_full_msg_rcvd ib with
      | .method h b =>
        (RTSP_discard_msg ib).bind fun ib' => handlerLoop fuel (onMethod st ib h b) ib'
      | .interleaved h b =>
        (RTSP_discard_msg ib).bind fun ib' => handlerLoop fuel (onInterleaved st ib h b) ib'
      | r => some (st, ib, r)

/-- `RTSP_handler`: a round that removes something shortens the received part. -/
def RTSP_handler (st : σ) (ib : InBuffer) : Option (σ × InBuffer × Framing) :=
  handlerLoop onMethod onInterleaved (ib.size + 1) st ib

/-- The reading half of `rtsp_server`: the bytes of one read are put behind the
received part and handled. An invalid message only ends the handler, the
connection goes on. `none` besides: no room for the bytes. -/
def receive (st : σ) (ib : InBuffer) (chunk : Bytes) : Option (σ × InBuffer × Framing) :=
  if h : ib.size + chunk.length ≤ bufferSize then
    RTSP_handler onMethod onInterleaved st (ib.append chunk h)
  else none

end Handler

end Fenice.Rtsp
