import Mathlib.Tactic.Common
import Mathlib.Data.Nat.Notation

/-!
# Receiving H.264 packets

The payload format of H.264 over RTP from the receiver's side, as far as single
NAL unit packets and FU-A fragments go. A NAL unit is its header byte (forbidden
bit, `nal_ref_idc` in two bits, type in five) and its payload.
-/

namespace Fenice.H264

structure Packet where
  data : List UInt8
  marker : Bool
  deriving DecidableEq

/-- The fields of a header byte or of an FU indicator. -/
def forbidden (h : UInt8) : ℕ := h.toNat / 128
def refIdc (h : UInt8) : ℕ := h.toNat / 32 % 4
def nalType (h : UInt8) : ℕ := h.toNat % 32

/-- The start and the end bit of an FU header. -/
def isStart (h : UInt8) : Bool := h.toNat / 128 == 1
def isEnd (h : UInt8) : Bool := h.toNat / 64 % 2 == 1

/-- The types of single NAL unit packets; 28 is FU-A. -/
def isSingle (h : UInt8) : Bool := 1 ≤ nalType h && nalType h ≤ 23

/-- The header byte that an FU indicator and an FU header stand for. -/
def joinHeader (ind hdr : UInt8) : UInt8 :=
  (forbidden ind * 128 + refIdc ind * 32 + nalType hdr).toUInt8

/-- Fragments up to the one with the end bit, which must be the last packet. -/
def collect (acc : List UInt8) : List Packet → Option (List UInt8)
  | [] => none
  | p :: rest =>
    match p.data with
    | ind :: hdr :: body =>
      if nalType ind = 28 ∧ isStart hdr = false then
        if isEnd hdr then if rest = [] then some (acc ++ body) else none
        else collect (acc ++ body) rest
      else none
    | _ => none

/-- The NAL unit that a list of packets carries. -/
def reassemble : List Packet → Option (List UInt8)
  | [] => none
  | p :: rest =>
    match p.data with
    | [] => none
    | ind :: t =>
      if isSingle ind then if rest = [] then some p.data else none
      else
        match t with
        | [] => none
        | hdr :: body =>
          if nalType ind = 28 ∧ isStart hdr = true ∧ isEnd hdr = false then
            (collect body rest).map (joinHeader ind hdr :: ·)
          else none

/-- The packet is fragment `i` of `n` of a NAL unit with header `h`. -/
structure IsFragment (h : UInt8) (n i : ℕ) (p : Packet) (ind hdr : UInt8) (body : List UInt8) :
    Prop where
  data : p.data = ind :: hdr :: body
  forbidden_eq : forbidden ind = forbidden h
  refIdc_eq : refIdc ind = refIdc h
  fuA : nalType ind = 28
  type_eq : nalType hdr = nalType h
  start_first : isStart hdr = true ↔ i = 0
  end_last : isEnd hdr = true ↔ i + 1 = n
  marker_last : p.marker = true ↔ i + 1 = n
  body_ne : body ≠ []

/-- The packets carry the NAL unit to the receiver: in one packet if the payload has
at most `limit` bytes, otherwise in fragments. -/
structure Carries (limit : ℕ) (h : UInt8) (payload : List UInt8) (ps : List Packet) : Prop where
  reassembled : reassemble ps = some (h :: payload)
  single : payload.length ≤ limit → ps.length = 1
  fragments : limit < payload.length →
    ∀ i p, ps[i]? = some p → ∃ ind hdr body, IsFragment h ps.length i p ind hdr body

end Fenice.H264
