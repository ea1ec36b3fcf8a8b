import Fenice.Rtcp.Compound

/-!
# Sending RTCP (rtcp/RTCP_send_packet.c)

A packet is put together from C structures on a little-endian host: a bit field of a byte
takes the low byte of what is assigned, `htonl` of a number below `2 ^ 24` has a zero there,
and the bytes that fill up a structure are those of the stack.
-/

namespace Fenice.Rtcp

/-- The types that `RTCP_send_packet` has a case for. -/
inductive SendType where
  | SR
  | RR
  | SDES
  | BYE
  deriving DecidableEq

/-- What one call finds: `session->ssrc`, the time of day, the counts of the server, and
the bytes between the fields of its structures. The numbers in network order are words. -/
structure Call where
  type : SendType
  ssrc : Word
  ntpTimestampH : Word
  ntpTimestampL : Word
  rtpTimestamp : Word
  pktCount : Word
  octetCount : Word
  fill : Word
  deriving DecidableEq

/-- `RTCP_header` with `version = 2`; `hdr.length = htons ((pkt_size >> 2) - 1)`. -/
def header (count : ℕ) (pt : UInt8) (pktSize : ℕ) : Bytes :=
  [(128 + count % 32).toUInt8, pt, ((pktSize / 4 - 1) % 65536 / 256).toUInt8,
    ((pktSize / 4 - 1) % 256).toUInt8]

/-- `(unsigned char) htonl (x)`. -/
def htonlByte (x : ℕ) : UInt8 := (x / 16777216).toUInt8

/-- `RTCP_header_SR`: the counts are not converted. -/
def headerSR (c : Call) : Bytes :=
  c.ssrc.bytes ++ c.ntpTimestampH.bytes ++ c.ntpTimestampL.bytes ++ c.rtpTimestamp.bytes ++
    c.pktCount.bytes ++ c.octetCount.bytes

/-- `RTCP_header_SDES`, eight bytes. -/
def headerSDES (c : Call) (nameS : ℕ) : Bytes :=
  c.ssrc.bytes ++ [htonlByte 1, htonlByte nameS, c.fill.b0, c.fill.b1]

/-- `RTCP_header_BYE`, eight bytes; the reason has 19 characters. -/
def headerBYE (c : Call) : Bytes :=
  c.ssrc.bytes ++ [htonlByte 19, c.fill.b0, c.fill.b1, c.fill.b2]

/-- The packet that a call builds, for the host name `name`. -/
def pkt (name : Bytes) (c : Call) : Bytes :=
  match c.type with
  | .SR => header 0 SR (4 + 24) ++ headerSR c
  | .RR => header 0 RR (4 + 4) ++ c.ssrc.bytes
  | .SDES =>
    let size := 4 + 8 + name.length
    let pktSize := (if size % 4 ≠ 0 then 1 else 0) + size
    header 1 SDES pktSize ++ headerSDES c name.length ++ name ++
      List.replicate (pktSize - size) 0
  | .BYE => header 1 BYE (4 + 8) ++ headerBYE c

/-- `RTCP_send_packet`; `out` are the first `rtcp_outsize` bytes of `rtcp_outbuffer`. -/
def RTCP_send_packet (name : Bytes) (out : Bytes) (c : Call) : Bytes :=
  if out.length + (pkt name c).length ≤ rtcpBufferSize then out ++ pkt name c else out

/-- The calls fit in `rtcp_outbuffer`. -/
def Fits (name : Bytes) (calls : List Call) : Prop :=
  (calls.flatMap (pkt name)).length ≤ rtcpBufferSize

theorem foldl_send (name : Bytes) (calls : List Call) (out : Bytes)
    (h : out.length + (calls.flatMap (pkt name)).length ≤ rtcpBufferSize) :
    calls.foldl (RTCP_send_packet name) out = out ++ calls.flatMap (pkt name) := by
  induction calls generalizing out with
  | nil => simp
  | cons c calls ih =>
    simp only [List.flatMap_cons, List.length_append] at h
    have hc : RTCP_send_packet name out c = out ++ pkt name c := if_pos (by omega)
    rw [List.foldl_cons, hc, ih _ (by simp only [List.length_append]; omega), List.flatMap_cons,
      List.append_assoc]

/-! ### Framing -/

def lengthField (p : Bytes) : ℕ := (p.getD 2 0).toNat * 256 + (p.getD 3 0).toNat

def Framed (p : Bytes) : Prop := p.length % 4 = 0 ∧ p.length = 4 * (lengthField p + 1)

instance (p : Bytes) : Decidable (Framed p) := by
  unfold Framed; infer_instance

/-- Where the packets of a buffer start, the first one at `i`. -/
def offsets : ℤ → List Bytes → List ℤ
  | _, [] => []
  | i, p :: ps => i :: offsets (i + p.length) ps

/-- The cursors of the loop of `RTCP_recv_packet` from `len` on, if it ends. -/
inductive Visits (m : Memory) (insize : ℕ) : ℤ → List ℤ → Prop
  | done {len : ℤ} (h : ¬ toUnsigned len < insize) : Visits m insize len []
  | next {len : ℤ} {l : List ℤ} (h : toUnsigned len < insize) (hk : Known m len)
      (tail : Visits m insize (advance m len) l) : Visits m insize len (len :: l)

/-- The items of a chunk, up to the zero that ends them. -/
def itemsOf : ℕ → Bytes → List (UInt8 × Bytes)
  | fuel + 1, t :: n :: rest =>
    if t = 0 then [] else (t, rest.take n.toNat) :: itemsOf fuel (rest.drop n.toNat)
  | _, _ => []

/-- A source description with the text `name` in a CNAME item. -/
def NamesHost (name : Bytes) (p : Bytes) : Prop := (CNAME, name) ∈ itemsOf p.length (p.drop 8)

instance (name p : Bytes) : Decidable (NamesHost name p) := by
  unfold NamesHost; infer_instance

/-- What the calls leave in `rtcp_outbuffer` is well framed, and each description gives the
name of the host. -/
structure WellFramed (name : Bytes) (calls : List Call) (stale : Memory) : Prop where
  framed : ∀ c ∈ calls, Framed (pkt name c)
  visits : Visits (received (calls.foldl (RTCP_send_packet name) []) stale)
    (calls.foldl (RTCP_send_packet name) []).length 0 (offsets 0 (calls.map (pkt name)))
  cname : ∀ c ∈ calls, c.type = .SDES → NamesHost name (pkt name c)

theorem advance_framed {m : Memory} {len : ℤ} {p : Bytes} (h : Holds m len p) (hp : Framed p)
    (hl : 0 ≤ len) (hr : len + p.length < 32768) : advance m len = len + p.length := by
  have hsize := hp.2
  have h2 : m (len + 2) = p.getD 2 0 := h 2 (by omega)
  have h3 : m (len + 3) = p.getD 3 0 := h 3 (by omega)
  have hfield : ntohsAt m (len + 2) = lengthField p := by
    rw [ntohsAt, add_assoc, h2]
    exact congrArg _ (congrArg UInt8.toNat h3)
  rw [advance, hfield, toShort_of_range (by omega) (by omega)]
  omega

def KnownType (p : Bytes) : Prop :=
  p.getD 1 0 = SR ∨ p.getD 1 0 = RR ∨ p.getD 1 0 = SDES ∨ p.getD 1 0 = BYE ∨ p.getD 1 0 = APP

/-- The reader's walk over a buffer of framed packets, from the start of one of them on. -/
theorem visits_packets (ps : List Bytes) (pre : Bytes) (stale : Memory)
    (hp : ∀ p ∈ ps, Framed p ∧ KnownType p) (hn : (pre ++ ps.flatten).length ≤ rtcpBufferSize) :
    Visits (received (pre ++ ps.flatten) stale) (pre ++ ps.flatten).length pre.length
      (offsets pre.length ps) := by
  induction ps generalizing pre with
  | nil =>
    refine .done ?_
    simp only [List.flatten_nil, List.append_nil, toUnsigned]
    simp only [List.flatten_nil, List.append_nil, rtcpBufferSize] at hn
    omega
  | cons p ps ih =>
    obtain ⟨⟨hframed, hknown⟩, hps⟩ := List.forall_mem_cons.mp hp
    have hsplit : pre ++ (p :: ps).flatten = pre ++ p ++ ps.flatten := by
      simp only [List.flatten_cons, List.append_assoc]
    have hholds : Holds (received (pre ++ (p :: ps).flatten) stale) pre.length p := by
      rw [List.flatten_cons]
      exact received_holds pre p ps.flatten stale
    have htotal : (pre ++ (p :: ps).flatten).length =
        pre.length + p.length + ps.flatten.length := by
      rw [hsplit, List.length_append, List.length_append]
    have hsize := hframed.2
    unfold rtcpBufferSize at hn
    have hadv := advance_framed hholds hframed (by omega) (by omega)
    refine .next ?_ ?_ ?_
    · unfold toUnsigned
      omega
    · have ht := hholds 1 (by omega)
      rw [Known, show (1 : ℤ) + pre.length = pre.length + (1 : ℕ) by omega, ht]
      exact hknown
    · have htail := ih (pre ++ p) hps (by rw [← hsplit]; exact hn)
      have hcursor : ((pre ++ p).length : ℤ) = pre.length + p.length := by
        rw [List.length_append, Nat.cast_add]
      rw [← hsplit, hcursor] at htail
      rw [hadv]
      exact htail

theorem pkt_known (name : Bytes) (c : Call) : KnownType (pkt name c) := by
  unfold pkt
  cases c.type with
  | SR => exact Or.inl rfl
  | RR => exact Or.inr (Or.inl rfl)
  | SDES => exact Or.inr (Or.inr (Or.inl rfl))
  | BYE => exact Or.inr (Or.inr (Or.inr (Or.inl rfl)))

theorem pkt_SDES_length (name : Bytes) {c : Call} (h : c.type = .SDES) :
    (pkt name c).length = 12 + name.length + if name.length % 4 = 0 then 0 else 1 := by
  rw [pkt, h]
  simp only [header, headerSDES, List.length_append, List.length_cons, List.length_nil,
    List.length_replicate, Word.bytes_length]
  split_ifs <;> omega

theorem pkt_framed (name : Bytes) {c : Call} (h : c.type ≠ .SDES) : Framed (pkt name c) := by
  cases ht : c.type with
  | SR => simp [Framed, lengthField, pkt, ht, header, headerSR]
  | RR => simp [Framed, lengthField, pkt, ht, header, Word.bytes]
  | SDES => exact absurd ht h
  | BYE => simp [Framed, lengthField, pkt, ht, header, headerBYE]

/-- A description is framed if one byte is enough to fill the name up to a multiple of four. -/
theorem pkt_SDES_framed (name : Bytes) {c : Call} (h : c.type = .SDES)
    (hn : (pkt name c).length ≤ rtcpBufferSize) :
    Framed (pkt name c) ↔ name.length % 4 = 0 ∨ name.length % 4 = 3 := by
  have hlen := pkt_SDES_length name h
  have hfield : lengthField (pkt name c) = ((pkt name c).length / 4 - 1) % 65536 := by
    have hsize : (if (4 + 8 + name.length) % 4 ≠ 0 then 1 else 0) + (4 + 8 + name.length) =
        (pkt name c).length := by
      rw [hlen]
      split_ifs <;> omega
    have h2 : (pkt name c).getD 2 0 = (((pkt name c).length / 4 - 1) % 65536 / 256).toUInt8 := by
      rw [← hsize, pkt, h]
      rfl
    have h3 : (pkt name c).getD 3 0 = (((pkt name c).length / 4 - 1) % 256).toUInt8 := by
      rw [← hsize, pkt, h]
      rfl
    rw [lengthField, h2, h3]
    simp only [Nat.toUInt8, UInt8.toNat_ofNat']
    omega
  unfold Framed
  rw [hfield, hlen]
  rw [hlen] at hn
  unfold rtcpBufferSize at hn
  split_ifs at hn ⊢ <;> omega

/-- The type of the first item is a zero, so the description has no items. -/
theorem not_namesHost (name name' : Bytes) {c : Call} (h : c.type = .SDES) :
    ¬ NamesHost name' (pkt name c) := by
  obtain ⟨rest, hdrop⟩ : ∃ rest, (pkt name c).drop 8 = 0 :: htonlByte name.length :: rest := by
    rw [pkt, h]
    exact ⟨_, rfl⟩
  rw [NamesHost, hdrop]
  cases (pkt name c).length <;> simp [itemsOf]

/-! ### Sequences of calls -/

theorem offsets_of_fits {name : Bytes} {calls : List Call} (h : Fits name calls) :
    calls.foldl (RTCP_send_packet name) [] = (calls.map (pkt name)).flatten := by
  rw [foldl_send name calls [] (by simpa [Fits] using h), List.nil_append, List.flatMap_def]

theorem pkt_length_of_fits {name : Bytes} {calls : List Call} (h : Fits name calls) {c : Call}
    (hc : c ∈ calls) : (pkt name c).length ≤ rtcpBufferSize := by
  obtain ⟨before, behind, rfl⟩ := List.append_of_mem hc
  simp only [Fits, List.flatMap_append, List.flatMap_cons, List.length_append] at h
  omega

/-- Calls whose packets are framed leave a buffer that the reader walks packet by packet. -/
theorem visits_calls {name : Bytes} {calls : List Call} (h : Fits name calls) (stale : Memory)
    (hf : ∀ c ∈ calls, Framed (pkt name c)) :
    Visits (received (calls.foldl (RTCP_send_packet name) []) stale)
      (calls.foldl (RTCP_send_packet name) []).length 0 (offsets 0 (calls.map (pkt name))) := by
  have hps : ∀ p ∈ calls.map (pkt name), Framed p ∧ KnownType p := by
    intro p hp
    obtain ⟨c, hc, rfl⟩ := List.mem_map.mp hp
    exact ⟨hf c hc, pkt_known name c⟩
  have hn : ([] ++ (calls.map (pkt name)).flatten).length ≤ rtcpBufferSize := by
    rw [List.nil_append, ← List.flatMap_def]
    exact h
  have hvisits := visits_packets (calls.map (pkt name)) [] stale hps hn
  rw [offsets_of_fits h]
  exact hvisits

/-- The framing is right exactly if the name of the host has a length of 0 or 3 modulo 4, or
is not sent. -/
theorem framed_iff {name : Bytes} {calls : List Call} (h : Fits name calls) :
    (∀ c ∈ calls, Framed (pkt name c)) ↔
      ∀ c ∈ calls, c.type = .SDES → name.length % 4 = 0 ∨ name.length % 4 = 3 := by
  constructor
  · intro hf c hc ht
    exact (pkt_SDES_framed name ht (pkt_length_of_fits h hc)).mp (hf c hc)
  · intro hn c hc
    by_cases ht : c.type = .SDES
    · exact (pkt_SDES_framed name ht (pkt_length_of_fits h hc)).mpr (hn c hc ht)
    · exact pkt_framed name ht

/-- What the calls leave is as it should be exactly if no description is among them. -/
theorem wellFramed_iff (name : Bytes) (calls : List Call) (h : Fits name calls)
    (stale : Memory) : WellFramed name calls stale ↔ ∀ c ∈ calls, c.type ≠ .SDES := by
  constructor
  · intro hw c hc ht
    exact not_namesHost name name ht (hw.cname c hc ht)
  · intro hn
    have hf : ∀ c ∈ calls, Framed (pkt name c) := fun c hc => pkt_framed name (hn c hc)
    exact ⟨hf, visits_calls h stale hf, fun c hc ht => absurd ht (hn c hc)⟩

/-- A call for a server that has sent nothing. -/
def sampleCall (type : SendType) : Call :=
  ⟨type, ⟨0, 0, 18, 52⟩, ⟨0, 0, 0, 1⟩, ⟨0, 0, 0, 2⟩, ⟨0, 0, 0, 3⟩, ⟨0, 0, 0, 0⟩, ⟨0, 0, 0, 0⟩,
    ⟨0, 0, 0, 0⟩⟩

theorem report_bye_wellFramed :
    WellFramed [97, 98] [sampleCall .RR, sampleCall .SR, sampleCall .BYE] fun _ => 0 :=
  (wellFramed_iff _ _ (by unfold Fits; decide) _).mpr (by decide)

/-- For the host `ab` the description has 15 bytes and the length field of 12. -/
theorem description_misframed :
    ¬ WellFramed [97, 98] [sampleCall .RR, sampleCall .SDES] fun _ => 0 := by
  intro h
  have := h.framed (sampleCall .SDES) (by decide)
  exact absurd this (by decide)

end Fenice.Rtcp
