import Fenice.Rtcp.Recv

/-!
# Compound packets

What a compound RTCP packet says, packet by packet, and what `RTCP_recv_packet` takes
from it. A field of 32 bits is kept as its four bytes.
-/

namespace Fenice.Rtcp

/-! ### Packets -/

/-- Four bytes of a packet. -/
structure Word where
  b0 : UInt8
  b1 : UInt8
  b2 : UInt8
  b3 : UInt8
  deriving DecidableEq

namespace Word

def bytes (w : Word) : Bytes := [w.b0, w.b1, w.b2, w.b3]

/-- The number in network order. -/
def value (w : Word) : ℕ :=
  w.b0.toNat * 16777216 + w.b1.toNat * 65536 + w.b2.toNat * 256 + w.b3.toNat

/-- The number a host of the other byte order takes them for. -/
def swapped (w : Word) : ℕ :=
  w.b0.toNat + w.b1.toNat * 256 + w.b2.toNat * 65536 + w.b3.toNat * 16777216

end Word

structure ReportBlock where
  ssrc : Word
  fractLost : UInt8
  lost0 : UInt8
  lost1 : UInt8
  lost2 : UInt8
  highestSeqNo : Word
  jitter : Word
  lastSR : Word
  delaySinceLastSR : Word
  deriving DecidableEq

namespace ReportBlock

def bytes (b : ReportBlock) : Bytes :=
  b.ssrc.bytes ++ [b.fractLost, b.lost0, b.lost1, b.lost2] ++ b.highestSeqNo.bytes ++
    b.jitter.bytes ++ b.lastSR.bytes ++ b.delaySinceLastSR.bytes

/-- The 24 bits of the cumulative loss. -/
def lost24 (b : ReportBlock) : ℕ :=
  b.lost0.toNat * 65536 + b.lost1.toNat * 256 + b.lost2.toNat

/-- They are a signed number. -/
def pktLost (b : ReportBlock) : ℤ :=
  if b.lost24 < 8388608 then b.lost24 else (b.lost24 : ℤ) - 16777216

/-- What a report block says. -/
def apply (b : ReportBlock) (st : RTCPStats) : RTCPStats :=
  { st with
    fractLost := b.fractLost
    pktLost := b.pktLost
    highestSeqNo := b.highestSeqNo.value
    jitter := b.jitter.value
    lastSR := b.lastSR.value
    delaySinceLastSR := b.delaySinceLastSR.value }

end ReportBlock

/-- An item of a source description. -/
structure Item where
  type : UInt8
  text : Bytes
  type_ne : type ≠ 0
  length_lt : text.length < 256
  deriving DecidableEq

def Item.bytes (i : Item) : Bytes := i.type :: i.text.length.toUInt8 :: i.text

structure Chunk where
  ssrc : Word
  items : List Item
  deriving DecidableEq

namespace Chunk

def itemBytes (c : Chunk) : Bytes := c.items.flatMap Item.bytes

/-- The items end with a zero, and the chunk at a multiple of four. -/
def bytes (c : Chunk) : Bytes :=
  c.ssrc.bytes ++ c.itemBytes ++ List.replicate (4 - c.itemBytes.length % 4) 0

def hasCname (c : Chunk) : Bool := c.items.any fun i => i.type = CNAME

end Chunk

inductive Body where
  | sr (ssrc ntpH ntpL rtpTimestamp pktCount octetCount : Word) (blocks : List ReportBlock)
  | rr (ssrc : Word) (blocks : List ReportBlock)
  | sdes (chunks : List Chunk)
  | bye (sources : List Word)
  | app (subtype : Fin 32) (ssrc name : Word)
  deriving DecidableEq

namespace Body

/-- The type, the five bits in front of it, and what stands behind the header. -/
def type : Body → UInt8
  | sr .. => SR
  | rr .. => RR
  | sdes _ => SDES
  | bye _ => BYE
  | app .. => APP

def count : Body → ℕ
  | sr _ _ _ _ _ _ blocks => blocks.length
  | rr _ blocks => blocks.length
  | sdes chunks => chunks.length
  | bye sources => sources.length
  | app subtype _ _ => subtype

def bytes : Body → Bytes
  | sr ssrc ntpH ntpL rtpTimestamp pktCount octetCount blocks =>
    ssrc.bytes ++ (ntpH.bytes ++ (ntpL.bytes ++ (rtpTimestamp.bytes ++ (pktCount.bytes ++
      (octetCount.bytes ++ blocks.flatMap ReportBlock.bytes)))))
  | rr ssrc blocks => ssrc.bytes ++ blocks.flatMap ReportBlock.bytes
  | sdes chunks => chunks.flatMap Chunk.bytes
  | bye sources => sources.flatMap Word.bytes
  | app _ ssrc name => ssrc.bytes ++ name.bytes

end Body

/-- A packet with a correct length field. The trailer is whatever may stand behind the
body: an extension of the profile, the reason of a BYE, the data of an APP, padding. -/
structure Packet where
  body : Body
  padding : Bool
  trailer : List Word
  count_lt : body.count < 32
  length_lt : body.bytes.length + 4 * trailer.length < 262144
  deriving DecidableEq

namespace Packet

def length (p : Packet) : ℕ := (p.body.bytes.length + 4 * p.trailer.length) / 4

def bytes (p : Packet) : Bytes :=
  (128 + (if p.padding then 32 else 0) + p.body.count).toUInt8 :: p.body.type ::
    (p.length / 256).toUInt8 :: (p.length % 256).toUInt8 ::
      (p.body.bytes ++ p.trailer.flatMap Word.bytes)

/-- The source whose CNAME a description gives. -/
def cname (p : Packet) : Option Word :=
  match p.body with
  | .sdes chunks => (chunks.reverse.find? Chunk.hasCname).map Chunk.ssrc
  | _ => none

/-- What a packet says about the client. -/
def apply (st : RTCPStats) (p : Packet) : RTCPStats :=
  match p.body with
  | .sr _ _ _ _ pktCount octetCount blocks =>
    blocks.foldl (fun st b => b.apply st)
      { st with
        srReceived := incr32 st.srReceived
        pktCount := pktCount.value
        octetCount := octetCount.value }
  | .rr _ blocks =>
    blocks.foldl (fun st b => b.apply st) { st with rrReceived := incr32 st.rrReceived }
  | .sdes _ => { st with destSSRC := (p.cname.map Word.value).getD st.destSSRC }
  | .bye _ => st
  | .app .. => st

end Packet

/-- The datagram made of the packets. -/
def compound (ps : List Packet) : Bytes := ps.flatMap Packet.bytes

/-- The statistics after a compound packet are those that its packets give one after the
other. -/
def DecodesRight (ps : List Packet) (stale : Memory) (st : RTCPStats) : Prop :=
  Returns (received (compound ps) stale) (compound ps).length st (ps.foldl Packet.apply st)

/-! ### Sizes -/

theorem flatMap_length_mod {α : Type*} {f : α → Bytes} (hf : ∀ a, (f a).length % 4 = 0)
    (l : List α) : (l.flatMap f).length % 4 = 0 := by
  induction l with
  | nil => rfl
  | cons a l ih =>
    have := hf a
    simp only [List.flatMap_cons, List.length_append]
    omega

@[simp] theorem Word.bytes_length (w : Word) : w.bytes.length = 4 := rfl

@[simp] theorem ReportBlock.bytes_length (b : ReportBlock) : b.bytes.length = 24 := rfl

theorem Chunk.bytes_length (c : Chunk) : c.bytes.length % 4 = 0 := by
  simp only [Chunk.bytes, List.length_append, Word.bytes_length, List.length_replicate]
  omega

theorem Body.bytes_length (b : Body) : b.bytes.length % 4 = 0 := by
  cases b with
  | sr ssrc ntpH ntpL rtpTimestamp pktCount octetCount blocks =>
    have := flatMap_length_mod (f := ReportBlock.bytes) (by simp) blocks
    simp only [Body.bytes, List.length_append, Word.bytes_length]
    omega
  | rr ssrc blocks =>
    have := flatMap_length_mod (f := ReportBlock.bytes) (by simp) blocks
    simp only [Body.bytes, List.length_append, Word.bytes_length]
    omega
  | sdes chunks => exact flatMap_length_mod Chunk.bytes_length chunks
  | bye sources => exact flatMap_length_mod (f := Word.bytes) (by simp) sources
  | app subtype ssrc name => simp [Body.bytes]

theorem words_length (l : List Word) : (l.flatMap Word.bytes).length = 4 * l.length := by
  induction l with
  | nil => rfl
  | cons w l ih =>
    simp only [List.flatMap_cons, List.length_append, Word.bytes_length, List.length_cons]
    omega

theorem Packet.bytes_length (p : Packet) : p.bytes.length = 4 * (p.length + 1) := by
  have h := p.body.bytes_length
  simp only [Packet.bytes, Packet.length, List.length_cons, List.length_append, words_length]
  omega

theorem Packet.length_lt_16 (p : Packet) : p.length < 65536 := by
  have h := p.length_lt
  unfold Packet.length
  omega

/-! ### What the reader takes from a packet -/

/-- What the loop over report blocks leaves: it looks at the first block only, and at one
byte of each number. -/
def ReportBlock.taken (b : ReportBlock) (st : RTCPStats) : RTCPStats :=
  { st with
    fractLost := b.fractLost
    pktLost := b.lost24
    highestSeqNo := ntohlByte b.highestSeqNo.b0
    jitter := ntohlByte b.jitter.b0
    lastSR := ntohlByte b.lastSR.b0
    delaySinceLastSR := ntohlByte b.delaySinceLastSR.b0 }

def takenBlocks (blocks : List ReportBlock) (st : RTCPStats) : RTCPStats :=
  match blocks with
  | [] => st
  | b :: _ => b.taken st

/-- The effect of the iteration for a packet somewhere in the buffer `m`. -/
def Packet.taken (m : Memory) (st : RTCPStats) (p : Packet) : RTCPStats :=
  match p.body with
  | .sr _ _ _ _ pktCount octetCount blocks =>
    takenBlocks blocks
      { st with
        srReceived := incr32 st.srReceived
        pktCount := pktCount.swapped
        octetCount := octetCount.swapped }
  | .rr _ blocks => takenBlocks blocks { st with rrReceived := incr32 st.rrReceived }
  | .sdes _ => if m 8 = CNAME then { st with destSSRC := ntohsAt m 4 } else st
  | .bye _ => st
  | .app .. => st

/-- The bytes `l` are in memory from `i` on. -/
def Holds (m : Memory) (i : ℤ) (l : Bytes) : Prop := ∀ k, k < l.length → m (i + k) = l.getD k 0

theorem Holds.at {m : Memory} {i : ℤ} {l : Bytes} (h : Holds m i l) (k : ℕ) {j : ℤ} {b : UInt8}
    (hb : l[k]? = some b) (hj : j = i + k := by omega) : m j = b := by
  obtain ⟨hk, he⟩ := List.getElem?_eq_some_iff.mp hb
  rw [hj, h k hk, List.getD_eq_getElem?_getD, hb]
  rfl

theorem received_holds (pre l post : Bytes) (stale : Memory) :
    Holds (received (pre ++ (l ++ post)) stale) pre.length l := by
  intro k hk
  have hin : (0 : ℤ) ≤ pre.length + k ∧ (pre.length + k : ℤ) < (pre ++ (l ++ post)).length := by
    simp only [List.length_append]
    omega
  have hnat : ((pre.length : ℤ) + k).toNat = pre.length + k := by omega
  rw [received, if_pos hin, hnat, List.getD_eq_getElem?_getD, List.getD_eq_getElem?_getD,
    List.getElem?_append_right (by omega), List.getElem?_append_left (by omega)]
  congr 2
  omega

theorem reportBlock_iterate (m : Memory) (i : ℤ) (n : ℕ) (st : RTCPStats) :
    (reportBlock m i)^[n + 1] st = reportBlock m i st := by
  induction n generalizing st with
  | zero => rfl
  | succ n ih =>
    rw [Function.iterate_succ_apply, ih]
    rfl

theorem reportBlocks_taken {m : Memory} {i : ℤ} {blocks : List ReportBlock} {rest : Bytes}
    (h : Holds m (i - 4) (blocks.flatMap ReportBlock.bytes ++ rest)) (st : RTCPStats) :
    (reportBlock m i)^[blocks.length] st = takenBlocks blocks st := by
  cases blocks with
  | nil => rfl
  | cons b bs =>
    rw [List.length_cons, reportBlock_iterate]
    have h0 : m i = b.fractLost := h.at 4 rfl
    have h1 : m (i + 1) = b.lost0 := h.at 5 rfl
    have h2 : m (i + 2) = b.lost1 := h.at 6 rfl
    have h3 : m (i + 3) = b.lost2 := h.at 7 rfl
    have h4 : m (i + 4) = b.highestSeqNo.b0 := h.at 8 rfl
    have h8 : m (i + 8) = b.jitter.b0 := h.at 12 rfl
    have h12 : m (i + 12) = b.lastSR.b0 := h.at 16 rfl
    have h16 : m (i + 16) = b.delaySinceLastSR.b0 := h.at 20 rfl
    simp only [reportBlock, takenBlocks, ReportBlock.taken, ReportBlock.lost24, h0, h1, h2, h3,
      h4, h8, h12, h16, Nat.cast_add, Nat.cast_mul, Nat.cast_ofNat]

theorem Holds.drop {m : Memory} {i : ℤ} {l l' : Bytes} (h : Holds m i (l ++ l')) {j : ℤ}
    (hj : j = i + l.length) : Holds m j l' := by
  intro k hk
  have hk' : l.length + k < (l ++ l').length := by
    rw [List.length_append]
    omega
  have he : l'[k]? = (l ++ l')[l.length + k]? := by
    rw [List.getElem?_append_right (by omega)]
    congr 1
    omega
  rw [List.getD_eq_getElem?_getD, he, ← List.getD_eq_getElem?_getD, ← h _ hk', hj]
  congr 1
  omega

theorem count_eq {m : Memory} {len : ℤ} {p : Packet} (h : Holds m len p.bytes) :
    count m len = p.body.count := by
  have h0 : m len = (128 + (if p.padding then 32 else 0) + p.body.count).toUInt8 := h.at 0 rfl
  have hc := p.count_lt
  rw [count, h0]
  simp only [Nat.toUInt8, UInt8.toNat_ofNat']
  split <;> omega

theorem recvSwitch_packet {m : Memory} {len : ℤ} {p : Packet} (h : Holds m len p.bytes)
    (st : RTCPStats) : recvSwitch m len st = some (p.taken m st) := by
  have hcount := count_eq h
  have htype : m (1 + len) = p.body.type := h.at 1 rfl
  have hbody : Holds m (len + 4) (p.body.bytes ++ p.trailer.flatMap Word.bytes) :=
    Holds.drop (l := [_, _, _, _]) h rfl
  rw [recvSwitch, htype, hcount, Packet.taken]
  cases hb : p.body with
  | sr ssrc ntpH ntpL rtpTimestamp pktCount octetCount blocks =>
    rw [hb] at hbody
    have hp : intAt m (20 + len) = pktCount.swapped := by
      rw [intAt, hbody.at 16 (j := 20 + len) rfl, hbody.at 17 (j := 20 + len + 1) rfl,
        hbody.at 18 (j := 20 + len + 2) rfl, hbody.at 19 (j := 20 + len + 3) rfl]
      rfl
    have ho : intAt m (24 + len) = octetCount.swapped := by
      rw [intAt, hbody.at 20 (j := 24 + len) rfl, hbody.at 21 (j := 24 + len + 1) rfl,
        hbody.at 22 (j := 24 + len + 2) rfl, hbody.at 23 (j := 24 + len + 3) rfl]
      rfl
    have hblocks : Holds m (32 + len - 4)
        (blocks.flatMap ReportBlock.bytes ++ p.trailer.flatMap Word.bytes) := by
      refine Holds.drop (l := ssrc.bytes ++ (ntpH.bytes ++ (ntpL.bytes ++ (rtpTimestamp.bytes ++
        (pktCount.bytes ++ octetCount.bytes))))) (i := len + 4) ?_ ?_
      · simpa only [Body.bytes, List.append_assoc] using hbody
      · simp only [List.length_append, Word.bytes_length]
        omega
    simp only [Body.type, Body.count, if_true, hp, ho]
    exact congrArg some (reportBlocks_taken hblocks _)
  | rr ssrc blocks =>
    rw [hb] at hbody
    have hblocks : Holds m (12 + len - 4)
        (blocks.flatMap ReportBlock.bytes ++ p.trailer.flatMap Word.bytes) := by
      refine Holds.drop (l := ssrc.bytes) (i := len + 4) ?_ ?_
      · simpa only [Body.bytes, List.append_assoc] using hbody
      · rw [Word.bytes_length]
        omega
    simp only [Body.type, Body.count, if_neg (show ¬ RR = SR by decide), if_true]
    exact congrArg some (reportBlocks_taken hblocks _)
  | sdes chunks =>
    simp only [Body.type, if_neg (show ¬ SDES = SR by decide),
      if_neg (show ¬ SDES = RR by decide), if_true]
    by_cases h8 : m 8 = CNAME
    · simp only [if_pos h8]
    · simp only [if_neg h8]
  | bye sources =>
    simp only [Body.type, if_neg (show ¬ BYE = SR by decide), if_neg (show ¬ BYE = RR by decide),
      if_neg (show ¬ BYE = SDES by decide), true_or, if_true]
  | app subtype ssrc name =>
    simp only [Body.type, if_neg (show ¬ APP = SR by decide), if_neg (show ¬ APP = RR by decide),
      if_neg (show ¬ APP = SDES by decide), or_true, if_true]

theorem advance_packet {m : Memory} {len : ℤ} {p : Packet} (h : Holds m len p.bytes)
    (hl : 0 ≤ len) (hr : len + p.bytes.length < 32768) :
    advance m len = len + p.bytes.length := by
  have h2 : m (len + 2) = (p.length / 256).toUInt8 := h.at 2 rfl
  have h3 : m (len + 2 + 1) = (p.length % 256).toUInt8 := h.at 3 rfl
  have hlt := p.length_lt_16
  have hsize := p.bytes_length
  have hfield : ntohsAt m (len + 2) = p.length := by
    rw [ntohsAt, h2, h3]
    simp only [Nat.toUInt8, UInt8.toNat_ofNat']
    omega
  rw [advance, hfield, toShort_of_range (by omega) (by omega)]
  omega

/-- The iterations over a compound packet, from the start of one of its packets on. -/
theorem recvLoop_packets (ps : List Packet) (pre : Bytes) (stale : Memory)
    (hn : (pre ++ compound ps).length ≤ rtcpBufferSize) (st : RTCPStats) :
    recvLoop (received (pre ++ compound ps) stale) (pre ++ compound ps).length (ps.length + 1)
      pre.length st =
        some (ps.foldl (Packet.taken (received (pre ++ compound ps) stale)) st) := by
  induction ps generalizing pre st with
  | nil =>
    have hu : ¬ toUnsigned pre.length < (pre ++ compound []).length := by
      simp only [compound, List.flatMap_nil, List.append_nil, toUnsigned]
      simp only [compound, List.flatMap_nil, List.append_nil, rtcpBufferSize] at hn
      omega
    rw [recvLoop, if_neg hu]
    rfl
  | cons p ps ih =>
    have hsplit : pre ++ compound (p :: ps) = pre ++ p.bytes ++ compound ps := by
      simp only [compound, List.flatMap_cons, List.append_assoc]
    have hholds : Holds (received (pre ++ compound (p :: ps)) stale) pre.length p.bytes := by
      have := received_holds pre p.bytes (compound ps) stale
      simpa only [compound, List.flatMap_cons] using this
    have hsize := p.bytes_length
    have htotal : (pre ++ compound (p :: ps)).length =
        pre.length + p.bytes.length + (compound ps).length := by
      rw [hsplit, List.length_append, List.length_append]
    unfold rtcpBufferSize at hn
    have hin : toUnsigned pre.length < (pre ++ compound (p :: ps)).length := by
      unfold toUnsigned
      omega
    have hadv := advance_packet hholds (by omega) (by omega)
    rw [List.length_cons, recvLoop, if_pos hin, recvSwitch_packet hholds]
    have hnext := ih (pre ++ p.bytes) (by rw [← hsplit]; exact hn)
      (p.taken (received (pre ++ compound (p :: ps)) stale) st)
    have hcursor : ((pre ++ p.bytes).length : ℤ) =
        advance (received (pre ++ compound (p :: ps)) stale) pre.length := by
      rw [hadv, List.length_append, Nat.cast_add]
    rw [← hsplit, hcursor] at hnext
    exact hnext

/-! ### The result of a run -/

theorem recvLoop_mono {m : Memory} {insize fuel : ℕ} {len : ℤ} {st st' : RTCPStats}
    (h : recvLoop m insize fuel len st = some st') (k : ℕ) :
    recvLoop m insize (fuel + k) len st = some st' := by
  induction fuel generalizing len st with
  | zero => cases h
  | succ fuel ih =>
    rw [Nat.add_right_comm, recvLoop]
    rw [recvLoop] at h
    by_cases hl : toUnsigned len < insize
    · rw [if_pos hl] at h ⊢
      cases hs : recvSwitch m len st with
      | none =>
        rw [hs] at h
        exact h
      | some st₁ =>
        rw [hs] at h
        exact ih h
    · rw [if_neg hl] at h ⊢
      exact h

theorem Returns.unique {m : Memory} {insize : ℕ} {st a b : RTCPStats}
    (ha : Returns m insize st a) (hb : Returns m insize st b) : a = b := by
  obtain ⟨f, hf⟩ := ha
  obtain ⟨g, hg⟩ := hb
  have h₁ := recvLoop_mono hf g
  have h₂ := recvLoop_mono hg f
  rw [Nat.add_comm, h₂] at h₁
  exact (Option.some.inj h₁).symm

theorem returns_compound (ps : List Packet) (hn : (compound ps).length ≤ rtcpBufferSize)
    (stale : Memory) (st : RTCPStats) :
    Returns (received (compound ps) stale) (compound ps).length st
      (ps.foldl (Packet.taken (received (compound ps) stale)) st) :=
  ⟨ps.length + 1, recvLoop_packets ps [] stale hn st⟩

/-! ### Where both agree -/

/-- The last result of `f` on a list. -/
def lastSome {α β : Type*} (f : α → Option β) : List α → Option β
  | [] => none
  | a :: l => (lastSome f l).or (f a)

/-- A part of a state that each element of a list overwrites or leaves alone holds at the
end what the last element that writes it says. -/
theorem foldl_override {σ α β γ : Type*} {step : σ → α → σ} {part : σ → γ} {f : α → Option β}
    {g : β → γ} (h : ∀ s a, part (step s a) = ((f a).map g).getD (part s)) (l : List α) (s : σ) :
    part (l.foldl step s) = ((lastSome f l).map g).getD (part s) := by
  induction l generalizing s with
  | nil => rfl
  | cons a l ih =>
    rw [List.foldl_cons, ih, h, lastSome]
    cases lastSome f l <;> cases f a <;> rfl

theorem map_getD_eq_iff {α β : Type*} (o : Option α) (g g' : α → β) (d : β) :
    (o.map g).getD d = (o.map g').getD d ↔ ∀ x ∈ o, g x = g' x := by
  cases o <;> simp

namespace Packet

def blocks (p : Packet) : List ReportBlock :=
  match p.body with
  | .sr _ _ _ _ _ _ blocks => blocks
  | .rr _ blocks => blocks
  | _ => []

/-- The first and the last report block of a packet that has any. -/
def reports (p : Packet) : Option (ReportBlock × ReportBlock) :=
  p.blocks.head?.bind fun first => p.blocks.getLast?.map fun last => (first, last)

/-- The counts that a sender gives. -/
def sender (p : Packet) : Option (Word × Word) :=
  match p.body with
  | .sr _ _ _ _ pktCount octetCount _ => some (pktCount, octetCount)
  | _ => none

def isSdes (p : Packet) : Bool := p.body.type = SDES

end Packet

/-- The statistics that report blocks are about, those that senders are about, and the
two counters. -/
def RTCPStats.report (st : RTCPStats) : UInt8 × ℤ × ℕ × ℕ × ℕ × ℕ :=
  (st.fractLost, st.pktLost, st.highestSeqNo, st.jitter, st.lastSR, st.delaySinceLastSR)

def RTCPStats.sender (st : RTCPStats) : ℕ × ℕ := (st.pktCount, st.octetCount)

def RTCPStats.received (st : RTCPStats) : ℕ × ℕ := (st.rrReceived, st.srReceived)

theorem RTCPStats.eq_iff (a b : RTCPStats) :
    a = b ↔ a.received = b.received ∧ a.sender = b.sender ∧ a.report = b.report ∧
      a.destSSRC = b.destSSRC := by
  simp only [RTCPStats.ext_iff, RTCPStats.received, RTCPStats.sender, RTCPStats.report,
    Prod.mk.injEq]
  tauto

section

variable (b : ReportBlock) (st : RTCPStats)

theorem ReportBlock.apply_received : (b.apply st).received = st.received := by
  rw [ReportBlock.apply, RTCPStats.received, RTCPStats.received]

theorem ReportBlock.apply_sender : (b.apply st).sender = st.sender := by
  rw [ReportBlock.apply, RTCPStats.sender, RTCPStats.sender]

theorem ReportBlock.apply_destSSRC : (b.apply st).destSSRC = st.destSSRC := by
  rw [ReportBlock.apply]

theorem ReportBlock.apply_report : (b.apply st).report = (b.apply {}).report := by
  unfold ReportBlock.apply
  rfl

theorem ReportBlock.apply_apply (c : ReportBlock) : c.apply (b.apply st) = c.apply st := by
  rw [RTCPStats.eq_iff]
  refine ⟨?_, ?_, ?_, ?_⟩
  · rw [c.apply_received, c.apply_received, b.apply_received]
  · rw [c.apply_sender, c.apply_sender, b.apply_sender]
  · rw [c.apply_report, c.apply_report st]
  · rw [c.apply_destSSRC, c.apply_destSSRC, b.apply_destSSRC]

end

theorem blocks_apply (blocks : List ReportBlock) (st : RTCPStats) :
    blocks.foldl (fun st b => b.apply st) st = (blocks.getLast?.map (·.apply st)).getD st := by
  induction blocks generalizing st with
  | nil => rfl
  | cons b bs ih =>
    rw [List.foldl_cons, ih]
    cases bs with
    | nil => simp
    | cons c cs =>
      rw [List.getLast?_cons_cons, List.getLast?_eq_some_getLast (List.cons_ne_nil c cs),
        Option.map_some, Option.map_some, Option.getD_some, Option.getD_some, b.apply_apply]

theorem blocks_apply_frame (blocks : List ReportBlock) (st : RTCPStats) :
    (blocks.foldl (fun st b => b.apply st) st).received = st.received ∧
      (blocks.foldl (fun st b => b.apply st) st).sender = st.sender ∧
      (blocks.foldl (fun st b => b.apply st) st).destSSRC = st.destSSRC := by
  induction blocks generalizing st with
  | nil => exact ⟨rfl, rfl, rfl⟩
  | cons b bs ih =>
    rw [List.foldl_cons, ← b.apply_received st, ← b.apply_sender st, ← b.apply_destSSRC st]
    exact ih _

theorem blocks_taken_frame (blocks : List ReportBlock) (st : RTCPStats) :
    (takenBlocks blocks st).received = st.received ∧
      (takenBlocks blocks st).sender = st.sender ∧
      (takenBlocks blocks st).destSSRC = st.destSSRC := by
  cases blocks <;> exact ⟨rfl, rfl, rfl⟩

/-- The first and the last of a list of blocks. -/
def ends (blocks : List ReportBlock) : Option (ReportBlock × ReportBlock) :=
  blocks.head?.bind fun first => blocks.getLast?.map fun last => (first, last)

theorem blocks_apply_report (blocks : List ReportBlock) (st : RTCPStats) :
    (blocks.foldl (fun st b => b.apply st) st).report =
      ((ends blocks).map fun r => (r.2.apply {}).report).getD st.report := by
  rw [blocks_apply]
  cases blocks with
  | nil => rfl
  | cons b bs =>
    rw [ends, List.getLast?_eq_some_getLast (List.cons_ne_nil b bs)]
    rfl

theorem blocks_taken_report (blocks : List ReportBlock) (st : RTCPStats) :
    (takenBlocks blocks st).report =
      ((ends blocks).map fun r => (r.1.taken {}).report).getD st.report := by
  cases blocks with
  | nil => rfl
  | cons b bs =>
    rw [ends, List.getLast?_eq_some_getLast (List.cons_ne_nil b bs)]
    rfl

section Parts

variable (m : Memory) (st : RTCPStats) (p : Packet)

theorem apply_report : (p.apply st).report =
    (p.reports.map fun r => (r.2.apply {}).report).getD st.report := by
  unfold Packet.apply Packet.reports Packet.blocks
  cases p.body with
  | sr ssrc ntpH ntpL rtpTimestamp pktCount octetCount blocks => exact blocks_apply_report blocks _
  | rr ssrc blocks => exact blocks_apply_report blocks _
  | sdes chunks => rfl
  | bye sources => rfl
  | app subtype ssrc name => rfl

theorem taken_report : (p.taken m st).report =
    (p.reports.map fun r => (r.1.taken {}).report).getD st.report := by
  unfold Packet.taken Packet.reports Packet.blocks
  cases p.body with
  | sr ssrc ntpH ntpL rtpTimestamp pktCount octetCount blocks => exact blocks_taken_report blocks _
  | rr ssrc blocks => exact blocks_taken_report blocks _
  | sdes chunks => dsimp only; split <;> rfl
  | bye sources => rfl
  | app subtype ssrc name => rfl

theorem apply_sender : (p.apply st).sender =
    (p.sender.map fun c => (c.1.value, c.2.value)).getD st.sender := by
  unfold Packet.apply Packet.sender
  cases p.body with
  | sr ssrc ntpH ntpL rtpTimestamp pktCount octetCount blocks =>
    exact (blocks_apply_frame blocks _).2.1
  | rr ssrc blocks => exact (blocks_apply_frame blocks _).2.1
  | sdes chunks => rfl
  | bye sources => rfl
  | app subtype ssrc name => rfl

theorem taken_sender : (p.taken m st).sender =
    (p.sender.map fun c => (c.1.swapped, c.2.swapped)).getD st.sender := by
  unfold Packet.taken Packet.sender
  cases p.body with
  | sr ssrc ntpH ntpL rtpTimestamp pktCount octetCount blocks =>
    exact (blocks_taken_frame blocks _).2.1
  | rr ssrc blocks => exact (blocks_taken_frame blocks _).2.1
  | sdes chunks => dsimp only; split <;> rfl
  | bye sources => rfl
  | app subtype ssrc name => rfl

theorem apply_destSSRC : (p.apply st).destSSRC =
    (p.cname.map Word.value).getD st.destSSRC := by
  unfold Packet.apply Packet.cname
  cases p.body with
  | sr ssrc ntpH ntpL rtpTimestamp pktCount octetCount blocks =>
    exact (blocks_apply_frame blocks _).2.2
  | rr ssrc blocks => exact (blocks_apply_frame blocks _).2.2
  | sdes chunks => rfl
  | bye sources => rfl
  | app subtype ssrc name => rfl

theorem taken_destSSRC : (p.taken m st).destSSRC =
    ((if p.isSdes ∧ m 8 = CNAME then some () else none).map fun _ => ntohsAt m 4).getD
      st.destSSRC := by
  unfold Packet.taken Packet.isSdes
  cases p.body with
  | sr ssrc ntpH ntpL rtpTimestamp pktCount octetCount blocks =>
    exact (blocks_taken_frame blocks _).2.2
  | rr ssrc blocks => exact (blocks_taken_frame blocks _).2.2
  | sdes chunks =>
    by_cases h8 : m 8 = CNAME <;> simp [h8, Body.type]
  | bye sources => rfl
  | app subtype ssrc name => rfl

theorem apply_received {st st' : RTCPStats} (h : st.received = st'.received) :
    (p.taken m st).received = (p.apply st').received := by
  obtain ⟨hr, hs⟩ := Prod.mk.inj h
  unfold Packet.taken Packet.apply
  cases p.body with
  | sr ssrc ntpH ntpL rtpTimestamp pktCount octetCount blocks =>
    rw [(blocks_taken_frame blocks _).1, (blocks_apply_frame blocks _).1]
    exact Prod.ext hr (congrArg incr32 hs)
  | rr ssrc blocks =>
    rw [(blocks_taken_frame blocks _).1, (blocks_apply_frame blocks _).1]
    exact Prod.ext (congrArg incr32 hr) hs
  | sdes chunks =>
    dsimp only
    split <;> exact h
  | bye sources => exact h
  | app subtype ssrc name => exact h

end Parts

theorem foldl_received (m : Memory) (ps : List Packet) {st st' : RTCPStats}
    (h : st.received = st'.received) :
    (ps.foldl (Packet.taken m) st).received = (ps.foldl Packet.apply st').received := by
  induction ps generalizing st st' with
  | nil => exact h
  | cons p ps ih => exact ih (apply_received m p h)

/-! ### When the reader is right -/

/-- The number is the first byte of `first`, followed by zeros. -/
def TopByte (first last : Word) : Prop := last = ⟨first.b0, 0, 0, 0⟩

instance (first last : Word) : Decidable (TopByte first last) := by
  unfold TopByte; infer_instance

theorem topByte_iff (first last : Word) :
    ntohlByte first.b0 = last.value ↔ TopByte first last := by
  obtain ⟨a, b, c, d⟩ := last
  have ha := a.toNat_lt
  have hb := b.toNat_lt
  have hc := c.toNat_lt
  have hd := d.toNat_lt
  have hf := first.b0.toNat_lt
  simp only [ntohlByte, Word.value, TopByte, Word.mk.injEq, ← UInt8.toNat_inj, UInt8.toNat_zero]
  omega

/-- Reading the first of the blocks gives what the last one says. -/
structure ReportBlock.Stands (first last : ReportBlock) : Prop where
  fractLost : first.fractLost = last.fractLost
  lost : first.lost24 = last.lost24
  nonneg : last.lost24 < 8388608
  highestSeqNo : TopByte first.highestSeqNo last.highestSeqNo
  jitter : TopByte first.jitter last.jitter
  lastSR : TopByte first.lastSR last.lastSR
  delaySinceLastSR : TopByte first.delaySinceLastSR last.delaySinceLastSR

theorem stands_iff (first last : ReportBlock) :
    (first.taken {}).report = (last.apply {}).report ↔ first.Stands last := by
  have hl : last.lost24 < 16777216 := by
    have h0 := last.lost0.toNat_lt
    have h1 := last.lost1.toNat_lt
    have h2 := last.lost2.toNat_lt
    unfold ReportBlock.lost24
    omega
  have hlost : (first.lost24 : ℤ) = last.pktLost ↔
      first.lost24 = last.lost24 ∧ last.lost24 < 8388608 := by
    unfold ReportBlock.pktLost
    split <;> omega
  simp only [RTCPStats.report, ReportBlock.taken, ReportBlock.apply, Prod.mk.injEq, hlost,
    topByte_iff]
  constructor
  · rintro ⟨hf, ⟨he, hn⟩, hh, hj, hs, hd⟩
    exact ⟨hf, he, hn, hh, hj, hs, hd⟩
  · rintro ⟨hf, he, hn, hh, hj, hs, hd⟩
    exact ⟨hf, ⟨he, hn⟩, hh, hj, hs, hd⟩

/-- A number that reads the same in both byte orders. -/
def Word.Symmetric (w : Word) : Prop := w.b0 = w.b3 ∧ w.b1 = w.b2

theorem symmetric_iff (w : Word) : w.swapped = w.value ↔ w.Symmetric := by
  have h0 := w.b0.toNat_lt
  have h1 := w.b1.toNat_lt
  have h2 := w.b2.toNat_lt
  have h3 := w.b3.toNat_lt
  simp only [Word.swapped, Word.value, Word.Symmetric, ← UInt8.toNat_inj]
  omega

/-- The source that is noted in the end: bytes 4 and 5 of the whole datagram if it has a
description anywhere and a 1 at byte 8. It is the one the descriptions name. -/
def SourceRight (ps : List Packet) (m : Memory) (st : RTCPStats) : Prop :=
  (if ps.any Packet.isSdes ∧ m 8 = CNAME then ntohsAt m 4 else st.destSSRC) =
    ((lastSome Packet.cname ps).map Word.value).getD st.destSSRC

instance (ps : List Packet) (m : Memory) (st : RTCPStats) : Decidable (SourceRight ps m st) := by
  unfold SourceRight; infer_instance

theorem lastSome_isSome {α : Type*} (c : α → Prop) [DecidablePred c] (l : List α) :
    lastSome (fun a => if c a then some () else none) l =
      if ∃ a ∈ l, c a then some () else none := by
  induction l with
  | nil => simp [lastSome]
  | cons a l ih =>
    rw [lastSome, ih]
    by_cases ha : c a <;> by_cases hl : ∃ a ∈ l, c a <;> simp [ha, hl]

theorem source_taken (ps : List Packet) (m : Memory) (st : RTCPStats) :
    (ps.foldl (Packet.taken m) st).destSSRC =
      if ps.any Packet.isSdes ∧ m 8 = CNAME then ntohsAt m 4 else st.destSSRC := by
  rw [foldl_override (taken_destSSRC m),
    lastSome_isSome fun p : Packet => p.isSdes = true ∧ m 8 = CNAME]
  have hiff : (∃ p ∈ ps, p.isSdes = true ∧ m 8 = CNAME) ↔
      ps.any Packet.isSdes = true ∧ m 8 = CNAME := by
    rw [List.any_eq_true]
    constructor
    · rintro ⟨p, hp, hs, h8⟩
      exact ⟨⟨p, hp, hs⟩, h8⟩
    · rintro ⟨⟨p, hp, hs⟩, h8⟩
      exact ⟨p, hp, hs, h8⟩
  by_cases h : ps.any Packet.isSdes = true ∧ m 8 = CNAME
  · rw [if_pos (hiff.mpr h), if_pos h]
    rfl
  · rw [if_neg fun hp => h (hiff.mp hp), if_neg h]
    rfl

/-- `RTCP_recv_packet` decodes exactly those compound packets rightly in which the last
report has a block that says in its first bytes what its last block says, the last sender's
counts are the same in both byte orders, and the source happens to be found. -/
theorem decodesRight_iff (ps : List Packet) (hn : (compound ps).length ≤ rtcpBufferSize)
    (stale : Memory) (st : RTCPStats) :
    DecodesRight ps stale st ↔
      (∀ r ∈ lastSome Packet.reports ps, r.1.Stands r.2) ∧
        (∀ c ∈ lastSome Packet.sender ps, c.1.Symmetric ∧ c.2.Symmetric) ∧
        SourceRight ps (received (compound ps) stale) st := by
  have hrun := returns_compound ps hn stale st
  have heq : DecodesRight ps stale st ↔
      ps.foldl (Packet.taken (received (compound ps) stale)) st = ps.foldl Packet.apply st := by
    constructor
    · exact fun h => hrun.unique h
    · intro h
      rw [DecodesRight, ← h]
      exact hrun
  have hcounted := foldl_received (received (compound ps) stale) ps (rfl : st.received = _)
  rw [heq, RTCPStats.eq_iff, foldl_override (taken_report (received (compound ps) stale)),
    foldl_override (taken_sender (received (compound ps) stale)), source_taken,
    foldl_override apply_report, foldl_override apply_sender, foldl_override apply_destSSRC,
    map_getD_eq_iff, map_getD_eq_iff]
  have hsender : ∀ c : Word × Word, (c.1.swapped, c.2.swapped) = (c.1.value, c.2.value) ↔
      c.1.Symmetric ∧ c.2.Symmetric := by
    intro c
    rw [Prod.mk.injEq, symmetric_iff, symmetric_iff]
  simp only [hcounted, true_and, hsender, stands_iff]
  constructor
  · rintro ⟨hs, hr, hd⟩
    exact ⟨hr, hs, hd⟩
  · rintro ⟨hr, hs, hd⟩
    exact ⟨hs, hr, hd⟩

/-- A receiver report with one block, and a description of its source in front of it. -/
def sampleBlock (highestSeqNo : Word) : ReportBlock :=
  ⟨⟨0, 0, 0, 9⟩, 12, 0, 0, 3, highestSeqNo, ⟨0, 0, 0, 0⟩, ⟨0, 0, 0, 0⟩, ⟨0, 0, 0, 0⟩⟩

def sampleReport (highestSeqNo : Word) : Packet where
  body := .rr ⟨0, 0, 18, 52⟩ [sampleBlock highestSeqNo]
  padding := false
  trailer := []
  count_lt := by simp [Body.count]
  length_lt := by simp [Body.bytes]

def sampleDescription : Packet where
  body := .sdes [⟨⟨0, 0, 0, 0⟩, [⟨CNAME, [97], by decide, by decide⟩]⟩]
  padding := false
  trailer := []
  count_lt := by decide
  length_lt := by decide

theorem sample_decodesRight :
    DecodesRight [sampleDescription, sampleReport ⟨1, 0, 0, 0⟩] (fun _ => 0) {} := by
  refine (decodesRight_iff _ (by decide) _ _).mpr ⟨?_, ?_, by decide⟩
  · intro r hr
    cases hr
    exact ⟨rfl, rfl, by decide, rfl, rfl, rfl, rfl⟩
  · intro c hc
    cases hc

/-- The highest sequence number 5 is noted as 0. -/
theorem sequence_number_lost :
    ¬ DecodesRight [sampleReport ⟨0, 0, 0, 5⟩] (fun _ => 0) {} := by
  intro h
  have hrun : Returns (received (compound [sampleReport ⟨0, 0, 0, 5⟩]) fun _ => 0)
      (compound [sampleReport ⟨0, 0, 0, 5⟩]).length {}
      { rrReceived := 1, fractLost := 12, pktLost := 3 } := ⟨2, by decide⟩
  have := congrArg RTCPStats.highestSeqNo (hrun.unique h)
  exact absurd this (by decide)

end Fenice.Rtcp
