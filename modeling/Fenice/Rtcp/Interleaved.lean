import Fenice.Rtcp.Recv
import Fenice.Rtsp.Framing

/-!
# Interleaved packets (rtsp/RTSP_handler.c, rtp.h)

The channel of a packet is read through a pointer to `char`, and is looked for in the union
`u` of each session, where an interleaved session keeps its channels and a UDP session the
address of its client.
-/

namespace Fenice.Rtcp.Interleaved
open Fenice.Rtsp

/-- A byte of `in_buffer`, as `char` has a sign. -/
def toChar (b : UInt8) : ℤ := if b.toNat < 128 then b.toNat else b.toNat - 256

/-- `stream_pair`. -/
structure StreamPair where
  RTP : UInt16
  RTCP : UInt16
  deriving DecidableEq

/-- `RTP_transport`: `type` with the member of `u` that goes with it. Of the addresses of a UDP
session only the two fields that begin `rtp_peer` are kept. -/
inductive RTPTransport where
  | rtpAvp (saFamily sinPort : UInt16)
  | rtpAvpTcp (interleaved : StreamPair)
  | rtpAvpSctp (streams : StreamPair)
  deriving DecidableEq

/-- `u.tcp.interleaved`, whatever the type is: the members of the union begin together. -/
def RTPTransport.interleaved : RTPTransport → StreamPair
  | .rtpAvp saFamily sinPort => ⟨saFamily, sinPort⟩
  | .rtpAvpTcp interleaved => interleaved
  | .rtpAvpSctp streams => streams

/-- What `RTSP_handler` and `RTCP_recv_packet` use of `RTP_session`. -/
structure RTPSession where
  transport : RTPTransport
  rtcpInbuffer : Memory
  rtcpInsize : ℕ
  rtcpStats : RTCPStats

namespace RTPSession

/-- One of the two channels is `m`. -/
def Has (m : ℤ) (s : RTPSession) : Prop :=
  (s.transport.interleaved.RTP.toNat : ℤ) = m ∨ (s.transport.interleaved.RTCP.toNat : ℤ) = m

instance (m : ℤ) (s : RTPSession) : Decidable (s.Has m) := by
  unfold Has; infer_instance

/-- The packet is copied, with as many bytes behind it as stand in front, if all of them fit. -/
def copyIn (s : RTPSession) (ib : InBuffer) (hlen blen : ℕ) : RTPSession :=
  if hlen + blen ≤ rtcpBufferSize then
    { s with
      rtcpInbuffer := fun i =>
        if 0 ≤ i ∧ i < hlen + blen then ib.bytes.getD (hlen + i.toNat) 0 else s.rtcpInbuffer i
      rtcpInsize := blen }
  else s

/-- An interleaved session with `c` as its RTCP channel. -/
def Negotiated (c : UInt8) (s : RTPSession) : Prop :=
  ∃ p, s.transport = .rtpAvpTcp p ∧ p.RTCP.toNat = c.toNat

instance (c : UInt8) (s : RTPSession) : Decidable (s.Negotiated c) :=
  match h : s.transport with
  | .rtpAvpTcp p => decidable_of_iff (p.RTCP.toNat = c.toNat) (by simp [Negotiated, h])
  | .rtpAvp _ _ => isFalse (by simp [Negotiated, h])
  | .rtpAvpSctp _ => isFalse (by simp [Negotiated, h])

end RTPSession

/-- A call of `RTCP_recv_packet`, with the sessions around the one it is for. -/
structure Call where
  before : List RTPSession
  session : RTPSession
  after : List RTPSession

/-- The search in the list of the connection. -/
def search (m : ℤ) : List RTPSession → Option Call
  | [] => none
  | s :: l =>
    if s.Has m then some ⟨[], s, l⟩
    else (search m l).map fun found => { found with before := s :: found.before }

/-- The case `RTSP_interlvd_rcvd`, up to the call of `RTCP_recv_packet`. -/
def interlvdRcvd (l : List RTPSession) (ib : InBuffer) (hlen blen : ℕ) : Option Call :=
  let m := toChar (ib.bytes.getD 1 0)
  match search m l with
  | none => none
  | some found =>
    if m = found.session.transport.interleaved.RTCP.toNat then
      some { found with session := found.session.copyIn ib hlen blen }
    else none

/-- What the round of `RTSP_handler` that meets a packet at the front of `in_buffer` calls. -/
def handled (l : List RTPSession) (ib : InBuffer) : Option Call :=
  match RTSP_full_msg_rcvd ib with
  | .interleaved hlen blen => interlvdRcvd l ib hlen.toNat blen.toNat
  | _ => none

/-- A cursor and the statistics with which the loop of `RTCP_recv_packet` is at its test. -/
inductive Moment (m : Memory) (insize : ℕ) (st : RTCPStats) : ℤ → RTCPStats → Prop
  | start : Moment m insize st 0 st
  | next {len : ℤ} {st₁ st₂ : RTCPStats} (h : Moment m insize st len st₁)
      (hlt : toUnsigned len < insize) (hs : recvSwitch m len st₁ = some st₂) :
      Moment m insize st (advance m len) st₂

/-- The sessions of the connection at some moment while the packet is handled. -/
inductive During (l : List RTPSession) (ib : InBuffer) : List RTPSession → Prop
  | start : During l ib l
  | recv {call : Call} {len : ℤ} {st : RTCPStats} (h : handled l ib = some call)
      (hm : Moment call.session.rtcpInbuffer call.session.rtcpInsize call.session.rtcpStats
        len st) :
      During l ib (call.before ++ { call.session with rtcpStats := st } :: call.after)

/-- A complete packet for channel `c` stands at the front of `in_buffer`. -/
def Packet (ib : InBuffer) (c : UInt8) (payload : Bytes) : Prop :=
  ∃ hi lo rest, ib.received = 36 :: c :: hi :: lo :: (payload ++ rest) ∧
    256 * hi.toNat + lo.toNat = payload.length

/-- The test on the size; the header is counted, although it is not copied. -/
def PacketFits (payload : Bytes) : Prop := 4 + payload.length ≤ rtcpBufferSize

instance (payload : Bytes) : Decidable (PacketFits payload) := by
  unfold PacketFits; infer_instance

/-- `RTCP_recv_packet` is run for the packets on the RTCP channel of an interleaved session, on
that session and with the payload in its buffer; other packets leave all statistics alone. -/
structure Delivered (l : List RTPSession) (ib : InBuffer) (c : UInt8) (payload : Bytes) :
    Prop where
  runs : PacketFits payload → ((handled l ib).isSome ↔ ∃ s ∈ l, s.Negotiated c)
  right : PacketFits payload → ∀ call ∈ handled l ib,
    (∃ s, l = call.before ++ s :: call.after ∧ s.Negotiated c) ∧
      call.session.rtcpInsize = payload.length ∧
      ∀ i (h : i < payload.length), call.session.rtcpInbuffer i = payload[i]
  quiet : ¬ ((∃ s ∈ l, s.Negotiated c) ∧ PacketFits payload) →
    ∀ l', During l ib l' → l'.map (·.rtcpStats) = l.map (·.rtcpStats)

/-- The packet that the reader finds at `len` changes no field of the statistics. -/
def Leaves (m : Memory) (st : RTCPStats) (len : ℤ) : Prop :=
  m (1 + len) ≠ SR ∧ m (1 + len) ≠ RR ∧
    (m (1 + len) = SDES → m 8 = CNAME → st.destSSRC = ntohsAt m 4)

/-- What an earlier packet left in the buffer of the session changes nothing when read again. -/
def Stale (s : RTPSession) : Prop :=
  ∀ len, Enters s.rtcpInbuffer s.rtcpInsize len → Leaves s.rtcpInbuffer s.rtcpStats len

/-- The first session with the channel `c`, or with a UDP address that begins with it. -/
def firstWith (c : UInt8) (l : List RTPSession) : Option RTPSession :=
  l.find? fun s => decide (s.Has c.toNat)

/-- No channel from 128 on; the first session with `c` in its union is the one that negotiated it;
and where a packet is not copied the old content of the buffer is harmless. -/
def Clear (l : List RTPSession) (c : UInt8) (payload : Bytes) : Prop :=
  if PacketFits payload then
    if ∃ s ∈ l, s.Negotiated c then c.toNat < 128 ∧ ∀ s ∈ firstWith c l, s.Negotiated c
    else c.toNat < 128 → ∀ s ∈ firstWith c l, s.transport.interleaved.RTCP.toNat ≠ c.toNat
  else
    c.toNat < 128 → ∀ s ∈ firstWith c l, s.transport.interleaved.RTCP.toNat = c.toNat → Stale s

/-! ### Statistics -/

theorem reportBlock_counts (m : Memory) (i : ℤ) (k : ℕ) (st : RTCPStats) :
    ((reportBlock m i)^[k] st).srReceived = st.srReceived ∧
      ((reportBlock m i)^[k] st).rrReceived = st.rrReceived := by
  induction k generalizing st with
  | zero => exact ⟨rfl, rfl⟩
  | succ k ih =>
    rw [Function.iterate_succ_apply]
    exact ih (reportBlock m i st)

theorem incr32_ne (x : ℕ) : incr32 x ≠ x := by
  unfold incr32
  omega

/-- A known packet leaves the statistics alone exactly if its type says so. -/
theorem recvSwitch_same {m : Memory} {len : ℤ} {st st' : RTCPStats}
    (h : recvSwitch m len st = some st') : st' = st ↔ Leaves m st len := by
  unfold recvSwitch at h
  split_ifs at h with hsr hrr hsdes hcname hother
  · refine iff_of_false (fun he => ?_) fun hl => hl.1 hsr
    have hcount := (reportBlock_counts m (32 + len) (count m len) _).1.symm.trans
      (congrArg RTCPStats.srReceived ((Option.some.inj h).trans he))
    exact incr32_ne _ hcount
  · refine iff_of_false (fun he => ?_) fun hl => hl.2.1 hrr
    have hcount := (reportBlock_counts m (12 + len) (count m len) _).2.symm.trans
      (congrArg RTCPStats.rrReceived ((Option.some.inj h).trans he))
    exact incr32_ne _ hcount
  · cases h
    constructor
    · intro he
      exact ⟨hsr, hrr, fun _ _ => (congrArg RTCPStats.destSSRC he).symm⟩
    · intro hl
      rw [← hl.2.2 hsdes hcname]
  · cases h
    exact iff_of_true rfl ⟨hsr, hrr, fun _ hc => absurd hc hcname⟩
  · cases h
    exact iff_of_true rfl ⟨hsr, hrr, fun hs => absurd hs hsdes⟩

/-- The statistics stay during the whole call exactly if each packet it reaches leaves them. -/
theorem moments_same_iff (m : Memory) (insize : ℕ) (st : RTCPStats) :
    (∀ len st', Moment m insize st len st' → st' = st) ↔
      ∀ len, Enters m insize len → Leaves m st len := by
  constructor
  · intro hsame
    have hmoment : ∀ len, Enters m insize len → Moment m insize st len st := by
      intro len h
      induction h with
      | first _ => exact .start
      | @next len h hk _ ih =>
        obtain ⟨st', hs⟩ := Option.isSome_iff_exists.mp ((recvSwitch_isSome st).mpr hk)
        have hnext := Moment.next ih h.lt_unsigned hs
        rwa [hsame _ _ hnext] at hnext
    intro len h
    cases hs : recvSwitch m len st with
    | none =>
      have hk : ¬ Known m len := by rw [← recvSwitch_isSome st, hs]; decide
      unfold Known at hk
      push Not at hk
      exact ⟨hk.1, hk.2.1, fun hsdes => absurd hsdes hk.2.2.1⟩
    | some st' => exact (recvSwitch_same hs).mp (hsame _ _ ((hmoment len h).next h.lt_unsigned hs))
  · intro hl len st' h
    suffices st' = st ∧ (toUnsigned len < insize → Enters m insize len) from this.1
    induction h with
    | start => exact ⟨rfl, .first⟩
    | @next len st₁ st₂ _ hlt hs ih =>
      obtain ⟨rfl, henters⟩ := ih
      have hk : Known m len := (recvSwitch_isSome st₁).mp (by rw [hs]; rfl)
      exact ⟨(recvSwitch_same hs).mpr (hl len (henters hlt)), .next (henters hlt) hk⟩

/-! ### The search -/

theorem search_eq_some {m : ℤ} {l : List RTPSession} {found : Call}
    (h : search m l = some found) :
    l = found.before ++ found.session :: found.after ∧
      (l.find? fun s => decide (s.Has m)) = some found.session := by
  induction l generalizing found with
  | nil => cases h
  | cons s l ih =>
    unfold search at h
    split_ifs at h with hs
    · cases h
      exact ⟨rfl, List.find?_cons_of_pos (decide_eq_true hs)⟩
    · obtain ⟨rest, hrest, rfl⟩ := Option.map_eq_some_iff.mp h
      obtain ⟨hl, hfind⟩ := ih hrest
      refine ⟨congrArg (s :: ·) hl, ?_⟩
      rw [List.find?_cons_of_neg (by simpa using hs)]
      exact hfind

theorem search_eq_none {m : ℤ} {l : List RTPSession} (h : search m l = none) :
    (l.find? fun s => decide (s.Has m)) = none := by
  induction l with
  | nil => rfl
  | cons s l ih =>
    unfold search at h
    split_ifs at h with hs
    rw [List.find?_cons_of_neg (by simpa using hs)]
    exact ih (Option.map_eq_none_iff.mp h)

theorem toChar_low {c : UInt8} (h : c.toNat < 128) : toChar c = c.toNat := if_pos h

theorem search_high {c : UInt8} (h : 128 ≤ c.toNat) (l : List RTPSession) :
    search (toChar c) l = none := by
  have hneg : toChar c < 0 := by
    have := c.toNat_lt
    rw [toChar, if_neg (by omega)]
    omega
  induction l with
  | nil => rfl
  | cons s l ih =>
    have hno : ¬ s.Has (toChar c) := by
      rintro (hs | hs) <;> omega
    rw [search, if_neg hno, ih]
    rfl

theorem RTPSession.Negotiated.has {c : UInt8} {s : RTPSession} (h : s.Negotiated c) :
    s.transport.interleaved.RTCP.toNat = c.toNat := by
  obtain ⟨p, hp, hc⟩ := h
  rw [hp]
  exact hc

/-! ### The packet in the buffer -/

section Packet

variable {ib : InBuffer} {c : UInt8} {payload : Bytes}

theorem Packet.bytes (h : Packet ib c payload) :
    ∃ hi lo rest, ib.bytes = 36 :: c :: hi :: lo :: (payload ++ rest) ∧
      256 * hi.toNat + lo.toNat = payload.length := by
  obtain ⟨hi, lo, rest, hr, hlen⟩ := h
  refine ⟨hi, lo, rest ++ ib.bytes.drop ib.size, ?_, hlen⟩
  have hall := congrArg (· ++ ib.bytes.drop ib.size) hr
  simp only [InBuffer.received, List.take_append_drop, List.cons_append, List.append_assoc] at hall
  exact hall

theorem Packet.full_msg (h : Packet ib c payload) :
    RTSP_full_msg_rcvd ib = .interleaved 4 payload.length := by
  obtain ⟨hi, lo, rest, hr, hlen⟩ := h
  have hsize : payload.length ≤ ib.size := by
    have := congrArg List.length hr
    rw [ib.length_received] at this
    simp only [List.length_cons, List.length_append] at this
    omega
  obtain ⟨hi', lo', rest', hb, hlen'⟩ := Packet.bytes ⟨hi, lo, rest, hr, hlen⟩
  simp only [RTSP_full_msg_rcvd, hb, List.head?_cons, if_true, List.getD_cons_succ,
    List.getD_cons_zero]
  rw [hlen', if_pos hsize]

theorem Packet.handled_eq (h : Packet ib c payload) (l : List RTPSession) :
    handled l ib =
      (search (toChar c) l).bind fun found =>
        if toChar c = found.session.transport.interleaved.RTCP.toNat then
          some { found with session := found.session.copyIn ib 4 payload.length }
        else none := by
  obtain ⟨hi, lo, rest, hb, -⟩ := h.bytes
  have hc : ib.bytes.getD 1 0 = c := by rw [hb]; rfl
  rw [handled, h.full_msg]
  simp only [interlvdRcvd, hc]
  cases search (toChar c) l with
  | none => rfl
  | some found => rfl

theorem Packet.copyIn (h : Packet ib c payload) (hfits : PacketFits payload) (s : RTPSession) :
    (s.copyIn ib 4 payload.length).rtcpInsize = payload.length ∧
      ∀ i (hi : i < payload.length),
        (s.copyIn ib 4 payload.length).rtcpInbuffer i = payload[i] := by
  obtain ⟨hi, lo, rest, hb, -⟩ := h.bytes
  rw [RTPSession.copyIn, if_pos (show 4 + payload.length ≤ rtcpBufferSize from hfits)]
  refine ⟨rfl, fun i hlt => ?_⟩
  have hin : (0 : ℤ) ≤ i ∧ (i : ℤ) < (4 : ℕ) + payload.length := by omega
  simp only [if_pos hin, hb, Int.toNat_natCast]
  rw [Nat.add_comm]
  simp only [List.getD_eq_getElem?_getD, List.getElem?_cons_succ,
    List.getElem?_append_left hlt, List.getElem?_eq_getElem hlt, Option.getD_some]

/-- The session of a call is the first one with `c` in its union, as its RTCP channel. -/
theorem Packet.handled_some (h : Packet ib c payload) {l : List RTPSession} {call : Call}
    (hc : handled l ib = some call) :
    c.toNat < 128 ∧ ∃ s, l = call.before ++ s :: call.after ∧ firstWith c l = some s ∧
      s.transport.interleaved.RTCP.toNat = c.toNat ∧
      call.session = s.copyIn ib 4 payload.length := by
  rw [h.handled_eq] at hc
  obtain ⟨found, hfound, hc⟩ := Option.bind_eq_some_iff.mp hc
  have hlow : c.toNat < 128 := by
    by_contra hhigh
    rw [search_high (by omega)] at hfound
    cases hfound
  rw [toChar_low hlow] at hfound hc
  split_ifs at hc with hch
  cases hc
  obtain ⟨hl, hfirst⟩ := search_eq_some hfound
  exact ⟨hlow, found.session, hl, hfirst, by omega, rfl⟩

theorem Packet.handled_first (h : Packet ib c payload) {l : List RTPSession} {s : RTPSession}
    (hlow : c.toNat < 128) (hfirst : firstWith c l = some s)
    (hch : s.transport.interleaved.RTCP.toNat = c.toNat) : (handled l ib).isSome := by
  rw [h.handled_eq, toChar_low hlow]
  cases hs : search c.toNat l with
  | none => cases hfirst.symm.trans (search_eq_none hs)
  | some found =>
    have hsame : found.session = s :=
      Option.some.inj ((search_eq_some hs).2.symm.trans hfirst)
    rw [Option.bind_some, if_pos (by rw [hsame, hch])]
    rfl

theorem firstWith_isSome {l : List RTPSession} (h : ∃ s ∈ l, s.Negotiated c) :
    ∃ s, firstWith c l = some s := by
  obtain ⟨s, hs, hn⟩ := h
  refine Option.isSome_iff_exists.mp (List.find?_isSome.mpr ⟨s, hs, ?_⟩)
  exact decide_eq_true (Or.inr (by exact_mod_cast hn.has))

/-- Replacing the statistics of one session changes the list of statistics if it changes them. -/
theorem stats_same_iff (before after : List RTPSession) (s s' : RTPSession) :
    (before ++ s' :: after).map (·.rtcpStats) = (before ++ s :: after).map (·.rtcpStats) ↔
      s'.rtcpStats = s.rtcpStats := by
  simp

/-- Where a packet is too large, the statistics stay exactly if the old content is harmless. -/
theorem stale_iff (hlarge : ¬ PacketFits payload)
    {l : List RTPSession} {call : Call} {s : RTPSession} (hc : handled l ib = some call)
    (hl : l = call.before ++ s :: call.after)
    (hs : call.session = s.copyIn ib 4 payload.length) :
    (∀ l', During l ib l' → l'.map (·.rtcpStats) = l.map (·.rtcpStats)) ↔ Stale s := by
  have hsame : call.session = s := by
    rw [hs, RTPSession.copyIn, if_neg (show ¬ 4 + payload.length ≤ rtcpBufferSize from hlarge)]
  rw [Stale, ← moments_same_iff, ← hsame]
  constructor
  · intro hquiet len st hm
    have hmap := hquiet _ (.recv hc hm)
    rw [hl, ← hsame] at hmap
    exact (stats_same_iff ..).mp hmap
  · intro hst l' hd
    cases hd with
    | start => rfl
    | @recv call' len st hc' hm =>
      obtain rfl : call = call' := Option.some.inj (hc.symm.trans hc')
      rw [hl, ← hsame]
      exact (stats_same_iff ..).mpr (hst len st hm)

/-- A packet is delivered as its channel says exactly if its way is clear. -/
theorem delivered_iff (l : List RTPSession) (h : Packet ib c payload) :
    Delivered l ib c payload ↔ Clear l c payload := by
  constructor
  · intro hd
    unfold Clear
    split_ifs with hfits hany
    · obtain ⟨call, hcall⟩ := Option.isSome_iff_exists.mp ((hd.runs hfits).mpr hany)
      obtain ⟨hlow, s, hl, hfirst, -⟩ := h.handled_some hcall
      obtain ⟨⟨s', hl', hn⟩, -⟩ := hd.right hfits call hcall
      have hs : s = s' := (List.cons.inj (List.append_cancel_left (hl.symm.trans hl'))).1
      refine ⟨hlow, fun t ht => ?_⟩
      rwa [← Option.some.inj (hfirst.symm.trans ht), hs]
    · intro hlow s hs hch
      exact hany ((hd.runs hfits).mp (h.handled_first hlow hs hch))
    · intro hlow s hs hch
      obtain ⟨call, hcall⟩ := Option.isSome_iff_exists.mp (h.handled_first hlow hs hch)
      obtain ⟨-, s', hl, hfirst, -, hcopy⟩ := h.handled_some hcall
      obtain rfl : s' = s := Option.some.inj (hfirst.symm.trans hs)
      exact (stale_iff hfits hcall hl hcopy).mp (hd.quiet fun hn => hfits hn.2)
  · intro hclear
    refine ⟨fun hfits => ⟨fun hrun => ?_, fun hany => ?_⟩, fun hfits call hcall => ?_,
      fun hno l' hd => ?_⟩
    · obtain ⟨call, hcall⟩ := Option.isSome_iff_exists.mp hrun
      obtain ⟨hlow, s, -, hfirst, hch, -⟩ := h.handled_some hcall
      by_contra hany
      rw [Clear, if_pos hfits, if_neg hany] at hclear
      exact hclear hlow s hfirst hch
    · rw [Clear, if_pos hfits, if_pos hany] at hclear
      obtain ⟨s, hs⟩ := firstWith_isSome hany
      exact h.handled_first hclear.1 hs (hclear.2 s hs).has
    · obtain ⟨hlow, s, hl, hfirst, hch, hcopy⟩ := h.handled_some hcall
      have hany : ∃ s ∈ l, s.Negotiated c := by
        by_contra hany
        rw [Clear, if_pos hfits, if_neg hany] at hclear
        exact hclear hlow s hfirst hch
      rw [Clear, if_pos hfits, if_pos hany] at hclear
      rw [hcopy]
      exact ⟨⟨s, hl, hclear.2 s hfirst⟩, h.copyIn hfits s⟩
    · cases hcall : handled l ib with
      | none =>
        cases hd with
        | start => rfl
        | recv hc _ => cases hcall.symm.trans hc
      | some call =>
        obtain ⟨hlow, s, hl, hfirst, hch, hcopy⟩ := h.handled_some hcall
        by_cases hfits : PacketFits payload
        · rw [Clear, if_pos hfits, if_neg fun hany => hno ⟨hany, hfits⟩] at hclear
          exact absurd hch (hclear hlow s hfirst)
        · rw [Clear, if_neg hfits] at hclear
          exact (stale_iff hfits hcall hl hcopy).mpr (hclear hlow s hfirst hch) l' hd

end Packet

/-- An empty receiver report, and the buffer in which it has arrived on channel `c`. -/
def report : Bytes := [128, 201, 0, 1, 0, 0, 0, 0]

def reportOn (c : UInt8) : InBuffer :=
  InBuffer.empty.append (36 :: c :: 0 :: 8 :: report) (show 12 ≤ bufferSize by decide)

theorem packet_reportOn (c : UInt8) : Packet (reportOn c) c report := ⟨0, 8, [], rfl, rfl⟩

def sessionOn (transport : RTPTransport) : RTPSession := ⟨transport, fun _ => 0, 0, {}⟩

/-- Behind a session over UDP the channels 4 and 5 are clear. -/
theorem delivered_five :
    Delivered [sessionOn (.rtpAvp 2 0x5017), sessionOn (.rtpAvpTcp ⟨4, 5⟩)] (reportOn 5) 5
      report :=
  (delivered_iff _ (packet_reportOn 5)).mpr
    (by rw [Clear, if_pos (by decide), if_pos (by decide)]; decide)

/-- Behind a session over UDP the channel 2 is not, which is the number of the address family;
and no channel is from 128 on. -/
theorem reports_lost :
    ¬ Delivered [sessionOn (.rtpAvp 2 0x5017), sessionOn (.rtpAvpTcp ⟨1, 2⟩)] (reportOn 2) 2
        report ∧
      ¬ Delivered [sessionOn (.rtpAvpTcp ⟨200, 201⟩)] (reportOn 201) 201 report := by
  constructor
  · intro h
    have hrun := (h.runs (by decide)).mpr (by decide)
    rw [(packet_reportOn 2).handled_eq] at hrun
    exact absurd hrun (by decide)
  · intro h
    have hrun := (h.runs (by decide)).mpr (by decide)
    rw [(packet_reportOn 201).handled_eq, search_high (by decide)] at hrun
    exact absurd hrun (by decide)

end Fenice.Rtcp.Interleaved
