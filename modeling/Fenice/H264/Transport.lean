import Fenice.Lib.Marked
import Fenice.H264.Recall
import Fenice.Rtp.Live

/-!
# NAL units from the file to the receiver (read_h264.c, get_frame.c, RTP_send_packet.c)

A file of NAL units is read into the packet buffer and sent by any number of sessions. A receiver
reassembles what comes up to each marker.
-/

namespace Fenice.H264
open Fenice.BufferPool Fenice.Mediainfo Fenice.Run Fenice.Marked Fenice.Rtp

/-- A NAL unit that `read_h264` can give and a receiver can take: in one packet it needs a type
that a receiver does not take for another kind of packet. -/
structure Sendable (w : UInt8 × List UInt8) : Prop where
  forbidden : forbidden w.1 = 0
  payload : w.2 ≠ []
  single : w.2.length ≤ udpMaxSize → isSingle w.1 = true

instance (w : UInt8 × List UInt8) : Decidable (Sendable w) :=
  decidable_of_iff (H264.forbidden w.1 = 0 ∧ w.2 ≠ [] ∧
      (w.2.length ≤ udpMaxSize → isSingle w.1 = true))
    ⟨fun h => ⟨h.1, h.2.1, h.2.2⟩, fun h => ⟨h.1, h.2, h.3⟩⟩

/-- A reader between two NAL units. -/
def idle : StaticH264 := ⟨h264NotSharding, ⟨0, 0, 0, 0, []⟩, 0, 0, 0⟩

/-- A packet with the time of its frame. -/
def stamped (mtime : ℕ) (p : Packet) : Parcel := ⟨mtime, if p.marker then 1 else 0, p.data⟩

/-- The packets of a NAL unit. -/
def unitParcels (mtime : ℕ) (w : UInt8 × List UInt8) : List Parcel :=
  (packetize w.1 w.2 idle).map (stamped mtime)

def isMarked (p : Parcel) : Bool := p.marker == 1

/-- The NAL unit that packets of one time make, with that time. -/
def takeUnit (g : List Parcel) : Option (ℕ × List UInt8) :=
  match g with
  | [] => none
  | p :: rest =>
    if rest.all fun q => q.mtime == p.mtime then
      (reassemble (g.map fun q => ⟨q.bytes, isMarked q⟩)).map fun nal => (p.mtime, nal)
    else none

/-! ### The packets of one unit -/

section Unit

variable {w : UInt8 × List UInt8} {mtime : ℕ}

theorem packet_stamped (p : Packet) :
    (⟨(stamped mtime p).bytes, isMarked (stamped mtime p)⟩ : Packet) = p := by
  cases p with
  | mk data marker => cases marker <;> rfl

theorem takeUnit_stamped (ps : List Packet) :
    takeUnit (ps.map (stamped mtime)) = (reassemble ps).map fun nal => (mtime, nal) := by
  cases ps with
  | nil => rfl
  | cons p rest =>
    have hback : ((p :: rest).map (stamped mtime)).map
        (fun q => (⟨q.bytes, isMarked q⟩ : Packet)) = p :: rest := by
      rw [List.map_map]
      exact (List.map_congr_left fun q _ => packet_stamped q).trans (List.map_id _)
    have hsame : (rest.map (stamped mtime)).all
        (fun q => q.mtime == (stamped mtime p).mtime) = true := by
      simp [stamped]
    rw [List.map_cons, takeUnit, ← List.map_cons, hback, if_pos hsame]
    rfl

theorem large_packets (h : udpMaxSize < w.2.length) :
    packetize w.1 w.2 idle = (List.range' 0 (w.2.length / udpMaxSize + 1)).map
      (piece w.1 w.2 (w.2.length / udpMaxSize)) :=
  packetize_large w.1 w.2 idle rfl h

theorem small_packets (hne : w.2 ≠ []) (h : w.2.length ≤ udpMaxSize) :
    packetize w.1 w.2 idle = [⟨indicatorOf w.1 (nalType w.1) :: w.2, true⟩] :=
  packetize_small w.1 w.2 idle rfl hne h

theorem piece_marker (header : UInt8) (payload : List UInt8) (n i : ℕ) :
    (piece header payload n i).marker = decide (i = n) := by
  unfold piece
  split <;> simp [fragment, *]

theorem isMarked_stamped (p : Packet) : isMarked (stamped mtime p) = p.marker := by
  cases p with
  | mk data marker => cases marker <;> rfl

theorem unitParcels_whole (h : Sendable w) : Whole isMarked (unitParcels mtime w) := by
  rw [unitParcels]
  by_cases hl : w.2.length ≤ udpMaxSize
  · rw [small_packets h.payload hl]
    exact Whole.snoc (l := []) (by simp) (isMarked_stamped _)
  · rw [large_packets (by omega), List.range'_1_concat, List.map_append, List.map_append]
    refine Whole.snoc ?_ ?_
    · intro p hp
      simp only [List.map_map, List.mem_map, List.mem_range'_1] at hp
      obtain ⟨i, hi, rfl⟩ := hp
      rw [Function.comp_apply, isMarked_stamped, piece_marker]
      exact decide_eq_false (by omega)
    · rw [isMarked_stamped, piece_marker]
      exact decide_eq_true (by omega)

theorem takeUnit_whole (h : Sendable w) :
    takeUnit (unitParcels mtime w) = some (mtime, w.1 :: w.2) := by
  rw [unitParcels, takeUnit_stamped]
  by_cases hl : w.2.length ≤ udpMaxSize
  · rw [small_packets h.payload hl,
      (reassemble_small w.1 w.2).mpr ⟨h.forbidden, h.single hl⟩]
    rfl
  · rw [large_packets (by omega), reassemble_large w.1 w.2 (by omega) h.forbidden]
    rfl

theorem reassemble_late (header : UInt8) (payload : List UInt8) {n i : ℕ} (hn : 0 < n)
    (hi : 0 < i) (rest : List Packet) : reassemble (piece header payload n i :: rest) = none := by
  obtain ⟨hdr, hdata, hstart, -, -⟩ := piece_data header payload n i hn
  have hfu : nalType (indicatorOf header typeFuA) = 28 :=
    nalType_indicatorOf header (by decide)
  rw [decide_eq_false (by omega)] at hstart
  rw [reassemble, hdata]
  simp [isSingle, hfu, hstart]

theorem takeUnit_late (h : Sendable w) {k : ℕ} (hk : 0 < k)
    (hlt : k < (unitParcels mtime w).length) :
    takeUnit ((unitParcels mtime w).drop k) = none := by
  rw [unitParcels, List.length_map] at hlt
  rw [unitParcels, ← List.map_drop, takeUnit_stamped]
  by_cases hl : w.2.length ≤ udpMaxSize
  · rw [small_packets h.payload hl, List.length_singleton] at hlt
    omega
  · have hn : 0 < w.2.length / udpMaxSize := Nat.div_pos (by omega) (by decide)
    rw [large_packets (by omega), List.length_map, List.length_range'] at hlt
    have hsucc : w.2.length / udpMaxSize + 1 - k = w.2.length / udpMaxSize - k + 1 := by omega
    rw [large_packets (by omega), ← List.map_drop, List.drop_range', hsucc, List.range'_succ,
      List.map_cons, reassemble_late w.1 w.2 hn (by omega)]
    rfl

end Unit

/-! ### The packets of a file -/

section File

variable {u : Coded} {us : List Coded} (frameRate t₀ : ℚ)

/-- The time of unit number `i`. -/
def timeAt (i : ℕ) : ℕ := ⌊t₀ + (i + 1) * (1000 / frameRate)⌋₊

/-- The packets of unit number `i`, counted around. -/
def fileParcels (us : List Coded) (i : ℕ) : List Parcel :=
  unitParcels (timeAt frameRate t₀ i) (seenAt us i)

/-- The reader is about to give the packets `rest`, and then unit number `i`. -/
inductive Ahead (us : List Coded) : ℕ → List Parcel → Media → Prop
  | between {i : ℕ} {x : Media} (hat : At us i x) (htime : x.time = t₀ + i * (1000 / frameRate)) :
    Ahead us i [] x
  | within {i j k : ℕ} {x : Media} (hfile : x.file = before us (i + 1))
    (htime : x.time = t₀ + (i + 1) * (1000 / frameRate))
    (hstatic : x.static = sharding (seenAt us i).1 (seenAt us i).2 j) (hj : 0 < j)
    (hk : j + k = (seenAt us i).2.length / udpMaxSize) :
    Ahead us (i + 1) (((List.range' j (k + 1)).map
      (piece (seenAt us i).1 (seenAt us i).2 ((seenAt us i).2.length / udpMaxSize))).map
        (stamped (timeAt frameRate t₀ i))) x

variable {frameRate t₀}

theorem yield_given {out : Read} {x : Media} (h : out.packet.data ≠ []) :
    yield (given out x) = [stamped ⌊x.time⌋₊ out.packet] := by
  simp [yield, given, h, stamped]

theorem piece_first {header : UInt8} {payload : List UInt8} {n : ℕ} (hn : 0 < n) :
    piece header payload n 0 =
      fragment (get_one_NALU_payload header payload) 1 0 0 udpMaxSize false := by
  simp [piece, Nat.ne_of_lt hn]

theorem piece_middle {header : UInt8} {payload : List UInt8} {n i : ℕ} (hi : 0 < i) (hn : i < n) :
    piece header payload n i =
      fragment (get_one_NALU_payload header payload) 0 0 i udpMaxSize false := by
  simp [piece, Nat.ne_of_lt hn, Nat.ne_of_gt hi]

theorem piece_last (header : UInt8) (payload : List UInt8) (n : ℕ) :
    piece header payload n n = fragment (get_one_NALU_payload header payload) 0 1 n
      (payload.length % udpMaxSize) true := by
  simp [piece]

theorem readMedia_small {x : Media} {header : UInt8} {payload : List UInt8} {file : File}
    (h : Before x header payload file) (hne : payload ≠ []) (hl : payload.length ≤ udpMaxSize) :
    ∃ static, static.shardingPacket = h264NotSharding ∧ readMedia frameRate x = some (given
      ⟨⟨indicatorOf header (nalType header) :: payload, true⟩, false⟩
      (Media.tick frameRate ⟨static, file, x.time⟩)) := by
  have hlen : (get_one_NALU_payload header payload).len ≠ 0 :=
    fun he => hne (List.length_eq_zero_iff.mp he)
  have hle : (get_one_NALU_payload header payload).len ≤ udpMaxSize := hl
  refine ⟨{ x.static with
    n := get_one_NALU_payload header payload, shardingPacket := h264NotSharding }, rfl, ?_⟩
  simp only [readMedia, if_pos h.between, h.next, read_h264, Option.bind_some, if_neg hlen,
    if_pos hle]
  simp only [get_one_NALU_payload, type_of_header]
  rfl

/-- One call gives the next packet. -/
inductive Gives (frameRate t₀ : ℚ) (us : List Coded) : ℕ → List Parcel → MediaRead Media → Prop
  | rest {i : ℕ} {p : Parcel} {rest : List Parcel} {r : MediaRead Media} (hp : yield r = [p])
      (h : Ahead frameRate t₀ us i rest r.state) : Gives frameRate t₀ us i (p :: rest) r
  | unit {i : ℕ} {p : Parcel} {rest : List Parcel} {r : MediaRead Media} (hp : yield r = [p])
      (hunit : fileParcels frameRate t₀ us i = p :: rest)
      (h : Ahead frameRate t₀ us (i + 1) rest r.state) : Gives frameRate t₀ us i [] r

theorem time_next (i : ℕ) : t₀ + i * (1000 / frameRate) + 1000 / frameRate =
    t₀ + (i + 1) * (1000 / frameRate) := by ring

theorem read_unit (hfit : Fits u.code (u :: us)) {i : ℕ} (hw : Sendable (seenAt (u :: us) i))
    {x : Media} (hat : At (u :: us) i x) (htime : x.time = t₀ + i * (1000 / frameRate)) :
    ∃ r, readMedia frameRate x = some r ∧ Gives frameRate t₀ (u :: us) i [] r := by
  have hb := hat.before hfit
  have hnext : x.time + 1000 / frameRate = t₀ + (i + 1) * (1000 / frameRate) := by
    rw [htime, time_next]
  by_cases hl : (seenAt (u :: us) i).2.length ≤ udpMaxSize
  · obtain ⟨static, hstatic, hread⟩ := @readMedia_small frameRate _ _ _ _ hb hw.payload hl
    refine ⟨_, hread, @Gives.unit _ _ _ _ _ [] _ (yield_given (by simp)) ?_
      (.between ⟨hstatic, rfl⟩ ?_)⟩
    · rw [fileParcels, unitParcels, small_packets hw.payload hl, timeAt, ← hnext]
      rfl
    · simp [given, Media.tick, hnext]
  · have hn : 0 < (seenAt (u :: us) i).2.length / udpMaxSize :=
      Nat.div_pos (by omega) (by decide)
    obtain ⟨k, hk⟩ : ∃ k, (seenAt (u :: us) i).2.length / udpMaxSize = k + 1 :=
      ⟨_, (Nat.succ_pred_eq_of_pos hn).symm⟩
    refine ⟨_, readMedia_first frameRate hb (by omega),
      .unit (yield_given (by simp [fragment])) ?_
        (.within (j := 1) (k := k) rfl hnext rfl Nat.one_pos (by omega))⟩
    rw [fileParcels, unitParcels, large_packets (by omega), List.range'_succ, List.map_cons,
      List.map_cons, ← piece_first hn, timeAt, ← hnext, hk]
    rfl

theorem read_rest {us : List Coded} {i j k : ℕ} {x : Media} (hfile : x.file = before us (i + 1))
    (htime : x.time = t₀ + (i + 1) * (1000 / frameRate))
    (hstatic : x.static = sharding (seenAt us i).1 (seenAt us i).2 j) (hj : 0 < j)
    (hk : j + k = (seenAt us i).2.length / udpMaxSize) :
    ∃ r, readMedia frameRate x = some r ∧ Gives frameRate t₀ us (i + 1)
      (((List.range' j (k + 1)).map
        (piece (seenAt us i).1 (seenAt us i).2 ((seenAt us i).2.length / udpMaxSize))).map
          (stamped (timeAt frameRate t₀ i))) r := by
  have hnow : ⌊x.time⌋₊ = timeAt frameRate t₀ i := by rw [htime, timeAt]
  cases k with
  | zero =>
    have hlast : j = (seenAt us i).2.length / udpMaxSize := by omega
    refine ⟨_, readMedia_last frameRate hlast hstatic, ?_⟩
    rw [List.range'_one, List.map_singleton, List.map_singleton, ← hlast, piece_last, ← hnow]
    refine .rest (yield_given (by simp [fragment])) (.between ⟨rfl, hfile⟩ ?_)
    simp [given, htime]
  | succ k =>
    have hlt : j < (seenAt us i).2.length / udpMaxSize := by omega
    refine ⟨_, readMedia_middle frameRate hlt hstatic, ?_⟩
    rw [List.range'_succ, List.map_cons, List.map_cons, piece_middle hj hlt]
    refine .rest ?_ (.within hfile htime rfl (Nat.succ_pos j) (by omega))
    rw [← hnow]
    exact yield_given (by simp [fragment])

theorem Ahead.read (hfit : Fits u.code (u :: us)) (hsend : ∀ i, Sendable (seenAt (u :: us) i))
    {i : ℕ} {rest : List Parcel} {x : Media} (h : Ahead frameRate t₀ (u :: us) i rest x) :
    ∃ r, readMedia frameRate x = some r ∧ Gives frameRate t₀ (u :: us) i rest r := by
  cases h with
  | between hat htime => exact read_unit hfit (hsend i) hat htime
  | within hfile htime hstatic hj hk => exact read_rest hfile htime hstatic hj hk

/-- What has been given, with the rest of the unit that was begun, are the units of the file. -/
theorem given_units (hfit : Fits u.code (u :: us)) (hsend : ∀ i, Sendable (seenAt (u :: us) i))
    {x₀ x : Media} (hbetween : x₀.static.shardingPacket = h264NotSharding)
    (hfile : x₀.file = opened (annexB (u :: us))) {out : List Parcel}
    (h : Given (readMedia frameRate) x₀ out x) :
    ∃ i rest, Ahead frameRate x₀.time (u :: us) i rest x ∧
      out ++ rest = upTo (fileParcels frameRate x₀.time (u :: us)) i := by
  induction h with
  | start =>
    refine ⟨0, [], .between ⟨hbetween, ?_⟩ (by simp), rfl⟩
    rw [hfile]
    simp [before, opened, annexB]
  | call h hr ih =>
    obtain ⟨i, rest, hahead, hout⟩ := ih
    obtain ⟨r, hr', hgives⟩ := hahead.read hfit hsend
    cases hr.symm.trans hr'
    cases hgives with
    | rest hp hnext => exact ⟨i, _, hnext, by rw [hp, List.append_assoc]; exact hout⟩
    | unit hp hunit hnext =>
      refine ⟨i + 1, _, hnext, ?_⟩
      rw [hp, List.append_assoc, upTo_succ, hunit, ← hout, List.append_nil]
      rfl

theorem seen_length (us : List Coded) : (seen us).length = us.length := by
  induction us with
  | nil => rfl
  | cons u us ih =>
    cases us with
    | nil => rfl
    | cons v us => rw [seen_cons (by simp), List.length_cons, List.length_cons, ih]

theorem seenAt_mem (u : Coded) (us : List Coded) (i : ℕ) :
    seenAt (u :: us) i ∈ seen (u :: us) := by
  have hlt : i % (u :: us).length < (seen (u :: us)).length := by
    rw [seen_length]
    exact Nat.mod_lt _ (by simp)
  rw [seenAt, List.getD_eq_getElem?_getD, List.getElem?_eq_getElem hlt, Option.getD_some]
  exact List.getElem_mem hlt

theorem readMedia_stores : Stores (readMedia frameRate) := by
  intro x r hr hok
  unfold readMedia at hr
  split_ifs at hr
  · split at hr
    · split at hr
      · cases hr
        rfl
      · cases hr
        cases hok
    · cases hr
      cases hok
    · cases hr
      cases hok
    · cases hr
  · split at hr
    · cases hr
      rfl
    · cases hr
      cases hok

/-- The NAL unit number `i` that the file gives, with its time. -/
def fileUnit (frameRate t₀ : ℚ) (us : List Coded) (i : ℕ) : ℕ × List UInt8 :=
  (timeAt frameRate t₀ i, (seenAt us i).1 :: (seenAt us i).2)

/-- Whatever the order of the steps, the receiver of a session gets the NAL units that begin and
end among the packets it was sent, one after the other. -/
theorem nal_units_received {n : ℕ} (hn : 2 ≤ n) {b : OMSBuffer} (hb : OMSbuff.new n = some b)
    (hfit : Fits u.code (u :: us)) (hsend : ∀ w ∈ seen (u :: us), Sendable w) {x : Media}
    (hbetween : x.static.shardingPacket = h264NotSharding)
    (hfile : x.file = opened (annexB (u :: us))) {as : List Live.Act} {l : Live Media}
    (h : GuardedRun (Live.step (readMedia frameRate)) Live.Guard (Live.init b x) as l) {i : ℕ}
    {s : Session} {cl : Client} (hs : l.senders.sessions[i]? = some s)
    (hcl : l.senders.pool.clients[i]? = some cl) :
    ∃ first next, FirstFrom (fileParcels frameRate x.time (u :: us)) (cl.first - 1) first ∧
      Reaches (fileParcels frameRate x.time (u :: us)) (cl.first - 1 + s.sent.length) next ∧
      received isMarked takeUnit s.parcels =
        (List.range' first (next - first)).map (fileUnit frameRate x.time (u :: us)) := by
  have hall : ∀ k, Sendable (seenAt (u :: us) k) := fun k => hsend _ (seenAt_mem u us k)
  have hwhole : ∀ k, Whole isMarked (fileParcels frameRate x.time (u :: us) k) :=
    fun k => unitParcels_whole (hall k)
  obtain ⟨out, hgiven, hlen, hparcels⟩ :=
    (Live.Inv.of_run hn hb readMedia_stores h).stretch hn hb hs hcl
  obtain ⟨k, rest, -, hout⟩ := given_units hfit hall hbetween hfile hgiven
  have hle : out.length ≤ start (fileParcels frameRate x.time (u :: us)) k := by
    rw [start, ← hout, List.length_append]
    omega
  have hstretch : s.parcels = ((upTo (fileParcels frameRate x.time (u :: us)) k).drop
      (cl.first - 1)).take (cl.first - 1 + s.sent.length - (cl.first - 1)) := by
    rw [hparcels, ← hout, Nat.add_sub_cancel_left, List.drop_append_of_le_length (by omega),
      List.take_append_of_le_length (by rw [List.length_drop]; omega)]
  obtain ⟨first, hfirst⟩ := exists_firstFrom hwhole (cl.first - 1)
  obtain ⟨next, hnext⟩ := exists_reaches hwhole (cl.first - 1 + s.sent.length)
  refine ⟨first, next, hfirst, hnext, ?_⟩
  rw [hstretch]
  exact received_stretch hwhole (fun k => takeUnit_whole (hall k))
    (fun k j hj hlt => takeUnit_late (hall k) hj hlt) hfirst hnext (by omega) (by omega)

end File

/-- A session plays a file of two units beyond its end. -/
def playFile : List Live.Act :=
  [.session ⟨.play 1 1 1 ⟨96, some 90000⟩, trivial⟩, .getslot true, .read, .commit,
    .session ⟨.getreader 0, trivial⟩, .session ⟨.gotreader 0, trivial⟩, .getslot true, .read,
    .commit, .session ⟨.getreader 0, trivial⟩, .session ⟨.gotreader 0, trivial⟩, .getslot true,
    .read, .commit, .session ⟨.getreader 0, trivial⟩, .session ⟨.gotreader 0, trivial⟩]

/-- Whether the run is allowed and ends with one session, and what that receives. -/
def playFileOutcome : Option (Bool × List (ℕ × List UInt8)) :=
  (OMSbuff.new 4).bind fun b =>
    let first : Live Media := Live.init b (sampleMedia [sampleSet, sampleSlice])
    (exec (Live.step (readMedia 25)) first playFile).map fun l =>
      (allowed (Live.step (readMedia 25)) Live.Guard first playFile &&
          l.senders.sessions.length == 1 && l.senders.pool.clients.length == 1,
        l.senders.sessions.flatMap fun s => received isMarked takeUnit s.parcels)

theorem playFile_run : ∃ b l, ∃ s : Session, ∃ cl : Client, OMSbuff.new 4 = some b ∧
    GuardedRun (Live.step (readMedia 25)) Live.Guard
      (Live.init b (sampleMedia [sampleSet, sampleSlice])) playFile l ∧
    l.senders.sessions[0]? = some s ∧ l.senders.pool.clients[0]? = some cl ∧
    received isMarked takeUnit s.parcels = [(40, [0x67, 0x42, 0, 0x1e]),
      (80, [0x65, 0x88, 0x84, 0xff]), (120, [0x67, 0x42, 0, 0x1e])] := by
  have htest : playFileOutcome = some (true, [(40, [0x67, 0x42, 0, 0x1e]),
      (80, [0x65, 0x88, 0x84, 0xff]), (120, [0x67, 0x42, 0, 0x1e])]) := by
    decide +kernel
  obtain ⟨b, hb, htest⟩ := Option.bind_eq_some_iff.mp htest
  obtain ⟨l, hl, htest⟩ := Option.map_eq_some_iff.mp htest
  simp only [Prod.mk.injEq, Bool.and_eq_true, beq_iff_eq] at htest
  obtain ⟨⟨⟨hallowed, hsessions⟩, hclients⟩, hreceived⟩ := htest
  obtain ⟨s, hs⟩ := List.length_eq_one_iff.mp hsessions
  obtain ⟨cl, hcl⟩ := List.length_eq_one_iff.mp hclients
  rw [hs, List.flatMap_singleton] at hreceived
  exact ⟨b, l, s, cl, hb, GuardedRun.of_allowed hallowed hl, by rw [hs]; rfl, by rw [hcl]; rfl,
    hreceived⟩

theorem nal_units_received_twice : ∃ b l, ∃ s : Session, ∃ cl : Client, OMSbuff.new 4 = some b ∧
    exec (Live.step (readMedia 25)) (Live.init b (sampleMedia [sampleSet, sampleSlice])) playFile =
      some l ∧ l.senders.sessions[0]? = some s ∧
    (received isMarked takeUnit s.parcels).length = 3 ∧ ∃ first next,
      FirstFrom (fileParcels 25 0 [sampleSet, sampleSlice]) (cl.first - 1) first ∧
      Reaches (fileParcels 25 0 [sampleSet, sampleSlice]) (cl.first - 1 + s.sent.length) next ∧
      received isMarked takeUnit s.parcels =
        (List.range' first (next - first)).map (fileUnit 25 0 [sampleSet, sampleSlice]) := by
  obtain ⟨b, l, s, cl, hb, hrun, hs, hcl, hreceived⟩ := playFile_run
  have hfit : Fits sampleSet.code [sampleSet, sampleSlice] :=
    ⟨by decide, by unfold Fits; decide⟩
  exact ⟨b, l, s, cl, hb, hrun.exec_eq, hs, by rw [hreceived]; rfl,
    nal_units_received (by decide) hb hfit (by decide) rfl rfl hrun hs hcl⟩

end Fenice.H264
