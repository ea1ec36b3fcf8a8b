import Mathlib.Tactic.Common
import Mathlib.Tactic.Linarith
import Mathlib.Data.Int.Notation
import Mathlib.Data.Nat.Notation
import Mathlib.Logic.Function.Iterate

/-!
# Reading RTCP (rtcp/RTCP_recv_packet.c)

The reader walks through `rtcp_inbuffer` with a cursor of type `short`. An index
is an integer: what lies behind the array (and in front of it) is read as it is
in memory. Counters of type `unsigned int` are natural numbers below `2 ^ 32`.
-/

namespace Fenice.Rtcp

abbrev Bytes := List UInt8

/-- `rtcp_inbuffer [i]`; from `RTCP_BUFFERSIZE` on it is what lies behind the array. -/
abbrev Memory := ℤ → UInt8

/-- `RTCP_BUFFERSIZE`. -/
def rtcpBufferSize : ℕ := 1024

/-- `rtcp_pkt_type` and the one `rtcp_info` that is looked at. -/
def SR : UInt8 := 200
def RR : UInt8 := 201
def SDES : UInt8 := 202
def BYE : UInt8 := 203
def APP : UInt8 := 204
def CNAME : UInt8 := 1

/-- `RTCP_stats`. -/
@[ext] structure RTCPStats where
  rrReceived : ℕ := 0
  srReceived : ℕ := 0
  destSSRC : ℕ := 0
  pktCount : ℕ := 0
  octetCount : ℕ := 0
  pktLost : ℤ := 0
  fractLost : UInt8 := 0
  highestSeqNo : ℕ := 0
  jitter : ℕ := 0
  lastSR : ℕ := 0
  delaySinceLastSR : ℕ := 0
  deriving DecidableEq

/-- `x += 1` on an `unsigned int`. -/
def incr32 (x : ℕ) : ℕ := (x + 1) % 2 ^ 32

/-- An `int` stored in a `short`. -/
def toShort (x : ℤ) : ℤ := (x + 32768) % 65536 - 32768

/-- A `short` compared with an `unsigned int`. -/
def toUnsigned (x : ℤ) : ℕ := (x % 2 ^ 32).toNat

/-- `ntohs (*((short *) &rtcp_inbuffer [i]))`. -/
def ntohsAt (m : Memory) (i : ℤ) : ℕ := (m i).toNat * 256 + (m (i + 1)).toNat

/-- `*((int *) &rtcp_inbuffer [i])`, in the byte order of the host. -/
def intAt (m : Memory) (i : ℤ) : ℕ :=
  (m i).toNat + (m (i + 1)).toNat * 256 + (m (i + 2)).toNat * 65536 +
    (m (i + 3)).toNat * 16777216

/-- `ntohl` of a single byte. -/
def ntohlByte (b : UInt8) : ℕ := b.toNat * 16777216

/-- `len += (ntohs (...) + 1) * 4`. -/
def advance (m : Memory) (len : ℤ) : ℤ := toShort (len + ((ntohsAt m (len + 2) : ℤ) + 1) * 4)

/-- `ssrc_count`. -/
def count (m : Memory) (len : ℤ) : ℕ := (m len).toNat % 32

/-- The body of the loops over report blocks. It does not depend on the number of the
block, and reads each time at `fract_lost` of the first one. -/
def reportBlock (m : Memory) (i : ℤ) (st : RTCPStats) : RTCPStats :=
  { st with
    fractLost := m i
    pktLost := (m (i + 1)).toNat * 65536 + (m (i + 2)).toNat * 256 + (m (i + 3)).toNat
    highestSeqNo := ntohlByte (m (i + 4))
    jitter := ntohlByte (m (i + 8))
    lastSR := ntohlByte (m (i + 12))
    delaySinceLastSR := ntohlByte (m (i + 16)) }

/-- The `switch` on the type of the packet at `len`; `none`: an unknown type, and the
function returns. -/
def recvSwitch (m : Memory) (len : ℤ) (st : RTCPStats) : Option RTCPStats :=
  if m (1 + len) = SR then
    let st := { st with
      srReceived := incr32 st.srReceived
      pktCount := intAt m (20 + len)
      octetCount := intAt m (24 + len) }
    some ((reportBlock m (32 + len))^[count m len] st)
  else if m (1 + len) = RR then
    let st := { st with rrReceived := incr32 st.rrReceived }
    some ((reportBlock m (12 + len))^[count m len] st)
  else if m (1 + len) = SDES then
    -- the offsets do not depend on the cursor
    if m 8 = CNAME then some { st with destSSRC := ntohsAt m 4 } else some st
  else if m (1 + len) = BYE ∨ m (1 + len) = APP then some st
  else none

/-- The loop of `RTCP_recv_packet` from cursor `len`; `none`: still running after `fuel`
iterations. -/
def recvLoop (m : Memory) (insize : ℕ) : ℕ → ℤ → RTCPStats → Option RTCPStats
  | 0, _, _ => none
  | fuel + 1, len, st =>
    if toUnsigned len < insize then
      match recvSwitch m len st with
      | some st' => recvLoop m insize fuel (advance m len) st'
      | none => some st
    else some st

/-- `RTCP_recv_packet` returns and leaves the statistics `st'`. -/
def Returns (m : Memory) (insize : ℕ) (st st' : RTCPStats) : Prop :=
  ∃ fuel, recvLoop m insize fuel 0 st = some st'

/-- The `switch` has a case for the packet at `len`. -/
def Known (m : Memory) (len : ℤ) : Prop :=
  m (1 + len) = SR ∨ m (1 + len) = RR ∨ m (1 + len) = SDES ∨ m (1 + len) = BYE ∨
    m (1 + len) = APP

instance (m : Memory) (len : ℤ) : Decidable (Known m len) := by
  unfold Known; infer_instance

/-- The cursors with which the body of the loop is entered. -/
inductive Enters (m : Memory) (insize : ℕ) : ℤ → Prop
  | first (h : toUnsigned 0 < insize) : Enters m insize 0
  | next {len : ℤ} (h : Enters m insize len) (hk : Known m len)
      (hi : toUnsigned (advance m len) < insize) : Enters m insize (advance m len)

/-! ### The cursor -/

theorem toShort_range (x : ℤ) : -32768 ≤ toShort x ∧ toShort x < 32768 := by
  unfold toShort; omega

theorem toShort_of_range {x : ℤ} (h : -32768 ≤ x) (h' : x < 32768) : toShort x = x := by
  unfold toShort; omega

/-- A negative cursor is a large unsigned number, so the loop ends. -/
theorem toUnsigned_lt_iff {x : ℤ} {n : ℕ} (hx : -32768 ≤ x ∧ x < 32768)
    (hn : n ≤ rtcpBufferSize) : toUnsigned x < n ↔ 0 ≤ x ∧ x < n := by
  unfold toUnsigned
  unfold rtcpBufferSize at hn
  omega

theorem Enters.range {m : Memory} {insize : ℕ} (hn : insize ≤ rtcpBufferSize) {len : ℤ}
    (h : Enters m insize len) : 0 ≤ len ∧ len < insize := by
  induction h with
  | first h => exact (toUnsigned_lt_iff (by omega) hn).mp h
  | next _ _ hi => exact (toUnsigned_lt_iff (toShort_range _) hn).mp hi

theorem Enters.lt_unsigned {m : Memory} {insize : ℕ} {len : ℤ} (h : Enters m insize len) :
    toUnsigned len < insize := by
  induction h with
  | first h => exact h
  | next _ _ hi => exact hi

theorem lt_advance_iff {m : Memory} {len : ℤ} (h : 0 ≤ len) (hl : len < 32768) :
    len < advance m len ↔
      0 < (4 * (ntohsAt m (len + 2) + 1)) % 65536 ∧
        len + ((4 * (ntohsAt m (len + 2) + 1)) % 65536 : ℕ) < 32768 := by
  unfold advance toShort
  omega

theorem recvSwitch_isSome {m : Memory} {len : ℤ} (st : RTCPStats) :
    (recvSwitch m len st).isSome ↔ Known m len := by
  unfold recvSwitch Known
  split_ifs <;> simp_all

theorem recvLoop_ends {m : Memory} {insize : ℕ}
    (h : ∀ len, Enters m insize len → Known m len → len < advance m len)
    (hn : insize ≤ rtcpBufferSize) (fuel : ℕ) {len : ℤ} (hl : Enters m insize len)
    (hf : (insize : ℤ) < len + fuel) (st : RTCPStats) :
    ∃ st', recvLoop m insize fuel len st = some st' := by
  induction fuel generalizing len st with
  | zero =>
    have := (hl.range hn).2
    omega
  | succ fuel ih =>
    rw [recvLoop, if_pos hl.lt_unsigned]
    cases hs : recvSwitch m len st with
    | none => exact ⟨st, rfl⟩
    | some st' =>
      have hk : Known m len := (recvSwitch_isSome st).mp (by rw [hs]; rfl)
      have hlt := h len hl hk
      by_cases hi : toUnsigned (advance m len) < insize
      · exact ih (.next hl hk hi) (by omega) st'
      · cases fuel with
        | zero =>
          have := (hl.range hn).2
          omega
        | succ fuel => exact ⟨st', by simp only [recvLoop, if_neg hi]⟩

/-- The length field of the packet at `len`, taken times four and cut to the 16 bits of the
cursor, is not zero and does not reach the sign bit. -/
def Moves (m : Memory) (len : ℤ) : Prop :=
  0 < (4 * (ntohsAt m (len + 2) + 1)) % 65536 ∧
    len + ((4 * (ntohsAt m (len + 2) + 1)) % 65536 : ℕ) < 32768

instance (m : Memory) (len : ℤ) : Decidable (Moves m len) := by
  unfold Moves; infer_instance

/-- `RTCP_recv_packet` returns, and each iteration it completes moves the cursor forward. -/
def Progresses (m : Memory) (insize : ℕ) : Prop :=
  (∀ st, ∃ st', Returns m insize st st') ∧
    ∀ len, Enters m insize len → Known m len → len < advance m len

/-- The reader makes progress on exactly the buffers in which each packet that it reaches
has a length field that moves the cursor. -/
theorem progresses_iff (m : Memory) (insize : ℕ) (hn : insize ≤ rtcpBufferSize) :
    Progresses m insize ↔ ∀ len, Enters m insize len → Known m len → Moves m len := by
  have hmoves : ∀ len, Enters m insize len → (len < advance m len ↔ Moves m len) := by
    intro len hl
    have hr := hl.range hn
    unfold rtcpBufferSize at hn
    exact lt_advance_iff hr.1 (by omega)
  constructor
  · intro h len hl hk
    exact (hmoves len hl).mp (h.2 len hl hk)
  · intro h
    have hlt : ∀ len, Enters m insize len → Known m len → len < advance m len :=
      fun len hl hk => (hmoves len hl).mpr (h len hl hk)
    refine ⟨fun st => ?_, hlt⟩
    by_cases h0 : toUnsigned 0 < insize
    · obtain ⟨st', h'⟩ := recvLoop_ends hlt hn (insize + 1) (.first h0) (by omega) st
      exact ⟨st', _, h'⟩
    · exact ⟨st, 1, by simp only [recvLoop, if_neg h0]⟩

/-- A packet whose length field leaves the cursor where it is holds the reader forever. -/
theorem recvLoop_stuck {m : Memory} {insize : ℕ} {len : ℤ} (hl : toUnsigned len < insize)
    (hk : Known m len) (ha : advance m len = len) (fuel : ℕ) (st : RTCPStats) :
    recvLoop m insize fuel len st = none := by
  induction fuel generalizing st with
  | zero => rfl
  | succ fuel ih =>
    obtain ⟨st', hs⟩ := Option.isSome_iff_exists.mp ((recvSwitch_isSome st).mpr hk)
    rw [recvLoop, if_pos hl, hs, ha]
    exact ih st'

/-- `rtcp_inbuffer` with a datagram in front of what was there before. -/
def received (data : Bytes) (stale : Memory) : Memory :=
  fun i => if 0 ≤ i ∧ i < data.length then data.getD i.toNat 0 else stale i

theorem progresses_report :
    Progresses (received [128, 201, 0, 1, 0, 0, 0, 7] fun _ => 0) 8 := by
  have hzero : ∀ len, Enters (received [128, 201, 0, 1, 0, 0, 0, 7] fun _ => 0) 8 len →
      len = 0 := by
    intro len hl
    induction hl with
    | first h => rfl
    | next h hk hi ih => exact absurd hi (by rw [ih]; decide)
  refine (progresses_iff _ 8 (by decide)).mpr fun len hl _ => ?_
  rw [hzero len hl]
  decide

/-- A receiver report of eight bytes with the length field `0xffff`: the cursor is moved by
`65536 * 4`, which is nothing in a `short`. -/
theorem report_hangs :
    let m := received [128, 201, 255, 255, 0, 0, 0, 7] fun _ => 0
    ¬ Progresses m 8 ∧ ∀ fuel st, recvLoop m 8 fuel 0 st = none := by
  have hstuck := @recvLoop_stuck (received [128, 201, 255, 255, 0, 0, 0, 7] fun _ => 0) 8 0
    (by decide) (by decide) (by decide)
  refine ⟨fun h => ?_, hstuck⟩
  obtain ⟨st', fuel, hf⟩ := h.1 {}
  rw [hstuck] at hf
  cases hf

/-! ### What is read -/

/-- The bytes that the loop over `n` report blocks reads, the first one at `i`. -/
def reportReads (n : ℕ) (i : ℤ) : List ℤ :=
  if n = 0 then [] else [i, i + 1, i + 2, i + 3, i + 4, i + 8, i + 12, i + 16]

/-- The bytes of `rtcp_inbuffer` that an iteration with cursor `len` reads, those of the
length field included. -/
def reads (m : Memory) (len : ℤ) : List ℤ :=
  if m (1 + len) = SR then
    [1 + len, 20 + len, 21 + len, 22 + len, 23 + len, 24 + len, 25 + len, 26 + len, 27 + len,
      len] ++ reportReads (count m len) (32 + len) ++ [len + 2, len + 3]
  else if m (1 + len) = RR then
    [1 + len, len] ++ reportReads (count m len) (12 + len) ++ [len + 2, len + 3]
  else if m (1 + len) = SDES then
    [1 + len, 8] ++ (if m 8 = CNAME then [4, 5, 6, 7] else []) ++ [len + 2, len + 3]
  else if m (1 + len) = BYE ∨ m (1 + len) = APP then [1 + len, len + 2, len + 3]
  else [1 + len]

theorem reportBlock_congr {m m' : Memory} {n : ℕ} {i : ℤ}
    (h : ∀ j ∈ reportReads n i, m' j = m j) (st : RTCPStats) :
    (reportBlock m' i)^[n] st = (reportBlock m i)^[n] st := by
  by_cases hn : n = 0
  · simp only [hn, Function.iterate_zero, id_eq]
  · have hb : reportBlock m' i = reportBlock m i := by
      rw [reportReads, if_neg hn] at h
      funext st
      simp only [reportBlock, h i (by simp), h (i + 1) (by simp), h (i + 2) (by simp),
        h (i + 3) (by simp), h (i + 4) (by simp), h (i + 8) (by simp), h (i + 12) (by simp),
        h (i + 16) (by simp)]
    rw [hb]

theorem advance_congr {m m' : Memory} {len : ℤ} (h2 : m' (len + 2) = m (len + 2))
    (h3 : m' (len + 3) = m (len + 3)) : advance m' len = advance m len := by
  have h3' : m' (len + 2 + 1) = m (len + 2 + 1) := by rw [add_assoc]; exact h3
  simp only [advance, ntohsAt, h2, h3']

theorem iteration_congr {m m' : Memory} {len : ℤ} (h : ∀ j ∈ reads m len, m' j = m j)
    (st : RTCPStats) :
    recvSwitch m' len st = recvSwitch m len st ∧
      (Known m len → advance m' len = advance m len) := by
  have ht : m' (1 + len) = m (1 + len) := h _ (by unfold reads; split_ifs <;> simp)
  unfold recvSwitch Known
  rw [ht]
  unfold reads at h
  by_cases hsr : m (1 + len) = SR
  · rw [if_pos hsr] at h
    have hc : count m' len = count m len := by rw [count, h len (by simp), count]
    have hp : intAt m' (20 + len) = intAt m (20 + len) := by
      simp only [intAt, h (20 + len) (by simp), h (20 + len + 1) (by simp; omega),
        h (20 + len + 2) (by simp; omega), h (20 + len + 3) (by simp; omega)]
    have ho : intAt m' (24 + len) = intAt m (24 + len) := by
      simp only [intAt, h (24 + len) (by simp), h (24 + len + 1) (by simp; omega),
        h (24 + len + 2) (by simp; omega), h (24 + len + 3) (by simp; omega)]
    have hblock := reportBlock_congr (m := m) (n := count m len) (i := 32 + len)
      fun j hj => h j (by simp [hj])
    simp only [if_pos hsr, hc, hp, ho, hblock]
    exact ⟨trivial, fun _ => advance_congr (h _ (by simp)) (h _ (by simp))⟩
  rw [if_neg hsr] at h
  by_cases hrr : m (1 + len) = RR
  · rw [if_pos hrr] at h
    have hc : count m' len = count m len := by rw [count, h len (by simp), count]
    have hblock := reportBlock_congr (m := m) (n := count m len) (i := 12 + len)
      fun j hj => h j (by simp [hj])
    simp only [if_neg hsr, if_pos hrr, hc, hblock]
    exact ⟨trivial, fun _ => advance_congr (h _ (by simp)) (h _ (by simp))⟩
  rw [if_neg hrr] at h
  by_cases hsd : m (1 + len) = SDES
  · rw [if_pos hsd] at h
    have h8 : m' 8 = m 8 := h 8 (by simp)
    simp only [if_neg hsr, if_neg hrr, if_pos hsd, h8]
    refine ⟨?_, fun _ => advance_congr (h _ (by simp)) (h _ (by simp))⟩
    by_cases hcn : m 8 = CNAME
    · simp only [if_pos hcn, ntohsAt, h 4 (by simp [hcn]), h (4 + 1) (by simp [hcn])]
    · simp only [if_neg hcn]
  rw [if_neg hsd] at h
  by_cases hba : m (1 + len) = BYE ∨ m (1 + len) = APP
  · rw [if_pos hba] at h
    simp only [if_neg hsr, if_neg hrr, if_neg hsd, if_pos hba]
    exact ⟨trivial, fun _ => advance_congr (h _ (by simp)) (h _ (by simp))⟩
  · simp only [if_neg hsr, if_neg hrr, if_neg hsd, if_neg hba]
    refine ⟨trivial, fun hk => ?_⟩
    simp only [hsr, hrr, hsd, false_or] at hk
    exact absurd hk hba

/-- The end of the part of the buffer that the packet at `len` has to bring with it: its
fixed part, with the first report block if it counts any; for a SDES packet the bytes 4 to 8 of
the buffer, and its own header. -/
def needed (m : Memory) (len : ℤ) : ℤ :=
  if m (1 + len) = SR then len + if count m len = 0 then 28 else 49
  else if m (1 + len) = RR then len + if count m len = 0 then 4 else 29
  else if m (1 + len) = SDES then max (len + 4) 9
  else if m (1 + len) = BYE ∨ m (1 + len) = APP then len + 4
  else len + 2

/-- No iteration reads a byte that was not received. -/
def WithinReceived (m : Memory) (n : ℕ) : Prop :=
  ∀ len, Enters m n len → ∀ i ∈ reads m len, 0 ≤ i ∧ i < n

theorem reportReads_within {k : ℕ} {i : ℤ} (hi : 0 ≤ i) (n : ℤ) :
    (∀ j ∈ reportReads k i, 0 ≤ j ∧ j < n) ↔ (k ≠ 0 → i + 16 < n) := by
  unfold reportReads
  by_cases hk : k = 0
  · simp [hk]
  · rw [if_neg hk]
    constructor
    · intro h _
      exact (h (i + 16) (by simp)).2
    · intro h j hj
      have := h hk
      simp only [List.mem_cons, List.not_mem_nil, or_false] at hj
      omega

theorem reads_within {m : Memory} {len : ℤ} (hl : 0 ≤ len) (n : ℤ) :
    (∀ i ∈ reads m len, 0 ≤ i ∧ i < n) ↔ needed m len ≤ n := by
  unfold reads needed
  split_ifs with hsr hc hrr hc hsd hcn hba
  all_goals
    simp only [List.forall_mem_append, reportReads_within (show (0 : ℤ) ≤ 32 + len by omega),
      reportReads_within (show (0 : ℤ) ≤ 12 + len by omega), List.forall_mem_cons,
      List.not_mem_nil, false_imp_iff, implies_true, and_true]
    omega

/-- The reader stays inside a datagram exactly if every packet it reaches is whole: it has
the parts that its type and its report count make the reader look at. -/
theorem withinReceived_iff (data : Bytes) (hn : data.length ≤ rtcpBufferSize) (stale : Memory) :
    WithinReceived (received data stale) data.length ↔
      ∀ len, Enters (received data stale) data.length len →
        needed (received data stale) len ≤ data.length := by
  constructor
  · intro h len hl
    exact (reads_within (hl.range hn).1 _).mp (h len hl)
  · intro h len hl
    exact (reads_within (hl.range hn).1 _).mpr (h len hl)

theorem withinReceived_report :
    WithinReceived (received [128, 201, 0, 1, 0, 0, 0, 7] fun _ => 0) 8 := by
  have hzero : ∀ len, Enters (received [128, 201, 0, 1, 0, 0, 0, 7] fun _ => 0) 8 len →
      len = 0 := by
    intro len hl
    induction hl with
    | first h => rfl
    | next h hk hi ih => exact absurd hi (by rw [ih]; decide)
  refine (withinReceived_iff [128, 201, 0, 1, 0, 0, 0, 7] (by decide) fun _ => 0).mpr ?_
  intro len hl
  rw [hzero len hl]
  decide

/-- A datagram of one byte: the type is already behind its end. -/
theorem single_byte_read_beyond : ¬ WithinReceived (received [128] fun _ => 0) 1 := by
  intro h
  have := h 0 (.first (by decide)) 1 (by decide)
  omega

end Fenice.Rtcp
