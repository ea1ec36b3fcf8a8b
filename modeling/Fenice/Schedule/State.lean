import Fenice.Lib.CString
import Mathlib.Logic.Function.Basic
import Mathlib.Data.List.FinRange

/-!
# The shared state of the streams (rtp.h, mediainfo.h, schedule.h)

What the RTSP side and the scheduler thread both work on: the RTP sessions, the
media they play with their packet buffers, the table `sched`, and the pool of
server ports. Objects on the heap have numbers that are given out in order;
a pointer is the number of what it points to. Clocks, sockets and the contents
of packets are left out; of a packet buffer there is `control->refs`.
-/

namespace Fenice.Schedule
open Fenice.CString

/-- `ONE_FORK_MAX_CONNECTION`. -/
abbrev oneForkMaxConnection : ℕ := 100

/-- `RTP_DEFAULT_PORT`. -/
def rtpDefaultPort : ℤ := 5004

inductive MediaType where
  | audio | video | application | data | control
  deriving DecidableEq

/-- `media_entry`; `live` is `msource == live`. -/
structure MediaEntry where
  filename : Bytes := []
  aggregate : Bytes := []
  live : Bool := false
  mtype : MediaType := .audio
  encodingName : Bytes := []
  priority : ℤ := 0
  rtpMulticastPort : ℤ := 0
  pktBuffer : Option ℕ := none
  deriving DecidableEq

/-- `SD_descr`; the flags are those of `sd_descr_flags`. -/
structure SDDescr where
  filename : Bytes := []
  meList : List ℕ := []
  flTwin : Bool := false
  flMulticast : Bool := false
  flMulticastPort : Bool := false
  multicast : Bytes := []
  twin : Bytes := []
  deriving DecidableEq

structure PortPair where
  RTP : ℤ := 0
  RTCP : ℤ := 0
  deriving DecidableEq

inductive TransportType where
  | noTransport | avp | avpTcp
  deriving DecidableEq

/-- `RTP_transport`, with both members of the union. -/
structure Transport where
  type : TransportType := .noTransport
  rtpFd : ℤ := 0
  rtcpFdOut : ℤ := 0
  rtcpFdIn : ℤ := 0
  cliPorts : PortPair := {}
  serPorts : PortPair := {}
  isMulticast : Bool := false
  interleavedRTP : ℕ := 0
  interleavedRTCP : ℕ := 0
  deriving DecidableEq

/-- `RTP_session`; `cons` is the buffer of the consumer it points to. -/
structure RTPSession where
  transport : Transport := {}
  schedId : ℤ := 0
  startSeq : ℕ := 0
  startRtptime : ℕ := 0
  pause : Bool := false
  started : Bool := false
  ssrc : ℕ := 0
  sdFilename : Bytes := []
  currentMedia : ℕ := 0
  sdDescr : ℕ := 0
  cons : Option ℕ := none
  isMulticastDad : Bool := false
  deriving DecidableEq

/-- `schedule_list`; `playAction` tells whether it was set. -/
structure Entry where
  valid : Bool := false
  rtpSession : Option ℕ := none
  playAction : Bool := false
  deriving DecidableEq

/-- What has happened to RTP sessions in the table. -/
inductive Event where
  | added (s : ℕ)
  | removed (s : ℕ)
  | destroyed (s : ℕ)
  deriving DecidableEq

/-- `position` is the entry the scheduler thread comes to next, `none` in front of
a pass. An RTP session or a packet buffer that is freed leaves a hole; of a
buffer there is `control->refs`. -/
structure Streams where
  sched : Fin oneForkMaxConnection → Entry
  clientCount : ℕ
  position : Option (Fin oneForkMaxConnection)
  heap : List (Option RTPSession)
  entries : List MediaEntry
  sds : List (Option SDDescr)
  buffers : List (Option ℕ)
  startPort : ℤ
  portPool : Fin oneForkMaxConnection → ℤ
  closed : List ℤ
  log : List Event

namespace Streams

/-- After `RTP_port_pool_init (port)` and `schedule_init`. -/
def init (port : ℤ) : Streams where
  sched := fun _ => {}
  clientCount := 0
  position := none
  heap := []
  entries := []
  sds := []
  buffers := []
  startPort := port
  portPool := fun i => i + port
  closed := []
  log := []

/-- What a pointer to an RTP session points to; `none` if it was freed. -/
def session (st : Streams) (s : ℕ) : Option RTPSession := st.heap[s]?.join

def media (st : Streams) (m : ℕ) : MediaEntry := st.entries.getD m {}

/-- `control->refs`, as long as the buffer is not freed. -/
def refs (st : Streams) (b : ℕ) : Option ℕ := st.buffers[b]?.join

def descr (st : Streams) (d : ℕ) : SDDescr := (st.sds[d]?.join).getD {}

def setEntry (st : Streams) (i : Fin oneForkMaxConnection) (e : Entry) : Streams :=
  { st with sched := Function.update st.sched i e }

def setSession (st : Streams) (s : ℕ) (r : Option RTPSession) : Streams :=
  { st with heap := st.heap.set s r }

def setMedia (st : Streams) (m : ℕ) (e : MediaEntry) : Streams :=
  { st with entries := st.entries.set m e }

def setRefs (st : Streams) (b : ℕ) (n : Option ℕ) : Streams :=
  { st with buffers := st.buffers.set b n }

def note (st : Streams) (e : Event) : Streams := { st with log := st.log ++ [e] }

/-- `schedule_remove` and `schedule_start` are called with an id that must be an
index of `sched`. -/
def index (id : ℤ) : Option (Fin oneForkMaxConnection) :=
  if h : 0 ≤ id ∧ id < oneForkMaxConnection then some ⟨id.toNat, by omega⟩ else none

/-- The session an entry holds; `none` if the pointer is null or dangling. -/
def held (st : Streams) (i : Fin oneForkMaxConnection) : Option (ℕ × RTPSession) :=
  (st.sched i).rtpSession.bind fun s => (st.session s).map fun r => (s, r)

end Streams

end Fenice.Schedule
