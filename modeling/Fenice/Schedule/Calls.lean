import Fenice.Schedule.Media
import Fenice.BufferPool.Slots

/-!
# Ports, consumers and the schedule (rtp/RTP_*.c, schedule/schedule_*.c)

Every function runs under the mutex of `sched_control` or touches one entry of
`sched` only; `none` stands for an access outside of an array or through a null
or dangling pointer.
-/

namespace Fenice.Schedule
open Fenice.CString Fenice.BufferPool

/-- `x++` and `x--` on a `size_t`. -/
def incrSize (x : ℕ) : ℕ := (x + 1) % 2 ^ 64
def decrSize (x : ℕ) : ℕ := (x + (2 ^ 64 - 1)) % 2 ^ 64

namespace Streams

/-- The first entry of `port_pool` that is used, or not. -/
def firstPort (st : Streams) (free : Bool) : Option (Fin oneForkMaxConnection) :=
  (List.finRange oneForkMaxConnection).find? fun i => (st.portPool i != 0) == free

def RTP_get_port_pair (st : Streams) : Option (PortPair × Streams) :=
  (st.firstPort true).map fun i =>
    let rtp := (st.portPool i - st.startPort) * 2 + st.startPort
    (⟨rtp, rtp + 1⟩, { st with portPool := Function.update st.portPool i 0 })

/-- `RTP_release_port_pair`; nothing happens if no entry is zero. -/
def RTP_release_port_pair (st : Streams) (pair : PortPair) : Streams :=
  match st.firstPort false with
  | some i =>
    { st with
      portPool := Function.update st.portPool i ((pair.RTP - st.startPort).tdiv 2 + st.startPort) }
  | none => st

/-- `RTP_transport_close`. A multicast session gives the address of its
presentation back, which must still be there. -/
def RTP_transport_close (st : Streams) (r : RTPSession) : Option Streams :=
  let fds := [r.transport.rtpFd, r.transport.rtcpFdIn, r.transport.rtcpFdOut].filter (0 ≤ ·)
  match r.transport.type with
  | .avp =>
    if r.transport.isMulticast then
      (st.sds[r.sdDescr]?.join.map fun d =>
        { st with sds := st.sds.set r.sdDescr (some { d with flMulticastPort := false }) }).map
          fun st =>
            let st := st.RTP_release_port_pair r.transport.serPorts
            { st with closed := st.closed ++ fds }
    else
      let st := st.RTP_release_port_pair r.transport.serPorts
      some { st with closed := st.closed ++ fds }
  | .avpTcp => some { st with closed := st.closed ++ fds }
  | .noTransport => some st

/-- What `OMSbuff_ref` does to `control->refs`. -/
def OMSbuff_ref (st : Streams) (b : ℕ) : Option Streams :=
  (st.refs b).map fun n => st.setRefs b (some (incr16 n))

/-- What `OMSbuff_unref` does to `control->refs`, unless there is no consumer. -/
def OMSbuff_unref (st : Streams) : Option ℕ → Option Streams
  | none => some st
  | some b => (st.refs b).map fun n => if 0 < n then st.setRefs b (some (n - 1)) else st

def RTP_session_destroy (st : Streams) (s : ℕ) (r : RTPSession) : Option Streams :=
  ((st.RTP_transport_close r).bind fun st => st.OMSbuff_unref r.cons).bind fun st =>
    (st.media r.currentMedia).pktBuffer.bind fun b =>
      (st.refs b).map fun n =>
        let st :=
          if n = 0 then
            (st.setMedia r.currentMedia { st.media r.currentMedia with pktBuffer := none }).setRefs
              b none
          else st
        (st.setSession s none).note (.destroyed s)

/-- The entry `schedule_add` takes. -/
def firstInvalid (st : Streams) : Option (Fin oneForkMaxConnection) :=
  (List.finRange oneForkMaxConnection).find? fun i => !(st.sched i).valid

/-- `schedule_add`: the index, or `ERR_GENERIC`. -/
def schedule_add (st : Streams) (s : ℕ) (dad : Bool) : ℤ × Streams :=
  match st.firstInvalid with
  | some i =>
    (i, { st.setEntry i
            { valid := true
              rtpSession := some s
              playAction := dad || (st.sched i).playAction } with
          clientCount := incrSize st.clientCount }.note (.added s))
  | none => (-1, st)

def schedule_remove (st : Streams) (id : ℤ) : Option Streams :=
  (index id).map fun i =>
    let st' :=
      { st.setEntry i { st.sched i with valid := false } with
        clientCount := decrSize st.clientCount }
    match (st.sched i).rtpSession with
    | some s => st'.note (.removed s)
    | none => st'

/-- `schedule_start`: a new consumer for the packet buffer, whatever `cons` was. -/
def schedule_start (st : Streams) (id : ℤ) : Option Streams :=
  (index id).bind fun i =>
    (st.held i).bind fun (s, r) =>
      (st.media r.currentMedia).pktBuffer.bind fun b =>
        (st.OMSbuff_ref b).map fun st =>
          st.setSession s (some { r with cons := some b, pause := false, started := true })

def schedule_resume (st : Streams) (id : ℤ) : Option Streams :=
  (index id).bind fun i =>
    (st.held i).map fun (s, r) => st.setSession s (some { r with pause := false })

def schedule_stop (st : Streams) (i : Fin oneForkMaxConnection) : Option Streams :=
  (st.held i).map fun (s, r) => st.setSession s (some { r with pause := true, started := false })

end Streams

/-- What an unpaused session meets when the scheduler comes to its entry: whether
its next packet is due, the entry of the presentation `stream_change` switches
to, and the result of `play_action`. -/
structure Turn where
  due : Bool
  switch : Option ℕ := none
  res : ℤ := 0

/-- `ERR_ALLOC` and `ERR_EOF`. -/
def errAlloc : ℤ := -4
def errEof : ℤ := -8

namespace Streams

def stream_switch (st : Streams) (s : ℕ) (r : RTPSession) (m : ℕ) : Streams :=
  (st.setMedia m
    { st.media m with pktBuffer := (st.media r.currentMedia).pktBuffer }).setSession s
      (some { r with currentMedia := m })

/-- A due packet: the stream may change, and the session is stopped at the end of
a stored stream, or when there is no memory. -/
def sendPacket (st : Streams) (i : Fin oneForkMaxConnection) (turn : Turn) : Option Streams :=
  (st.held i).bind fun (s, r) =>
    let st := match turn.switch with
      | some m => st.stream_switch s r m
      | none => st
    (st.held i).bind fun (_, r) =>
      if (st.sched i).playAction then
        if turn.res = errAlloc ∨ turn.res = errEof ∧ (st.media r.currentMedia).live = false then
          st.schedule_stop i
        else some st
      else none

/-- The body of the loop of `schedule_do` over the entries. -/
def visit (st : Streams) (i : Fin oneForkMaxConnection) (turn : Turn) : Option Streams :=
  if (st.sched i).valid then
    (st.held i).bind fun (_, r) =>
      if r.pause = false ∧ turn.due then st.sendPacket i turn else some st
  else
    match (st.sched i).rtpSession with
    | none => some st
    | some s =>
      (st.session s).bind fun r =>
        if r.isMulticastDad then
          (st.RTP_session_destroy s r).map fun st =>
            st.setEntry i { st.sched i with rtpSession := none }
        else some st

def after (i : Fin oneForkMaxConnection) : Option (Fin oneForkMaxConnection) :=
  if h : i + 1 < oneForkMaxConnection then some ⟨i + 1, h⟩ else none

/-- One step of the thread in `schedule_do`. In front of a pass it waits as long as
there is no client. -/
def schedule_do (st : Streams) (turn : Turn) : Option Streams :=
  match st.position with
  | none =>
    some (if st.clientCount = 0 then st else { st with position := some 0 })
  | some i => (st.visit i turn).map fun st => { st with position := after i }

end Streams

end Fenice.Schedule
