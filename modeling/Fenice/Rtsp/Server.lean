import Fenice.Rtsp.Sweep

/-!
# The server

The connections of the event loop with the streams they share. A step is a new
connection, `rtsp_set_fdsets` for a connection, one of its requests, its end, or a step
of the scheduler thread.
-/

namespace Fenice.Rtsp
open Fenice.CString Fenice.Schedule Fenice.Run

/-- A connection that was closed leaves a hole. -/
structure Server where
  connections : List (Option RTSPBuffer)
  -- whether add_client took the node of a connection from xnew0 or from calloc
  tracked : List Bool
  st : Streams

inductive Act where
  | connect
  | fdsets (k : ℕ)
  | request (k : ℕ) (w : World) (inp : Bytes)
  | close (k : ℕ)
  | tick (turn : Turn)

namespace Server

def init : Server := ⟨[], [], Streams.init rtpDefaultPort⟩

def connection (sv : Server) (k : ℕ) : Option RTSPBuffer := sv.connections[k]?.join

def put (sv : Server) (k : ℕ) (p : Option RTSPBuffer) (st : Streams) : Server :=
  { sv with connections := sv.connections.set k p, st := st }

/-- `add_client`: a node from `xnew0` for an empty list, from `calloc` for any other. -/
def add_client (sv : Server) : Server :=
  { sv with
    connections := sv.connections ++ [some RTSP_initserver]
    tracked := sv.tracked ++ [sv.connections.all Option.isNone] }

/-- The node of connection `k` is in the table of `debugging_free`; `xfree` aborts on any other. -/
def inTable (sv : Server) (k : ℕ) : Bool := sv.tracked[k]?.getD false

end Server

/-- The RTP sessions of a connection. -/
def RTSPBuffer.sessions (rtsp : RTSPBuffer) : List ℕ :=
  match rtsp.sessionList with
  | some q => q.rtpSession
  | none => []

theorem send_reply_sessions (status : ℕ) (rtsp : RTSPBuffer) :
    (send_reply status rtsp).sessions = rtsp.sessions := by
  unfold send_reply RTSPBuffer.sessions
  rfl

/-- Whether a session of the list was not started; all are looked at. -/
def unstarted (st : Streams) : List ℕ → Option Bool
  | [] => some false
  | s :: rest =>
    (st.session s).bind fun r => (unstarted st rest).map fun b => !r.started || b

/-- What `rtsp_set_fdsets` does to the state of a connection: "play finished, go to
ready state". -/
def rtsp_set_fdsets (rtsp : RTSPBuffer) (st : Streams) : Option RTSPBuffer :=
  (unstarted st rtsp.sessions).map fun finished =>
    if finished then
      { rtsp with sessionList := rtsp.sessionList.map fun q => { q with curState := .ready } }
    else rtsp

/-- `none`: the server is no more. -/
def serverStep (sv : Server) : Act → Option Server
  | .connect => some sv.add_client
  | .fdsets k =>
    (sv.connection k).bind fun rtsp =>
      (rtsp_set_fdsets rtsp sv.st).map fun rtsp => sv.put k (some rtsp) sv.st
  | .request k w inp =>
    (sv.connection k).bind fun rtsp =>
      (handleMessage w inp rtsp sv.st).map fun (rtsp, st) => sv.put k (some rtsp) st
  | .close k =>
    (sv.connection k).bind fun rtsp =>
      if sv.inTable k then (closeLoop rtsp.sessions sv.st).map fun st => sv.put k none st
      else none
  | .tick turn => (sv.st.schedule_do turn).map fun st => { sv with st := st }

theorem connection_add_client (sv : Server) (j : ℕ) : sv.add_client.connection j =
    if j = sv.connections.length then some RTSP_initserver else sv.connection j := by
  unfold Server.connection Server.add_client
  split_ifs with hj
  · rw [hj, List.getElem?_concat_length]
    rfl
  · rcases Nat.lt_or_gt_of_ne hj with hlt | hgt
    · rw [List.getElem?_append_left hlt]
    · rw [List.getElem?_eq_none (by simp; omega), List.getElem?_eq_none (by omega)]

theorem put_connection {sv : Server} {k j : ℕ} {p : Option RTSPBuffer} {st : Streams}
    (hk : k < sv.connections.length) :
    (sv.put k p st).connection j = if j = k then p else sv.connection j := by
  unfold Server.connection Server.put
  dsimp only
  split
  · rename_i he
    rw [he, List.getElem?_set_self hk]
    rfl
  · rename_i hne
    rw [List.getElem?_set_ne (fun he => hne he.symm)]

theorem connection_lt {sv : Server} {k : ℕ} {rtsp : RTSPBuffer} (h : sv.connection k = some rtsp) :
    k < sv.connections.length := by
  unfold Server.connection at h
  cases hk : sv.connections[k]? with
  | none =>
    rw [hk] at h
    cases h
  | some p => exact (List.getElem?_eq_some_iff.mp hk).1

/-- A connection that is closed leaves with its RTP sessions; its node was in the table. -/
theorem close_step {sv sv' : Server} {k : ℕ} (h : serverStep sv (.close k) = some sv') :
    ∃ rtsp st', sv.connection k = some rtsp ∧ closeLoop rtsp.sessions sv.st = some st' ∧
      sv' = sv.put k none st' := by
  obtain ⟨rtsp, hrtsp, h⟩ := Option.bind_eq_some_iff.mp h
  split at h
  · obtain ⟨st', hc, rfl⟩ := Option.map_eq_some_iff.mp h
    exact ⟨rtsp, st', hrtsp, hc, rfl⟩
  · cases h

theorem server_made {sv sv' : Server} {a : Act} (h : serverStep sv a = some sv') :
    Made sv.st sv'.st := by
  cases a with
  | connect =>
    cases h
    exact .refl _
  | fdsets k =>
    obtain ⟨rtsp, -, h⟩ := Option.bind_eq_some_iff.mp h
    obtain ⟨_, -, rfl⟩ := Option.map_eq_some_iff.mp h
    exact .refl _
  | request k w inp =>
    obtain ⟨rtsp, -, h⟩ := Option.bind_eq_some_iff.mp h
    obtain ⟨⟨rtsp', st'⟩, hm, rfl⟩ := Option.map_eq_some_iff.mp h
    exact handleMessage_made hm
  | close k =>
    obtain ⟨rtsp, st', -, hc, rfl⟩ := close_step h
    exact (closeLoop_plain hc).made
  | tick turn =>
    obtain ⟨st', ht, rfl⟩ := Option.map_eq_some_iff.mp h
    exact .call (c := .tick turn) ht

/-! ### Requests to run -/

/-- A request with its number and further header lines. -/
def message (method url : String) (cseq : ℕ) (headers : List String) : Bytes :=
  lit method ++ lit " " ++ lit url ++ lit " RTSP/1.0" ++ el ++ lit "CSeq: " ++ natText cseq ++ el ++
    (headers.flatMap fun h => lit h ++ el) ++ el

/-- The film is on the disk. -/
def onDisk : World := { file := .parsed film }

def setupMessage (cseq : ℕ) (stream : String) (headers : List String) : Bytes :=
  message "SETUP" ("rtsp://localhost/film.sd!" ++ stream) cseq
    ("Transport: RTP/AVP;unicast;client_port=3000-3001" :: headers)

/-- A client sets up the film. -/
def setUp : List Act := [.connect, .request 0 onDisk (setupMessage 1 "v.mpg" [])]

/-- The server that a run leads to. -/
def served (as : List Act) : Server := (exec serverStep Server.init as).getD Server.init

theorem exec_served {as : List Act} (h : (exec serverStep Server.init as).isSome = true) :
    exec serverStep Server.init as = some (served as) := by
  obtain ⟨sv, hsv⟩ := Option.isSome_iff_exists.mp h
  rw [served, hsv]
  rfl

example : ((served setUp).connection 0).map (fun p => p.out.replies.map Reply.status) =
    some [200] := by
  decide +kernel

end Fenice.Rtsp
