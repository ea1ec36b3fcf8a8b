import Fenice.Memory.Discipline

/-!
# What the server takes and gives back (add_client.c, schedule_connections.c, RTSP_setup.c)

Every object on the heap from its allocation to its release, for the connections of the event
loop, their requests and the scheduler thread. An object is known by its address. Of requests,
files and streams there is what decides which blocks are taken and released.
-/

namespace Fenice.Memory
open Fenice.Ledger Fenice.Run

/-! ### The allocators -/

abbrev Log := List (Call Ptr)

/-- The C library: the block that it gives out after the calls that were made, `none` if there is
no memory. -/
structure CLibrary where
  malloc : Log → Option Ptr
  realloc : Log → Ptr → Option Ptr

/-- A new block is not `NULL` and none that is in use. -/
def CLibrary.Gives (c : CLibrary) : Prop :=
  ∀ log p, c.malloc log = some p → p ≠ 0 ∧ p ∉ inUse log

variable (c : CLibrary)

/-- `xmalloc` and `xcalloc`, also behind `xnew`, `xnew0` and `xnew_array`; `none` stands for
`exit (1)`. -/
def xmalloc (log : Log) : Option (Ptr × Log) :=
  (c.malloc log).map fun p => (p, .xalloc p :: log)

/-- `malloc` and `calloc`; `none` stands for `NULL`. -/
def malloc (log : Log) : Option Ptr × Log :=
  match c.malloc log with
  | some p => (some p, .alloc p :: log)
  | none => (none, log)

/-! ### Objects -/

/-- `media_file_type`. -/
inductive FileType where
  | none | mp3 | mpeg | h264
  deriving DecidableEq

/-- `media_entry`; `known` tells whether `mtype` is `audio` or `video`, `shm` whether the encoding
name is `RTP_SHM`, `opened` is `ME_FD`. Of `stat` there are its blocks, the outer one last. -/
structure MediaEntry where
  ftype : FileType := .none
  live : Bool := false
  known : Bool := false
  shm : Bool := false
  opened : Bool := false
  pktBuffer : Option Ptr := none
  stat : List Ptr := []

/-- The type of a packet buffer with the blocks that it has for itself. -/
inductive BuffType where
  | shm
  | loc (control slots : Ptr)

structure OMSBuffer where
  type : BuffType
  refs : ℕ := 0

/-- `RTP_session`; `schedId` is `none` for `ERR_GENERIC`. -/
structure RTPSession where
  currentMedia : Ptr
  isMulticastDad : Bool := false
  schedId : Option ℕ := some 0
  pause : Bool := true
  started : Bool := false
  cons : Option Ptr := none
  pktCount : ℕ := 0

/-- `RTSP_session`. -/
structure RTSPSession where
  ptr : Ptr
  rtpSession : List Ptr := []

/-- `RTSP_buffer`; `first` tells whether there was no other one when it was added. -/
structure RTSPBuffer where
  ptr : Ptr
  first : Bool
  sessionList : Option RTSPSession
  interleaved : List Ptr := []

/-- `SD_descr`. -/
structure SDDescr where
  ptr : Ptr
  filename : String
  lastChange : ℤ := 0
  meList : List Ptr := []

/-- `schedule_list`. -/
structure Entry where
  valid : Bool := false
  rtpSession : Option Ptr := none
  playAction : Bool := false

/-- The objects that the server has, and the calls that it made for them. -/
structure Server where
  log : Log
  rtspList : List RTSPBuffer
  sdGlobalList : List SDDescr
  sched : List Entry
  rtp : Ptr → Option RTPSession
  media : Ptr → Option MediaEntry
  buffers : Ptr → Option OMSBuffer

namespace Server

def init : Server := ⟨[], [], [], .replicate 100 {}, fun _ => none, fun _ => none, fun _ => none⟩

def setRtp (s : Server) (p : Ptr) (r : Option RTPSession) : Server :=
  { s with rtp := Function.update s.rtp p r }

def setMedia (s : Server) (p : Ptr) (me : MediaEntry) : Server :=
  { s with media := Function.update s.media p (some me) }

def setBuffer (s : Server) (p : Ptr) (b : Option OMSBuffer) : Server :=
  { s with buffers := Function.update s.buffers p b }

def setClient (s : Server) (k : ℕ) (p : RTSPBuffer) : Server :=
  { s with rtspList := s.rtspList.set k p }

end Server

/-! ### Replies -/

/-- A tracked block that is released where it is taken. -/
def scratch (log : Log) : Option Log := (xmalloc c log).map fun (b, log) => .xfree b :: log

def send_reply (log : Log) : Option Log := scratch c log

/-- `send_describe_reply`, and `send_redirect_3xx` where it has the twin. -/
def send_describe_reply (log : Log) : Option Log :=
  (xmalloc c log).bind fun (mb, log) =>
    (xmalloc c log).map fun (r, log) => .xfree r :: .xfree mb :: log

/-- A handler that only replies. -/
def replied (s : Server) : Option Server :=
  (send_reply c s.log).map fun log => { s with log := log }

/-- `parse_url` without `alloca`: a copy of the URL, and one of what comes after `rtsp://`. -/
def parse_url (scheme : Bool) (log : Log) : Option Log :=
  match malloc c log with
  | (none, _) => none
  | (some full, log) =>
    if !scheme then some (.free full :: log)
    else match malloc c log with
      | (none, _) => none
      | (some aSubStr, log) => some (.free full :: .free aSubStr :: log)

/-! ### Descriptions -/

/-- An `.sd` file on the disk: `st_ctime`, whether it can be opened, its streams up to the first one
that is not valid, and whether all of them are. -/
structure SDFile where
  ctime : ℤ
  opens : Bool
  streams : List MediaEntry
  valid : Bool

/-- One `media_entry` for each stream. -/
def newEntries : List MediaEntry → Server → Option (List Ptr × Server)
  | [], s => some ([], s)
  | me :: rest, s =>
    (xmalloc c s.log).bind fun (p, log) =>
      (newEntries rest ({ s with log := log }.setMedia p me)).map fun (ps, s) => (p :: ps, s)

/-- `parse_SD_file`, with whether it returns `ERR_NOERROR`. -/
def parse_SD_file (file : Option SDFile) (d : SDDescr) (s : Server) :
    Option (Bool × SDDescr × Server) :=
  match file with
  | none => some (false, d, s)
  | some f =>
    if d.lastChange = f.ctime then some (true, d, s)
    else if !f.opens then some (false, { d with lastChange := f.ctime }, s)
    else (newEntries c f.streams s).map fun (ps, s) =>
      (f.valid, { d with lastChange := f.ctime, meList := if ps.isEmpty then d.meList else ps }, s)

/-- The description of `object`, added to the list if it is not there. -/
def findDescr (object : String) (s : Server) : Option (ℕ × Server) :=
  match s.sdGlobalList.findIdx? fun d => d.filename == object with
  | some i => some (i, s)
  | none => (xmalloc c s.log).map fun (p, log) =>
    (s.sdGlobalList.length,
      { s with log := log, sdGlobalList := s.sdGlobalList ++ [{ ptr := p, filename := object }] })

/-- `enum_media`, with the position of the description that it finds. -/
def enum_media (object : String) (file : Option SDFile) (s : Server) :
    Option (Option ℕ × Server) :=
  (findDescr c object s).bind fun (i, s) =>
  (s.sdGlobalList[i]?).bind fun d =>
  (parse_SD_file c file d s).map fun (ok, d, s) =>
    if ok then (some i, { s with sdGlobalList := s.sdGlobalList.set i d })
    else (none, { s with
      log := .xfree d.ptr :: s.log, sdGlobalList := s.sdGlobalList.eraseIdx i })

/-- `named` tells whether the object ends in `.SD`, `answered` whether `RTSP_describe` replies to the
error that comes back, `full` what `max_connection` says, `twin` whether the description has one;
the file is read up to three times. -/
structure DescribeRequest where
  object : String
  named : Bool
  file : Option SDFile
  again : Option SDFile
  third : Option SDFile
  answered : Bool
  full : Bool
  twin : Bool

/-- `get_media_descr` with `get_SDP_descr`, which looks for the description again. -/
def get_media_descr (r : DescribeRequest) (s : Server) : Option (Bool × Server) :=
  if !r.named then some (false, s)
  else (enum_media c r.object r.file s).bind fun
    | (none, s) => some (false, s)
    | (some i, s) => (s.sdGlobalList[i]?).bind fun d =>
      if d.meList.isEmpty then some (false, s)
      else (enum_media c r.object r.again s).map fun (i, s) => (i.isSome, s)

def send_redirect_3xx (r : DescribeRequest) (s : Server) : Option Server :=
  (enum_media c r.object r.third s).bind fun
    | (none, s) => replied c s
    | (some _, s) =>
      if r.twin then (send_describe_reply c s.log).map fun log => { s with log := log }
      else replied c s

def RTSP_describe (r : DescribeRequest) (s : Server) : Option Server :=
  (get_media_descr c r s).bind fun (ok, s) =>
    if !ok && r.answered then replied c s
    else if r.full then send_redirect_3xx c r s
    else (send_describe_reply c s.log).map fun log => { s with log := log }

/-! ### SETUP -/

/-- The transport that is taken: none that is supported, one for which there are no ports, UDP with
`is_multicast_dad`, or TCP with whether the channels fit into a byte and whether the two
`socketpair` calls succeed. -/
inductive Offer where
  | unsupported
  | noPorts
  | avp (dad : Bool)
  | tcp (fits rtpPair rtcpPair : Bool)

/-- `urlOk` tells whether it comes to `enum_media`, `headersOk` to the transports and `sessionOk`
past the Session header; `stream` is what `get_media_entry` finds. `mapped` says which of the two
parts of shared memory can be mapped. -/
structure SetupRequest where
  urlOk : Bool
  object : String
  file : Option SDFile
  stream : Option ℕ
  headersOk : Bool
  offer : Offer
  sessionOk : Bool
  mapped : Bool × Bool

/-- With TCP there are two `RTSP_interleaved`, the first of which nothing points to any more. -/
def chooseTransport (o : Offer) (p : RTSPBuffer) (log : Log) :
    Option (Option Bool × RTSPBuffer × Log) :=
  match o with
  | .unsupported | .noPorts => (send_reply c log).map fun log => (none, p, log)
  | .avp dad => some (some dad, p, log)
  | .tcp fits rtpPair rtcpPair =>
    (xmalloc c log).bind fun (_, log) =>
      if !fits then (send_reply c log).map fun log => (none, p, log)
      else (xmalloc c log).bind fun (intlvd, log) =>
        if !(rtpPair && rtcpPair) then
          (send_reply c log).map fun log => (none, p, .free intlvd :: log)
        else some (some true, { p with interleaved := intlvd :: p.interleaved }, log)

/-- `fnc_ipc_name` with the `free` of the name. -/
def ipcName (log : Log) : Bool × Log :=
  match malloc c log with
  | (some name, log) => (true, .free name :: log)
  | (none, log) => (false, log)

def OMSbuff_new (log : Log) : Option (Ptr × OMSBuffer × Log) :=
  (xmalloc c log).bind fun (slots, log) =>
  (xmalloc c log).bind fun (control, log) =>
  (xmalloc c log).map fun (buffer, log) => (buffer, ⟨.loc control slots, 0⟩, log)

def OMSbuff_shm_map (mapped : Bool × Bool) (log : Log) : Option Ptr × Log :=
  match ipcName c log with
  | (false, log) => (none, log)
  | (true, log) =>
    if !mapped.1 then (none, log)
    else match ipcName c log with
      | (false, log) => (none, log)
      | (true, log) => if !mapped.2 then (none, log) else malloc c log

/-- The end of `mediacpy`: an entry gets a buffer if it has none. -/
def giveBuffer (mapped : Bool × Bool) (m : Ptr) (me : MediaEntry) (s : Server) :
    Option (Bool × Server) :=
  match me.pktBuffer with
  | some _ => some (true, s)
  | none =>
    if me.shm then
      match OMSbuff_shm_map c mapped s.log with
      | (none, log) => some (false, { s with log := log })
      | (some b, log) => some (true,
        ({ s with log := log }.setBuffer b (some ⟨.shm, 0⟩)).setMedia m
          { me with pktBuffer := some b })
    else (OMSbuff_new c s.log).map fun (b, buffer, log) => (true,
      ({ s with log := log }.setBuffer b (some buffer)).setMedia m { me with pktBuffer := some b })

/-- `mediacpy`, with what `media_out` points to then. -/
def mediacpy (mapped : Bool × Bool) (out source : Ptr) (s : Server) :
    Option (Bool × Ptr × Server) :=
  (s.media source).bind fun me =>
    if !me.known then some (false, out, s)
    else if me.live then
      (giveBuffer c mapped source me s).map fun (ok, s) => (ok, source, s)
    else (giveBuffer c mapped out me (s.setMedia out me)).map fun (ok, s) => (ok, out, s)

def schedule_add (r : Ptr) (dad : Bool) (s : Server) : Option ℕ × Server :=
  match s.sched.findIdx? fun e => !e.valid with
  | some i => (some i, { s with sched := s.sched.modify i fun e =>
      { valid := true, rtpSession := some r, playAction := dad || e.playAction } })
  | none => (none, s)

/-- The RTSP session of the connection, new "if necessary". -/
def sessionFor (p : RTSPBuffer) (log : Log) : Option (RTSPSession × Log) :=
  match p.sessionList with
  | some q => some (q, log)
  | none => (xmalloc c log).map fun (q, log) => ({ ptr := q }, log)

/-- The last part of `RTSP_setup`: the RTP session `r`, which is in the list, gets a medium and a
place in the schedule. -/
def startSession (mapped : Bool × Bool) (r m source : Ptr) (dad : Bool) (s : Server) :
    Option Server :=
  if dad then
    (mediacpy c mapped m source s).bind fun
      | (false, m, s) => replied c (s.setRtp r (some { currentMedia := m }))
      | (true, m, s) =>
        let (id, s) := schedule_add r true s
        some (s.setRtp r (some { currentMedia := m, isMulticastDad := true, schedId := id }))
  else
    let (id, s) := schedule_add r false s
    some (s.setRtp r (some { currentMedia := m, schedId := id }))

def addSession (mapped : Bool × Bool) (k : ℕ) (p : RTSPBuffer) (source : Ptr) (dad : Bool)
    (s : Server) : Option Server :=
  (sessionFor c p s.log).bind fun (q, log) =>
  (xmalloc c log).bind fun (r, log) =>
  (xmalloc c log).bind fun (m, log) =>
    let p := { p with sessionList := some { q with rtpSession := q.rtpSession ++ [r] } }
    startSession c mapped r m source dad (({ s with log := log }.setMedia m {}).setClient k p)

def RTSP_setup (r : SetupRequest) (k : ℕ) (p : RTSPBuffer) (s : Server) : Option Server :=
  if !r.urlOk then replied c s
  else (enum_media c r.object r.file s).bind fun
    | (none, s) => replied c s
    | (some i, s) => (s.sdGlobalList[i]?).bind fun d =>
      match r.stream.bind fun j => d.meList[j]? with
      | none => replied c s
      | some source =>
        if !r.headersOk then replied c s
        else (chooseTransport c r.offer p s.log).bind fun
          | (none, _, log) => some { s with log := log }
          | (some dad, p, log) =>
            if !r.sessionOk then replied c ({ s with log := log }.setClient k p)
            else addSession c r.mapped k p source dad { s with log := log }

/-! ### PLAY, PAUSE and TEARDOWN -/

def OMSbuff_ref (log : Log) : Option (Ptr × Log) := xmalloc c log

/-- `sched[id].rtp_session`. -/
def scheduled (id : Option ℕ) (s : Server) : Option Ptr :=
  id.bind fun i => (s.sched[i]?).bind Entry.rtpSession

/-- The references are counted in sixteen bits. -/
def schedule_start (id : Option ℕ) (s : Server) : Option Server :=
  (scheduled id s).bind fun p =>
  (s.rtp p).bind fun r =>
  (s.media r.currentMedia).bind fun me =>
  me.pktBuffer.bind fun b =>
  (s.buffers b).bind fun buffer =>
  (OMSbuff_ref c s.log).map fun (cons, log) =>
    ({ s with log := log }.setBuffer b
      (some { buffer with refs := (buffer.refs + 1) % 65536 })).setRtp p
        (some { r with cons := some cons, pause := false, started := true })

def schedule_resume (id : Option ℕ) (s : Server) : Option Server :=
  (scheduled id s).bind fun p =>
    (s.rtp p).map fun r => s.setRtp p (some { r with pause := false })

/-- One session of the loops of `RTSP_play`. -/
def startOrResume (p : Ptr) (s : Server) : Option Server :=
  (s.rtp p).bind fun r =>
    if !r.started then schedule_start c r.schedId s
    else if !r.pause then some s
    else schedule_resume r.schedId s

def playLoop (named : Ptr → Bool) : List Ptr → Server → Option Server
  | [], s => some s
  | p :: rest, s =>
    (if named p then startOrResume c p s else some s).bind fun s => playLoop named rest s

/-- The sessions that the URL names: `only` if it names one file. -/
structure PlayRequest where
  only : Option Ptr
  named : Ptr → Bool

def RTSP_play (r : PlayRequest) (q : RTSPSession) (s : Server) : Option Server :=
  match r.only with
  | some p => (s.rtp p).bind fun session => schedule_start c session.schedId s
  | none => playLoop c r.named q.rtpSession s

def pauseLoop : List Ptr → Server → Option Server
  | [], s => some s
  | p :: rest, s =>
    (s.rtp p).bind fun r => pauseLoop rest (s.setRtp p (some { r with pause := true }))

def schedule_remove (r : RTPSession) (s : Server) : Option Server :=
  r.schedId.map fun i => { s with sched := s.sched.modify i fun e => { e with valid := false } }

def removeLoop : List Ptr → Server → Option Server
  | [], s => some s
  | p :: rest, s =>
    (s.rtp p).bind fun r => (schedule_remove r s).bind fun s => removeLoop rest s

/-- The sessions that `named` names are removed; the last one takes the `RTSP_session` with it. -/
def RTSP_teardown (named : Ptr → Bool) (k : ℕ) (p : RTSPBuffer) (q : RTSPSession) (s : Server) :
    Option Server :=
  (removeLoop (q.rtpSession.filter named) s).map fun s =>
    match q.rtpSession.filter fun r => !named r with
    | [] => { s.setClient k { p with sessionList := none } with log := .free q.ptr :: s.log }
    | rest => s.setClient k { p with sessionList := some { q with rtpSession := rest } }

inductive Request where
  | refused
  | answered
  | describe (r : DescribeRequest)
  | setup (r : SetupRequest)
  | play (r : PlayRequest)
  | pause
  | teardown (named : Ptr → Bool)

/-- The URL of a request, if it comes to that, and whether it begins with `rtsp://`. -/
def parsed (url : Option Bool) (s : Server) : Option Server :=
  match url with
  | none => some s
  | some scheme => (parse_url c scheme s.log).map fun log => { s with log := log }

/-- `RTSP_handler` with `RTSP_state_machine` for one request: a method runs only on a connection
that has a session. -/
def request (k : ℕ) (url : Option Bool) (r : Request) (s : Server) : Option Server :=
  (s.rtspList[k]?).bind fun p =>
  (parsed c url s).bind fun s =>
    match r, p.sessionList with
    | .refused, _ => replied c s
    | _, none => some s
    | .answered, _ => some s
    | .describe r, some _ => RTSP_describe c r s
    | .setup r, some _ => RTSP_setup c r k p s
    | .play r, some q => RTSP_play c r q s
    | .pause, some q => pauseLoop q.rtpSession s
    | .teardown named, some q => RTSP_teardown named k p q s

/-! ### Connections -/

def RTSP_initserver (log : Log) : Option (RTSPSession × Log) :=
  (xmalloc c log).map fun (q, log) => ({ ptr := q }, log)

/-- The first connection comes from `xnew0`, the others from `calloc`. -/
def add_client (s : Server) : Option Server :=
  match s.rtspList with
  | [] =>
    (xmalloc c s.log).bind fun (p, log) =>
    (RTSP_initserver c log).map fun (q, log) =>
      { s with log := log, rtspList := [{ ptr := p, first := true, sessionList := some q }] }
  | _ :: _ =>
    match malloc c s.log with
    | (none, _) => some s
    | (some p, log) => (RTSP_initserver c log).map fun (q, log) =>
      { s with
        log := log,
        rtspList := s.rtspList ++ [{ ptr := p, first := false, sessionList := some q }] }

/-- The RTSP session of a connection that is closed, with its RTP sessions in the table. -/
def closeSession (list : Option RTSPSession) (s : Server) : Option Server :=
  match list with
  | none => some s
  | some q => (removeLoop q.rtpSession s).map fun s => { s with log := .xfree q.ptr :: s.log }

/-- `schedule_connections` where `rtsp_server` says that a connection is closed, `replies` if by the
server. -/
def closeConnection (k : ℕ) (replies : Bool) (s : Server) : Option Server :=
  (s.rtspList[k]?).bind fun p =>
  (if replies then replied c s else some s).bind fun s =>
  (closeSession p.sessionList s).map fun s =>
    { s with log := .xfree p.ptr :: s.log, rtspList := s.rtspList.eraseIdx k }

/-! ### The scheduler thread -/

/-- One call of `read_media`: whether the file can be opened if it is not yet, and the pages that
`OMSbuff_getslot` adds to the buffer, with the names of shared memory that are made. -/
structure Frame where
  opens : Bool
  page : Bool
  names : ℕ

/-- What one turn of `schedule_do` does for a session that is due: a look-up by `stream_change`, the
frames that are read, the slots that are sent and whether `schedule_stop` is called. -/
structure Visit where
  change : Option (String × Option SDFile)
  switched : Option Ptr
  frames : List Frame
  packets : ℕ
  stops : Bool

/-- The packet comes from `xcalloc` and goes to `free`. -/
def RTCP_send_packet (log : Log) : Option Log :=
  (xmalloc c log).map fun (pkt, log) => .free pkt :: log

/-- With the first packet and every twentieth there are two RTCP packets. -/
def RTCP_handler (r : RTPSession) (log : Log) : Option Log :=
  if r.pktCount % 20 = 0 then (RTCP_send_packet c log).bind (RTCP_send_packet c) else some log

def stream_change (v : Visit) (p : Ptr) (s : Server) : Option Server :=
  match v.change with
  | none => some s
  | some (object, file) => (enum_media c object file s).bind fun (_, s) =>
    match v.switched with
    | none => some s
    | some m => (s.rtp p).bind fun r => (s.media r.currentMedia).bind fun old =>
      (s.media m).map fun me =>
        ((s.setMedia r.currentMedia { old with opened := false }).setMedia m
          { me with pktBuffer := old.pktBuffer }).setRtp p (some { r with currentMedia := m })

def ipcNames : ℕ → Log → Log
  | 0, log => log
  | n + 1, log => ipcNames n (ipcName c log).2

/-- A page is added by `realloc` where the buffer is a local one. -/
def OMSbuff_addpage (b : Ptr) (s : Server) : Option Server :=
  (s.buffers b).map fun buffer =>
    match buffer.type with
    | .shm => s
    | .loc control slots =>
      match c.realloc s.log slots with
      | none => s
      | some added => ({ s with log := .realloc slots added :: s.log } : Server).setBuffer b
        (some { buffer with type := .loc control added })

/-- `read_MPEG_video` has a block for its state from the first call on and one for its work, both
tracked; `read_h264` has three of the other allocator, and `read_MP3` none. -/
def read_media (m : Ptr) (me : MediaEntry) (f : Frame) (s : Server) : Option Server :=
  match me.ftype with
  | .none | .mp3 => some s
  | .mpeg =>
    if me.opened then (scratch c s.log).map fun log => { s with log := log }
    else if !f.opens then some s
    else (xmalloc c s.log).bind fun (stat, log) => (scratch c log).map fun log =>
      { s with log := log }.setMedia m { me with opened := true, stat := [stat] }
  | .h264 =>
    if me.opened || !f.opens then some s
    else match malloc c s.log with
      | (none, _) => none
      | (some stat, log) => match malloc c log with
        | (none, _) => none
        | (some n, log) => match malloc c log with
          | (none, _) => none
          | (some buf, log) => some ({ s with log := log }.setMedia m
            { me with opened := true, stat := [buf, n, stat] })

/-- One round of `get_frame`. -/
def readFrame (m : Ptr) (f : Frame) (s : Server) : Option Server :=
  (s.media m).bind fun me =>
  me.pktBuffer.bind fun b =>
    let s' := { s with log := ipcNames c f.names s.log }
    (if f.page then OMSbuff_addpage c b s' else some s').bind fun s => read_media c m me f s

def frameLoop (m : Ptr) : List Frame → Server → Option Server
  | [], s => some s
  | f :: rest, s => (readFrame c m f s).bind fun s => frameLoop m rest s

def get_frame (m : Ptr) (frames : List Frame) (s : Server) : Option Server :=
  (s.media m).bind fun me => if me.ftype = .none then some s else frameLoop c m frames s

def sendPackets : ℕ → Log → Option Log
  | 0, log => some log
  | n + 1, log => (scratch c log).bind fun log => sendPackets n log

/-- `RTP_send_packet`, with a buffer for each packet. -/
def RTP_send_packet (v : Visit) (p : Ptr) (s : Server) : Option Server :=
  (s.rtp p).bind fun r =>
  (get_frame c r.currentMedia v.frames s).bind fun s =>
  (sendPackets c v.packets s.log).map fun log =>
    ({ s with log := log } : Server).setRtp p (some { r with pktCount := r.pktCount + v.packets })

def schedule_stop (p : Ptr) (s : Server) : Option Server :=
  (s.rtp p).bind fun r =>
  ((RTCP_send_packet c s.log).bind (RTCP_send_packet c)).map fun log =>
    ({ s with log := log } : Server).setRtp p (some { r with pause := true, started := false })

/-- `schedule_do` at an entry that is valid; the session may be one that does not play. -/
def visit (i : ℕ) (v : Visit) (s : Server) : Option Server :=
  (s.sched[i]?).bind fun e =>
  if !e.valid then some s
  else e.rtpSession.bind fun p => (s.rtp p).bind fun r =>
    if r.pause then some s
    else (stream_change c v p s).bind fun s =>
      (RTCP_handler c r s.log).bind fun log =>
      (if e.playAction then RTP_send_packet c v p { s with log := log } else none).bind fun s =>
        if v.stops then schedule_stop c p s else some s

/-- `free_media` of the medium; there is none for `FILE_NONE`. -/
def mediaclose (m : Ptr) (me : MediaEntry) (s : Server) : Option Server :=
  match me.ftype with
  | .none => none
  | .mp3 => some (s.setMedia m { me with opened := false, stat := [] })
  | .mpeg | .h264 => some ({ s with log := me.stat.reverse.map Call.free ++ s.log }.setMedia m
      { me with opened := false, stat := [] })

def OMSbuff_free (b : Ptr) (buffer : OMSBuffer) (s : Server) : Server :=
  match buffer.type with
  | .shm => s
  | .loc control slots =>
    { s with log := .xfree b :: .free slots :: .xfree control :: s.log }.setBuffer b none

/-- `OMSbuff_unref` of the consumer that the session has. -/
def OMSbuff_unref (r : RTPSession) (buffer : OMSBuffer) (s : Server) : OMSBuffer × Server :=
  match r.cons with
  | none => (buffer, s)
  | some cons => ({ buffer with refs := buffer.refs - 1 }, { s with log := .free cons :: s.log })

def RTP_session_destroy (p : Ptr) (r : RTPSession) (s : Server) : Option Server :=
  (s.media r.currentMedia).bind fun me =>
  me.pktBuffer.bind fun b =>
  (s.buffers b).bind fun buffer =>
    let (buffer, s) := OMSbuff_unref r buffer s
    let s := s.setBuffer b (some buffer)
    (if buffer.refs = 0 then
      mediaclose r.currentMedia { me with pktBuffer := none } (OMSbuff_free b buffer s)
    else some s).map fun s => { s with log := .free p :: s.log }.setRtp p none

/-- `schedule_do` at an entry that is not valid. -/
def sweep (i : ℕ) (s : Server) : Option Server :=
  (s.sched[i]?).bind fun e =>
    match e.valid, e.rtpSession with
    | true, _ | _, none => some s
    | false, some p => (s.rtp p).bind fun r =>
      if !r.isMulticastDad then some s
      else (RTP_session_destroy p r s).map fun s =>
        { s with sched := s.sched.modify i fun e => { e with rtpSession := none } }

/-! ### Runs -/

inductive Event where
  | connect
  | fork
  | request (k : ℕ) (url : Option Bool) (r : Request)
  | close (k : ℕ) (replies : Bool)
  | visit (i : ℕ) (v : Visit)
  | sweep (i : ℕ)

/-- The child of `fork` goes on with the blocks of its parent, with no connection but the new one and
an empty schedule. -/
def step (s : Server) : Event → Option Server
  | .connect => add_client c s
  | .fork => add_client c { s with rtspList := [], sched := .replicate 100 {} }
  | .request k url r => request c k url r s
  | .close k replies => closeConnection c k replies s
  | .visit i v => visit c i v s
  | .sweep i => sweep i s

end Fenice.Memory
