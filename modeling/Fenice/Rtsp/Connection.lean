import Fenice.Rtsp.Url
import Fenice.Schedule.Calls

/-!
# Connections and replies (rtsp.h, bwrite.c, get_stat.c, send_*.c)

A reply is kept as its status, the number printed behind `CSeq:` and the text
that follows. `Output` remembers the replies that were handed to `bwrite`, and
`out_buffer` up to `out_size`.
-/

namespace Fenice.Rtsp
open Fenice.CString Fenice.Schedule

/-- What a request finds outside of the server: preferences, files, sockets,
clock and random numbers. `sdp` is what `get_SDP_descr` returns and writes, or
what `descr` holds if it is not called. -/
structure World where
  hostname : Bytes := lit "localhost"
  address : Bytes := lit "127.0.0.1"
  date : Bytes := lit "Thu, 01 Jan 1970 00:00:00 GMT"
  file : ParsedSD := .unchanged
  shmMap : Bool := true
  sdp : ℤ × Bytes := (0, [])
  maxConnection : Bool := false
  getpeername : Bool := true
  udpFds : ℤ × ℤ × ℤ := (0, 0, 0)
  rtpSocketpair : Option (ℤ × ℤ) := none
  rtcpSocketpair : Option (ℤ × ℤ) := none
  sessionNumber : ℤ := 1
  startSeq : ℕ := 1
  startRtptime : ℕ := 1
  ssrc : ℕ := 0

structure Reply where
  status : ℕ
  cseq : ℤ
  rest : Bytes
  deriving DecidableEq

/-- The table of `get_stat`. -/
def statusTexts : List (ℕ × Bytes) :=
  [(100, lit "Continue"), (200, lit "OK"), (201, lit "Created"), (202, lit "Accepted"),
    (203, lit "Non-Authoritative Information"), (204, lit "No Content"),
    (205, lit "Reset Content"), (206, lit "Partial Content"), (300, lit "Multiple Choices"),
    (301, lit "Moved Permanently"), (302, lit "Moved Temporarily"), (400, lit "Bad Request"),
    (401, lit "Unauthorized"), (402, lit "Payment Required"), (403, lit "Forbidden"),
    (404, lit "Not Found"), (405, lit "Method Not Allowed"), (406, lit "Not Acceptable"),
    (407, lit "Proxy Authentication Required"), (408, lit "Request Time-out"),
    (409, lit "Conflict"), (410, lit "Gone"), (411, lit "Length Required"),
    (412, lit "Precondition Failed"), (413, lit "Request Entity Too Large"),
    (414, lit "Request-URI Too Large"), (415, lit "Unsupported Media Type"),
    (420, lit "Bad Extension"), (450, lit "Invalid Parameter"),
    (451, lit "Parameter Not Understood"), (452, lit "Conference Not Found"),
    (453, lit "Not Enough Bandwidth"), (454, lit "Session Not Found"),
    (455, lit "Method Not Valid In This State"),
    (456, lit "Header Field Not Valid for Resource"), (457, lit "Invalid Range"),
    (458, lit "Parameter Is Read-Only"), (461, lit "Unsupported transport"),
    (500, lit "Internal Server Error"), (501, lit "Not Implemented"), (502, lit "Bad Gateway"),
    (503, lit "Service Unavailable"), (504, lit "Gateway Time-out"),
    (505, lit "RTSP Version Not Supported"), (551, lit "Option not supported"),
    (911, lit "Extended Error:")]

/-- `get_stat`, printed: a null pointer gives `(null)`. -/
def get_stat (err : ℕ) : Bytes :=
  match statusTexts.find? fun t => t.1 == err with
  | some t => t.2
  | none => lit "(null)"

/-- `RTSP_EL`. -/
def el : Bytes := [cr, lf]

/-- The text of a reply; `RTSP_VER` stands in front. -/
def Reply.render (r : Reply) : Bytes :=
  lit "RTSP/1.0 " ++ natText r.status ++ lit " " ++ get_stat r.status ++ el ++
    lit "CSeq: " ++ intText r.cseq ++ el ++ r.rest

structure Output where
  bytes : Bytes := []
  sent : ℕ := 0
  replies : List Reply := []
  deriving DecidableEq

/-- The size of `out_buffer`: `RTSP_BUFFERSIZE + MAX_DESCR_LENGTH`. -/
def outBufferSize : ℕ := 4096 + 4096

/-- `replies` are what was handed to `bwrite`; what does not fit is not appended. A reply that fits to
the last byte is appended here, and in `OutBuffer.bwrite` its zero is behind `out_buffer`. -/
def Output.bwrite (o : Output) (r : Reply) : Output :=
  { o with
    replies := o.replies ++ [r]
    bytes := if outBufferSize < o.bytes.length + r.render.length then o.bytes
      else o.bytes ++ r.render }

structure RTSPInterleaved where
  rtpFd : ℤ
  rtcpFd : ℤ
  rtpCh : ℕ
  rtcpCh : ℕ
  deriving DecidableEq

/-- `INIT_STATE`, `READY_STATE` and `PLAY_STATE`. -/
inductive CurState where
  | init | ready | play
  deriving DecidableEq

structure RTSPSession where
  curState : CurState
  sessionId : ℤ
  rtpSession : List ℕ
  deriving DecidableEq

/-- `RTSP_buffer`, without `in_buffer`. -/
structure RTSPBuffer where
  out : Output
  interleaved : List RTSPInterleaved
  rtspCseq : ℕ
  sessionList : Option RTSPSession
  deriving DecidableEq

/-- After `RTSP_initserver`. -/
def RTSP_initserver : RTSPBuffer := ⟨{}, [], 0, some ⟨.init, -1, []⟩⟩

/-- `send_reply`; what is passed as `addon` only makes its buffer larger. -/
def send_reply (err : ℕ) (rtsp : RTSPBuffer) : RTSPBuffer :=
  { rtsp with out := rtsp.out.bwrite ⟨err, int32 rtsp.rtspCseq, el⟩ }

theorem send_reply_sessionList (err : ℕ) (rtsp : RTSPBuffer) :
    (send_reply err rtsp).sessionList = rtsp.sessionList := by
  unfold send_reply
  rfl

theorem send_reply_interleaved (err : ℕ) (rtsp : RTSPBuffer) :
    (send_reply err rtsp).interleaved = rtsp.interleaved := by
  unfold send_reply
  rfl

/-- A reply that was built in an array of `cap` bytes. -/
def send (cap : ℕ) (r : Reply) (rtsp : RTSPBuffer) : Option RTSPBuffer :=
  if r.render.length < cap then some { rtsp with out := rtsp.out.bwrite r } else none

/-- `PACKAGE` and `VERSION`. -/
def serverLine : Bytes := lit "Server: fenice/1.12" ++ el

def add_time_stamp (w : World) : Bytes := lit "Date: " ++ w.date ++ el

def send_options_reply (rtsp : RTSPBuffer) (cseq : ℤ) : Option RTSPBuffer :=
  send 1024
    ⟨200, cseq, lit "Public: OPTIONS,DESCRIBE,SETUP,PLAY,PAUSE,TEARDOWN" ++ el ++ el⟩ rtsp

def send_describe_reply (w : World) (rtsp : RTSPBuffer) (object descr : Bytes) :
    Option RTSPBuffer :=
  send (2048 + 1512)
    ⟨200, int32 rtsp.rtspCseq, serverLine ++ add_time_stamp w ++
      lit "Content-Type: application/sdp" ++ el ++
      lit "Content-Base: rtsp://" ++ w.hostname ++ lit "/" ++ object ++ lit "/" ++ el ++
      lit "Content-Length: " ++ natText descr.length ++ el ++ el ++ descr⟩ rtsp

/-- The reply of `send_redirect_3xx`. -/
def send_redirect (rtsp : RTSPBuffer) (twin : Bytes) : Option RTSPBuffer :=
  send (2048 + 1512)
    ⟨302, int32 rtsp.rtspCseq, serverLine ++ lit "Location: " ++ twin ++ el ++ el⟩ rtsp

/-- The value of the header `Transport` in `send_setup_reply`; `DEFAULT_TTL` is 32. -/
def transportText (w : World) (descr : SDDescr) (t : Transport) : Bytes :=
  match t.type with
  | .avp =>
    (if t.isMulticast then
      lit "RTP/AVP;multicast;ttl=32;destination=" ++ descr.multicast ++ lit ";port="
    else
      lit "RTP/AVP;unicast;client_port=" ++ intText t.cliPorts.RTP ++ lit "-" ++
        intText t.cliPorts.RTCP ++ lit ";source=" ++ w.address ++ lit ";server_port=") ++
      intText t.serPorts.RTP ++ lit "-" ++ intText t.serPorts.RTCP
  | .avpTcp =>
    lit "RTP/AVP/TCP;interleaved=" ++ natText t.interleavedRTP ++ lit "-" ++
      natText t.interleavedRTCP
  | .noTransport => []

def setupReply (w : World) (cseq : ℕ) (sessionId : ℤ) (descr : SDDescr) (r : RTPSession) :
    Reply :=
  ⟨200, int32 cseq, serverLine ++ add_time_stamp w ++
    lit "Session: " ++ intText sessionId ++ el ++
    lit "Transport: " ++ transportText w descr r.transport ++
    lit ";ssrc=" ++ natText r.ssrc ++ el ++ el⟩

def send_setup_reply (w : World) (rtsp : RTSPBuffer) (sessionId : ℤ) (descr : SDDescr)
    (r : RTPSession) : Option RTSPBuffer :=
  send 1024 (setupReply w rtsp.rtspCseq sessionId descr r) rtsp

/-- One stream in the header `RTP-info`. -/
def rtpInfo (w : World) (st : Streams) (r : RTPSession) : Bytes :=
  lit "url=rtsp://" ++ w.hostname ++ lit "/" ++ r.sdFilename ++ lit "/" ++ r.sdFilename ++
    lit "!" ++ (st.media r.currentMedia).filename ++ lit ";seq=" ++ natText r.startSeq ++
    lit ";rtptime=" ++ natText r.startRtptime

def playReply (w : World) (cseq : ℕ) (st : Streams) (sessionId : ℤ) (rs : List RTPSession) :
    Reply :=
  ⟨200, int32 cseq, serverLine ++ add_time_stamp w ++
    lit "Session: " ++ intText sessionId ++ el ++ lit "RTP-info: " ++
    (lit ",").intercalate (rs.map (rtpInfo w st)) ++ el ++ el⟩

/-- `send_play_reply`; it follows the list of sessions, which must not be empty. -/
def send_play_reply (w : World) (rtsp : RTSPBuffer) (st : Streams) (session : RTSPSession) :
    Option RTSPBuffer :=
  if session.rtpSession = [] then none
  else
    (session.rtpSession.mapM st.session).bind fun rs =>
      send 1024 (playReply w rtsp.rtspCseq st session.sessionId rs) rtsp

def pauseReply (w : World) (cseq : ℕ) (sessionId : ℤ) : Reply :=
  ⟨200, int32 cseq, serverLine ++ add_time_stamp w ++
    lit "Session: " ++ intText sessionId ++ el ++ el⟩

def send_pause_reply (w : World) (rtsp : RTSPBuffer) (sessionId : ℤ) : Option RTSPBuffer :=
  send 1024 (pauseReply w rtsp.rtspCseq sessionId) rtsp

def send_teardown_reply (w : World) (rtsp : RTSPBuffer) (sessionId cseq : ℤ) :
    Option RTSPBuffer :=
  send 1024
    ⟨200, cseq, serverLine ++ add_time_stamp w ++
      lit "Session: " ++ intText sessionId ++ el ++ el⟩ rtsp

end Fenice.Rtsp
