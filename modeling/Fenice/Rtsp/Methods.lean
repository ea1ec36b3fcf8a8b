import Fenice.Rtsp.Connection

/-!
# DESCRIBE, OPTIONS, PLAY, PAUSE and TEARDOWN (RTSP_*.c)

What a method reads from the request is a chain of checks, each of which may end
the function with a reply and a return value. `in_buffer` is the string `inp`;
the functions of `<string.h>` see all of it, whatever stands behind the request.
-/

namespace Fenice.Rtsp
open Fenice.CString Fenice.Schedule

/-- `ERR_NOERROR`, `ERR_GENERIC`, `ERR_NOT_FOUND`, `ERR_PARSE` and `ERR_NOT_SD`. -/
def errNoerror : ℤ := 0
def errGeneric : ℤ := -1
def errNotFound : ℤ := -2
def errParse : ℤ := -3
def errNotSd : ℤ := -6

/-- `send_reply (status, addon, rtsp); return rc;` -/
structure Rejection where
  status : ℕ
  rc : ℤ
  addon : Option String := none
  deriving DecidableEq

/-- A check that passes with a value or rejects the request. `none`: a null pointer
is followed or an array is read that was not written. -/
abbrev Checks := ExceptT Rejection Option

def undefined {α : Type} : Checks α := ExceptT.mk none

def reject {α : Type} (status : ℕ) (rc : ℤ) (addon : Option String := none) : Checks α :=
  throw ⟨status, rc, addon⟩

/-- What a method returns: its code and the state it leaves. -/
abbrev Handled := Option (ℤ × RTSPBuffer × Streams)

/-- Go on with the value of a check, or reply and return. -/
def check {α : Type} (rtsp : RTSPBuffer) (st : Streams) (x : Checks α) (k : α → Handled) :
    Handled :=
  match x.run with
  | none => none
  | some (.error r) => some (r.rc, send_reply r.status rtsp, st)
  | some (.ok a) => k a

/-! ### Checks that several methods make -/

/-- `sscanf (in_buffer, " %*s %254s ", url)`. It returns `EOF`, not 0, if there is no
second word, so the test passes and `url` is not written. -/
def scanUrl (inp : Bytes) : Checks Bytes :=
  match (scanAnyWord inp).bind fun t => scanWord 254 t.2 with
  | some (url, _) => pure url
  | none => undefined

/-- The URL of a request, parsed and free of `../` and `./`. -/
def requestUrl (rc : ℤ) (inp : Bytes) : Checks Url := do
  let url ← scanUrl inp
  match parse_url url 255 255 with
  | .bad => reject 400 rc
  | .error => reject 500 rc
  | .ok u => pure u

def noRelativePath (rc : ℤ) (object : Bytes) : Checks Unit := do
  if (strstr object (lit "../")).isSome then reject 403 rc
  if (strstr object (lit "./")).isSome then reject 403 rc

/-- The file name extension. -/
def extension (rc : ℤ) (object : Bytes) : Checks Bytes :=
  match strrchr object 46 with
  | some p => pure p
  | none => reject 415 rc

def supported (rc : ℤ) (p : Bytes) : Checks Unit := do
  if is_supported_url p = false then reject 415 rc

/-- `HDR_CSEQ`, `HDR_SESSION`, `HDR_TRANSPORT`, `HDR_RANGE`, `HDR_REQUIRE`,
`HDR_ACCEPT` and `HDR_USER_AGENT`. -/
def hdrCseq : Bytes := lit "CSeq"
def hdrSession : Bytes := lit "Session"
def hdrTransport : Bytes := lit "Transport"
def hdrRange : Bytes := lit "Range"
def hdrRequire : Bytes := lit "Require"
def hdrAccept : Bytes := lit "Accept"
def hdrUserAgent : Bytes := lit "User-Agent"

/-- `strstr (in_buffer, HDR_CSEQ)` and the number behind the word it begins,
stored in an `unsigned int`. SETUP reads the word whole, the others 254 bytes of
it. -/
def scanCseq (word : Bytes → Option (Bytes × Bytes)) (inp : Bytes) : Option ℕ :=
  (strstr inp hdrCseq).bind fun p =>
    (word p).bind fun t => (scanInt t.2).map uint32

def requestCseq (rc : ℤ) (number : Option ℕ) : Checks ℕ :=
  match number with
  | some n => pure n
  | none => reject 400 rc

/-- The header `Session`: `none` if there is none, and the number if it has one. -/
def scanSession (inp : Bytes) : Option (Option ℤ) :=
  (strstr inp hdrSession).map fun p => (scanWord 254 p).bind fun t => scanLong t.2

/-- The session a request is about; `absent` is what happens without the header. -/
def requestSession (rc : ℤ) (inp : Bytes) (absent : Checks ℤ) : Checks ℤ :=
  match scanSession inp with
  | some (some n) => pure n
  | some none => reject 454 rc
  | none => absent

/-- The session list of the connection, with the number of the request. -/
def sameSession (rc : ℤ) (rtsp : RTSPBuffer) (id : ℤ) : Checks RTSPSession :=
  match rtsp.sessionList with
  | none => reject 415 errGeneric
  | some s => if s.sessionId = id then pure s else reject 454 rc

/-- The lines that log the header `User-Agent` look for the end of its line. -/
def logUserAgent (inp : Bytes) : Option Unit :=
  match strstr inp hdrUserAgent with
  | none => some ()
  | some p => (strchr p lf).map fun _ => ()

/-! ### DESCRIBE and OPTIONS -/

def describeUrl (inp : Bytes) : Checks Url := do
  let u ← requestUrl errNoerror inp
  noRelativePath errNoerror u.object
  let p ← extension errNoerror u.object
  supported errNoerror p
  if (strstr inp hdrRequire).isSome then reject 551 errNoerror
  if (strstr inp hdrAccept).isSome && (strstr inp (lit "application/sdp")).isNone then
    reject 551 errNoerror
  pure u

/-- `get_media_descr`: its result and what is in `descr` then. -/
def get_media_descr (w : World) (object : Bytes) (st : Streams) : ℤ × Streams :=
  match strchr object 46 with
  | some p =>
    if eqNoCase p (lit ".SD") then
      match enum_media st object w.file with
      | (.error res, st) => (res, st)
      | (.ok d, st) =>
        if (st.descr d).meList = [] then (errGeneric, st) else (w.sdp.1, st)
    else (errNotSd, st)
  | none => (errNotSd, st)

def describeResult (res : ℤ) : Checks Unit := do
  if res = errNotFound then reject 404 errNoerror
  if res = errParse ∨ res = errGeneric ∨ res = errAlloc then reject 500 errNoerror

def send_redirect_3xx (w : World) (object : Bytes) (rtsp : RTSPBuffer) (st : Streams) : Handled :=
  match enum_media st object w.file.again with
  | (.error _, st) => some (errNoerror, send_reply 500 rtsp, st)
  | (.ok d, st) =>
    let descr := st.descr d
    if descr.flTwin then (send_redirect rtsp descr.twin).map fun rtsp => (errNoerror, rtsp, st)
    else some (errNoerror, send_reply 453 rtsp, st)

def RTSP_describe (w : World) (inp : Bytes) (rtsp : RTSPBuffer) (st : Streams) : Handled :=
  check rtsp st (describeUrl inp) fun u =>
  check rtsp st (requestCseq errNoerror (scanCseq (scanWord 254) inp)) fun n =>
  let rtsp := { rtsp with rtspCseq := n }
  let (res, st) := get_media_descr w u.object st
  check rtsp st (describeResult res) fun _ =>
  if w.maxConnection then send_redirect_3xx w u.object rtsp st
  else
    (send_describe_reply w rtsp u.object w.sdp.2).bind fun rtsp =>
    (logUserAgent inp).map fun _ => (errNoerror, rtsp, st)

def RTSP_options (inp : Bytes) (rtsp : RTSPBuffer) (st : Streams) : Handled :=
  check rtsp st (requestCseq errNoerror (scanCseq (scanWord 254) inp)) fun n =>
  let rtsp := { rtsp with rtspCseq := n }
  (send_options_reply rtsp n).bind fun rtsp =>
  (logUserAgent inp).map fun _ => (errNoerror, rtsp, st)

/-! ### PLAY -/

/-- The third number of a time without format: each is looked for behind the colon
in front of it. -/
def colons : ℕ → Bytes → Option Unit
  | 0, _ => some ()
  | n + 1, s => (strchr s 58).bind fun q => colons n (q.drop 1)

/-- The header `Range`; the times it gives go to the media clock. -/
def rangeChecks (inp : Bytes) : Checks Unit :=
  match strstr inp hdrRange with
  | none => pure ()
  | some p => do
    let timeTaken ←
      match strstr p (lit "npt") with
      | some q =>
        match strchr q 61 with
        | none => reject 400 errNoerror
        | some q => if (strchr q 45).isSome then pure false else reject 400 errNoerror
      | none =>
        if (strstr p (lit "smpte")).isSome || (strstr p (lit "clock")).isSome then pure false
        else if (strstr p (lit "time")).isSome then pure true
        else
          match colons 3 p with
          | some _ => pure false
          | none => undefined
    match strstr p (lit "time") with
    | none => pure ()
    | some q => if timeTaken || (strchr q 61).isSome then pure () else undefined

structure PlayRequest where
  id : ℤ
  object : Bytes
  isFile : Bool

def playRequest (inp : Bytes) : Checks PlayRequest := do
  rangeChecks inp
  let id ← requestSession errNoerror inp (reject 400 errNoerror)
  let u ← requestUrl errNoerror inp
  noRelativePath errNoerror u.object
  let p ← extension errNoerror u.object
  pure ⟨id, u.object, is_supported_url p⟩

/-- Which sessions a PLAY is about: those of priority 1, the first one with a file
name, or all. -/
inductive Target where
  | presentation
  | file (name : Bytes)
  | aggregate

def PlayRequest.target (r : PlayRequest) : Target :=
  match strchr r.object 33 with
  | none => .presentation
  | some q => if r.isFile then .file (q.drop 1) else .aggregate

/-- Start a session that has not been started, resume one that is paused. -/
def startOrResume (st : Streams) (s : ℕ) : Option Streams :=
  (st.session s).bind fun r =>
    if r.started = false then st.schedule_start r.schedId
    else if r.pause = false then some st
    else st.schedule_resume r.schedId

/-- The loops of `RTSP_play` over the RTP sessions. -/
def playLoop (onlyPriority : Bool) : List ℕ → Streams → Option Streams
  | [], st => some st
  | s :: rest, st =>
    (st.session s).bind fun r =>
      if onlyPriority && (st.media r.currentMedia).priority != 1 then playLoop onlyPriority rest st
      else (startOrResume st s).bind fun st => playLoop onlyPriority rest st

/-- The first session whose medium has a file name. -/
def findFile (st : Streams) (name : Bytes) : List ℕ → Option (Option RTPSession)
  | [] => some none
  | s :: rest =>
    (st.session s).bind fun r =>
      if (st.media r.currentMedia).filename = name then some (some r) else findFile st name rest

/-- What PLAY does to the sessions of its list. -/
def playTarget (session : RTSPSession) (st : Streams) : Target → Checks Streams
  | .presentation => ExceptT.mk ((playLoop true session.rtpSession st).map .ok)
  | .aggregate => ExceptT.mk ((playLoop false session.rtpSession st).map .ok)
  | .file name =>
    match findFile st name session.rtpSession with
    | none => undefined
    | some none => reject 454 errNoerror
    | some (some r) => ExceptT.mk ((st.schedule_start r.schedId).map .ok)

def RTSP_play (w : World) (inp : Bytes) (rtsp : RTSPBuffer) (st : Streams) : Handled :=
  check rtsp st (requestCseq errNoerror (scanCseq (scanWord 254) inp)) fun n =>
  let rtsp := { rtsp with rtspCseq := n }
  check rtsp st (playRequest inp) fun r =>
  check rtsp st (sameSession errNoerror rtsp r.id) fun session =>
  check rtsp st (playTarget session st r.target) fun st =>
  (send_play_reply w rtsp st session).bind fun rtsp =>
  (logUserAgent inp).map fun _ => (errNoerror, rtsp, st)

/-! ### PAUSE and TEARDOWN -/

def pauseRequest (w : World) (inp : Bytes) : Checks ℤ := do
  let u ← requestUrl errNoerror inp
  if u.server ≠ w.hostname then reject 404 errNoerror
  noRelativePath errNoerror u.object
  match (strtok ⟨u.object, 0⟩ (lit "!")).1 with
  | none => undefined
  | some object =>
    let p ← extension errNoerror object
    supported errNoerror p
    requestSession errNoerror inp (pure (-1))

def pauseLoop : List ℕ → Streams → Option Streams
  | [], st => some st
  | s :: rest, st =>
    (st.session s).bind fun r => pauseLoop rest (st.setSession s (some { r with pause := true }))

def RTSP_pause (w : World) (inp : Bytes) (rtsp : RTSPBuffer) (st : Streams) : Handled :=
  check rtsp st (requestCseq errNoerror (scanCseq (scanWord 254) inp)) fun n =>
  let rtsp := { rtsp with rtspCseq := n }
  check rtsp st (pauseRequest w inp) fun id =>
  check rtsp st (sameSession errNoerror rtsp id) fun session =>
  (pauseLoop session.rtpSession st).bind fun st =>
  (send_pause_reply w rtsp session.sessionId).bind fun rtsp =>
  (logUserAgent inp).map fun _ => (errNoerror, rtsp, st)

structure TeardownRequest where
  id : ℤ
  object : Bytes

def teardownRequest (inp : Bytes) : Checks TeardownRequest := do
  let u ← requestUrl errParse inp
  noRelativePath errParse u.object
  let p ← extension errParse u.object
  supported errParse p
  let id ← requestSession errParse inp (pure (-1))
  pure ⟨id, u.object⟩

/-- The file name or aggregate whose sessions are released. -/
def TeardownRequest.filename (r : TeardownRequest) : Bytes :=
  match strchr r.object 33 with
  | some q => q.drop 1
  | none => r.object

/-- The loop of `RTSP_teardown`: the sessions that are left. -/
def teardownLoop (filename : Bytes) : List ℕ → Streams → Option (List ℕ × Streams)
  | [], st => some ([], st)
  | s :: rest, st =>
    (st.session s).bind fun r =>
      let m := st.media r.currentMedia
      if m.filename = filename ∨ m.aggregate = filename then
        (st.schedule_remove r.schedId).bind fun st => teardownLoop filename rest st
      else (teardownLoop filename rest st).map fun (left, st) => (s :: left, st)

def RTSP_teardown (w : World) (inp : Bytes) (rtsp : RTSPBuffer) (st : Streams) : Handled :=
  check rtsp st (requestCseq errParse (scanCseq (scanWord 254) inp)) fun n =>
  let rtsp := { rtsp with rtspCseq := n }
  check rtsp st (teardownRequest inp) fun r =>
  check rtsp st (sameSession errParse rtsp r.id) fun session =>
  (send_teardown_reply w rtsp r.id n).bind fun rtsp =>
  (logUserAgent inp).bind fun _ =>
  (teardownLoop r.filename session.rtpSession st).map fun (left, st) =>
    (errNoerror,
      { rtsp with
        sessionList := if left = [] then none else some { session with rtpSession := left } },
      st)

end Fenice.Rtsp
