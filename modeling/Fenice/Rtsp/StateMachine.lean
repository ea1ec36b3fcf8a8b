import Fenice.Rtsp.Setup
import Fenice.Rtsp.Framing

/-!
# One request (RTSP_validate_method.c, RTSP_state_machine.c, RTSP_handler.c)
-/

namespace Fenice.Rtsp
open Fenice.CString Fenice.Schedule

/-- The methods with an `RTSP_ID_`. -/
inductive Method where
  | describe | announce | getParameters | options | pause | play | record | redirect | setup
  | setParameter | teardown
  deriving DecidableEq

def methodNames : List (Bytes × Method) :=
  [(lit "DESCRIBE", .describe), (lit "ANNOUNCE", .announce),
    (lit "GET_PARAMETERS", .getParameters), (lit "OPTIONS", .options), (lit "PAUSE", .pause),
    (lit "PLAY", .play), (lit "RECORD", .record), (lit "REDIRECT", .redirect),
    (lit "SETUP", .setup), (lit "SET_PARAMETER", .setParameter), (lit "TEARDOWN", .teardown)]

/-- Whether `RTSP_valid_response_msg` takes the message for a response, which then
has no effect. The version of a response is expected to be `RTCP/`. -/
def RTSP_valid_response_msg (inp : Bytes) : Bool :=
  match scanWord 31 inp with
  | none => false
  | some (ver, t) =>
    startsNoCase (lit "RTCP/") ver &&
      match scanUnsigned t with
      | none => false
      | some (stat, t) => (scanAnyWord t).isSome && stat != 0

/-- `RTSP_validate_method`: the sequence number and the method, if it is known.
`none`: no request line that is followed by `CSeq` and a number. -/
def RTSP_validate_method (inp : Bytes) : Option (ℕ × Option Method) :=
  (scanWord 31 inp).bind fun (method, t) =>
  (scanWord 255 t).bind fun (_, t) =>
  (scanWord 31 t).bind fun (_, t) =>
  (scanWord 15 t).bind fun (hdr, t) =>
  (scanUnsigned t).bind fun (seq, _) =>
    if (strstr hdr hdrCseq).isNone then none
    else some (seq, (methodNames.find? fun p => p.1 == method).map Prod.snd)

/-- The transition that a successful method makes. -/
def moveTo (next : CurState) (x : Handled) : Option (RTSPBuffer × Streams) :=
  x.map fun (rc, rtsp, st) =>
    if rc = errNoerror then
      ({ rtsp with sessionList := rtsp.sessionList.map fun s => { s with curState := next } }, st)
    else (rtsp, st)

/-- A method whose return value is not looked at. -/
def stay (x : Handled) : Option (RTSPBuffer × Streams) := x.map Prod.snd

def refuse (status : ℕ) (rtsp : RTSPBuffer) (st : Streams) : Option (RTSPBuffer × Streams) :=
  some (send_reply status rtsp, st)

def RTSP_state_machine (w : World) (inp : Bytes) (rtsp : RTSPBuffer) (st : Streams)
    (method : Method) : Option (RTSPBuffer × Streams) :=
  if scanSession inp = some none then refuse 454 rtsp st
  else
    match rtsp.sessionList with
    | none => some (rtsp, st)
    | some p =>
      match p.curState with
      | .init =>
        match method with
        | .describe => stay (RTSP_describe w inp rtsp st)
        | .setup => moveTo .ready (RTSP_setup w inp rtsp st)
        | .teardown => stay (RTSP_teardown w inp rtsp st)
        | .options => moveTo .init (RTSP_options inp rtsp st)
        | .play | .pause => refuse 455 rtsp st
        | _ => refuse 501 rtsp st
      | .ready =>
        match method with
        | .play => moveTo .play (RTSP_play w inp rtsp st)
        | .setup => moveTo .ready (RTSP_setup w inp rtsp st)
        | .teardown => stay (RTSP_teardown w inp rtsp st)
        | .options => some (rtsp, st)
        | .pause => refuse 455 rtsp st
        | .describe => stay (RTSP_describe w inp rtsp st)
        | _ => refuse 501 rtsp st
      | .play =>
        match method with
        | .play => refuse 551 rtsp st
        | .pause => moveTo .ready (RTSP_pause w inp rtsp st)
        | .teardown => stay (RTSP_teardown w inp rtsp st)
        | .options => some (rtsp, st)
        | .describe => stay (RTSP_describe w inp rtsp st)
        | _ => some (rtsp, st)

/-- What `RTSP_handler` does with a message before it is removed. -/
def handleMessage (w : World) (inp : Bytes) (rtsp : RTSPBuffer) (st : Streams) :
    Option (RTSPBuffer × Streams) :=
  if RTSP_valid_response_msg inp then some (rtsp, st)
  else
    match RTSP_validate_method inp with
    | none => some (send_reply 400 rtsp, st)
    | some (seq, none) => some (send_reply 400 { rtsp with rtspCseq := seq }, st)
    | some (seq, some m) => RTSP_state_machine w inp { rtsp with rtspCseq := seq } st m

end Fenice.Rtsp
