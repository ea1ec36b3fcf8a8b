import Fenice.Rtsp.Methods

/-!
# SETUP (RTSP_setup.c)
-/

namespace Fenice.Rtsp
open Fenice.CString Fenice.Schedule

/-- The presentation and the stream of `name.sd!stream`. If `.sd` occurs again
behind its first occurrence, the presentation is what follows that one and the
byte behind it; without any, a null pointer is followed. -/
def setupUrl (inp : Bytes) : Checks (Bytes × Bytes) := do
  let u ← requestUrl errNoerror inp
  noRelativePath errNoerror u.object
  let p ← extension errNoerror u.object
  supported errNoerror p
  match strchr u.object 33 with
  | none => reject 500 errNoerror
  | some q =>
    let object := u.object.take (u.object.length - q.length)
    match strstr object (lit ".sd") with
    | none => undefined
    | some pd =>
      pure (if (strstr (pd.drop 1) (lit ".sd")).isSome then pd.drop 4 else object, q.drop 1)

/-- The entry of a presentation with a file name. -/
def setupMedia (st : Streams) (d : ℕ) (filename : Bytes) : Checks ℕ :=
  match get_media_entry st (some filename) (st.descr d).meList with
  | some m => pure m
  | none => reject 404 errNoerror

/-- The settings offered in the header `Transport`. With 255 bytes they fill their
array without the zero behind them. -/
def transportTokens (inp : Bytes) : Checks (List Bytes) := do
  match strstr inp hdrTransport with
  | none => reject 406 errNoerror (some "Require: Transport settings")
  | some p =>
    match ((scanWord 10 p).bind fun t => scanWord 255 t.2).map Prod.fst with
    | none => reject 400 errNoerror
    | some transport =>
      if 255 ≤ transport.length then undefined
      else if tokens 44 transport = [] then reject 400 errNoerror
      else pure (tokens 44 transport)

inductive Offer where
  | unicast | multicast | tcp
  deriving DecidableEq

/-- `RTSP_RTP_AVP`. -/
def rtspRtpAvp : Bytes := lit "RTP/AVP"

/-- Whether a setting is one of those SETUP knows. -/
def offer (flMulticast : Bool) (tkn : Bytes) : Option Offer :=
  (strstr tkn rtspRtpAvp).bind fun p =>
    let p := p.drop rtspRtpAvp.length
    if p = [] ∨ p.head? = some 59 ∨ p.head? = some 32 then
      if (strstr tkn (lit "unicast")).isSome then some .unicast
      else if flMulticast then some .multicast
      else none
    else if p.take 4 = lit "/TCP" then some .tcp
    else none

/-- The first setting that is known. -/
def firstOffer (flMulticast : Bool) (tkns : List Bytes) : Option (Offer × Bytes) :=
  tkns.findSome? fun tkn => (offer flMulticast tkn).map fun o => (o, tkn)

/-- `client_port=a-b`. -/
def clientPorts (tkn : Bytes) : Checks PortPair :=
  match strstr tkn (lit "client_port") with
  | none => pure {}
  | some p =>
    match strchr p 61 with
    | none => undefined
    | some p =>
      match strchr p 45 with
      | none => undefined
      | some q => pure ⟨(scanInt (p.drop 1)).getD 0, (scanInt (q.drop 1)).getD 0⟩

/-- The highest RTCP channel of the interleaved sessions of a list. -/
def maxInterleaved (st : Streams) : List ℕ → Checks ℤ
  | [] => pure (-1)
  | s :: rest => do
    match st.session s with
    | none => undefined
    | some r =>
      let highest ← maxInterleaved st rest
      pure (max (if r.transport.type = .avpTcp then r.transport.interleavedRTCP else -1) highest)

/-- The channels of an interleaved transport, as the client asks for or the next
ones. They are kept in 16 bits. -/
def interleavedChannels (st : Streams) (list : List ℕ) (tkn : Bytes) : Checks (ℕ × ℕ) := do
  match strstr tkn (lit "interleaved") with
  | some p =>
    match strchr p 61 with
    | none => undefined
    | some p =>
      let rtp := (scanShort (p.drop 1)).getD 0
      let rtcp := match strchr p 45 with
        | some q => (scanShort (q.drop 1)).getD 0
        | none => (rtp + 1) % 2 ^ 16
      if 255 < rtp ∨ 255 < rtcp then
        reject 400 errGeneric (some "Interleaved channel number suggested from client too high")
      pure (rtp, rtcp)
  | none =>
    let highest ← maxInterleaved st list
    let rtp := ((highest + 1) % 2 ^ 16).toNat
    let rtcp := ((highest + 2) % 2 ^ 16).toNat
    if 255 < rtp ∨ 255 < rtcp then
      reject 500 errGeneric (some "Interleaved channel number already reached max")
    pure (rtp, rtcp)

/-- A transport that was chosen and what has been taken for it. -/
structure Chosen where
  transport : Transport
  dad : Bool
  interleaved : List RTSPInterleaved
  st : Streams

/-- The branch `unicast` takes a pair of server ports and opens the sockets. -/
def chooseUnicast (w : World) (rtsp : RTSPBuffer) (st : Streams) (tkn : Bytes) :
    Checks Chosen := do
  let cli ← clientPorts tkn
  match st.RTP_get_port_pair with
  | none => reject 500 errGeneric
  | some (ser, st) =>
    pure
      { transport :=
          { type := .avp, rtpFd := w.udpFds.1, rtcpFdIn := w.udpFds.2.1, rtcpFdOut := w.udpFds.2.2,
            cliPorts := cli, serPorts := ser }
        dad := true
        interleaved := rtsp.interleaved
        st }

/-- The multicast branch. Only the first session of an entry connects sockets; the
one of the last entry marks the presentation. -/
def chooseMulticast (w : World) (rtsp : RTSPBuffer) (st : Streams) (d m : ℕ) : Chosen :=
  let descr := st.descr d
  let port := (st.media m).rtpMulticastPort
  let transport : Transport :=
    { type := .avp, cliPorts := ⟨port, port + 1⟩, serPorts := ⟨port, port + 1⟩ }
  if descr.flMulticastPort then ⟨transport, false, rtsp.interleaved, st⟩
  else
    let descr :=
      if descr.meList.getLast? = some m then { descr with flMulticastPort := true } else descr
    ⟨{ transport with rtpFd := w.udpFds.1, rtcpFdOut := w.udpFds.2.2, isMulticast := true }, true,
      rtsp.interleaved, { st with sds := st.sds.set d (some descr) }⟩

/-- The branch `RTP/AVP/TCP` makes two pairs of local sockets and puts the channels
in front of the list. -/
def chooseTcp (w : World) (rtsp : RTSPBuffer) (st : Streams) (tkn : Bytes) : Checks Chosen := do
  let list := match rtsp.sessionList with
    | some s => s.rtpSession
    | none => []
  let (rtp, rtcp) ← interleavedChannels st list tkn
  match w.rtpSocketpair, w.rtcpSocketpair with
  | some (rtpFd, rtpLocal), some (rtcpFd, rtcpLocal) =>
    pure
      { transport :=
          { type := .avpTcp, rtpFd := rtpFd, rtcpFdOut := rtcpFd, rtcpFdIn := -1,
            interleavedRTP := rtp, interleavedRTCP := rtcp }
        dad := true
        interleaved := ⟨rtpLocal, rtcpLocal, rtp, rtcp⟩ :: rtsp.interleaved
        st }
  | _, _ => reject 500 errGeneric

/-- The loop over the settings. -/
def chooseTransport (w : World) (rtsp : RTSPBuffer) (st : Streams) (d m : ℕ)
    (tkns : List Bytes) : Checks Chosen :=
  match firstOffer (st.descr d).flMulticast tkns with
  | none => reject 461 errNoerror (some "Unsupported Transport")
  | some (.unicast, tkn) => chooseUnicast w rtsp st tkn
  | some (.multicast, _) => pure (chooseMulticast w rtsp st d m)
  | some (.tcp, tkn) => chooseTcp w rtsp st tkn

/-- The number of the session: that of the header `Session`, whose word is read
whole here, or a random one. -/
def setupSession (w : World) (inp : Bytes) : Checks ℤ :=
  match strstr inp hdrSession with
  | some p =>
    match (scanAnyWord p).bind fun t => scanInt t.2 with
    | some n => pure n
    | none => reject 454 errNoerror
  | none => pure (if w.sessionNumber = 0 then 1 else w.sessionNumber)

/-- The session list, made if there is none. -/
def RTSPBuffer.rtspSession (rtsp : RTSPBuffer) : RTSPSession :=
  rtsp.sessionList.getD ⟨.init, 0, []⟩

/-- The rest of `RTSP_setup`, from the header `Session` on. The new RTP session is
put at the end of the list with an empty `current_media`; only the first session
of a stream gets the medium. -/
def finishSetup (w : World) (inp : Bytes) (rtsp : RTSPBuffer) (object : Bytes) (d m : ℕ)
    (chosen : Chosen) : Handled :=
  let rtsp := { rtsp with interleaved := chosen.interleaved }
  check rtsp chosen.st (setupSession w inp) fun sessionId =>
  let s := chosen.st.heap.length
  let session := rtsp.rtspSession
  let session := { session with rtpSession := session.rtpSession ++ [s] }
  let out := chosen.st.entries.length
  let st :=
    { chosen.st with heap := chosen.st.heap ++ [none], entries := chosen.st.entries ++ [{}] }
  let (out, copied, st) :=
    if chosen.dad then mediacpy st out m w.shmMap else (out, true, st)
  let r : RTPSession := { pause := true, sdFilename := object, currentMedia := out }
  if copied = false then
    some (errGeneric, send_reply 500 { rtsp with sessionList := some session },
      st.setSession s (some r))
  else
    let r :=
      { r with
        startRtptime := w.startRtptime, startSeq := w.startSeq
        transport := chosen.transport, isMulticastDad := chosen.dad, sdDescr := d }
    let (id, st) := st.schedule_add s chosen.dad
    let r := { r with schedId := id, ssrc := w.ssrc }
    let rtsp := { rtsp with sessionList := some { session with sessionId := sessionId } }
    (send_setup_reply w rtsp sessionId (st.descr d) r).map fun rtsp =>
      (errNoerror, rtsp, st.setSession s (some r))

def RTSP_setup (w : World) (inp : Bytes) (rtsp : RTSPBuffer) (st : Streams) : Handled :=
  check rtsp st (setupUrl inp) fun (object, filename) =>
  match enum_media st object w.file with
  | (.error _, st) => some (errNoerror, send_reply 500 rtsp, st)
  | (.ok d, st) =>
    check rtsp st (setupMedia st d filename) fun m =>
    check rtsp st (requestCseq errNoerror (scanCseq scanAnyWord inp)) fun n =>
    let rtsp := { rtsp with rtspCseq := n }
    check rtsp st (transportTokens inp) fun tkns =>
    if w.getpeername = false then some (errGeneric, send_reply 415 rtsp, st)
    else
      check rtsp st (chooseTransport w rtsp st d m tkns) fun chosen =>
      finishSetup w inp rtsp object d m chosen

end Fenice.Rtsp
