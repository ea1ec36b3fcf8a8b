import Fenice.Lib.CStores
import Fenice.Mediainfo.Sdp
import Fenice.Rtsp.Connection

/-!
# The arrays that replies are put together in

`get_SDP_descr` appends to `descr`, `send_describe_reply` and `send_play_reply` to arrays of
their own, and `bwrite` copies a reply into `out_buffer`. Only `bwrite` compares with a size.
What the texts need is the sum of the lengths of what they are made of.
-/

namespace Fenice.Rtsp
open Fenice.CString Fenice.Schedule

/-! ### What is written -/

/-- `MAX_DESCR_LENGTH`. -/
def maxDescrLength : ℕ := 4096

/-- The text that `get_SDP_descr` has appended when it returns. -/
def descrText (host : Mediainfo.SdpHost) (d : Mediainfo.SDDescr) (url : Bytes) : Bytes :=
  (Mediainfo.get_SDP_descr host d url).2.flatMap Mediainfo.SdpLine.render

/-- `descr` of `RTSP_describe`. -/
def descrStore (host : Mediainfo.SdpHost) (d : Mediainfo.SDDescr) (url : Bytes) : Store :=
  strcpy maxDescrLength (descrText host d url)

def describeReply (w : World) (cseq : ℕ) (object descr : Bytes) : Reply :=
  ⟨200, int32 cseq, serverLine ++ add_time_stamp w ++
    lit "Content-Type: application/sdp" ++ el ++
    lit "Content-Base: rtsp://" ++ w.hostname ++ lit "/" ++ object ++ lit "/" ++ el ++
    lit "Content-Length: " ++ natText descr.length ++ el ++ el ++ descr⟩

/-- `r` of `send_describe_reply`. -/
def describeStore (w : World) (cseq : ℕ) (object descr : Bytes) : Store :=
  strcpy (2048 + 1512) (describeReply w cseq object descr).render

/-- `r` of `send_play_reply`. -/
def playStore (w : World) (cseq : ℕ) (st : Streams) (sessionId : ℤ) (rs : List RTPSession) :
    Store :=
  strcpy 1024 (playReply w cseq st sessionId rs).render

/-- The places in `out_buffer` that `bwrite` writes: `len` bytes from `out_size` on, and the
zero byte behind them. -/
def bwriteStores (outSize : ℤ) (len : ℕ) : List ℤ :=
  if (outBufferSize : ℤ) < outSize + len then []
  else (List.range (len + 1)).map fun i : ℕ => outSize + (i : ℤ)

def InOutBuffer (i : ℤ) : Prop := 0 ≤ i ∧ i < outBufferSize

theorem send_describe_stores (w : World) (rtsp : RTSPBuffer) (object descr : Bytes) :
    (send_describe_reply w rtsp object descr).isSome = true ↔
      (describeStore w rtsp.rtspCseq object descr).Fits := by
  unfold send_describe_reply send describeStore describeReply
  rw [strcpy_fits, Option.isSome_ite]

theorem send_play_stores {w : World} {rtsp : RTSPBuffer} {st : Streams} {session : RTSPSession}
    {rs : List RTPSession} (hne : session.rtpSession ≠ [])
    (hrs : session.rtpSession.mapM st.session = some rs) :
    (send_play_reply w rtsp st session).isSome = true ↔
      (playStore w rtsp.rtspCseq st session.sessionId rs).Fits := by
  unfold send_play_reply send playStore
  rw [if_neg hne, hrs, Option.bind_some, strcpy_fits, Option.isSome_ite]

/-! ### What the texts need -/

/-- The digits of a number, with its sign. -/
def digits (x : ℤ) : ℕ := (intText x).length

/-- A line that is there if its flag is set, with `name` bytes in front of the text. -/
def flagNeeds (flags flag name : ℕ) (text : Bytes) : ℕ :=
  if flags &&& flag = 0 then 0 else name + text.length + 2

def typeNeeds : MediaType → ℕ
  | .audio | .video => 6
  | .application => 12
  | .data => 5
  | .control => 8

/-- The name of a stream or an aggregate in a URL. -/
def controlNeeds (url name : Bytes) : ℕ := url.length + 1 + name.length

/-- The line `a=rtpmap`. -/
def rtpmapNeeds (d : Mediainfo.Description) : ℕ :=
  9 + digits d.payloadType + 1 + d.encodingName.length + 1 + digits (uint32 d.clockRate) +
    (if d.flags &&& Mediainfo.MED_AUDIO_CHANNELS = 0 then 0 else 1 + digits d.audioChannels) +
    (if d.encodingName = lit "MP4V-ES" then 11 else 0) + 2

/-- The lines of a stream. -/
def mediaNeeds (multicastPort : Bool) (url : Bytes) (p : Mediainfo.MediaEntry) : ℕ :=
  let d := p.description
  ((if d.priority = 1 then 2 else 6) + typeNeeds d.mtype +
      digits (if multicastPort then p.rtpMulticastPort else 0) + 9 + digits d.payloadType + 2) +
    flagNeeds d.flags Mediainfo.MED_LICENSE 13 d.commonsDead +
    flagNeeds d.flags Mediainfo.MED_RDF_PAGE 14 d.rdfPage +
    flagNeeds d.flags Mediainfo.MED_TITLE 8 d.title +
    flagNeeds d.flags Mediainfo.MED_CREATOR 10 d.author +
    (if 96 ≤ d.payloadType then rtpmapNeeds d else 0) +
    ((if d.priority = 1 then 10 else 7) + controlNeeds url p.filename + 2) +
    (if p.flags &&& Mediainfo.ME_AGGREGATE = 0 then 0 else 12 + controlNeeds url p.aggregate + 2)

/-- The lines in front of the streams. -/
def headNeeds (host : Mediainfo.SdpHost) (d : Mediainfo.SDDescr) : ℕ :=
  5 + (9 + host.sessionId.length + 1 + host.version.length + 2) +
    (9 + (if d.flMulticast then d.multicast.length + 3 else host.address.length) + 2) + 16 + 32

def descrNeeds (host : Mediainfo.SdpHost) (d : Mediainfo.SDDescr) (url : Bytes) : ℕ :=
  headNeeds host d +
    match d.meList.find? fun p => p.description.priority == 1 with
    | none => 0
    | some p =>
      (if p.flags &&& Mediainfo.ME_AGGREGATE = 0 then 0 else 10 + controlNeeds url p.aggregate + 2) +
        (2 + url.length + 2) + 7 + (d.meList.map (mediaNeeds d.flMulticastPort url)).sum

/-- Status line, `CSeq`, `Server` and `Date`. -/
def replyNeeds (w : World) (cseq : ℕ) : ℕ :=
  17 + (6 + digits (int32 cseq) + 2) + 21 + (6 + w.date.length + 2)

def describeNeeds (w : World) (cseq : ℕ) (object descr : Bytes) : ℕ :=
  replyNeeds w cseq + 31 + (21 + w.hostname.length + 1 + object.length + 1 + 2) +
    (16 + digits descr.length + 2) + 2 + descr.length

/-- One stream in the header `RTP-info`. -/
def infoNeeds (w : World) (st : Streams) (r : RTPSession) : ℕ :=
  11 + w.hostname.length + 1 + r.sdFilename.length + 1 + r.sdFilename.length + 1 +
    (st.media r.currentMedia).filename.length + 5 + digits r.startSeq + 9 + digits r.startRtptime

/-- The streams are separated by commas. -/
def playNeeds (w : World) (cseq : ℕ) (st : Streams) (sessionId : ℤ) (rs : List RTPSession) : ℕ :=
  replyNeeds w cseq + (9 + digits sessionId + 2) + 10 +
    ((rs.map (infoNeeds w st)).sum + (rs.length - 1)) + 4

theorem digits_natCast (n : ℕ) : (natText n).length = digits n := by
  unfold digits intText
  rw [if_neg (by omega), Int.natAbs_natCast]

theorem mediaTypeText_length (t : MediaType) : (Mediainfo.mediaTypeText t).length = typeNeeds t := by
  cases t <;> rfl

theorem lit_length (s : String) : (lit s).length = s.toList.length := List.length_map _

theorem flagLine_length (flags flag : ℕ) (name text : Bytes) :
    ((Mediainfo.flagLine flags flag name text).flatMap Mediainfo.SdpLine.render).length =
      flagNeeds flags flag name.length text := by
  unfold Mediainfo.flagLine flagNeeds
  split
  · rfl
  · simp [Mediainfo.SdpLine.render, Mediainfo.sdpEl, Nat.add_assoc]

theorem rtpmap_length (d : Mediainfo.Description) :
    (Mediainfo.rtpmap d).length + 2 = rtpmapNeeds d := by
  have hfmtp : (if d.encodingName = lit "MP4V-ES" then
      Mediainfo.sdpEl ++ lit "a=fmtp:96" else []).length =
      if d.encodingName = lit "MP4V-ES" then 11 else 0 := by
    split <;> rfl
  have hchannels : (if d.flags &&& Mediainfo.MED_AUDIO_CHANNELS = 0 then []
      else lit "/" ++ intText d.audioChannels).length =
      if d.flags &&& Mediainfo.MED_AUDIO_CHANNELS = 0 then 0 else 1 + digits d.audioChannels := by
    split
    · rfl
    · rw [List.length_append]
      rfl
  unfold Mediainfo.rtpmap rtpmapNeeds
  simp only [List.length_append, hfmtp, hchannels, digits_natCast, lit_length, String.reduceToList,
    List.length_cons, List.length_nil]
  rfl

theorem text_length (t : Bytes) : (Mediainfo.SdpLine.text t).render.length = t.length + 2 := by
  rw [Mediainfo.SdpLine.render, List.length_append]
  rfl

theorem control_length (u : Bytes) :
    (Mediainfo.SdpLine.control u).render.length = 10 + u.length + 2 := by
  rw [Mediainfo.SdpLine.render, List.length_append, List.length_append]
  rfl

theorem controlUrl_length (url name : Bytes) :
    (Mediainfo.controlUrl url name).length = controlNeeds url name := by
  rw [Mediainfo.controlUrl, List.length_append, List.length_append]
  rfl

theorem mediaLines_length (multicastPort : Bool) (url : Bytes) (p : Mediainfo.MediaEntry) :
    ((Mediainfo.mediaLines multicastPort url p).flatMap Mediainfo.SdpLine.render).length =
      mediaNeeds multicastPort url p := by
  have hm : ((if p.description.priority = 1 then lit "m=" else lit "a=med:") ++
      Mediainfo.mediaTypeText p.description.mtype ++
      intText (if multicastPort then p.rtpMulticastPort else 0) ++ lit " RTP/AVP " ++
      intText p.description.payloadType).length =
      (if p.description.priority = 1 then 2 else 6) + typeNeeds p.description.mtype +
        digits (if multicastPort then p.rtpMulticastPort else 0) + 9 +
        digits p.description.payloadType := by
    simp only [List.length_append, mediaTypeText_length]
    split <;> rfl
  have hmap : ((if 96 ≤ p.description.payloadType then
      [.text (Mediainfo.rtpmap p.description)] else []).flatMap Mediainfo.SdpLine.render).length =
      if 96 ≤ p.description.payloadType then rtpmapNeeds p.description else 0 := by
    split
    · rw [List.flatMap_singleton, text_length, rtpmap_length]
    · rfl
  have hcontrol : (Mediainfo.SdpLine.render (if p.description.priority = 1 then
        .control (Mediainfo.controlUrl url p.filename)
      else .text (lit "a=ctrl:" ++ Mediainfo.controlUrl url p.filename))).length =
      (if p.description.priority = 1 then 10 else 7) + controlNeeds url p.filename + 2 := by
    split
    · rw [control_length, controlUrl_length]
    · rw [text_length, List.length_append, controlUrl_length]
      rfl
  have haggregate : flagNeeds p.flags Mediainfo.ME_AGGREGATE 12
      (Mediainfo.controlUrl url p.aggregate) =
      if p.flags &&& Mediainfo.ME_AGGREGATE = 0 then 0
      else 12 + controlNeeds url p.aggregate + 2 := by
    rw [flagNeeds, controlUrl_length]
  unfold Mediainfo.mediaLines mediaNeeds
  simp only [List.flatMap_append, List.length_append, List.flatMap_singleton, flagLine_length,
    text_length, hmap, hcontrol]
  simp only [← List.length_append, hm]
  rw [← haggregate]
  rfl

theorem length_flatMap_media (multicastPort : Bool) (url : Bytes)
    (ps : List Mediainfo.MediaEntry) :
    ((ps.flatMap (Mediainfo.mediaLines multicastPort url)).flatMap
      Mediainfo.SdpLine.render).length = (ps.map (mediaNeeds multicastPort url)).sum := by
  induction ps with
  | nil => rfl
  | cons p ps ih =>
    rw [List.flatMap_cons, List.flatMap_append, List.length_append, mediaLines_length, ih,
      List.map_cons, List.sum_cons]

theorem headLines_length (host : Mediainfo.SdpHost) (d : Mediainfo.SDDescr) :
    (([.text (lit "v=0"),
      .text (lit "o=fenice " ++ host.sessionId ++ lit " " ++ host.version),
      .text (lit "c=IN IP4 " ++
        if d.flMulticast then d.multicast ++ lit "/32" else host.address),
      .text (lit "s=RTSP Session"),
      .text (lit "i=fenice 1.12 Streaming Server")] : List Mediainfo.SdpLine).flatMap
        Mediainfo.SdpLine.render).length = headNeeds host d := by
  have haddress : (if d.flMulticast then d.multicast ++ lit "/32" else host.address).length =
      if d.flMulticast then d.multicast.length + 3 else host.address.length := by
    split
    · rw [List.length_append]
      rfl
    · rfl
  unfold headNeeds
  simp only [List.flatMap_cons, List.flatMap_nil, List.length_append, text_length, haddress,
    lit_length, String.reduceToList, List.length_cons, List.length_nil]
  omega

theorem descrText_length (host : Mediainfo.SdpHost) (d : Mediainfo.SDDescr) (url : Bytes) :
    (descrText host d url).length = descrNeeds host d url := by
  unfold descrText Mediainfo.get_SDP_descr descrNeeds
  cases d.meList.find? fun p => p.description.priority == 1 with
  | none => exact headLines_length host d
  | some p =>
    have haggregate : ((if p.flags &&& Mediainfo.ME_AGGREGATE = 0 then []
        else [.control (Mediainfo.controlUrl url p.aggregate)]).flatMap
          Mediainfo.SdpLine.render).length =
        if p.flags &&& Mediainfo.ME_AGGREGATE = 0 then 0
        else 10 + controlNeeds url p.aggregate + 2 := by
      split
      · rfl
      · rw [List.flatMap_singleton, control_length, controlUrl_length]
    have htimes : (([.text (lit "u=" ++ url), .text (lit "t=0 0")] :
        List Mediainfo.SdpLine).flatMap Mediainfo.SdpLine.render).length =
        (2 + url.length + 2) + 7 := by
      simp only [List.flatMap_cons, List.flatMap_nil, List.length_append, text_length]
      rfl
    dsimp only
    rw [List.flatMap_append, List.flatMap_append, List.flatMap_append, List.length_append,
      List.length_append, List.length_append, headLines_length, haggregate, htimes,
      length_flatMap_media]
    simp only [Nat.add_assoc]

/-! ### The replies -/

theorem render_length (cseq : ℤ) (rest : Bytes) :
    (Reply.render ⟨200, cseq, rest⟩).length = 17 + (6 + digits cseq + 2) + rest.length := by
  have hstatus : (lit "RTSP/1.0 " ++ natText 200 ++ lit " " ++ get_stat 200 ++ el).length = 17 := by
    decide +kernel
  have hcseq : (lit "CSeq: ").length = 6 := rfl
  have hel : el.length = 2 := rfl
  unfold Reply.render
  simp only [List.length_append] at hstatus ⊢
  rw [hstatus, hcseq, hel, ← digits.eq_1]
  omega

theorem dated_length (w : World) :
    (serverLine ++ add_time_stamp w).length = 21 + (6 + w.date.length + 2) := by
  have hserver : serverLine.length = 21 := by decide +kernel
  rw [add_time_stamp, List.length_append, hserver, List.length_append, List.length_append]
  rfl

theorem describeReply_length (w : World) (cseq : ℕ) (object descr : Bytes) :
    (describeReply w cseq object descr).render.length = describeNeeds w cseq object descr := by
  have hdated := dated_length w
  rw [List.length_append] at hdated
  unfold describeReply describeNeeds replyNeeds
  rw [render_length]
  simp only [List.length_append, digits_natCast, lit_length, String.reduceToList,
    List.length_cons, List.length_nil, el]
  omega

theorem rtpInfo_length (w : World) (st : Streams) (r : RTPSession) :
    (rtpInfo w st r).length = infoNeeds w st r := by
  unfold rtpInfo infoNeeds
  simp only [List.length_append, digits_natCast, lit_length, String.reduceToList,
    List.length_cons, List.length_nil]

theorem length_intercalate (sep : Bytes) (ts : List Bytes) :
    (sep.intercalate ts).length =
      (ts.map List.length).sum + (ts.length - 1) * sep.length := by
  induction ts with
  | nil => simp [List.intercalate]
  | cons t ts ih =>
    cases ts with
    | nil => simp [List.intercalate]
    | cons u us =>
      rw [List.intercalate_cons_cons, List.length_append, List.length_append, ih]
      simp only [List.map_cons, List.sum_cons, List.length_cons, Nat.add_sub_cancel,
        Nat.succ_mul]
      omega

theorem playReply_length (w : World) (cseq : ℕ) (st : Streams) (sessionId : ℤ)
    (rs : List RTPSession) :
    (playReply w cseq st sessionId rs).render.length = playNeeds w cseq st sessionId rs := by
  have hdated := dated_length w
  rw [List.length_append] at hdated
  have hinfos : ((lit ",").intercalate (rs.map (rtpInfo w st))).length =
      (rs.map (infoNeeds w st)).sum + (rs.length - 1) := by
    have hlengths : (rs.map (rtpInfo w st)).map List.length = rs.map (infoNeeds w st) := by
      rw [List.map_map]
      exact List.map_congr_left fun r _ => rtpInfo_length w st r
    rw [length_intercalate, hlengths, List.length_map]
    exact congrArg _ (Nat.mul_one _)
  unfold playReply playNeeds replyNeeds
  rw [render_length]
  simp only [List.length_append, hinfos, ← digits.eq_1, lit_length, String.reduceToList,
    List.length_cons, List.length_nil, el]
  omega

/-! ### What fits -/

theorem bwriteStores_inside (outSize : ℤ) (len : ℕ) :
    (∀ i ∈ bwriteStores outSize len, InOutBuffer i) ↔
      (outBufferSize : ℤ) < outSize + len ∨ 0 ≤ outSize ∧ outSize + len < outBufferSize := by
  unfold bwriteStores InOutBuffer
  split
  · rename_i h
    simp [h]
  · rename_i h
    simp only [List.mem_map, List.mem_range, forall_exists_index, and_imp, forall_apply_eq_imp_iff₂,
      h, false_or]
    constructor
    · intro hall
      have hfirst := hall 0 (by omega)
      have hlast := hall len (by omega)
      omega
    · intro hin i hi
      omega

/-- The texts fit iff the sums of their lengths leave room for the zero byte, and `bwrite` stays
in `out_buffer` iff it refuses the reply or a byte is left. -/
theorem replies_fit_iff (host : Mediainfo.SdpHost) (d : Mediainfo.SDDescr) (url : Bytes)
    (w : World) (cseq : ℕ) (object descr : Bytes) (st : Streams) (sessionId : ℤ)
    (rs : List RTPSession) (outSize : ℤ) (len : ℕ) :
    ((descrStore host d url).Fits ↔ descrNeeds host d url < maxDescrLength) ∧
      ((describeStore w cseq object descr).Fits ↔
        describeNeeds w cseq object descr < 2048 + 1512) ∧
      ((playStore w cseq st sessionId rs).Fits ↔ playNeeds w cseq st sessionId rs < 1024) ∧
      ((∀ i ∈ bwriteStores outSize len, InOutBuffer i) ↔
        (outBufferSize : ℤ) < outSize + len ∨ 0 ≤ outSize ∧ outSize + len < outBufferSize) := by
  refine ⟨?_, ?_, ?_, bwriteStores_inside outSize len⟩
  · rw [descrStore, strcpy_fits, descrText_length]
  · rw [describeStore, strcpy_fits, describeReply_length]
  · rw [playStore, strcpy_fits, playReply_length]

/-- A presentation of twenty streams with a long title and a long author. -/
def longStream : Bytes :=
  lit "STREAM\nFILE_NAME v.mpg\nENCODING_NAME MPV\nPAYLOAD_TYPE 32\nFRAME_RATE 25\n" ++
    lit "PRIORITY 1\nTITLE " ++ List.replicate 70 97 ++ lit "\nCREATOR " ++ List.replicate 68 97 ++
    lit "\nSTREAM_END\n"

def albumText : Mediainfo.StoredFile := ⟨1, (List.replicate 20 longStream).flatten⟩

/-- Its description has more than 4095 bytes; and where a reply fills `out_buffer`, `bwrite`
writes behind the end. -/
theorem album_overflows :
    (¬ ∀ (load : Mediainfo.Loader) (file : Mediainfo.StoredFile) (d : Mediainfo.SDDescr)
      (host : Mediainfo.SdpHost) (url : Bytes),
      Mediainfo.parse_SD_file load (some file) {} = some (.ok d) → (descrStore host d url).Fits) ∧
    ¬ ∀ (outSize : ℤ) (len : ℕ), 0 ≤ outSize → ∀ i ∈ bwriteStores outSize len, InOutBuffer i := by
  constructor
  · intro hall
    have halbum : (Mediainfo.parse_SD_file Mediainfo.loadVideo (some albumText) {}).any (fun e =>
        e.toOption.any fun d => decide (maxDescrLength ≤ descrNeeds {} d (lit "album.sd"))) =
        true := by
      decide +kernel
    obtain ⟨e, he, hlong⟩ := (Option.any_eq_true _ _).mp halbum
    cases e with
    | error res => cases hlong
    | ok d =>
      have hfits := hall _ _ d {} (lit "album.sd") he
      rw [descrStore, strcpy_fits, descrText_length] at hfits
      exact absurd hfits (Nat.not_lt.mpr (of_decide_eq_true hlong))
  · intro hall
    have hinside := (bwriteStores_inside 8000 192).mp (hall 8000 192 (by decide))
    revert hinside
    decide

end Fenice.Rtsp
