import Fenice.Mediainfo.SDFile

/-!
# Descriptions (sdp/get_SDP_descr.c)

The server asks for the description of all media of a presentation only, with `extended`
set. The lines that tell a client how to control a stream are kept apart from the others.
-/

namespace Fenice.Mediainfo
open Fenice.CString Fenice.Schedule

/-- A line of a description: some text, or `a=control:` with the URL. -/
inductive SdpLine where
  | text (t : Bytes)
  | control (url : Bytes)
  deriving DecidableEq

/-- `SDP_EL`. -/
def sdpEl : Bytes := [cr, lf]

def SdpLine.render : SdpLine → Bytes
  | .text t => t ++ sdpEl
  | .control url => lit "a=control:" ++ url ++ sdpEl

/-- What a description has from outside of the SD file: `get_SDP_session_id`,
`get_SDP_version` and `get_address`. -/
structure SdpHost where
  sessionId : Bytes := lit "0"
  version : Bytes := lit "0"
  address : Bytes := lit "127.0.0.1"

def mediaTypeText : MediaType → Bytes
  | .audio => lit "audio "
  | .video => lit "video "
  | .application => lit "application "
  | .data => lit "data "
  | .control => lit "control "

/-- The line of a text that is there if its flag is set. -/
def flagLine (flags flag : ℕ) (name text : Bytes) : List SdpLine :=
  if flags &&& flag = 0 then [] else [.text (name ++ text)]

/-- `a=rtpmap`. -/
def rtpmap (d : Description) : Bytes :=
  lit "a=rtpmap:" ++ intText d.payloadType ++ lit " " ++ d.encodingName ++ lit "/" ++
    natText (uint32 d.clockRate) ++
    (if d.flags &&& MED_AUDIO_CHANNELS = 0 then [] else lit "/" ++ intText d.audioChannels) ++
    (if d.encodingName = lit "MP4V-ES" then sdpEl ++ lit "a=fmtp:96" else [])

/-- The URL of a stream or an aggregate. -/
def controlUrl (url name : Bytes) : Bytes := url ++ lit "!" ++ name

/-- What is written for one stream. A stream of another priority than 1 is an alternative. -/
def mediaLines (multicastPort : Bool) (url : Bytes) (p : MediaEntry) : List SdpLine :=
  let d := p.description
  [.text ((if d.priority = 1 then lit "m=" else lit "a=med:") ++ mediaTypeText d.mtype ++
      intText (if multicastPort then p.rtpMulticastPort else 0) ++ lit " RTP/AVP " ++
      intText d.payloadType)] ++
    flagLine d.flags MED_LICENSE (lit "a=uriLicense:") d.commonsDead ++
    flagLine d.flags MED_RDF_PAGE (lit "a=uriMetadata:") d.rdfPage ++
    flagLine d.flags MED_TITLE (lit "a=title:") d.title ++
    flagLine d.flags MED_CREATOR (lit "a=creator:") d.author ++
    (if 96 ≤ d.payloadType then [.text (rtpmap d)] else []) ++
    [if d.priority = 1 then .control (controlUrl url p.filename)
      else .text (lit "a=ctrl:" ++ controlUrl url p.filename)] ++
    flagLine p.flags ME_AGGREGATE (lit "a=aggregate:") (controlUrl url p.aggregate)

/-- `get_SDP_descr (list, descr, 1, url)`, behind `enum_media`: the return value and what has
been written. It gives up in the middle if no stream has priority 1. -/
def get_SDP_descr (host : SdpHost) (d : SDDescr) (url : Bytes) : ℤ × List SdpLine :=
  let head : List SdpLine :=
    [.text (lit "v=0"),
      .text (lit "o=fenice " ++ host.sessionId ++ lit " " ++ host.version),
      .text (lit "c=IN IP4 " ++
        if d.flMulticast then d.multicast ++ lit "/32" else host.address),
      .text (lit "s=RTSP Session"),
      .text (lit "i=fenice 1.12 Streaming Server")]
  match d.meList.find? fun p => p.description.priority == 1 with
  | none => (ERR_PARSE, head)
  | some p =>
    (ERR_NOERROR, head ++
      (if p.flags &&& ME_AGGREGATE = 0 then [] else [.control (controlUrl url p.aggregate)]) ++
      [.text (lit "u=" ++ url), .text (lit "t=0 0")] ++
      d.meList.flatMap (mediaLines d.flMulticastPort url))

/-! ### The URLs a description advertises -/

/-- What a client can control: the presentation, the streams of an aggregate, or one stream. -/
inductive Control where
  | presentation
  | aggregate (name : Bytes)
  | stream (filename : Bytes)
  deriving DecidableEq

def Control.url (url : Bytes) : Control → Bytes
  | .presentation => url
  | .aggregate name => controlUrl url name
  | .stream filename => controlUrl url filename

/-- The presentation itself, and the controls of the lines `a=control:`. -/
inductive Advertises (d : SDDescr) : Control → Prop
  | presentation : Advertises d .presentation
  | aggregate {p : MediaEntry} (h : d.meList.find? (fun p => p.description.priority == 1) = some p)
      (hflag : p.flags &&& ME_AGGREGATE ≠ 0) : Advertises d (.aggregate p.aggregate)
  | stream {p : MediaEntry} (h : p ∈ d.meList) (hpriority : p.description.priority = 1) :
      Advertises d (.stream p.filename)

theorem mem_flagLine {flags flag : ℕ} {name text url : Bytes} :
    .control url ∉ flagLine flags flag name text := by
  unfold flagLine
  split
  · exact List.not_mem_nil
  · simp

theorem control_mem_mediaLines {multicastPort : Bool} {url u : Bytes} {p : MediaEntry} :
    .control u ∈ mediaLines multicastPort url p ↔
      p.description.priority = 1 ∧ u = controlUrl url p.filename := by
  unfold mediaLines
  simp only [List.mem_append, mem_flagLine, or_false, List.mem_singleton]
  constructor
  · intro h
    rcases h with (h | h) | h
    · cases h
    · split at h
      · rw [List.mem_singleton] at h
        cases h
      · cases h
    · split at h
      · rename_i hpriority
        cases h
        exact ⟨hpriority, rfl⟩
      · cases h
  · intro ⟨hpriority, hu⟩
    refine .inr ?_
    rw [if_pos hpriority, hu]

/-- The lines `a=control:` of a description are those of what is advertised, apart from the
presentation. -/
theorem control_mem_get_SDP_descr {host : SdpHost} {d : SDDescr} {url u : Bytes} :
    .control u ∈ (get_SDP_descr host d url).2 ↔
      ∃ c, c ≠ .presentation ∧ Advertises d c ∧ u = c.url url := by
  unfold get_SDP_descr
  cases hfind : d.meList.find? fun p => p.description.priority == 1 with
  | none =>
    constructor
    · intro h
      simp at h
    · rintro ⟨c, hne, hadv, -⟩
      cases hadv with
      | presentation => exact absurd rfl hne
      | aggregate hfind' hflag =>
        rw [hfind] at hfind'
        cases hfind'
      | stream hq hpriority =>
        have hnot := List.find?_eq_none.mp hfind _ hq
        rw [hpriority] at hnot
        exact absurd rfl hnot
  | some p =>
    simp only [List.mem_append, List.mem_flatMap, control_mem_mediaLines]
    constructor
    · intro h
      rcases h with ((h | h) | h) | ⟨q, hq, hpriority, rfl⟩
      · simp at h
      · split at h
        · cases h
        · rename_i hflag
          rw [List.mem_singleton] at h
          cases h
          exact ⟨_, by simp, .aggregate hfind hflag, rfl⟩
      · simp at h
      · exact ⟨_, by simp, .stream hq hpriority, rfl⟩
    · rintro ⟨c, hne, hadv, rfl⟩
      cases hadv with
      | presentation => exact absurd rfl hne
      | aggregate hfind' hflag =>
        rw [hfind] at hfind'
        cases hfind'
        rw [if_neg hflag]
        exact .inl (.inl (.inr (List.mem_singleton.mpr rfl)))
      | stream hq hpriority => exact .inr ⟨_, hq, hpriority, rfl⟩

end Fenice.Mediainfo
