import Fenice.Mediainfo.SDFile

/-!
# Searching a list of media (mediainfo/search_media.c)

A request is a `media_entry`, whose flags say which of its members are compared. There is one
description format only.
-/

namespace Fenice.Mediainfo
open Fenice.CString Fenice.Rtsp

def MED_MTYPE : ℕ := 1
def MED_MSOURCE : ℕ := 2

/-- What stands behind the last `!`. -/
def requestedName (filename : Bytes) : Bytes :=
  match strrchr filename 33 with
  | some t => t.drop 1
  | none => filename

/-- Whether two values are the same, if they are asked for. -/
def agrees {α : Type} [DecidableEq α] (flags flag : ℕ) (x y : α) : Bool :=
  flags &&& flag == 0 || x == y

/-- The conditions of `search_media`; `ME_RESERVED` is none of them. -/
def matchesRequest (req p : MediaEntry) : Bool :=
  let d := p.description
  let r := req.description
  agrees req.flags ME_FILENAME p.filename (requestedName req.filename) &&
    agrees req.flags ME_AGGREGATE p.aggregate req.aggregate &&
    agrees r.flags MED_MSOURCE d.msource r.msource &&
    agrees r.flags MED_MTYPE d.mtype r.mtype &&
    agrees r.flags MED_PAYLOAD_TYPE d.payloadType r.payloadType &&
    agrees r.flags MED_CLOCK_RATE d.clockRate r.clockRate &&
    agrees r.flags MED_ENCODING_NAME d.encodingName r.encodingName &&
    agrees r.flags MED_AUDIO_CHANNELS d.audioChannels r.audioChannels &&
    agrees r.flags MED_BIT_PER_SAMPLE d.bitPerSample r.bitPerSample &&
    agrees r.flags MED_SAMPLE_RATE d.sampleRate r.sampleRate &&
    agrees r.flags MED_BITRATE d.bitrate r.bitrate &&
    agrees r.flags MED_PRIORITY d.priority r.priority &&
    agrees r.flags MED_FRAME_RATE d.frameRate r.frameRate &&
    agrees r.flags MED_BYTE_PER_PCKT d.bytePerPckt r.bytePerPckt

section

variable {α : Type} (entry : α → MediaEntry)

/-- `search_media` on a list of pointers, where `entry` is what a pointer points to. -/
def search_media (req : MediaEntry) (list : List α) : Option α :=
  list.find? fun p => matchesRequest req (entry p)

def rateRequest (encoding : Bytes) (bitrate : ℤ) : MediaEntry :=
  { description :=
      { flags := MED_BITRATE ||| MED_ENCODING_NAME, encodingName := encoding, bitrate := bitrate } }

def priorityRequest (priority : ℤ) : MediaEntry :=
  { description := { flags := MED_PRIORITY, priority := priority } }

theorem matches_rateRequest {encoding : Bytes} {bitrate : ℤ} {p : MediaEntry} :
    matchesRequest (rateRequest encoding bitrate) p = true ↔
      p.description.encodingName = encoding ∧ p.description.bitrate = bitrate := by
  simp [matchesRequest, agrees, rateRequest, MED_MSOURCE, MED_MTYPE, MED_PAYLOAD_TYPE,
    MED_CLOCK_RATE, MED_ENCODING_NAME, MED_AUDIO_CHANNELS, MED_BIT_PER_SAMPLE, MED_SAMPLE_RATE,
    MED_BITRATE, MED_PRIORITY, MED_FRAME_RATE, MED_BYTE_PER_PCKT]

theorem matches_priorityRequest {priority : ℤ} {p : MediaEntry} :
    matchesRequest (priorityRequest priority) p = true ↔ p.description.priority = priority := by
  simp [matchesRequest, agrees, priorityRequest, MED_MSOURCE, MED_MTYPE, MED_PAYLOAD_TYPE,
    MED_CLOCK_RATE, MED_ENCODING_NAME, MED_AUDIO_CHANNELS, MED_BIT_PER_SAMPLE, MED_SAMPLE_RATE,
    MED_BITRATE, MED_PRIORITY, MED_FRAME_RATE, MED_BYTE_PER_PCKT]

variable {entry} {req : MediaEntry} {list : List α} {p : α}

theorem search_media_some (h : search_media entry req list = some p) :
    p ∈ list ∧ matchesRequest req (entry p) = true :=
  ⟨List.mem_of_find?_eq_some h, List.find?_some (p := fun p => matchesRequest req (entry p)) h⟩

theorem search_media_isSome :
    (search_media entry req list).isSome ↔ ∃ p ∈ list, matchesRequest req (entry p) = true := by
  rw [search_media, List.find?_isSome]

end

end Fenice.Mediainfo
