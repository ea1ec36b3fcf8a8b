import Fenice.Schedule.State
import Fenice.Rtsp.Url

/-!
# Presentations and their media (mediainfo/*.c)

What `parse_SD_file` finds on the disk is an input. It is either an error, the
news that the file has not changed since it was read last, or the keywords and
streams of the file, checked by `validate_stream`.
-/

namespace Fenice.Schedule
open Fenice.CString Fenice.Rtsp

/-- What `validate_stream` lets through. The parser knows audio and video only, and the encoding
`RTP_SHM` has no `load_media`. -/
def MediaEntry.accepted (e : MediaEntry) : Bool :=
  (e.mtype == .audio || e.mtype == .video) && !eqNoCase e.encodingName (lit "RTP_SHM")

/-- The keywords `TWIN` and `MULTICAST` in front of the streams, and the streams, each of which
was accepted. -/
structure SDFile where
  twin : Option Bytes := none
  multicast : Option Bytes := none
  streams : List MediaEntry
  accepted : ∀ e ∈ streams, e.accepted = true := by decide

inductive ParsedSD where
  | error (res : ℤ)
  | unchanged
  | parsed (file : SDFile)

/-- `media_is_empty` asks for a file name; the request of SETUP has no other
condition for `search_media`. What stands behind the last `!` is looked for. -/
def search_media (st : Streams) (filename : Bytes) (list : List ℕ) : Option ℕ :=
  let name := match strrchr filename 33 with
    | some t => t.drop 1
    | none => filename
  list.find? fun m => (st.media m).filename == name

def default_selection_criterion (st : Streams) (list : List ℕ) : Option ℕ :=
  (list.find? fun m => (st.media m).priority == 1).or list.head?

/-- `get_media_entry`; `none`: `ERR_NOT_FOUND`. -/
def get_media_entry (st : Streams) (filename : Option Bytes) (list : List ℕ) : Option ℕ :=
  match filename with
  | none => default_selection_criterion st list
  | some f => search_media st f list

namespace Streams

/-- The streams of a file as new entries, which have no packet buffer yet. -/
def newMedia (st : Streams) (streams : List MediaEntry) : Streams :=
  { st with entries := st.entries ++ streams.map fun e => { e with pktBuffer := none } }

/-- What `parse_SD_file` writes to the descriptor. `validate_stream` drops the
flag of a twin that is no URL, once for each stream. -/
def applyFile (st : Streams) (d : SDDescr) (file : SDFile) : SDDescr :=
  let twin := file.twin.getD d.twin
  let isUrl := match parse_url twin 255 255 with
    | .ok _ => true
    | _ => false
  { d with
    twin := twin
    flTwin := (d.flTwin || file.twin.isSome) && (file.streams.isEmpty || isUrl)
    multicast := file.multicast.getD d.multicast
    flMulticast := d.flMulticast || file.multicast.isSome
    meList :=
      if file.streams.isEmpty then d.meList
      else (List.range file.streams.length).map (st.entries.length + ·) }

end Streams

/-- The descriptor of a name in `SD_global_list`, a new one at the end if there
is none. -/
def findDescr (st : Streams) (object : Bytes) : ℕ × SDDescr :=
  match st.sds.findIdx? fun d => d.any fun d => d.filename == object with
  | some i => (i, st.descr i)
  | none => (st.sds.length, { filename := object })

/-- `enum_media`: the descriptor, or the error, where the descriptor is taken out
of the list and freed. -/
def enum_media (st : Streams) (object : Bytes) (found : ParsedSD) : Except ℤ ℕ × Streams :=
  let (i, d) := findDescr st object
  let put := fun (x : Option SDDescr) =>
    if i < st.sds.length then st.sds.set i x else st.sds ++ [x]
  match found with
  | .error res => (.error res, { st with sds := put none })
  | .unchanged => (.ok i, { st with sds := put (some d) })
  | .parsed file =>
    (.ok i, { st.newMedia file.streams with sds := put (some (st.applyFile d file)) })

/-- A second call right behind the first one finds the file unchanged. -/
def ParsedSD.again : ParsedSD → ParsedSD
  | .error res => .error res
  | _ => .unchanged

/-- `mediacpy` for a session whose `current_media` is the fresh entry `out`:
`current_media` afterwards, and whether it was successful. A live source is
shared; `OMSbuff_shm_map` may fail. -/
def mediacpy (st : Streams) (out source : ℕ) (shmMap : Bool) : ℕ × Bool × Streams :=
  match (st.media source).mtype with
  | .audio | .video =>
    let (out, st) :=
      if (st.media source).live then (source, st)
      else (out, st.setMedia out (st.media source))
    if (st.media out).pktBuffer.isSome then (out, true, st)
    else if eqNoCase (st.media out).encodingName (lit "RTP_SHM") && !shmMap then
      (out, false, st)
    else
      let st' := st.setMedia out { st.media out with pktBuffer := some st.buffers.length }
      (out, true, { st' with buffers := st.buffers ++ [some 0] })
  | _ => (out, false, st)

end Fenice.Schedule
