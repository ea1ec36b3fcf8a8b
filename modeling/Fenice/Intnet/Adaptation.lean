import Fenice.Lib.Ladder
import Fenice.Mediainfo.SearchMedia

/-!
# Adapting the bit rate (intnet/*.c)

A session changes to another stream of its presentation. The media and the descriptors are
objects at addresses; `enum_media` may free a descriptor, and what it finds on the disk is an
input of each call.
-/

namespace Fenice.Intnet
open Fenice.CString Fenice.Ladder Fenice.Mediainfo

def ME_FD : ℕ := 32

/-- `media_entry`: what the SD file says, and its state while it is played; `offset` is where the
open file stands, and `dataTotal` what `read_MPEG_video` has sent of it. -/
structure Media where
  entry : MediaEntry
  fd : ℤ := 0
  offset : ℕ := 0
  pktBuffer : Option ℕ := none
  mtime : ℚ := 0
  mstart : ℚ := 0
  mstartOffset : ℚ := 0
  playOffset : ℚ := 0
  prevMstartOffset : ℚ := 0
  dataTotal : ℕ := 0
  deriving DecidableEq

/-- `SD_descr`, as far as it is looked at; `meList` are addresses. -/
structure SD where
  filename : Bytes
  meList : List ℕ := []
  deriving DecidableEq

/-- `RTP_session`, as far as it is looked at. -/
structure Session where
  sdFilename : Bytes
  currentMedia : ℕ
  minimumReached : Bool := false
  maximumReached : Bool := false
  deriving DecidableEq

/-- `sds` has a hole where a descriptor was freed. `closed` are the arguments of `close`. -/
structure World where
  medias : List Media
  sds : List (Option SD)
  session : Session
  closed : List ℤ := []
  deriving DecidableEq

/-- How `parse_SD_file` ends: with an error, without reading the file again, or with the streams
of the file. -/
inductive Found where
  | error (res : ℤ)
  | unchanged
  | parsed (streams : List MediaEntry)
  deriving DecidableEq

def Found.isError : Found → Bool
  | .error _ => true
  | _ => false

namespace World

def media (w : World) (m : ℕ) : Media := w.medias.getD m { entry := {} }

/-- `session->current_media`. -/
def current (w : World) : Media := w.media w.session.currentMedia

def updateMedia (w : World) (m : ℕ) (f : Media → Media) : World :=
  { w with medias := w.medias.modify m f }

/-- `current_media->description.bitrate`. -/
def bitrate (w : World) : ℤ := w.current.entry.description.bitrate

/-- The descriptor of a presentation, or the address for a new one. -/
def findDescr (w : World) (object : Bytes) : ℕ :=
  w.sds.findIdx fun d => d.any fun d => d.filename == object

/-- What stands there. -/
def descr (w : World) (object : Bytes) : SD :=
  (w.sds[w.findDescr object]?.join).getD { filename := object }

def putDescr (w : World) (d : ℕ) (x : Option SD) : World :=
  { w with sds := if d < w.sds.length then w.sds.set d x else w.sds ++ [x] }

/-- The streams of a file are new entries; without streams the list of the descriptor stays. -/
def parse (w : World) (d : SD) (streams : List MediaEntry) : SD × World :=
  ({ d with
      meList :=
        if streams.isEmpty then d.meList
        else (List.range streams.length).map (w.medias.length + ·) },
    { w with medias := w.medias ++ streams.map fun e => { entry := e } })

/-- `enum_media`: the result, and the address in `*d`, also of a descriptor that has been freed. -/
def enum_media (w : World) (object : Bytes) (found : Found) : ℤ × ℕ × World :=
  let i := w.findDescr object
  let d := w.descr object
  match found with
  | .error res => (res, i, w.putDescr i none)
  | .unchanged => (ERR_NOERROR, i, w.putDescr i (some d))
  | .parsed streams => (ERR_NOERROR, i, (w.parse d streams).2.putDescr i (some (w.parse d streams).1))

/-- `enum_media (session->sd_filename, &matching_descr)`, the result of which is not looked at, and
`matching_descr->me_list`; `none` if the descriptor is freed memory. -/
def meList (w : World) (found : Found) : Option (List ℕ × World) :=
  let (_, d, w) := w.enum_media w.session.sdFilename found
  (w.sds[d]?.join).map fun descr => (descr.meList, w)

/-- `search_media`. -/
def search (w : World) (req : MediaEntry) (list : List ℕ) : Option ℕ :=
  search_media (fun m => (w.media m).entry) req list

def stream_switch (w : World) (new : ℕ) : ℤ × World :=
  let old := w.current
  let w := w.updateMedia w.session.currentMedia fun e =>
    { e with entry := { e.entry with flags := e.entry.flags &&& (2 ^ 32 - 1 - ME_FD) } }
  let w := w.updateMedia new fun e => { e with pktBuffer := old.pktBuffer }
  (ERR_NOERROR,
    { w with session := { w.session with currentMedia := new }, closed := w.closed ++ [old.fd] })

/-! ### Priorities -/

def priority_decrease (found : Found) (w : World) : Option (ℤ × World) :=
  (w.meList found).map fun (list, w) =>
    match w.search (priorityRequest (w.current.entry.description.priority + 1)) list with
    | some p => w.stream_switch p
    | none => (ERR_NOERROR, { w with session := { w.session with minimumReached := true } })

def priority_increase (found : Found) (w : World) : Option (ℤ × World) :=
  (w.meList found).map fun (list, w) =>
    let priority := w.current.entry.description.priority
    if priority ≠ 1 then
      match w.search (priorityRequest (priority - 1)) list with
      | some p => w.stream_switch p
      | none => (ERR_GENERIC, w)
    else (ERR_NOERROR, { w with session := { w.session with maximumReached := true } })

/-! ### Bit rates -/

/-- The first of the bit rates for which `search_media` finds a stream. -/
def searchRates (w : World) (encoding : Bytes) (speeds : List ℤ) (list : List ℕ) : Option ℕ :=
  speeds.findSome? fun speed => w.search (rateRequest encoding speed) list

/-- A function that tries bit rates one after the other, and another priority in the end. -/
def changeRate (encoding : Bytes) (speeds : ℤ → List ℤ)
    (otherwise : World → Option (ℤ × World)) (found : Found) (w : World) : Option (ℤ × World) :=
  (w.meList found).bind fun (list, w) =>
    match w.searchRates encoding (speeds w.bitrate) list with
    | some p => some (w.stream_switch p)
    | none => otherwise w

end World

/-- The switch of `downgrade_MP3`: each case with the speed it tries. -/
def downgradeMP3 : List (ℤ × ℤ) :=
  [(448000, 416000), (416000, 384000), (384000, 352000), (352000, 320000), (320000, 288000),
    (288000, 256000), (256000, 224000), (224000, 192000), (192000, 176000), (176000, 160000),
    (160000, 144000), (144000, 128000), (128000, 112000), (112000, 96000), (96000, 80000),
    (80000, 64000), (64000, 56000), (56000, 48000), (48000, 40000), (40000, 32000),
    (32000, 24000), (24000, 16000), (16000, 8000)]

def upgradeMP3 : List (ℤ × ℤ) :=
  [(8000, 16000), (16000, 24000), (24000, 32000), (32000, 40000), (40000, 48000), (48000, 56000),
    (56000, 64000), (64000, 80000), (80000, 96000), (96000, 112000), (112000, 128000),
    (128000, 144000), (144000, 160000), (160000, 176000), (176000, 192000), (192000, 224000),
    (224000, 256000), (256000, 288000), (288000, 320000), (320000, 352000), (352000, 384000),
    (384000, 416000), (416000, 448000)]

/-- A case of `half_MP3` tries its own speed. -/
def halfMP3 : List (ℤ × ℤ) :=
  [(224000, 224000), (192000, 192000), (176000, 176000), (160000, 160000), (144000, 144000),
    (128000, 128000), (112000, 112000), (96000, 96000), (80000, 80000), (64000, 64000),
    (56000, 56000), (48000, 48000), (40000, 40000), (32000, 32000), (24000, 24000),
    (16000, 16000), (8000, 8000)]

/-- Half of a bit rate that is none itself becomes the next one above. -/
def halfSpeedMP3 (speed : ℤ) : ℤ :=
  if speed = 208000 then 224000
  else if speed = 88000 then 96000
  else if speed = 72000 then 80000
  else if speed = 28000 then 32000
  else if speed = 20000 then 24000
  else if speed = 12000 then 16000
  else speed

def downgradeGSM : List (ℤ × ℤ) :=
  [(12200, 10200), (10200, 7950), (7950, 7400), (7400, 6700), (6700, 5900), (5900, 5150),
    (5150, 4750)]

def upgradeGSM : List (ℤ × ℤ) :=
  [(4750, 5150), (5150, 5900), (5900, 6700), (6700, 7400), (7400, 7950), (7950, 10200),
    (10200, 12200)]

def halfGSM : List (ℤ × ℤ) := [(6700, 6700), (5900, 5900), (5150, 5150), (4750, 4750)]

def halfSpeedGSM (speed : ℤ) : ℤ :=
  if speed = 6100 then 6700 else if speed = 5100 then 5150 else 4750

section

variable (found later : Found) (w : World)

/-- The functions that try bit rates; `later` is what is on the disk when a priority is looked for. -/
def downgrade_MP3 : Option (ℤ × World) :=
  w.changeRate (lit "MPA") (fallThrough downgradeMP3) (World.priority_decrease later) found

def upgrade_MP3 : Option (ℤ × World) :=
  w.changeRate (lit "MPA") (fallThrough upgradeMP3) (World.priority_increase later) found

def half_MP3 : Option (ℤ × World) :=
  w.changeRate (lit "MPA") (fun b => fallThrough halfMP3 (halfSpeedMP3 (b.tdiv 2)))
    (World.priority_decrease later) found

def downgrade_GSM : Option (ℤ × World) :=
  w.changeRate (lit "GSM") (fallThrough downgradeGSM) (World.priority_decrease later) found

def upgrade_GSM : Option (ℤ × World) :=
  w.changeRate (lit "GSM") (fallThrough upgradeGSM) (World.priority_increase later) found

def half_GSM : Option (ℤ × World) :=
  w.changeRate (lit "GSM")
    (fun b => if b ≠ 4750 then fallThrough halfGSM (halfSpeedGSM (b.tdiv 2)) else [])
    (World.priority_decrease later) found

def downgrade_L16 : Option (ℤ × World) := w.priority_decrease found

def half_L16 : Option (ℤ × World) := w.priority_decrease found

end

def stream_change (value : ℤ) (found later : Found) (w : World) : Option (ℤ × World) :=
  let encoding_name := w.current.entry.description.encodingName
  if value = -1 ∧ ¬ w.session.minimumReached then
    let w := { w with session := { w.session with maximumReached := false } }
    if encoding_name = lit "MPA" then downgrade_MP3 found later w
    else if encoding_name = lit "GSM" then downgrade_GSM found later w
    else if encoding_name = lit "L16" then downgrade_L16 found w
    else some (ERR_NOERROR, w)
  else if value = 1 ∧ ¬ w.session.maximumReached then
    let w := { w with session := { w.session with minimumReached := false } }
    if encoding_name = lit "MPA" then upgrade_MP3 found later w
    else if encoding_name = lit "GSM" then upgrade_GSM found later w
    else some (ERR_NOERROR, w)
  else if value = -2 ∧ ¬ w.session.minimumReached then
    let w := { w with session := { w.session with maximumReached := false } }
    if encoding_name = lit "MPA" then half_MP3 found later w
    else if encoding_name = lit "GSM" then half_GSM found later w
    else if encoding_name = lit "L16" then half_L16 found w
    else some (ERR_NOERROR, w)
  else some (ERR_NOERROR, w)

/-! ### What the operations leave alone -/

section

theorem updateMedia_keeps {γ : Type} (g : Media → γ) {f : Media → Media}
    (hf : ∀ e, g (f e) = g e) (w : World) (m n : ℕ) :
    g ((w.updateMedia m f).media n) = g (w.media n) := by
  simp only [World.updateMedia, World.media, List.getD_eq_getElem?_getD, List.getElem?_modify]
  cases w.medias[n]? with
  | none => rfl
  | some e =>
    simp only [Option.map_eq_map, Option.map_some, Option.getD_some]
    split
    · exact hf e
    · rfl

theorem updateMedia_other {f : Media → Media} {m n : ℕ} (h : m ≠ n) (w : World) :
    (w.updateMedia m f).media n = w.media n := by
  simp only [World.updateMedia, World.media, List.getD_eq_getElem?_getD, List.getElem?_modify,
    if_neg h, Option.map_eq_map, Option.map_id']

/-- What neither the flags nor the buffer of a media say is as before for all media. -/
theorem stream_switch_keeps {γ : Type} (g : Media → γ)
    (hflags : ∀ e n, g { e with entry := { e.entry with flags := n } } = g e)
    (hbuffer : ∀ e b, g { e with pktBuffer := b } = g e) (w : World) (p m : ℕ) :
    g ((w.stream_switch p).2.media m) = g (w.media m) := by
  refine (updateMedia_keeps g (fun e => hbuffer e _) _ p m).trans ?_
  exact updateMedia_keeps g (fun e => hflags e _) w _ m

theorem stream_switch_description (w : World) (p m : ℕ) :
    ((w.stream_switch p).2.media m).entry.description = (w.media m).entry.description :=
  stream_switch_keeps (fun e => e.entry.description) (fun _ _ => rfl) (fun _ _ => rfl) w p m

theorem stream_switch_flags {w : World} {m : ℕ} (p : ℕ) (h : m ≠ w.session.currentMedia) :
    ((w.stream_switch p).2.media m).entry = (w.media m).entry := by
  have hbuffer : ∀ (u : World) (b : Option ℕ),
      ((u.updateMedia p fun e => { e with pktBuffer := b }).media m).entry = (u.media m).entry :=
    fun u b => updateMedia_keeps (f := fun e => { e with pktBuffer := b }) Media.entry
      (fun _ => rfl) u p m
  refine (hbuffer _ _).trans ?_
  rw [updateMedia_other h.symm]

end

end Fenice.Intnet
