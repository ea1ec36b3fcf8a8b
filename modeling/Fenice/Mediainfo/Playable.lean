import Fenice.Mediainfo.Loaders
import Fenice.Schedule.Media

/-!
# Which streams are accepted with the functions of their encoding (validate_stream.c)

The type of a file is set by its line `ENCODING_NAME`; the encoding name itself is overwritten
from the table of payload types afterwards, and the type is what the functions are taken for.
-/

namespace Fenice.Mediainfo
open Fenice.CString

/-- The functions that belong to an encoding. -/
def functionsOf (encodingName : Bytes) : Option MediaFn :=
  if encodingName = lit "MPA" then some ⟨some .load_MPA, some .read_MP3, some .free_MPA⟩
  else if encodingName = lit "MPV" then
    some ⟨some .load_MPV, some .read_MPEG_video, some .free_MPV⟩
  else if encodingName = lit "H264" then some ⟨some .load_h264, some .read_h264, some .free_h264⟩
  else none

/-- A stream that is in the presentation with what is needed to play it. -/
structure Playable (q : MediaEntry) : Prop where
  inTable : q.description.payloadType < 96 → 0 ≤ q.description.payloadType
  functions : functionsOf q.description.encodingName = some (register_media q)

/-- The entry that `validate_stream` hands to the loader. -/
def MediaEntry.final (p : MediaEntry) : MediaEntry :=
  if 96 ≤ p.description.payloadType then p
  else p.describe fun d => d.ofStatic (RTP_payload d.payloadType.toNat)

/-- The lines `FILE_NAME`, `PAYLOAD_TYPE` and `PRIORITY` are there. -/
def Complete (p : MediaEntry) : Prop :=
  p.flags &&& ME_FILENAME ≠ 0 ∧ p.description.flags &&& MED_PAYLOAD_TYPE ≠ 0 ∧
    p.description.flags &&& MED_PRIORITY ≠ 0

/-- The lines `ENCODING_NAME` and `CLOCK_RATE` are there. -/
def Dynamic (p : MediaEntry) : Prop :=
  p.description.flags &&& MED_ENCODING_NAME ≠ 0 ∧ p.description.flags &&& MED_CLOCK_RATE ≠ 0

instance (p : MediaEntry) : Decidable (Dynamic p) := inferInstanceAs (Decidable (_ ∧ _))

/-- The loader of the type does not take the file. -/
def Refused (disk : Disk) (p : MediaEntry) : Prop :=
  ∃ res, load_media disk (ftypeOf p.description.encodingName) p.final = .error res

/-- What the lines have to say of a stream: where a payload type is in the table, the encoding
of the table is the one that is named. -/
def Consistent (disk : Disk) (p : MediaEntry) : Prop :=
  Complete p →
    if 96 ≤ p.description.payloadType then
      Dynamic p → ftypeOf p.description.encodingName ≠ .none
    else 0 ≤ p.description.payloadType ∧ ftypeOf p.description.encodingName ≠ .none ∧
      ((RTP_payload p.description.payloadType.toNat).encName = p.description.encodingName ∨
        Refused disk p)

section
variable {disk : Disk} {p q : MediaEntry}

theorem load_media_keeps {t : MediaFileType} (h : load_media disk t p = .ok q) :
    q.description.encodingName = p.description.encodingName ∧
      q.description.payloadType = p.description.payloadType ∧
      q.description.ftype = p.description.ftype ∧ q.description.mtype = p.description.mtype := by
  have hvideo : ∀ t, load_video disk t p = .ok q →
      q.description.encodingName = p.description.encodingName ∧
        q.description.payloadType = p.description.payloadType ∧
        q.description.ftype = p.description.ftype ∧
        q.description.mtype = p.description.mtype := by
    intro t h
    unfold load_video at h
    cases hopen : mediaopen disk p with
    | error e =>
      rw [hopen] at h
      cases h
    | ok file =>
      rw [hopen] at h
      change loadVideo t p = .ok q at h
      unfold loadVideo at h
      split_ifs at h
      · cases h
        exact ⟨rfl, rfl, rfl, rfl⟩
      · cases h
        exact ⟨rfl, rfl, rfl, rfl⟩
  cases t with
  | none => cases h
  | mpeg => exact hvideo _ h
  | h264 => exact hvideo _ h
  | mp3 =>
    change load_MPA disk p = .ok q at h
    unfold load_MPA at h
    cases hopen : mediaopen disk p with
    | error e =>
      rw [hopen] at h
      cases h
    | ok file =>
      rw [hopen] at h
      change Except.map _ _ = _ at h
      cases hload : Mpa.load_MPA
        { file := file
          buffData := fun _ => 0
          description := { live := decide (p.description.msource = .live) } } with
      | error e =>
        rw [hload] at h
        cases h
      | ok me =>
        rw [hload] at h
        cases h
        exact ⟨rfl, rfl, rfl, rfl⟩

theorem functionsOf_eq (name : Bytes) : functionsOf name =
    if ftypeOf name = .none then none else some (media_func (ftypeOf name)) := by
  unfold functionsOf ftypeOf
  split_ifs <;> simp_all [media_func]

theorem media_func_inj {t u : MediaFileType} (h : media_func t = media_func u) : t = u := by
  cases t <;> cases u <;> first | rfl | cases h

theorem functionsOf_iff {name : Bytes} {t : MediaFileType} (ht : t ≠ .none) :
    functionsOf name = some (media_func t) ↔ ftypeOf name = t := by
  rw [functionsOf_eq]
  constructor
  · intro h
    split_ifs at h with hnone
    exact media_func_inj (Option.some.inj h)
  · intro h
    rw [h, if_neg ht]

theorem ftypeOf_inj {a b : Bytes} (ha : ftypeOf a ≠ .none) (h : ftypeOf a = ftypeOf b) : a = b := by
  unfold ftypeOf at ha h
  split_ifs at ha h <;> simp_all

/-! ### One stream -/

theorem validate_incomplete (load : Loader) (h : ¬Complete p) :
    validate_stream load p = some (.error ERR_PARSE) := by
  unfold validate_stream
  rw [if_pos]
  unfold Complete at h
  tauto

theorem validate_complete (load : Loader) (h : Complete p) : validate_stream load p =
    if 96 ≤ p.description.payloadType then
      if Dynamic p then registerAndLoad load p.final else some (.error ERR_PARSE)
    else if p.description.payloadType < 0 then none
    else registerAndLoad load p.final := by
  obtain ⟨hname, htype, hpriority⟩ := h
  unfold validate_stream MediaEntry.final
  rw [if_neg (by tauto)]
  by_cases h96 : 96 ≤ p.description.payloadType
  · rw [if_pos h96, if_pos h96, if_pos h96]
    by_cases hdyn : Dynamic p
    · rw [if_pos hdyn, if_neg]
      unfold Dynamic at hdyn
      tauto
    · rw [if_neg hdyn, if_pos]
      unfold Dynamic at hdyn
      tauto
  · rw [if_neg h96, if_neg h96, if_neg h96]

theorem final_ftype (p : MediaEntry) : p.final.description.ftype = p.description.ftype := by
  unfold MediaEntry.final
  split_ifs
  · rfl
  · rfl

theorem final_payloadType (p : MediaEntry) :
    p.final.description.payloadType = p.description.payloadType := by
  unfold MediaEntry.final
  split_ifs
  · rfl
  · rfl

theorem final_encodingName (h96 : ¬96 ≤ p.description.payloadType)
    (ht : ftypeOf p.description.encodingName ≠ .none) : p.final.description.encodingName =
      (RTP_payload p.description.payloadType.toNat).encName := by
  have hshm : p.description.encodingName ≠ lit "RTP_SHM" := by
    intro he
    rw [he] at ht
    exact ht (by decide)
  rw [MediaEntry.final, if_neg h96, MediaEntry.describe, Description.ofStatic,
    if_neg (fun h => hshm h.2)]

theorem registerAndLoad_final (hp : Formed p) : registerAndLoad (load_media disk) p.final =
    if ftypeOf p.description.encodingName = .none then none
    else some (load_media disk (ftypeOf p.description.encodingName) p.final) := by
  rw [registerAndLoad, final_ftype, hp.ftype]

/-- One stream: it is validated without a null pointer, and if it is accepted, it is playable. -/
def Sound (disk : Disk) (p : MediaEntry) : Prop :=
  validate_stream (load_media disk) p ≠ none ∧
    ∀ q, validate_stream (load_media disk) p = some (.ok q) → Playable q

theorem sound_of_error {res : ℤ} (h : validate_stream (load_media disk) p = some (.error res)) :
    Sound disk p := by
  rw [Sound, h]
  refine ⟨Option.some_ne_none _, ?_⟩
  intro q hq
  cases hq

/-- An accepted stream is playable if the name it has in the end is that of its type. -/
theorem playable_iff (hp : Formed p) (hrange : p.description.payloadType < 96 →
      0 ≤ p.description.payloadType) (ht : ftypeOf p.description.encodingName ≠ .none)
    (h : load_media disk (ftypeOf p.description.encodingName) p.final = .ok q) :
    Playable q ↔ ftypeOf p.final.description.encodingName = ftypeOf p.description.encodingName := by
  obtain ⟨hname, htype, hftype, -⟩ := load_media_keeps h
  have hregister : register_media q = media_func (ftypeOf p.description.encodingName) := by
    rw [register_media, hftype, final_ftype, hp.ftype]
  rw [← functionsOf_iff ht, ← hregister, ← hname]
  constructor
  · intro hq
    exact hq.functions
  · intro hfunctions
    refine ⟨?_, hfunctions⟩
    rw [htype, final_payloadType]
    exact hrange

theorem sound_iff (hp : Formed p) : Sound disk p ↔ Consistent disk p := by
  by_cases hcomplete : Complete p
  swap
  · exact ⟨fun _ hc => absurd hc hcomplete, fun _ => sound_of_error (validate_incomplete _ hcomplete)⟩
  have hvalid := validate_complete (load_media disk) hcomplete
  rw [registerAndLoad_final hp] at hvalid
  unfold Consistent
  by_cases h96 : 96 ≤ p.description.payloadType
  · rw [if_pos h96] at hvalid ⊢
    by_cases hdyn : Dynamic p
    · rw [if_pos hdyn] at hvalid
      by_cases ht : ftypeOf p.description.encodingName = .none
      · rw [if_pos ht] at hvalid
        exact ⟨fun h => absurd hvalid h.1, fun h => absurd ht (h hcomplete hdyn)⟩
      · rw [if_neg ht] at hvalid
        refine ⟨fun _ _ _ => ht, fun _ => ⟨by rw [hvalid]; exact Option.some_ne_none _, ?_⟩⟩
        intro q hq
        rw [hvalid] at hq
        rw [playable_iff hp (by omega) ht (Option.some.inj hq), MediaEntry.final, if_pos h96]
    · rw [if_neg hdyn] at hvalid
      exact ⟨fun _ _ hd => absurd hd hdyn, fun _ => sound_of_error hvalid⟩
  · rw [if_neg h96] at hvalid ⊢
    by_cases hneg : p.description.payloadType < 0
    · rw [if_pos hneg] at hvalid
      exact ⟨fun h => absurd hvalid h.1, fun h => absurd (h hcomplete).1 (by omega)⟩
    · rw [if_neg hneg] at hvalid
      by_cases ht : ftypeOf p.description.encodingName = .none
      · rw [if_pos ht] at hvalid
        exact ⟨fun h => absurd hvalid h.1, fun h => absurd ht (h hcomplete).2.1⟩
      · rw [if_neg ht] at hvalid
        have hname := final_encodingName h96 ht
        cases hload : load_media disk (ftypeOf p.description.encodingName) p.final with
        | error res =>
          rw [hload] at hvalid
          exact ⟨fun _ _ => ⟨by omega, ht, .inr ⟨res, hload⟩⟩, fun _ => sound_of_error hvalid⟩
        | ok q =>
          rw [hload] at hvalid
          have hplayable := playable_iff hp (by omega) ht hload
          rw [hname] at hplayable
          constructor
          · intro h _
            refine ⟨by omega, ht, .inl ?_⟩
            have htypes := hplayable.mp (h.2 q hvalid)
            exact ftypeOf_inj (htypes ▸ ht) htypes
          · intro h
            refine ⟨by rw [hvalid]; exact Option.some_ne_none _, ?_⟩
            intro q' hq'
            rw [hvalid] at hq'
            cases hq'
            rcases (h hcomplete).2.2 with hsame | ⟨res, hres⟩
            · rw [hplayable, hsame]
            · rw [hload] at hres
              cases hres

/-! ### A file -/

/-- The streams of a file are validated without a null pointer, those that are accepted are
playable, and one with any other encoding in the end makes the reading fail. -/
structure StreamsPlayable {δ : Type} (disk : Disk) (put : δ → Item → δ) (text : Bytes) (d : δ) :
    Prop where
  defined : ∀ p ∈ fileStreams (load_media disk) put text d,
    validate_stream (load_media disk) p ≠ none
  accepted : ∀ p ∈ fileStreams (load_media disk) put text d,
    ∀ q, validate_stream (load_media disk) p = some (.ok q) → Playable q
  others : ∀ p ∈ fileStreams (load_media disk) put text d,
    functionsOf p.final.description.encodingName = none →
      ∃ res, parseText (load_media disk) put text d = some (.error res)

/-- What an accepted entry has from the lines: a name with a loader, which may be overwritten from
the table, and the type of the medium. -/
structure Loaded (p q : MediaEntry) : Prop where
  named : ftypeOf p.description.encodingName ≠ .none
  encodingName : q.description.encodingName = p.final.description.encodingName
  mtype : q.description.mtype = p.description.mtype

theorem final_mtype (p : MediaEntry) : p.final.description.mtype = p.description.mtype := by
  unfold MediaEntry.final
  split_ifs
  · rfl
  · rfl

theorem accepted_loaded (hp : Formed p)
    (h : validate_stream (load_media disk) p = some (.ok q)) : Loaded p q := by
  by_cases hcomplete : Complete p
  swap
  · rw [validate_incomplete _ hcomplete] at h
    cases h
  rw [validate_complete _ hcomplete, registerAndLoad_final hp] at h
  have hloaded : ftypeOf p.description.encodingName ≠ .none →
      load_media disk (ftypeOf p.description.encodingName) p.final = .ok q → Loaded p q := by
    intro hnamed hload
    obtain ⟨hname, -, -, hmtype⟩ := load_media_keeps hload
    exact ⟨hnamed, hname, hmtype.trans (final_mtype p)⟩
  split_ifs at h
  · rename_i hnamed
    exact hloaded hnamed (Option.some.inj h)
  · cases h
  · rename_i hnamed
    exact hloaded hnamed (Option.some.inj h)

/-- For every file: exactly if its lines are consistent for each of its streams. -/
theorem streams_playable_iff {δ : Type} (disk : Disk) (put : δ → Item → δ) (text : Bytes) (d : δ) :
    StreamsPlayable disk put text d ↔
      ∀ p ∈ fileStreams (load_media disk) put text d, Consistent disk p := by
  constructor
  · intro h p hp
    rw [← sound_iff (validated_formed hp)]
    exact ⟨h.defined p hp, h.accepted p hp⟩
  · intro h
    have hsound : ∀ p ∈ fileStreams (load_media disk) put text d, Sound disk p := by
      intro p hp
      exact (sound_iff (validated_formed hp)).mpr (h p hp)
    refine ⟨fun p hp => (hsound p hp).1, fun p hp => (hsound p hp).2, ?_⟩
    intro p hp hnone
    cases hvalid : validate_stream (load_media disk) p with
    | none => exact absurd hvalid (hsound p hp).1
    | some result =>
      cases result with
      | error res => exact ⟨res, parseStreams_of_validated hp hvalid⟩
      | ok q =>
        have hplayable := ((hsound p hp).2 q hvalid).functions
        rw [(accepted_loaded (validated_formed hp) hvalid).encodingName, hnone] at hplayable
        cases hplayable

/-! ### What the RTSP side gets -/

/-- `media_entry` with the fields that SETUP and the scheduler look at. -/
def MediaEntry.seen (p : MediaEntry) : Schedule.MediaEntry where
  filename := p.filename
  aggregate := p.aggregate
  live := decide (p.description.msource = .live)
  mtype := p.description.mtype
  encodingName := p.description.encodingName
  priority := p.description.priority
  rtpMulticastPort := p.rtpMulticastPort

theorem static_not_shm (payloadType : ℕ) :
    eqNoCase (RTP_payload payloadType).encName (lit "RTP_SHM") = false := by
  unfold RTP_payload
  split <;> decide

theorem loader_not_shm {name : Bytes} (h : ftypeOf name ≠ .none) :
    eqNoCase name (lit "RTP_SHM") = false := by
  unfold ftypeOf at h
  split_ifs at h with h₁ h₂ h₃
  · rw [h₁]
    decide
  · rw [h₂]
    decide
  · rw [h₃]
    decide
  · exact absurd rfl h

/-- `mediacpy` can copy whatever `validate_stream` accepts. -/
theorem seen_accepted (hp : Formed p)
    (h : validate_stream (load_media disk) p = some (.ok q)) : q.seen.accepted = true := by
  have hq := accepted_loaded hp h
  have hname : eqNoCase q.description.encodingName (lit "RTP_SHM") = false := by
    rw [hq.encodingName]
    by_cases h96 : 96 ≤ p.description.payloadType
    · rw [MediaEntry.final, if_pos h96]
      exact loader_not_shm hq.named
    · rw [final_encodingName h96 hq.named]
      exact static_not_shm _
  have hmtype := hp.mtype
  rw [← hq.mtype] at hmtype
  simpa [Schedule.MediaEntry.accepted, MediaEntry.seen, hname] using hmtype

/-- The streams among the items of a file. -/
def Item.medium : Item → Option Schedule.MediaEntry
  | .stream _ p => some p.seen
  | _ => none

theorem parseStreams_accepted {fuel : ℕ} {chunks : List Bytes} {sc : Scan} {sparam : Option Bytes}
    {first : Bool} {items items' : List Item}
    (hitems : ∀ e ∈ items.filterMap Item.medium, e.accepted = true)
    (h : parseStreams (load_media disk) (fun l i => l ++ [i]) fuel chunks sc sparam first items =
      some (.ok items')) : ∀ e ∈ items'.filterMap Item.medium, e.accepted = true := by
  induction fuel generalizing chunks sc sparam first items with
  | zero => cases h
  | succ fuel ih =>
    unfold parseStreams at h
    obtain ⟨⟨chunks, sc, d⟩, hhead, h⟩ := Option.bind_eq_some_iff.mp h
    -- the lines in front of a stream add no medium
    have hlines : ∀ (sc : Scan) (items items' : List Item),
        (∀ e ∈ items.filterMap Item.medium, e.accepted = true) →
        headLine (fun l i => l ++ [i]) sc items = some items' →
        ∀ e ∈ items'.filterMap Item.medium, e.accepted = true := by
      intro sc items items' hitems h
      obtain ⟨t, -, h⟩ := Option.bind_eq_some_iff.mp h
      dsimp only at h
      split_ifs at h <;> cases h <;> simpa [Item.medium] using hitems
    have hd : ∀ e ∈ d.filterMap Item.medium, e.accepted = true :=
      keywordLoop_keeps (P := fun l => ∀ e ∈ l.filterMap Item.medium, e.accepted = true) hlines
        hitems hhead
    dsimp only at h
    split at h
    · cases h
      exact hd
    · obtain ⟨⟨chunks, sc, s⟩, hbody, h⟩ := Option.bind_eq_some_iff.mp h
      obtain ⟨res, hvalid, h⟩ := Option.bind_eq_some_iff.mp h
      have hfresh : Formed ({} : MediaEntry) := ⟨rfl, .inl rfl, by decide⟩
      have hs : Formed s.p :=
        keywordLoop_keeps (P := fun s => Formed s.p) streamLine_keeps hfresh hbody
      cases res with
      | error res => cases h
      | ok p =>
        have hp := seen_accepted hs hvalid
        have hnext : ∀ e ∈ (d ++ [Item.stream first p]).filterMap Item.medium,
            e.accepted = true := by
          intro e he
          rw [List.filterMap_append, List.mem_append] at he
          rcases he with he | he
          · exact hd e he
          · rw [List.mem_singleton.mp he]
            exact hp
        dsimp only at h
        split at h
        · cases h
          exact hnext
        · exact ih hnext h

theorem text_sdFile {text : Bytes} {items : List Item}
    (h : fileItems (load_media disk) text = some (.ok items)) :
    ∃ file : Schedule.SDFile, file.streams = items.filterMap Item.medium := by
  refine ⟨⟨none, none, items.filterMap Item.medium, ?_⟩, rfl⟩
  exact parseStreams_accepted (fun e he => absurd he List.not_mem_nil) h

end

/-- A static payload type with no line `ENCODING_NAME`, which the table gives anyhow. -/
def unnamedText : Bytes := lit "STREAM\nFILE_NAME v\nPAYLOAD_TYPE 32\nPRIORITY 1\nSTREAM_END\n"

/-- `FILE_NONE` has no loader. -/
theorem unnamed_calls_null :
    ¬∀ (disk : Disk) (text : Bytes) (d : SDDescr), StreamsPlayable disk SDDescr.put text d := by
  intro hall
  have hnone : (fileStreams (load_media fun _ => none) SDDescr.put unnamedText {}).any
      (fun p => (validate_stream (load_media fun _ => none) p).isNone) = true := by decide +kernel
  obtain ⟨p, hp, hp'⟩ := List.any_eq_true.mp hnone
  exact (hall (fun _ => none) unnamedText {}).defined p hp (Option.isNone_iff_eq_none.mp hp')

end Fenice.Mediainfo
