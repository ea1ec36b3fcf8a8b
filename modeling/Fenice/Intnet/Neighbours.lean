import Fenice.Intnet.Adaptation

/-!
# The neighbours of a bit rate

The bit rates of MPEG audio and GSM are ladders. The functions that change the rate by a switch
over it step to the nearest rung that the presentation has.
-/

namespace Fenice.Intnet
open Fenice.CString Fenice.Ladder Fenice.Mediainfo

inductive Codec where
  | MPA
  | GSM
  deriving DecidableEq

namespace Codec

def name : Codec → Bytes
  | MPA => lit "MPA"
  | GSM => lit "GSM"

/-- The bit rates of the codec, from the lowest one on. -/
def ladder : Codec → List ℤ
  | MPA =>
    [8000, 16000, 24000, 32000, 40000, 48000, 56000, 64000, 80000, 96000, 112000, 128000, 144000,
      160000, 176000, 192000, 224000, 256000, 288000, 320000, 352000, 384000, 416000, 448000]
  | GSM => [4750, 5150, 5900, 6700, 7400, 7950, 10200, 12200]

def downgrade : Codec → Found → Found → World → Option (ℤ × World)
  | MPA => downgrade_MP3
  | GSM => downgrade_GSM

def upgrade : Codec → Found → Found → World → Option (ℤ × World)
  | MPA => upgrade_MP3
  | GSM => upgrade_GSM

def half : Codec → Found → Found → World → Option (ℤ × World)
  | MPA => half_MP3
  | GSM => half_GSM

/-- The bit rates that each of them tries. -/
def downSpeeds : Codec → ℤ → List ℤ
  | MPA => fallThrough downgradeMP3
  | GSM => fallThrough downgradeGSM

@[inherit_doc downSpeeds]
def upSpeeds : Codec → ℤ → List ℤ
  | MPA => fallThrough upgradeMP3
  | GSM => fallThrough upgradeGSM

@[inherit_doc downSpeeds]
def halfSpeeds : Codec → ℤ → List ℤ
  | MPA => fun b => fallThrough halfMP3 (halfSpeedMP3 (b.tdiv 2))
  | GSM => fun b => if b ≠ 4750 then fallThrough halfGSM (halfSpeedGSM (b.tdiv 2)) else []

variable (c : Codec)

theorem ladder_sorted : c.ladder.Pairwise (· < ·) := by
  cases c <;> decide

theorem upSpeeds_eq : c.upSpeeds = fallThrough (steps c.ladder) := by
  cases c <;> exact congrArg fallThrough (by decide)

theorem downSpeeds_eq : c.downSpeeds = fallThrough (steps c.ladder.reverse) := by
  cases c <;> exact congrArg fallThrough (by decide)

variable {c} {b : ℤ}

theorem upSpeeds_ladder (hb : b ∈ c.ladder) :
    c.upSpeeds b = c.ladder.filter fun r => b < r := by
  rw [upSpeeds_eq, fallThrough_up c.ladder_sorted hb]

theorem downSpeeds_ladder (hb : b ∈ c.ladder) :
    c.downSpeeds b = c.ladder.reverse.filter fun r => b > r := by
  have hsorted : c.ladder.reverse.Pairwise (· > ·) := List.pairwise_reverse.mpr c.ladder_sorted
  rw [downSpeeds_eq, fallThrough_down hsorted (List.mem_reverse.mpr hb)]

theorem halfSpeeds_lower (hb : b ∈ c.ladder) {r : ℤ} (hr : r ∈ c.halfSpeeds b) :
    r ∈ c.ladder ∧ r < b := by
  have hall : ∀ b ∈ c.ladder, ∀ r ∈ c.halfSpeeds b, r ∈ c.ladder ∧ r < b := by
    cases c <;> decide +kernel
  exact hall b hb r hr

end Codec

namespace World

/-- The presentation has a stream of the codec with that bit rate. -/
def Available (w : World) (c : Codec) (list : List ℕ) (b : ℤ) : Prop :=
  ∃ p ∈ list, (w.media p).entry.description.encodingName = c.name ∧
    (w.media p).entry.description.bitrate = b

instance (w : World) (c : Codec) (list : List ℕ) (b : ℤ) : Decidable (w.Available c list b) := by
  unfold Available; infer_instance

section Search

variable {w v : World} {c : Codec} {list : List ℕ} {speeds : List ℤ} {p : ℕ} {b : ℤ}

theorem search_rate_some (h : w.search (rateRequest c.name b) list = some p) :
    p ∈ list ∧ (w.media p).entry.description.encodingName = c.name ∧
      (w.media p).entry.description.bitrate = b := by
  obtain ⟨hp, hmatch⟩ := search_media_some h
  exact ⟨hp, matches_rateRequest.mp hmatch⟩

theorem search_rate_isSome :
    (w.search (rateRequest c.name b) list).isSome ↔ w.Available c list b := by
  rw [search, search_media_isSome]
  simp only [matches_rateRequest, Available]

theorem searchRates_some (h : w.searchRates c.name speeds list = some p) :
    p ∈ list ∧ (w.media p).entry.description.encodingName = c.name ∧
      speeds.find? (fun b => w.Available c list b) =
        some (w.media p).entry.description.bitrate := by
  induction speeds with
  | nil => cases h
  | cons b speeds ih =>
    rw [searchRates, List.findSome?_cons] at h
    cases hb : w.search (rateRequest c.name b) list with
    | some q =>
      rw [hb] at h
      cases h
      obtain ⟨hp, hname, hrate⟩ := search_rate_some hb
      have havail : w.Available c list b := ⟨p, hp, hname, hrate⟩
      refine ⟨hp, hname, ?_⟩
      rw [List.find?_cons, decide_eq_true havail, hrate]
    | none =>
      rw [hb] at h
      have hnot : ¬ w.Available c list b := by
        rw [← search_rate_isSome, hb]
        simp
      rw [List.find?_cons, decide_eq_false hnot]
      exact ih h

theorem searchRates_isSome (h : ∃ b ∈ speeds, w.Available c list b) :
    ∃ p, w.searchRates c.name speeds list = some p := by
  obtain ⟨b, hb, havail⟩ := h
  rw [← Option.isSome_iff_exists, searchRates, List.findSome?_isSome_iff]
  exact ⟨b, hb, search_rate_isSome.mpr havail⟩

theorem available_congr
    (h : ∀ m, (v.media m).entry.description = (w.media m).entry.description) :
    v.Available c list b ↔ w.Available c list b := by
  simp only [Available, h]

end Search

/-! ### The list of a presentation -/

section List

variable {w u v : World} {found : Found} {list : List ℕ} {object : Bytes}

theorem findDescr_le : w.findDescr object ≤ w.sds.length := List.findIdx_le_length

/-- A descriptor of the name at the place where it is looked for is found there. -/
theorem findDescr_put {d : SD} (hd : d.filename = object) :
    (w.putDescr (w.findDescr object) (some d)).findDescr object = w.findDescr object ∧
      (w.putDescr (w.findDescr object) (some d)).sds[w.findDescr object]? = some (some d) := by
  have hfront : ∀ j (hj : j < w.findDescr object),
      ((w.sds.get ⟨j, hj.trans_le findDescr_le⟩).any fun d => d.filename == object) = false := by
    intro j hj
    exact List.not_of_lt_findIdx hj
  unfold putDescr
  split
  · rename_i hlt
    have hself : (w.sds.set (w.findDescr object) (some d))[w.findDescr object]? =
        some (some d) := List.getElem?_set_self hlt
    refine ⟨?_, hself⟩
    refine (List.findIdx_eq (by simpa using hlt)).mpr ⟨?_, ?_⟩
    · simp [hd]
    · intro j hj
      rw [List.getElem_set_ne (by omega)]
      exact hfront j hj
  · rename_i hge
    have hend : w.findDescr object = w.sds.length := le_antisymm findDescr_le (not_lt.mp hge)
    have hself : (w.sds ++ [some d])[w.findDescr object]? = some (some d) := by
      rw [hend, List.getElem?_concat_length]
    refine ⟨?_, hself⟩
    refine (List.findIdx_eq (by simp [hend])).mpr ⟨?_, ?_⟩
    · simp [hend, hd]
    · intro j hj
      rw [List.getElem_append_left (by omega)]
      exact hfront j hj

theorem descr_filename : (w.descr object).filename = object := by
  unfold descr
  cases h : w.sds[w.findDescr object]?.join with
  | none => rfl
  | some d =>
    have hget : w.sds[w.findDescr object]? = some (some d) := Option.join_eq_some_iff.mp h
    obtain ⟨hlt, hd⟩ := List.getElem?_eq_some_iff.mp hget
    have hmatch : (w.sds[w.findDescr object].any fun d => d.filename == object) = true :=
      List.findIdx_getElem
    rw [hd] at hmatch
    simpa using hmatch

/-- What a call of `enum_media` that succeeds has done. -/
structure Listed (w : World) (list : List ℕ) (u : World) : Prop where
  descr : ∃ d : SD, d.filename = w.session.sdFilename ∧ d.meList = list ∧
    u.sds = (w.putDescr (w.findDescr w.session.sdFilename) (some d)).sds
  session : u.session = w.session
  medias : ∃ streams : List MediaEntry, u.medias = w.medias ++ streams.map fun e => { entry := e }

/-- The descriptor is freed memory exactly if `enum_media` fails. -/
theorem meList_cases (w : World) (found : Found) :
    found.isError = true ∧ w.meList found = none ∨
      found.isError = false ∧ ∃ list u, w.meList found = some (list, u) ∧ Listed w list u := by
  let object := w.session.sdFilename
  have hname : (w.descr object).filename = object := descr_filename
  cases found with
  | error res =>
    refine .inl ⟨rfl, ?_⟩
    have hfreed : (w.putDescr (w.findDescr object) none).sds[w.findDescr object]?.join = none := by
      unfold putDescr
      split
      · rename_i hlt
        rw [List.getElem?_set_self hlt]
        rfl
      · rename_i hge
        rw [le_antisymm findDescr_le (not_lt.mp hge), List.getElem?_concat_length]
        rfl
    simp only [meList, enum_media, object, hfreed, Option.map_none]
  | unchanged =>
    have hput := (findDescr_put (w := w) hname).2
    refine .inr ⟨rfl, (w.descr object).meList,
      w.putDescr (w.findDescr object) (some (w.descr object)), ?_, ⟨_, hname, rfl, rfl⟩, ?_, [], ?_⟩
    · simp only [meList, enum_media, object, hput, Option.join_some, Option.map_some]
    · rfl
    · exact (List.append_nil _).symm
  | parsed streams =>
    let d := (w.parse (w.descr object) streams).1
    have hparsed : d.filename = object := hname
    have hput := (findDescr_put (w := w) hparsed).2
    refine .inr ⟨rfl, d.meList,
      (w.parse (w.descr object) streams).2.putDescr (w.findDescr object) (some d), ?_,
      ⟨d, hparsed, rfl, rfl⟩, rfl, streams, rfl⟩
    have hthere : ((w.parse (w.descr object) streams).2.putDescr (w.findDescr object)
        (some d)).sds[w.findDescr object]? = some (some d) := hput
    simp only [meList, enum_media, object, d, hthere, Option.join_some, Option.map_some]

/-- A second call of `enum_media` gives the same list, if the file has not changed since. -/
theorem meList_again (h : Listed w list u) (hsds : v.sds = u.sds)
    (hsession : v.session.sdFilename = w.session.sdFilename) :
    v.meList .unchanged = some (list, v) := by
  obtain ⟨d, hname, rfl, hu⟩ := h.descr
  obtain ⟨hfind, hget⟩ := findDescr_put (w := w) hname
  have hv : v.sds = (w.putDescr (w.findDescr w.session.sdFilename) (some d)).sds := hsds.trans hu
  have hplace : v.findDescr v.session.sdFilename = w.findDescr w.session.sdFilename := by
    rw [hsession]
    refine Eq.trans ?_ hfind
    rw [findDescr, findDescr, hv]
  rw [← hv] at hget
  obtain ⟨hlt, hd⟩ := List.getElem?_eq_some_iff.mp hget
  have hthere : v.descr v.session.sdFilename = d := by
    rw [descr, hplace, hget]
    rfl
  have hsame : v.putDescr (w.findDescr w.session.sdFilename) (some d) = v := by
    have hset : v.sds.set (w.findDescr w.session.sdFilename) (some d) = v.sds := by
      rw [← hd]
      exact List.set_getElem_self hlt
    rw [putDescr, if_pos hlt, hset]
  simp only [meList, enum_media, hplace, hthere, hsame, hget, Option.join_some, Option.map_some]

end List

/-- The rungs of the codec's ladder that the presentation has. -/
def rungs (w : World) (c : Codec) (list : List ℕ) : Set ℤ :=
  {b | b ∈ c.ladder ∧ w.Available c list b}

end World

section Steps

variable {w u v : World} {c : Codec} {found later : Found} {list : List ℕ} {p : ℕ}

theorem downgrade_eq (h : w.meList found = some (list, u)) (later : Found) :
    c.downgrade found later w =
      match u.searchRates c.name (c.downSpeeds u.bitrate) list with
      | some p => some (u.stream_switch p)
      | none => u.priority_decrease later := by
  cases c <;> exact congrArg (Option.bind · _) h

theorem upgrade_eq (h : w.meList found = some (list, u)) (later : Found) :
    c.upgrade found later w =
      match u.searchRates c.name (c.upSpeeds u.bitrate) list with
      | some p => some (u.stream_switch p)
      | none => u.priority_increase later := by
  cases c <;> exact congrArg (Option.bind · _) h

theorem half_eq (h : w.meList found = some (list, u)) (later : Found) :
    c.half found later w =
      match u.searchRates c.name (c.halfSpeeds u.bitrate) list with
      | some p => some (u.stream_switch p)
      | none => u.priority_decrease later := by
  cases c <;> exact congrArg (Option.bind · _) h

theorem stream_switch_bitrate (u : World) (p : ℕ) :
    (u.stream_switch p).2.bitrate = (u.media p).entry.description.bitrate :=
  congrArg Description.bitrate (stream_switch_description u p p)

/-- The session plays a stream of the codec from the list. -/
structure Plays (c : Codec) (list : List ℕ) (v : World) : Prop where
  listed : v.session.currentMedia ∈ list
  encoding : v.current.entry.description.encodingName = c.name

theorem switch_plays {speeds : List ℤ} (h : u.searchRates c.name speeds list = some p) :
    Plays c list (u.stream_switch p).2 ∧ speeds.find? (fun b => u.Available c list b) =
      some (u.stream_switch p).2.bitrate := by
  obtain ⟨hp, hname, hfind⟩ := World.searchRates_some h
  refine ⟨⟨hp, ?_⟩, ?_⟩
  · exact (congrArg Description.encodingName (stream_switch_description u p p)).trans hname
  · rw [stream_switch_bitrate]
    exact hfind

theorem downgrade_next (h : w.meList found = some (list, u)) (hladder : u.bitrate ∈ c.ladder)
    (hlower : ∃ b ∈ u.rungs c list, b < u.bitrate) (later : Found) :
    ∃ p, c.downgrade found later w = some (u.stream_switch p) ∧
      Plays c list (u.stream_switch p).2 ∧
      IsGreatest {b | b ∈ u.rungs c list ∧ b < u.bitrate} (u.stream_switch p).2.bitrate := by
  have hspeeds := Codec.downSpeeds_ladder hladder
  obtain ⟨b, ⟨hb, havail⟩, hlt⟩ := hlower
  have htried : b ∈ c.downSpeeds u.bitrate := by
    rw [hspeeds, List.mem_filter]
    exact ⟨List.mem_reverse.mpr hb, by simpa using hlt⟩
  obtain ⟨p, hp⟩ := World.searchRates_isSome ⟨b, htried, havail⟩
  obtain ⟨hplays, hfind⟩ := switch_plays hp
  refine ⟨p, ?_, hplays, ?_⟩
  · rw [downgrade_eq h, hp]
  · rw [hspeeds] at hfind
    have hsorted : (c.ladder.reverse.filter fun r => u.bitrate > r).Pairwise (· > ·) :=
      (List.pairwise_reverse.mpr c.ladder_sorted).filter _
    have hset : {b | b ∈ u.rungs c list ∧ b < u.bitrate} =
        {b | b ∈ (c.ladder.reverse.filter fun r => u.bitrate > r) ∧
          decide (u.Available c list b) = true} := by
      ext b
      simp only [World.rungs, Set.mem_ofPred_eq, List.mem_filter, List.mem_reverse,
        decide_eq_true_eq, gt_iff_lt]
      tauto
    rw [hset]
    exact isGreatest_of_find? hsorted hfind

theorem upgrade_next (h : w.meList found = some (list, u)) (hladder : u.bitrate ∈ c.ladder)
    (hhigher : ∃ b ∈ u.rungs c list, u.bitrate < b) (later : Found) :
    ∃ p, c.upgrade found later w = some (u.stream_switch p) ∧
      Plays c list (u.stream_switch p).2 ∧
      IsLeast {b | b ∈ u.rungs c list ∧ u.bitrate < b} (u.stream_switch p).2.bitrate := by
  have hspeeds := Codec.upSpeeds_ladder hladder
  obtain ⟨b, ⟨hb, havail⟩, hlt⟩ := hhigher
  have htried : b ∈ c.upSpeeds u.bitrate := by
    rw [hspeeds, List.mem_filter]
    exact ⟨hb, by simpa using hlt⟩
  obtain ⟨p, hp⟩ := World.searchRates_isSome ⟨b, htried, havail⟩
  obtain ⟨hplays, hfind⟩ := switch_plays hp
  refine ⟨p, ?_, hplays, ?_⟩
  · rw [upgrade_eq h, hp]
  · rw [hspeeds] at hfind
    have hsorted : (c.ladder.filter fun r => u.bitrate < r).Pairwise (· < ·) :=
      c.ladder_sorted.filter _
    have hset : {b | b ∈ u.rungs c list ∧ u.bitrate < b} =
        {b | b ∈ (c.ladder.filter fun r => u.bitrate < r) ∧
          decide (u.Available c list b) = true} := by
      ext b
      simp only [World.rungs, Set.mem_ofPred_eq, List.mem_filter, decide_eq_true_eq]
      tauto
    rw [hset]
    exact isLeast_of_find? hsorted hfind

theorem switched_list (h : World.Listed w list u) (p : ℕ) :
    (u.stream_switch p).2.meList .unchanged = some (list, (u.stream_switch p).2) ∧
      (u.stream_switch p).2.rungs c list = u.rungs c list := by
  have hname : u.session.sdFilename = w.session.sdFilename := congrArg Session.sdFilename h.session
  refine ⟨World.meList_again h rfl hname, ?_⟩
  ext b
  exact and_congr_right fun _ => World.available_congr (stream_switch_description u p)

/-- The functions step to the neighbours of the bit rate, and a step back is where they came
from. -/
structure PicksNeighbour (c : Codec) (w : World) (found : Found) (list : List ℕ) (u : World) :
    Prop where
  down : (∃ b ∈ u.rungs c list, b < u.bitrate) → ∀ later, ∃ v,
    c.downgrade found later w = some (ERR_NOERROR, v) ∧ Plays c list v ∧
      IsGreatest {b | b ∈ u.rungs c list ∧ b < u.bitrate} v.bitrate
  up : (∃ b ∈ u.rungs c list, u.bitrate < b) → ∀ later, ∃ v,
    c.upgrade found later w = some (ERR_NOERROR, v) ∧ Plays c list v ∧
      IsLeast {b | b ∈ u.rungs c list ∧ u.bitrate < b} v.bitrate
  upDown : (∃ b ∈ u.rungs c list, u.bitrate < b) → ∀ later later', ∃ v x,
    c.upgrade found later w = some (ERR_NOERROR, v) ∧
      c.downgrade .unchanged later' v = some (ERR_NOERROR, x) ∧ x.bitrate = u.bitrate
  downUp : (∃ b ∈ u.rungs c list, b < u.bitrate) → ∀ later later', ∃ v x,
    c.downgrade found later w = some (ERR_NOERROR, v) ∧
      c.upgrade .unchanged later' v = some (ERR_NOERROR, x) ∧ x.bitrate = u.bitrate
  half : (∃ b ∈ c.halfSpeeds u.bitrate, u.Available c list b) → ∀ later, ∃ v,
    c.half found later w = some (ERR_NOERROR, v) ∧ Plays c list v ∧ v.bitrate ∈ c.ladder ∧
      v.bitrate < u.bitrate

/-- For every presentation and every bit rate on the ladder of the codec that it has. -/
theorem picks_neighbour (h : w.meList found = some (list, u)) (hladder : u.bitrate ∈ c.ladder)
    (hcurrent : u.Available c list u.bitrate) : PicksNeighbour c w found list u := by
  have hhere : u.bitrate ∈ u.rungs c list := ⟨hladder, hcurrent⟩
  have hlisted : World.Listed w list u := by
    rcases World.meList_cases w found with ⟨-, hnone⟩ | ⟨-, l, x, hsome, hl⟩
    · rw [h] at hnone
      cases hnone
    · rw [h] at hsome
      cases hsome
      exact hl
  refine ⟨?_, ?_, ?_, ?_, ?_⟩
  · intro hlower later
    obtain ⟨p, hp, hplays, hnext⟩ := downgrade_next h hladder hlower later
    exact ⟨_, hp, hplays, hnext⟩
  · intro hhigher later
    obtain ⟨p, hp, hplays, hnext⟩ := upgrade_next h hladder hhigher later
    exact ⟨_, hp, hplays, hnext⟩
  · intro hhigher later later'
    obtain ⟨p, hp, -, hnext⟩ := upgrade_next h hladder hhigher later
    obtain ⟨hagain, hrungs⟩ := @switched_list _ _ c _ hlisted p
    have hback := isGreatest_below hhere hnext
    rw [← hrungs] at hhere hback hnext
    obtain ⟨q, hq, -, hlast⟩ :=
      downgrade_next hagain hnext.1.1.1 ⟨u.bitrate, hhere, hnext.1.2⟩ later'
    exact ⟨_, _, hp, hq, hlast.unique hback⟩
  · intro hlower later later'
    obtain ⟨p, hp, -, hnext⟩ := downgrade_next h hladder hlower later
    obtain ⟨hagain, hrungs⟩ := @switched_list _ _ c _ hlisted p
    have hback := isLeast_above hhere hnext
    rw [← hrungs] at hhere hback hnext
    obtain ⟨q, hq, -, hlast⟩ :=
      upgrade_next hagain hnext.1.1.1 ⟨u.bitrate, hhere, hnext.1.2⟩ later'
    exact ⟨_, _, hp, hq, hlast.unique hback⟩
  · intro havail later
    obtain ⟨p, hp⟩ := World.searchRates_isSome havail
    obtain ⟨hplays, hfind⟩ := switch_plays hp
    refine ⟨(u.stream_switch p).2, ?_, hplays, ?_⟩
    · rw [half_eq h, hp]
      rfl
    · exact Codec.halfSpeeds_lower hladder (List.mem_of_find?_eq_some hfind)

/-- A stream of MPEG audio. -/
def audio (bitrate : ℤ) : Media :=
  { entry := { description := { encodingName := lit "MPA", bitrate := bitrate } } }

/-- The session plays its copy of the second stream of three. -/
def threeRates : World where
  medias := [audio 128000, audio 192000, audio 128000, audio 64000]
  sds := [some { filename := lit "a.sd", meList := [1, 2, 3] }]
  session := { sdFilename := lit "a.sd", currentMedia := 0 }

theorem picks_neighbour_three :
    PicksNeighbour .MPA threeRates .unchanged [1, 2, 3] threeRates :=
  picks_neighbour rfl (by decide) (by decide)

end Steps

end Fenice.Intnet
