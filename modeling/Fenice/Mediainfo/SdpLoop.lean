import Fenice.Mediainfo.SearchMedia
import Fenice.Mediainfo.Sdp

/-!
# The loop over the streams of a description (sdp/get_SDP_descr.c)

With `extended` the loop follows the list. Without it the loop looks for the next stream of the
aggregate in the list, where `ME_RESERVED` marks the streams that have not been described.
-/

namespace Fenice.Mediainfo.Sdp
open Fenice.CString Fenice.Schedule

def ME_RESERVED : ℕ := 16

def streamLines (extended multicastPort : Bool) (url : Bytes) (p : MediaEntry) : List SdpLine :=
  let d := p.description
  let alternative := d.priority ≠ 1 ∧ extended = true
  [.text ((if alternative then lit "a=med:" else lit "m=") ++ mediaTypeText d.mtype ++
      intText (if multicastPort then p.rtpMulticastPort else 0) ++ lit " RTP/AVP " ++
      intText d.payloadType)] ++
    flagLine d.flags MED_LICENSE (lit "a=uriLicense:") d.commonsDead ++
    flagLine d.flags MED_RDF_PAGE (lit "a=uriMetadata:") d.rdfPage ++
    flagLine d.flags MED_TITLE (lit "a=title:") d.title ++
    flagLine d.flags MED_CREATOR (lit "a=creator:") d.author ++
    (if 96 ≤ d.payloadType then [.text (rtpmap d)] else []) ++
    [if alternative then .text (lit "a=ctrl:" ++ controlUrl url p.filename)
      else .control (controlUrl url p.filename)] ++
    (if extended then flagLine p.flags ME_AGGREGATE (lit "a=aggregate:") (controlUrl url p.aggregate)
      else [])

/-- A section of a description: the place of the stream in the list, and its lines. -/
abbrev Section := ℕ × List SdpLine

def aggregateRequest (aggregate : Bytes) : MediaEntry :=
  { flags := ME_AGGREGATE ||| ME_RESERVED, aggregate := aggregate }

/-- `search_media`, with the streams given by their places. -/
def searchList (req : MediaEntry) (list : List MediaEntry) : Option ℕ :=
  search_media (fun i => list.getD i {}) req (List.range list.length)

/-- `p->flags |= ME_RESERVED` for all streams. -/
def markAll (list : List MediaEntry) : List MediaEntry :=
  list.map fun p => { p with flags := p.flags ||| ME_RESERVED }

/-- `p->flags ^= ME_RESERVED`. -/
def unmark (p : MediaEntry) : MediaEntry := { p with flags := p.flags ^^^ ME_RESERVED }

section Loop

variable (extended multicastPort : Bool) (url : Bytes)

/-- The stream that comes behind stream `i`, and the list as it is left. -/
def nextStream (i : ℕ) (list : List MediaEntry) : Option ℕ × List MediaEntry :=
  let p := list.getD i {}
  if extended then (if i + 1 < list.length then some (i + 1) else none, list)
  else if p.flags &&& ME_AGGREGATE ≠ 0 then
    let list := list.set i (unmark p)
    (searchList (aggregateRequest p.aggregate) list, list)
  else (none, list)

/-- The loop from stream `i` on; `none`: still running after `fuel` streams. -/
def describe : ℕ → ℕ → List MediaEntry → Option (List Section × List MediaEntry)
  | 0, _, _ => none
  | fuel + 1, i, list =>
    let lines := streamLines extended multicastPort url (list.getD i {})
    match nextStream extended i list with
    | (none, list) => some ([(i, lines)], list)
    | (some j, list) => (describe fuel j list).map fun r => ((i, lines) :: r.1, r.2)

end Loop

/-- What a call leaves: the return value, what stands in front of the streams, the sections, and
the list. -/
structure Outcome where
  res : ℤ
  head : List SdpLine
  sections : List Section
  list : List MediaEntry

def Outcome.lines (r : Outcome) : List SdpLine := r.head ++ r.sections.flatMap Prod.snd

/-- `get_SDP_descr (media, descr, extended, url)`, behind `enum_media`; `media` is a place in the
list. -/
def get_SDP_descr (host : SdpHost) (d : SDDescr) (url : Bytes) (extended : Bool) (media fuel : ℕ) :
    Option Outcome :=
  let head : List SdpLine :=
    [.text (lit "v=0"),
      .text (lit "o=fenice " ++ host.sessionId ++ lit " " ++ host.version),
      .text (lit "c=IN IP4 " ++
        if d.flMulticast then d.multicast ++ lit "/32" else host.address),
      .text (lit "s=RTSP Session"),
      .text (lit "i=fenice 1.12 Streaming Server")]
  match search_media id (priorityRequest 1) d.meList with
  | none => some ⟨ERR_PARSE, head, [], d.meList⟩
  | some p =>
    (describe extended d.flMulticastPort url fuel (if extended then 0 else media)
      (markAll d.meList)).map fun r =>
        ⟨ERR_NOERROR, head ++
          (if p.flags &&& ME_AGGREGATE = 0 then [] else [.control (controlUrl url p.aggregate)]) ++
          [.text (lit "u=" ++ url), .text (lit "t=0 0")], r.1, r.2⟩

/-! ### Marks -/

/-- The same stream, with other marks. -/
structure SameStream (p q : MediaEntry) : Prop where
  stream : p = { q with flags := p.flags }
  aggregate : p.flags &&& ME_AGGREGATE = q.flags &&& ME_AGGREGATE

/-- The same list, with other marks. -/
structure SameList (list list' : List MediaEntry) : Prop where
  length : list.length = list'.length
  stream : ∀ i, SameStream (list.getD i {}) (list'.getD i {})

section Marks

variable {list list' : List MediaEntry} {p q : MediaEntry} {extended : Bool} {i j : ℕ} {a : Bytes}

theorem SameStream.refl (p : MediaEntry) : SameStream p p := ⟨rfl, rfl⟩

theorem SameStream.trans {r : MediaEntry} (h : SameStream p q) (h' : SameStream q r) :
    SameStream p r := by
  refine ⟨?_, h.aggregate.trans h'.aggregate⟩
  rw [h.stream, h'.stream]

theorem sameStream_unmark (p : MediaEntry) : SameStream (unmark p) p := by
  refine ⟨rfl, ?_⟩
  rw [unmark, Nat.and_xor_distrib_right]
  exact Nat.xor_zero _

theorem sameList_markAll (list : List MediaEntry) : SameList (markAll list) list := by
  refine ⟨List.length_map _, ?_⟩
  intro i
  rw [List.getD_eq_getElem?_getD, List.getD_eq_getElem?_getD, markAll, List.getElem?_map]
  cases list[i]? with
  | none => exact .refl _
  | some p =>
    refine ⟨rfl, ?_⟩
    change (p.flags ||| ME_RESERVED) &&& ME_AGGREGATE = _
    rw [Nat.and_or_distrib_right]
    exact Nat.or_zero _

theorem sameList_unmark (i : ℕ) (list : List MediaEntry) :
    SameList (list.set i (unmark (list.getD i {}))) list := by
  refine ⟨List.length_set, ?_⟩
  intro j
  rcases Nat.lt_or_ge i list.length with hlt | hge
  · rcases eq_or_ne i j with rfl | hne
    · rw [List.getD_eq_getElem?_getD, List.getElem?_set_self hlt]
      exact sameStream_unmark _
    · rw [List.getD_eq_getElem?_getD, List.getElem?_set_ne hne, ← List.getD_eq_getElem?_getD]
      exact .refl _
  · rw [List.set_eq_of_length_le hge]
    exact .refl _

theorem streamLines_same (h : SameStream p q) (multicastPort : Bool) (url : Bytes) :
    streamLines extended multicastPort url p = streamLines extended multicastPort url q := by
  have haggregate := h.aggregate
  rw [h.stream] at haggregate ⊢
  simp only [streamLines, flagLine, haggregate]

theorem matches_aggregateRequest :
    matchesRequest (aggregateRequest a) p = decide (p.aggregate = a) := by
  rw [Bool.eq_iff_iff, decide_eq_true_eq]
  simp [matchesRequest, agrees, aggregateRequest, ME_FILENAME, ME_AGGREGATE, ME_RESERVED]

theorem searchList_same (h : SameList list list') :
    searchList (aggregateRequest a) list = searchList (aggregateRequest a) list' := by
  have haggregate : ∀ i, (list.getD i {}).aggregate = (list'.getD i {}).aggregate := by
    intro i
    rw [(h.stream i).stream]
  simp only [searchList, search_media, matches_aggregateRequest, haggregate, h.length]

theorem searchList_some (h : searchList (aggregateRequest a) list = some i) :
    i < list.length ∧ (list.getD i {}).aggregate = a := by
  obtain ⟨hi, hmatch⟩ := search_media_some h
  rw [matches_aggregateRequest, decide_eq_true_eq] at hmatch
  exact ⟨List.mem_range.mp hi, hmatch⟩

theorem searchList_isSome (hi : i < list.length) (ha : (list.getD i {}).aggregate = a) :
    ∃ j, searchList (aggregateRequest a) list = some j := by
  rw [← Option.isSome_iff_exists, searchList, search_media_isSome]
  exact ⟨i, List.mem_range.mpr hi, by rw [matches_aggregateRequest, ha, decide_eq_true rfl]⟩

end Marks

/-! ### What is described -/

/-- The streams that a call is to describe: none if no stream has priority 1, which is an error. -/
def toDescribe (d : SDDescr) (extended : Bool) (media : ℕ) : List ℕ :=
  let p := d.meList.getD media {}
  if d.meList.all fun p => p.description.priority ≠ 1 then []
  else if extended then List.range d.meList.length
  else if p.flags &&& ME_AGGREGATE = 0 then [media]
  else (List.range d.meList.length).filter fun i =>
    let q := d.meList.getD i {}
    q.flags &&& ME_AGGREGATE ≠ 0 ∧ q.aggregate = p.aggregate

/-- The call ends, and writes one section for each of them. -/
def DescribesEach (host : SdpHost) (d : SDDescr) (url : Bytes) (extended : Bool) (media : ℕ) :
    Prop :=
  ∃ fuel r, get_SDP_descr host d url extended media fuel = some r ∧
    (r.sections.map Prod.fst).Perm (toDescribe d extended media) ∧
    ∀ s ∈ r.sections, s.2 = streamLines extended d.flMulticastPort url (d.meList.getD s.1 {})

section Loop

variable {list : List MediaEntry} {multicastPort : Bool} {url : Bytes} {i : ℕ}

theorem describe_extended (n fuel : ℕ) (h : i + n + 1 = list.length) :
    describe true multicastPort url (fuel + n + 1) i list =
      some ((List.range' i (n + 1)).map fun j =>
        (j, streamLines true multicastPort url (list.getD j {})), list) := by
  induction n generalizing i with
  | zero =>
    have hnext : nextStream true i list = (none, list) := by
      rw [nextStream, if_pos rfl, if_neg (by omega)]
    rw [describe, hnext]
    rfl
  | succ n ih =>
    have hnext : nextStream true i list = (some (i + 1), list) := by
      rw [nextStream, if_pos rfl, if_pos (by omega)]
    have htail := @ih (i + 1) (by omega)
    rw [describe, hnext]
    dsimp only
    rw [← Nat.add_assoc, htail, Option.map_some, List.range'_succ (n := n + 1), List.map_cons]

theorem describe_single (fuel : ℕ) (h : (list.getD i {}).flags &&& ME_AGGREGATE = 0) :
    describe false multicastPort url (fuel + 1) i list =
      some ([(i, streamLines false multicastPort url (list.getD i {}))], list) := by
  have hnext : nextStream false i list = (none, list) := by
    rw [nextStream, if_neg Bool.false_ne_true, if_neg (not_not.mpr h)]
  rw [describe, hnext]

/-- The first stream of an aggregate in the list, which `search_media` finds again each time. -/
structure FoundAgain (i : ℕ) (list : List MediaEntry) : Prop where
  flagged : (list.getD i {}).flags &&& ME_AGGREGATE ≠ 0
  first : searchList (aggregateRequest (list.getD i {}).aggregate) list = some i

theorem FoundAgain.of_same {list' : List MediaEntry} (h : FoundAgain i list)
    (hsame : SameList list' list) : FoundAgain i list' := by
  have haggregate : (list'.getD i {}).aggregate = (list.getD i {}).aggregate := by
    rw [(hsame.stream i).stream]
  refine ⟨?_, ?_⟩
  · rw [(hsame.stream i).aggregate]
    exact h.flagged
  · rw [haggregate, searchList_same hsame]
    exact h.first

theorem describe_foundAgain (fuel : ℕ) (h : FoundAgain i list) :
    describe false multicastPort url fuel i list = none := by
  induction fuel generalizing list with
  | zero => rfl
  | succ fuel ih =>
    have hsame := sameList_unmark i list
    have hnext : nextStream false i list =
        (some i, list.set i (unmark (list.getD i {}))) := by
      rw [nextStream, if_neg Bool.false_ne_true, if_pos h.flagged]
      dsimp only
      rw [searchList_same hsame, h.first]
    rw [describe, hnext]
    dsimp only
    rw [ih (h.of_same hsame), Option.map_none]

end Loop

/-! ### The calls -/

section Calls

variable {host : SdpHost} {d : SDDescr} {url : Bytes} {extended : Bool} {media : ℕ}

/-- What stands in front of the streams, with a stream of priority 1. -/
def headLines (host : SdpHost) (d : SDDescr) (url : Bytes) (p : MediaEntry) : List SdpLine :=
  [.text (lit "v=0"),
    .text (lit "o=fenice " ++ host.sessionId ++ lit " " ++ host.version),
    .text (lit "c=IN IP4 " ++
      if d.flMulticast then d.multicast ++ lit "/32" else host.address),
    .text (lit "s=RTSP Session"),
    .text (lit "i=fenice 1.12 Streaming Server")] ++
    (if p.flags &&& ME_AGGREGATE = 0 then [] else [.control (controlUrl url p.aggregate)]) ++
    [.text (lit "u=" ++ url), .text (lit "t=0 0")]

theorem priority_one (list : List MediaEntry) :
    search_media id (priorityRequest 1) list = list.find? fun p => p.description.priority == 1 := by
  refine congrArg (List.find? · list) (funext fun p => ?_)
  rw [Bool.eq_iff_iff, matches_priorityRequest, beq_iff_eq]
  rfl

theorem none_iff : search_media id (priorityRequest 1) d.meList = none ↔
    (d.meList.all fun p => p.description.priority ≠ 1) = true := by
  rw [priority_one, List.find?_eq_none]
  simp

theorem get_SDP_descr_error (h : (d.meList.all fun p => p.description.priority ≠ 1) = true)
    (fuel : ℕ) : ∃ r, get_SDP_descr host d url extended media fuel = some r ∧ r.res = ERR_PARSE ∧
      r.sections = [] := by
  rw [get_SDP_descr, none_iff.mpr h]
  exact ⟨_, rfl, rfl, rfl⟩

theorem get_SDP_descr_loop (h : ¬ (d.meList.all fun p => p.description.priority ≠ 1) = true) :
    ∃ p, search_media id (priorityRequest 1) d.meList = some p ∧ p ∈ d.meList ∧
      ∀ fuel, get_SDP_descr host d url extended media fuel =
        (describe extended d.flMulticastPort url fuel (if extended then 0 else media)
          (markAll d.meList)).map fun r => ⟨ERR_NOERROR, headLines host d url p, r.1, r.2⟩ := by
  cases hsearch : search_media id (priorityRequest 1) d.meList with
  | none => exact absurd (none_iff.mp hsearch) h
  | some p =>
    refine ⟨p, rfl, (search_media_some hsearch).1, ?_⟩
    intro fuel
    rw [get_SDP_descr, hsearch]
    rfl

theorem get_SDP_descr_extended
    (h : ¬ (d.meList.all fun p => p.description.priority ≠ 1) = true) :
    ∃ p, search_media id (priorityRequest 1) d.meList = some p ∧
      get_SDP_descr host d url true media d.meList.length = some ⟨ERR_NOERROR,
        headLines host d url p, (List.range d.meList.length).map fun i =>
          (i, streamLines true d.flMulticastPort url (d.meList.getD i {})),
        markAll d.meList⟩ := by
  obtain ⟨p, hsearch, hp, hcall⟩ := @get_SDP_descr_loop host d url true media h
  refine ⟨p, hsearch, ?_⟩
  have hpos : 0 < d.meList.length := List.length_pos_of_mem hp
  have hloop := @describe_extended (markAll d.meList) d.flMulticastPort url 0
    (d.meList.length - 1) 0 (by rw [(sameList_markAll _).length]; omega)
  rw [show 0 + (d.meList.length - 1) + 1 = d.meList.length by omega,
    show d.meList.length - 1 + 1 = d.meList.length by omega] at hloop
  have hlines : ∀ i, streamLines true d.flMulticastPort url ((markAll d.meList).getD i {}) =
      streamLines true d.flMulticastPort url (d.meList.getD i {}) :=
    fun i => streamLines_same ((sameList_markAll _).stream i) _ _
  rw [hcall, if_pos rfl, hloop, ← List.range_eq_range']
  simp only [hlines, Option.map_some]

/-- The lines of such a call are those of the description of a whole presentation. -/
theorem streamLines_extended (multicastPort : Bool) (p : MediaEntry) :
    streamLines true multicastPort url p = mediaLines multicastPort url p := by
  by_cases hpriority : p.description.priority = 1 <;> simp [streamLines, mediaLines, hpriority]

theorem map_getD_range {α : Type} (l : List α) (a : α) :
    (List.range l.length).map (l.getD · a) = l := by
  refine List.ext_getElem (by simp) ?_
  intro i hi hl
  rw [List.getElem_map, List.getElem_range, List.getD_eq_getElem _ _ hl]

theorem get_SDP_descr_whole (media : ℕ) : ∃ r,
    get_SDP_descr host d url true media d.meList.length = some r ∧
      (r.res, r.lines) = Mediainfo.get_SDP_descr host d url := by
  by_cases h : (d.meList.all fun p => p.description.priority ≠ 1) = true
  · have hnone := none_iff.mpr h
    refine ⟨_, by rw [get_SDP_descr, hnone], ?_⟩
    rw [priority_one] at hnone
    rw [Mediainfo.get_SDP_descr, hnone]
    exact congrArg (Prod.mk _) (List.append_nil _)
  · obtain ⟨p, hsearch, hcall⟩ := @get_SDP_descr_extended host d url media h
    refine ⟨_, hcall, ?_⟩
    rw [priority_one] at hsearch
    rw [Mediainfo.get_SDP_descr, hsearch]
    have hsections : ((List.range d.meList.length).map fun i =>
        (i, streamLines true d.flMulticastPort url (d.meList.getD i {}))).flatMap Prod.snd =
          d.meList.flatMap (mediaLines d.flMulticastPort url) := by
      conv_rhs => rw [← map_getD_range d.meList {}]
      rw [List.flatMap_map, List.flatMap_map]
      simp only [streamLines_extended]
    simp only [Outcome.lines, headLines, hsections, List.append_assoc]

theorem toDescribe_aggregate (h : ¬ (d.meList.all fun p => p.description.priority ≠ 1) = true)
    (hflag : (d.meList.getD media {}).flags &&& ME_AGGREGATE ≠ 0) {i : ℕ}
    (hi : i ∈ toDescribe d false media) : (d.meList.getD i {}).flags &&& ME_AGGREGATE ≠ 0 := by
  rw [toDescribe, if_neg h, if_neg Bool.false_ne_true, if_neg hflag, List.mem_filter,
    decide_eq_true_eq] at hi
  exact hi.2.1

/-- Without `extended`, the loop over an aggregate finds its first stream again and again, or it
comes to a stream that is in no aggregate. -/
theorem aggregate_fails (hmedia : media < d.meList.length)
    (h : ¬ (d.meList.all fun p => p.description.priority ≠ 1) = true)
    (hflag : (d.meList.getD media {}).flags &&& ME_AGGREGATE ≠ 0) :
    ¬ DescribesEach host d url false media := by
  rintro ⟨fuel, r, hrun, hperm, -⟩
  obtain ⟨p, -, -, hcall⟩ := @get_SDP_descr_loop host d url false media h
  let marked := markAll d.meList
  let left := marked.set media (unmark (marked.getD media {}))
  have hmarked : SameList marked d.meList := sameList_markAll d.meList
  have hleft : SameList left marked := sameList_unmark media marked
  have hin : media < marked.length := by
    rw [hmarked.length]
    exact hmedia
  obtain ⟨j, hj⟩ := searchList_isSome hin rfl
  have hnext : nextStream false media marked = (some j, left) := by
    rw [nextStream, if_neg Bool.false_ne_true, if_pos]
    · dsimp only
      rw [searchList_same hleft, hj]
    · rw [(hmarked.stream media).aggregate]
      exact hflag
  rw [hcall, if_neg Bool.false_ne_true] at hrun
  cases fuel with
  | zero => cases hrun
  | succ fuel =>
    rw [describe, hnext, Option.map_map] at hrun
    obtain ⟨rest, hrest, rfl⟩ := Option.map_eq_some_iff.mp hrun
    by_cases hlast : (left.getD j {}).flags &&& ME_AGGREGATE = 0
    · cases fuel with
      | zero => cases hrest
      | succ fuel =>
        rw [describe_single fuel hlast] at hrest
        cases hrest
        have hdescribed := toDescribe_aggregate h hflag (hperm.subset (show j ∈ [media, j] by simp))
        rw [← (hmarked.stream j).aggregate, ← (hleft.stream j).aggregate] at hdescribed
        exact hdescribed hlast
    · have hagain : FoundAgain j left := by
        refine ⟨hlast, ?_⟩
        rw [(hleft.stream j).stream, (searchList_some hj).2, searchList_same hleft, hj]
      rw [describe_foundAgain fuel hagain] at hrest
      cases hrest

/-- For every presentation and every stream of it: the call ends and writes a section for each
stream that is to be described exactly if these are all streams, or no stream has priority 1, or
the stream has no aggregate. -/
theorem describesEach_iff (hmedia : media < d.meList.length) :
    DescribesEach host d url extended media ↔
      extended = true ∨ (d.meList.all fun p => p.description.priority ≠ 1) = true ∨
        (d.meList.getD media {}).flags &&& ME_AGGREGATE = 0 := by
  by_cases h : (d.meList.all fun p => p.description.priority ≠ 1) = true
  · refine iff_of_true ?_ (.inr (.inl h))
    obtain ⟨r, hrun, -, hnone⟩ := @get_SDP_descr_error host d url extended media h 0
    refine ⟨0, r, hrun, ?_, ?_⟩
    · rw [hnone, toDescribe, if_pos h]
      exact List.Perm.refl _
    · rw [hnone]
      intro s hs
      cases hs
  cases extended with
  | true =>
    refine iff_of_true ?_ (.inl rfl)
    obtain ⟨p, -, hrun⟩ := @get_SDP_descr_extended host d url media h
    refine ⟨_, _, hrun, ?_, ?_⟩
    · have hplaces : ((List.range d.meList.length).map fun i =>
          (i, streamLines true d.flMulticastPort url (d.meList.getD i {}))).map Prod.fst =
            List.range d.meList.length := by
        rw [List.map_map]
        exact List.map_id _
      rw [hplaces, toDescribe, if_neg h, if_pos rfl]
    · intro s hs
      obtain ⟨i, -, rfl⟩ := List.mem_map.mp hs
      rfl
  | false =>
    by_cases hflag : (d.meList.getD media {}).flags &&& ME_AGGREGATE = 0
    · refine iff_of_true ?_ (.inr (.inr hflag))
      obtain ⟨p, -, -, hcall⟩ := @get_SDP_descr_loop host d url false media h
      have hsame := (sameList_markAll d.meList).stream media
      have hloop := @describe_single (markAll d.meList) d.flMulticastPort url media 0
        (by rw [hsame.aggregate]; exact hflag)
      have hrun := hcall (0 + 1)
      rw [if_neg Bool.false_ne_true, hloop, Option.map_some] at hrun
      refine ⟨_, _, hrun, ?_, ?_⟩
      · rw [toDescribe, if_neg h, if_neg Bool.false_ne_true, if_pos hflag]
        exact List.Perm.refl _
      · intro s hs
        rw [List.mem_singleton] at hs
        rw [hs]
        exact streamLines_same hsame _ _
    · refine iff_of_false (aggregate_fails hmedia h hflag) ?_
      rintro (hfalse | hnone | hnot)
      · cases hfalse
      · exact h hnone
      · exact hflag hnot

/-- Two streams of one aggregate. -/
def film : SDDescr where
  filename := lit "f.sd"
  meList := [{ flags := ME_AGGREGATE, aggregate := lit "film", description := { priority := 1 } },
    { flags := ME_AGGREGATE, aggregate := lit "film", description := { priority := 1 } }]

theorem describesEach_film : DescribesEach {} film (lit "f.sd") true 0 :=
  (describesEach_iff (by decide)).mpr (.inl rfl)

/-- The first of the two streams is described again and again. -/
theorem film_endless :
    ¬ ∀ (host : SdpHost) (d : SDDescr) (url : Bytes) (extended : Bool) (media : ℕ),
      media < d.meList.length → DescribesEach host d url extended media := by
  intro hall
  exact aggregate_fails (by decide) (by decide) (by decide) (hall {} film (lit "f.sd") false 0
    (by decide))

end Calls

end Fenice.Mediainfo.Sdp
