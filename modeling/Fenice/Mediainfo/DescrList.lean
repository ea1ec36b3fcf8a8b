import Fenice.Lib.Linked
import Fenice.Lib.Run
import Fenice.Mediainfo.Reload

/-!
# The pointers of the presentation cache (mediainfo/enum_media.c)

`enum_media` looks through the list, appends to it and takes out of it with one
pointer to the descriptor in front, which the search leaves behind. Here the
list is the linked one that the source has; `enum_media` on a list of
descriptors is what it comes to.
-/

namespace Fenice.Mediainfo
open Fenice.CString Fenice.Linked Fenice.Run

/-- `SD_global_list`, and the descriptors that are allocated. -/
structure Cache where
  memory : Memory SDDescr
  sdGlobalList : Option ℕ

/-- A call, with what `stat` and the loaders find at that time and the address
that `xnew0` would give. -/
structure CacheCall where
  object : Bytes
  load : Loader
  file : Option StoredFile
  new : ℕ

namespace Cache

/-- The loop over the list, which stops behind a match: `matching_descr` and
`last_descr`. `none` if an address is followed where no descriptor is. -/
def findDescr (m : Memory SDDescr) (object : Bytes) :
    ℕ → Option ℕ → Option ℕ → Option (Option ℕ × Option ℕ)
  | 0, _, _ => none
  | _ + 1, none, last => some (none, last)
  | fuel + 1, some r, last =>
    (m.get r).bind fun c =>
      if c.value.filename = object then some (some r, last)
      else findDescr m object fuel c.next (some r)

/-- A descriptor with the name comes behind the last one. -/
def addDescr (c : Cache) (object : Bytes) (new : ℕ) (last : Option ℕ) : Option Cache :=
  let node : Option (Cell SDDescr) := some ⟨{ filename := object }, none⟩
  if c.sdGlobalList = none then some ⟨c.memory.put new node, some new⟩
  else
    last.bind fun l => (c.memory.get l).map fun cell =>
      { c with memory := (c.memory.put l (some { cell with next := some new })).put new node }

/-- The list is walked through at most once: a chain of descriptors that differ
is no longer than the memory. -/
def locate (c : Cache) (object : Bytes) (new : ℕ) : Option (ℕ × Option ℕ × Cache) :=
  (findDescr c.memory object (c.memory.length + 1) c.sdGlobalList none).bind fun
    | (some r, last) => some (r, last, c)
    | (none, last) => (c.addDescr object new last).map fun c => (new, last, c)

/-- The descriptor is taken out of the list and freed. -/
def dropDescr (c : Cache) (r : ℕ) : Option ℕ → Option Cache
  | none =>
    c.sdGlobalList.bind fun first => (c.memory.get first).map fun cell =>
      ⟨c.memory.put r none, cell.next⟩
  | some l =>
    (c.memory.get l).bind fun cl => (c.memory.get r).map fun cr =>
      { c with memory := (c.memory.put l (some { cl with next := cr.next })).put r none }

/-- `enum_media`, with the address that is handed out in `*d`. -/
def enum_media (c : Cache) (call : CacheCall) : Option (Except ℤ ℕ × Cache) :=
  (c.locate call.object call.new).bind fun (r, last, c) =>
    (c.memory.get r).bind fun cell =>
      (parse_SD_file call.load call.file cell.value).bind fun
        | .ok d =>
          some (.ok r, { c with memory := c.memory.put r (some { cell with value := d }) })
        | .error res => (c.dropDescr r last).map fun c => (.error res, c)

/-- A call in a run. `xnew0` gives an address that is not in use. -/
def step (c : Cache) (call : CacheCall) : Option Cache :=
  if c.memory.get call.new = none then (c.enum_media call).map Prod.snd else none

def start : Cache := ⟨[], none⟩

/-- What the cache holds: the addresses and the descriptors, in order. -/
def Holds (c : Cache) (cells : List (ℕ × SDDescr)) : Prop :=
  IsList c.memory c.sdGlobalList cells

end Cache

/-- None of the descriptors has the name. -/
def Unnamed (object : Bytes) (cells : List (ℕ × SDDescr)) : Prop :=
  ∀ p ∈ cells, p.2.filename ≠ object

section
variable {c c' : Cache} {m : Memory SDDescr} {object : Bytes} {cells xs ys : List (ℕ × SDDescr)}
  {a b last : Option ℕ} {r new : ℕ} {v d : SDDescr}

theorem findDescr_passes (h : Chain m a xs b) (hxs : Unnamed object xs) (fuel : ℕ) :
    Cache.findDescr m object (fuel + xs.length) a last =
      Cache.findDescr m object fuel b (lastOf xs last) := by
  induction xs generalizing a last with
  | nil =>
    cases h
    rfl
  | cons x xs ih =>
    obtain ⟨rfl, n, hn, h⟩ := h
    have hx := hxs x (List.mem_cons_self ..)
    rw [List.length_cons, ← Nat.add_assoc, Cache.findDescr, hn, Option.bind_some, if_neg hx,
      ih h fun p hp => hxs p (List.mem_cons_of_mem _ hp), lastOf_cons]

theorem unnamed_or_found (object : Bytes) (cells : List (ℕ × SDDescr)) :
    Unnamed object cells ∨ ∃ xs r v ys, cells = xs ++ (r, v) :: ys ∧ Unnamed object xs ∧
      v.filename = object := by
  induction cells with
  | nil =>
    left
    intro p hp
    cases hp
  | cons x cells ih =>
    by_cases hx : x.2.filename = object
    · right
      refine ⟨[], x.1, x.2, cells, rfl, ?_, hx⟩
      intro p hp
      cases hp
    · rcases ih with h | ⟨xs, r, v, ys, rfl, h, hv⟩
      · left
        intro p hp
        rcases List.mem_cons.mp hp with rfl | hp
        · exact hx
        · exact h p hp
      · right
        refine ⟨x :: xs, r, v, ys, rfl, ?_, hv⟩
        intro p hp
        rcases List.mem_cons.mp hp with rfl | hp
        · exact hx
        · exact h p hp

theorem locate_found (h : c.Holds (xs ++ (r, v) :: ys)) (hxs : Unnamed object xs)
    (hv : v.filename = object) (new : ℕ) :
    c.locate object new = some (r, lastOf xs none, c) := by
  have hle := h.length_le
  rw [List.length_append, List.length_cons] at hle
  obtain ⟨n, hn, hfront, -⟩ := h.at_cell
  have hfuel : c.memory.length + 1 = (c.memory.length - xs.length) + 1 + xs.length := by omega
  rw [Cache.locate, hfuel, findDescr_passes hfront hxs, Cache.findDescr, hn, Option.bind_some,
    if_pos hv]
  rfl

theorem addDescr_holds (h : c.Holds cells) (hnew : c.memory.get new = none) :
    ∃ c', c.addDescr object new (lastOf cells none) = some c' ∧
      c'.Holds (cells ++ [(new, { filename := object })]) := by
  rcases List.eq_nil_or_concat cells with rfl | ⟨xs, ⟨l, u⟩, rfl⟩
  · have hhead : c.sdGlobalList = none := h.chain
    refine ⟨⟨c.memory.put new (some ⟨{ filename := object }, none⟩), some new⟩, ?_,
      IsList.single c.memory new { filename := object }⟩
    rw [Cache.addDescr, if_pos hhead]
  · rw [List.concat_eq_append] at h ⊢
    obtain ⟨n, hn, hfront, -⟩ := IsList.at_cell h
    have hhead : c.sdGlobalList ≠ none := by
      intro he
      rw [he] at hfront
      cases xs with
      | nil => cases hfront
      | cons x xs =>
        obtain ⟨hx, -⟩ := hfront
        cases hx
    refine ⟨⟨_, c.sdGlobalList⟩, ?_, IsList.append h hn hnew { filename := object }⟩
    rw [Cache.addDescr, if_neg hhead, lastOf_concat, Option.bind_some, hn]
    rfl

theorem locate_added (h : c.Holds cells) (hcells : Unnamed object cells)
    (hnew : c.memory.get new = none) :
    ∃ c', c.locate object new = some (new, lastOf cells none, c') ∧
      c'.Holds (cells ++ [(new, { filename := object })]) := by
  have hle := h.length_le
  have hadded : ∃ c', c.addDescr object new (lastOf cells none) = some c' ∧
      c'.Holds (cells ++ [(new, { filename := object })]) := addDescr_holds h hnew
  obtain ⟨c', hadd, hholds⟩ := hadded
  have hfuel : c.memory.length + 1 = (c.memory.length - cells.length) + 1 + cells.length := by omega
  refine ⟨c', ?_, hholds⟩
  rw [Cache.locate, hfuel, findDescr_passes h.chain hcells, Cache.findDescr, Option.bind_some]
  simp only [hadd, Option.map_some]

theorem dropDescr_holds (h : c.Holds (xs ++ (r, v) :: ys)) :
    ∃ c', c.dropDescr r (lastOf xs none) = some c' ∧ c'.Holds (xs ++ ys) := by
  obtain ⟨n, hn, hfront, -⟩ := h.at_cell
  rcases List.eq_nil_or_concat xs with rfl | ⟨xs, ⟨l, u⟩, rfl⟩
  · have hhead : c.sdGlobalList = some r := hfront
    refine ⟨⟨c.memory.put r none, n⟩, ?_, IsList.dropFirst h hn⟩
    rw [show lastOf ([] : List (ℕ × SDDescr)) none = none from rfl, Cache.dropDescr, hhead,
      Option.bind_some, hn]
    rfl
  · rw [List.concat_eq_append] at h ⊢
    have hsplit : xs ++ [(l, u)] ++ (r, v) :: ys = xs ++ (l, u) :: ((r, v) :: ys) := by simp
    obtain ⟨k, hk, -⟩ := IsList.at_cell (hsplit ▸ h)
    refine ⟨⟨_, c.sdGlobalList⟩, ?_, IsList.dropNext h hk hn⟩
    rw [lastOf_concat, Cache.dropDescr, hk, Option.bind_some, hn]
    rfl

/-- Where a call finds its descriptor, or puts it: behind `xs` and in front of `ys`. -/
structure Located (object : Bytes) (cells xs : List (ℕ × SDDescr)) (r : ℕ) (v : SDDescr)
    (ys : List (ℕ × SDDescr)) : Prop where
  front : Unnamed object xs
  name : v.filename = object
  was : cells = xs ++ (r, v) :: ys ∨ cells = xs ∧ ys = [] ∧ v = { filename := object }

theorem locate_holds (h : c.Holds cells) (hnew : c.memory.get new = none) (object : Bytes) :
    ∃ xs r v ys c', Located object cells xs r v ys ∧
      c.locate object new = some (r, lastOf xs none, c') ∧ c'.Holds (xs ++ (r, v) :: ys) := by
  rcases unnamed_or_found object cells with hcells | ⟨xs, r, v, ys, rfl, hxs, hv⟩
  · obtain ⟨c', hlocate, hholds⟩ := locate_added h hcells hnew
    exact ⟨cells, new, { filename := object }, [], c', ⟨hcells, rfl, .inr ⟨rfl, rfl, rfl⟩⟩,
      hlocate, hholds⟩
  · exact ⟨xs, r, v, ys, c, ⟨hxs, hv, .inl rfl⟩, locate_found h hxs hv new, h⟩

theorem parse_SD_file_filename {load : Loader} {file : Option StoredFile}
    (h : parse_SD_file load file v = some (.ok d)) : d.filename = v.filename := by
  cases file with
  | none => cases h
  | some file => rw [(parse_SD_file_ok h).2, (putAll_frame _ _).1]

/-- Once the descriptor is there, the file is read into it, or it is taken out. -/
theorem enum_media_located {call : CacheCall}
    (hlocate : c.locate call.object call.new = some (r, lastOf xs none, c'))
    (hholds : c'.Holds (xs ++ (r, v) :: ys)) :
    match parse_SD_file call.load call.file v with
    | none => c.enum_media call = none
    | some (.ok d) =>
      ∃ c₂, c.enum_media call = some (.ok r, c₂) ∧ c₂.Holds (xs ++ (r, d) :: ys)
    | some (.error res) =>
      ∃ c₂, c.enum_media call = some (.error res, c₂) ∧ c₂.Holds (xs ++ ys) := by
  obtain ⟨n, hn, -⟩ := hholds.at_cell
  cases hparse : parse_SD_file call.load call.file v with
  | none =>
    simp only [Cache.enum_media, hlocate, Option.bind_some, hn, hparse, Option.bind_none]
  | some result =>
    cases result with
    | error res =>
      obtain ⟨c₂, hdrop, hc₂⟩ := dropDescr_holds hholds
      refine ⟨c₂, ?_, hc₂⟩
      simp only [Cache.enum_media, hlocate, Option.bind_some, hn, hparse, hdrop, Option.map_some]
    | ok d =>
      refine ⟨⟨_, c'.sdGlobalList⟩, ?_, IsList.write hholds hn d⟩
      simp only [Cache.enum_media, hlocate, Option.bind_some, hn, hparse]
      rfl

namespace Located

variable (h : Located object cells xs r v ys)
include h

theorem listIndex : listIndex (cells.map Prod.snd) object = xs.length := by
  have hfront : ∀ d ∈ xs.map Prod.snd, (d.filename == object) = false := by
    intro d hd
    obtain ⟨p, hp, rfl⟩ := List.mem_map.mp hd
    exact beq_eq_false_iff_ne.mpr (h.front p hp)
  have hxs : (xs.map Prod.snd).findIdx (fun d => d.filename == object) = xs.length := by
    have hlen : (xs.map Prod.snd).length = xs.length := List.length_map Prod.snd
    rw [← hlen]
    exact List.findIdx_eq_length.mpr hfront
  unfold Mediainfo.listIndex
  rcases h.was with rfl | ⟨rfl, -, -⟩
  · have hv : (v.filename == object) = true := beq_iff_eq.mpr h.name
    rw [List.map_append, List.findIdx_append, hxs, List.length_map, if_neg (Nat.lt_irrefl _),
      List.map_cons, List.findIdx_cons, hv, cond_true, Nat.zero_add]
  · exact hxs

theorem withDescr : withDescr (cells.map Prod.snd) object = (xs ++ (r, v) :: ys).map Prod.snd := by
  have hindex := h.listIndex
  unfold Mediainfo.withDescr
  rw [hindex]
  rcases h.was with rfl | ⟨rfl, rfl, rfl⟩
  · rw [if_pos]
    simp
  · rw [if_neg (by simp)]
    simp

theorem descrFor : descrFor (cells.map Prod.snd) object = v := by
  have hindex := h.listIndex
  unfold Mediainfo.descrFor
  rw [hindex]
  rcases h.was with rfl | ⟨rfl, -, rfl⟩
  · simp
  · simp

theorem others : (cells.filter fun p => decide (p.2.filename ≠ object)) =
    (xs ++ ys).filter fun p => decide (p.2.filename ≠ object) := by
  rcases h.was with rfl | ⟨rfl, rfl, -⟩
  · rw [List.filter_append, List.filter_append, List.filter_cons_of_neg (by simpa using h.name)]
  · rw [List.append_nil]

end Located

/-- The two levels: what the pointers are left with is what `enum_media` says of the list. -/
theorem enum_media_refines {call : CacheCall} (h : c.Holds cells)
    (hnew : c.memory.get call.new = none) :
    match Mediainfo.enum_media call.load (cells.map Prod.snd) call.object call.file with
    | none => c.enum_media call = none
    | some (.ok d, list) => ∃ r c' cells', c.enum_media call = some (.ok r, c') ∧
        c'.Holds cells' ∧ cells'.map Prod.snd = list ∧ (r, d) ∈ cells'
    | some (.error res, list) => ∃ c' cells', c.enum_media call = some (.error res, c') ∧
        c'.Holds cells' ∧ cells'.map Prod.snd = list := by
  obtain ⟨xs, r, v, ys, c', hloc, hlocate, hholds⟩ := locate_holds h hnew call.object
  have hresult := enum_media_located hlocate hholds
  rw [Mediainfo.enum_media, hloc.descrFor, hloc.listIndex, hloc.withDescr, List.map_append,
    List.map_cons]
  cases hparse : parse_SD_file call.load call.file v with
  | none =>
    rw [hparse] at hresult
    exact hresult
  | some result =>
    rw [hparse] at hresult
    have hlen : (xs.map Prod.snd).length = xs.length := List.length_map Prod.snd
    cases result with
    | error res =>
      obtain ⟨c₂, henum, hc₂⟩ := hresult
      refine ⟨c₂, xs ++ ys, henum, hc₂, ?_⟩
      rw [← hlen, List.eraseIdx_append_of_length_le (Nat.le_refl _),
        Nat.sub_self, List.eraseIdx_cons_zero, List.map_append]
    | ok d =>
      obtain ⟨c₂, henum, hc₂⟩ := hresult
      refine ⟨r, c₂, xs ++ (r, d) :: ys, henum, hc₂, ?_, by simp⟩
      rw [← hlen, List.set_append_right _ _ (Nat.le_refl _),
        Nat.sub_self, List.set_cons_zero, List.map_append, List.map_cons]

/-- No two descriptors have one name. -/
def Cache.Distinct (cells : List (ℕ × SDDescr)) : Prop :=
  (cells.map fun p => p.2.filename).Nodup

/-- What a call does to the descriptors: the one of its object is handed out, or there is none
left, and the others are what they were, in the order in which they were. -/
structure Cache.Serves (object : Bytes) (cells : List (ℕ × SDDescr)) (result : Except ℤ ℕ)
    (cells' : List (ℕ × SDDescr)) : Prop where
  distinct : Cache.Distinct cells'
  others : (cells'.filter fun p => decide (p.2.filename ≠ object)) =
    cells.filter fun p => decide (p.2.filename ≠ object)
  handsOut : ∀ r, result = .ok r → ∃ d, (r, d) ∈ cells' ∧ d.filename = object
  leavesNone : ∀ res, result = .error res → Unnamed object cells'

theorem Located.distinct (h : Located object cells xs r v ys) (hd : Cache.Distinct cells) :
    Cache.Distinct (xs ++ (r, v) :: ys) := by
  rcases h.was with rfl | ⟨rfl, rfl, -⟩
  · exact hd
  · unfold Cache.Distinct at hd ⊢
    rw [List.map_append, List.nodup_append]
    refine ⟨hd, List.nodup_singleton _, ?_⟩
    intro x hx y hy
    obtain ⟨p, hp, rfl⟩ := List.mem_map.mp hx
    rw [List.map_singleton, List.mem_singleton] at hy
    rw [hy, h.name]
    exact h.front p hp

theorem Cache.Distinct.behind (hd : Cache.Distinct (xs ++ (r, v) :: ys)) :
    Unnamed v.filename ys := by
  intro p hp he
  unfold Cache.Distinct at hd
  rw [List.map_append, List.map_cons, List.nodup_append] at hd
  exact (List.nodup_cons.mp hd.2.1).1 (List.mem_map.mpr ⟨p, hp, he⟩)

theorem Located.serves_ok (h : Located object cells xs r v ys) (hd : Cache.Distinct cells)
    (hname : d.filename = v.filename) :
    Cache.Serves object cells (.ok r) (xs ++ (r, d) :: ys) where
  distinct := by
    have hdistinct := h.distinct hd
    unfold Cache.Distinct at hdistinct ⊢
    rw [List.map_append, List.map_cons] at hdistinct ⊢
    rwa [hname]
  others := by
    have hd' := hname.trans h.name
    rw [h.others, List.filter_append, List.filter_append,
      List.filter_cons_of_neg (by simpa using hd')]
  handsOut := by
    intro r' hr
    cases hr
    exact ⟨d, by simp, hname.trans h.name⟩
  leavesNone := by
    intro res hres
    cases hres

theorem Located.serves_error (h : Located object cells xs r v ys) (hd : Cache.Distinct cells)
    (res : ℤ) : Cache.Serves object cells (.error res) (xs ++ ys) where
  distinct := by
    have hdistinct := h.distinct hd
    unfold Cache.Distinct at hdistinct ⊢
    rw [List.map_append, List.map_cons] at hdistinct
    rw [List.map_append]
    exact hdistinct.sublist ((List.sublist_cons_self _ _).append_left _)
  others := h.others.symm
  handsOut := by
    intro r' hr
    cases hr
  leavesNone := by
    intro res' _ p hp
    rcases List.mem_append.mp hp with hp | hp
    · exact h.front p hp
    · have hbehind := (h.distinct hd).behind
      rw [h.name] at hbehind
      exact hbehind p hp

/-- A call never follows a null pointer: it is undefined only where reading the file is. -/
theorem enum_media_serves {call : CacheCall} (h : c.Holds cells) (hd : Cache.Distinct cells)
    (hnew : c.memory.get call.new = none) :
    (c.enum_media call = none ↔ parse_SD_file call.load call.file
      (descrFor (cells.map Prod.snd) call.object) = none) ∧
    ∀ result c', c.enum_media call = some (result, c') →
      ∃ cells', c'.Holds cells' ∧ Cache.Serves call.object cells result cells' := by
  obtain ⟨xs, r, v, ys, c', hloc, hlocate, hholds⟩ := locate_holds h hnew call.object
  have hresult := enum_media_located hlocate hholds
  rw [hloc.descrFor]
  cases hparse : parse_SD_file call.load call.file v with
  | none =>
    rw [hparse] at hresult
    refine ⟨⟨fun _ => rfl, fun _ => hresult⟩, ?_⟩
    intro result c₂ henum
    rw [hresult] at henum
    cases henum
  | some result =>
    rw [hparse] at hresult
    cases result with
    | error res =>
      obtain ⟨c₂, henum, hc₂⟩ := hresult
      rw [henum]
      refine ⟨by simp, ?_⟩
      intro result c₃ he
      rw [Option.some.injEq, Prod.mk.injEq] at he
      obtain ⟨rfl, rfl⟩ := he
      exact ⟨xs ++ ys, hc₂, hloc.serves_error hd res⟩
    | ok d =>
      obtain ⟨c₂, henum, hc₂⟩ := hresult
      rw [henum]
      refine ⟨by simp, ?_⟩
      intro result c₃ he
      rw [Option.some.injEq, Prod.mk.injEq] at he
      obtain ⟨rfl, rfl⟩ := he
      exact ⟨xs ++ (r, d) :: ys, hc₂, hloc.serves_ok hd (parse_SD_file_filename hparse)⟩

/-- The invariant of the cache. -/
def Cache.Consistent (c : Cache) : Prop := ∃ cells, c.Holds cells ∧ Cache.Distinct cells

theorem Cache.Consistent.step {call : CacheCall} (h : c.Consistent)
    (hstep : c.step call = some c') : c'.Consistent := by
  obtain ⟨cells, hholds, hd⟩ := h
  unfold Cache.step at hstep
  split_ifs at hstep with hnew
  obtain ⟨⟨result, c₂⟩, henum, rfl⟩ := Option.map_eq_some_iff.mp hstep
  obtain ⟨cells', hholds', hserves⟩ := (enum_media_serves hholds hd hnew).2 result c₂ henum
  exact ⟨cells', hholds', hserves.distinct⟩

end

theorem Cache.Consistent.run {calls : List CacheCall} {c c' : Cache} (h : c.Consistent)
    (hrun : exec Cache.step c calls = some c') : c'.Consistent := by
  induction calls generalizing c with
  | nil =>
    cases hrun
    exact h
  | cons call calls ih =>
    rw [exec_cons] at hrun
    obtain ⟨c₁, hstep, hrun⟩ := Option.bind_eq_some_iff.mp hrun
    exact ih (h.step hstep) hrun

/-- After any calls the cache is a list of descriptors with different names, and every further
call does to it what it has to. -/
theorem cache_consistent (calls : List CacheCall) {c : Cache}
    (hrun : exec Cache.step Cache.start calls = some c) :
    ∃ cells, c.Holds cells ∧ Cache.Distinct cells ∧
      ∀ call : CacheCall, c.memory.get call.new = none →
        (c.enum_media call = none ↔ parse_SD_file call.load call.file
          (descrFor (cells.map Prod.snd) call.object) = none) ∧
        ∀ result c', c.enum_media call = some (result, c') →
          ∃ cells', c'.Holds cells' ∧ Cache.Serves call.object cells result cells' := by
  have hstart : Cache.start.Consistent := ⟨[], IsList.nil _, List.nodup_nil⟩
  obtain ⟨cells, hholds, hd⟩ := hstart.run hrun
  exact ⟨cells, hholds, hd, fun call hnew => enum_media_serves hholds hd hnew⟩

/-- A presentation is read, another one behind it, and the file of the first is gone. -/
def threeCalls : List CacheCall :=
  [⟨lit "a.sd", loadVideo, some ⟨1, lit "TWIN x\n"⟩, 0⟩,
    ⟨lit "b.sd", loadVideo, some ⟨2, lit "TWIN y\n"⟩, 1⟩, ⟨lit "a.sd", loadVideo, none, 2⟩]

theorem three_calls_consistent :
    ∃ c, (exec Cache.step Cache.start threeCalls = some c ∧ c.sdGlobalList = some 1) ∧
      ∃ cells, c.Holds cells ∧ Cache.Distinct cells ∧
        ∀ call : CacheCall, c.memory.get call.new = none →
          (c.enum_media call = none ↔ parse_SD_file call.load call.file
            (descrFor (cells.map Prod.snd) call.object) = none) ∧
          ∀ result c', c.enum_media call = some (result, c') →
            ∃ cells', c'.Holds cells' ∧ Cache.Serves call.object cells result cells' := by
  have hhead : (exec Cache.step Cache.start threeCalls).map Cache.sdGlobalList = some (some 1) := by
    decide +kernel
  obtain ⟨c, hrun, hc⟩ := Option.map_eq_some_iff.mp hhead
  exact ⟨c, ⟨hrun, hc⟩, cache_consistent threeCalls hrun⟩

end Fenice.Mediainfo
