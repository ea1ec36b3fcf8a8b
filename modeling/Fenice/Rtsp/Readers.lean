import Fenice.Rtsp.Sweep
import Fenice.Schedule.Buffers

/-!
# What the calls do to the packet buffers

Of all calls only a start, a switch of the medium, the destruction of a session and a
SETUP touch a buffer or its readers.
-/

namespace Fenice.Rtsp
open Fenice.CString Fenice.Schedule Fenice.Run

/-! ### A SETUP -/

theorem media_alloc (st : Streams) (m : ℕ) : (alloc st).media m = st.media m := by
  unfold Streams.media alloc
  rcases Nat.lt_trichotomy m st.entries.length with hlt | rfl | hgt
  · simp [List.getD_eq_getElem?_getD, List.getElem?_append_left hlt]
  · simp [List.getD_eq_getElem?_getD]
  · rw [List.getD_eq_getElem?_getD, List.getD_eq_getElem?_getD,
      List.getElem?_eq_none (by simp; omega),
      List.getElem?_eq_none (show st.entries.length ≤ m by omega)]

/-- The medium of a new session: `x` is its buffer. -/
structure NewMedium (st st' : Streams) (source out : ℕ) (ok : Bool) (x : Option ℕ) : Prop where
  entries : st'.entries.length = st.entries.length + 1
  medium : out = st.entries.length ∨ out = source ∧ (st.media source).live = true
  live : ∀ m < st.entries.length, (st'.media m).live = (st.media m).live
  copies : ok = true → (st'.media out).live = (st.media source).live
  pktBuffer : ∀ m, (st'.media m).pktBuffer = if m = out then x else (st.media m).pktBuffer
  kept : ∀ b, (st.media out).pktBuffer = some b → x = some b
  buffers : st'.buffers = st.buffers ∧ (x = none ∨ x = (st.media source).pktBuffer) ∨
    st'.buffers = st.buffers ++ [some 0] ∧ x = some st.buffers.length
  ok : ok = x.isSome

theorem newMedium_alloc (st : Streams) (source : ℕ) :
    NewMedium st (alloc st) source st.entries.length false none where
  entries := by simp [alloc]
  medium := Or.inl rfl
  live := fun m _ => by rw [media_alloc]
  copies := fun h => absurd h Bool.false_ne_true
  pktBuffer := by
    intro m
    rw [media_alloc]
    split
    · rename_i hm
      rw [hm, Streams.pktBuffer_length]
    · rfl
  kept := by
    intro b hb
    rw [Streams.pktBuffer_length] at hb
    cases hb
  buffers := Or.inl ⟨rfl, Or.inl rfl⟩
  ok := rfl

theorem newMedium_copied {st : Streams} {source : ℕ} {x : Option ℕ}
    (hx : (((alloc st).copied st.entries.length source).2.media
      ((alloc st).copied st.entries.length source).1).pktBuffer = x) :
    NewMedium st ((alloc st).copied st.entries.length source).2 source
      ((alloc st).copied st.entries.length source).1 x.isSome x := by
  unfold Streams.copied at hx ⊢
  rw [media_alloc] at hx ⊢
  by_cases hlive : (st.media source).live = true
  · rw [if_pos hlive] at hx ⊢
    simp only [media_alloc] at hx
    constructor
    · simp [alloc]
    · exact Or.inr ⟨rfl, hlive⟩
    · exact fun m _ => by rw [media_alloc]
    · exact fun _ => by rw [media_alloc]
    · intro m
      rw [media_alloc]
      split
      · rename_i hm
        rw [hm, hx]
      · rfl
    · exact fun b hb => hx.symm.trans hb
    · exact Or.inl ⟨rfl, Or.inr hx.symm⟩
    · rfl
  · rw [if_neg hlive] at hx ⊢
    have hmedia := @Streams.media_setMedia (alloc st) st.entries.length (by simp [alloc])
      (st.media source)
    dsimp only at hx
    rw [hmedia, if_pos rfl] at hx
    constructor
    · simp [alloc, Streams.setMedia]
    · exact Or.inl rfl
    · intro m hm
      rw [hmedia, if_neg (Nat.ne_of_lt hm), media_alloc]
    · exact fun _ => by rw [hmedia, if_pos rfl]
    · intro m
      rw [hmedia]
      split
      · exact hx
      · rw [media_alloc]
    · intro b hb
      rw [Streams.pktBuffer_length] at hb
      cases hb
    · exact Or.inl ⟨rfl, Or.inr hx.symm⟩
    · rfl

theorem copied_live (st : Streams) (source : ℕ) :
    (((alloc st).copied st.entries.length source).2.media
      ((alloc st).copied st.entries.length source).1).live = (st.media source).live := by
  unfold Streams.copied
  rw [media_alloc]
  split
  · exact congrArg MediaEntry.live (media_alloc st source)
  · have hmedia := @Streams.media_setMedia (alloc st) st.entries.length (by simp [alloc])
      (st.media source) st.entries.length
    rw [if_pos rfl] at hmedia
    exact congrArg MediaEntry.live hmedia

theorem newMedium_mediacpy {st st' : Streams} {source out : ℕ} {shmMap ok : Bool}
    (h : mediacpy (alloc st) st.entries.length source shmMap = (out, ok, st')) :
    ∃ x, NewMedium st st' source out ok x := by
  cases Streams.mediacpy_cases h with
  | kind => exact ⟨none, newMedium_alloc st source⟩
  | mapped none => exact ⟨_, newMedium_copied none⟩
  | shared b some => exact ⟨_, newMedium_copied some⟩
  | fresh none =>
    have hc := newMedium_copied none
    have hbuf : ((alloc st).copied st.entries.length source).2.buffers = st.buffers :=
      Streams.copied_buffers ..
    have hlt : ((alloc st).copied st.entries.length source).1 <
        ((alloc st).copied st.entries.length source).2.entries.length := by
      rw [hc.entries]
      rcases hc.medium with he | ⟨he, hlive⟩
      · omega
      · have := Streams.lt_of_live hlive
        omega
    set o := ((alloc st).copied st.entries.length source).1 with ho
    set u := ((alloc st).copied st.entries.length source).2 with hu
    have hmedia : ∀ m, (u.newBuffer o).media m =
        if m = o then { u.media o with pktBuffer := some u.buffers.length } else u.media m :=
      Streams.media_setMedia hlt _
    refine ⟨some st.buffers.length, ?_⟩
    constructor
    · rw [← hc.entries]
      simp [Streams.newBuffer, Streams.setMedia]
    · exact hc.medium
    · intro m hm
      rw [hmedia, ← hc.live m hm]
      split
      · rename_i he
        rw [he]
      · rfl
    · intro _
      rw [hmedia, if_pos rfl]
      exact copied_live st source
    · intro m
      rw [hmedia]
      split
      · rw [hbuf]
      · rename_i hne
        rw [hc.pktBuffer, if_neg hne]
    · intro b hb
      have := hc.kept b hb
      cases this
    · refine Or.inr ⟨?_, rfl⟩
      rw [← hbuf]
      rfl
    · rfl

theorem newMedium_copyMedia {w : World} {m out : ℕ} {c : Chosen} {ok : Bool} {st : Streams}
    (h : copyMedia w m c = (out, ok, st)) :
    ∃ x, NewMedium c.st st m out (ok && c.dad) x := by
  unfold copyMedia at h
  split at h
  · rename_i hdad
    rw [hdad, Bool.and_true]
    exact newMedium_mediacpy h
  · rename_i hdad
    cases h
    rw [Bool.eq_false_iff.mpr hdad, Bool.and_false]
    exact ⟨none, newMedium_alloc c.st m⟩

theorem NewMedium.entered {st st₂ st' : Streams} {source : ℕ} {ok : Bool} {x : Option ℕ}
    {r : RTPSession} (h : NewMedium st st₂ source r.currentMedia ok x)
    (hheap : st'.heap = (st.heap ++ [none]).set st.heap.length (some r))
    (hentries : st'.entries = st₂.entries) (hbuffers : st'.buffers = st₂.buffers)
    (hcons : r.cons = none) (hstart : r.started = false)
    (hdad : r.isMulticastDad = ok) : st.Entered st' source r := by
  have hmedia : ∀ m, st'.media m = st₂.media m := by
    intro m
    unfold Streams.media
    rw [hentries]
  constructor
  · exact hheap
  · exact hcons
  · exact hstart
  · rw [hentries, h.entries]
  · exact h.medium
  · intro m hm
    rw [hmedia, h.live m hm]
  · intro hd
    rw [hmedia, h.copies (hdad.symm.trans hd)]
  · intro m b hb
    rw [hmedia, h.pktBuffer]
    split
    · rename_i hm
      exact h.kept b (hm ▸ hb)
    · exact hb
  · rw [hbuffers, hmedia, h.pktBuffer, if_pos rfl]
    rcases h.buffers with ⟨he, -⟩ | he
    · exact Or.inl he
    · exact Or.inr he
  · intro m b hb
    rw [hmedia, h.pktBuffer] at hb
    split at hb
    · rename_i hm
      have hd : r.isMulticastDad = true := by rw [hdad, h.ok, hb, Option.isSome_some]
      rw [hbuffers]
      rcases h.buffers with ⟨-, hx | hx⟩ | ⟨he, hx⟩
      · rw [hx] at hb
        cases hb
      · exact Or.inr ⟨hm, hd, Or.inl (hx ▸ hb)⟩
      · rw [hx] at hb
        exact Or.inr ⟨hm, hd, Or.inr ⟨he, (Option.some.inj hb).symm⟩⟩
    · exact Or.inl hb
  · intro hd
    rw [hmedia, h.pktBuffer, if_pos rfl]
    exact Option.isSome_iff_exists.mp (h.ok.symm.trans (hdad.symm.trans hd))

theorem Took.frame {w : World} {rtsp : RTSPBuffer} {st : Streams} {d m : ℕ} {c : Chosen}
    {o : Offer} (h : Took w rtsp st d m c o) :
    ∃ portPool sds, c.st = { st with portPool := portPool, sds := sds } := by
  cases h with
  | unicast ser port =>
    obtain ⟨i, -, he⟩ := Option.map_eq_some_iff.mp port
    simp only [Prod.mk.injEq] at he
    rw [← he.2]
    exact ⟨_, _, rfl⟩
  | multicast eq =>
    rw [eq]
    unfold chooseMulticast
    dsimp only
    split <;> exact ⟨_, _, rfl⟩
  | tcp same =>
    rw [same]
    exact ⟨_, _, rfl⟩

/-! ### All calls -/

/-- What a call does to the buffers and their readers. -/
inductive Change (st : Streams) : Call → Streams → Prop
  | kept {c : Call} {st' : Streams} (same : st.Kept st') : Change st c st'
  | started {id : ℤ} (i : Fin oneForkMaxConnection) (s : ℕ) (r : RTPSession) (b n : ℕ)
      (index : Streams.index id = some i) (holds : (st.sched i).rtpSession = some s)
      (session : st.session s = some r) (buffer : (st.media r.currentMedia).pktBuffer = some b)
      (count : st.refs b = some n) :
      Change st (.start id) ((st.setRefs b (some (BufferPool.incr16 n))).setSession s
        (some { r with cons := some b, pause := false, started := true }))
  | switched {turn : Turn} {st' : Streams} (i : Fin oneForkMaxConnection) (s : ℕ)
      (r : RTPSession) (m : ℕ) (position : st.position = some i)
      (valid : (st.sched i).valid = true) (holds : (st.sched i).rtpSession = some s)
      (session : st.session s = some r) (unpaused : r.pause = false)
      (switch : turn.switch = some m) (same : (st.stream_switch s r m).Kept st') :
      Change st (.tick turn) st'
  | destroyed {turn : Turn} {t st' : Streams} (i : Fin oneForkMaxConnection) (s : ℕ)
      (r : RTPSession) (position : st.position = some i) (invalid : (st.sched i).valid = false)
      (holds : (st.sched i).rtpSession = some s) (session : st.session s = some r)
      (dad : r.isMulticastDad = true) (destroy : st.RTP_session_destroy s r = some t)
      (same : t.Kept st') : Change st (.tick turn) st'
  | entered {w : World} {inp : Bytes} {rtsp : RTSPBuffer} {object : Bytes} {d m : ℕ}
      {tkns : List Bytes} {st' : Streams} (r : RTPSession) (enter : st.Entered st' m r)
      (reaches : r.isMulticastDad = true →
        ∃ c, reachesAdd w inp rtsp d m tkns st = some c ∧ c.dad = true) :
      Change st (.setup w inp rtsp object d m tkns) st'

theorem kept_look (st : Streams) (object : Bytes) (found : ParsedSD) :
    st.Kept (enum_media st object found).2 := by
  have hnew : ∀ file, st.Kept (st.newMedia file) := by
    intro file
    have hmedia : ∀ m < st.entries.length, (st.newMedia file).media m = st.media m := by
      intro m hm
      simp [Streams.media, Streams.newMedia, List.getD_eq_getElem?_getD,
        List.getElem?_append_left hm]
    constructor
    · rfl
    · exact fun _ => rfl
    · exact fun _ r hr hs => ⟨r, hr, hs⟩
    · simp [Streams.newMedia]
    · intro m
      by_cases hm : m < st.entries.length
      · rw [hmedia m hm]
      · have hnone : (st.media m).pktBuffer = none := by
          rw [Streams.media, List.getD_eq_getElem?_getD, List.getElem?_eq_none (by omega)]
          rfl
        rw [hnone]
        simp only [Streams.media, Streams.newMedia, List.getD_eq_getElem?_getD]
        rw [List.getElem?_append_right (by omega), List.getElem?_map]
        cases file[m - st.entries.length]? <;> rfl
    · intro m hm
      rw [hmedia m hm]
    · rfl
  have hsds : ∀ (u : Streams) (sds : List (Option SDDescr)), u.Kept { u with sds := sds } :=
    fun u sds => ⟨rfl, fun _ => rfl, fun _ r hr hs => ⟨r, hr, hs⟩, le_rfl, fun _ => rfl,
      fun _ _ => rfl, rfl⟩
  unfold enum_media
  cases found with
  | error res => exact hsds st _
  | unchanged => exact hsds st _
  | parsed file => exact (hnew file.streams).trans (hsds _ _)

theorem setup_change {st st' : Streams} {w : World} {inp : Bytes} {rtsp : RTSPBuffer}
    {object : Bytes} {d m : ℕ} {tkns : List Bytes}
    (h : callStep st (.setup w inp rtsp object d m tkns) = some st') :
    Change st (.setup w inp rtsp object d m tkns) st' := by
  obtain ⟨⟨rc, rtsp', st₁⟩, hfrom, rfl⟩ := Option.map_eq_some_iff.mp h
  rcases setupFrom_cases hfrom with ⟨r, -, -, -, hst⟩ | ⟨c, hc, hfin⟩
  · dsimp only
    rw [hst]
    exact .kept (.refl st)
  · obtain ⟨o, tkn, -, htook⟩ := chooseTransport_took hc
    obtain ⟨portPool, sds, hcst⟩ := htook.frame
    have hback : ∀ {u : Streams} {r : RTPSession}, c.st.Entered u m r → st.Entered u m r := by
      intro u r he
      rw [hcst] at he
      exact ⟨he.heap, he.cons, he.started, he.entries, he.medium, he.live, he.copies, he.kept,
        he.buffers, he.pktBuffer, he.dad⟩
    cases hfin with
    | noSession =>
      dsimp only
      rw [hcst]
      exact .kept ⟨rfl, fun _ => rfl, fun _ r hr hs => ⟨r, hr, hs⟩, le_rfl, fun _ => rfl,
        fun _ _ => rfl, rfl⟩
    | notCopied id _ out st₂ hcopy =>
      obtain ⟨x, hx⟩ := newMedium_copyMedia hcopy
      obtain ⟨entries, buffers, rfl⟩ := copyMedia_frame hcopy
      exact .entered (halfSession object out)
        (hback (NewMedium.entered (r := halfSession object out) hx rfl rfl rfl rfl rfl rfl))
        (fun hd => absurd hd Bool.false_ne_true)
    | entered sessionId hsession out st₂ hcopy id st₃ ha =>
      have hreach : reachesAdd w inp rtsp d m tkns st = some c := by
        simp only [reachesAdd, hc, hsession, hcopy, if_true]
      obtain ⟨x, hx⟩ := newMedium_copyMedia hcopy
      rw [Bool.true_and] at hx
      obtain ⟨entries, buffers, rfl⟩ := copyMedia_frame hcopy
      refine .entered (fullSession w object d out c id) (hback
        (NewMedium.entered (r := fullSession w object d out c id) hx ?_ ?_ ?_ rfl rfl rfl))
        (fun hd => ⟨c, hreach, hd⟩)
      all_goals
        rcases Streams.add_cases { c.st with heap := c.st.heap ++ [none], entries := entries, buffers := buffers } c.st.heap.length c.dad with
          ⟨j, -, he⟩ | ⟨-, he⟩
        · rw [ha] at he
          cases he
          rfl
        · rw [ha] at he
          cases he
          rfl

theorem call_change {st st' : Streams} {c : Call} (h : callStep st c = some st') :
    Change st c st' := by
  cases c with
  | look object found =>
    cases h
    exact .kept (kept_look st object found)
  | setup => exact setup_change h
  | start id =>
    obtain ⟨i, s, r, b, n, hi, hs, hr, hb, hn, rfl⟩ := Streams.start_cases h
    exact .started i s r b n hi hs hr hb hn
  | resume id =>
    obtain ⟨i, s, r, -, -, hr, rfl⟩ := Streams.resume_cases h
    exact .kept (Streams.kept_setSession hr rfl (fun hs => hs))
  | pause s =>
    obtain ⟨r, hr, rfl⟩ := Option.map_eq_some_iff.mp h
    exact .kept (Streams.kept_setSession hr rfl (fun hs => hs))
  | remove id =>
    obtain ⟨i, -, ⟨s, -, rfl⟩ | ⟨-, rfl⟩⟩ := Streams.remove_cases h
    · exact .kept ⟨rfl, fun _ => rfl, fun _ r hr hs => ⟨r, hr, hs⟩, le_rfl, fun _ => rfl,
        fun _ _ => rfl, rfl⟩
    · exact .kept ⟨rfl, fun _ => rfl, fun _ r hr hs => ⟨r, hr, hs⟩, le_rfl, fun _ => rfl,
        fun _ _ => rfl, rfl⟩
  | tick turn =>
    have hmoved : ∀ (u : Streams) (position : Option (Fin oneForkMaxConnection)),
        u.Kept { u with position := position } := fun u _ =>
      ⟨rfl, fun _ => rfl, fun _ r hr hs => ⟨r, hr, hs⟩, le_rfl, fun _ => rfl, fun _ _ => rfl, rfl⟩
    rcases Streams.tick_cases h with ⟨position, rfl⟩ | ⟨i, t, hpos, hv, rfl⟩
    · exact .kept (hmoved st position)
    · cases hv with
      | idle => exact .kept (hmoved _ _)
      | sent s r _ _ hr _ _ stop =>
        exact .kept ((Streams.kept_stopped hr stop).trans (hmoved _ _))
      | switched s r hv hs hr hp m hsw stop =>
        have hr' : (st.stream_switch s r m).session s = some { r with currentMedia := m } := by
          rw [Streams.session_switch hr, if_pos rfl]
        exact .switched i s r m hpos hv hs hr hp hsw
          ((Streams.kept_stopped hr' stop).trans (hmoved _ _))
      | destroyed s r hv hs hr hd t hdestroy =>
        refine .destroyed i s r hpos hv hs hr hd hdestroy ?_
        exact ⟨rfl, fun _ => rfl, fun _ r hr hs => ⟨r, hr, hs⟩, le_rfl, fun _ => rfl,
          fun _ _ => rfl, rfl⟩

/-- If an unpaused session moves to another entry of its presentation, nobody else
writes a different buffer through that entry. -/
def SwitchesFree (st : Streams) (turn : Turn) : Prop :=
  ∀ i ∈ st.position, (st.sched i).valid = true → ∀ p ∈ st.held i, p.2.pause = false →
    ∀ m ∈ turn.switch, st.SwitchFree p.1 p.2 m

instance (st : Streams) (turn : Turn) : Decidable (SwitchesFree st turn) := by
  unfold SwitchesFree
  infer_instance

/-- A start does not wrap the count of the buffer around. -/
def CountFits (st : Streams) (id : ℤ) : Prop :=
  ∀ i ∈ Streams.index id, ∀ p ∈ st.held i, ∀ b ∈ (st.media p.2.currentMedia).pktBuffer,
    ∀ n ∈ st.refs b, n < 65535

instance (st : Streams) (id : ℤ) : Decidable (CountFits st id) := by
  unfold CountFits
  infer_instance

end Fenice.Rtsp
