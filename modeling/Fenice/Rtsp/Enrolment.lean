import Fenice.Rtsp.Atomic
import Mathlib.Data.Fintype.Card

/-!
# Who is in the schedule

`client_count` says whether the scheduler thread has something to do. It is counted with the
sessions that the connections list, each of which names its entry by `sched_id`.
-/

namespace Fenice.Rtsp
open Fenice.CString Fenice.Schedule Fenice.Run

/-- The entries with `valid`. -/
def validEntries (st : Streams) : Finset (Fin oneForkMaxConnection) :=
  Finset.univ.filter fun i => (st.sched i).valid = true

/-- The RTP sessions that the connections list. -/
def Server.listed (sv : Server) : List ℕ :=
  sv.connections.flatMap fun p => (p.map RTSPBuffer.sessions).getD []

/-- `sched_id` of the session is the index of a valid entry that holds it. -/
def InSchedule (st : Streams) (s : ℕ) : Prop :=
  ∃ r i, st.session s = some r ∧ Streams.index r.schedId = some i ∧ (st.sched i).valid = true ∧
    (st.sched i).rtpSession = some s

/-- The counter is that of the valid entries, every listed session is in the schedule, and a
session that was added is listed or was removed once. -/
structure CountedOnce (sv : Server) : Prop where
  count : sv.st.clientCount = (validEntries sv.st).card
  entries : ∀ s ∈ sv.listed, InSchedule sv.st s
  once : ∀ s, sv.st.log.count (.removed s) + sv.listed.count s = sv.st.log.count (.added s) ∧
    sv.st.log.count (.added s) ≤ 1

/-- A SETUP whose checks pass finds an entry of the schedule. -/
def SetupEnters (w : World) (inp : Bytes) (rtsp : RTSPBuffer) (st : Streams) : Prop :=
  ∀ d m o st₁, Reaches w inp rtsp st d m o st₁ → passes (setupSession w inp) = true →
    ∃ i, (st.sched i).valid = false

/-- The same for a step of the server. -/
def StepEnters (sv : Server) : Act → Prop
  | .request k w inp => ∀ rtsp ∈ sv.connection k, ∀ seq, CallsSetup inp rtsp seq →
    SetupEnters w inp rtsp sv.st
  | _ => True

@[simp] theorem mem_validEntries {st : Streams} {i : Fin oneForkMaxConnection} :
    i ∈ validEntries st ↔ (st.sched i).valid = true := by
  simp [validEntries]

theorem card_validEntries (st : Streams) : (validEntries st).card ≤ 100 :=
  (Finset.card_le_univ _).trans_eq (Fintype.card_fin _)

/-! ### The invariant -/

/-- The schedule with the listed sessions `l`. -/
structure Enrolled (st : Streams) (l : List ℕ) : Prop where
  count : st.clientCount = (validEntries st).card
  entries : ∀ s ∈ l, InSchedule st s
  only : ∀ s ∈ l, ∀ i j, (st.sched i).rtpSession = some s → (st.sched j).rtpSession = some s → i = j
  old : ∀ i s, (st.sched i).rtpSession = some s → s < st.heap.length
  once : ∀ s, st.log.count (.removed s) + l.count s = st.log.count (.added s)
  single : ∀ s, st.log.count (.added s) ≤ if s < st.heap.length then 1 else 0

/-- Nothing has happened to the table and the numbers of its entries. -/
structure SameEnrolment (st st' : Streams) : Prop where
  sched : st'.sched = st.sched
  clientCount : st'.clientCount = st.clientCount
  log : st'.log = st.log
  size : st'.heap.length = st.heap.length
  ids : ∀ s r, st.session s = some r → ∃ r', st'.session s = some r' ∧ r'.schedId = r.schedId

namespace SameEnrolment

variable {st st' st'' : Streams}

theorem of_heap (hs : st'.sched = st.sched) (hc : st'.clientCount = st.clientCount)
    (hl : st'.log = st.log) (hh : st'.heap = st.heap) : SameEnrolment st st' where
  sched := hs
  clientCount := hc
  log := hl
  size := by rw [hh]
  ids := by
    intro s r hr
    refine ⟨r, ?_, rfl⟩
    rw [Streams.session, hh]
    exact hr

theorem refl (st : Streams) : SameEnrolment st st := of_heap rfl rfl rfl rfl

theorem trans (h : SameEnrolment st st') (h' : SameEnrolment st' st'') : SameEnrolment st st'' where
  sched := h'.sched.trans h.sched
  clientCount := h'.clientCount.trans h.clientCount
  log := h'.log.trans h.log
  size := h'.size.trans h.size
  ids := by
    intro s r hr
    obtain ⟨r', hr', hid⟩ := h.ids s r hr
    obtain ⟨r'', hr'', hid'⟩ := h'.ids s r' hr'
    exact ⟨r'', hr'', hid'.trans hid⟩

theorem setSession {s : ℕ} {r r' : RTPSession} (hr : st.session s = some r)
    (hid : r'.schedId = r.schedId) : SameEnrolment st (st.setSession s (some r')) where
  sched := rfl
  clientCount := rfl
  log := rfl
  size := List.length_set
  ids := by
    intro t q hq
    rw [Streams.session_setSession (Streams.lt_of_session hr)]
    split_ifs with ht
    · rw [ht, hr] at hq
      cases hq
      exact ⟨r', rfl, hid⟩
    · exact ⟨q, hq, rfl⟩

theorem stopped {s : ℕ} {r : RTPSession} (hr : st.session s = some r) (stop : Bool) :
    SameEnrolment st (st.stopped s r stop) := by
  cases stop with
  | true => exact setSession hr rfl
  | false => exact refl st

theorem look (object : Bytes) (found : ParsedSD) :
    SameEnrolment st (enum_media st object found).2 := by
  rw [enum_media]
  cases found <;> exact of_heap rfl rfl rfl rfl

end SameEnrolment

section Enrolled

variable {st st' : Streams} {l l' : List ℕ} {s : ℕ}

theorem validEntries_congr (h : st'.sched = st.sched) : validEntries st' = validEntries st := by
  rw [validEntries, validEntries, h]

theorem Enrolled.kept (h : Enrolled st l) (hs : SameEnrolment st st') : Enrolled st' l where
  count := by rw [hs.clientCount, h.count, validEntries_congr hs.sched]
  entries := by
    intro s hl
    obtain ⟨r, i, hr, hi, hv, he⟩ := h.entries s hl
    obtain ⟨r', hr', hid⟩ := hs.ids s r hr
    exact ⟨r', i, hr', hid ▸ hi, hs.sched ▸ hv, hs.sched ▸ he⟩
  only := by
    rw [hs.sched]
    exact h.only
  old := by
    rw [hs.sched, hs.size]
    exact h.old
  once := by
    rw [hs.log]
    exact h.once
  single := by
    rw [hs.log, hs.size]
    exact h.single

theorem Enrolled.perm (h : Enrolled st l) (hp : l.Perm l') : Enrolled st l' where
  count := h.count
  entries := fun s hs => h.entries s (hp.mem_iff.mpr hs)
  only := fun s hs => h.only s (hp.mem_iff.mpr hs)
  old := h.old
  once := fun s => hp.count_eq s ▸ h.once s
  single := h.single

theorem Enrolled.nodup (h : Enrolled st l) : l.Nodup := by
  rw [List.nodup_iff_count_le_one]
  intro s
  have honce := h.once s
  have hsingle := h.single s
  split_ifs at hsingle <;> omega

theorem InSchedule.lt (h : InSchedule st s) : s < st.heap.length := by
  obtain ⟨r, i, hr, -⟩ := h
  exact Streams.lt_of_session hr

theorem Enrolled.removed {r : RTPSession} (h : Enrolled st (s :: l)) (hr : st.session s = some r)
    (he : st.schedule_remove r.schedId = some st') : Enrolled st' l := by
  obtain ⟨r₀, i, hr₀, hi, hv, hs⟩ := h.entries s List.mem_cons_self
  rw [hr] at hr₀
  cases hr₀
  have hst' : st' = (st.unlist i).note (.removed s) := by
    obtain ⟨i', hi', hcase⟩ := Streams.remove_cases he
    rw [hi] at hi'
    cases hi'
    rcases hcase with ⟨s', hs', hst'⟩ | ⟨hnone, -⟩
    · rw [hs] at hs'
      cases hs'
      exact hst'
    · rw [hs] at hnone
      cases hnone
  subst hst'
  have hnodup := List.nodup_cons.mp h.nodup
  have hvalid : validEntries ((st.unlist i).note (.removed s)) = (validEntries st).erase i := by
    ext j
    rw [Finset.mem_erase, mem_validEntries, mem_validEntries]
    simp only [Streams.note, Streams.unlist, Streams.setEntry]
    by_cases hj : j = i
    · subst hj
      simp
    · simp [hj]
  have hrtp : ∀ j, (((st.unlist i).note (.removed s)).sched j).rtpSession =
      (st.sched j).rtpSession := by
    intro j
    simp only [Streams.note, Streams.unlist, Streams.setEntry]
    by_cases hj : j = i
    · subst hj
      simp
    · simp [hj]
  constructor
  · have hmem : i ∈ validEntries st := mem_validEntries.mpr hv
    have hpos := Finset.card_pos.mpr ⟨i, hmem⟩
    have hle := card_validEntries st
    rw [hvalid, Finset.card_erase_of_mem hmem]
    change decrSize st.clientCount = _
    rw [h.count, decrSize]
    omega
  · intro t ht
    obtain ⟨q, j, hq, hj, hvj, hsj⟩ := h.entries t (List.mem_cons_of_mem s ht)
    have hne : j ≠ i := by
      rintro rfl
      rw [hs] at hsj
      cases hsj
      exact hnodup.1 ht
    refine ⟨q, j, hq, hj, ?_, (hrtp j).trans hsj⟩
    simp only [Streams.note, Streams.unlist, Streams.setEntry, Function.update_of_ne hne]
    exact hvj
  · intro t ht j k hj hk
    rw [hrtp] at hj hk
    exact h.only t (List.mem_cons_of_mem s ht) j k hj hk
  · intro j t hj
    rw [hrtp] at hj
    exact h.old j t hj
  · intro t
    have honce := h.once t
    have hlog : ((st.unlist i).note (.removed s)).log = st.log ++ [.removed s] := rfl
    rw [hlog, List.count_append, List.count_append, List.count_singleton, List.count_singleton]
    rw [List.count_cons] at honce
    have hadded : (Event.removed s == Event.added t) = false := by simp
    by_cases hts : s = t
    · subst hts
      simp at honce ⊢
      omega
    · simp [hts] at honce ⊢
      omega
  · intro t
    have hlog : ((st.unlist i).note (.removed s)).log = st.log ++ [.removed s] := rfl
    rw [hlog, List.count_append]
    have hsingle := h.single t
    have hzero : List.count (Event.added t) [.removed s] = 0 := by simp
    rw [hzero, Nat.add_zero]
    exact hsingle

theorem Enrolled.entered {i : Fin oneForkMaxConnection} {r : RTPSession} {dad : Bool}
    (h : Enrolled st l) (hi : (st.sched i).valid = false) (hid : r.schedId = i)
    (hlen : st'.heap.length = st.heap.length + 1) (hnew : st'.session st.heap.length = some r)
    (hold : ∀ s q, st.session s = some q → st'.session s = some q)
    (hsched : st'.sched = Function.update st.sched i
      { valid := true, rtpSession := some st.heap.length, playAction := dad })
    (hcount : st'.clientCount = incrSize st.clientCount)
    (hlog : st'.log = st.log ++ [.added st.heap.length]) : Enrolled st' (st.heap.length :: l) := by
  have hself : (st'.sched i).valid = true ∧ (st'.sched i).rtpSession = some st.heap.length := by
    rw [hsched]
    simp
  have hother : ∀ j, j ≠ i → st'.sched j = st.sched j := by
    intro j hj
    rw [hsched, Function.update_of_ne hj]
  have hvalid : validEntries st' = insert i (validEntries st) := by
    ext j
    rw [Finset.mem_insert, mem_validEntries, mem_validEntries]
    by_cases hj : j = i
    · subst hj
      simp [hself.1]
    · simp [hj, hother j hj]
  have hfree : i ∉ validEntries st := by
    rw [mem_validEntries, hi]
    exact Bool.false_ne_true
  have hindex : Streams.index r.schedId = some i := by
    have hlt := i.isLt
    rw [hid, Streams.index, dif_pos ⟨by omega, by omega⟩]
    rfl
  have hnot : st.heap.length ∉ l := fun hmem => absurd (h.entries _ hmem).lt (lt_irrefl _)
  constructor
  · have hle := card_validEntries st
    rw [hvalid, Finset.card_insert_of_notMem hfree, hcount, h.count, incrSize]
    omega
  · intro s hs
    rcases List.mem_cons.mp hs with rfl | hs
    · exact ⟨r, i, hnew, hindex, hself⟩
    · obtain ⟨q, j, hq, hj, hv, he⟩ := h.entries s hs
      have hne : j ≠ i := by
        rintro rfl
        rw [hi] at hv
        cases hv
      exact ⟨q, j, hold s q hq, hj, by rw [hother j hne]; exact ⟨hv, he⟩⟩
  · intro s hs j k hj hk
    -- an entry that was there before holds no new session
    have hwas : ∀ j, (st'.sched j).rtpSession = some s → j ≠ i →
        (st.sched j).rtpSession = some s := by
      intro j hj hne
      rwa [hother j hne] at hj
    rcases List.mem_cons.mp hs with rfl | hs
    · have hnew : ∀ j, (st'.sched j).rtpSession = some st.heap.length → j = i := by
        intro j hj
        by_contra hne
        exact absurd (h.old j _ (hwas j hj hne)) (lt_irrefl _)
      rw [hnew j hj, hnew k hk]
    · have hne : ∀ j, (st'.sched j).rtpSession = some s → j ≠ i := by
        rintro j hj rfl
        rw [hself.2] at hj
        cases hj
        exact hnot hs
      exact h.only s hs j k (hwas j hj (hne j hj)) (hwas k hk (hne k hk))
  · intro j s hj
    rw [hlen]
    by_cases hne : j = i
    · rw [hne, hself.2] at hj
      cases hj
      exact Nat.lt_succ_self _
    · rw [hother j hne] at hj
      exact Nat.lt_succ_of_lt (h.old j s hj)
  · intro s
    have honce := h.once s
    rw [hlog, List.count_append, List.count_append, List.count_singleton, List.count_singleton,
      List.count_cons]
    by_cases hs : st.heap.length = s
    · subst hs
      simp
      omega
    · simp [hs]
      omega
  · intro s
    have hsingle := h.single s
    rw [hlog, hlen, List.count_append, List.count_singleton]
    by_cases hs : st.heap.length = s
    · subst hs
      rw [if_neg (lt_irrefl _)] at hsingle
      simp
      omega
    · have hbeq : (Event.added st.heap.length == Event.added s) = false := by simp [hs]
      simp only [hbeq, Bool.false_eq_true, if_false, Nat.add_zero]
      refine hsingle.trans ?_
      split_ifs <;> omega

theorem Enrolled.destroyed {i : Fin oneForkMaxConnection} (h : Enrolled st l)
    (hi : (st.sched i).valid = false) (hs : (st.sched i).rtpSession = some s)
    (hsched : st'.sched = Function.update st.sched i { st.sched i with rtpSession := none })
    (hcount : st'.clientCount = st.clientCount) (hlog : st'.log = st.log ++ [.destroyed s])
    (hlen : st'.heap.length = st.heap.length)
    (hold : ∀ t q, t ≠ s → st.session t = some q → st'.session t = some q) : Enrolled st' l := by
  have hvalid : ∀ j, (st'.sched j).valid = (st.sched j).valid := by
    intro j
    rw [hsched]
    by_cases hj : j = i
    · subst hj
      simp
    · simp [hj]
  have hback : ∀ j t, (st'.sched j).rtpSession = some t → (st.sched j).rtpSession = some t := by
    intro j t hj
    rw [hsched] at hj
    by_cases hji : j = i
    · subst hji
      simp at hj
    · rwa [Function.update_of_ne hji] at hj
  constructor
  · rw [hcount, h.count]
    congr 1
    ext j
    rw [mem_validEntries, mem_validEntries, hvalid]
  · intro t ht
    obtain ⟨q, j, hq, hj, hv, he⟩ := h.entries t ht
    have hne : j ≠ i := by
      rintro rfl
      rw [hi] at hv
      cases hv
    have hts : t ≠ s := by
      rintro rfl
      exact hne (h.only t ht j i he hs)
    refine ⟨q, j, hold t q hts hq, hj, (hvalid j).trans hv, ?_⟩
    rw [hsched, Function.update_of_ne hne, he]
  · intro t ht j k hj hk
    exact h.only t ht j k (hback j t hj) (hback k t hk)
  · intro j t hj
    rw [hlen]
    exact h.old j t (hback j t hj)
  · intro t
    rw [hlog, List.count_append, List.count_append, ← h.once t]
    simp
  · intro t
    rw [hlog, hlen, List.count_append]
    simpa using h.single t

theorem Enrolled.tick {turn : Turn} (h : Enrolled st l) (he : st.schedule_do turn = some st') :
    Enrolled st' l := by
  have hposition : ∀ {st : Streams} (position : Option (Fin oneForkMaxConnection)), Enrolled st l →
      Enrolled { st with position := position } l := fun position h =>
    h.kept (.of_heap rfl rfl rfl rfl)
  rcases Streams.tick_cases he with ⟨position, rfl⟩ | ⟨i, t, -, hvisit, rfl⟩
  · exact hposition position h
  apply hposition
  cases hvisit with
  | idle => exact h
  | sent s r _ _ hr _ _ stop => exact h.kept (.stopped hr stop)
  | switched s r _ _ hr _ m _ stop =>
    have hswitched : (st.stream_switch s r m).session s = some { r with currentMedia := m } :=
      (Streams.session_switch hr s).trans (if_pos rfl)
    refine h.kept (SameEnrolment.trans ?_ (.stopped hswitched stop))
    have hmedia : SameEnrolment st (st.setMedia m { st.media m with
        pktBuffer := (st.media r.currentMedia).pktBuffer }) := .of_heap rfl rfl rfl rfl
    have hr' : (st.setMedia m { st.media m with
        pktBuffer := (st.media r.currentMedia).pktBuffer }).session s = some r := hr
    exact hmedia.trans (.setSession hr' rfl)
  | destroyed s r hinvalid hholds hr _ t hdestroy =>
    obtain ⟨st₁, st₂, b, n, hclose, hunref, -, -, rfl⟩ := Streams.destroy_cases hdestroy
    obtain ⟨portPool, sds, closed, rfl⟩ := Streams.close_cases hclose
    obtain ⟨-, buffers, rfl, -⟩ := Streams.unref_cases hunref
    have hlt := Streams.lt_of_session hr
    split_ifs with hn
    · refine h.destroyed hinvalid hholds rfl rfl rfl List.length_set fun t q hts hq => ?_
      exact (Streams.session_setSession hlt none t).trans (by rw [if_neg hts]; exact hq)
    · refine h.destroyed hinvalid hholds rfl rfl rfl List.length_set fun t q hts hq => ?_
      exact (Streams.session_setSession hlt none t).trans (by rw [if_neg hts]; exact hq)

end Enrolled

/-! ### The loops over the sessions -/

section Loops

variable {st st' : Streams} {l : List ℕ}

theorem start_same {id : ℤ} (h : st.schedule_start id = some st') : SameEnrolment st st' := by
  obtain ⟨i, s, r, b, n, -, -, hr, -, -, rfl⟩ := Streams.start_cases h
  have hrefs : SameEnrolment st (st.setRefs b (some (BufferPool.incr16 n))) :=
    .of_heap rfl rfl rfl rfl
  have hr' : (st.setRefs b (some (BufferPool.incr16 n))).session s = some r := hr
  exact hrefs.trans (.setSession hr' rfl)

theorem resume_same {id : ℤ} (h : st.schedule_resume id = some st') : SameEnrolment st st' := by
  obtain ⟨i, s, r, -, -, hr, rfl⟩ := Streams.resume_cases h
  exact .setSession hr rfl

theorem playTarget_same {session : RTSPSession} {t : Target}
    (h : (playTarget session st t).run = some (.ok st')) : SameEnrolment st st' :=
  playTarget_rel .refl (fun _ _ _ => .trans) (fun _ _ _ => start_same) (fun _ _ _ => resume_same) h

theorem pauseLoop_same {list : List ℕ} (h : pauseLoop list st = some st') :
    SameEnrolment st st' :=
  pauseLoop_rel .refl (fun _ _ _ => .trans) (fun _ _ _ hr => .setSession hr rfl) h

theorem Enrolled.teardownLoop {filename : Bytes} {list left : List ℕ}
    (h : Enrolled st (list ++ l)) (he : teardownLoop filename list st = some (left, st')) :
    Enrolled st' (left ++ l) := by
  induction list generalizing st left l with
  | nil =>
    cases he
    exact h
  | cons s rest ih =>
    obtain ⟨r, hr, he⟩ := Option.bind_eq_some_iff.mp he
    dsimp only at he
    split_ifs at he
    · obtain ⟨st₁, h₁, he⟩ := Option.bind_eq_some_iff.mp he
      exact ih (h.removed hr h₁) he
    · obtain ⟨⟨left', st₁⟩, h₁, he⟩ := Option.map_eq_some_iff.mp he
      cases he
      exact (ih (h.perm List.perm_middle.symm) h₁).perm List.perm_middle

theorem Enrolled.closeLoop {list : List ℕ} (h : Enrolled st (list ++ l))
    (he : closeLoop list st = some st') : Enrolled st' l := by
  induction list generalizing st with
  | nil =>
    cases he
    exact h
  | cons s rest ih =>
    obtain ⟨r, hr, he⟩ := Option.bind_eq_some_iff.mp he
    obtain ⟨st₁, h₁, he⟩ := Option.bind_eq_some_iff.mp he
    exact ih (h.removed hr h₁) he

end Loops

/-! ### The methods -/

/-- What a method returns is enrolled again, with the sessions `l` of the other connections. -/
def Enrols (l : List ℕ) (x : Handled) : Prop :=
  ∀ out, x = some out → Enrolled out.2.2 (out.2.1.sessions ++ l)

section Methods

variable {w : World} {inp : Bytes} {rtsp rtsp₁ rtsp₂ : RTSPBuffer} {st st' : Streams} {l : List ℕ}

theorem sessions_congr (h : rtsp₁.sessionList = rtsp.sessionList) :
    rtsp₁.sessions = rtsp.sessions := by
  rw [RTSPBuffer.sessions, RTSPBuffer.sessions, h]

theorem send_sessions {cap : ℕ} {r : Reply} (h : send cap r rtsp = some rtsp₁) :
    rtsp₁.sessions = rtsp.sessions :=
  sessions_congr (by rw [send_eq_some h])

theorem Enrolled.cseq (h : Enrolled st (rtsp.sessions ++ l)) (n : ℕ) :
    Enrolled st (({ rtsp with rtspCseq := n } : RTSPBuffer).sessions ++ l) := by
  have hsame : RTSPBuffer.sessions { rtsp with rtspCseq := n } = rtsp.sessions :=
    sessions_congr rfl
  rw [hsame]
  exact h

theorem Enrols.check {α : Type} {x : Checks α} {k : α → Handled}
    (h : Enrolled st (rtsp.sessions ++ l)) (hk : ∀ a, x.run = some (.ok a) → Enrols l (k a)) :
    Enrols l (check rtsp st x k) := by
  intro out ho
  rcases check_eq_some.mp ho with ⟨r, -, rfl⟩ | ⟨a, ha, ho⟩
  · dsimp only
    rw [send_reply_sessions]
    exact h
  · exact hk a ha out ho

theorem Enrols.logged {x : Option RTSPBuffer} (h : Enrolled st (rtsp.sessions ++ l))
    (hx : ∀ rtsp₁, x = some rtsp₁ → rtsp₁.sessions = rtsp.sessions) :
    Enrols l (x.bind fun rtsp => (logUserAgent inp).map fun _ => (errNoerror, rtsp, st)) := by
  intro out ho
  obtain ⟨rtsp₁, hs, hl⟩ := Option.bind_eq_some_iff.mp ho
  obtain ⟨_, _, rfl⟩ := Option.map_eq_some_iff.mp hl
  rw [hx rtsp₁ hs]
  exact h

theorem get_media_descr_same (w : World) (object : Bytes) (st : Streams) :
    SameEnrolment st (get_media_descr w object st).2 := by
  rcases get_media_descr_streams w object st with he | he <;> rw [he]
  · exact .look object w.file
  · exact .refl st

theorem redirect_enrols {object : Bytes} (h : Enrolled st (rtsp.sessions ++ l)) :
    Enrols l (send_redirect_3xx w object rtsp st) := by
  have hagain : Enrolled (enum_media st object w.file.again).2 (rtsp.sessions ++ l) :=
    h.kept (.look object w.file.again)
  rw [send_redirect_3xx]
  obtain ⟨res, st₂, he⟩ : ∃ res st₂, enum_media st object w.file.again = (res, st₂) := ⟨_, _, rfl⟩
  rw [he] at hagain ⊢
  cases res with
  | error e =>
    intro out ho
    cases ho
    dsimp only
    rw [send_reply_sessions]
    exact hagain
  | ok d =>
    dsimp only
    split
    · intro out ho
      obtain ⟨rtsp₁, hs, rfl⟩ := Option.map_eq_some_iff.mp ho
      rw [send_redirect] at hs
      dsimp only
      rw [send_sessions hs]
      exact hagain
    · intro out ho
      cases ho
      dsimp only
      rw [send_reply_sessions]
      exact hagain

theorem describe_enrols (h : Enrolled st (rtsp.sessions ++ l)) :
    Enrols l (RTSP_describe w inp rtsp st) := by
  rw [RTSP_describe]
  refine Enrols.check h fun u _ => Enrols.check h fun n _ => ?_
  have hget := (h.cseq n).kept (get_media_descr_same w u.object st)
  dsimp only
  refine Enrols.check hget fun _ _ => ?_
  by_cases hw : w.maxConnection = true
  · rw [if_pos hw]
    exact redirect_enrols hget
  · rw [if_neg hw]
    refine Enrols.logged hget fun rtsp₁ hs => ?_
    rw [send_describe_reply] at hs
    exact send_sessions hs

theorem options_enrols (h : Enrolled st (rtsp.sessions ++ l)) :
    Enrols l (RTSP_options inp rtsp st) := by
  rw [RTSP_options]
  refine Enrols.check h fun n _ => Enrols.logged (h.cseq n) fun rtsp₁ hs => ?_
  rw [send_options_reply] at hs
  exact send_sessions hs

theorem play_enrols (h : Enrolled st (rtsp.sessions ++ l)) :
    Enrols l (RTSP_play w inp rtsp st) := by
  rw [RTSP_play]
  refine Enrols.check h fun n _ => ?_
  have hn := h.cseq n
  refine Enrols.check hn fun r _ => Enrols.check hn fun session _ =>
    Enrols.check hn fun st₁ ht => ?_
  refine Enrols.logged (hn.kept (playTarget_same ht)) fun rtsp₁ hs => ?_
  rw [send_play_reply] at hs
  split_ifs at hs
  obtain ⟨rs, -, hs⟩ := Option.bind_eq_some_iff.mp hs
  exact send_sessions hs

theorem pause_enrols (h : Enrolled st (rtsp.sessions ++ l)) :
    Enrols l (RTSP_pause w inp rtsp st) := by
  rw [RTSP_pause]
  refine Enrols.check h fun n _ => ?_
  have hn := h.cseq n
  refine Enrols.check hn fun id _ => Enrols.check hn fun session _ => ?_
  intro out ho
  obtain ⟨st₁, h₁, ho⟩ := Option.bind_eq_some_iff.mp ho
  refine Enrols.logged (hn.kept (pauseLoop_same h₁)) (fun rtsp₁ hs => ?_) out ho
  rw [send_pause_reply] at hs
  exact send_sessions hs

theorem teardown_enrols (h : Enrolled st (rtsp.sessions ++ l)) :
    Enrols l (RTSP_teardown w inp rtsp st) := by
  rw [RTSP_teardown]
  refine Enrols.check h fun n _ => ?_
  have hn := h.cseq n
  refine Enrols.check hn fun r _ => Enrols.check hn fun session hsession => ?_
  intro out ho
  obtain ⟨rtsp₂, hs, ho⟩ := Option.bind_eq_some_iff.mp ho
  obtain ⟨_, _, ho⟩ := Option.bind_eq_some_iff.mp ho
  obtain ⟨⟨left, st₁⟩, h₁, rfl⟩ := Option.map_eq_some_iff.mp ho
  have hlist : rtsp.sessionList = some session := (sameSession_ok hsession).1
  have hsessions : rtsp.sessions = session.rtpSession := by rw [RTSPBuffer.sessions, hlist]
  rw [hsessions] at h
  have hleft := h.teardownLoop h₁
  dsimp only
  rw [RTSPBuffer.sessions]
  split_ifs with hnil
  · rw [hnil] at hleft
    exact hleft
  · exact hleft

theorem longer_sessions (h : rtsp₁.sessionList = rtsp.sessionList) (s : ℕ) :
    (longer rtsp₁ s).rtpSession = rtsp.sessions ++ [s] := by
  rw [longer, RTSPBuffer.rtspSession, RTSPBuffer.sessions, h]
  cases rtsp.sessionList <;> rfl

theorem Enrolled.setUp {object : Bytes} {d m out : ℕ} {c : Chosen} {id : ℤ} {st₂ st₃ : Streams}
    (h : Enrolled c.st l) (hfree : ∃ i, (c.st.sched i).valid = false)
    (hc : copyMedia w m c = (out, true, st₂))
    (ha : st₂.schedule_add c.st.heap.length c.dad = (id, st₃)) :
    Enrolled (st₃.setSession c.st.heap.length (some (fullSession w object d out c id)))
      (c.st.heap.length :: l) := by
  obtain ⟨entries, buffers, rfl⟩ := copyMedia_frame hc
  rcases Streams.add_cases
    { c.st with heap := c.st.heap ++ [none], entries := entries, buffers := buffers }
    c.st.heap.length c.dad with ⟨i, hi, he⟩ | ⟨hfull, -⟩
  · rw [he, Prod.mk.injEq] at ha
    obtain ⟨rfl, rfl⟩ := ha
    have hinvalid : (c.st.sched i).valid = false := Streams.firstInvalid_invalid hi
    refine h.entered hinvalid rfl ?_ ((Streams.session_new rfl _).trans (if_pos rfl)) ?_ rfl rfl rfl
    · change ((c.st.heap ++ [none]).set _ _).length = _
      rw [List.length_set, List.length_append, List.length_singleton]
    · intro s q hq
      exact (Streams.session_new rfl s).trans ((if_neg (Streams.lt_of_session hq).ne).trans hq)
  · obtain ⟨i, hi⟩ := hfree
    rw [Streams.firstInvalid, List.find?_eq_none] at hfull
    have hused := hfull i (List.mem_finRange i)
    dsimp only at hused
    rw [hi] at hused
    exact absurd rfl hused

theorem setup_enrols (ha : Accepted st) (hg : SetupEnters w inp rtsp st)
    (h : Enrolled st (rtsp.sessions ++ l)) : Enrols l (RTSP_setup w inp rtsp st) := by
  intro out ho
  cases setup_chose ho with
  | refused same log =>
    rw [sessions_congr same.sessionList]
    exact h.kept (.of_heap same.sched same.clientCount log same.heap)
  | @chosen d m n o c object st₁ reaches same log took finish =>
    obtain ⟨rc, rtsp', st'⟩ := out
    obtain ⟨hentries, hheap, hsched, hcount, hlog⟩ := took.keeps
    have hchosen : Enrolled c.st (rtsp.sessions ++ l) := h.kept (.of_heap
      (hsched.trans same.sched) (hcount.trans same.clientCount) (hlog.trans log)
      (hheap.trans same.heap))
    dsimp only
    cases finishSetup_finished finish with
    | noSession r hs =>
      have hkept : RTSPBuffer.sessions { rtsp with rtspCseq := n, interleaved := c.interleaved } =
          rtsp.sessions := sessions_congr rfl
      rw [send_reply_sessions, hkept]
      exact hchosen
    | notCopied id hs out st₂ hc =>
      have hcopied := ((reaches.accepted ha).copyMedia (w := w) (m := m) hentries).1
      rw [hc] at hcopied
      cases hcopied
    | entered sessionId hs out st₂ hc id st₃ ha rtsp₂ hr =>
      have hfree := hg d m o st₁ reaches (passes_ok hs)
      rw [← same.sched, ← hsched] at hfree
      have hlist : rtsp'.sessions = rtsp.sessions ++ [c.st.heap.length] := by
        rw [send_setup_reply] at hr
        rw [send_sessions hr]
        exact longer_sessions same.sessionList _
      rw [hlist, List.append_assoc, List.singleton_append]
      exact (hchosen.setUp hfree hc ha).perm List.perm_middle.symm

theorem SetupEnters.cseq (h : SetupEnters w inp rtsp st) (n : ℕ) :
    SetupEnters w inp { rtsp with rtspCseq := n } st := by
  intro d m o st₁ hreaches hsession
  exact h d m o st₁ ⟨hreaches.file, hreaches.peer, hreaches.transport⟩ hsession

theorem handler_enrols {x : Handler} (ha : Accepted st) (h : Enrolled st (rtsp.sessions ++ l))
    (hg : x = .setup → SetupEnters w inp rtsp st) : Enrols l (x.run w inp rtsp st) := by
  cases x with
  | describe => exact describe_enrols h
  | options => exact options_enrols h
  | setup => exact setup_enrols ha (hg rfl) h
  | play => exact play_enrols h
  | pause => exact pause_enrols h
  | teardown => exact teardown_enrols h

theorem curState_sessions (rtsp : RTSPBuffer) (next : CurState) :
    RTSPBuffer.sessions { rtsp with
      sessionList := rtsp.sessionList.map fun q => { q with curState := next } } =
      rtsp.sessions := by
  rw [RTSPBuffer.sessions, RTSPBuffer.sessions]
  cases rtsp.sessionList <;> rfl

theorem Enrolled.cell {x : Cell} (h : Enrolled st (rtsp.sessions ++ l)) (ha : Accepted st)
    (hg : x.handler = some .setup → SetupEnters w inp rtsp st)
    (he : x.exec w inp rtsp st = some (rtsp₁, st')) : Enrolled st' (rtsp₁.sessions ++ l) := by
  cases x with
  | silent =>
    cases he
    exact h
  | refuse status =>
    obtain ⟨rfl, rfl⟩ := refuse_eq he
    rw [send_reply_sessions]
    exact h
  | stay y =>
    obtain ⟨out, ho, hout⟩ := Option.map_eq_some_iff.mp he
    have hy := handler_enrols ha h (fun hy => hg (congrArg some hy)) out ho
    rw [hout] at hy
    exact hy
  | move y next =>
    obtain ⟨⟨rc, rtsp₂, st₂⟩, ho, hout⟩ := Option.map_eq_some_iff.mp he
    have hy := handler_enrols ha h (fun hy => hg (congrArg some hy)) _ ho
    dsimp only at hout hy
    split at hout
    · cases hout
      rw [curState_sessions]
      exact hy
    · cases hout
      exact hy

theorem Enrolled.message (h : Enrolled st (rtsp.sessions ++ l)) (ha : Accepted st)
    (hg : ∀ seq, CallsSetup inp rtsp seq → SetupEnters w inp rtsp st)
    (hm : handleMessage w inp rtsp st = some (rtsp₁, st')) :
    Enrolled st' (rtsp₁.sessions ++ l) := by
  cases hmethod : messageMethod inp with
  | none =>
    obtain ⟨hsame, rfl⟩ := handleMessage_other hmethod hm
    rw [sessions_congr hsame]
    exact h
  | some m =>
    cases handleMessage_dispatched hmethod hm with
    | malformed seq =>
      rw [send_reply_sessions]
      exact h.cseq seq
    | ended seq => exact h.cseq seq
    | table seq p hp _ _ he hs =>
      refine (h.cseq seq).cell ha (fun hy => ?_) he
      obtain ⟨n, hcalls⟩ := CallsSetup.of_cell hmethod hs hp hy
      exact (hg n hcalls).cseq seq

end Methods

/-! ### Runs -/

section Runs

variable {sv sv' : Server} {k : ℕ}

theorem listed_put {rtsp : RTSPBuffer} (h : sv.connection k = some rtsp) :
    ∃ l, sv.listed.Perm (rtsp.sessions ++ l) ∧ ∀ p st,
      (sv.put k p st).listed.Perm ((p.map RTSPBuffer.sessions).getD [] ++ l) := by
  have hk : sv.connections[k]? = some (some rtsp) := Option.join_eq_some_iff.mp h
  obtain ⟨hlt, hget⟩ := List.getElem?_eq_some_iff.mp hk
  have hmiddle : ∀ (a b : List (Option RTSPBuffer)) (p : Option RTSPBuffer),
      ((a ++ p :: b).flatMap fun p => (p.map RTSPBuffer.sessions).getD []).Perm
        ((p.map RTSPBuffer.sessions).getD [] ++
          (a ++ b).flatMap fun p => (p.map RTSPBuffer.sessions).getD []) := by
    intro a b p
    rw [List.flatMap_append, List.flatMap_cons, List.flatMap_append, ← List.append_assoc,
      ← List.append_assoc]
    exact List.perm_append_comm.append_right _
  refine ⟨(sv.connections.take k ++ sv.connections.drop (k + 1)).flatMap fun p =>
    (p.map RTSPBuffer.sessions).getD [], ?_, fun p st => ?_⟩
  · have hsplit : sv.connections.take k ++ some rtsp :: sv.connections.drop (k + 1) =
        sv.connections := by
      rw [← hget, List.cons_getElem_drop_succ, List.take_append_drop]
    have hperm := hmiddle (sv.connections.take k) (sv.connections.drop (k + 1)) (some rtsp)
    rw [hsplit] at hperm
    exact hperm
  · rw [Server.listed, Server.put, List.set_eq_take_append_cons_drop, if_pos hlt]
    exact hmiddle _ _ p

theorem Enrolled.step {a : Act} (h : Enrolled sv.st sv.listed) (ha : Accepted sv.st)
    (hg : StepEnters sv a) (hstep : serverStep sv a = some sv') : Enrolled sv'.st sv'.listed := by
  cases a with
  | connect =>
    cases hstep
    have hlisted : sv.add_client.listed = sv.listed := by
      rw [Server.listed, Server.listed, Server.add_client, List.flatMap_append]
      exact List.append_nil _
    rw [hlisted]
    exact h
  | fdsets k =>
    obtain ⟨rtsp, hr, hstep⟩ := Option.bind_eq_some_iff.mp hstep
    obtain ⟨rtsp', hset, rfl⟩ := Option.map_eq_some_iff.mp hstep
    obtain ⟨l, hl, hput⟩ := listed_put hr
    refine (h.perm hl).perm ?_ |>.perm (hput (some rtsp') sv.st).symm
    obtain ⟨finished, -, rfl⟩ := Option.map_eq_some_iff.mp hset
    split_ifs
    · exact .of_eq (congrArg (· ++ l) (curState_sessions rtsp .ready).symm)
    · exact .refl _
  | request k w inp =>
    obtain ⟨rtsp, hr, hstep⟩ := Option.bind_eq_some_iff.mp hstep
    obtain ⟨⟨rtsp', st'⟩, hm, rfl⟩ := Option.map_eq_some_iff.mp hstep
    obtain ⟨l, hl, hput⟩ := listed_put hr
    exact ((h.perm hl).message ha (hg rtsp hr) hm).perm
      (hput (some rtsp') st').symm
  | close k =>
    obtain ⟨rtsp, st', hr, hc, rfl⟩ := close_step hstep
    obtain ⟨l, hl, hput⟩ := listed_put hr
    exact ((h.perm hl).closeLoop hc).perm (hput none st').symm
  | tick turn =>
    obtain ⟨st', ht, rfl⟩ := Option.map_eq_some_iff.mp hstep
    exact h.tick ht

theorem Enrolled.init : Enrolled Server.init.st Server.init.listed where
  count := by
    have hnone : validEntries Server.init.st = ∅ := by
      ext i
      rw [mem_validEntries]
      exact iff_of_false Bool.false_ne_true (Finset.notMem_empty i)
    rw [hnone]
    rfl
  entries := fun _ hs => absurd hs List.not_mem_nil
  only := fun _ hs => absurd hs List.not_mem_nil
  old := by
    intro i s hs
    cases hs
  once := fun _ => rfl
  single := fun _ => Nat.zero_le _

theorem Enrolled.countedOnce (h : Enrolled sv.st sv.listed) : CountedOnce sv where
  count := h.count
  entries := h.entries
  once := by
    intro s
    refine ⟨h.once s, (h.single s).trans ?_⟩
    split_ifs <;> omega

/-- Every session of a run in which no SETUP finds the schedule full is enrolled. -/
theorem Enrolled.run {as : List Act} (h : GuardedRun serverStep StepEnters Server.init as sv) :
    Enrolled sv.st sv.listed ∧ Accepted sv.st := by
  have hstep : ∀ s a t, (fun u : Server => Enrolled u.st u.listed ∧ Accepted u.st) s →
      StepEnters s a → serverStep s a = some t →
      (fun u : Server => Enrolled u.st u.listed ∧ Accepted u.st) t :=
    fun _ _ _ hi hg hs => ⟨hi.1.step hi.2 hg hs, hi.2.made (server_made hs)⟩
  exact h.invariant hstep ⟨Enrolled.init, Accepted.init _⟩

end Runs

/-- In a run in which no SETUP finds the schedule full the counter is that of the valid entries and
each session is removed once. -/
theorem counter_exact {as : List Act} {sv : Server}
    (h : GuardedRun serverStep StepEnters Server.init as sv) : CountedOnce sv := by
  exact Enrolled.countedOnce (Enrolled.run h).1

theorem first_enters (w : World) (inp : Bytes) (rtsp : RTSPBuffer) :
    SetupEnters w inp rtsp (Streams.init rtpDefaultPort) := fun _ _ _ _ _ _ => ⟨0, rfl⟩

/-- A client sets up the film and leaves. -/
theorem counter_exact_film : ∃ sv, exec serverStep Server.init
    [.connect, .request 0 onDisk (setupMessage 1 "v.mpg" []), .close 0] = some sv ∧
      CountedOnce sv := by
  have hrun : ((serverStep Server.init.add_client
      (.request 0 onDisk (setupMessage 1 "v.mpg" []))).bind fun sv =>
        serverStep sv (.close 0)).isSome = true := by
    decide +kernel
  obtain ⟨sv₂, hrun⟩ := Option.isSome_iff_exists.mp hrun
  obtain ⟨sv₁, hsetup, hclose⟩ := Option.bind_eq_some_iff.mp hrun
  have henters : StepEnters Server.init.add_client
      (.request 0 onDisk (setupMessage 1 "v.mpg" [])) := by
    intro rtsp hr _ _
    cases hr
    exact first_enters _ _ _
  have hguarded : GuardedRun serverStep StepEnters Server.init
      [.connect, .request 0 onDisk (setupMessage 1 "v.mpg" []), .close 0] sv₂ :=
    .cons trivial rfl (.cons henters hsetup (.cons trivial hclose (.nil _)))
  exact ⟨sv₂, hguarded.exec_eq, counter_exact hguarded⟩

/-! ### A full schedule -/

/-- The film, with local sockets for it. -/
def paired : World := { onDisk with rtpSocketpair := some (5, 6), rtcpSocketpair := some (7, 8) }

theorem film_stream {st u : Streams} {d : ℕ} (hu : u.entries = (st.newMedia film.streams).entries)
    (hd : (u.descr d).meList = [st.entries.length, st.entries.length + 1]) :
    (setupMedia u d (lit "v.mpg")).run = some (.ok st.entries.length) := by
  have hfirst : (u.media st.entries.length).filename = lit "v.mpg" := by
    unfold Streams.media
    rw [hu, Streams.newMedia, List.getD_eq_getElem?_getD,
      List.getElem?_append_right (le_refl _), Nat.sub_self]
    rfl
  have hmedium : get_media_entry u (some (lit "v.mpg")) (u.descr d).meList =
      some st.entries.length := by
    unfold get_media_entry search_media
    rw [hd]
    exact List.find?_cons_of_pos (by rw [hfirst]; decide)
  unfold setupMedia
  rw [hmedium]
  rfl

theorem film_found (st : Streams) : ∃ d m st₁,
    enum_media st (lit "film.sd") (.parsed film) = (.ok d, st₁) ∧
      (setupMedia st₁ d (lit "v.mpg")).run = some (.ok m) := by
  obtain ⟨i, d, hfind⟩ : ∃ i d, findDescr st (lit "film.sd") = (i, d) := ⟨_, _, rfl⟩
  have hi : i ≤ st.sds.length := by
    unfold findDescr at hfind
    split at hfind
    · rename_i j hj
      cases hfind
      exact (List.findIdx?_eq_some_iff_findIdx_eq.mp hj).1.le
    · cases hfind
      exact le_rfl
  have hput : ∀ x, ((if i < st.sds.length then st.sds.set i x else st.sds ++ [x])[i]?).join = x := by
    intro x
    split_ifs with hlt
    · rw [List.getElem?_set_self hlt]
      rfl
    · rw [le_antisymm hi (not_lt.mp hlt), List.getElem?_concat_length]
      rfl
  unfold enum_media
  rw [hfind]
  refine ⟨i, st.entries.length, _, rfl, film_stream rfl ?_⟩
  unfold Streams.descr
  dsimp only
  rw [hput]
  rfl

theorem tcp_chosen (rtsp : RTSPBuffer) (st : Streams) (d m : ℕ) : ∃ c,
    (chooseTransport paired rtsp st d m [lit "RTP/AVP/TCP;interleaved=0-1"]).run = some (.ok c) ∧
      c.st = st ∧ c.transport.type = .avpTcp ∧ c.transport.interleavedRTP = 0 ∧
        c.transport.interleavedRTCP = 1 := by
  have hoffer : ∀ b, firstOffer b [lit "RTP/AVP/TCP;interleaved=0-1"] =
      some (.tcp, lit "RTP/AVP/TCP;interleaved=0-1") := by
    decide +kernel
  have hchannels : ∀ list,
      (interleavedChannels st list (lit "RTP/AVP/TCP;interleaved=0-1")).run = some (.ok (0, 1)) := by
    intro list
    unfold interleavedChannels
    rw [show strstr (lit "RTP/AVP/TCP;interleaved=0-1") (lit "interleaved") =
      some (lit "interleaved=0-1") by decide +kernel]
    dsimp only
    rw [show strchr (lit "interleaved=0-1") 61 = some (lit "=0-1") by decide +kernel]
    dsimp only
    rw [show strchr (lit "=0-1") 45 = some (lit "-1") by decide +kernel]
    dsimp only
    have hrtp : (scanShort ((lit "=0-1").drop 1)).getD 0 = 0 := by decide +kernel
    have hrtcp : (scanShort ((lit "-1").drop 1)).getD 0 = 1 := by decide +kernel
    simp only [hrtp, hrtcp]
    rfl
  unfold chooseTransport
  rw [hoffer]
  dsimp only
  unfold chooseTcp
  dsimp only
  rw [run_bind_ok (hchannels _)]
  exact ⟨_, rfl, rfl, rfl, rfl, rfl⟩

theorem tcp_reply {rtsp : RTSPBuffer} (hcseq : rtsp.rtspCseq = 1) (descr : SDDescr)
    {r : RTPSession} (htype : r.transport.type = .avpTcp) (hrtp : r.transport.interleavedRTP = 0)
    (hrtcp : r.transport.interleavedRTCP = 1) (hssrc : r.ssrc = 0) :
    ∃ rtsp', send_setup_reply paired rtsp 1 descr r = some rtsp' := by
  have hfits : (setupReply paired 1 1 descr r).render.length < 1024 := by
    unfold setupReply transportText
    rw [htype, hssrc]
    dsimp only
    rw [hrtp, hrtcp]
    decide +kernel
  unfold send_setup_reply send
  rw [hcseq, if_pos hfits]
  exact ⟨_, rfl⟩

/-- Whether the schedule is full or not, the session is in the list and 200 is answered. -/
theorem tcp_enters {rtsp : RTSPBuffer} (hcseq : rtsp.rtspCseq = 1) {c : Chosen}
    (htype : c.transport.type = .avpTcp) (hrtp : c.transport.interleavedRTP = 0)
    (hrtcp : c.transport.interleavedRTCP = 1) (object : Bytes) (d out : ℕ) (st : Streams) :
    ∃ rtsp' st', enter paired rtsp object d c 1 out st = some (errNoerror, rtsp', st') ∧
      rtsp'.sessions.length = rtsp.sessions.length + 1 := by
  obtain ⟨id, st₁, hadd⟩ : ∃ id st₁, st.schedule_add c.st.heap.length c.dad = (id, st₁) :=
    ⟨_, _, rfl⟩
  unfold enter
  dsimp only
  rw [hadd]
  let listing : RTSPBuffer := { rtsp with
    interleaved := c.interleaved
    sessionList := some { longer rtsp c.st.heap.length with sessionId := 1 } }
  obtain ⟨rtsp₁, hsent⟩ := @tcp_reply listing hcseq (st₁.descr d)
    (fullSession paired object d out c id) htype hrtp hrtcp rfl
  refine ⟨rtsp₁, _, congrArg (Option.map _) hsent, ?_⟩
  have hlist : rtsp₁.sessions = rtsp.sessions ++ [c.st.heap.length] := by
    rw [send_setup_reply] at hsent
    rw [send_sessions hsent]
    exact longer_sessions rfl _
  rw [hlist, List.length_append, List.length_singleton]

theorem tcp_setup (rtsp : RTSPBuffer) {st : Streams} (ha : Accepted st) : ∃ rtsp' st',
    RTSP_setup paired (setupTcp 1 []) rtsp st = some (errNoerror, rtsp', st') ∧
      rtsp'.sessions.length = rtsp.sessions.length + 1 := by
  obtain ⟨d, m, st₁, hlook, hm⟩ := film_found st
  have hurl : (setupUrl (setupTcp 1 [])).run = some (.ok (lit "film.sd", lit "v.mpg")) := by
    decide +kernel
  have hseq : (requestCseq errNoerror (scanCseq scanAnyWord (setupTcp 1 []))).run =
      some (.ok 1) := by
    decide +kernel
  have htokens : (transportTokens (setupTcp 1 [])).run =
      some (.ok [lit "RTP/AVP/TCP;interleaved=0-1"]) := by
    decide +kernel
  have hsession : (setupSession paired (setupTcp 1 [])).run = some (.ok 1) := by
    decide +kernel
  obtain ⟨c, hc, hst, htype, hrtp, hrtcp⟩ := tcp_chosen { rtsp with rtspCseq := 1 } st₁ d m
  have hst₁ : Accepted st₁ := by
    have hlooked := ha.look (lit "film.sd") (.parsed film)
    rw [hlook] at hlooked
    exact hlooked
  have hcopied := (hst₁.copyMedia (w := paired) (m := m) (congrArg Streams.entries hst)).1
  have hgoes : RTSP_setup paired (setupTcp 1 []) rtsp st =
      enter paired { rtsp with rtspCseq := 1 } (lit "film.sd") d c 1 (copyMedia paired m c).1
        (copyMedia paired m c).2.2 := by
    have hfile : paired.file = .parsed film := rfl
    rw [RTSP_setup, check_ok hurl]
    dsimp only
    rw [hfile, hlook]
    dsimp only
    rw [check_ok hm, check_ok hseq, check_ok htokens, if_neg (by decide), check_ok hc,
      finishSetup_eq, check_ok hsession, hcopied]
    rfl
  rw [hgoes]
  exact @tcp_enters { rtsp with rtspCseq := 1 } rfl c htype hrtp hrtcp (lit "film.sd") d
    (copyMedia paired m c).1 (copyMedia paired m c).2.2

theorem calls_tcp {rtsp : RTSPBuffer} {p : RTSPSession} (hp : rtsp.sessionList = some p)
    (hstate : p.curState ≠ .play) : CallsSetup (setupTcp 1 []) rtsp 1 where
  request := by decide +kernel
  method := by decide +kernel
  session := by decide +kernel
  state := ⟨p, hp, hstate⟩

/-- One client in `INIT` or `READY` gets one more session and stays so. -/
structure Grows (sv : Server) (n : ℕ) : Prop where
  accepted : Accepted sv.st
  client : ∃ rtsp p, sv.connection 0 = some rtsp ∧ rtsp.sessionList = some p ∧
    p.curState ≠ .play ∧ rtsp.sessions.length = n

theorem Grows.step {sv : Server} {n : ℕ} (h : Grows sv n) : ∃ sv',
    serverStep sv (.request 0 paired (setupTcp 1 [])) = some sv' ∧ Grows sv' (n + 1) := by
  obtain ⟨rtsp, p, hk, hp, hstate, hlength⟩ := h.client
  obtain ⟨rtsp', st', hsetup, hmore⟩ := tcp_setup { rtsp with rtspCseq := 1 } h.accepted
  have hmore : rtsp'.sessions.length = n + 1 := by
    rw [hmore, ← hlength]
    rfl
  obtain ⟨q, hq⟩ : ∃ q, rtsp'.sessionList = some q := by
    cases hlist : rtsp'.sessionList with
    | none =>
      rw [RTSPBuffer.sessions, hlist] at hmore
      cases hmore
    | some q => exact ⟨q, rfl⟩
  have hhandled : handleMessage paired (setupTcp 1 []) rtsp sv.st =
      moveTo .ready (RTSP_setup paired (setupTcp 1 []) { rtsp with rtspCseq := 1 } sv.st) :=
    (calls_tcp hp hstate).handled
  rw [hsetup, moveTo, Option.map_some] at hhandled
  dsimp only at hhandled
  rw [if_pos rfl, hq] at hhandled
  have hstep : serverStep sv (.request 0 paired (setupTcp 1 [])) = some (sv.put 0
      (some { rtsp' with sessionList := some { q with curState := .ready } }) st') := by
    unfold serverStep
    dsimp only
    rw [hk, Option.bind_some, hhandled]
    rfl
  refine ⟨_, hstep, h.accepted.made (server_made hstep), _, { q with curState := .ready },
    (put_connection (connection_lt hk)).trans (if_pos rfl), rfl,
    CurState.noConfusion, ?_⟩
  rw [← hmore, RTSPBuffer.sessions, RTSPBuffer.sessions, hq]

theorem tcp_again (n : ℕ) : ∃ sv, exec serverStep Server.init.add_client
    (List.replicate n (.request 0 paired (setupTcp 1 []))) = some sv ∧ Grows sv n := by
  induction n with
  | zero =>
    refine ⟨Server.init.add_client, exec_nil _ _, Accepted.init _, RTSP_initserver, ⟨.init, -1, []⟩,
      rfl, rfl, by decide, rfl⟩
  | succ n ih =>
    obtain ⟨sv, hrun, hgrows⟩ := ih
    obtain ⟨sv', hstep, hgrows'⟩ := hgrows.step
    refine ⟨sv', ?_, hgrows'⟩
    rw [List.replicate_succ']
    refine exec_append hrun ?_
    rw [exec_cons, hstep]
    rfl

theorem CountedOnce.listed_le {sv : Server} (h : CountedOnce sv) :
    sv.listed.length ≤ oneForkMaxConnection := by
  have hnodup : sv.listed.Nodup := by
    rw [List.nodup_iff_count_le_one]
    intro s
    have := h.once s
    omega
  -- each of them has an entry of its own
  choose r i hr hi hv he using h.entries
  have hinj : Function.Injective fun s : {s // s ∈ sv.listed} => i s.1 s.2 := by
    intro s t hst
    have hs := he s.1 s.2
    have ht := he t.1 t.2
    dsimp only at hst
    rw [hst, ht] at hs
    exact Subtype.ext (Option.some.inj hs).symm
  have hcard := (hnodup.attach.map hinj).length_le_card
  rwa [List.length_map, List.length_attach, Fintype.card_fin] at hcard

/-- With a hundred and one sessions one is in no entry of the schedule. -/
theorem schedule_overflows : ¬ ∀ (as : List Act) (sv : Server),
    exec serverStep Server.init as = some sv → CountedOnce sv := by
  intro h
  obtain ⟨sv, hrun, hgrows⟩ := tcp_again 101
  obtain ⟨rtsp, p, hk, -, -, hlength⟩ := hgrows.client
  have hconnect : exec serverStep Server.init [.connect] = some Server.init.add_client := rfl
  have hcounted := h _ sv (exec_append hconnect hrun)
  obtain ⟨l, hl, -⟩ := listed_put hk
  have hle := hcounted.listed_le
  rw [hl.length_eq, List.length_append, hlength] at hle
  unfold oneForkMaxConnection at hle
  omega

end Fenice.Rtsp
