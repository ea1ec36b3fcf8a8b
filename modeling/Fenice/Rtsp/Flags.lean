import Fenice.Rtsp.Enrolment

/-!
# The flags of the streams

`started` and `pause` of the RTP sessions: what PLAY, PAUSE, TEARDOWN, SETUP and the scheduler do
to them.
-/

namespace Fenice.Rtsp
open Fenice.CString Fenice.Schedule Fenice.Run

/-- The RTP session is started and not paused. -/
def playing (st : Streams) (s : ℕ) : Bool := (st.session s).any fun r => r.started && !r.pause

/-- The RTP session is not started. -/
def waiting (st : Streams) (s : ℕ) : Bool := (st.session s).any fun r => !r.started

/-- The medium of the session has priority 1. -/
def foremost (st : Streams) (s : ℕ) : Bool :=
  (st.session s).any fun r => (st.media r.currentMedia).priority == 1

/-- The checks reject nothing with `ERR_NOERROR`. -/
def RejectsWithError {α : Type} (x : Checks α) : Prop :=
  ∀ r, x.run = some (.error r) → r.rc ≠ errNoerror

/-- A PLAY that passes the checks starts a stream. -/
def PlayStarts (inp : Bytes) (q : RTSPSession) (st : Streams) : Prop :=
  ∀ r, (playRequest inp).run = some (.ok r) → r.target = .presentation →
    ∃ s ∈ q.rtpSession, foremost st s = true

/-! ### The flags of the streams -/

/-- The sessions but those of `l` are there with the same flags. -/
def SameBut (l : List ℕ) (st st' : Streams) : Prop :=
  ∀ s q, s ∉ l → st.session s = some q →
    ∃ q', st'.session s = some q' ∧ q'.pause = q.pause ∧ q'.started = q.started

section Flags

variable {st st' st'' : Streams} {l : List ℕ} {s t : ℕ} {r : RTPSession}

theorem playing_eq (h : st.session s = some r) : playing st s = (r.started && !r.pause) := by
  rw [playing, h, Option.any_some]

theorem waiting_eq (h : st.session s = some r) : waiting st s = !r.started := by
  rw [waiting, h, Option.any_some]

theorem SameFlags.sameBut (h : SameFlags st st') (l : List ℕ) : SameBut l st st' :=
  fun s q _ hq => h s q hq

theorem SameBut.flags (h : SameBut l st st') (hs : InSchedule st s) (hl : s ∉ l) :
    playing st' s = playing st s ∧ waiting st' s = waiting st s := by
  obtain ⟨r, _, hr, -⟩ := hs
  obtain ⟨r', hr', hpause, hstarted⟩ := h s r hl hr
  rw [playing_eq hr', playing_eq hr, waiting_eq hr', waiting_eq hr, hpause, hstarted]
  exact ⟨rfl, rfl⟩

/-- One session plays; the media and the schedule are the same. -/
structure Starts (s : ℕ) (st st' : Streams) : Prop where
  entries : st'.entries = st.entries
  sched : st'.sched = st.sched
  self : ∃ r r', st.session s = some r ∧ st'.session s = some r' ∧ r'.schedId = r.schedId ∧
    r'.currentMedia = r.currentMedia ∧ r'.started = true ∧ r'.pause = false
  other : ∀ t, t ≠ s → st'.session t = st.session t

theorem Starts.playing (h : Starts s st st') : Rtsp.playing st' s = true := by
  obtain ⟨_, r', -, hr', -, -, hstarted, hpause⟩ := h.self
  rw [playing_eq hr', hstarted, hpause]
  rfl

theorem Starts.goesOn (h : Starts s st st') (ht : Rtsp.playing st t = true) :
    Rtsp.playing st' t = true := by
  by_cases hts : t = s
  · rw [hts]
    exact h.playing
  · rw [Rtsp.playing, h.other t hts]
    exact ht

theorem Starts.foremost (h : Starts s st st') (t : ℕ) :
    Rtsp.foremost st' t = Rtsp.foremost st t := by
  have hmedia : ∀ m, st'.media m = st.media m := fun m => by
    rw [Streams.media, Streams.media, h.entries]
  by_cases hts : t = s
  · obtain ⟨r, r', hr, hr', -, hm, -, -⟩ := h.self
    rw [hts, Rtsp.foremost, Rtsp.foremost, hr, hr', Option.any_some, Option.any_some, hm, hmedia]
  · rw [Rtsp.foremost, Rtsp.foremost, h.other t hts]
    simp only [hmedia]

theorem Starts.inSchedule (h : Starts s st st') (ht : InSchedule st t) : InSchedule st' t := by
  obtain ⟨r, i, hr, hi, hv, he⟩ := ht
  by_cases hts : t = s
  · subst hts
    obtain ⟨q, q', hq, hq', hid, -⟩ := h.self
    rw [hr] at hq
    cases hq
    exact ⟨q', i, hq', by rw [hid, hi], by rw [h.sched, hv], by rw [h.sched, he]⟩
  · exact ⟨r, i, by rw [h.other t hts, hr], hi, by rw [h.sched, hv], by rw [h.sched, he]⟩

theorem start_starts (hs : InSchedule st s) (hr : st.session s = some r)
    (h : st.schedule_start r.schedId = some st') : Starts s st st' := by
  obtain ⟨q, i, hq, hi, -, he⟩ := hs
  rw [hr] at hq
  cases hq
  obtain ⟨i', s', r', b, n, hi', he', hr', -, -, rfl⟩ := Streams.start_cases h
  rw [hi] at hi'
  cases hi'
  rw [he] at he'
  cases he'
  rw [hr] at hr'
  cases hr'
  have hlt := Streams.lt_of_session hr
  have hset : ∀ (x : RTPSession) (t : ℕ),
      ((st.setRefs b (some (BufferPool.incr16 n))).setSession s (some x)).session t =
        if t = s then some x else st.session t := fun x t => Streams.session_setSession hlt _ t
  exact ⟨rfl, rfl, ⟨r, _, hr, (hset _ s).trans (if_pos rfl), rfl, rfl, rfl, rfl⟩,
    fun t ht => (hset _ t).trans (if_neg ht)⟩

theorem startOrResume_starts (hs : InSchedule st s) (h : startOrResume st s = some st') :
    Starts s st st' := by
  obtain ⟨r, hr, h⟩ := Option.bind_eq_some_iff.mp h
  split_ifs at h with hstarted hpause
  · exact start_starts hs hr h
  · cases h
    exact ⟨rfl, rfl, ⟨r, r, hr, hr, rfl, rfl, eq_true_of_ne_false hstarted, hpause⟩,
      fun _ _ => rfl⟩
  · obtain ⟨q, i, hq, hi, -, he⟩ := hs
    rw [hr] at hq
    cases hq
    obtain ⟨i', s', r', hi', he', hr', rfl⟩ := Streams.resume_cases h
    rw [hi] at hi'
    cases hi'
    rw [he] at he'
    cases he'
    rw [hr] at hr'
    cases hr'
    have hset := fun x t => Streams.session_setSession (Streams.lt_of_session hr) (some x) t
    exact ⟨rfl, rfl, ⟨r, _, hr, (hset _ s).trans (if_pos rfl), rfl, rfl,
      eq_true_of_ne_false hstarted, rfl⟩, fun t ht => (hset _ t).trans (if_neg ht)⟩

theorem playLoop_starts {onlyPriority : Bool} {list : List ℕ}
    (hin : ∀ s ∈ list, InSchedule st s) (h : playLoop onlyPriority list st = some st') :
    SameBut list st st' ∧ (∀ t, playing st t = true → playing st' t = true) ∧
      ∀ t ∈ list, (onlyPriority = true → foremost st t = true) → playing st' t = true := by
  induction list generalizing st with
  | nil =>
    cases h
    refine ⟨(SameFlags.refl _).sameBut [], fun _ ht => ht, fun _ ht => ?_⟩
    cases ht
  | cons s rest ih =>
    obtain ⟨r, hr, h⟩ := Option.bind_eq_some_iff.mp h
    split at h
    · rename_i hskip
      obtain ⟨hsame, hgoes, hstarts⟩ := ih (fun t ht => hin t (List.mem_cons_of_mem s ht)) h
      refine ⟨?_, hgoes, ?_⟩
      · intro t q ht hq
        exact hsame t q (List.not_mem_of_not_mem_cons ht) hq
      · intro t ht hprio
        obtain ⟨honly, hne⟩ := Bool.and_eq_true_iff.mp hskip
        rcases List.mem_cons.mp ht with rfl | ht
        · have hfore := hprio honly
          rw [foremost, hr, Option.any_some, beq_iff_eq] at hfore
          simp [hfore] at hne
        · exact hstarts t ht hprio
    · obtain ⟨st₁, h₁, h⟩ := Option.bind_eq_some_iff.mp h
      have hstart := startOrResume_starts (hin s List.mem_cons_self) h₁
      obtain ⟨hsame, hgoes, hstarts⟩ :=
        ih (fun t ht => hstart.inSchedule (hin t (List.mem_cons_of_mem s ht))) h
      refine ⟨?_, fun t ht => hgoes t (hstart.goesOn ht), ?_⟩
      · intro t q ht hq
        have hne := List.ne_of_not_mem_cons ht
        exact hsame t q (List.not_mem_of_not_mem_cons ht) (by rw [hstart.other t hne, hq])
      · intro t ht hprio
        rcases List.mem_cons.mp ht with rfl | ht
        · exact hgoes t hstart.playing
        · exact hstarts t ht fun ho => by rw [hstart.foremost, hprio ho]

theorem findFile_found {name : Bytes} {list : List ℕ} (h : findFile st name list = some (some r)) :
    ∃ s ∈ list, st.session s = some r := by
  induction list with
  | nil => cases h
  | cons s rest ih =>
    obtain ⟨q, hq, h⟩ := Option.bind_eq_some_iff.mp h
    split_ifs at h
    · cases h
      exact ⟨s, List.mem_cons_self, hq⟩
    · obtain ⟨t, ht, hr⟩ := ih h
      exact ⟨t, List.mem_cons_of_mem s ht, hr⟩

theorem playTarget_starts {q : RTSPSession} {target : Target}
    (hin : ∀ s ∈ q.rtpSession, InSchedule st s) (hne : q.rtpSession ≠ [])
    (hfore : target = .presentation → ∃ s ∈ q.rtpSession, foremost st s = true)
    (h : (playTarget q st target).run = some (.ok st')) :
    SameBut q.rtpSession st st' ∧ ∃ s ∈ q.rtpSession, playing st' s = true := by
  cases target with
  | presentation =>
    obtain ⟨st₁, h₁, he⟩ := Option.map_eq_some_iff.mp h
    cases he
    obtain ⟨hsame, -, hstarts⟩ := playLoop_starts hin h₁
    obtain ⟨s, hs, hprio⟩ := hfore rfl
    exact ⟨hsame, s, hs, hstarts s hs fun _ => hprio⟩
  | aggregate =>
    obtain ⟨st₁, h₁, he⟩ := Option.map_eq_some_iff.mp h
    cases he
    obtain ⟨hsame, -, hstarts⟩ := playLoop_starts hin h₁
    obtain ⟨s, hs⟩ := List.exists_mem_of_ne_nil _ hne
    exact ⟨hsame, s, hs, hstarts s hs fun ho => Bool.noConfusion ho⟩
  | file name =>
    simp only [playTarget] at h
    split at h
    · cases h
    · cases h
    · rename_i r hfound
      obtain ⟨st₁, h₁, he⟩ := Option.map_eq_some_iff.mp h
      cases he
      obtain ⟨s, hs, hr⟩ := findFile_found hfound
      have hstart := start_starts (hin s hs) hr h₁
      refine ⟨fun t x ht hx => ⟨x, ?_, rfl, rfl⟩, s, hs, hstart.playing⟩
      rw [hstart.other t fun hts => ht (hts ▸ hs), hx]

theorem pauseLoop_pauses {list : List ℕ} (h : pauseLoop list st = some st') :
    SameBut list st st' ∧ (∀ t, playing st t = false → playing st' t = false) ∧
      ∀ t ∈ list, playing st' t = false := by
  induction list generalizing st with
  | nil =>
    cases h
    refine ⟨(SameFlags.refl _).sameBut [], fun _ ht => ht, fun _ ht => ?_⟩
    cases ht
  | cons s rest ih =>
    obtain ⟨r, hr, h⟩ := Option.bind_eq_some_iff.mp h
    have hset := fun t =>
      Streams.session_setSession (Streams.lt_of_session hr) (some { r with pause := true }) t
    have hself : playing (st.setSession s (some { r with pause := true })) s = false := by
      rw [playing_eq ((hset s).trans (if_pos rfl))]
      exact Bool.and_false _
    obtain ⟨hsame, hstays, hquiet⟩ := ih h
    refine ⟨?_, ?_, ?_⟩
    · intro t q ht hq
      have hne := List.ne_of_not_mem_cons ht
      exact hsame t q (List.not_mem_of_not_mem_cons ht) ((hset t).trans ((if_neg hne).trans hq))
    · intro t ht
      apply hstays
      by_cases hts : t = s
      · rw [hts]
        exact hself
      · rw [playing, hset t, if_neg hts]
        exact ht
    · intro t ht
      rcases List.mem_cons.mp ht with rfl | ht
      · exact hstays t hself
      · exact hquiet t ht

/-- A stream may have been stopped. -/
structure Slows (s : ℕ) (st st' : Streams) : Prop where
  quiet : playing st s = false → playing st' s = false
  plays : playing st s = true → playing st' s = true ∨ waiting st' s = true
  waits : waiting st s = true → waiting st' s = true

theorem Slows.of_same (h : st'.session s = st.session s) : Slows s st st' := by
  have hplaying : playing st' s = playing st s := by rw [playing, playing, h]
  have hwaiting : waiting st' s = waiting st s := by rw [waiting, waiting, h]
  exact ⟨fun hs => hplaying.trans hs, fun hs => .inl (hplaying.trans hs),
    fun hs => hwaiting.trans hs⟩

theorem Slows.of_flags {r' : RTPSession} (hr : st.session s = some r)
    (hr' : st'.session s = some r') (hpause : r'.pause = r.pause)
    (hstarted : r'.started = r.started) : Slows s st st' := by
  have hplaying : playing st' s = playing st s := by
    rw [playing_eq hr', playing_eq hr, hpause, hstarted]
  have hwaiting : waiting st' s = waiting st s := by
    rw [waiting_eq hr', waiting_eq hr, hstarted]
  exact ⟨fun hs => hplaying.trans hs, fun hs => .inl (hplaying.trans hs),
    fun hs => hwaiting.trans hs⟩

theorem Slows.stopped (hr : st.session s = some r) (t : ℕ) (stop : Bool) :
    Slows t st (st.stopped s r stop) := by
  cases stop with
  | false => exact .of_same rfl
  | true =>
    have hset := Streams.session_setSession (Streams.lt_of_session hr)
      (some { r with pause := true, started := false }) t
    by_cases hts : t = s
    · have hstopped : waiting (st.stopped s r true) t = true :=
        waiting_eq (hset.trans (if_pos hts))
      have hquiet : playing (st.stopped s r true) t = false :=
        playing_eq (hset.trans (if_pos hts))
      exact ⟨fun _ => hquiet, fun _ => .inr hstopped, fun _ => hstopped⟩
    · exact .of_same (hset.trans (if_neg hts))

theorem Slows.trans (h : Slows s st st') (h' : Slows s st' st'') : Slows s st st'' where
  quiet := fun hs => h'.quiet (h.quiet hs)
  plays := fun hs => (h.plays hs).elim h'.plays fun hw => .inr (h'.waits hw)
  waits := fun hs => h'.waits (h.waits hs)

/-- A step of the scheduler stops at most one of the listed streams, and starts none. -/
theorem Enrolled.slows {turn : Turn} (hE : Enrolled st l) (ht : t ∈ l)
    (h : st.schedule_do turn = some st') : Slows t st st' := by
  rcases Streams.tick_cases h with ⟨position, rfl⟩ | ⟨i, st₁, -, hvisit, rfl⟩
  · exact .of_same rfl
  have hpart : Slows t st st₁ := by
    cases hvisit with
    | idle => exact .of_same rfl
    | sent s r _ _ hr _ _ stop => exact .stopped hr t stop
    | switched s r _ _ hr _ m _ stop =>
      have hswitched := Streams.session_switch (m := m) hr
      have hself : (st.stream_switch s r m).session s = some { r with currentMedia := m } :=
        (hswitched s).trans (if_pos rfl)
      refine Slows.trans ?_ (.stopped hself t stop)
      by_cases hts : t = s
      · subst hts
        exact .of_flags hr hself rfl rfl
      · exact .of_same ((hswitched t).trans (if_neg hts))
    | destroyed s r hinvalid hholds hr _ st₂ hdestroy =>
      have hts : t ≠ s := by
        rintro rfl
        obtain ⟨q, j, -, -, hv, he⟩ := hE.entries t ht
        rw [hE.only t ht j i he hholds, hinvalid] at hv
        cases hv
      obtain ⟨st₃, st₄, b, n, hclose, hunref, -, -, rfl⟩ := Streams.destroy_cases hdestroy
      obtain ⟨portPool, sds, closed, rfl⟩ := Streams.close_cases hclose
      obtain ⟨-, buffers, rfl, -⟩ := Streams.unref_cases hunref
      have hset := Streams.session_setSession (Streams.lt_of_session hr) none t
      split_ifs <;> exact .of_same (hset.trans (if_neg hts))
  exact hpart.trans (.of_same rfl)

end Flags

/-! ### The methods -/

section Methods

variable {st st' : Streams} {q : RTSPSession} {rtsp rtsp' : RTSPBuffer} {w : World} {inp : Bytes}

/-- What holds of all that a method may return. -/
def Returns (P : ℤ × RTSPBuffer × Streams → Prop) (x : Handled) : Prop :=
  ∀ out, x = some out → P out

theorem Returns.check {α : Type} {P : ℤ × RTSPBuffer × Streams → Prop} {x : Checks α}
    {k : α → Handled} (hr : ∀ r, x.run = some (.error r) → P (r.rc, send_reply r.status rtsp, st))
    (hk : ∀ a, x.run = some (.ok a) → Returns P (k a)) : Returns P (Rtsp.check rtsp st x k) := by
  intro out ho
  rcases check_eq_some.mp ho with ⟨r, hx, rfl⟩ | ⟨a, ha, ho⟩
  · exact hr r hx
  · exact hk a ha out ho

theorem Returns.bind {α : Type} {P : ℤ × RTSPBuffer × Streams → Prop} {x : Option α}
    {k : α → Handled} (h : ∀ a, x = some a → Returns P (k a)) : Returns P (x.bind k) := by
  intro out ho
  obtain ⟨a, ha, ho⟩ := Option.bind_eq_some_iff.mp ho
  exact h a ha out ho

theorem Returns.logged {P : ℤ × RTSPBuffer × Streams → Prop} {x : Option RTSPBuffer}
    (h : ∀ rtsp₁, x = some rtsp₁ → P (errNoerror, rtsp₁, st)) :
    Returns P (x.bind fun rtsp => (logUserAgent inp).map fun _ => (errNoerror, rtsp, st)) := by
  intro out ho
  obtain ⟨rtsp₁, hs, hl⟩ := Option.bind_eq_some_iff.mp ho
  obtain ⟨_, _, rfl⟩ := Option.map_eq_some_iff.mp hl
  exact h rtsp₁ hs

theorem RejectsWithError.front {α β : Type} {x : Checks α} {k : α → Checks β}
    (h : RejectsWithError (x >>= k)) : RejectsWithError x :=
  fun r hr => h r (run_bind_error hr k)

theorem RejectsWithError.behind {α β : Type} {x : Checks α} {k : α → Checks β} {a : α}
    (h : RejectsWithError (x >>= k)) (ha : x.run = some (.ok a)) : RejectsWithError (k a) :=
  fun r hr => h r ((run_bind_ok ha k).trans hr)

theorem send_sessionList {cap : ℕ} {r : Reply} (h : send cap r rtsp = some rtsp') :
    rtsp'.sessionList = rtsp.sessionList := by
  rw [send_eq_some h]

/-- The list of the connection and the flags of all streams are the same. -/
def LeavesFlags (rtsp : RTSPBuffer) (st : Streams) (out : ℤ × RTSPBuffer × Streams) : Prop :=
  out.2.1.sessionList = rtsp.sessionList ∧ SameFlags st out.2.2

theorem redirect_leaves {object : Bytes} :
    Returns (LeavesFlags rtsp st) (send_redirect_3xx w object rtsp st) := by
  have hlook := look_flags st object w.file.again
  rw [send_redirect_3xx]
  obtain ⟨res, st₂, he⟩ : ∃ res st₂, enum_media st object w.file.again = (res, st₂) := ⟨_, _, rfl⟩
  rw [he] at hlook ⊢
  cases res with
  | error e =>
    intro out ho
    cases ho
    exact ⟨send_reply_sessionList 500 rtsp, hlook⟩
  | ok d =>
    dsimp only
    split
    · intro out ho
      obtain ⟨rtsp₁, hs, rfl⟩ := Option.map_eq_some_iff.mp ho
      rw [send_redirect] at hs
      exact ⟨send_sessionList hs, hlook⟩
    · intro out ho
      cases ho
      exact ⟨send_reply_sessionList 453 rtsp, hlook⟩

theorem describe_leaves : Returns (LeavesFlags rtsp st) (RTSP_describe w inp rtsp st) := by
  rw [RTSP_describe]
  refine Returns.check (fun r _ => ⟨send_reply_sessionList _ _, .refl st⟩) fun u _ => ?_
  refine Returns.check (fun r _ => ⟨send_reply_sessionList _ _, .refl st⟩) fun n _ => ?_
  have hget := get_media_descr_flags w u.object st
  dsimp only
  refine Returns.check (fun r _ => ⟨send_reply_sessionList _ _, hget⟩) fun _ _ => ?_
  by_cases hw : w.maxConnection = true
  · rw [if_pos hw]
    intro out ho
    obtain ⟨hlist, hflags⟩ := redirect_leaves out ho
    exact ⟨hlist, hget.trans hflags⟩
  · rw [if_neg hw]
    refine Returns.logged fun rtsp₁ hs => ?_
    rw [send_describe_reply] at hs
    have hlist := send_sessionList hs
    exact ⟨hlist, hget⟩

theorem options_leaves : Returns (LeavesFlags rtsp st) (RTSP_options inp rtsp st) := by
  rw [RTSP_options]
  refine Returns.check (fun r _ => ⟨send_reply_sessionList _ _, .refl st⟩) fun n _ => ?_
  refine Returns.logged fun rtsp₁ hs => ?_
  rw [send_options_reply] at hs
  have hlist := send_sessionList hs
  exact ⟨hlist, .refl st⟩

theorem play_plays (hq : rtsp.sessionList = some q) (hin : ∀ s ∈ q.rtpSession, InSchedule st s)
    (hg : RejectsWithError (playChecks inp rtsp st)) (hstarts : PlayStarts inp q st) :
    Returns (fun out => out.2.1.sessionList = rtsp.sessionList ∧
      (out.1 ≠ errNoerror ∧ out.2.2 = st ∨
        out.1 = errNoerror ∧ SameBut q.rtpSession st out.2.2 ∧
          ∃ s ∈ q.rtpSession, playing out.2.2 s = true))
      (RTSP_play w inp rtsp st) := by
  rw [RTSP_play]
  rw [playChecks] at hg
  refine Returns.check (fun r hr => ⟨send_reply_sessionList _ _, .inl ⟨hg.front r hr, rfl⟩⟩)
    fun n hn => ?_
  have hg := hg.behind hn
  refine Returns.check (fun r hr => ⟨send_reply_sessionList _ _, .inl ⟨hg.front r hr, rfl⟩⟩)
    fun a ha => ?_
  have hg := hg.behind ha
  refine Returns.check (fun r hr => ⟨send_reply_sessionList _ _, .inl ⟨hg.front r hr, rfl⟩⟩)
    fun p hp => ?_
  have hg := hg.behind hp
  have hpq : q = p := Option.some.inj (hq.symm.trans (sameSession_ok hp).1)
  subst hpq
  refine Returns.check (fun r hr => ⟨send_reply_sessionList _ _, .inl ⟨hg.front r hr, rfl⟩⟩)
    fun st₁ ht => ?_
  refine Returns.logged fun rtsp₁ hs => ?_
  rw [send_play_reply] at hs
  split_ifs at hs with hne
  obtain ⟨rs, -, hs⟩ := Option.bind_eq_some_iff.mp hs
  have hlist := send_sessionList hs
  exact ⟨hlist, .inr ⟨rfl, playTarget_starts hin hne (hstarts a ha) ht⟩⟩

theorem pause_pauses (hq : rtsp.sessionList = some q)
    (hg : RejectsWithError (pauseChecks w inp rtsp)) :
    Returns (fun out => out.2.1.sessionList = rtsp.sessionList ∧
      (out.1 ≠ errNoerror ∧ out.2.2 = st ∨
        out.1 = errNoerror ∧ SameBut q.rtpSession st out.2.2 ∧
          ∀ s ∈ q.rtpSession, playing out.2.2 s = false))
      (RTSP_pause w inp rtsp st) := by
  rw [RTSP_pause]
  rw [pauseChecks] at hg
  refine Returns.check (fun r hr => ⟨send_reply_sessionList _ _, .inl ⟨hg.front r hr, rfl⟩⟩)
    fun n hn => ?_
  have hg := hg.behind hn
  refine Returns.check (fun r hr => ⟨send_reply_sessionList _ _, .inl ⟨hg.front r hr, rfl⟩⟩)
    fun id hid => ?_
  have hg := hg.behind hid
  refine Returns.check (fun r hr => ⟨send_reply_sessionList _ _, .inl ⟨hg.front r hr, rfl⟩⟩)
    fun p hp => ?_
  have hpq : q = p := Option.some.inj (hq.symm.trans (sameSession_ok hp).1)
  subst hpq
  refine Returns.bind fun st₁ h₁ => ?_
  obtain ⟨hsame, -, hquiet⟩ := pauseLoop_pauses h₁
  refine Returns.logged fun rtsp₁ hs => ?_
  rw [send_pause_reply] at hs
  have hlist := send_sessionList hs
  exact ⟨hlist, .inr ⟨rfl, hsame, hquiet⟩⟩

theorem teardown_leaves (hq : rtsp.sessionList = some q) :
    Returns (fun out => SameFlags st out.2.2 ∧ (out.2.1.sessionList = rtsp.sessionList ∨
      ∃ r, (teardownRequest inp).run = some (.ok r) ∧
        out.2.1.sessionList = if q.rtpSession.filter (spared r.filename st) = [] then none
          else some { q with rtpSession := q.rtpSession.filter (spared r.filename st) }))
      (RTSP_teardown w inp rtsp st) := by
  rw [RTSP_teardown]
  refine Returns.check (fun r _ => ⟨.refl st, .inl (send_reply_sessionList _ _)⟩) fun n _ => ?_
  refine Returns.check (fun r _ => ⟨.refl st, .inl (send_reply_sessionList _ _)⟩) fun a ha => ?_
  refine Returns.check (fun r _ => ⟨.refl st, .inl (send_reply_sessionList _ _)⟩) fun p hp => ?_
  have hpq : q = p := Option.some.inj (hq.symm.trans (sameSession_ok hp).1)
  subst hpq
  intro out ho
  obtain ⟨rtsp₂, -, ho⟩ := Option.bind_eq_some_iff.mp ho
  obtain ⟨_, _, ho⟩ := Option.bind_eq_some_iff.mp ho
  obtain ⟨⟨left, st₁⟩, h₁, rfl⟩ := Option.map_eq_some_iff.mp ho
  obtain ⟨rfl, hflags⟩ := teardownLoop_spares h₁
  exact ⟨hflags, .inr ⟨a, ha, rfl⟩⟩

theorem setup_starts_none (hq : rtsp.sessionList = some q) :
    Returns (fun out => SameFlags st out.2.2 ∧ ∃ q', out.2.1.sessionList = some q' ∧
      q'.curState = q.curState ∧ ∀ s ∈ q'.rtpSession, s ∈ q.rtpSession ∨ playing out.2.2 s = false)
      (RTSP_setup w inp rtsp st) := by
  intro out ho
  cases setup_chose ho with
  | refused same => exact ⟨.of_heap same.heap, q, same.sessionList.trans hq, rfl, fun _ => .inl⟩
  | @chosen d m n o c object st₁ reaches same log took finish =>
    obtain ⟨rc, rtsp', st'⟩ := out
    obtain ⟨-, hheap, -⟩ := took.keeps
    have hflags : SameFlags st c.st := .of_heap (hheap.trans same.heap)
    have hlonger : (longer { rtsp with rtspCseq := n } c.st.heap.length).curState = q.curState ∧
        (longer { rtsp with rtspCseq := n } c.st.heap.length).rtpSession =
          q.rtpSession ++ [c.st.heap.length] := by
      rw [longer, RTSPBuffer.rtspSession, hq]
      exact ⟨rfl, rfl⟩
    have hnew : ∀ (st₂ : Streams) {r : RTPSession}, r.started = false →
        st₂.heap = (c.st.heap ++ [none]).set c.st.heap.length (some r) →
        SameFlags st st₂ ∧ ∀ s ∈ q.rtpSession ++ [c.st.heap.length],
          s ∈ q.rtpSession ∨ playing st₂ s = false := by
      intro st₂ r hr hst
      refine ⟨hflags.trans (.new hst), fun s hs => ?_⟩
      rcases List.mem_append.mp hs with hs | hs
      · exact .inl hs
      · rw [List.mem_singleton.mp hs,
          playing_eq ((Streams.session_new hst _).trans (if_pos rfl)), hr]
        exact .inr rfl
    cases finishSetup_finished finish with
    | noSession r hs =>
      exact ⟨hflags, q, (send_reply_sessionList _ _).trans hq, rfl, fun _ => .inl⟩
    | notCopied id hs out st₂ hc =>
      obtain ⟨entries, buffers, rfl⟩ := copyMedia_frame hc
      obtain ⟨hsame, hquiet⟩ := hnew (Streams.setSession { c.st with
        heap := c.st.heap ++ [none], entries := entries, buffers := buffers } c.st.heap.length
        (some (halfSession object out))) rfl rfl
      refine ⟨hsame, _, send_reply_sessionList _ _, hlonger.1, fun s hs => hquiet s ?_⟩
      rw [← hlonger.2]
      exact hs
    | entered sessionId hs out st₂ hc id st₃ ha rtsp₂ hr =>
      obtain ⟨entries, buffers, rfl⟩ := copyMedia_frame hc
      have hadded : st₃.heap = c.st.heap ++ [none] := by
        rcases Streams.add_cases _ c.st.heap.length c.dad with ⟨i, -, he⟩ | ⟨-, he⟩
        · rw [he] at ha
          cases ha
          rfl
        · rw [he] at ha
          cases ha
          rfl
      obtain ⟨hsame, hquiet⟩ := hnew
        (st₃.setSession c.st.heap.length (some (fullSession w object d out c id))) rfl
        (congrArg (fun heap => heap.set c.st.heap.length
          (some (fullSession w object d out c id))) hadded)
      rw [send_setup_reply] at hr
      have hlist := send_sessionList hr
      refine ⟨hsame, _, hlist, hlonger.1, fun s hs => hquiet s ?_⟩
      rw [← hlonger.2]
      exact hs

end Methods

end Fenice.Rtsp
