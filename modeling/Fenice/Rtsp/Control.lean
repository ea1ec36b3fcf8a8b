import Fenice.Rtsp.Identity
import Fenice.Mediainfo.Sdp

/-!
# Control URLs

The URLs that a description gives to a client, and what PLAY, PAUSE and TEARDOWN make of
them. Each of the three takes the URL apart in its own way.
-/

namespace Fenice.Rtsp
open Fenice.CString Fenice.Schedule Fenice.Run

/-! ### Checks that pass -/

theorem run_bind_iff {α β : Type} {x : Checks α} {k : α → Checks β} {b : β} :
    (x >>= k).run = some (.ok b) ↔ ∃ a, x.run = some (.ok a) ∧ (k a).run = some (.ok b) := by
  constructor
  · intro h
    cases hx : x.run with
    | none =>
      rw [ExceptT.run_bind, hx] at h
      cases h
    | some e =>
      cases e with
      | error r =>
        rw [run_bind_error hx] at h
        cases h
      | ok a =>
        rw [run_bind_ok hx] at h
        exact ⟨a, rfl, h⟩
  · rintro ⟨a, ha, hk⟩
    rw [run_bind_ok ha, hk]

/-- The URL that every method reads from the first line. -/
def readUrl (inp : Bytes) : Option Url :=
  ((scanAnyWord inp).bind fun t => scanWord 254 t.2).bind fun t =>
    match parse_url t.1 255 255 with
    | .ok u => some u
    | _ => none

theorem requestUrl_ok {rc : ℤ} {inp : Bytes} {u : Url} :
    (requestUrl rc inp).run = some (.ok u) ↔ readUrl inp = some u := by
  unfold requestUrl scanUrl readUrl
  cases (scanAnyWord inp).bind fun t => scanWord 254 t.2 with
  | none =>
    constructor
    · intro h
      cases h
    · intro h
      cases h
  | some t =>
    obtain ⟨url, rest⟩ := t
    simp only [pure_bind, Option.bind_some]
    cases parse_url url 255 255 with
    | ok v =>
      constructor
      · intro h
        cases h
        rfl
      · intro h
        cases h
        rfl
    | bad => constructor <;> intro h <;> cases h
    | error => constructor <;> intro h <;> cases h

/-- An object without `../` and `./`. -/
structure NoRelative (object : Bytes) : Prop where
  parent : strstr object (lit "../") = none
  current : strstr object (lit "./") = none

theorem noRelativePath_ok {rc : ℤ} {object : Bytes} :
    (noRelativePath rc object).run = some (.ok ()) ↔ NoRelative object := by
  unfold noRelativePath
  cases hparent : strstr object (lit "../") with
  | some q =>
    constructor
    · intro h
      cases h
    · intro h
      rw [h.parent] at hparent
      cases hparent
  | none =>
    cases hcurrent : strstr object (lit "./") with
    | some q =>
      constructor
      · intro h
        cases h
      · intro h
        rw [h.current] at hcurrent
        cases hcurrent
    | none => exact ⟨fun _ => ⟨hparent, hcurrent⟩, fun _ => rfl⟩

theorem extension_ok {rc : ℤ} {object p : Bytes} :
    (extension rc object).run = some (.ok p) ↔ strrchr object 46 = some p := by
  unfold extension
  cases strrchr object 46 with
  | none => constructor <;> intro h <;> cases h
  | some q =>
    constructor
    · intro h
      cases h
      rfl
    · intro h
      cases h
      rfl

theorem supported_ok {rc : ℤ} {p : Bytes} :
    (supported rc p).run = some (.ok ()) ↔ is_supported_url p = true := by
  unfold supported
  cases is_supported_url p with
  | true => exact ⟨fun _ => rfl, fun _ => rfl⟩
  | false => constructor <;> intro h <;> cases h

theorem requestCseq_ok {rc : ℤ} {number : Option ℕ} {n : ℕ} (h : number = some n) :
    (requestCseq rc number).run = some (.ok n) := by
  rw [h]
  rfl

theorem requestSession_ok {rc id : ℤ} {inp : Bytes} {absent : Checks ℤ}
    (h : scanSession inp = some (some id)) :
    (requestSession rc inp absent).run = some (.ok id) := by
  unfold requestSession
  rw [h]
  rfl

theorem sameSession_run {rc : ℤ} {rtsp : RTSPBuffer} {p : RTSPSession}
    (h : rtsp.sessionList = some p) : (sameSession rc rtsp p.sessionId).run = some (.ok p) := by
  unfold sameSession
  rw [h]
  simp only [if_true]
  rfl

/-! ### Sessions that can be served -/

/-- The RTP session of a stream that was set up. -/
structure Served (st : Streams) (s : ℕ) : Prop where
  served : ∃ r i b, st.session s = some r ∧ Streams.index r.schedId = some i ∧
    (st.sched i).rtpSession = some s ∧ (st.media r.currentMedia).pktBuffer = some b ∧
    (st.refs b).isSome = true

/-- Nothing changes but whether sessions are started or paused, and who reads what. -/
structure Steady (st st' : Streams) : Prop where
  sched : st'.sched = st.sched
  entries : st'.entries = st.entries
  session : ∀ s r, st.session s = some r → ∃ r', st'.session s = some r' ∧
    r'.schedId = r.schedId ∧ r'.currentMedia = r.currentMedia ∧ r'.sdFilename = r.sdFilename ∧
    r'.startSeq = r.startSeq ∧ r'.startRtptime = r.startRtptime
  refs : ∀ b, (st.refs b).isSome = true → (st'.refs b).isSome = true

namespace Steady

variable {st st₁ st₂ : Streams}

theorem refl (st : Streams) : Steady st st :=
  ⟨rfl, rfl, fun _ r h => ⟨r, h, rfl, rfl, rfl, rfl, rfl⟩, fun _ h => h⟩

theorem trans (h₁ : Steady st st₁) (h₂ : Steady st₁ st₂) : Steady st st₂ where
  sched := h₂.sched.trans h₁.sched
  entries := h₂.entries.trans h₁.entries
  session := by
    intro s r hr
    obtain ⟨r₁, hr₁, hid₁, hm₁, hf₁, hq₁, ht₁⟩ := h₁.session s r hr
    obtain ⟨r₂, hr₂, hid₂, hm₂, hf₂, hq₂, ht₂⟩ := h₂.session s r₁ hr₁
    exact ⟨r₂, hr₂, hid₂.trans hid₁, hm₂.trans hm₁, hf₂.trans hf₁, hq₂.trans hq₁, ht₂.trans ht₁⟩
  refs := fun b hb => h₂.refs b (h₁.refs b hb)

theorem media (h : Steady st st₁) (m : ℕ) : st₁.media m = st.media m := by
  unfold Streams.media
  rw [h.entries]

theorem served (h : Steady st st₁) {s : ℕ} (hs : Served st s) : Served st₁ s := by
  obtain ⟨r, i, b, hr, hi, hheld, hb, href⟩ := hs.served
  obtain ⟨r₁, hr₁, hid, hm, -⟩ := h.session s r hr
  refine ⟨r₁, i, b, hr₁, ?_, ?_, ?_, h.refs b href⟩
  · rw [hid, hi]
  · rw [h.sched, hheld]
  · rw [hm, h.media, hb]

theorem setSession {s : ℕ} {r r' : RTPSession} (hr : st.session s = some r)
    (hid : r'.schedId = r.schedId) (hm : r'.currentMedia = r.currentMedia)
    (hf : r'.sdFilename = r.sdFilename) (hq : r'.startSeq = r.startSeq)
    (ht : r'.startRtptime = r.startRtptime) : Steady st (st.setSession s (some r')) where
  sched := rfl
  entries := rfl
  session := by
    intro t q hq'
    rw [Streams.session_setSession (Streams.lt_of_session hr)]
    by_cases hts : t = s
    · rw [hts, hr] at hq'
      cases hq'
      rw [if_pos hts]
      exact ⟨r', rfl, hid, hm, hf, hq, ht⟩
    · rw [if_neg hts]
      exact ⟨q, hq', rfl, rfl, rfl, rfl, rfl⟩
  refs := fun _ hb => hb

theorem setRefs {b n : ℕ} (hn : st.refs b = some n) (k : ℕ) :
    Steady st (st.setRefs b (some k)) where
  sched := rfl
  entries := rfl
  session := fun _ r hr => ⟨r, hr, rfl, rfl, rfl, rfl, rfl⟩
  refs := by
    intro c hc
    rw [Streams.refs_setRefs (Streams.lt_of_refs hn)]
    split
    · rfl
    · exact hc

theorem start {id : ℤ} (h : st.schedule_start id = some st₁) : Steady st st₁ := by
  obtain ⟨i, s, r, b, n, -, -, hr, -, hn, rfl⟩ := Streams.start_cases h
  have hr' : (st.setRefs b (some (BufferPool.incr16 n))).session s = some r := hr
  exact (Steady.setRefs hn _).trans (Steady.setSession hr' rfl rfl rfl rfl rfl)

theorem resume {id : ℤ} (h : st.schedule_resume id = some st₁) : Steady st st₁ := by
  obtain ⟨i, s, r, -, -, hr, rfl⟩ := Streams.resume_cases h
  exact Steady.setSession hr rfl rfl rfl rfl rfl

end Steady

theorem Served.alive {st : Streams} {s : ℕ} (h : Served st s) : ∃ r, st.session s = some r := by
  obtain ⟨r, _, _, hr, -⟩ := h.served
  exact ⟨r, hr⟩

theorem Served.start {st : Streams} {s : ℕ} {r : RTPSession} (h : Served st s)
    (hr : st.session s = some r) : ∃ st', st.schedule_start r.schedId = some st' := by
  obtain ⟨r', i, b, hr', hi, hheld, hb, href⟩ := h.served
  rw [hr] at hr'
  cases hr'
  obtain ⟨n, hn⟩ := Option.isSome_iff_exists.mp href
  have hheld' : st.held i = some (s, r) := Streams.held_eq.mpr ⟨hheld, hr⟩
  unfold Streams.schedule_start Streams.OMSbuff_ref
  rw [hi, Option.bind_some, hheld', Option.bind_some]
  dsimp only
  rw [hb, Option.bind_some, hn]
  exact ⟨_, rfl⟩

theorem Served.resume {st : Streams} {s : ℕ} {r : RTPSession} (h : Served st s)
    (hr : st.session s = some r) : ∃ st', st.schedule_resume r.schedId = some st' := by
  obtain ⟨r', i, b, hr', hi, hheld, -⟩ := h.served
  rw [hr] at hr'
  cases hr'
  have hheld' : st.held i = some (s, r) := Streams.held_eq.mpr ⟨hheld, hr⟩
  unfold Streams.schedule_resume
  rw [hi, Option.bind_some, hheld']
  exact ⟨_, rfl⟩

theorem Served.startOrResume {st : Streams} {s : ℕ} (h : Served st s) :
    ∃ st', startOrResume st s = some st' ∧ Steady st st' := by
  obtain ⟨r, hr⟩ := h.alive
  unfold Rtsp.startOrResume
  rw [hr, Option.bind_some]
  split
  · obtain ⟨st', hst⟩ := h.start hr
    exact ⟨st', hst, .start hst⟩
  · split
    · exact ⟨st, rfl, .refl st⟩
    · obtain ⟨st', hst⟩ := h.resume hr
      exact ⟨st', hst, .resume hst⟩

theorem playLoop_served {onlyPriority : Bool} {list : List ℕ} {st : Streams}
    (h : ∀ s ∈ list, Served st s) :
    ∃ st', playLoop onlyPriority list st = some st' ∧ Steady st st' := by
  induction list generalizing st with
  | nil => exact ⟨st, rfl, .refl st⟩
  | cons s rest ih =>
    have hs := h s List.mem_cons_self
    have hrest := fun t ht => h t (List.mem_cons_of_mem s ht)
    obtain ⟨r, hr⟩ := hs.alive
    unfold playLoop
    rw [hr, Option.bind_some]
    split
    · exact ih hrest
    · obtain ⟨st₁, hst₁, hsteady⟩ := hs.startOrResume
      rw [hst₁, Option.bind_some]
      obtain ⟨st₂, hst₂, hsteady'⟩ := ih fun t ht => hsteady.served (hrest t ht)
      exact ⟨st₂, hst₂, hsteady.trans hsteady'⟩

theorem pauseLoop_served {list : List ℕ} {st : Streams} (h : ∀ s ∈ list, Served st s) :
    ∃ st', pauseLoop list st = some st' := by
  induction list generalizing st with
  | nil => exact ⟨st, rfl⟩
  | cons s rest ih =>
    obtain ⟨r, hr⟩ := (h s List.mem_cons_self).alive
    have hsteady : Steady st (st.setSession s (some { r with pause := true })) :=
      .setSession hr rfl rfl rfl rfl rfl
    unfold pauseLoop
    rw [hr, Option.bind_some]
    exact ih fun t ht => hsteady.served (h t (List.mem_cons_of_mem s ht))

def playsFile (st : Streams) (name : Bytes) (s : ℕ) : Prop :=
  ∃ r, st.session s = some r ∧ (st.media r.currentMedia).filename = name

theorem findFile_served {name : Bytes} {list : List ℕ} {st : Streams}
    (h : ∀ s ∈ list, Served st s) :
    (findFile st name list = some none ∧ ∀ s ∈ list, ¬ playsFile st name s) ∨
      ∃ s ∈ list, ∃ r, findFile st name list = some (some r) ∧ st.session s = some r ∧
        playsFile st name s := by
  induction list with
  | nil => exact .inl ⟨rfl, fun s hs => absurd hs List.not_mem_nil⟩
  | cons s rest ih =>
    obtain ⟨r, hr⟩ := (h s List.mem_cons_self).alive
    unfold findFile
    rw [hr, Option.bind_some]
    split
    · rename_i hname
      exact .inr ⟨s, List.mem_cons_self, r, rfl, hr, r, hr, hname⟩
    · rename_i hname
      rcases ih fun t ht => h t (List.mem_cons_of_mem s ht) with
        ⟨hnone, hall⟩ | ⟨t, ht, q, hq, hqt, hplays⟩
      · refine .inl ⟨hnone, fun t ht => ?_⟩
        rcases List.mem_cons.mp ht with rfl | ht
        · rintro ⟨q, hq, hqname⟩
          rw [hr] at hq
          cases hq
          exact hname hqname
        · exact hall t ht
      · exact .inr ⟨t, List.mem_cons_of_mem s ht, q, hq, hqt, hplays⟩

theorem mapM_served {list : List ℕ} {st : Streams} (h : ∀ s ∈ list, Served st s) :
    ∃ rs, list.mapM st.session = some rs := by
  induction list with
  | nil => exact ⟨[], rfl⟩
  | cons s rest ih =>
    obtain ⟨r, hr⟩ := (h s List.mem_cons_self).alive
    obtain ⟨rs, hrs⟩ := ih fun t ht => h t (List.mem_cons_of_mem s ht)
    exact ⟨r :: rs, by rw [List.mapM_cons, hr, hrs]; rfl⟩

theorem Steady.rtpInfos {st st' : Streams} (hsteady : Steady st st') (w : World) {list : List ℕ}
    {rs rs' : List RTPSession} (hrs : list.mapM st.session = some rs)
    (hrs' : list.mapM st'.session = some rs') :
    rs'.map (rtpInfo w st') = rs.map (rtpInfo w st) := by
  induction list generalizing rs rs' with
  | nil =>
    cases hrs
    cases hrs'
    rw [List.reverse_nil, List.map_nil, List.map_nil]
  | cons s rest ih =>
    rw [List.mapM_cons] at hrs hrs'
    obtain ⟨r, hr, hrs⟩ := Option.bind_eq_some_iff.mp hrs
    obtain ⟨r', hr', hrs'⟩ := Option.bind_eq_some_iff.mp hrs'
    obtain ⟨tail, htail, hrs⟩ := Option.bind_eq_some_iff.mp hrs
    obtain ⟨tail', htail', hrs'⟩ := Option.bind_eq_some_iff.mp hrs'
    cases hrs
    cases hrs'
    obtain ⟨q, hq, -, hm, hf, hseq, ht⟩ := hsteady.session s r hr
    rw [hr'] at hq
    cases hq
    have hinfo : rtpInfo w st' r' = rtpInfo w st r := by
      unfold rtpInfo
      rw [hsteady.media, hm, hf, hseq, ht]
    rw [List.map_cons, List.map_cons, ih htail htail', hinfo]

/-! ### What is asked and what is promised -/

inductive ControlMethod where
  | play | pause | teardown
  deriving DecidableEq

def ControlMethod.method : ControlMethod → Method
  | .play => .play
  | .pause => .pause
  | .teardown => .teardown

/-- The URL on the first line, of any length. -/
def urlWord (inp : Bytes) : Option Bytes :=
  ((scanAnyWord inp).bind fun t => scanAnyWord t.2).map Prod.fst

/-- A request for a control URL, as it stands in a description or behind the name of a
server, with the number of the session. -/
structure Asks (m : ControlMethod) (url : Bytes) (id : ℤ) (n : ℕ) (inp : Bytes) : Prop where
  method : messageMethod inp = some m.method
  url : urlWord inp = some url ∨
    ∃ server, urlWord inp = some (lit "rtsp://" ++ server ++ lit "/" ++ url)
  cseq : scanCseq (scanWord 254) inp = some n
  session : scanSession inp = some (some id)
  range : (rangeChecks inp).run = some (.ok ())
  log : logUserAgent inp = some ()

/-- The RTP sessions that a control of the presentation `url` stands for. -/
def Designates (st : Streams) (url : Bytes) (c : Mediainfo.Control) (s : ℕ) : Prop :=
  ∃ r, st.session s = some r ∧ r.sdFilename = url ∧
    match c with
    | .presentation => True
    | .aggregate name => (st.media r.currentMedia).aggregate = name
    | .stream filename => (st.media r.currentMedia).filename = filename

/-- A session is unlinked, and its entry in the schedule is free. -/
structure Released (rtsp' : RTSPBuffer) (st st' : Streams) (s : ℕ) : Prop where
  unlinked : s ∉ rtsp'.sessions
  removed : ∀ r i, st.session s = some r → Streams.index r.schedId = some i →
    (st'.sched i).valid = false

/-- A reply 200 is handed to `bwrite`, whether or not `out_buffer` has room for it, and a TEARDOWN has
released all that the control stands for. -/
def ControlServed (m : ControlMethod) (c : Mediainfo.Control) (url : Bytes) (w : World)
    (inp : Bytes) (rtsp : RTSPBuffer) (st : Streams) : Prop :=
  ∃ rtsp' st' reply, handleMessage w inp rtsp st = some (rtsp', st') ∧
    rtsp'.out = rtsp.out.bwrite reply ∧ reply.status = 200 ∧
    (m = .teardown → ∀ s ∈ rtsp.sessions, Designates st url c s → Released rtsp' st st' s)

/-- A connection with streams of the presentation: those that the control stands for are set
up. -/
structure StreamsSetUp (d : Mediainfo.SDDescr) (c : Mediainfo.Control) (url : Bytes)
    (p : RTSPSession) (st : Streams) : Prop where
  nonempty : p.rtpSession ≠ []
  served : ∀ s ∈ p.rtpSession, Served st s
  streams : ∀ e ∈ d.meList, e.description.priority = 1 →
    (match c with
      | .presentation => True
      | .aggregate name => e.aggregate = name
      | .stream filename => e.filename = filename) →
    ∃ s ∈ p.rtpSession, ∃ r, st.session s = some r ∧ r.sdFilename = url ∧
      (st.media r.currentMedia).filename = e.filename ∧
      (st.media r.currentMedia).aggregate = e.aggregate

/-- A request for something that the description of a presentation advertises, in a state
that allows the method. -/
structure ControlRequest (load : Mediainfo.Loader) (file : Mediainfo.StoredFile)
    (d : Mediainfo.SDDescr) (c : Mediainfo.Control) (url : Bytes) (m : ControlMethod) (n : ℕ)
    (inp : Bytes) (rtsp : RTSPBuffer) (p : RTSPSession) (st : Streams) : Prop where
  parsed : Mediainfo.parse_SD_file load (some file) { filename := url } = some (.ok d)
  advertised : Mediainfo.Advertises d c
  connection : rtsp.sessionList = some p
  setUp : StreamsSetUp d c url p st
  allowed : ∃ next, Transition p.curState m.method next
  asks : Asks m (c.url url) p.sessionId n inp

/-! ### When the methods keep it -/

/-- PLAY looks for a file if the URL has a `!` and ends like one. -/
structure PlayWorks (w : World) (n : ℕ) (p : RTSPSession) (st : Streams) (u : Url) : Prop where
  relative : NoRelative u.object
  extension : (strrchr u.object 46).isSome = true
  file : ∀ q ext, strchr u.object 33 = some q → strrchr u.object 46 = some ext →
    is_supported_url ext = true → ∃ s ∈ p.rtpSession, playsFile st (q.drop 1) s
  fits : ∃ rs, p.rtpSession.mapM st.session = some rs ∧
    (playReply w n st p.sessionId rs).render.length < 1024

/-- PAUSE wants the name of the server, and a presentation in front of the `!`. -/
structure PauseWorks (w : World) (n : ℕ) (p : RTSPSession) (u : Url) : Prop where
  server : u.server = w.hostname
  relative : NoRelative u.object
  extension : ∃ object ext, (strtok ⟨u.object, 0⟩ (lit "!")).1 = some object ∧
    strrchr object 46 = some ext ∧ is_supported_url ext = true
  fits : (pauseReply w n p.sessionId).render.length < 1024

def teardownReply (w : World) (cseq sessionId : ℤ) : Reply :=
  ⟨200, cseq, serverLine ++ add_time_stamp w ++ lit "Session: " ++ intText sessionId ++ el ++ el⟩

/-- The loop of TEARDOWN releases a session with this file name or aggregate. -/
def NamedBy (st : Streams) (filename : Bytes) (r : RTPSession) : Prop :=
  (st.media r.currentMedia).filename = filename ∨ (st.media r.currentMedia).aggregate = filename

/-- TEARDOWN wants that the whole URL ends like a file, and compares what stands behind the
`!`, or the name of the presentation, with the files and aggregates. -/
structure TeardownWorks (w : World) (n : ℕ) (p : RTSPSession) (st : Streams) (url : Bytes)
    (c : Mediainfo.Control) (u : Url) : Prop where
  relative : NoRelative u.object
  extension : ∃ ext, strrchr u.object 46 = some ext ∧ is_supported_url ext = true
  names : ∀ s ∈ p.rtpSession, Designates st url c s → ∃ r, st.session s = some r ∧
    NamedBy st (TeardownRequest.filename ⟨p.sessionId, u.object⟩) r
  fits : (teardownReply w n p.sessionId).render.length < 1024

/-- What the request must be like for its method. -/
def ControlWorks (m : ControlMethod) (c : Mediainfo.Control) (url : Bytes) (w : World) (n : ℕ)
    (inp : Bytes) (p : RTSPSession) (st : Streams) : Prop :=
  ∃ u, readUrl inp = some u ∧
    match m with
    | .play => PlayWorks w n p st u
    | .pause => PauseWorks w n p u
    | .teardown => TeardownWorks w n p st url c u

/-! ### What each method does -/

theorem send_isSome {cap : ℕ} {r : Reply} {rtsp : RTSPBuffer} :
    (send cap r rtsp).isSome = true ↔ r.render.length < cap := by
  unfold send
  split
  · rename_i h
    exact ⟨fun _ => h, fun _ => rfl⟩
  · rename_i h
    simp [h]

/-- A method that returns has answered with 200 if its checks pass, and not otherwise. -/
theorem Decides.answered {rtsp : RTSPBuffer} {st : Streams} {y : Checks Unit} {ends : Bool}
    {x : Handled} {out : ℤ × RTSPBuffer × Streams} (h : Decides rtsp st y ends x)
    (href : Refuses y) (hout : x = some out) :
    (∃ reply, out.2.1.out = rtsp.out.bwrite reply ∧ reply.status = 200) ↔
      y.run = some (.ok ()) := by
  obtain ⟨e, reply, hy, hended⟩ := h out hout
  cases e with
  | ok u => exact ⟨fun _ => hy, fun _ => ⟨reply, hended.bwrite, hended.status⟩⟩
  | error r =>
    constructor
    · rintro ⟨reply', hbwrite, hstatus⟩
      rw [bwrite_inj (hended.bwrite.symm.trans hbwrite)] at hended
      exact absurd (hended.status.symm.trans hstatus) (href r hy)
    · intro hok
      rw [hy] at hok
      cases hok

section
variable {m : ControlMethod} {text : Bytes} {n : ℕ} {inp : Bytes} {w : World}
  {rtsp : RTSPBuffer} {p : RTSPSession} {st : Streams}

/-! PLAY -/

theorem playRequest_ok (hasks : Asks m text p.sessionId n inp) {r : PlayRequest} :
    (playRequest inp).run = some (.ok r) ↔ ∃ u ext, readUrl inp = some u ∧ NoRelative u.object ∧
      strrchr u.object 46 = some ext ∧ r = ⟨p.sessionId, u.object, is_supported_url ext⟩ := by
  unfold playRequest
  constructor
  · intro h
    obtain ⟨_, -, h⟩ := run_bind_iff.mp h
    obtain ⟨id, hid, h⟩ := run_bind_iff.mp h
    obtain ⟨u, hu, h⟩ := run_bind_iff.mp h
    obtain ⟨_, hrel, h⟩ := run_bind_iff.mp h
    obtain ⟨ext, hext, h⟩ := run_bind_iff.mp h
    rw [requestSession_ok hasks.session] at hid
    cases hid
    cases h
    exact ⟨u, ext, requestUrl_ok.mp hu, noRelativePath_ok.mp hrel, extension_ok.mp hext, rfl⟩
  · rintro ⟨u, ext, hu, hrel, hext, rfl⟩
    refine run_bind_iff.mpr ⟨(), hasks.range, ?_⟩
    refine run_bind_iff.mpr ⟨p.sessionId, requestSession_ok hasks.session, ?_⟩
    refine run_bind_iff.mpr ⟨u, requestUrl_ok.mpr hu, ?_⟩
    refine run_bind_iff.mpr ⟨(), noRelativePath_ok.mpr hrel, ?_⟩
    exact run_bind_iff.mpr ⟨ext, extension_ok.mpr hext, rfl⟩

theorem playTarget_ok (hserved : ∀ s ∈ p.rtpSession, Served st s) (t : Target) :
    (∃ st₁, (playTarget p st t).run = some (.ok st₁) ∧ Steady st st₁ ∧
      ∀ name, t = .file name → ∃ s ∈ p.rtpSession, playsFile st name s) ∨
      ∃ name, t = .file name ∧ (∀ s ∈ p.rtpSession, ¬ playsFile st name s) ∧
        ∀ st₁, (playTarget p st t).run ≠ some (.ok st₁) := by
  cases t with
  | presentation =>
    obtain ⟨st₁, hst₁, hsteady⟩ := @playLoop_served true _ _ hserved
    exact .inl ⟨st₁, by unfold playTarget; rw [hst₁]; rfl, hsteady, fun name h => nomatch h⟩
  | aggregate =>
    obtain ⟨st₁, hst₁, hsteady⟩ := @playLoop_served false _ _ hserved
    exact .inl ⟨st₁, by unfold playTarget; rw [hst₁]; rfl, hsteady, fun name h => nomatch h⟩
  | file name =>
    unfold playTarget
    dsimp only
    rcases @findFile_served name _ _ hserved with ⟨hnone, hall⟩ | ⟨s, hs, r, hfind, hr, hplays⟩
    · refine .inr ⟨name, rfl, hall, fun st₁ h => ?_⟩
      rw [hnone] at h
      cases h
    · obtain ⟨st₁, hst₁⟩ := (hserved s hs).start hr
      refine .inl ⟨st₁, by rw [hfind]; dsimp only; rw [hst₁]; rfl, .start hst₁, fun name' h => ?_⟩
      cases h
      exact ⟨s, hs, hplays⟩

/-- Whatever it starts, the reply is sent if it fits. -/
theorem send_play_reply_isSome (hset : p.rtpSession ≠ [])
    (hserved : ∀ s ∈ p.rtpSession, Served st s) {st₁ : Streams} (hsteady : Steady st st₁) :
    (send_play_reply w { rtsp with rtspCseq := n } st₁ p).isSome = true ↔
      ∃ rs, p.rtpSession.mapM st.session = some rs ∧
        (playReply w n st p.sessionId rs).render.length < 1024 := by
  obtain ⟨rs, hrs⟩ := mapM_served hserved
  obtain ⟨rs₁, hrs₁⟩ := mapM_served fun s hs => hsteady.served (hserved s hs)
  have hreply : playReply w n st₁ p.sessionId rs₁ = playReply w n st p.sessionId rs := by
    unfold playReply
    rw [hsteady.rtpInfos w hrs hrs₁]
  unfold send_play_reply
  rw [if_neg hset, hrs₁, Option.bind_some, send_isSome, hreply]
  constructor
  · intro h
    exact ⟨rs, hrs, h⟩
  · rintro ⟨rs', hrs', h⟩
    rw [hrs] at hrs'
    cases hrs'
    exact h

theorem target_eq_file {r : PlayRequest} {name : Bytes} :
    r.target = .file name ↔ ∃ q, strchr r.object 33 = some q ∧ r.isFile = true ∧ name = q.drop 1 := by
  unfold PlayRequest.target
  cases strchr r.object 33 with
  | none =>
    constructor
    · intro h
      cases h
    · rintro ⟨q, h, -⟩
      cases h
  | some q =>
    dsimp only
    split
    · rename_i hfile
      constructor
      · intro h
        cases h
        exact ⟨q, rfl, hfile, rfl⟩
      · rintro ⟨q', hq', -, rfl⟩
        cases hq'
        rfl
    · rename_i hfile
      constructor
      · intro h
        cases h
      · rintro ⟨q', -, h, -⟩
        exact absurd h hfile

theorem play_answers (hasks : Asks .play text p.sessionId n inp)
    (hp : rtsp.sessionList = some p) (hset : p.rtpSession ≠ [])
    (hserved : ∀ s ∈ p.rtpSession, Served st s) :
    (∃ out, RTSP_play w inp rtsp st = some out ∧ (playChecks inp rtsp st).run = some (.ok ())) ↔
      ∃ u, readUrl inp = some u ∧ PlayWorks w n p st u := by
  have hn := @requestCseq_ok errNoerror _ _ hasks.cseq
  have hsession := @sameSession_run errNoerror { rtsp with rtspCseq := n } p hp
  unfold RTSP_play
  rw [check_ok hn]
  dsimp only
  constructor
  · rintro ⟨out, hout, hchecks⟩
    obtain ⟨n', hn', hchecks⟩ := run_bind_iff.mp hchecks
    rw [hn] at hn'
    cases hn'
    obtain ⟨r, hr, hchecks⟩ := run_bind_iff.mp hchecks
    obtain ⟨session, hs, hchecks⟩ := run_bind_iff.mp hchecks
    obtain ⟨st₁, hst₁, -⟩ := run_bind_iff.mp hchecks
    rw [check_ok hr, check_ok hs, check_ok hst₁] at hout
    obtain ⟨u, ext, hu, hrel, hext, rfl⟩ := (playRequest_ok hasks).mp hr
    rw [hsession] at hs
    cases hs
    rcases playTarget_ok hserved (PlayRequest.target ⟨p.sessionId, u.object, is_supported_url ext⟩)
      with ⟨st₂, hst₂, hsteady, hfile⟩ | ⟨name, -, -, hno⟩
    · rw [hst₁] at hst₂
      cases hst₂
      refine ⟨u, hu, hrel, by rw [hext]; rfl, fun q ext' hq hext' hsupported => ?_, ?_⟩
      · rw [hext] at hext'
        cases hext'
        exact hfile _ (target_eq_file.mpr ⟨q, hq, hsupported, rfl⟩)
      · obtain ⟨rtsp₁, hsent, -⟩ := Option.bind_eq_some_iff.mp hout
        exact (send_play_reply_isSome hset hserved hsteady).mp
          (Option.isSome_iff_exists.mpr ⟨rtsp₁, hsent⟩)
    · exact absurd hst₁ (hno st₁)
  · rintro ⟨u, hu, hworks⟩
    obtain ⟨ext, hext⟩ := Option.isSome_iff_exists.mp hworks.extension
    have hr := (playRequest_ok hasks).mpr ⟨u, ext, hu, hworks.relative, hext, rfl⟩
    rcases playTarget_ok hserved (PlayRequest.target ⟨p.sessionId, u.object, is_supported_url ext⟩)
      with ⟨st₁, hst₁, hsteady, -⟩ | ⟨name, hname, hall, -⟩
    · obtain ⟨rtsp₁, hsent⟩ := Option.isSome_iff_exists.mp
        ((send_play_reply_isSome hset hserved hsteady).mpr hworks.fits)
      rw [check_ok hr, check_ok hsession, check_ok hst₁, hsent, Option.bind_some, hasks.log]
      refine ⟨_, rfl, run_bind_iff.mpr ⟨n, hn, run_bind_iff.mpr ⟨_, hr, ?_⟩⟩⟩
      exact run_bind_iff.mpr ⟨p, hsession, run_bind_iff.mpr ⟨st₁, hst₁, rfl⟩⟩
    · obtain ⟨q, hq, hfile, rfl⟩ := target_eq_file.mp hname
      obtain ⟨s, hs, hplays⟩ := hworks.file q ext hq hext hfile
      exact absurd hplays (hall s hs)

/-! PAUSE -/

theorem pauseRequest_ok (hasks : Asks m text p.sessionId n inp) {id : ℤ} :
    (pauseRequest w inp).run = some (.ok id) ↔ id = p.sessionId ∧ ∃ u, readUrl inp = some u ∧
      u.server = w.hostname ∧ NoRelative u.object ∧
      ∃ object ext, (strtok ⟨u.object, 0⟩ (lit "!")).1 = some object ∧
        strrchr object 46 = some ext ∧ is_supported_url ext = true := by
  unfold pauseRequest
  constructor
  · intro h
    obtain ⟨u, hu, h⟩ := run_bind_iff.mp h
    dsimp only at h
    by_cases hserver : u.server = w.hostname
    · rw [if_neg (not_not.mpr hserver)] at h
      obtain ⟨_, hrel, h⟩ := run_bind_iff.mp h
      split at h
      · cases h
      · rename_i object hobject
        obtain ⟨ext, hext, h⟩ := run_bind_iff.mp h
        obtain ⟨_, hsupported, h⟩ := run_bind_iff.mp h
        rw [requestSession_ok hasks.session] at h
        cases h
        exact ⟨rfl, u, requestUrl_ok.mp hu, hserver, noRelativePath_ok.mp hrel, object, ext,
          hobject, extension_ok.mp hext, supported_ok.mp hsupported⟩
    · rw [if_pos hserver] at h
      cases h
  · rintro ⟨rfl, u, hu, hserver, hrel, object, ext, hobject, hext, hsupported⟩
    refine run_bind_iff.mpr ⟨u, requestUrl_ok.mpr hu, ?_⟩
    dsimp only
    rw [if_neg (not_not.mpr hserver)]
    refine run_bind_iff.mpr ⟨(), noRelativePath_ok.mpr hrel, ?_⟩
    rw [hobject]
    refine run_bind_iff.mpr ⟨ext, extension_ok.mpr hext, ?_⟩
    exact run_bind_iff.mpr ⟨(), supported_ok.mpr hsupported, requestSession_ok hasks.session⟩

theorem pause_answers (hasks : Asks .pause text p.sessionId n inp)
    (hp : rtsp.sessionList = some p) (hserved : ∀ s ∈ p.rtpSession, Served st s) :
    (∃ out, RTSP_pause w inp rtsp st = some out ∧ (pauseChecks w inp rtsp).run = some (.ok ())) ↔
      ∃ u, readUrl inp = some u ∧ PauseWorks w n p u := by
  have hn := @requestCseq_ok errNoerror _ _ hasks.cseq
  have hsession := @sameSession_run errNoerror { rtsp with rtspCseq := n } p hp
  obtain ⟨st₁, hst₁⟩ := pauseLoop_served hserved
  unfold RTSP_pause
  rw [check_ok hn]
  dsimp only
  constructor
  · rintro ⟨out, hout, hchecks⟩
    obtain ⟨n', hn', hchecks⟩ := run_bind_iff.mp hchecks
    rw [hn] at hn'
    cases hn'
    obtain ⟨id, hid, -⟩ := run_bind_iff.mp hchecks
    obtain ⟨rfl, u, hu, hserver, hrel, hext⟩ := (pauseRequest_ok hasks).mp hid
    rw [check_ok hid, check_ok hsession, hst₁, Option.bind_some] at hout
    obtain ⟨rtsp₁, hsent, -⟩ := Option.bind_eq_some_iff.mp hout
    exact ⟨u, hu, hserver, hrel, hext, send_isSome.mp (Option.isSome_iff_exists.mpr ⟨rtsp₁, hsent⟩)⟩
  · rintro ⟨u, hu, hworks⟩
    have hid := (pauseRequest_ok hasks).mpr
      ⟨rfl, u, hu, hworks.server, hworks.relative, hworks.extension⟩
    obtain ⟨rtsp₁, hsent⟩ := Option.isSome_iff_exists.mp
      ((@send_isSome 1024 (pauseReply w n p.sessionId) { rtsp with rtspCseq := n }).mpr hworks.fits)
    have hsent' : send_pause_reply w { rtsp with rtspCseq := n } p.sessionId = some rtsp₁ := hsent
    rw [check_ok hid, check_ok hsession, hst₁, Option.bind_some, hsent', Option.bind_some, hasks.log]
    refine ⟨_, rfl, run_bind_iff.mpr ⟨n, hn, run_bind_iff.mpr ⟨_, hid, ?_⟩⟩⟩
    exact run_bind_iff.mpr ⟨p, hsession, rfl⟩

/-! TEARDOWN -/

theorem teardownRequest_ok (hasks : Asks m text p.sessionId n inp) {r : TeardownRequest} :
    (teardownRequest inp).run = some (.ok r) ↔ ∃ u ext, readUrl inp = some u ∧
      NoRelative u.object ∧ strrchr u.object 46 = some ext ∧ is_supported_url ext = true ∧
      r = ⟨p.sessionId, u.object⟩ := by
  unfold teardownRequest
  constructor
  · intro h
    obtain ⟨u, hu, h⟩ := run_bind_iff.mp h
    obtain ⟨_, hrel, h⟩ := run_bind_iff.mp h
    obtain ⟨ext, hext, h⟩ := run_bind_iff.mp h
    obtain ⟨_, hsupported, h⟩ := run_bind_iff.mp h
    obtain ⟨id, hid, h⟩ := run_bind_iff.mp h
    rw [requestSession_ok hasks.session] at hid
    cases hid
    cases h
    exact ⟨u, ext, requestUrl_ok.mp hu, noRelativePath_ok.mp hrel, extension_ok.mp hext,
      supported_ok.mp hsupported, rfl⟩
  · rintro ⟨u, ext, hu, hrel, hext, hsupported, rfl⟩
    refine run_bind_iff.mpr ⟨u, requestUrl_ok.mpr hu, ?_⟩
    refine run_bind_iff.mpr ⟨(), noRelativePath_ok.mpr hrel, ?_⟩
    refine run_bind_iff.mpr ⟨ext, extension_ok.mpr hext, ?_⟩
    refine run_bind_iff.mpr ⟨(), supported_ok.mpr hsupported, ?_⟩
    exact run_bind_iff.mpr ⟨p.sessionId, requestSession_ok hasks.session, rfl⟩

/-- An entry of the schedule is freed, and nothing else that a session is looked up by. -/
structure Removes (st st' : Streams) (i : Fin oneForkMaxConnection) : Prop where
  heap : st'.heap = st.heap
  entries : st'.entries = st.entries
  valid : ∀ j, (st'.sched j).valid = if j = i then false else (st.sched j).valid

theorem Removes.of_remove {st' : Streams} {id : ℤ} (h : st.schedule_remove id = some st') :
    ∃ i, Streams.index id = some i ∧ Removes st st' i := by
  obtain ⟨i, hi, h⟩ := Streams.remove_cases h
  refine ⟨i, hi, ?_⟩
  have hvalid : ∀ j, ((st.unlist i).sched j).valid = if j = i then false else (st.sched j).valid := by
    intro j
    simp only [Streams.unlist, Streams.setEntry, Function.update_apply]
    split
    · rfl
    · rfl
  rcases h with ⟨s, -, rfl⟩ | ⟨-, rfl⟩
  · exact ⟨rfl, rfl, hvalid⟩
  · exact ⟨rfl, rfl, hvalid⟩

theorem Removes.session {st' : Streams} {i : Fin oneForkMaxConnection} (h : Removes st st' i)
    (s : ℕ) : st'.session s = st.session s := by
  unfold Streams.session
  rw [h.heap]

theorem Removes.namedBy {st' : Streams} {i : Fin oneForkMaxConnection} (h : Removes st st' i)
    {filename : Bytes} {r : RTPSession} : NamedBy st' filename r ↔ NamedBy st filename r := by
  unfold NamedBy Streams.media
  rw [h.entries]

/-- What the loop of TEARDOWN leaves. -/
structure TornDown (filename : Bytes) (list left : List ℕ) (st st' : Streams) : Prop where
  subset : ∀ s ∈ left, s ∈ list
  free : ∀ i, (st.sched i).valid = false → (st'.sched i).valid = false
  left : ∀ s ∈ list, ∀ r, st.session s = some r → (s ∈ left ↔ ¬ NamedBy st filename r)
  removed : ∀ s ∈ list, ∀ r i, st.session s = some r → Streams.index r.schedId = some i →
    NamedBy st filename r → (st'.sched i).valid = false

/-- The sessions with the name are removed from the schedule, and the others are left. -/
theorem teardownLoop_served {filename : Bytes} {list : List ℕ} {st : Streams}
    (h : ∀ s ∈ list, ∃ r i, st.session s = some r ∧ Streams.index r.schedId = some i) :
    ∃ left st', teardownLoop filename list st = some (left, st') ∧
      TornDown filename list left st st' := by
  induction list generalizing st with
  | nil =>
    refine ⟨[], st, rfl, fun _ h => h, fun _ h => h, ?_, ?_⟩
    · intro s hs
      cases hs
    · intro s hs
      cases hs
  | cons s rest ih =>
    obtain ⟨r, i, hr, hi⟩ := h s List.mem_cons_self
    unfold teardownLoop
    rw [hr, Option.bind_some]
    dsimp only
    by_cases hname : NamedBy st filename r
    · have hremove : ∃ st₁, st.schedule_remove r.schedId = some st₁ := by
        unfold Streams.schedule_remove
        rw [hi]
        exact ⟨_, rfl⟩
      obtain ⟨st₁, hst₁⟩ := hremove
      obtain ⟨i', hi', hrem⟩ := Removes.of_remove hst₁
      rw [hi] at hi'
      cases hi'
      obtain ⟨left, st₂, hloop, htorn⟩ := @ih st₁ fun t ht => by
        obtain ⟨q, j, hq, hj⟩ := h t (List.mem_cons_of_mem s ht)
        exact ⟨q, j, by rw [hrem.session, hq], hj⟩
      rw [if_pos (show _ ∨ _ from hname), hst₁, Option.bind_some]
      have hfree : (st₁.sched i).valid = false := by
        rw [hrem.valid, if_pos rfl]
      refine ⟨left, st₂, hloop, fun t ht => List.mem_cons_of_mem s (htorn.subset t ht), ?_, ?_, ?_⟩
      · intro j hj
        apply htorn.free
        rw [hrem.valid]
        split
        · rfl
        · exact hj
      · intro t ht q hq
        rcases List.mem_cons.mp ht with rfl | ht
        · rw [hr] at hq
          cases hq
          refine ⟨fun hleft => ?_, fun hnot => absurd hname hnot⟩
          have hnot := (htorn.left t (htorn.subset t hleft) r (by rw [hrem.session, hr])).mp hleft
          exact absurd (hrem.namedBy.mpr hname) hnot
        · rw [htorn.left t ht q (by rw [hrem.session, hq]), hrem.namedBy]
      · intro t ht q j hq hj hnamed
        rcases List.mem_cons.mp ht with rfl | ht
        · rw [hr] at hq
          cases hq
          rw [hi] at hj
          cases hj
          exact htorn.free i hfree
        · exact htorn.removed t ht q j (by rw [hrem.session, hq]) hj (hrem.namedBy.mpr hnamed)
    · obtain ⟨left, st₁, hloop, htorn⟩ := ih fun t ht => h t (List.mem_cons_of_mem s ht)
      rw [if_neg (show ¬ (_ ∨ _) from hname), hloop]
      refine ⟨s :: left, st₁, rfl, ?_, htorn.free, ?_, ?_⟩
      · intro t ht
        rcases List.mem_cons.mp ht with rfl | ht
        · exact List.mem_cons_self
        · exact List.mem_cons_of_mem s (htorn.subset t ht)
      · intro t ht q hq
        by_cases hts : t = s
        · rw [hts, hr] at hq
          cases hq
          rw [hts]
          exact ⟨fun _ => hname, fun _ => List.mem_cons_self⟩
        · rcases List.mem_cons.mp ht with rfl | ht
          · exact absurd rfl hts
          · rw [← htorn.left t ht q hq, List.mem_cons]
            exact ⟨fun h => h.resolve_left hts, .inr⟩
      · intro t ht q j hq hj hnamed
        rcases List.mem_cons.mp ht with rfl | ht
        · rw [hr] at hq
          cases hq
          exact absurd hnamed hname
        · exact htorn.removed t ht q j hq hj hnamed

theorem teardown_answers {url : Bytes} {c : Mediainfo.Control}
    (hasks : Asks .teardown text p.sessionId n inp) (hp : rtsp.sessionList = some p)
    (hserved : ∀ s ∈ p.rtpSession, Served st s) :
    (∃ out, RTSP_teardown w inp rtsp st = some out ∧
        (teardownChecks inp rtsp).run = some (.ok ()) ∧
        ∀ s ∈ rtsp.sessions, Designates st url c s → Released out.2.1 st out.2.2 s) ↔
      ∃ u, readUrl inp = some u ∧ TeardownWorks w n p st url c u := by
  have hn := @requestCseq_ok errParse _ _ hasks.cseq
  have hsession := @sameSession_run errParse { rtsp with rtspCseq := n } p hp
  have hsessions : rtsp.sessions = p.rtpSession := by
    unfold RTSPBuffer.sessions
    rw [hp]
  have hlisted : ∀ s ∈ p.rtpSession, ∃ r i, st.session s = some r ∧
      Streams.index r.schedId = some i := by
    intro s hs
    obtain ⟨r, i, _, hr, hi, -⟩ := (hserved s hs).served
    exact ⟨r, i, hr, hi⟩
  have hleft : ∀ (rtsp₁ : RTSPBuffer) (left : List ℕ),
      RTSPBuffer.sessions { rtsp₁ with sessionList :=
        if left = [] then none else some { p with rtpSession := left } } = left := by
    intro rtsp₁ left
    unfold RTSPBuffer.sessions
    by_cases hnil : left = []
    · rw [if_pos hnil, hnil]
    · rw [if_neg hnil]
  unfold RTSP_teardown
  rw [check_ok hn]
  dsimp only
  constructor
  · rintro ⟨out, hout, hchecks, hreleased⟩
    obtain ⟨n', hn', hchecks⟩ := run_bind_iff.mp hchecks
    rw [hn] at hn'
    cases hn'
    obtain ⟨r, hr, -⟩ := run_bind_iff.mp hchecks
    obtain ⟨u, ext, hu, hrel, hext, hsupported, rfl⟩ := (teardownRequest_ok hasks).mp hr
    rw [check_ok hr, check_ok hsession] at hout
    obtain ⟨rtsp₁, hsent, hout⟩ := Option.bind_eq_some_iff.mp hout
    obtain ⟨_, -, hout⟩ := Option.bind_eq_some_iff.mp hout
    obtain ⟨left, st', hloop, htorn⟩ := @teardownLoop_served
      (TeardownRequest.filename ⟨p.sessionId, u.object⟩) p.rtpSession st hlisted
    rw [hloop, Option.map_some, Option.some.injEq] at hout
    subst hout
    refine ⟨u, hu, hrel, ⟨ext, hext, hsupported⟩, fun s hs hdes => ?_,
      send_isSome.mp (Option.isSome_iff_exists.mpr ⟨rtsp₁, hsent⟩)⟩
    have hunlinked := (hreleased s (hsessions ▸ hs) hdes).unlinked
    dsimp only at hunlinked
    rw [hleft] at hunlinked
    obtain ⟨q, i, hq, -⟩ := hlisted s hs
    refine ⟨q, hq, ?_⟩
    by_contra hnot
    exact hunlinked ((htorn.left s hs q hq).mpr hnot)
  · rintro ⟨u, hu, hworks⟩
    obtain ⟨ext, hext, hsupported⟩ := hworks.extension
    have hr := (teardownRequest_ok hasks).mpr ⟨u, ext, hu, hworks.relative, hext, hsupported, rfl⟩
    obtain ⟨rtsp₁, hsent⟩ := Option.isSome_iff_exists.mp
      ((@send_isSome 1024 (teardownReply w n p.sessionId) { rtsp with rtspCseq := n }).mpr
        hworks.fits)
    have hsent' : send_teardown_reply w { rtsp with rtspCseq := n } p.sessionId n = some rtsp₁ :=
      hsent
    obtain ⟨left, st', hloop, htorn⟩ := @teardownLoop_served
      (TeardownRequest.filename ⟨p.sessionId, u.object⟩) p.rtpSession st hlisted
    rw [check_ok hr, check_ok hsession, hsent', Option.bind_some, hasks.log, Option.bind_some, hloop]
    refine ⟨_, rfl, ?_, fun s hs hdes => ?_⟩
    · refine run_bind_iff.mpr ⟨n, hn, run_bind_iff.mpr ⟨_, hr, ?_⟩⟩
      exact run_bind_iff.mpr ⟨p, hsession, rfl⟩
    · rw [hsessions] at hs
      obtain ⟨q, hq, hnamed⟩ := hworks.names s hs hdes
      constructor
      · dsimp only
        rw [hleft]
        intro hmem
        exact (htorn.left s hs q hq).mp hmem hnamed
      · intro r i hr' hi
        rw [hq] at hr'
        cases hr'
        exact htorn.removed s hs q i hq hi hnamed

theorem handleMessage_table {m : Method} {id : ℤ} (hm : messageMethod inp = some m)
    (hs : scanSession inp = some (some id)) (hp : rtsp.sessionList = some p) :
    ∃ seq, handleMessage w inp rtsp st =
      (cell p.curState m).exec w inp { rtsp with rtspCseq := seq } st := by
  obtain ⟨⟨seq, om⟩, hval, hom⟩ := Option.bind_eq_some_iff.mp hm
  dsimp only at hom
  subst hom
  have hresponse : ¬ RTSP_valid_response_msg inp = true := by
    intro hr
    rw [response_method hr] at hm
    cases hm
  have hnot : ¬ scanSession inp = some none := by
    rw [hs]
    exact fun h => nomatch h
  refine ⟨seq, ?_⟩
  unfold handleMessage
  rw [if_neg hresponse, hval]
  dsimp only
  rw [state_machine_cell, if_neg hnot]
  dsimp only
  rw [hp]

theorem moved_answers {next : CurState} {x : Handled} {y : Checks Unit} {ends : Bool}
    (hdecides : Decides rtsp st y ends x) (href : Refuses y) :
    (∃ rtsp' st' reply, moveTo next x = some (rtsp', st') ∧ rtsp'.out = rtsp.out.bwrite reply ∧
        reply.status = 200) ↔ ∃ out, x = some out ∧ y.run = some (.ok ()) := by
  unfold moveTo
  constructor
  · rintro ⟨rtsp', st', reply, h, hout, hstatus⟩
    obtain ⟨out, hx, h⟩ := Option.map_eq_some_iff.mp h
    refine ⟨out, hx, (hdecides.answered href hx).mp ⟨reply, ?_, hstatus⟩⟩
    dsimp only at h
    split at h
    · cases h
      exact hout
    · cases h
      exact hout
  · rintro ⟨out, hx, hok⟩
    obtain ⟨reply, hout, hstatus⟩ := (hdecides.answered href hx).mpr hok
    rw [hx, Option.map_some]
    dsimp only
    split
    · exact ⟨_, _, reply, rfl, hout, hstatus⟩
    · exact ⟨_, _, reply, rfl, hout, hstatus⟩

theorem stayed_answers {x : Handled} {y : Checks Unit} {ends : Bool}
    {P : RTSPBuffer → Streams → Prop} (hdecides : Decides rtsp st y ends x) (href : Refuses y) :
    (∃ rtsp' st' reply, stay x = some (rtsp', st') ∧ rtsp'.out = rtsp.out.bwrite reply ∧
        reply.status = 200 ∧ P rtsp' st') ↔
      ∃ out, x = some out ∧ y.run = some (.ok ()) ∧ P out.2.1 out.2.2 := by
  unfold stay
  constructor
  · rintro ⟨rtsp', st', reply, h, hout, hstatus, hp⟩
    obtain ⟨⟨rc, out⟩, hx, h⟩ := Option.map_eq_some_iff.mp h
    dsimp only at h
    subst h
    exact ⟨_, hx, (hdecides.answered href hx).mp ⟨reply, hout, hstatus⟩, hp⟩
  · rintro ⟨out, hx, hok, hp⟩
    obtain ⟨reply, hout, hstatus⟩ := (hdecides.answered href hx).mpr hok
    rw [hx]
    exact ⟨_, _, reply, rfl, hout, hstatus, hp⟩

end

/-- A control URL is served by its method exactly if the method takes it apart in the right
way. -/
theorem control_url_served {load : Mediainfo.Loader} {file : Mediainfo.StoredFile}
    {d : Mediainfo.SDDescr} {c : Mediainfo.Control} {url : Bytes} {m : ControlMethod} {n : ℕ}
    {inp : Bytes} {rtsp : RTSPBuffer} {p : RTSPSession} {st : Streams}
    (h : ControlRequest load file d c url m n inp rtsp p st) (w : World) :
    ControlServed m c url w inp rtsp st ↔ ControlWorks m c url w n inp p st := by
  obtain ⟨next, hnext⟩ := h.allowed
  have hasks := h.asks
  obtain ⟨seq, htable⟩ := @handleMessage_table inp w rtsp p st _ _ hasks.method hasks.session
    h.connection
  have hp : ({ rtsp with rtspCseq := seq } : RTSPBuffer).sessionList = some p := h.connection
  have hno : ∀ {m' : ControlMethod} {Q R : Prop}, m' ≠ .teardown →
      ((Q ∧ (m' = .teardown → R)) ↔ Q) := by
    intro m' Q R hne
    exact ⟨And.left, fun hq => ⟨hq, fun he => absurd he hne⟩⟩
  unfold ControlServed ControlWorks
  rw [htable]
  cases m with
  | play =>
    have hcell : cell p.curState .play = .move .play .play := by
      cases hc : p.curState <;> rw [hc] at hnext <;> first | exact hnext.elim | rfl
    have hanswers := @moved_answers { rtsp with rtspCseq := seq } st .play _ _ _
      (play_decides w inp { rtsp with rtspCseq := seq } st) (playChecks_refuses inp _ st)
    refine Iff.trans ?_
      (hanswers.trans (play_answers hasks hp h.setUp.nonempty h.setUp.served))
    simp only [ControlMethod.method, hcell, Cell.exec, Handler.run, ← and_assoc,
      hno (show ControlMethod.play ≠ .teardown from ControlMethod.noConfusion)]
  | pause =>
    have hcell : cell p.curState .pause = .move .pause .ready := by
      cases hc : p.curState <;> rw [hc] at hnext <;> first | exact hnext.elim | rfl
    have hanswers := @moved_answers { rtsp with rtspCseq := seq } st .ready _ _ _
      (pause_decides w inp { rtsp with rtspCseq := seq } st) (pauseChecks_refuses w inp _)
    refine Iff.trans ?_ (hanswers.trans (pause_answers hasks hp h.setUp.served))
    simp only [ControlMethod.method, hcell, Cell.exec, Handler.run, ← and_assoc,
      hno (show ControlMethod.pause ≠ .teardown from ControlMethod.noConfusion)]
  | teardown =>
    have hcell : cell p.curState .teardown = .stay .teardown := by
      cases p.curState <;> rfl
    have hanswers := @stayed_answers { rtsp with rtspCseq := seq } st _ _ _
      (fun rtsp' st' => ∀ s ∈ rtsp.sessions, Designates st url c s → Released rtsp' st st' s)
      (teardown_decides w inp { rtsp with rtspCseq := seq } st) (teardownChecks_refuses inp _)
    refine Iff.trans ?_ (hanswers.trans (teardown_answers hasks hp h.setUp.served))
    simp only [ControlMethod.method, hcell, Cell.exec, Handler.run, forall_const]

/-! ### A presentation with one stream -/

def filmText : Mediainfo.StoredFile where
  ctime := 1
  text := lit "STREAM\nFILE_NAME v.mpg\nENCODING_NAME MPV\nPAYLOAD_TYPE 32\nFRAME_RATE 25\n" ++
    lit "PRIORITY 1\nSTREAM_END\n"

/-- What SETUP finds of it. -/
def filmWorld : World where
  file := .parsed { streams :=
    [{ filename := lit "v.mpg", mtype := .video, encodingName := lit "MPV", priority := 1 }] }

/-- A client has set up the stream in a session with the number 1. -/
structure FilmSetUp (d : Mediainfo.SDDescr) (rtsp : RTSPBuffer) (p : RTSPSession)
    (st : Streams) : Prop where
  parsed : Mediainfo.parse_SD_file Mediainfo.loadVideo (some filmText) { filename := lit "film.sd" } =
    some (.ok d)
  nonempty : d.meList ≠ []
  streams : ∀ e ∈ d.meList, e.filename = lit "v.mpg" ∧ e.aggregate = [] ∧
    e.description.priority = 1
  connection : rtsp.sessionList = some p
  session : p = ⟨.ready, 1, [0]⟩
  served : Served st 0
  stream : ∃ r, st.session 0 = some r ∧ r.sdFilename = lit "film.sd" ∧
    (st.media r.currentMedia).filename = lit "v.mpg" ∧ (st.media r.currentMedia).aggregate = []

theorem FilmSetUp.setUp {d : Mediainfo.SDDescr} {rtsp : RTSPBuffer} {p : RTSPSession} {st : Streams}
    (h : FilmSetUp d rtsp p st) (c : Mediainfo.Control) : StreamsSetUp d c (lit "film.sd") p st where
  nonempty := by
    rw [h.session]
    exact List.cons_ne_nil _ _
  served := by
    intro s hs
    rw [h.session, List.mem_singleton] at hs
    rw [hs]
    exact h.served
  streams := by
    intro e he _ _
    obtain ⟨hfile, hagg, -⟩ := h.streams e he
    obtain ⟨r, hr, hsd, hrfile, hragg⟩ := h.stream
    refine ⟨0, ?_, r, hr, hsd, hrfile.trans hfile.symm, hragg.trans hagg.symm⟩
    rw [h.session]
    exact List.mem_singleton.mpr rfl

theorem film_setUp {q : RTSPBuffer → Streams → Bool}
    (hrun : (exec serverStep Server.init
      [.connect, .request 0 filmWorld (setupMessage 1 "v.mpg" [])]).any (fun sv =>
        (sv.connection 0).any fun rtsp => decide (rtsp.sessionList = some ⟨.ready, 1, [0]⟩) &&
          (sv.st.session 0).any (fun r => decide (r.sdFilename = lit "film.sd") &&
            decide ((sv.st.media r.currentMedia).filename = lit "v.mpg") &&
            decide ((sv.st.media r.currentMedia).aggregate = []) &&
            (Streams.index r.schedId).any (fun i => decide ((sv.st.sched i).rtpSession = some 0)) &&
            (sv.st.media r.currentMedia).pktBuffer.any fun b => (sv.st.refs b).isSome) &&
          q rtsp sv.st) = true) :
    ∃ d rtsp p st, FilmSetUp d rtsp p st ∧ q rtsp st = true := by
  obtain ⟨res, hres, hd⟩ := (Option.any_eq_true _ _).mp (show
    (Mediainfo.parse_SD_file Mediainfo.loadVideo (some filmText)
      { filename := lit "film.sd" }).any (fun res => res.toOption.any fun d =>
        !d.meList.isEmpty && d.meList.all fun e => decide (e.filename = lit "v.mpg") && decide (e.aggregate = []) &&
          decide (e.description.priority = 1)) = true by decide +kernel)
  obtain ⟨sv, -, hrun⟩ := (Option.any_eq_true _ _).mp hrun
  obtain ⟨rtsp, -, hrun⟩ := (Option.any_eq_true _ _).mp hrun
  simp only [Bool.and_eq_true, decide_eq_true_eq] at hrun
  obtain ⟨⟨hlist, hr⟩, hq⟩ := hrun
  obtain ⟨r, hr, hfacts⟩ := (Option.any_eq_true _ _).mp hr
  simp only [Bool.and_eq_true, decide_eq_true_eq] at hfacts
  obtain ⟨⟨⟨⟨hsd, hfile⟩, hagg⟩, hi⟩, hb⟩ := hfacts
  obtain ⟨i, hi, hheld⟩ := (Option.any_eq_true _ _).mp hi
  obtain ⟨b, hb, href⟩ := (Option.any_eq_true _ _).mp hb
  cases res with
  | error e => cases hd
  | ok d =>
    obtain ⟨hne, hd⟩ := Bool.and_eq_true_iff.mp hd
    refine ⟨d, rtsp, _, sv.st, ⟨hres, by simpa using hne, ?_, hlist, rfl, ?_, r, hr, hsd, hfile, hagg⟩, hq⟩
    · intro e he
      have hall := List.all_eq_true.mp hd e he
      simp only [Bool.and_eq_true, decide_eq_true_eq] at hall
      exact ⟨hall.1.1, hall.1.2, hall.2⟩
    · exact ⟨r, i, b, hr, hi, of_decide_eq_true hheld, hb, href⟩

/-- The client asks for the whole presentation to be torn down. -/
def tearFilm : Bytes := message "TEARDOWN" "rtsp://localhost/film.sd" 2 ["Session: 1"]

def playStream : Bytes := message "PLAY" "rtsp://localhost/film.sd!v.mpg" 2 ["Session: 1"]

theorem tearFilm_asks : Asks .teardown (lit "film.sd") 1 2 tearFilm where
  method := by decide +kernel
  url := .inr ⟨lit "localhost", by decide +kernel⟩
  cseq := by decide +kernel
  session := by decide +kernel
  range := by decide +kernel
  log := by decide +kernel

theorem playStream_asks : Asks .play (lit "film.sd!v.mpg") 1 2 playStream where
  method := by decide +kernel
  url := .inr ⟨lit "localhost", by decide +kernel⟩
  cseq := by decide +kernel
  session := by decide +kernel
  range := by decide +kernel
  log := by decide +kernel

/-- A TEARDOWN of the presentation URL is answered with 200 and leaves its stream. -/
theorem presentation_not_torn_down : ∃ d rtsp p st,
    ControlRequest Mediainfo.loadVideo filmText d .presentation (lit "film.sd") .teardown 2 tearFilm
      rtsp p st ∧
    (∃ rtsp' st' reply, handleMessage filmWorld tearFilm rtsp st = some (rtsp', st') ∧
      rtsp'.out = rtsp.out.bwrite reply ∧ reply.status = 200) ∧
    ¬ ControlServed .teardown .presentation (lit "film.sd") filmWorld tearFilm rtsp st := by
  obtain ⟨d, rtsp, p, st, hfilm, hq⟩ := @film_setUp
    (fun rtsp st => (handleMessage filmWorld tearFilm rtsp st).any fun out =>
      out.1.sessions.contains 0 && out.1.out.replies.getLast?.any fun r =>
        decide (r.status = 200) && decide (out.1.out = rtsp.out.bwrite r))
    (by decide +kernel)
  obtain ⟨⟨rtsp', st'⟩, hout, hq⟩ := (Option.any_eq_true _ _).mp hq
  obtain ⟨hleft, hq⟩ := Bool.and_eq_true_iff.mp hq
  obtain ⟨reply, -, hq⟩ := (Option.any_eq_true _ _).mp hq
  obtain ⟨hstatus, hreply⟩ := Bool.and_eq_true_iff.mp hq
  have hsession := hfilm.session
  refine ⟨d, rtsp, p, st, ?_, ⟨rtsp', st', reply, hout, of_decide_eq_true hreply,
    of_decide_eq_true hstatus⟩, ?_⟩
  · refine ⟨hfilm.parsed, .presentation, hfilm.connection, hfilm.setUp _, ⟨none, ?_⟩, ?_⟩
    · rw [hsession]
      exact trivial
    · rw [hsession]
      exact tearFilm_asks
  · rintro ⟨rtsp₁, st₁, _, hout₁, -, -, hreleased⟩
    rw [hout] at hout₁
    cases hout₁
    obtain ⟨r, hr, hsd, -⟩ := hfilm.stream
    have hmem : 0 ∈ rtsp.sessions := by
      unfold RTSPBuffer.sessions
      rw [hfilm.connection, hsession]
      exact List.mem_singleton.mpr rfl
    exact (hreleased rfl 0 hmem ⟨r, hr, hsd, trivial⟩).unlinked (List.contains_iff_mem.mp hleft)

/-- PLAY of the URL of the stream. -/
theorem stream_control_served : ∃ d rtsp p st,
    ControlRequest Mediainfo.loadVideo filmText d (.stream (lit "v.mpg")) (lit "film.sd") .play 2
      playStream rtsp p st ∧
    (ControlServed .play (.stream (lit "v.mpg")) (lit "film.sd") filmWorld playStream rtsp st ↔
      ControlWorks .play (.stream (lit "v.mpg")) (lit "film.sd") filmWorld 2 playStream p st) := by
  obtain ⟨d, rtsp, p, st, hfilm, -⟩ := @film_setUp (fun _ _ => true) (by decide +kernel)
  have hsession := hfilm.session
  obtain ⟨e, he⟩ := List.exists_mem_of_ne_nil _ hfilm.nonempty
  obtain ⟨hfile, -, hpriority⟩ := hfilm.streams e he
  have hrequest : ControlRequest Mediainfo.loadVideo filmText d (.stream (lit "v.mpg"))
      (lit "film.sd") .play 2 playStream rtsp p st := by
    refine ⟨hfilm.parsed, ?_, hfilm.connection, hfilm.setUp _, ⟨some .play, ?_⟩, ?_⟩
    · rw [← hfile]
      exact .stream he hpriority
    · rw [hsession]
      exact trivial
    · rw [hsession]
      exact playStream_asks
  exact ⟨d, rtsp, p, st, hrequest, control_url_served hrequest filmWorld⟩

end Fenice.Rtsp
