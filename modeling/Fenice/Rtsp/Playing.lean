import Fenice.Rtsp.Ranges

/-!
# PLAY and the clocks (RTSP_play.c, schedule_start.c, schedule_resume.c)

`RTSP_play` with the clocks of the media and `mprev_tx_time` of the sessions. It notes what it
did with each session, and what it found there.
-/

namespace Fenice.Rtsp
open Fenice.CString Fenice.Schedule Fenice.Playback

/-- The streams, the clock of each media, and `mprev_tx_time` of each session. -/
structure Timed where
  streams : Streams
  clock : ℕ → Clock
  prev : ℕ → ℚ

/-- What PLAY does with a session: a call of `schedule_start` or of `schedule_resume`, or nothing
if it is already playing. -/
inductive Kind where
  | started | resumed | playing
  deriving DecidableEq

/-- What PLAY does with one session: `refs` is what `OMSbuff_ref` has made of `control->refs`,
`before` and `prev` are the clock and `mprev_tx_time` in front of the call. -/
structure Played where
  kind : Kind
  session : ℕ
  media : ℕ
  refs : ℕ
  before : Clock
  prev : ℚ

/-- The result of `RTSP_play`. -/
structure PlayResult where
  rc : ℤ
  rtsp : RTSPBuffer
  timed : Timed
  played : List Played

section Play

variable (single : ℚ → ℚ) (mktime : Tm → ℤ) (mnow : ℕ → ℚ) (args : PlayArgs)

/-- `schedule_start`; `mnow s` is the time at which session `s` is started. -/
def Timed.schedule_start (t : Timed) (id : ℤ) : Option (Timed × List Played) :=
  (Streams.index id).bind fun i =>
    (t.streams.held i).bind fun (s, r) =>
      (t.streams.media r.currentMedia).pktBuffer.bind fun b =>
        (t.streams.refs b).map fun n =>
          let refs := BufferPool.incr16 n
          let m := r.currentMedia
          ({ streams := (t.streams.setRefs b (some refs)).setSession s
              (some { r with cons := some b, pause := false, started := true })
             clock :=
              if refs = 1 then Function.update t.clock m ((t.clock m).start single mktime (mnow s) args)
              else t.clock
             prev := Function.update t.prev s (mnow s) },
            [⟨.started, s, m, refs, t.clock m, t.prev s⟩])

def Timed.schedule_resume (t : Timed) (id : ℤ) : Option (Timed × List Played) :=
  (Streams.index id).bind fun i =>
    (t.streams.held i).map fun (s, r) =>
      let m := r.currentMedia
      ({ streams := t.streams.setSession s (some { r with pause := false })
         clock := Function.update t.clock m ((t.clock m).resume single (mnow s) args)
         prev := Function.update t.prev s (mnow s - (t.clock m).pktLen) },
        [⟨.resumed, s, m, 0, t.clock m, t.prev s⟩])

/-- Start a session that has not been started, resume one that is paused. -/
def Timed.startOrResume (t : Timed) (s : ℕ) : Option (Timed × List Played) :=
  (t.streams.session s).bind fun r =>
    if r.started = false then t.schedule_start single mktime mnow args r.schedId
    else if r.pause = false then
      some (t, [⟨.playing, s, r.currentMedia, 0, t.clock r.currentMedia, t.prev s⟩])
    else t.schedule_resume single mnow args r.schedId

/-- The loops of `RTSP_play` over the RTP sessions. -/
def Timed.playLoop (onlyPriority : Bool) : List ℕ → Timed → Option (Timed × List Played)
  | [], t => some (t, [])
  | s :: rest, t =>
    (t.streams.session s).bind fun r =>
      if onlyPriority && (t.streams.media r.currentMedia).priority != 1 then
        playLoop onlyPriority rest t
      else
        (t.startOrResume single mktime mnow args s).bind fun u =>
          (playLoop onlyPriority rest u.1).map fun v => (v.1, u.2 ++ v.2)

/-- What PLAY does to the sessions of its list. -/
def Timed.playTarget (session : RTSPSession) (t : Timed) : Target → Checks (Timed × List Played)
  | .presentation =>
    ExceptT.mk ((Timed.playLoop single mktime mnow args true session.rtpSession t).map .ok)
  | .aggregate =>
    ExceptT.mk ((Timed.playLoop single mktime mnow args false session.rtpSession t).map .ok)
  | .file name =>
    match findFile t.streams name session.rtpSession with
    | none => undefined
    | some none => reject 454 errNoerror
    | some (some r) => ExceptT.mk ((t.schedule_start single mktime mnow args r.schedId).map .ok)

end Play

/-- Go on with the value of a check, or reply and return. -/
def checkPlay {α : Type} (rtsp : RTSPBuffer) (t : Timed) (x : Checks α)
    (k : α → Option PlayResult) : Option PlayResult :=
  match x.run with
  | none => none
  | some (.error r) => some ⟨r.rc, send_reply r.status rtsp, t, []⟩
  | some (.ok a) => k a

/-- What PLAY finds where the source leaves variables without a value. -/
structure Stack where
  args : PlayArgs
  t : ℚ

/-- `RTSP_play`. -/
def playTimed (single : ℚ → ℚ) (mktime : Tm → ℤ) (stack : Stack) (mnow : ℕ → ℚ) (w : World)
    (inp : Bytes) (rtsp : RTSPBuffer) (t : Timed) : Option PlayResult :=
  checkPlay rtsp t (requestCseq errNoerror (scanCseq (scanWord 254) inp)) fun n =>
  let rtsp := { rtsp with rtspCseq := n }
  checkPlay rtsp t (rangeArgs single stack.t stack.args inp) fun args =>
  checkPlay rtsp t (playRequest inp) fun r =>
  checkPlay rtsp t (sameSession errNoerror rtsp r.id) fun session =>
  checkPlay rtsp t (t.playTarget single mktime mnow args session r.target) fun u =>
  (send_play_reply w rtsp u.1.streams session).bind fun rtsp =>
  (logUserAgent inp).map fun _ => ⟨errNoerror, rtsp, u.1, u.2⟩

/-! ### Without the clocks -/

section Streams

variable {single : ℚ → ℚ} {mktime : Tm → ℤ} {mnow : ℕ → ℚ} {args : PlayArgs}

theorem schedule_start_streams (t : Timed) (id : ℤ) :
    (t.schedule_start single mktime mnow args id).map (fun u => u.1.streams) =
      t.streams.schedule_start id := by
  unfold Timed.schedule_start Streams.schedule_start
  cases Streams.index id with
  | none => rfl
  | some i =>
    cases hh : t.streams.held i with
    | none => simp [hh]
    | some sr =>
      cases hb : (t.streams.media sr.2.currentMedia).pktBuffer with
      | none => simp [hh, hb]
      | some b =>
        cases hr : t.streams.refs b with
        | none => simp [hh, hb, hr, Streams.OMSbuff_ref]
        | some n => simp [hh, hb, hr, Streams.OMSbuff_ref]

theorem schedule_resume_streams (t : Timed) (id : ℤ) :
    (t.schedule_resume single mnow args id).map (fun u => u.1.streams) =
      t.streams.schedule_resume id := by
  unfold Timed.schedule_resume Streams.schedule_resume
  cases Streams.index id with
  | none => rfl
  | some i => cases hh : t.streams.held i <;> simp [hh]

theorem startOrResume_streams (t : Timed) (s : ℕ) :
    (t.startOrResume single mktime mnow args s).map (fun u => u.1.streams) =
      startOrResume t.streams s := by
  unfold Timed.startOrResume startOrResume
  cases t.streams.session s with
  | none => rfl
  | some r =>
    simp only [Option.bind_some]
    split_ifs
    · exact schedule_start_streams t r.schedId
    · rfl
    · exact schedule_resume_streams t r.schedId

theorem playLoop_streams (onlyPriority : Bool) (l : List ℕ) (t : Timed) :
    (Timed.playLoop single mktime mnow args onlyPriority l t).map (fun u => u.1.streams) =
      playLoop onlyPriority l t.streams := by
  induction l generalizing t with
  | nil => rfl
  | cons s l ih =>
    unfold Timed.playLoop playLoop
    cases t.streams.session s with
    | none => rfl
    | some r =>
      simp only [Option.bind_some]
      split_ifs
      · exact ih t
      · rw [← @startOrResume_streams single mktime mnow args t s]
        cases t.startOrResume single mktime mnow args s with
        | none => rfl
        | some u =>
          simp only [Option.bind_some, Option.map_some, ← ih u.1, Option.map_map]
          rfl

theorem playTarget_streams (session : RTSPSession) (t : Timed) (target : Target) :
    (t.playTarget single mktime mnow args session target).run.map (Except.map fun u => u.1.streams) =
      (playTarget session t.streams target).run := by
  cases target with
  | presentation =>
    simp only [Timed.playTarget, playTarget, ← @playLoop_streams single mktime mnow args, ExceptT.run_mk,
      Option.map_map]
    rfl
  | aggregate =>
    simp only [Timed.playTarget, playTarget, ← @playLoop_streams single mktime mnow args, ExceptT.run_mk,
      Option.map_map]
    rfl
  | file name =>
    simp only [Timed.playTarget, playTarget]
    cases findFile t.streams name session.rtpSession with
    | none => rfl
    | some found =>
      cases found with
      | none => rfl
      | some r =>
        simp only [← @schedule_start_streams single mktime mnow args, ExceptT.run_mk, Option.map_map]
        rfl

/-- What `RTSP_play` returns without the clocks. -/
def PlayResult.handled (out : PlayResult) : ℤ × RTSPBuffer × Streams :=
  (out.rc, out.rtsp, out.timed.streams)

theorem checkPlay_handled {α β : Type} {rtsp : RTSPBuffer} {t : Timed} {x : Checks α}
    {y : Checks β} {f : α → β} {k : α → Option PlayResult} {k' : β → Handled}
    (hx : x.run.map (Except.map f) = y.run) (hk : ∀ a, (k a).map PlayResult.handled = k' (f a)) :
    (checkPlay rtsp t x k).map PlayResult.handled = check rtsp t.streams y k' := by
  unfold checkPlay check
  rw [← hx]
  cases x.run with
  | none => rfl
  | some r =>
    cases r with
    | error e => rfl
    | ok a => exact hk a

theorem except_map_id {ε α : Type} (x : Option (Except ε α)) : x.map (Except.map id) = x := by
  cases x with
  | none => rfl
  | some r => cases r <;> rfl

theorem playTimed_handled (stack : Stack) (w : World) (inp : Bytes)
    (rtsp : RTSPBuffer) (t : Timed) :
    (playTimed single mktime stack mnow w inp rtsp t).map PlayResult.handled =
      RTSP_play w inp rtsp t.streams := by
  refine checkPlay_handled (except_map_id _) fun n => ?_
  have hchecks := @rangeArgs_checks single stack.t stack.args inp
  unfold checkPlay
  cases hargs : (rangeArgs single stack.t stack.args inp).run with
  | none =>
    have hreq : (playRequest inp).run = none := by
      rw [hargs] at hchecks
      rw [playRequest, ExceptT.run_bind, ← hchecks]
      rfl
    rw [check, hreq]
    rfl
  | some r =>
    cases r with
    | error e =>
      have hreq : (playRequest inp).run = some (.error e) := by
        rw [hargs] at hchecks
        rw [playRequest, ExceptT.run_bind, ← hchecks]
        rfl
      rw [check, hreq]
      rfl
    | ok args =>
      refine checkPlay_handled (except_map_id _) fun r => ?_
      refine checkPlay_handled (except_map_id _) fun session => ?_
      refine checkPlay_handled (playTarget_streams session t r.target) fun u => ?_
      simp only [Option.map_bind, Option.map_map, Function.comp_def]
      rfl

end Streams

/-! ### The calls of one PLAY -/

namespace Played

variable (single : ℚ → ℚ) (mktime : Tm → ℤ) (mnow : ℕ → ℚ) (args : PlayArgs)

/-- The clock of the media behind the call. -/
def after (x : Played) : Clock :=
  match x.kind with
  | .started =>
    if x.refs = 1 then x.before.start single mktime (mnow x.session) args else x.before
  | .resumed => x.before.resume single (mnow x.session) args
  | .playing => x.before

/-- `mprev_tx_time` of the session behind the call. -/
def prevAfter (x : Played) : ℚ :=
  match x.kind with
  | .started => mnow x.session
  | .resumed => mnow x.session - x.before.pktLen
  | .playing => x.prev

end Played

section Trace

variable {single : ℚ → ℚ} {mktime : Tm → ℤ} {mnow : ℕ → ℚ} {args : PlayArgs}

variable (single mktime mnow args) in
/-- The calls `trace` lead from one state of the clocks to another. -/
inductive Traced : Timed → List Played → Timed → Prop
  | nil {t t' : Timed} (hc : t'.clock = t.clock) (hp : t'.prev = t.prev) : Traced t [] t'
  | cons {t u t' : Timed} {x : Played} {trace : List Played}
      (hbefore : x.before = t.clock x.media)
      (hclock : u.clock = Function.update t.clock x.media (x.after single mktime mnow args))
      (hprev : u.prev = Function.update t.prev x.session (x.prevAfter mnow))
      (tail : Traced u trace t') : Traced t (x :: trace) t'

theorem Traced.append {t u v : Timed} {xs ys : List Played} (h : Traced single mktime mnow args t xs u)
    (h' : Traced single mktime mnow args u ys v) : Traced single mktime mnow args t (xs ++ ys) v := by
  induction h with
  | nil hc hp =>
    cases h' with
    | nil hc' hp' => exact .nil (hc'.trans hc) (hp'.trans hp)
    | cons hbefore hclock hprev tail => exact .cons (hc ▸ hbefore) (hc ▸ hclock) (hp ▸ hprev) tail
  | cons hbefore hclock hprev _ ih => exact .cons hbefore hclock hprev (ih h')

theorem Traced.clock_of_ne {t t' : Timed} {xs : List Played}
    (h : Traced single mktime mnow args t xs t') {m : ℕ} (hm : ∀ y ∈ xs, y.media ≠ m) :
    t'.clock m = t.clock m := by
  induction h with
  | nil hc _ => rw [hc]
  | @cons t u t' x trace _ hclock _ _ ih =>
    rw [ih fun y hy => hm y (List.mem_cons_of_mem _ hy), hclock,
      Function.update_of_ne (hm x (List.mem_cons_self ..)).symm]

theorem Traced.prev_of_ne {t t' : Timed} {xs : List Played}
    (h : Traced single mktime mnow args t xs t') {s : ℕ} (hs : ∀ y ∈ xs, y.session ≠ s) :
    t'.prev s = t.prev s := by
  induction h with
  | nil _ hp => rw [hp]
  | @cons t u t' x trace _ _ hprev _ ih =>
    rw [ih fun y hy => hs y (List.mem_cons_of_mem _ hy), hprev,
      Function.update_of_ne (hs x (List.mem_cons_self ..)).symm]

/-- What one call does to the clock of its media, if no other call is about that media. -/
theorem Traced.clock_eq {t t' : Timed} {pre post : List Played} {x : Played}
    (h : Traced single mktime mnow args t (pre ++ x :: post) t')
    (hm : ∀ y ∈ pre ++ post, y.media ≠ x.media) :
    x.before = t.clock x.media ∧ t'.clock x.media = x.after single mktime mnow args := by
  induction pre generalizing t with
  | nil =>
    cases h with
    | cons hbefore hclock _ tail =>
      exact ⟨hbefore, by rw [tail.clock_of_ne hm, hclock, Function.update_self]⟩
  | cons y pre ih =>
    cases h with
    | cons _ hclock _ tail =>
      obtain ⟨hb, ha⟩ := ih tail fun z hz => hm z (List.mem_cons_of_mem _ hz)
      rw [hclock, Function.update_of_ne (hm y (List.mem_cons_self ..)).symm] at hb
      exact ⟨hb, ha⟩

theorem Traced.prev_eq {t t' : Timed} {pre post : List Played} {x : Played}
    (h : Traced single mktime mnow args t (pre ++ x :: post) t')
    (hs : ∀ y ∈ pre ++ post, y.session ≠ x.session) : t'.prev x.session = x.prevAfter mnow := by
  induction pre generalizing t with
  | nil =>
    cases h with
    | cons _ _ hprev tail => rw [tail.prev_of_ne hs, hprev, Function.update_self]
  | cons y pre ih =>
    cases h with
    | cons _ _ _ tail => exact ih tail fun z hz => hs z (List.mem_cons_of_mem _ hz)

theorem schedule_start_traced {t : Timed} {id : ℤ} {u : Timed × List Played}
    (h : t.schedule_start single mktime mnow args id = some u) :
    Traced single mktime mnow args t u.2 u.1 := by
  simp only [Timed.schedule_start, Option.bind_eq_some_iff, Option.map_eq_some_iff] at h
  obtain ⟨i, -, ⟨s, r⟩, -, b, -, n, -, rfl⟩ := h
  refine .cons rfl ?_ rfl (.nil rfl rfl)
  simp only [Played.after]
  split_ifs
  · rfl
  · exact (Function.update_eq_self _ _).symm

theorem schedule_resume_traced {t : Timed} {id : ℤ} {u : Timed × List Played}
    (h : t.schedule_resume single mnow args id = some u) : Traced single mktime mnow args t u.2 u.1 := by
  simp only [Timed.schedule_resume, Option.bind_eq_some_iff, Option.map_eq_some_iff] at h
  obtain ⟨i, -, ⟨s, r⟩, -, rfl⟩ := h
  exact .cons rfl rfl rfl (.nil rfl rfl)

theorem startOrResume_traced {t : Timed} {s : ℕ} {u : Timed × List Played}
    (h : t.startOrResume single mktime mnow args s = some u) : Traced single mktime mnow args t u.2 u.1 := by
  obtain ⟨r, -, h⟩ := Option.bind_eq_some_iff.mp h
  split_ifs at h
  · exact schedule_start_traced h
  · cases h
    exact .cons rfl (Function.update_eq_self _ _).symm (Function.update_eq_self _ _).symm
      (.nil rfl rfl)
  · exact schedule_resume_traced h

theorem playLoop_traced {onlyPriority : Bool} {l : List ℕ} {t : Timed}
    {u : Timed × List Played}
    (h : Timed.playLoop single mktime mnow args onlyPriority l t = some u) :
    Traced single mktime mnow args t u.2 u.1 := by
  induction l generalizing t u with
  | nil =>
    cases h
    exact .nil rfl rfl
  | cons s l ih =>
    obtain ⟨r, -, h⟩ := Option.bind_eq_some_iff.mp h
    split_ifs at h
    · exact ih h
    · obtain ⟨v, hv, h⟩ := Option.bind_eq_some_iff.mp h
      obtain ⟨z, hz, rfl⟩ := Option.map_eq_some_iff.mp h
      exact (startOrResume_traced hv).append (ih hz)

theorem playTarget_traced {session : RTSPSession} {t : Timed} {target : Target}
    {u : Timed × List Played}
    (h : (t.playTarget single mktime mnow args session target).run = some (.ok u)) :
    Traced single mktime mnow args t u.2 u.1 := by
  cases target with
  | presentation =>
    obtain ⟨v, hv, he⟩ := Option.map_eq_some_iff.mp h
    cases he
    exact playLoop_traced hv
  | aggregate =>
    obtain ⟨v, hv, he⟩ := Option.map_eq_some_iff.mp h
    cases he
    exact playLoop_traced hv
  | file name =>
    simp only [Timed.playTarget] at h
    split at h
    · cases h
    · cases h
    · obtain ⟨v, hv, he⟩ := Option.map_eq_some_iff.mp h
      cases he
      exact schedule_start_traced hv

theorem checkPlay_played {α : Type} {rtsp : RTSPBuffer} {t : Timed} {x : Checks α}
    {k : α → Option PlayResult} {out : PlayResult} (h : checkPlay rtsp t x k = some out)
    (hne : out.played ≠ []) : ∃ a, x.run = some (.ok a) ∧ k a = some out := by
  unfold checkPlay at h
  split at h
  · cases h
  · cases h
    exact absurd rfl hne
  · rename_i a ha
    exact ⟨a, ha, h⟩

theorem playTimed_traced {stack : Stack} {w : World} {inp : Bytes}
    {rtsp : RTSPBuffer} {t : Timed} {out : PlayResult}
    (h : playTimed single mktime stack mnow w inp rtsp t = some out) (hne : out.played ≠ []) :
    ∃ args, (rangeArgs single stack.t stack.args inp).run = some (.ok args) ∧
      Traced single mktime mnow args t out.played out.timed := by
  obtain ⟨n, -, h⟩ := checkPlay_played h hne
  obtain ⟨args, hargs, h⟩ := checkPlay_played h hne
  obtain ⟨r, -, h⟩ := checkPlay_played h hne
  obtain ⟨session, -, h⟩ := checkPlay_played h hne
  obtain ⟨u, hu, h⟩ := checkPlay_played h hne
  obtain ⟨rtsp', -, h⟩ := Option.bind_eq_some_iff.mp h
  obtain ⟨_, -, rfl⟩ := Option.map_eq_some_iff.mp h
  exact ⟨args, hargs, playTarget_traced hu⟩

end Trace

end Fenice.Rtsp
