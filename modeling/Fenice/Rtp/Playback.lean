import Mathlib.Tactic.Ring
import Mathlib.Tactic.NormNum
import Mathlib.Data.Rat.Floor
import Fenice.Mediainfo.GetFrame

/-!
# The clock of a media (RTP_send_packet.c, schedule_start.c, schedule_resume.c)

A session on a media, with the members of `media_entry` that say what time it is. Times are
rational numbers of milliseconds; the time that `gettimeofday` gives is an argument. None of the
readers in `media_func` writes to the clock or to the description of its media.
-/

namespace Fenice.Playback
open Fenice.BufferPool Fenice.Mediainfo

/-- `struct tm`, as far as `mktime` reads it. -/
structure Tm where
  sec : ℤ
  min : ℤ
  hour : ℤ
  mday : ℤ
  mon : ℤ
  year : ℤ
  isdst : ℤ
  deriving DecidableEq

/-- `play_args`; nothing reads `end_time`. -/
structure PlayArgs where
  playbackTime : Tm
  playbackTimeValid : Bool
  startTime : ℚ
  startTimeValid : Bool
  deriving DecidableEq

/-- The members of `media_entry` that say what time it is, with two of its description. -/
structure Clock where
  pktLen : ℚ
  deltaMtime : ℚ
  mstart : ℚ
  mtime : ℚ
  mstartOffset : ℚ
  playOffset : ℚ
  deriving DecidableEq

namespace Clock

/-- Where the media stands. -/
def position (me : Clock) : ℚ := me.mtime - me.mstart + me.mstartOffset

/-- By how much `RTP_send_packet` moves `mtime` on. -/
def period (me : Clock) : ℚ := if me.deltaMtime ≠ 0 then me.deltaMtime else me.pktLen

/-- What `schedule_start` does for the first consumer; `single` is the rounding of a product to
`float`. -/
def start (single : ℚ → ℚ) (mktime : Tm → ℤ) (mnow : ℚ) (args : PlayArgs) (me : Clock) : Clock :=
  { me with
    mstart := if args.playbackTimeValid then mktime args.playbackTime else mnow
    mtime := mnow
    mstartOffset := single (args.startTime * 1000)
    playOffset := single (args.startTime * 1000) }

/-- What `schedule_resume` does. -/
def resume (single : ℚ → ℚ) (mnow : ℚ) (args : PlayArgs) (me : Clock) : Clock :=
  { me with
    mstartOffset := me.mstartOffset + (me.mtime - me.mstart + me.pktLen)
    playOffset := if args.startTimeValid then single (args.startTime * 1000) else me.playOffset
    mstart := mnow
    mtime := mnow - me.pktLen }

end Clock

/-- `media_entry`; `source` is what the reader works on. -/
structure MediaEntry (σ : Type) extends Clock where
  pktBuffer : OMSBuffer
  source : σ

/-- `RTP_session` with its `current_media`. -/
structure Player (σ : Type) where
  cons : OMSConsumer
  mprevTxTime : ℚ
  pause : Bool
  started : Bool
  media : MediaEntry σ

/-- What one call of `read_media` does; `mtime` is what it leaves in `*mtime`. -/
structure TimedRead (σ : Type) where
  res : ℤ
  stored : Option (List UInt8)
  mtime : ℚ
  marker : ℕ
  recallme : Bool
  source : σ

/-- A reader is called with the value of `*mtime`. -/
abbrev ReadMedia (σ : Type) := σ → ℚ → Option (TimedRead σ)

/-- A `double` as the `uint32` that `OMSbuff_write` takes. -/
def toUint32 (x : ℚ) : ℕ := ((if 0 ≤ x then ⌊x⌋ else ⌈x⌉) % 2 ^ 32).toNat

/-- The reader with `*mtime` as a part of its state. -/
def timed {σ : Type} (read_media : ReadMedia σ) (x : σ × ℚ) : Option (MediaRead (σ × ℚ)) :=
  (read_media x.1 x.2).map fun r =>
    ⟨r.res, r.stored, toUint32 r.mtime, r.marker, r.recallme, (r.source, r.mtime)⟩

section Schedule

variable {σ : Type}

/-- `schedule_start`, without rounding. -/
def schedule_start (mktime : Tm → ℤ) (mnow : ℚ) (args : PlayArgs) (p : Player σ) :
    Option (Player σ) :=
  (OMSbuff.ref p.media.pktBuffer).map fun r =>
    let media := { p.media with pktBuffer := r.2 }
    { cons := r.1
      mprevTxTime := mnow
      pause := false
      started := true
      media :=
        if r.2.control.refs = 1 then
          { media with toClock := media.start id mktime mnow args }
        else media }

/-- `schedule_resume`, without rounding. -/
def schedule_resume (mnow : ℚ) (args : PlayArgs) (p : Player σ) : Player σ :=
  { p with
    mprevTxTime := mnow - p.media.pktLen
    pause := false
    media := { p.media with toClock := p.media.resume id mnow args } }

/-- What PAUSE does to a session. -/
def Player.paused (p : Player σ) : Player σ := { p with pause := true }

end Schedule

namespace Player

variable {σ : Type}

/-- `OMSbuff_getreader (session->cons)`. -/
def getreader (p : Player σ) : Option ℕ × Player σ :=
  let r := OMSbuff.getreader p.media.pktBuffer p.cons
  (r.1, { p with cons := r.2 })

/-- `OMSbuff_gotreader (session->cons)`; its result is not looked at. -/
def gotreader (p : Player σ) : Player σ :=
  match OMSbuff.gotreader p.media.pktBuffer p.cons with
  | some r => { p with cons := r.1, media := { p.media with pktBuffer := r.2 } }
  | none => p

/-- `nextts` of `RTP_send_packet`. -/
def nextts (p : Player σ) : ℤ :=
  let t := OMSbuff.nextts p.media.pktBuffer p.cons
  if 0 ≤ t then t - p.cons.firstts else t

def frameSent (p : Player σ) : Player σ :=
  { p with
    cons := { p.cons with frames := p.cons.frames - 1 }
    media := { p.media with mtime := p.media.mtime + p.media.period } }

end Player

/-- What a call of `RTP_send_packet` leaves, with the slots that went to `RTP_sendto`. -/
structure Sent (σ : Type) where
  res : ℤ
  player : Player σ
  packets : List OMSSlot

section SendPacket

variable {σ : Type} (mem : Bool) (read_media : ReadMedia σ)

/-- The loop of `RTP_send_packet`; slot `i` is to be sent. `none`: still running after `fuel`
packets. -/
def sendLoop : ℕ → ℚ → ℕ → Player σ → Option (List OMSSlot × Player σ)
  | 0, _, _, _ => none
  | fuel + 1, sTime, i, p =>
    let slot := p.media.pktBuffer.slots i
    let p := p.gotreader
    if p.nextts = -1 ∨ (p.nextts : ℚ) ≠ sTime then some ([slot], p.frameSent)
    else
      match p.getreader with
      | (none, p) => some ([slot], p)
      | (some j, p) => (sendLoop fuel sTime j p).map fun r => (slot :: r.1, r.2)

/-- `RTP_send_packet`; `none`: it does not return, or `get_frame` uses memory that is not
there. -/
def RTP_send_packet (fuel : ℕ) (p : Player σ) : Option (Sent σ) :=
  match p.getreader with
  | (some i, p) =>
    let sTime : ℚ := (p.media.pktBuffer.slots i).timestamp - p.cons.firstts
    (sendLoop fuel sTime i p).map fun r => ⟨errNoerror, r.2, r.1⟩
  | (none, p) =>
    match get_frame (localOps mem) (timed read_media) fuel p.media.pktBuffer
        (p.media.source, p.media.position) with
    | some (.returned res b (source, sTime) _) =>
      let p := { p with media := { p.media with pktBuffer := b, source } }
      if res ≠ errNoerror then some ⟨res, p, []⟩
      else
        let p := { p with cons := { p.cons with frames := p.cons.frames + 1 } }
        match p.getreader with
        | (none, p) => some ⟨errNoerror, p, []⟩
        | (some i, p) => (sendLoop fuel sTime i p).map fun r => ⟨errNoerror, r.2, r.1⟩
    | _ => none

end SendPacket

/-! ### One call -/

section Call

variable {σ : Type} {mem : Bool} {read_media : ReadMedia σ} {p : Player σ}

/-- The members that a call of `RTP_send_packet` leaves alone. -/
structure ClockKept (me me' : Clock) : Prop where
  pktLen : me'.pktLen = me.pktLen
  deltaMtime : me'.deltaMtime = me.deltaMtime
  mstart : me'.mstart = me.mstart
  mstartOffset : me'.mstartOffset = me.mstartOffset

theorem ClockKept.refl (me : Clock) : ClockKept me me := ⟨rfl, rfl, rfl, rfl⟩

theorem ClockKept.trans {a b c : Clock} (h : ClockKept a b) (h' : ClockKept b c) :
    ClockKept a c :=
  ⟨h'.pktLen.trans h.pktLen, h'.deltaMtime.trans h.deltaMtime, h'.mstart.trans h.mstart,
    h'.mstartOffset.trans h.mstartOffset⟩

theorem ClockKept.period {me me' : Clock} (h : ClockKept me me') :
    me'.period = me.period := by
  unfold Clock.period
  rw [h.deltaMtime, h.pktLen]

theorem gotreader_clock (p : Player σ) :
    ClockKept p.media.toClock p.gotreader.media.toClock ∧ p.gotreader.media.mtime = p.media.mtime := by
  unfold Player.gotreader
  cases OMSbuff.gotreader p.media.pktBuffer p.cons with
  | none => exact ⟨.refl _, rfl⟩
  | some r => exact ⟨⟨rfl, rfl, rfl, rfl⟩, rfl⟩

/-- There is a slot to read exactly if `OMSbuff_nextts` finds its time. -/
theorem select_of_nextts (h : p.nextts ≠ -1) :
    ∃ i, OMSbuff.select p.media.pktBuffer p.cons = some i := by
  cases hs : OMSbuff.select p.media.pktBuffer p.cons with
  | none => exact absurd (by simp [Player.nextts, OMSbuff.nextts, hs]) h
  | some i => exact ⟨i, rfl⟩

theorem getreader_of_select {i : ℕ}
    (h : OMSbuff.select p.media.pktBuffer p.cons = some i) :
    p.getreader.1 = some i ∧ p.getreader.2.media = p.media := by
  simp [Player.getreader, OMSbuff.getreader, h]

theorem media_of_getreader {o : Option ℕ} {q : Player σ} (h : p.getreader = (o, q)) :
    q.media = p.media :=
  congrArg (fun r => r.2.media) h.symm

theorem sendLoop_clock {fuel : ℕ} {sTime : ℚ} {i : ℕ} {r : List OMSSlot × Player σ}
    (h : sendLoop fuel sTime i p = some r) :
    ClockKept p.media.toClock r.2.media.toClock ∧ r.2.media.mtime = p.media.mtime + p.media.period ∧
      r.1 ≠ [] := by
  induction fuel generalizing i p r with
  | zero => cases h
  | succ fuel ih =>
    obtain ⟨hkept, hmtime⟩ := gotreader_clock p
    simp only [sendLoop] at h
    split_ifs at h with hend
    · cases h
      refine ⟨⟨hkept.pktLen, hkept.deltaMtime, hkept.mstart, hkept.mstartOffset⟩, ?_, by simp⟩
      simp only [Player.frameSent, hmtime, hkept.period]
    · -- `OMSbuff_getreader` finds the slot whose time was read
      obtain ⟨j, hj⟩ := select_of_nextts fun he => hend (Or.inl he)
      obtain ⟨hget, hmedia⟩ := getreader_of_select hj
      split at h
      · rename_i q hq
        rw [hq] at hget
        cases hget
      · rename_i k q hq
        rw [hq] at hmedia
        obtain ⟨r', hr', rfl⟩ := Option.map_eq_some_iff.mp h
        obtain ⟨hk, hm, -⟩ := ih hr'
        rw [hmedia] at hk hm
        refine ⟨hkept.trans hk, ?_, by simp⟩
        rw [hm, hmtime, hkept.period]

theorem send_clock {fuel : ℕ} {sent : Sent σ}
    (h : RTP_send_packet mem read_media fuel p = some sent) (hs : sent.packets ≠ []) :
    ClockKept p.media.toClock sent.player.media.toClock ∧
      sent.player.media.mtime = p.media.mtime + p.media.period := by
  unfold RTP_send_packet at h
  split at h
  · rename_i i q hq
    have hq' := media_of_getreader hq
    obtain ⟨r, hr, rfl⟩ := Option.map_eq_some_iff.mp h
    obtain ⟨hk, hm, -⟩ := sendLoop_clock hr
    rw [hq'] at hk hm
    exact ⟨hk, hm⟩
  · rename_i q hq
    have hq' := media_of_getreader hq
    split at h
    · dsimp only at h
      split_ifs at h with hres
      · cases h
        exact absurd rfl hs
      · split at h
        · cases h
          exact absurd rfl hs
        · rename_i i q' hq''
          obtain ⟨r, hr, rfl⟩ := Option.map_eq_some_iff.mp h
          obtain ⟨hk, hm, -⟩ := sendLoop_clock hr
          rw [media_of_getreader hq''] at hk hm
          rw [← hq']
          exact ⟨⟨hk.pktLen, hk.deltaMtime, hk.mstart, hk.mstartOffset⟩, hm⟩
    · cases h

end Call

/-! ### A run of plays and pauses -/

section Run

variable {σ : Type} (mem : Bool) (read_media : ReadMedia σ) (mktime : Tm → ℤ)

/-- The states in which a session can be that was started with `args` as the first consumer of
its media, after so many calls of `RTP_send_packet`, each of which sent something. -/
inductive Plays (args : PlayArgs) : ℕ → Player σ → Prop
  | start {mnow : ℚ} {p p' : Player σ} (h : schedule_start mktime mnow args p = some p')
      (hfirst : p'.media.pktBuffer.control.refs = 1) (hnow : args.playbackTimeValid = false) :
      Plays args 0 p'
  | send {n fuel : ℕ} {p : Player σ} {sent : Sent σ} (h : Plays args n p)
      (hs : RTP_send_packet mem read_media fuel p = some sent) (hne : sent.packets ≠ []) :
      Plays args (n + 1) sent.player
  | pause {n : ℕ} {p : Player σ} (h : Plays args n p) : Plays args n p.paused
  | resume {n : ℕ} {p : Player σ} (h : Plays args n p) (mnow : ℚ) (again : PlayArgs) :
      Plays args n (schedule_resume mnow again p)

variable {mem read_media mktime}

theorem schedule_resume_position (mnow : ℚ) (args : PlayArgs) (p : Player σ) :
    (schedule_resume mnow args p).media.position = p.media.position ∧
      (schedule_resume mnow args p).media.period = p.media.period := by
  refine ⟨?_, rfl⟩
  simp only [schedule_resume, Clock.resume, Clock.position]
  ring

theorem schedule_start_position {mnow : ℚ} {args : PlayArgs} {p p' : Player σ}
    (h : schedule_start mktime mnow args p = some p')
    (hfirst : p'.media.pktBuffer.control.refs = 1) (hnow : args.playbackTimeValid = false) :
    p'.media.position = 1000 * args.startTime := by
  obtain ⟨r, -, rfl⟩ := Option.map_eq_some_iff.mp h
  have hrefs : r.2.control.refs = 1 := by
    dsimp only at hfirst
    split_ifs at hfirst <;> assumption
  simp only [if_pos hrefs, Clock.start, hnow, Clock.position, id_eq]
  norm_num
  ring

/-- Whatever pauses it made, a media stands where the packets sent have brought it. -/
theorem position_eq {args : PlayArgs} {n : ℕ} {p : Player σ}
    (h : Plays mem read_media mktime args n p) :
    p.media.position = 1000 * args.startTime + p.media.period * n := by
  induction h with
  | start h hfirst hnow => simp [schedule_start_position h hfirst hnow]
  | @send n fuel p sent _ hs hne ih =>
    obtain ⟨hk, hm⟩ := send_clock hs hne
    calc sent.player.media.position = p.media.position + p.media.period := by
          simp only [Clock.position, hm, hk.mstart, hk.mstartOffset]
          ring
      _ = 1000 * args.startTime + sent.player.media.period * (n + 1 : ℕ) := by
          rw [ih, hk.period]
          push_cast
          ring
  | pause _ ih => exact ih
  | @resume n p _ mnow again ih =>
    obtain ⟨hpos, hperiod⟩ := schedule_resume_position mnow again p
    rw [hpos, hperiod, ih]

end Run

/-- A media of one slot, with a reader that fills it every time. -/
def sampleReader : ReadMedia Unit := fun _ mtime =>
  some ⟨errNoerror, some [1], mtime, 0, false, ()⟩

def sampleArgs : PlayArgs := ⟨⟨0, 0, 0, 0, 0, 0, 0⟩, false, 2, false⟩

def samplePlayer : Player Unit where
  cons := ⟨0, none, 0, 0, -1⟩
  mprevTxTime := 0
  pause := false
  started := false
  media := ⟨⟨40, 0, 0, 0, 0, -1⟩, ⟨⟨0, 1, 0, 0⟩, fun _ => {}⟩, ()⟩

def sampleStarted : Player Unit :=
  (schedule_start (fun _ => 0) 500 sampleArgs samplePlayer).get rfl

/-- A packet, a pause, and another packet. -/
def sampleSent : Option (Sent Unit × Sent Unit) :=
  (RTP_send_packet true sampleReader 2 sampleStarted).bind fun s =>
    (RTP_send_packet true sampleReader 2 (schedule_resume 700 sampleArgs s.player.paused)).map
      fun t => (s, t)

/-- Two seconds in, one packet is sent before a pause and one after it. -/
theorem position_after_pause : ∃ p : Player Unit,
    Plays true sampleReader (fun _ => 0) sampleArgs 2 p ∧
      p.media.position = 1000 * sampleArgs.startTime + p.media.period * (2 : ℕ) := by
  have hsizes : (sampleSent.map fun r => (r.1.packets.length, r.2.packets.length)) =
      some (1, 1) := by decide +kernel
  obtain ⟨⟨s, t⟩, hsent, hlen⟩ := Option.map_eq_some_iff.mp hsizes
  obtain ⟨s', hs, hrest⟩ := Option.bind_eq_some_iff.mp hsent
  obtain ⟨t', ht, he⟩ := Option.map_eq_some_iff.mp hrest
  cases he
  have hone : 0 < s.packets.length := by rw [(Prod.mk.inj hlen).1]; decide
  have htwo : 0 < t.packets.length := by rw [(Prod.mk.inj hlen).2]; decide
  have hplays : Plays true sampleReader (fun _ => 0) sampleArgs 2 t.player :=
    .send (.resume (.pause (.send (.start (Option.some_get _).symm rfl rfl) hs
      (List.ne_nil_of_length_pos hone))) 700 sampleArgs) ht (List.ne_nil_of_length_pos htwo)
  exact ⟨t.player, hplays, position_eq hplays⟩

end Fenice.Playback
