import Fenice.Rtsp.Playing
import Fenice.Rtsp.Server

/-!
# Seeking (RTSP_play.c, schedule_start.c, schedule_resume.c)

The branch of `RTSP_play` for `npt` sets `start_time` and leaves `start_time_valid` as it was.
`schedule_start` looks at the first, if the consumer it makes is the only one of the media, and
`schedule_resume` at both.
-/

namespace Fenice.Rtsp
open Fenice.CString Fenice.Schedule Fenice.Playback

/-- The header `Range` of a request: there is none, or it begins at a number of seconds. -/
inductive RangeHeader (inp : Bytes) : Option Decimal → Prop
  | absent (h : strstr inp hdrRange = none) : RangeHeader inp none
  | npt (a : Decimal) (rest : Bytes) (h : strstr inp hdrRange = some (a.header rest)) :
      RangeHeader inp (some a)

/-- `play_offset` of a session that is started or resumed is what the range asks for; without
one, a session is resumed where it was. -/
def Honoured (range : Option Decimal) (x : Played) (offset : ℚ) : Prop :=
  match range with
  | some a => x.kind ≠ .playing → offset = 1000 * a.value
  | none => x.kind = .resumed → offset = x.before.playOffset

/-- The session was started with the only consumer of its media, and the rounding to `float` does
not change the number; or `play_offset` was right before. -/
def Seeks (single : ℚ → ℚ) (range : Option Decimal) (x : Played) : Prop :=
  match range with
  | some a =>
    match x.kind with
    | .started =>
      if x.refs = 1 then single (single a.value * 1000) = 1000 * a.value
      else x.before.playOffset = 1000 * a.value
    | .resumed => x.before.playOffset = 1000 * a.value
    | .playing => True
  | none => True

section Seek

variable {single : ℚ → ℚ} {mktime : Tm → ℤ} {stack : Stack} {mnow : ℕ → ℚ} {w : World}
  {inp : Bytes} {rtsp : RTSPBuffer} {t : Timed} {out : PlayResult}

/-- Where a call leaves `play_offset`, when the start time is not noted as valid. -/
theorem Played.after_offset {args : PlayArgs} (x : Played) (hv : args.startTimeValid = false) :
    (x.after single mktime mnow args).playOffset =
      if x.kind = .started ∧ x.refs = 1 then single (args.startTime * 1000)
      else x.before.playOffset := by
  unfold Played.after
  cases hk : x.kind with
  | started => by_cases hone : x.refs = 1 <;> simp [hone, Clock.start]
  | resumed => simp [Clock.resume, hv]
  | playing => simp

/-- A PLAY seeks, in a session that shares its media with no other it plays, exactly if it
starts the session as the only consumer. -/
theorem seek_iff (h : playTimed single mktime stack mnow w inp rtsp t = some out)
    {range : Option Decimal} (hr : RangeHeader inp range) {pre post : List Played} {x : Played}
    (hx : out.played = pre ++ x :: post) (hm : ∀ y ∈ pre ++ post, y.media ≠ x.media) :
    Honoured range x (out.timed.clock x.media).playOffset ↔ Seeks single range x := by
  obtain ⟨args, hargs, htrace⟩ := playTimed_traced h (by rw [hx]; simp)
  rw [hx] at htrace
  rw [(htrace.clock_eq hm).2]
  cases hr with
  | absent hp =>
    rw [x.after_offset (rangeArgs_none hp hargs)]
    refine iff_of_true (fun hres => ?_) trivial
    rw [hres]
    simp
  | npt a rest hp =>
    obtain ⟨hstart, hvalid⟩ := a.rangeArgs_npt hp hargs
    rw [x.after_offset hvalid, hstart]
    unfold Honoured Seeks
    cases hk : x.kind with
    | started => by_cases hone : x.refs = 1 <;> simp [hone]
    | resumed => simp
    | playing => simp

end Seek

/-- A session on the picture of the film, in a buffer with `refs` consumers. -/
def sampleTimed (started : Bool) (refs : ℕ) : Timed where
  streams := { Streams.init rtpDefaultPort with
    sched := fun i => if i.val = 0 then ⟨true, some 0, true⟩ else {}
    clientCount := 1
    heap := [some { started, pause := started, cons := if started then some 0 else none }]
    entries := [{ filename := lit "v.mpg", priority := 1, pktBuffer := some 0 }]
    buffers := [some refs] }
  clock := fun _ => ⟨40, 40, 0, 0, 0, -1⟩
  prev := fun _ => 0

def sampleRtsp : RTSPBuffer := { RTSP_initserver with sessionList := some ⟨.ready, 7, [0]⟩ }

/-- `Range: npt=12.5-`. -/
def sampleSeek : Bytes :=
  message "PLAY" "rtsp://localhost/film.sd" 2 ["Session: 7", "Range: npt=12.5-"]

def sampleStart : Decimal where
  whole := lit "12"
  frac := some (lit "5")
  whole_digits := by decide
  frac_digits := by decide
  whole_ne := by decide

def samplePlay (started : Bool) (refs : ℕ) : Option PlayResult :=
  playTimed id (fun _ => 0) ⟨⟨zeroTm, false, 0, false⟩, 0⟩ (fun _ => 500) {} sampleSeek sampleRtsp
    (sampleTimed started refs)

def Played.found (x : Played) : Kind × ℕ × ℕ × ℕ := (x.kind, x.session, x.media, x.refs)

/-- What PLAY has started or resumed, and `play_offset` of the picture. -/
def PlayResult.seen (out : PlayResult) : List (Kind × ℕ × ℕ × ℕ) × ℚ :=
  (out.played.map Played.found, (out.timed.clock 0).playOffset)

theorem sampleSeek_range : RangeHeader sampleSeek (some sampleStart) :=
  .npt sampleStart (el ++ el) (by decide +kernel)

/-- A session that is started begins at 12.5 seconds. -/
theorem seek_started : ∃ out x, samplePlay false 0 = some out ∧ out.played = [x] ∧
    Honoured (some sampleStart) x (out.timed.clock x.media).playOffset := by
  have hseen : (samplePlay false 0).map PlayResult.seen = some ([(.started, 0, 0, 1)], 12500) := by
    decide +kernel
  obtain ⟨out, hout, hseen⟩ := Option.map_eq_some_iff.mp hseen
  obtain ⟨x, hx, hfound⟩ := List.map_eq_singleton_iff.mp (Prod.mk.inj hseen).1
  refine ⟨out, x, hout, hx,
    (@seek_iff _ _ _ _ _ _ _ _ _ hout _ sampleSeek_range [] [] x hx (by simp)).mpr ?_⟩
  simp only [Played.found, Prod.mk.injEq] at hfound
  simp only [Seeks, hfound.1, hfound.2.2.2, if_true, id_eq]
  ring

/-- A session that was paused goes on where it was. -/
theorem seek_resumed : ∃ out x, samplePlay true 1 = some out ∧ out.played = [x] ∧
    x.kind = .resumed ∧ ¬ Honoured (some sampleStart) x (out.timed.clock x.media).playOffset := by
  have hseen : (samplePlay true 1).map PlayResult.seen = some ([(.resumed, 0, 0, 0)], -1) := by
    decide +kernel
  obtain ⟨out, hout, hseen⟩ := Option.map_eq_some_iff.mp hseen
  obtain ⟨hfounds, hoffset⟩ := Prod.mk.inj hseen
  obtain ⟨x, hx, hfound⟩ := List.map_eq_singleton_iff.mp hfounds
  simp only [Played.found, Prod.mk.injEq] at hfound
  refine ⟨out, x, hout, hx, hfound.1, ?_⟩
  rw [hfound.2.2.1, hoffset]
  have hne : (-1 : ℚ) ≠ 1000 * sampleStart.value := by decide +kernel
  exact fun h => hne (h (by rw [hfound.1]; decide))

end Fenice.Rtsp
