import Mathlib.Tactic.Linarith
import Fenice.Rtsp.Control
import Fenice.Rtsp.Seek

/-!
# Playing from a time on (get_UTC_time.c, RTSP_play.c, schedule_start.c, schedule_do.c)

The time of a PLAY goes into `struct tm` as it is written, through `mktime` into `mstart`, and is
compared there with milliseconds.
-/

namespace Fenice.Rtsp
open Fenice.CString Fenice.Schedule Fenice.Playback

/-! ### The text of an instant -/

/-- A date with a time of day. -/
structure Instant where
  year : ℕ
  month : ℕ
  day : ℕ
  hour : ℕ
  min : ℕ
  sec : ℕ
  year_lt : year < 10000
  month_pos : 1 ≤ month
  month_le : month ≤ 12
  day_pos : 1 ≤ day
  day_le : day ≤ 31
  hour_lt : hour < 24
  min_lt : min < 60
  sec_le : sec ≤ 60

/-- Two digits. -/
def two (n : ℕ) : Bytes := [48 + (n / 10).toUInt8, 48 + (n % 10).toUInt8]

theorem isDigit_two {n : ℕ} (hn : n < 100) : ∀ c ∈ two n, isDigit c = true := by
  intro c hc
  rw [isDigit_bounds]
  rcases List.mem_cons.mp hc with rfl | hc
  · rw [digit_toNat (by omega)]
    omega
  · rw [List.mem_singleton.mp hc, digit_toNat (by omega)]
    omega

theorem decimal_two {n : ℕ} (hn : n < 100) : decimal (two n) = n := by
  simp only [decimal, two, List.foldl_cons, List.foldl_nil]
  rw [digit_toNat (by omega), digit_toNat (by omega)]
  omega

theorem decimal_four {m n : ℕ} (hm : m < 100) (hn : n < 100) :
    decimal (two m ++ two n) = 100 * m + n := by
  simp only [decimal, two, List.cons_append, List.nil_append, List.foldl_cons, List.foldl_nil]
  rw [digit_toNat (by omega), digit_toNat (by omega), digit_toNat (by omega),
    digit_toNat (by omega)]
  omega

namespace Instant

/-- `YYYYMMDDThhmmssZ`. -/
def text (d : Instant) : Bytes :=
  two (d.year / 100) ++ two (d.year % 100) ++ two d.month ++ two d.day ++ [84] ++ two d.hour ++
    two d.min ++ two d.sec ++ [90]

/-- The instant as `mktime` expects it: years since 1900, and months from 0 on. -/
def tm (d : Instant) : Tm := ⟨d.sec, d.min, d.hour, d.day, d.month - 1, d.year - 1900, 0⟩

/-- The seconds since the epoch. -/
def seconds (mktime : Tm → ℤ) (d : Instant) : ℤ := mktime d.tm

/-- The instant as `get_UTC_time` stores it; `tm_isdst` keeps its value. -/
def stored (d : Instant) (isdst : ℤ) : Tm := ⟨d.sec, d.min, d.hour, d.day, d.month, d.year, isdst⟩

theorem scanField_digits {b s tail : Bytes} {k n : ℕ} {x : ℕ} (field : ℤ)
    (hb : b.drop k = s ++ tail) (hlen : s.length = n) (hs : ∀ c ∈ s, isDigit c = true)
    (hne : s ≠ []) (hx : decimal s = x) (hsmall : x < 10000) : scanField b k n field = x := by
  have hlt : decimal s < 2 ^ 31 := by omega
  have htake : (b.drop k).take n = s := by rw [hb, ← hlen, List.take_left]
  have hscan := @scanInt_digits [] s [] (by simp) hs hne (by simp) hlt
  rw [List.append_nil, List.nil_append] at hscan
  rw [scanField, htake, hscan, hx]
  rfl

theorem scanField_two {b tail : Bytes} {k n : ℕ} (field : ℤ) (hb : b.drop k = two n ++ tail)
    (hn : n < 100) : scanField b k 2 field = n :=
  scanField_digits field hb rfl (isDigit_two hn) (by simp [two]) (decimal_two hn) (by omega)

theorem get_UTC_time_text (d : Instant) (tail : Bytes) (t : Tm) :
    get_UTC_time t (d.text ++ tail) = some (d.stored t.isdst) := by
  have hyear := d.year_lt
  have hlen : ¬ (d.text ++ tail).length < 16 := by
    simp [text, two]
  have hdigits : ∀ c ∈ two (d.year / 100) ++ two (d.year % 100), isDigit c = true := by
    intro c hc
    rcases List.mem_append.mp hc with hc | hc
    · exact isDigit_two (by omega) c hc
    · exact isDigit_two (by omega) c hc
  have hvalue : decimal (two (d.year / 100) ++ two (d.year % 100)) = d.year := by
    rw [decimal_four (by omega) (by omega)]
    omega
  rw [get_UTC_time, if_neg hlen]
  simp only [Option.some.injEq, stored, Tm.mk.injEq, and_true]
  refine ⟨?_, ?_, ?_, ?_, ?_, ?_⟩
  · exact scanField_two _ rfl (by have := d.sec_le; omega)
  · exact scanField_two _ rfl (by have := d.min_lt; omega)
  · exact scanField_two _ rfl (by have := d.hour_lt; omega)
  · exact scanField_two _ rfl (by have := d.day_le; omega)
  · exact scanField_two _ rfl (by have := d.month_le; omega)
  · exact scanField_digits (s := two (d.year / 100) ++ two (d.year % 100)) _ rfl rfl hdigits
      (by simp [two]) hvalue hyear

end Instant

/-! ### The header -/

/-- The text `p` from `Range` on has a `time=` with the instant. -/
def TimeHeader (inp p : Bytes) (d : Instant) : Prop :=
  strstr inp hdrRange = some p ∧
    ∃ tail, strstr p (lit "time") = some (lit "time=" ++ (d.text ++ tail))

/-- `time_taken`: no other format is named. -/
def timeAlone (p : Bytes) : Bool :=
  (strstr p (lit "npt")).isNone && (strstr p (lit "smpte")).isNone &&
    (strstr p (lit "clock")).isNone

section Header

variable {single : ℚ → ℚ} {t₀ : ℚ} {args args' : PlayArgs} {inp p : Bytes} {d : Instant}

theorem rangeFormat_time {timeTaken : Bool}
    (h : (rangeFormat single t₀ args p).run = some (.ok (timeTaken, args')))
    (htime : (strstr p (lit "time")).isSome = true) :
    timeTaken = timeAlone p ∧ args'.playbackTime = args.playbackTime ∧
      args'.playbackTimeValid = args.playbackTimeValid := by
  unfold rangeFormat at h
  unfold timeAlone
  split at h
  · rename_i q hq
    rw [hq]
    split at h
    · cases h
    · split_ifs at h
      · cases h
        exact ⟨rfl, rfl, rfl⟩
      · cases h
  · rename_i hq
    rw [hq]
    split_ifs at h with hother
    · cases h
      refine ⟨?_, rfl, rfl⟩
      cases hs : strstr p (lit "smpte") <;> cases hc : strstr p (lit "clock") <;>
        simp [hs, hc] at hother ⊢
    · cases h
      refine ⟨?_, rfl, rfl⟩
      cases hs : strstr p (lit "smpte") <;> cases hc : strstr p (lit "clock") <;>
        simp [hs, hc] at hother ⊢

theorem strchr_time (s : Bytes) : strchr (lit "time=" ++ s) 61 = some (61 :: s) := by
  have hfound : lit "time=" = [116, 105, 109, 101, 61] := by decide
  rw [hfound]
  simp [strchr]

theorem rangeArgs_time (hp : TimeHeader inp p d)
    (h : (rangeArgs single t₀ args inp).run = some (.ok args')) :
    args'.playbackTimeValid = !timeAlone p ∧
      (timeAlone p = false → args'.playbackTime = d.stored args.playbackTime.isdst) := by
  obtain ⟨hrange, tail, htime⟩ := hp
  unfold rangeArgs at h
  rw [hrange] at h
  obtain ⟨⟨timeTaken, args₁⟩, hformat, h⟩ := run_bind_iff.mp h
  obtain ⟨htaken, hkept, hvalid⟩ := rangeFormat_time hformat (by rw [htime]; rfl)
  simp only [rangeTime, htime, htaken] at h
  cases halone : timeAlone p with
  | true =>
    rw [halone, if_pos rfl] at h
    cases h
    exact ⟨hvalid, fun hfalse => by cases hfalse⟩
  | false =>
    rw [halone, if_neg Bool.false_ne_true, strchr_time] at h
    simp only [List.drop_succ_cons, List.drop_zero, d.get_UTC_time_text, Option.getD_some] at h
    cases h
    exact ⟨rfl, fun _ => by rw [← hkept]⟩

end Header

/-! ### The visits of the scheduler -/

/-- The times at which `schedule_do` calls `play_action` for a session of this media with this
`mprev_tx_time`, if it comes to it at these times. -/
def calls (me : Clock) : ℚ → List ℚ → List ℚ
  | _, [] => []
  | prev, mnow :: visits =>
    if me.mstart ≤ mnow ∧ me.pktLen ≤ mnow - prev then
      mnow :: calls me (prev + me.pktLen) visits
    else calls me prev visits

def firstDue (me : Clock) (prev : ℚ) : ℚ := max me.mstart (prev + me.pktLen)

theorem due_iff {me : Clock} {prev mnow : ℚ} :
    me.mstart ≤ mnow ∧ me.pktLen ≤ mnow - prev ↔ firstDue me prev ≤ mnow := by
  rw [firstDue, max_le_iff, le_sub_iff_add_le']

theorem mem_of_calls {me : Clock} {prev : ℚ} {visits : List ℚ} {c : ℚ}
    (hc : c ∈ calls me prev visits) : c ∈ visits := by
  induction visits generalizing prev with
  | nil => cases hc
  | cons mnow visits ih =>
    unfold calls at hc
    split_ifs at hc
    · rcases List.mem_cons.mp hc with rfl | hc
      · exact List.mem_cons_self ..
      · exact List.mem_cons_of_mem _ (ih hc)
    · exact List.mem_cons_of_mem _ (ih hc)

/-- As long as time does not go back, no call is before the first one that is due. -/
theorem firstDue_le {me : Clock} {prev : ℚ} {visits : List ℚ} (hv : visits.Pairwise (· ≤ ·))
    {c : ℚ} (hc : c ∈ calls me prev visits) : firstDue me prev ≤ c := by
  induction visits with
  | nil => cases hc
  | cons mnow visits ih =>
    obtain ⟨hle, hv⟩ := List.pairwise_cons.mp hv
    unfold calls at hc
    split_ifs at hc with hdue
    · rw [due_iff] at hdue
      rcases List.mem_cons.mp hc with rfl | hc
      · exact hdue
      · exact hdue.trans (hle c (mem_of_calls hc))
    · exact ih hv hc

/-- No call of `play_action` after `start` is before `bound`. -/
def NotBefore (bound start : ℚ) (me : Clock) (prev : ℚ) : Prop :=
  ∀ visits : List ℚ, visits.Pairwise (· ≤ ·) → (∀ v ∈ visits, start ≤ v) →
    ∀ c ∈ calls me prev visits, bound ≤ c

theorem notBefore_iff {bound start : ℚ} {me : Clock} {prev : ℚ} :
    NotBefore bound start me prev ↔ bound ≤ max start (firstDue me prev) := by
  constructor
  · intro h
    refine h [max start (firstDue me prev)] (List.pairwise_singleton ..) ?_ _ ?_
    · intro v hv
      rw [List.mem_singleton.mp hv]
      exact le_max_left ..
    · rw [calls, if_pos (due_iff.mpr (le_max_right ..))]
      exact List.mem_cons_self ..
  · intro h visits hv hstart c hc
    exact h.trans (max_le (hstart c (mem_of_calls hc)) (firstDue_le hv hc))

/-- The first moment at which a session is served behind a PLAY. -/
def Played.earliest (mktime : Tm → ℤ) (mnow : ℕ → ℚ) (isdst : ℤ) (alone : Bool) (d : Instant)
    (x : Played) : ℚ :=
  match x.kind with
  | .started =>
    max (mnow x.session) (max
      (if x.refs = 1 then
        if alone then mnow x.session else (mktime (d.stored isdst) : ℚ)
      else x.before.mstart)
      (mnow x.session + x.before.pktLen))
  | .resumed => mnow x.session
  | .playing => max (mnow x.session) (firstDue x.before x.prev)

section Respected

variable {single : ℚ → ℚ} {mktime : Tm → ℤ} {stack : Stack} {mnow : ℕ → ℚ} {w : World}
  {inp p : Bytes} {rtsp : RTSPBuffer} {t : Timed} {out : PlayResult} {d : Instant}

theorem Played.firstDue_after {args : PlayArgs} {alone : Bool} (x : Played)
    (hvalid : args.playbackTimeValid = !alone)
    (htime : alone = false → args.playbackTime = d.stored stack.args.playbackTime.isdst) :
    max (mnow x.session) (firstDue (x.after single mktime mnow args) (x.prevAfter mnow)) =
      x.earliest mktime mnow stack.args.playbackTime.isdst alone d := by
  unfold Played.after Played.prevAfter Played.earliest firstDue
  cases hk : x.kind with
  | started =>
    by_cases hone : x.refs = 1
    · cases alone with
      | true => simp [hone, Clock.start, hvalid]
      | false => simp [hone, Clock.start, hvalid, htime rfl]
    · simp [hone]
  | resumed => simp [Clock.resume]
  | playing => rfl

/-- The start time of a PLAY is respected exactly if it is no later than the first moment at
which the scheduler serves the session. -/
theorem time_respected_iff (h : playTimed single mktime stack mnow w inp rtsp t = some out)
    (hp : TimeHeader inp p d) {pre post : List Played} {x : Played}
    (hx : out.played = pre ++ x :: post) (hm : ∀ y ∈ pre ++ post, y.media ≠ x.media)
    (hs : ∀ y ∈ pre ++ post, y.session ≠ x.session) :
    NotBefore (1000 * d.seconds mktime) (mnow x.session) (out.timed.clock x.media)
        (out.timed.prev x.session) ↔
      1000 * (d.seconds mktime : ℚ) ≤
        x.earliest mktime mnow stack.args.playbackTime.isdst (timeAlone p) d := by
  obtain ⟨args, hargs, htrace⟩ := playTimed_traced h (by rw [hx]; simp)
  rw [hx] at htrace
  obtain ⟨hvalid, htime⟩ := rangeArgs_time hp hargs
  rw [(htrace.clock_eq hm).2, htrace.prev_eq hs, notBefore_iff, x.firstDue_after hvalid htime]

end Respected

/-! ### A PLAY with a time -/

/-- `mktime` in a zone where the time is UTC: days since the year 0 in the Gregorian calendar
with years that begin in March, and the seconds of the day. -/
def utcMktime (t : Tm) : ℤ :=
  let month := t.year * 12 + t.mon + 1900 * 12 - 2
  let year := month / 12
  let days := 365 * year + year / 4 - year / 100 + year / 400 + (153 * (month % 12) + 2) / 5 +
    t.mday - 1
  (days - 719468) * 86400 + t.hour * 3600 + t.min * 60 + t.sec

/-- The first days of the years 1970 and 2030. -/
def newYear (year : ℕ) (h : year < 10000) : Instant :=
  ⟨year, 1, 1, 0, 0, 0, h, by decide, by decide, by decide, by decide, by decide, by decide,
    by decide⟩

example : (newYear 1970 (by decide)).seconds utcMktime = 0 := by decide
example : (newYear 2030 (by decide)).seconds utcMktime = 1893456000 := by decide

def playAt (d : Instant) : Bytes :=
  lit "PLAY rtsp://localhost/film.sd RTSP/1.0" ++ el ++ lit "CSeq: 2" ++ el ++ lit "Session: 7" ++
    el ++ (lit "Range: npt=0-;time=" ++ (d.text ++ (el ++ el)))

/-- The PLAY comes on the 14th of November 2023. -/
def playedAt (d : Instant) : Option PlayResult :=
  playTimed id utcMktime ⟨⟨zeroTm, false, 0, false⟩, 0⟩ (fun _ => 1700000000000) {} (playAt d)
    sampleRtsp (sampleTimed false 0)

/-- What PLAY has started or resumed, and what the scheduler goes by then. -/
def PlayResult.clocks (out : PlayResult) : List (Kind × ℕ × ℕ × ℕ) × ℚ × ℚ × ℚ :=
  (out.played.map Played.found, (out.timed.clock 0).mstart, (out.timed.clock 0).pktLen,
    out.timed.prev 0)

theorem playAt_header (year : ℕ) (h : year < 10000)
    (hrange : strstr (playAt (newYear year h)) hdrRange =
      some (lit "Range: npt=0-;time=" ++ ((newYear year h).text ++ (el ++ el)))) :
    TimeHeader (playAt (newYear year h))
      (lit "Range: npt=0-;time=" ++ ((newYear year h).text ++ (el ++ el))) (newYear year h) := by
  refine ⟨hrange, el ++ el, ?_⟩
  have hp : lit "Range: npt=0-;time=" = [82, 97, 110, 103, 101, 58, 32, 110, 112, 116, 61, 48, 45,
      59, 116, 105, 109, 101, 61] := by decide
  have hword : lit "time" = [116, 105, 109, 101] := by decide
  have hfound : lit "time=" = [116, 105, 109, 101, 61] := by decide
  rw [hp, hword, hfound]
  simp [strstr]

/-- A time that has passed is respected. -/
theorem past_respected : ∃ out x, playedAt (newYear 1970 (by decide)) = some out ∧
    out.played = [x] ∧
    NotBefore (1000 * (newYear 1970 (by decide)).seconds utcMktime) 1700000000000
      (out.timed.clock x.media) (out.timed.prev x.session) := by
  have hseen : ((playedAt (newYear 1970 (by decide))).map fun out =>
      (out.played.map Played.found)) = some [(.started, 0, 0, 1)] := by decide +kernel
  obtain ⟨out, hout, hseen⟩ := Option.map_eq_some_iff.mp hseen
  obtain ⟨x, hx, hfound⟩ := List.map_eq_singleton_iff.mp hseen
  have hkind : x.kind = .started := congrArg Prod.fst hfound
  have hzero : (newYear 1970 (by decide)).seconds utcMktime = 0 := by decide
  refine ⟨out, x, hout, hx, (@time_respected_iff _ _ _ _ _ _ _ _ _ _ _ hout
    (playAt_header 1970 (by decide) (by decide +kernel)) [] [] x hx (by simp) (by simp)).mpr ?_⟩
  rw [hzero, Played.earliest, hkind]
  exact le_max_of_le_left (by norm_num)

/-- A session that is to begin in 2030 is served 40 milliseconds after the PLAY. -/
theorem future_ignored : ∃ out x, playedAt (newYear 2030 (by decide)) = some out ∧
    out.played = [x] ∧ x.refs = 1 ∧
    ¬ NotBefore (1000 * (newYear 2030 (by decide)).seconds utcMktime) 1700000000000
      (out.timed.clock x.media) (out.timed.prev x.session) := by
  have hseen : (playedAt (newYear 2030 (by decide))).map PlayResult.clocks =
      some ([(.started, 0, 0, 1)], 61854278400, 40, 1700000000000) := by decide +kernel
  obtain ⟨out, hout, hseen⟩ := Option.map_eq_some_iff.mp hseen
  simp only [PlayResult.clocks, Prod.mk.injEq] at hseen
  obtain ⟨hfounds, hmstart, hpktLen, hprev⟩ := hseen
  obtain ⟨x, hx, hfound⟩ := List.map_eq_singleton_iff.mp hfounds
  simp only [Played.found, Prod.mk.injEq] at hfound
  have hseconds : (newYear 2030 (by decide)).seconds utcMktime = 1893456000 := by decide
  refine ⟨out, x, hout, hx, hfound.2.2.2, ?_⟩
  rw [notBefore_iff, firstDue, hfound.2.1, hfound.2.2.1, hmstart, hpktLen, hprev, hseconds]
  norm_num

end Fenice.Rtsp
