import Fenice.Rtsp.Methods
import Fenice.Rtp.Playback

/-!
# The header Range of PLAY (RTSP_play.c, get_UTC_time.c)

What `RTSP_play` reads into its `play_args`. They are not initialised, so the values that stand
on the stack are an argument. A `double` holds its number exactly; `single` is the conversion of
a number to `float`.
-/

namespace Fenice.Rtsp
open Fenice.CString Fenice.Playback

/-! ### Numbers and times -/

/-- The exponent of a number in decimal notation; `none` for an `e` without digits. -/
def scanExponent : Bytes → Option ℤ
  | [] => some 0
  | c :: s => if c = 101 ∨ c = 69 then strtol s else some 0

/-- Conversions `%f` and `%lf` of a number in decimal notation. -/
def scanFloat (s : Bytes) : Option ℚ :=
  let s := s.dropWhile isSpace
  let signed := s.head? = some 45 ∨ s.head? = some 43
  let t := if signed then s.drop 1 else s
  let whole := t.takeWhile isDigit
  let t := t.dropWhile isDigit
  let frac := if t.head? = some 46 then (t.drop 1).takeWhile isDigit else []
  let t := if t.head? = some 46 then (t.drop 1).dropWhile isDigit else t
  if whole = [] ∧ frac = [] then none
  else
    (scanExponent t).map fun e =>
      (if s.head? = some 45 then -1 else 1) * (decimal (whole ++ frac) / 10 ^ frac.length) * 10 ^ e

/-- `memset (&args.playback_time, 0, ...)`. -/
def zeroTm : Tm := ⟨0, 0, 0, 0, 0, 0, 0⟩

/-- `sscanf (tmp, "%d", &field)` for `n` characters at `b + k`. -/
def scanField (b : Bytes) (k n : ℕ) (field : ℤ) : ℤ := (scanInt ((b.drop k).take n)).getD field

/-- `get_UTC_time`; `none` is `ERR_GENERIC`. -/
def get_UTC_time (t : Tm) (b : Bytes) : Option Tm :=
  if b.length < 16 then none
  else some
    { t with
      year := scanField b 0 4 t.year
      mon := scanField b 4 2 t.mon
      mday := scanField b 6 2 t.mday
      hour := scanField b 9 2 t.hour
      min := scanField b 11 2 t.min
      sec := scanField b 13 2 t.sec }

section Range

variable (single : ℚ → ℚ) (t₀ : ℚ)

/-- The branch without a format; `t` keeps its value where there is no number. -/
def nemesiTime (p : Bytes) : Option ℚ :=
  (strchr p 58).bind fun hour =>
    let t := (scanFloat (hour.drop 1)).getD t₀
    let startTime := single (t * 60 * 60)
    (strchr (hour.drop 1) 58).bind fun min =>
      let t := (scanFloat (min.drop 1)).getD t
      let startTime := single (startTime + t * 60)
      (strchr (min.drop 1) 58).map fun sec =>
        let t := (scanFloat (sec.drop 1)).getD t
        single (startTime + t)

/-- The format of the range: `time_taken`, with the start time. -/
def rangeFormat (args : PlayArgs) (p : Bytes) : Checks (Bool × PlayArgs) :=
  match strstr p (lit "npt") with
  | some q =>
    match strchr q 61 with
    | none => reject 400 errNoerror
    | some q =>
      let startTime := ((scanFloat (q.drop 1)).map single).getD args.startTime
      if (strchr q 45).isSome then pure (false, { args with startTime })
      else reject 400 errNoerror
  | none =>
    if (strstr p (lit "smpte")).isSome || (strstr p (lit "clock")).isSome then
      pure (false, { args with startTime := 0 })
    else if (strstr p (lit "time")).isSome then pure (true, { args with startTime := 0 })
    else
      match nemesiTime single t₀ p with
      | some startTime => pure (false, { args with startTime, startTimeValid := true })
      | none => undefined

/-- The time of day to start at. -/
def rangeTime (timeTaken : Bool) (args : PlayArgs) (p : Bytes) : Checks PlayArgs :=
  match strstr p (lit "time") with
  | none => pure { args with playbackTime := zeroTm }
  | some q =>
    if timeTaken then pure args
    else
      match strchr q 61 with
      | none => undefined
      | some q => pure { args with
          playbackTime := (get_UTC_time args.playbackTime (q.drop 1)).getD zeroTm
          playbackTimeValid := true }

/-- `Get the range`, for the `play_args` on the stack. -/
def rangeArgs (stack : PlayArgs) (inp : Bytes) : Checks PlayArgs :=
  let args := { stack with playbackTimeValid := false, startTimeValid := false }
  match strstr inp hdrRange with
  | none => pure { args with startTime := 0, playbackTime := zeroTm }
  | some p => do
    let (timeTaken, args) ← rangeFormat single t₀ args p
    rangeTime timeTaken args p

end Range

/-! ### The checks are those of PLAY -/

section Checks

variable {single : ℚ → ℚ} {t₀ : ℚ}

theorem nemesiTime_isSome (p : Bytes) : (nemesiTime single t₀ p).isSome = (colons 3 p).isSome := by
  unfold nemesiTime
  simp only [colons]
  cases strchr p 58 with
  | none => rfl
  | some hour =>
    simp only [Option.bind_some]
    cases strchr (hour.drop 1) 58 with
    | none => rfl
    | some min =>
      simp only [Option.bind_some]
      cases strchr (min.drop 1) 58 <;> rfl

theorem rangeTime_checks (timeTaken : Bool) (args : PlayArgs) (p : Bytes) :
    (rangeTime timeTaken args p).run.map (Except.map fun _ => ()) =
      ExceptT.run (m := Option) (match strstr p (lit "time") with
        | none => pure ()
        | some q => if timeTaken || (strchr q 61).isSome then pure () else undefined :
          Checks Unit) := by
  unfold rangeTime
  cases strstr p (lit "time") with
  | none => rfl
  | some q =>
    dsimp only
    cases timeTaken with
    | true => rfl
    | false => cases strchr q 61 <;> rfl

theorem rangeArgs_checks (stack : PlayArgs) (inp : Bytes) :
    (rangeArgs single t₀ stack inp).run.map (Except.map fun _ => ()) = (rangeChecks inp).run := by
  unfold rangeArgs rangeChecks
  cases strstr inp hdrRange with
  | none => rfl
  | some p =>
    dsimp only
    unfold rangeFormat
    cases strstr p (lit "npt") with
    | some q =>
      dsimp only
      cases strchr q 61 with
      | none => rfl
      | some q =>
        dsimp only
        by_cases hto : (strchr q 45).isSome = true
        · rw [if_pos hto, if_pos hto]
          exact rangeTime_checks false _ p
        · rw [if_neg hto, if_neg hto]
          rfl
    | none =>
      dsimp only
      by_cases hother : ((strstr p (lit "smpte")).isSome || (strstr p (lit "clock")).isSome) = true
      · rw [if_pos hother, if_pos hother]
        exact rangeTime_checks false _ p
      · rw [if_neg hother, if_neg hother]
        by_cases htime : (strstr p (lit "time")).isSome = true
        · rw [if_pos htime, if_pos htime]
          exact rangeTime_checks true _ p
        · rw [if_neg htime, if_neg htime]
          have hsome := @nemesiTime_isSome single t₀ p
          cases hc : colons 3 p with
          | none =>
            rw [hc, Option.isSome_none, Option.isSome_eq_false_iff, Option.isNone_iff_eq_none]
              at hsome
            rw [hsome]
            rfl
          | some u =>
            rw [hc] at hsome
            obtain ⟨x, hx⟩ := Option.isSome_iff_exists.mp hsome
            rw [hx]
            exact rangeTime_checks false _ p

end Checks

/-! ### A range in seconds -/

/-- A decimal number without a sign, with its point if it has one. -/
structure Decimal where
  whole : Bytes
  frac : Option Bytes
  whole_digits : ∀ c ∈ whole, isDigit c = true
  frac_digits : ∀ c ∈ frac.getD [], isDigit c = true
  whole_ne : whole ≠ []

namespace Decimal

def text (a : Decimal) : Bytes := a.whole ++ (a.frac.map fun frac => 46 :: frac).getD []

def value (a : Decimal) : ℚ := decimal (a.whole ++ a.frac.getD []) / 10 ^ (a.frac.getD []).length

/-- The header `Range: npt=a-` with what follows it. -/
def header (a : Decimal) (rest : Bytes) : Bytes := lit "Range: npt=" ++ (a.text ++ 45 :: rest)

theorem takeWhile_stop {s t : Bytes} (hs : ∀ c ∈ s, isDigit c = true)
    (ht : ∀ c ∈ t.head?, isDigit c = false) :
    (s ++ t).takeWhile isDigit = s ∧ (s ++ t).dropWhile isDigit = t := by
  rw [List.takeWhile_append_of_pos hs, List.dropWhile_append_of_pos hs]
  cases t with
  | nil => simp
  | cons c t => simp [ht c rfl]

theorem first_digit (a : Decimal) (t : Bytes) :
    ∃ d s, a.text ++ t = d :: s ∧ isDigit d = true := by
  obtain ⟨d, ds, hd⟩ := List.exists_cons_of_ne_nil a.whole_ne
  refine ⟨d, ds ++ (a.frac.map fun frac => 46 :: frac).getD [] ++ t, ?_,
    a.whole_digits d (by rw [hd]; exact List.mem_cons_self ..)⟩
  rw [text, hd]
  simp

theorem scanFloat_text (a : Decimal) (rest : Bytes) :
    scanFloat (a.text ++ 45 :: rest) = some a.value := by
  obtain ⟨d, s, hds, hd⟩ := a.first_digit (45 :: rest)
  have hspace : (a.text ++ 45 :: rest).dropWhile isSpace = a.text ++ 45 :: rest := by
    rw [hds, List.dropWhile_cons_of_neg (by simp [isSpace_false_of_isDigit hd])]
  have hsign : (a.text ++ 45 :: rest).head? ≠ some 45 ∧
      (a.text ++ 45 :: rest).head? ≠ some 43 := by
    rw [hds]
    constructor <;> (rintro ⟨⟩; exact absurd hd (by decide))
  unfold scanFloat
  simp only [hspace, hsign.1, hsign.2, or_self, if_false]
  have hminus : ∀ c ∈ (45 :: rest : Bytes).head?, isDigit c = false := by
    rintro c ⟨⟩
    decide
  cases hf : a.frac with
  | none =>
    obtain ⟨htake, hdrop⟩ := takeWhile_stop a.whole_digits hminus
    simp [text, value, hf, htake, hdrop, a.whole_ne, scanExponent]
  | some frac =>
    obtain ⟨htake, hdrop⟩ := takeWhile_stop (t := 46 :: (frac ++ 45 :: rest)) a.whole_digits
      (by rintro c ⟨⟩; decide)
    obtain ⟨htake', hdrop'⟩ := takeWhile_stop (s := frac)
      (by simpa [hf] using a.frac_digits) hminus
    simp [text, value, hf, htake, hdrop, htake', hdrop', a.whole_ne, scanExponent]

theorem strstr_npt (s : Bytes) :
    strstr (lit "Range: npt=" ++ s) (lit "npt") = some (lit "npt=" ++ s) := by
  have hheader : lit "Range: npt=" = [82, 97, 110, 103, 101, 58, 32, 110, 112, 116, 61] := by
    decide
  have hword : lit "npt" = [110, 112, 116] := by decide
  have hfound : lit "npt=" = [110, 112, 116, 61] := by decide
  rw [hheader, hword, hfound]
  simp [strstr]

theorem strchr_npt (s : Bytes) : strchr (lit "npt=" ++ s) 61 = some (61 :: s) := by
  have hfound : lit "npt=" = [110, 112, 116, 61] := by decide
  rw [hfound]
  simp [strchr]

theorem strchr_isSome {s : Bytes} {c : UInt8} (h : c ∈ s) : (strchr s c).isSome = true := by
  induction s with
  | nil => cases h
  | cons d s ih =>
    unfold strchr
    split_ifs with hd
    · rfl
    · exact ih ((List.mem_cons.mp h).resolve_left fun he => hd he.symm)

/-- With such a header the start time is the number; that it is valid is not noted. -/
theorem rangeArgs_npt {single : ℚ → ℚ} {t₀ : ℚ} {stack args : PlayArgs} {inp rest : Bytes}
    (a : Decimal) (hp : strstr inp hdrRange = some (a.header rest))
    (h : (rangeArgs single t₀ stack inp).run = some (.ok args)) :
    args.startTime = single a.value ∧ args.startTimeValid = false := by
  have hminus : (strchr (61 :: (a.text ++ 45 :: rest)) 45).isSome = true :=
    strchr_isSome (by simp)
  simp only [rangeArgs, hp, rangeFormat, header, strstr_npt, strchr_npt, hminus, if_true,
    List.drop_succ_cons, List.drop_zero, a.scanFloat_text, Option.map_some, Option.getD_some,
    pure_bind] at h
  unfold rangeTime at h
  split at h
  · cases h
    exact ⟨rfl, rfl⟩
  · rw [if_neg Bool.false_ne_true] at h
    split at h
    · cases h
    · cases h
      exact ⟨rfl, rfl⟩

end Decimal

theorem rangeArgs_none {single : ℚ → ℚ} {t₀ : ℚ} {stack args : PlayArgs} {inp : Bytes}
    (hp : strstr inp hdrRange = none)
    (h : (rangeArgs single t₀ stack inp).run = some (.ok args)) :
    args.startTimeValid = false := by
  simp only [rangeArgs, hp] at h
  cases h
  rfl

end Fenice.Rtsp
