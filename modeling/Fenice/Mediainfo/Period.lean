import Fenice.Mediainfo.Playable
import Fenice.Rtsp.StartTime

/-!
# The period of a stream (validate_stream.c, load_MPV.c, load_h264.c, schedule_do.c)

`pkt_len` is written by the line `PKT_LEN`, overwritten from the table of payload types, and
computed from the frame rate only if the line was not there. The scheduler sends whenever as much
time has passed, and the reader of H.264 divides by the frame rate.
-/

namespace Fenice.Mediainfo
open Fenice.CString

/-! ### The scheduler -/

/-- Up to a time the scheduler sends at most one frame for each period that has passed. -/
theorem calls_paced {me : Playback.Clock} {prev last : ℚ} {visits : List ℚ}
    (hvisits : ∀ v ∈ visits, v ≤ last) (hne : Rtsp.calls me prev visits ≠ []) :
    (Rtsp.calls me prev visits).length * me.pktLen ≤ last - prev := by
  induction visits generalizing prev with
  | nil => exact absurd rfl hne
  | cons mnow visits ih =>
    have hrest : ∀ v ∈ visits, v ≤ last := fun v hv => hvisits v (List.mem_cons_of_mem _ hv)
    unfold Rtsp.calls at hne ⊢
    split_ifs at hne ⊢ with hdue
    · have hnow := hvisits mnow (List.mem_cons_self ..)
      rw [List.length_cons, Nat.cast_add, Nat.cast_one, add_mul, one_mul]
      by_cases hempty : Rtsp.calls me (prev + me.pktLen) visits = []
      · rw [hempty, List.length_nil, Nat.cast_zero, zero_mul]
        linarith [hdue.2]
      · linarith [ih hrest hempty]
    · exact ih hrest hne

/-! ### What is asked of an accepted stream -/

/-- The scheduler sends at most one frame for each `x` milliseconds. -/
def Paced (x : ℚ) : Prop :=
  ∀ (me : Playback.Clock) (prev last : ℚ) (visits : List ℚ), me.pktLen = x → prev ≤ last →
    (∀ v ∈ visits, v ≤ last) → ((Rtsp.calls me prev visits).length : ℚ) ≤ (last - prev) / x

structure UsablePeriod (q : MediaEntry) : Prop where
  pktLen : ∃ x, q.description.pktLen = .finite x ∧ 0 < x ∧ Paced x
  deltaMtime : q.description.deltaMtime.Positive
  noDivision : register_media q = media_func .h264 → q.description.frameRate ≠ 0

/-- What the lines and the table have to give for a video stream whose file can be opened. -/
def Timed (disk : Disk) (p : MediaEntry) : Prop :=
  Complete p → (if 96 ≤ p.description.payloadType then Dynamic p else 0 ≤ p.description.payloadType) →
    (disk p.filename).isSome →
    ftypeOf p.description.encodingName = .mpeg ∨ ftypeOf p.description.encodingName = .h264 →
    if p.description.flags &&& MED_PKT_LEN ≠ 0 then
      p.final.description.pktLen.Positive ∧
        (ftypeOf p.description.encodingName = .h264 → p.description.frameRate ≠ 0)
    else p.description.flags &&& MED_FRAME_RATE ≠ 0 → 0 < p.description.frameRate

section
variable {disk : Disk} {p q : MediaEntry}

theorem paced_of_pos {x : ℚ} (hx : 0 < x) : Paced x := by
  intro me prev last visits hme hlast hvisits
  rw [le_div_iff₀ hx]
  by_cases hne : Rtsp.calls me prev visits = []
  · rw [hne, List.length_nil, Nat.cast_zero, zero_mul]
    linarith
  · have hpaced := calls_paced hvisits hne
    rwa [hme] at hpaced

theorem positive_iff {s : Single} : s.Positive ↔ ∃ x, s = .finite x ∧ 0 < x ∧ Paced x := by
  constructor
  · intro h
    cases s with
    | finite x => exact ⟨x, rfl, h, paced_of_pos h⟩
    | infinite negative => exact h.elim
    | nan => exact h.elim
  · rintro ⟨x, rfl, hx, -⟩
    exact hx

theorem ratePeriod_positive {rate : ℤ} (h : -2 ^ 31 ≤ rate ∧ rate < 2 ^ 31) :
    (ratePeriod rate).Positive ↔ 0 < rate := by
  unfold ratePeriod
  split_ifs with hzero
  · rw [hzero]
    exact ⟨fun hp => hp.elim, fun hp => absurd hp (lt_irrefl _)⟩
  · rcases lt_trichotomy rate 0 with hneg | hz | hpos
    · have hle : (1000 / rate : ℚ) ≤ 0 := by
        have hcast : (rate : ℚ) ≤ 0 := by exact_mod_cast hneg.le
        exact div_nonpos_of_nonneg_of_nonpos (by norm_num) hcast
      exact ⟨fun hp => absurd hp (Single.not_positive_of_nonpos hle), fun hp => absurd hp (by omega)⟩
    · exact absurd hz hzero
    · refine ⟨fun _ => hpos, fun _ => ?_⟩
      have hlow : (1 : ℚ) ≤ rate := by exact_mod_cast hpos
      have hhigh : (rate : ℚ) ≤ 2 ^ 31 := by exact_mod_cast h.2.le
      apply Single.positive_ofRat
      · rw [le_div_iff₀ (by linarith)]
        have hsmall : (2 : ℚ) ^ (-126 : ℤ) * rate ≤ 2 ^ (-126 : ℤ) * 2 ^ 31 :=
          mul_le_mul_of_nonneg_left hhigh (Single.two_zpow_pos _).le
        refine hsmall.trans ?_
        norm_num
      · rw [div_le_iff₀ (by linarith)]
        have hbig : (2 : ℚ) ^ 126 * 1 ≤ 2 ^ 126 * rate :=
          mul_le_mul_of_nonneg_left hlow (by positivity)
        refine le_trans ?_ hbig
        norm_num

/-! ### The loaders -/

theorem sampleRate_bounds {b c : UInt8} {rate : ℕ} (h : Mpa.sampleRate b c = some rate) :
    16000 ≤ rate ∧ rate ≤ 48000 := by
  unfold Mpa.sampleRate at h
  split at h <;> first | (cases h; omega) | cases h

theorem frame_positive {n rate : ℕ} (hn : 1 ≤ n ∧ n ≤ 1152) (hrate : 16000 ≤ rate ∧ rate ≤ 48000) :
    (Single.ofRat (n / rate * 1000)).Positive := by
  have hl : (16000 : ℚ) ≤ rate := by exact_mod_cast hrate.1
  have hh : (rate : ℚ) ≤ 48000 := by exact_mod_cast hrate.2
  have hn1 : (1 : ℚ) ≤ n := by exact_mod_cast hn.1
  have hn2 : (n : ℚ) ≤ 1152 := by exact_mod_cast hn.2
  have hpos : (0 : ℚ) < rate := by linarith
  rw [div_mul_eq_mul_div]
  apply Single.positive_ofRat
  · rw [le_div_iff₀ hpos]
    have hsmall : (2 : ℚ) ^ (-126 : ℤ) * rate ≤ 2 ^ (-126 : ℤ) * 48000 :=
      mul_le_mul_of_nonneg_left hh (Single.two_zpow_pos _).le
    have hconst : (2 : ℚ) ^ (-126 : ℤ) * 48000 ≤ 1000 := by norm_num
    linarith
  · rw [div_le_iff₀ hpos]
    have hbig : (2 : ℚ) ^ 126 * 16000 ≤ 2 ^ 126 * rate :=
      mul_le_mul_of_nonneg_left hl (by positivity)
    have hconst : (1152 : ℚ) * 1000 ≤ 2 ^ 126 * 16000 := by norm_num
    linarith

theorem parseHeader_period {buff : ℕ → UInt8} {d e : Mpa.Description}
    (h : Mpa.parseHeader buff d = .ok e) :
    (Single.ofRat e.pktLen).Positive ∧ e.deltaMtime = e.pktLen := by
  unfold Mpa.parseHeader at h
  by_cases hsync : Mpa.sync buff = true
  swap
  · rw [if_neg hsync] at h
    cases h
  rw [if_pos hsync] at h
  cases hcol : Mpa.colIndex (buff 1) with
  | none =>
    rw [hcol] at h
    cases h
  | some col =>
    cases hrate : Mpa.sampleRate (buff 1) (buff 2) with
    | none =>
      rw [hcol, hrate] at h
      cases h
    | some rate =>
      rw [hcol, hrate] at h
      cases h
      refine ⟨frame_positive ?_ (sampleRate_bounds hrate), rfl⟩
      split_ifs <;> omega

theorem bind_eq_ok {ε α β : Type} {x : Except ε α} {f : α → Except ε β} {b : β}
    (h : x.bind f = .ok b) : ∃ a, x = .ok a ∧ f a = .ok b := by
  cases x with
  | error e => cases h
  | ok a => exact ⟨a, rfl, h⟩

theorem map_eq_ok {ε α β : Type} {x : Except ε α} {f : α → β} {b : β}
    (h : x.map f = .ok b) : ∃ a, x = .ok a ∧ f a = b := by
  cases x with
  | error e => cases h
  | ok a =>
    cases h
    exact ⟨a, rfl, rfl⟩

theorem load_MPA_period (h : load_MPA disk p = .ok q) :
    q.description.pktLen.Positive ∧ q.description.deltaMtime.Positive := by
  unfold load_MPA at h
  obtain ⟨file, _, h⟩ := bind_eq_ok h
  obtain ⟨me, hload, rfl⟩ := map_eq_ok h
  have hheader : ∃ buff d, Mpa.parseHeader buff d = .ok me.description := by
    unfold Mpa.load_MPA at hload
    dsimp only at hload
    split_ifs at hload
    all_goals
      obtain ⟨x, _, hx⟩ := bind_eq_ok hload
      obtain ⟨e, he, rfl⟩ := map_eq_ok hx
      exact ⟨_, _, he⟩
  obtain ⟨buff, d, hheader⟩ := hheader
  obtain ⟨hpos, hsame⟩ := parseHeader_period hheader
  refine ⟨hpos, ?_⟩
  change (Single.ofRat me.description.deltaMtime).Positive
  rw [hsame]
  exact hpos

/-- What a video loader needs of an entry, so that what it leaves has a usable period. -/
def VideoTimed (p : MediaEntry) : Prop :=
  if p.description.flags &&& MED_PKT_LEN ≠ 0 then
    p.description.pktLen.Positive ∧ (p.description.ftype = .h264 → p.description.frameRate ≠ 0)
  else p.description.flags &&& MED_FRAME_RATE ≠ 0 → 0 < p.description.frameRate

theorem usable_iff : UsablePeriod q ↔ q.description.pktLen.Positive ∧
    q.description.deltaMtime.Positive ∧
      (q.description.ftype = .h264 → q.description.frameRate ≠ 0) := by
  constructor
  · intro h
    refine ⟨positive_iff.mpr h.pktLen, h.deltaMtime, fun ht => h.noDivision ?_⟩
    rw [register_media, ht]
  · rintro ⟨hpkt, hdelta, hdiv⟩
    exact ⟨positive_iff.mp hpkt, hdelta, fun ht => hdiv (media_func_inj ht)⟩

theorem loadVideo_usable (t : MediaFileType)
    (hrate : -2 ^ 31 ≤ p.description.frameRate ∧ p.description.frameRate < 2 ^ 31) :
    (∀ q, loadVideo t p = .ok q → UsablePeriod q) ↔ VideoTimed p := by
  unfold loadVideo VideoTimed
  by_cases hpkt : p.description.flags &&& MED_PKT_LEN ≠ 0
  · rw [if_pos hpkt, if_pos hpkt]
    constructor
    · intro h
      obtain ⟨hpos, -, hdiv⟩ := usable_iff.mp (h _ rfl)
      exact ⟨hpos, hdiv⟩
    · rintro ⟨hpos, hdiv⟩ q hq
      cases hq
      exact usable_iff.mpr ⟨hpos, hpos, hdiv⟩
  · rw [if_neg hpkt, if_neg hpkt]
    by_cases hflag : p.description.flags &&& MED_FRAME_RATE = 0
    · rw [if_pos hflag]
      refine ⟨fun _ hne => absurd hflag hne, fun _ q hq => ?_⟩
      cases hq
    · rw [if_neg hflag]
      constructor
      · intro h _
        exact (ratePeriod_positive hrate).mp (usable_iff.mp (h _ rfl)).1
      · intro h q hq
        cases hq
        have hpos := (ratePeriod_positive hrate).mpr (h hflag)
        have hne : p.description.frameRate ≠ 0 := by
          have := h hflag
          omega
        exact usable_iff.mpr ⟨hpos, hpos, fun _ => hne⟩

theorem load_video_usable (t : MediaFileType) (hname : p.flags &&& ME_FILENAME ≠ 0)
    (hrate : -2 ^ 31 ≤ p.description.frameRate ∧ p.description.frameRate < 2 ^ 31) :
    (∀ q, load_video disk t p = .ok q → UsablePeriod q) ↔
      ((disk p.filename).isSome → VideoTimed p) := by
  unfold load_video mediaopen
  rw [if_neg hname]
  cases disk p.filename with
  | none =>
    constructor
    · intro _ h
      cases h
    · intro _ q hq
      cases hq
  | some file =>
    rw [← loadVideo_usable t hrate]
    exact ⟨fun h _ => h, fun h => h rfl⟩

/-! ### The entry that is handed to the loader -/

theorem final_flags (p : MediaEntry) {flag : ℕ} (h : flag = MED_PKT_LEN ∨ flag = MED_FRAME_RATE) :
    p.final.description.flags &&& flag = p.description.flags &&& flag := by
  unfold MediaEntry.final
  split_ifs
  · rfl
  · simp only [MediaEntry.describe, Description.ofStatic, Nat.and_or_distrib_right]
    rcases h with rfl | rfl
    · simp [MED_ENCODING_NAME, MED_CLOCK_RATE, MED_AUDIO_CHANNELS, MED_BIT_PER_SAMPLE,
        MED_CODING_TYPE, MED_PKT_LEN]
    · simp [MED_ENCODING_NAME, MED_CLOCK_RATE, MED_AUDIO_CHANNELS, MED_BIT_PER_SAMPLE,
        MED_CODING_TYPE, MED_FRAME_RATE]

theorem final_entry (p : MediaEntry) : p.final.flags = p.flags ∧ p.final.filename = p.filename ∧
    p.final.description.frameRate = p.description.frameRate := by
  unfold MediaEntry.final
  split_ifs
  · exact ⟨rfl, rfl, rfl⟩
  · exact ⟨rfl, rfl, rfl⟩

theorem period_iff (hp : Formed p) :
    (∀ q, validate_stream (load_media disk) p = some (.ok q) → UsablePeriod q) ↔ Timed disk p := by
  by_cases hcomplete : Complete p
  swap
  · rw [validate_incomplete _ hcomplete]
    refine ⟨fun _ hc => absurd hc hcomplete, fun _ q hq => ?_⟩
    cases hq
  by_cases hopen : if 96 ≤ p.description.payloadType then Dynamic p else 0 ≤ p.description.payloadType
  swap
  · have hvalid : ∀ q, validate_stream (load_media disk) p ≠ some (.ok q) := by
      intro q hq
      rw [validate_complete _ hcomplete] at hq
      split_ifs at hq hopen with h96 hdyn
      · cases hq
      · omega
    exact ⟨fun _ _ ho => absurd ho hopen, fun _ q hq => absurd hq (hvalid q)⟩
  have hvalid : validate_stream (load_media disk) p = registerAndLoad (load_media disk) p.final := by
    rw [validate_complete _ hcomplete]
    split_ifs at hopen ⊢
    · rfl
    · omega
    · rfl
  obtain ⟨hflags, hfile, hrate⟩ := final_entry p
  have hname : p.final.flags &&& ME_FILENAME ≠ 0 := hflags ▸ hcomplete.1
  have hrange := hp.frameRate
  rw [← hrate] at hrange
  have htimed : VideoTimed p.final ↔
      if p.description.flags &&& MED_PKT_LEN ≠ 0 then
        p.final.description.pktLen.Positive ∧
          (ftypeOf p.description.encodingName = .h264 → p.description.frameRate ≠ 0)
      else p.description.flags &&& MED_FRAME_RATE ≠ 0 → 0 < p.description.frameRate := by
    unfold VideoTimed
    rw [final_flags p (.inl rfl), final_flags p (.inr rfl), final_ftype, hp.ftype, hrate]
  rw [hvalid, registerAndLoad_final hp]
  unfold Timed
  rw [← htimed]
  cases ht : ftypeOf p.description.encodingName with
  | none =>
    rw [if_pos rfl]
    constructor
    · intro _ _ _ _ hv
      rcases hv with hv | hv <;> cases hv
    · intro _ q hq
      cases hq
  | mp3 =>
    rw [if_neg (by decide)]
    refine ⟨fun _ _ _ _ hv => ?_, fun _ q hq => ?_⟩
    · rcases hv with hv | hv <;> cases hv
    · have hload := Option.some.inj hq
      obtain ⟨hpkt, hdelta⟩ := load_MPA_period hload
      obtain ⟨-, -, hftype, -⟩ := load_media_keeps hload
      refine usable_iff.mpr ⟨hpkt, hdelta, fun h264 => ?_⟩
      rw [hftype, final_ftype, hp.ftype, ht] at h264
      cases h264
  | mpeg =>
    have hload := @load_video_usable disk p.final .mpeg hname hrange
    rw [hfile] at hload
    rw [if_neg (by decide)]
    constructor
    · intro h _ _ hsome _
      exact hload.mp (fun q hq => h q (congrArg some hq)) hsome
    · intro h q hq
      exact hload.mpr (fun hsome => h hcomplete hopen hsome (.inl rfl)) q (Option.some.inj hq)
  | h264 =>
    have hload := @load_video_usable disk p.final .h264 hname hrange
    rw [hfile] at hload
    rw [if_neg (by decide)]
    constructor
    · intro h _ _ hsome _
      exact hload.mp (fun q hq => h q (congrArg some hq)) hsome
    · intro h q hq
      exact hload.mpr (fun hsome => h hcomplete hopen hsome (.inr rfl)) q (Option.some.inj hq)

end

/-- For every file: exactly if the lines give each stream that is accepted a period. -/
theorem streams_period_iff {δ : Type} (disk : Disk) (put : δ → Item → δ) (text : Bytes) (d : δ) :
    (∀ p ∈ fileStreams (load_media disk) put text d, ∀ q,
      validate_stream (load_media disk) p = some (.ok q) → UsablePeriod q) ↔
      ∀ p ∈ fileStreams (load_media disk) put text d, Timed disk p := by
  constructor
  · intro h p hp
    exact (period_iff (validated_formed hp)).mp (h p hp)
  · intro h p hp
    exact (period_iff (validated_formed hp)).mpr (h p hp)

/-- A video stream with the frame rate zero. -/
def stillText : Bytes :=
  lit "STREAM\nFILE_NAME v\nENCODING_NAME MPV\nPAYLOAD_TYPE 32\nFRAME_RATE 0\n" ++
    lit "PRIORITY 1\nSTREAM_END\n"

/-- It is accepted with an infinite period. -/
theorem still_accepted : ¬∀ (disk : Disk) (text : Bytes) (d : SDDescr),
    ∀ p ∈ fileStreams (load_media disk) SDDescr.put text d, ∀ q,
      validate_stream (load_media disk) p = some (.ok q) → UsablePeriod q := by
  intro hall
  have hstill : (fileStreams (load_media fun _ => some []) SDDescr.put stillText {}).any
      (fun p => (validate_stream (load_media fun _ => some []) p).any fun result =>
        result.toOption.any fun q => !decide q.description.pktLen.Positive) = true := by
    decide +kernel
  obtain ⟨p, hp, hp'⟩ := List.any_eq_true.mp hstill
  obtain ⟨result, hvalid, hresult⟩ := (Option.any_eq_true _ _).mp hp'
  cases result with
  | error e => cases hresult
  | ok q =>
    have hnot : ¬q.description.pktLen.Positive := by
      change (!decide q.description.pktLen.Positive) = true at hresult
      simpa using hresult
    exact hnot (usable_iff.mp (hall _ _ _ p hp q hvalid)).1

end Fenice.Mediainfo
