import Fenice.Lib.Run
import Fenice.Mediainfo.Mpeg4Es

/-!
# The packets of an MPEG-4 elementary stream

The calls copy the file behind the four bytes of a start code that is not in it. What they have
not sent yet is the rest of a plane that was too long, the start code in `final_byte`, and the
rest of the file.
-/

namespace Fenice.Mediainfo.Mpeg4
open Fenice.Run Fenice.Mediainfo.Mpeg

/-- The rest of a plane that is sent in fragments. -/
def StaticMpeg4VideoEs.left (s : StaticMpeg4VideoEs) : List UInt8 :=
  if s.fragmented then s.moreData.drop s.dataRead else []

/-- What is not sent yet. -/
def Mpeg4Media.unsent (me : Mpeg4Media) : List UInt8 :=
  match me.stat with
  | none => [0, 0, 1, 0] ++ me.bytes
  | some s => s.left ++ (s.front ++ me.rest)

/-- The bookkeeping of the fragments. -/
def StaticMpeg4VideoEs.Counts (s : StaticMpeg4VideoEs) : Prop :=
  s.fragmented = true →
    0 < s.remainedDataSize ∧ s.dataRead + s.remainedDataSize = s.moreData.length

/-- What holds between two calls. -/
structure StaticMpeg4VideoEs.Sound (s : StaticMpeg4VideoEs) : Prop where
  counts : s.Counts
  current : s.vopCodingType ≠ 2 → s.timestamp = s.lastNonBTimestamp

theorem bind_ok {α β : Type} {x : Except Fault α} {k : α → Except Fault β} {b : β}
    (h : (x >>= k) = .ok b) : ∃ a, x = .ok a ∧ k a = .ok b := by
  cases x with
  | error f => cases h
  | ok a => exact ⟨a, rfl, h⟩

/-! ### What is copied -/

section Copying

variable {mem : Memory} {s s' : StaticMpeg4VideoEs} {c c' : Copy} {fuel : ℕ}

theorem scan_suffix {x y z : UInt8} {rest copied left : List UInt8}
    (h : scan x y z rest = (copied, some left)) : ∃ front, copied = front ++ [0, 0, 1] := by
  induction rest generalizing x y z copied with
  | nil =>
    unfold scan at h
    split_ifs at h with hcode
    · cases h
      obtain ⟨rfl, rfl, rfl⟩ := hcode
      exact ⟨[], rfl⟩
    · cases h
  | cons d rest ih =>
    unfold scan at h
    split_ifs at h with hcode
    · cases h
      obtain ⟨rfl, rfl, rfl⟩ := hcode
      exact ⟨[], rfl⟩
    · dsimp only at h
      rcases hs : scan y z d rest with ⟨copied', left'⟩
      rw [hs] at h
      cases h
      obtain ⟨front, rfl⟩ := ih hs
      exact ⟨x :: front, rfl⟩

theorem readByte_copies (h : readByte c = .ok c') :
    Copies c c' ∧ ∃ x, c'.buf = c.buf ++ [x] ∧ c'.buf.length ≤ dataSize := by
  obtain ⟨buf, rest⟩ := c
  cases rest with
  | nil => cases h
  | cons x rest =>
    unfold readByte at h
    dsimp only at h
    split_ifs at h with hroom
    cases h
    have hlen : (buf ++ [x]).length = buf.length + 1 := by
      rw [List.length_append, List.length_singleton]
    refine ⟨⟨?_, ?_⟩, x, rfl, ?_⟩
    · exact List.append_cons buf x rest ▸ rfl
    · exact hlen ▸ Nat.le_succ _
    · exact hlen ▸ hroom

/-- The last four bytes are a start code and the byte behind it. -/
structure Codes (c c' : Copy) : Prop where
  copies : Copies c c'
  suffix : ∃ front, c'.buf = front ++ [0, 0, 1, c'.back 1]
  consumes : c.buf.length + 4 ≤ c'.buf.length
  room : c'.buf.length ≤ dataSize

theorem nextCode_codes (h : nextCode c = .ok c') : Codes c c' := by
  unfold nextCode at h
  dsimp only at h
  split_ifs at h with hroom hend
  obtain ⟨hfound, hthree⟩ := start_code_found hend
  obtain ⟨hread, x, hx, hsize⟩ := readByte_copies h
  have hback : c'.back 1 = x := by
    unfold Copy.back
    rw [hx, List.length_append, List.length_singleton, Nat.add_sub_cancel,
      List.getD_append_right _ _ _ _ le_rfl, Nat.sub_self]
    rfl
  have hlen : c'.buf.length = (next_start_code c).2.buf.length + 1 := by
    rw [hx, List.length_append, List.length_singleton]
  refine ⟨hfound.trans hread, ?_, by omega, hsize⟩
  obtain ⟨buf, rest⟩ := c
  unfold next_start_code at hend hx
  rcases rest with _ | ⟨x', _ | ⟨y, _ | ⟨z, rest⟩⟩⟩
  case cons.cons.cons =>
    dsimp only at hend hx
    rcases hs : scan x' y z rest with ⟨copied, _ | left⟩
    · rw [hs] at hend
      exact absurd (show (-1 : ℤ) < 0 by decide) hend
    · rw [hs] at hx
      obtain ⟨front, rfl⟩ := scan_suffix hs
      refine ⟨buf ++ front, ?_⟩
      rw [hback, hx]
      simp
  all_goals exact absurd (show (-1 : ℤ) < 0 by decide) hend

theorem Codes.behind {c'' : Copy} (h' : Codes c' c'') (h : Copies c c') : Codes c c'' where
  copies := h.trans h'.copies
  suffix := h'.suffix
  consumes := (Nat.add_le_add_right h.grows 4).trans h'.consumes
  room := h'.room

theorem Codes.rest_lt (h : Codes c c') : c'.rest.length < c.rest.length := by
  have := h.copies.length
  have := h.consumes
  omega

/-! ### Headers and planes -/

structure SameTimes (s s' : StaticMpeg4VideoEs) : Prop where
  lastNonB : s'.lastNonBTimestamp = s.lastNonBTimestamp
  timestamp : s'.timestamp = s.timestamp
  resolution : s'.timeResolution = s.timeResolution

theorem SameTimes.refl (s : StaticMpeg4VideoEs) : SameTimes s s := ⟨rfl, rfl, rfl⟩

theorem SameTimes.trans {s'' : StaticMpeg4VideoEs} (h : SameTimes s s') (h' : SameTimes s' s'') :
    SameTimes s s'' :=
  ⟨h'.lastNonB.trans h.lastNonB, h'.timestamp.trans h.timestamp,
    h'.resolution.trans h.resolution⟩

theorem parse_visual_object_codes (h : parse_visual_object mem c = .ok c') : Codes c c' := by
  obtain ⟨c₁, hcode, h⟩ := bind_ok h
  obtain ⟨⟨identifier, off⟩, -, h⟩ := bind_ok h
  obtain ⟨_, -, h⟩ := bind_ok h
  cases h
  exact nextCode_codes hcode

theorem parse_video_object_layer_codes (h : parse_video_object_layer mem s c = .ok (s', c')) :
    Codes c c' ∧ SameTimes s s' := by
  obtain ⟨c₁, hcode, h⟩ := bind_ok h
  obtain ⟨off, -, h⟩ := bind_ok h
  obtain ⟨⟨resolution, off⟩, -, h⟩ := bind_ok h
  obtain ⟨off, -, h⟩ := bind_ok h
  obtain ⟨increment, -, h⟩ := bind_ok h
  cases h
  exact ⟨nextCode_codes hcode, rfl, rfl, rfl⟩

theorem parse_video_object_plane_codes (h : parse_video_object_plane mem s c = .ok (s', c')) :
    Codes c c' ∧ ∃ codingType base increment, s' = s.plane codingType base increment := by
  obtain ⟨c₁, hcode, h⟩ := bind_ok h
  obtain ⟨⟨codingType, off⟩, -, h⟩ := bind_ok h
  obtain ⟨⟨base, off⟩, -, h⟩ := bind_ok h
  obtain ⟨off, -, h⟩ := bind_ok h
  obtain ⟨⟨increment, off⟩, -, h⟩ := bind_ok h
  cases h
  exact ⟨nextCode_codes hcode, codingType, base, increment, rfl⟩

theorem header_codes (h : header mem s c = .ok (s', c')) : Codes c c' ∧ SameTimes s s' := by
  unfold header at h
  split_ifs at h
  · obtain ⟨⟨s₁, c₁⟩, hseq, h⟩ := bind_ok h
    obtain ⟨c₂, hcode, h⟩ := bind_ok h
    obtain ⟨c₃, hread, hseq⟩ := bind_ok hseq
    cases h
    cases hseq
    exact ⟨(nextCode_codes hcode).behind (readByte_copies hread).1, rfl, rfl, rfl⟩
  · obtain ⟨c₁, hcode, h⟩ := bind_ok h
    cases h
    exact ⟨parse_visual_object_codes hcode, .refl _⟩
  · obtain ⟨c₁, hcode, h⟩ := bind_ok h
    cases h
    exact ⟨nextCode_codes hcode, .refl _⟩
  · exact parse_video_object_layer_codes h
  · obtain ⟨c₁, hcode, h⟩ := bind_ok h
    cases h
    exact ⟨nextCode_codes hcode, .refl _⟩

theorem headers_copies (h : headers mem fuel s c = some (.ok (s', c'))) :
    Copies c c' ∧ SameTimes s s' := by
  induction fuel generalizing s c with
  | zero => cases h
  | succ fuel ih =>
    unfold headers at h
    split_ifs at h
    · cases h
      exact ⟨.refl _, .refl _⟩
    · cases hstep : header mem s c with
      | error f =>
        rw [hstep] at h
        cases h
      | ok r =>
        obtain ⟨s₁, c₁⟩ := r
        rw [hstep] at h
        obtain ⟨hcodes, hsame⟩ := header_codes hstep
        obtain ⟨hcopies, htimes⟩ := ih h
        exact ⟨hcodes.copies.trans hcopies,
          ⟨htimes.lastNonB.trans hsame.lastNonB, htimes.timestamp.trans hsame.timestamp,
            htimes.resolution.trans hsame.resolution⟩⟩

theorem headers_end (h : c.rest.length < fuel) : ∃ r, headers mem fuel s c = some r := by
  induction fuel generalizing s c with
  | zero => omega
  | succ fuel ih =>
    unfold headers
    split_ifs
    · exact ⟨_, rfl⟩
    · cases hstep : header mem s c with
      | error f => exact ⟨_, rfl⟩
      | ok r =>
        obtain ⟨s₁, c₁⟩ := r
        have hlt := (header_codes hstep).1.rest_lt
        exact ih (by omega)

end Copying

/-! ### Times -/

section Times

variable {s : StaticMpeg4VideoEs} {codingType base increment : ℕ}

theorem nextTime_near {step : ℚ} (hstep : 0 ≤ step) (last t : ℚ) :
    ∃ next, nextTime (some last) step (some t) = some next ∧ last ≤ next ∧ next ≤ last + 6 * step := by
  simp only [nextTime, Double.less, Double.plus, Option.map_some, decide_eq_true_eq]
  by_cases hbefore : t < last
  · rw [if_pos hbefore]
    refine ⟨last + step, ?_, by linarith, by linarith⟩
    simp
  · rw [if_neg hbefore]
    by_cases hafter : last + 6 * step < t
    · exact ⟨last + step, by simp [hafter], by linarith, by linarith⟩
    · exact ⟨t, by simp [hafter], not_lt.mp hbefore, not_lt.mp hafter⟩

/-- The time of a plane that is no B-frame does not go back, and not far ahead. -/
theorem nonB_times (s : StaticMpeg4VideoEs) (base : ℕ) {last : ℚ}
    (hlast : s.lastNonBTimestamp = some last) (hscale : s.ref2.vopTimeIncrementResolution ≠ 0) :
    ∃ next, (s.nonB base).lastNonBTimestamp = some next ∧ last ≤ next ∧
      next ≤ last + 6 * s.timeResolution := by
  have htime : ∀ m, ∃ t, Mpeg4TimeRef.time { s.ref2 with moduloTimeBase := m } = some t :=
    fun m => ⟨_, if_neg hscale⟩
  obtain ⟨t, ht⟩ := htime ((s.ref2.moduloTimeBase + base) % 2 ^ 32)
  unfold StaticMpeg4VideoEs.nonB
  dsimp only
  rw [hlast, ht]
  exact nextTime_near (Nat.cast_nonneg _) last t

/-- What a plane does to the times, if its resolution is not 0. -/
structure Times (s s' : StaticMpeg4VideoEs) : Prop where
  grows : s'.ref2.vopTimeIncrementResolution ≠ 0 → ∀ last, s.lastNonBTimestamp = some last →
    ∃ next, s'.lastNonBTimestamp = some next ∧ last ≤ next
  current : s'.vopCodingType ≠ 2 → s'.timestamp = s'.lastNonBTimestamp

theorem plane_times (s : StaticMpeg4VideoEs) (codingType base increment : ℕ) :
    Times s (s.plane codingType base increment) := by
  have hnonB : ∀ (t : StaticMpeg4VideoEs), t.lastNonBTimestamp = s.lastNonBTimestamp →
      Times s (t.nonB base) := by
    refine fun t ht => ⟨fun hscale last hlast => ?_, fun _ => rfl⟩
    obtain ⟨next, hnext, hle, -⟩ := nonB_times t base (ht.trans hlast) hscale
    exact ⟨next, hnext, hle⟩
  have hb : ∀ (t : StaticMpeg4VideoEs), t.lastNonBTimestamp = s.lastNonBTimestamp →
      t.vopCodingType = 2 → Times s t.bFrame := fun t ht htwo =>
    ⟨fun _ last hlast => ⟨last, ht.trans hlast, le_rfl⟩, fun hne => absurd htwo hne⟩
  unfold StaticMpeg4VideoEs.plane
  dsimp only
  by_cases htype : codingType = 2
  · rw [if_neg (not_not.mpr htype)]
    split_ifs
    · exact hb _ rfl htype
    · exact hb _ rfl htype
  · rw [if_pos htype]
    split_ifs
    · exact hnonB _ rfl
    · exact hnonB _ rfl

end Times

/-! ### One call -/

section Calls

variable {me me' : Mpeg4Media} {call : Call} {s : StaticMpeg4VideoEs} {p : Mpeg4Packet}
  {data : List UInt8} {n : ℕ}

/-- A call that returns a packet. -/
structure Sends (me : Mpeg4Media) (p : Mpeg4Packet) (me' : Mpeg4Media) : Prop where
  bytes : p.data ++ me'.unsent = me.unsent
  size : p.data.length ≤ me.numBytes
  full : p.marker = false → p.data.length = me.numBytes
  same : me'.numBytes = me.numBytes ∧ me'.live = me.live
  sound : ∃ s', me'.stat = some s' ∧ s'.Sound ∧ p.mtime = s'.timestamp ∧
    Times (me.stat.getD {}) s'

theorem fragment_eq (hfrag : s.fragmented = true) (hs : s.Counts) :
    (s.fragment n).1.data ++ (s.fragment n).2.left = s.left ∧ (s.fragment n).1.data.length ≤ n ∧
      ((s.fragment n).1.marker = false → (s.fragment n).1.data.length = n) ∧
      (s.fragment n).2.Counts := by
  obtain ⟨hpos, hlen⟩ := hs hfrag
  have hleft : s.left = s.moreData.drop s.dataRead := if_pos hfrag
  have hrest : (s.moreData.drop s.dataRead).length = s.remainedDataSize := by
    rw [List.length_drop]
    omega
  unfold StaticMpeg4VideoEs.fragment
  dsimp only
  rw [hleft]
  split_ifs with hmore
  · have htake : ((s.moreData.drop s.dataRead).take n).length = n := by
      rw [List.length_take, hrest]
      omega
    refine ⟨?_, htake.le, fun _ => htake, fun _ => ⟨?_, ?_⟩⟩
    · rw [StaticMpeg4VideoEs.left, if_pos rfl, ← List.drop_drop, List.take_append_drop]
    · exact Nat.sub_pos_of_lt hmore
    · dsimp only
      omega
  · have hall : (s.moreData.drop s.dataRead).take s.remainedDataSize = s.moreData.drop s.dataRead :=
      List.take_of_length_le hrest.le
    rw [hall]
    refine ⟨?_, ?_, fun hm => hm.elim, fun hf => Bool.noConfusion hf⟩
    · rw [StaticMpeg4VideoEs.left, if_neg Bool.false_ne_true, List.append_nil]
    · rw [hrest]
      exact Nat.not_lt.mp hmore

theorem deliver_eq (s : StaticMpeg4VideoEs) (n : ℕ) (data : List UInt8) :
    (s.deliver n data).1 ++ (s.deliver n data).2.2.left = data ∧
      (s.deliver n data).1.length ≤ n ∧
      ((s.deliver n data).2.1 = true → (s.deliver n data).1.length = n) ∧
      (s.deliver n data).2.2.Counts ∧ SameTimes s (s.deliver n data).2.2 ∧
      (s.deliver n data).2.2.finalByte = s.finalByte ∧
      (s.deliver n data).2.2.vopCodingType = s.vopCodingType ∧
      (s.deliver n data).2.2.ref2 = s.ref2 := by
  unfold StaticMpeg4VideoEs.deliver
  split_ifs with hlong
  · have htake : (data.take n).length = n := by
      rw [List.length_take, min_eq_left hlong.le]
    refine ⟨?_, htake.le, fun _ => htake, fun _ => ⟨?_, ?_⟩, ⟨rfl, rfl, rfl⟩, rfl, rfl, rfl⟩
    · rw [StaticMpeg4VideoEs.left, if_pos rfl, List.take_append_drop]
    · exact Nat.sub_pos_of_lt hlong
    · exact Nat.add_sub_cancel' hlong.le
  · refine ⟨?_, Nat.not_lt.mp hlong, fun h => h.elim, fun hf => Bool.noConfusion hf,
      ⟨rfl, rfl, rfl⟩, rfl, rfl, rfl⟩
    rw [StaticMpeg4VideoEs.left, if_neg Bool.false_ne_true, List.append_nil]

theorem Codes.kept {c c' : Copy} (h : Codes c c') (s : StaticMpeg4VideoEs)
    (hfinal : s.finalByte = c'.back 1) :
    (if s.finalByte = vosEndCode then c'.buf else c'.buf.take (c'.buf.length - 4)) ++
      (s.front ++ c'.rest) = c.buf ++ c.rest := by
  rw [StaticMpeg4VideoEs.front]
  split_ifs
  · exact h.copies.bytes
  · obtain ⟨front, hsuffix⟩ := h.suffix
    have htake : c'.buf.take (c'.buf.length - 4) = front := by
      rw [hsuffix, List.length_append]
      exact List.take_left' rfl
    rw [htake, hfinal, ← List.append_assoc, ← hsuffix]
    exact h.copies.bytes

theorem Times.later {s₀ s₁ s' s'' : StaticMpeg4VideoEs} (h : Times s₁ s')
    (hfirst : s₁.lastNonBTimestamp = s₀.lastNonBTimestamp)
    (hlast : s''.lastNonBTimestamp = s'.lastNonBTimestamp) (ht : s''.timestamp = s'.timestamp)
    (htype : s''.vopCodingType = s'.vopCodingType)
    (hscale : s''.ref2 = s'.ref2) : Times s₀ s'' where
  grows := by
    rw [← hfirst, hlast, hscale]
    exact h.grows
  current := by
    rw [htype, ht, hlast]
    exact h.current

theorem finish_sends {c₀ c : Copy} (hlive : me.live = false) (hcodes : Codes c₀ c)
    (hunsent : me.unsent = c₀.buf ++ c₀.rest) (hfinal : s.finalByte = c.back 1)
    (htimes : Times (me.stat.getD {}) s) (h : me.finish call s c = (p, me')) : Sends me p me' := by
  have hfresh : ¬ (me.live = true ∧ |call.mtime| < 1) := by
    rw [hlive]
    exact fun h => Bool.noConfusion h.1
  unfold Mpeg4Media.finish at h
  dsimp only at h
  rw [if_neg fun h => hfresh h.1, if_neg hfresh] at h
  have hkept := hcodes.kept s hfinal
  generalize (if s.finalByte = vosEndCode then c.buf else c.buf.take (c.buf.length - 4)) = data
    at h hkept
  obtain ⟨hbytes, hsize, hfull, hcounts, hsame, hcode, htype, hscale⟩ :=
    deliver_eq s me.numBytes data
  generalize s.deliver me.numBytes data = r at h hbytes hsize hfull hcounts hsame hcode htype hscale
  obtain ⟨sent, recallme, t⟩ := r
  dsimp only at h hbytes hsize hfull hcounts hsame hcode htype hscale
  cases h
  have hstate : ∃ res, (me.resolve t c.rest).stat = some { t with timeResolution := res } ∧
      (me.resolve t c.rest).rest = c.rest ∧ (me.resolve t c.rest).live = me.live ∧
      (me.resolve t c.rest).bytePerPckt = me.bytePerPckt := by
    unfold Mpeg4Media.resolve
    split_ifs
    · exact ⟨t.timeResolution, rfl, rfl, rfl, rfl⟩
    · exact ⟨_, rfl, rfl, rfl, rfl⟩
  obtain ⟨res, hstat, hrest, hlive', hbyte⟩ := hstate
  have htimes' := htimes.later rfl hsame.lastNonB hsame.timestamp htype hscale
  refine ⟨?_, hsize, fun hm => hfull ?_, ⟨?_, hlive'⟩, _, hstat, ⟨hcounts, htimes'.current⟩, ?_,
    htimes'.later rfl rfl rfl rfl rfl⟩
  · rw [Mpeg4Media.unsent, hstat, hrest, hunsent, ← hkept, ← hbytes, List.append_assoc]
    congr 2
    simp only [StaticMpeg4VideoEs.front, hcode]
    rfl
  · cases recallme
    · cases hm
    · rfl
  · rw [Mpeg4Media.numBytes, Mpeg4Media.numBytes, hbyte]
  · exact hsame.timestamp.symm

theorem collect_sends (hlive : me.live = false) (hunsent : me.unsent = s.front ++ me.file)
    (hlast : (me.stat.getD {}).lastNonBTimestamp = s.lastNonBTimestamp)
    (h : me.collect call s = some (.ok (p, me'))) : Sends me p me' := by
  obtain ⟨r, hr, h⟩ := Option.map_eq_some_iff.mp h
  obtain ⟨⟨s₁, c₁⟩, hheaders, htail⟩ := bind_ok h
  obtain ⟨⟨s₂, c₂⟩, hplane, hend⟩ := bind_ok htail
  rw [hheaders] at hr
  obtain ⟨hcopies, hsame⟩ := headers_copies hr
  obtain ⟨hcodes, codingType, base, increment, rfl⟩ := parse_video_object_plane_codes hplane
  have htimes := plane_times s₁ codingType base increment
  exact finish_sends (s := { s₁.plane codingType base increment with finalByte := c₂.back 1 })
    hlive (hcodes.behind hcopies) hunsent rfl
    (htimes.later (hsame.lastNonB.trans hlast.symm) rfl rfl rfl rfl) (Except.ok.inj hend)

/-- A stored stream that was not read, or is between two calls. -/
def Mpeg4Media.Ready (me : Mpeg4Media) : Prop :=
  me.live = false ∧ ∀ s, me.stat = some s → s.Sound

theorem start_stat (me : Mpeg4Media) :
    ∃ r₁ r₂, me.start = { me.stat.getD {} with ref1 := r₁, ref2 := r₂ } := by
  unfold Mpeg4Media.start
  dsimp only
  split_ifs
  · exact ⟨_, _, rfl⟩
  · exact ⟨_, _, rfl⟩

theorem fragment_same (s : StaticMpeg4VideoEs) (n : ℕ) :
    (s.fragment n).2.front = s.front ∧ SameTimes s (s.fragment n).2 ∧
      (s.fragment n).1.mtime = s.timestamp ∧
      (s.fragment n).2.vopCodingType = s.vopCodingType := by
  unfold StaticMpeg4VideoEs.fragment
  dsimp only
  split_ifs
  · exact ⟨rfl, ⟨rfl, rfl, rfl⟩, rfl, rfl⟩
  · exact ⟨rfl, ⟨rfl, rfl, rfl⟩, rfl, rfl⟩

/-- A fragment: the reader has a state. -/
theorem fragment_sends {t : StaticMpeg4VideoEs} (hready : me.Ready)
    (hfrag : me.start.fragmented = true) (h : me.start.fragment me.numBytes = (p, t)) :
    Sends me p { me with stat := some t } := by
  obtain ⟨r₁, r₂, hstart⟩ := start_stat me
  obtain ⟨s, hstat⟩ : ∃ s, me.stat = some s := by
    cases hstat : me.stat with
    | none =>
      rw [hstart, hstat] at hfrag
      cases hfrag
    | some s => exact ⟨s, rfl⟩
  rw [hstat] at hstart
  have hsound := hready.2 s hstat
  have hcounts : me.start.Counts := by
    rw [hstart]
    exact hsound.counts
  obtain ⟨hbytes, hsize, hfull, hleft⟩ := fragment_eq (n := me.numBytes) hfrag hcounts
  obtain ⟨hfront, hsame, hmtime, htype⟩ := fragment_same me.start me.numBytes
  rw [h] at hbytes hsize hfull hleft hfront hsame hmtime htype
  dsimp only at hbytes hsize hfull hleft hfront hsame hmtime htype
  have htimes : Times s t := by
    refine ⟨fun _ last hlast => ⟨last, ?_, le_rfl⟩, ?_⟩
    · rw [hsame.lastNonB, hstart]
      exact hlast
    · rw [htype, hsame.timestamp, hsame.lastNonB, hstart]
      exact hsound.current
  refine ⟨?_, hsize, hfull, ⟨rfl, rfl⟩, t, rfl, ⟨hleft, htimes.current⟩, ?_, ?_⟩
  · rw [Mpeg4Media.unsent, Mpeg4Media.unsent, hstat]
    dsimp only
    rw [← List.append_assoc, hbytes, hfront, hstart]
    rfl
  · exact hmtime.trans hsame.timestamp.symm
  · rw [hstat]
    exact htimes

/-- Nothing is left of the last packet: the bytes to send are the code that was kept and the file. -/
theorem whole_unsent (hwhole : ¬ me.start.fragmented = true) :
    me.unsent = me.start.front ++ me.file := by
  obtain ⟨r₁, r₂, hstart⟩ := start_stat me
  rw [Mpeg4Media.unsent, Mpeg4Media.file, hstart]
  cases hstat : me.stat with
  | none => rfl
  | some s =>
    rw [hstart, hstat] at hwhole
    have hleft : s.left = [] := if_neg hwhole
    dsimp only
    rw [if_neg (Option.some_ne_none s), hleft]
    rfl

theorem read_sends (hready : me.Ready) (h : read_MPEG4ES_video me call = some (.ok (p, me'))) :
    Sends me p me' := by
  unfold read_MPEG4ES_video at h
  split_ifs at h with hopen hfrag
  · cases h
  · obtain ⟨⟨q, t⟩, hr⟩ : ∃ r, me.start.fragment me.numBytes = r := ⟨_, rfl⟩
    rw [hr] at h
    cases h
    exact fragment_sends hready hfrag hr
  · obtain ⟨r₁, r₂, hstart⟩ := start_stat me
    have hlast : (me.stat.getD {}).lastNonBTimestamp = me.start.lastNonBTimestamp := by
      rw [hstart]
    exact collect_sends hready.1 (whole_unsent hfrag) hlast h

theorem read_ends (me : Mpeg4Media) (call : Call) : ∃ r, read_MPEG4ES_video me call = some r := by
  unfold read_MPEG4ES_video
  split_ifs
  · exact ⟨_, rfl⟩
  · exact ⟨_, rfl⟩
  · have hfuel : (Copy.mk me.start.front me.file).rest.length < me.file.length + 1 :=
      Nat.lt_succ_self _
    obtain ⟨r, hr⟩ := @headers_end call.mem me.start _ _ hfuel
    rw [Mpeg4Media.collect, hr]
    exact ⟨_, rfl⟩

end Calls

/-! ### Runs -/

/-- A packet with the state that the reader is left in. -/
abbrev Trace := List (Mpeg4Packet × StaticMpeg4VideoEs)

/-- Calls one after the other, as long as each returns a packet: a call that fails ends the run. -/
def sendStep (x : Mpeg4Media × Trace) (call : Call) : Option (Mpeg4Media × Trace) :=
  match read_MPEG4ES_video x.1 call with
  | some (.ok (p, me)) => some (me, x.2 ++ [(p, me.stat.getD {})])
  | _ => none

/-- The times of the packets of planes that are no B-frames. -/
def Trace.nonB (sent : Trace) : List Double :=
  (sent.filter fun x => x.2.vopCodingType ≠ 2).map fun x => x.1.mtime

theorem Trace.nonB_snoc (sent : Trace) (e : Mpeg4Packet × StaticMpeg4VideoEs) :
    Trace.nonB (sent ++ [e]) =
      Trace.nonB sent ++ if e.2.vopCodingType ≠ 2 then [e.1.mtime] else [] := by
  rw [Trace.nonB, Trace.nonB, List.filter_append, List.map_append]
  congr 1
  by_cases htype : e.2.vopCodingType = 2 <;> simp [htype]

/-- No plane was read with the resolution 0. -/
def Trace.Scaled (sent : Trace) : Prop :=
  ∀ e ∈ sent, e.2.ref2.vopTimeIncrementResolution ≠ 0

/-- What holds between the calls on a stored stream. -/
structure Flows (me : Mpeg4Media) (x : Mpeg4Media × Trace) : Prop where
  ready : x.1.Ready
  bytes : (x.2.flatMap fun e => e.1.data) ++ x.1.unsent = [0, 0, 1, 0] ++ me.bytes
  size : x.1.numBytes = me.numBytes
  packets : ∀ e ∈ x.2, e.1.data.length ≤ me.numBytes ∧
    (e.1.marker = false → e.1.data.length = me.numBytes)
  times : Trace.Scaled x.2 → (Trace.nonB x.2).Pairwise Double.leq ∧
    ∃ last, (x.1.stat.getD {}).lastNonBTimestamp = some last ∧
      ∀ t ∈ Trace.nonB x.2, t.leq (some last)

theorem Flows.step {me : Mpeg4Media} {x y : Mpeg4Media × Trace} {call : Call} (h : Flows me x)
    (hstep : sendStep x call = some y) : Flows me y := by
  unfold sendStep at hstep
  split at hstep
  · rename_i p me' hread
    cases hstep
    obtain ⟨hbytes, hsize, hfull, ⟨hsame, hlive⟩, s', hstat, hsound, hmtime, htimes⟩ :=
      read_sends h.ready hread
    have hget : me'.stat.getD {} = s' := by
      rw [hstat]
      rfl
    have hnonB := Trace.nonB_snoc x.2 (p, me'.stat.getD {})
    rw [hget] at hnonB
    refine ⟨⟨hlive.trans h.ready.1, ?_⟩, ?_, hsame.trans h.size, ?_, ?_⟩
    · intro s hs
      rw [hstat] at hs
      cases hs
      exact hsound
    · rw [List.flatMap_append, List.flatMap_singleton, List.append_assoc, hbytes]
      exact h.bytes
    · intro e he
      rcases List.mem_append.mp he with he | he
      · exact h.packets e he
      · cases List.mem_singleton.mp he
        exact ⟨h.size ▸ hsize, fun hm => h.size ▸ hfull hm⟩
    · intro hscaled
      dsimp only at hscaled ⊢
      rw [hget] at hscaled ⊢
      have hscale : s'.ref2.vopTimeIncrementResolution ≠ 0 :=
        hscaled (p, s') (List.mem_append_right _ (List.mem_singleton_self _))
      obtain ⟨hpairs, last, hlast, hall⟩ :=
        h.times fun e he => hscaled e (List.mem_append_left _ he)
      obtain ⟨next, hnext, hle⟩ := htimes.grows hscale last hlast
      -- the times so far are not behind the new one
      have hbefore : ∀ t ∈ Trace.nonB x.2, Double.leq t (some next) := by
        intro t ht
        obtain ⟨a, b, ha, hb, hab⟩ := hall t ht
        cases hb
        exact ⟨a, next, ha, rfl, hab.trans hle⟩
      rw [hnonB]
      refine ⟨?_, next, hnext, ?_⟩
      · split_ifs with htype
        · refine List.pairwise_append.mpr ⟨hpairs, List.pairwise_singleton _ _, ?_⟩
          intro a ha b hb
          cases List.mem_singleton.mp hb
          rw [hmtime, htimes.current htype, hnext]
          exact hbefore a ha
        · rw [List.append_nil]
          exact hpairs
      · intro t ht
        rcases List.mem_append.mp ht with ht | ht
        · exact hbefore t ht
        · split_ifs at ht with htype
          · cases List.mem_singleton.mp ht
            rw [hmtime, htimes.current htype, hnext]
            exact ⟨next, next, rfl, rfl, le_rfl⟩
          · cases ht
  · cases hstep

theorem run_flows {me me' : Mpeg4Media} {sent : Trace} {calls : List Call} (hnew : me.stat = none)
    (hlive : me.live = false) (hrun : exec sendStep (me, []) calls = some (me', sent)) :
    Flows me (me', sent) := by
  refine exec_invariant (fun _ _ _ => Flows.step) hrun ⟨⟨hlive, ?_⟩, ?_, rfl, ?_, fun _ => ⟨.nil, 0, ?_, ?_⟩⟩
  · intro s hs
    rw [hnew] at hs
    cases hs
  · rw [Mpeg4Media.unsent, hnew]
    rfl
  · intro e he
    cases he
  · rw [hnew]
    rfl
  · intro t ht
    cases ht

/-- The packets of a stored stream are, one behind the other, a start code that is not in the
file and then the file: what is not sent yet follows. None is longer than `num_bytes`, and those
without the marker are as long. -/
theorem es_conserved {me me' : Mpeg4Media} {sent : Trace} {calls : List Call}
    (hnew : me.stat = none) (hlive : me.live = false)
    (hrun : exec sendStep (me, []) calls = some (me', sent)) :
    (sent.flatMap fun e => e.1.data) ++ me'.unsent = [0, 0, 1, 0] ++ me.bytes ∧
      ∀ e ∈ sent, e.1.data.length ≤ me.numBytes ∧
        (e.1.marker = false → e.1.data.length = me.numBytes) :=
  ⟨(run_flows hnew hlive hrun).bytes, (run_flows hnew hlive hrun).packets⟩

/-- A layer with 25 increments a second and two planes; the second ends the sequence. -/
def planes : Mpeg4Media where
  bytes := [0, 0, 1, 0x20, 0x00, 0x04, 0x40, 0x06, 0x60, 0, 0, 1, 0xb6, 0x10, 0x7f,
    0, 0, 1, 0xb6, 0x50, 0x80, 0, 0, 1, 0xb1]
  rest := []
  frameRate := 25
  pktLen := 40

/-- Two calls on `planes`. -/
def twoCalls : List Call := [⟨3, fun _ => 0, 0⟩, ⟨3, fun _ => 0, 0⟩]

theorem es_conserved_planes : ∃ me' sent, exec sendStep (planes, []) twoCalls = some (me', sent) ∧
    (sent.map fun e => e.1.data.length) = [19, 10] ∧
      (sent.flatMap fun e => e.1.data) ++ me'.unsent = [0, 0, 1, 0] ++ planes.bytes := by
  have hrun : (exec sendStep (planes, []) twoCalls).map
      (fun x => x.2.map fun e => e.1.data.length) = some [19, 10] := by
    decide +kernel
  obtain ⟨x, hx, hlen⟩ := Option.map_eq_some_iff.mp hrun
  exact ⟨x.1, x.2, hx, hlen, (es_conserved rfl rfl hx).1⟩

/-- Whatever else the fields of the stream say, the times of planes that are no B-frames do not go
back if no plane is read with the resolution 0. -/
theorem es_times {me me' : Mpeg4Media} {sent : Trace} {calls : List Call}
    (hnew : me.stat = none) (hlive : me.live = false)
    (hrun : exec sendStep (me, []) calls = some (me', sent)) (hscaled : Trace.Scaled sent) :
    (Trace.nonB sent).Pairwise Double.leq :=
  ((run_flows hnew hlive hrun).times hscaled).1

theorem es_times_planes : ∃ me' sent, exec sendStep (planes, []) twoCalls = some (me', sent) ∧
    Trace.nonB sent = [some 0, some 40] ∧ (Trace.nonB sent).Pairwise Double.leq := by
  have hrun : (exec sendStep (planes, []) twoCalls).map (fun x =>
      (Trace.nonB x.2, x.2.map fun e => e.2.ref2.vopTimeIncrementResolution)) =
      some ([some 0, some 40], [25, 25]) := by
    decide +kernel
  obtain ⟨x, hx, hends⟩ := Option.map_eq_some_iff.mp hrun
  obtain ⟨htimes, hresolutions⟩ := Prod.mk.inj hends
  have hscaled : Trace.Scaled x.2 := by
    intro e he
    have hmem := List.mem_map_of_mem (f := fun e => e.2.ref2.vopTimeIncrementResolution) he
    rw [hresolutions] at hmem
    simp only [List.mem_cons, List.not_mem_nil, or_false, or_self] at hmem
    rw [hmem]
    decide
  exact ⟨x.1, x.2, hx, htimes, es_times rfl rfl hx hscaled⟩

end Fenice.Mediainfo.Mpeg4
