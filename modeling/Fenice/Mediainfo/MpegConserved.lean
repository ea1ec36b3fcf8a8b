import Fenice.Mediainfo.MpegPictures

/-!
# The bytes of an MPEG video stream (read_MPEG_video.c)

What the packets of a run carry behind their headers, and when it is the file without its last
sequence end code.
-/

namespace Fenice.Mediainfo.Mpeg
open Fenice.Run

/-- An MPEG-1 or MPEG-2 video stream that ends with a sequence end code, as far as the readers
depend on it: it begins with a sequence header that is not the end of the sequence, no start code
stands in a header, and in MPEG-2 an extension of at least five bytes follows a picture header. -/
structure Elementary (bytes : List UInt8) : Prop where
  begins : ∃ i k code, FirstCode bytes 0 i 0xb3 ∧
    FirstCode bytes (i + 4 + fixedLength 0xb3 (bytes.drop (i + 4))) k code ∧ code ≠ 0xb7
  ends : CodeAt bytes (bytes.length - 4) 0xb7
  headers : ∀ i code, CodeAt bytes i code → code = 0xb3 ∨ code = 0xb8 ∨ code = 0x00 →
    NoMark bytes (i + 1) (i + 4 + fixedLength code (bytes.drop (i + 4)))
  extensions : IsMpeg2 bytes → ∀ i k code, CodeAt bytes i 0x00 →
    FirstCode bytes (i + 4 + fixedLength 0x00 (bytes.drop (i + 4))) k code →
    code = 0xb5 ∧ NoMark bytes (k + 1) (k + 9)

/-- A slice begins behind `m` where a packet from `m` on still has room, and no sequence ends in
front of it. -/
def Room (bytes : List UInt8) (m numBytes : ℕ) : Prop :=
  ∃ k code, m ≤ k ∧ CodeAt bytes k code ∧ ¬ isHeader code ∧ k + 8 < m + numBytes ∧
    ∀ j, m < j → j < k → ¬ CodeAt bytes j 0xb7

/-- The file is not opened again or moved; behind a start code a packet is at the end, or has room
for a slice, or finds a start code in `buf_aux` where the call stores nothing; and a slice was not
cut off within the last start code. -/
structure Conserving (me : MpegMedia) (a : ReadCall) : Prop where
  seek : a.cs.seek = none
  opens : a.cs.mediaopen ≠ errEof
  room : (∀ s ∈ me.stat, s.fragmented = false) → me.sent + 4 = me.bytes.length ∨
    Room me.bytes me.sent me.numBytes ∨ a.cs.aux.isStart
  cut : ∀ s ∈ me.stat, s.fragmented = true → me.sent + 4 ≤ me.bytes.length

/-! ### From one start code to another -/

section Moves

variable {bytes : List UInt8} {i k n m : ℕ} {c c' c'' : Copy} {code : UInt8}

/-- Between two start codes there are user data and extensions only. -/
def Between (bytes : List UInt8) (i k : ℕ) : Prop :=
  ∀ j code, i < j → j < k → CodeAt bytes j code → code = 0xb5 ∨ code = 0xb2

/-- A reader has copied the file from the start code at `i` up to another one. -/
def Moves (bytes : List UInt8) (i : ℕ) (c c' : Copy) : Prop :=
  Copies c c' ∧ ∃ k, i < k ∧ StopsAt bytes k c' ∧ Between bytes i k

theorem Elementary.last (h : Elementary bytes) (hcode : CodeAt bytes i code) (hne : code ≠ 0xb7) :
    i < bytes.length - 4 := by
  have hlen := hcode.length
  have hneq : i ≠ bytes.length - 4 := by
    rintro rfl
    exact hne (Option.some.inj (hcode.code.symm.trans h.ends.code))
  omega

theorem Elementary.fixed (h : Elementary bytes) (hcode : CodeAt bytes i code) (hne : code ≠ 0xb7)
    (hno : NoMark bytes (i + 1) (i + 4 + n)) : i + 4 + n ≤ bytes.length - 4 := by
  have hlast := h.last hcode hne
  by_contra hlt
  exact hno _ hlast (by omega) h.ends.toMarkAt

theorem ahead_copies (hn : n ≤ c.rest.length) : Copies c (c.ahead n) :=
  (take_copies (if_pos hn)).1

theorem next_code_moves (h : Elementary bytes) (mem : Memory) (hc : c.rest = bytes.drop n)
    (hn : n ≤ bytes.length - 4) : Copies c (next_code mem c) ∧
      ∃ k, n ≤ k ∧ StopsAt bytes k (next_code mem c) ∧ NoMark bytes n k := by
  obtain ⟨c', hmark⟩ := mark_finds hc hn h.ends
  rw [(next_code_tracks mem).complete _ _ hmark]
  exact ⟨(mark_copies hmark).1, mark_at hc hmark⟩

theorem fixed_moves (h : Elementary bytes) (mem : Memory) (hcode : CodeAt bytes i code)
    (hne : code ≠ 0xb7) (hc : c.rest = bytes.drop (i + 4))
    (hno : NoMark bytes (i + 1) (i + 4 + n)) :
    Copies c (next_code mem (c.ahead n)) ∧ ∃ k, i + 4 + n ≤ k ∧
      StopsAt bytes k (next_code mem (c.ahead n)) ∧ NoMark bytes (i + 1) k := by
  have hle := h.fixed hcode hne hno
  have hlen : n ≤ c.rest.length := by
    rw [hc, List.length_drop]
    omega
  obtain ⟨hcopies, k, hk, hstop, hno'⟩ := next_code_moves h mem (ahead_rest hc n) hle
  refine ⟨(ahead_copies hlen).trans hcopies, k, hk, hstop, fun j hj hjk => ?_⟩
  rcases Nat.lt_or_ge j (i + 4 + n) with hlt | hge
  · exact hno j hj hlt
  · exact hno' j hge hjk

theorem Between.of_noMark (h : NoMark bytes (i + 1) k) : Between bytes i k :=
  fun j _ hj hjk hcode => absurd hcode.toMarkAt (h j hj hjk)

theorem Moves.trans (h : Moves bytes i c c') (hback : c'.back 1 = 0xb5 ∨ c'.back 1 = 0xb2)
    (h' : ∀ k, StopsAt bytes k c' → Moves bytes k c' c'') : Moves bytes i c c'' := by
  obtain ⟨hcopies, k, hk, hstop, hbetween⟩ := h
  obtain ⟨hcopies', k', hk', hstop', hbetween'⟩ := h' k hstop
  refine ⟨hcopies.trans hcopies', k', hk.trans hk', hstop', fun j code hj hjk hcode => ?_⟩
  rcases Nat.lt_trichotomy j k with hlt | rfl | hgt
  · exact hbetween j code hj hlt hcode
  · have heq := Option.some.inj (hcode.code.symm.trans hstop.code.code)
    rw [heq]
    exact hback
  · exact hbetween' j code hgt hjk hcode

theorem mark_moves (h : Elementary bytes) (mem : Memory) (hstop : StopsAt bytes k c)
    (hback : c.back 1 = 0xb5 ∨ c.back 1 = 0xb2) : Moves bytes k c (next_code mem c) := by
  have hne : c.back 1 ≠ 0xb7 := by
    rcases hback with hb | hb <;> rw [hb] <;> decide
  have hne' : c.back 1 ≠ 0 := by
    rcases hback with hb | hb <;> rw [hb] <;> decide
  have hno : NoMark bytes (k + 1) (k + 4 + 0) := by
    intro j hj hjk hmark
    have := hstop.code.apart hne' hmark hj
    omega
  obtain ⟨hcopies, k', hk', hstop', hno'⟩ := fixed_moves h mem hstop.code hne hstop.rest hno
  rw [ahead_zero] at hcopies hstop'
  exact ⟨hcopies, k', by omega, hstop', .of_noMark hno'⟩

theorem skip_moves (h : Elementary bytes) (mem : Memory) (hm : Moves bytes i c c')
    (hcode : code = 0xb5 ∨ code = 0xb2) :
    Moves bytes i c (if c'.back 1 = code then next_code mem c' else c') := by
  split_ifs with hback
  · have hback' : c'.back 1 = 0xb5 ∨ c'.back 1 = 0xb2 := by
      rw [hback]
      exact hcode
    exact hm.trans hback' fun k hstop => mark_moves h mem hstop hback'
  · exact hm

theorem end_of_head_moves (h : Elementary bytes) (mem : Memory) (std : Standard)
    (hcode : CodeAt bytes i code) (hne : code ≠ 0xb7) (hc : c.rest = bytes.drop (i + 4))
    (hno : NoMark bytes (i + 1) (i + 4 + n)) :
    Moves bytes i c (end_of_head mem std (c.ahead n)) := by
  obtain ⟨hcopies, k, hk, hstop, hno'⟩ := fixed_moves h mem hcode hne hc hno
  have hnext : Moves bytes i c (next_code mem (c.ahead n)) :=
    ⟨hcopies, k, by omega, hstop, .of_noMark hno'⟩
  by_cases hstd : std = .mpeg1
  · rw [end_of_head, if_pos hstd]
    exact skip_moves h mem (skip_moves h mem hnext (.inl rfl)) (.inr rfl)
  · rw [end_of_head, if_neg hstd]
    exact hnext

theorem seq_head_moves (h : Elementary bytes) (mem : Memory) (std : Standard)
    (hcode : CodeAt bytes i 0xb3) (hc : c.rest = bytes.drop (i + 4)) :
    Moves bytes i c (read_seq_head mem std c).1 := by
  have hno := h.headers i _ hcode (.inl rfl)
  have hle := h.fixed hcode (by decide) hno
  have hlen : fixedLength 0xb3 c.rest ≤ c.rest.length := by
    rw [hc, List.length_drop]
    omega
  rw [read_seq_head, seq_fixed mem hlen, hc]
  exact end_of_head_moves h mem std hcode (by decide) hc hno

theorem gop_head_moves (h : Elementary bytes) (mem : Memory) (std : Standard)
    (hcode : CodeAt bytes i 0xb8) (hc : c.rest = bytes.drop (i + 4)) :
    Moves bytes i c (read_gop_head mem std c).1 := by
  have hno := h.headers i _ hcode (.inr (.inl rfl))
  have hle := h.fixed hcode (by decide) hno
  have hfour : fixedLength 0xb8 (bytes.drop (i + 4)) = 4 := rfl
  rw [hfour] at hno hle
  have hlen : 4 ≤ c.rest.length := by
    rw [hc, List.length_drop]
    omega
  rw [read_gop_head, read_ahead mem hlen]
  exact end_of_head_moves h mem std hcode (by decide) hc hno

theorem picture_head_moves (h : Elementary bytes) (mem : Memory) (std : Standard)
    (v : VideoSpecHead1) (hcode : CodeAt bytes i 0x00) (hc : c.rest = bytes.drop (i + 4)) :
    Moves bytes i c (read_picture_head mem std v c).1 := by
  have hno := h.headers i _ hcode (.inr (.inr rfl))
  have hle := h.fixed hcode (by decide) hno
  have hlen : fixedLength 0x00 c.rest ≤ c.rest.length := by
    rw [hc, List.length_drop]
    omega
  rw [(read_picture_head_coded mem std v hlen).1, hc]
  exact end_of_head_moves h mem std hcode (by decide) hc hno

/-- In MPEG-2 a picture header ends at its extension, which is read to its end. -/
theorem coding_ext_moves (h : Elementary bytes) (mem : Memory) (v : VideoSpecHead1)
    (hmpeg2 : IsMpeg2 bytes) (hcode : CodeAt bytes i 0x00) (hc : c.rest = bytes.drop (i + 4)) :
    Moves bytes i c (read_picture_coding_ext mem (read_picture_head mem .mpeg2 v c).1) := by
  have hno := h.headers i _ hcode (.inr (.inr rfl))
  have hle := h.fixed hcode (by decide) hno
  have hlen : fixedLength 0x00 c.rest ≤ c.rest.length := by
    rw [hc, List.length_drop]
    omega
  have hhead : (read_picture_head mem .mpeg2 v c).1 =
      next_code mem (c.ahead (fixedLength 0x00 c.rest)) := (read_picture_head_coded mem _ v hlen).1
  rw [← hc] at hno
  obtain ⟨hcopies, k, hk, hstop, hno'⟩ := fixed_moves h mem hcode (by decide) hc hno
  rw [← hhead] at hcopies hstop
  generalize (read_picture_head mem .mpeg2 v c).1 = d at hcopies hstop ⊢
  have hfirst : FirstCode bytes (i + 4 + fixedLength 0x00 (bytes.drop (i + 4))) k (d.back 1) := by
    rw [← hc]
    exact ⟨hk, hstop.code, fun j hj hjk => hno' j (by omega) hjk⟩
  obtain ⟨hext, hfive⟩ := h.extensions hmpeg2 i k _ hcode hfirst
  have hm : Moves bytes i c d := ⟨hcopies, k, by omega, hstop, .of_noMark hno'⟩
  refine hm.trans (.inl hext) fun k' hstop' => ?_
  obtain rfl : k' = k := by
    have hrest := congrArg List.length (hstop'.rest.symm.trans hstop.rest)
    have hlen' := hstop'.code.length
    have hlen := hstop.code.length
    simp only [List.length_drop] at hrest
    omega
  have hne : d.back 1 ≠ 0xb7 := by
    rw [hext]
    decide
  have hle' := h.fixed (n := 5) hstop'.code hne hfive
  have hfit : 5 ≤ d.rest.length := by
    rw [hstop'.rest, List.length_drop]
    omega
  have hthree : d.read mem 3 = d.ahead 3 := read_ahead mem (by omega)
  rw [read_picture_coding_ext, hthree, read_behind mem (by omega), read_behind mem hfit]
  obtain ⟨hcopies', k'', hk'', hstop'', hno''⟩ :=
    fixed_moves (n := 5) h mem hstop'.code hne hstop'.rest hfive
  exact ⟨hcopies', k'', by omega, hstop'', .of_noMark hno''⟩

end Moves

/-! ### The headers of a packet -/

/-- The call has copied the file from `m` on and come to the start code at `k`. -/
structure Carries (bytes : List UInt8) (m k : ℕ) (w : Work) : Prop where
  rest : w.copy.rest = bytes.drop (k + 4)
  code : CodeAt bytes k w.code
  copied : w.copy.buf.drop 4 ++ w.copy.rest = bytes.drop m
  size : 8 ≤ w.size
  std : w.stat.std = .mpeg2 → IsMpeg2 bytes
  probed : w.stat.std ≠ .toProbe
  uncut : w.stat.fragmented = false

/-- From `m` up to `k` there are codes of headers only. -/
def Headers (bytes : List UInt8) (m k : ℕ) : Prop :=
  ∀ j code, m ≤ j → j < k → CodeAt bytes j code → isHeader code

section Call

variable {bytes : List UInt8} {i k m : ℕ} {c : Copy} {w w' : Work} {mem : Memory} {numBytes : ℕ}

theorem Copies.copied {c c' : Copy} {l : List UInt8} (h : Copies c c') (hfour : 4 ≤ c.buf.length)
    (hl : c.buf.drop 4 ++ c.rest = l) : c'.buf.drop 4 ++ c'.rest = l := by
  have hgrows := h.grows
  have hdrop := congrArg (List.drop 4) h.bytes
  rw [List.drop_append_of_le_length (by omega), List.drop_append_of_le_length hfour] at hdrop
  exact hdrop.trans hl

/-- The packet has as many bytes as the file between `m` and the end of the start code. -/
theorem Carries.place (h : Carries bytes m k w) : w.size + m = k + 8 := by
  have hlen := congrArg List.length h.copied
  have hcode := h.code.length
  have hsize := h.size
  have hw : w.size = w.copy.buf.length := rfl
  rw [h.rest] at hlen
  simp only [List.length_append, List.length_drop] at hlen
  omega

theorem Between.headers (h : Between bytes i k) (hcode : CodeAt bytes i w.code)
    (hhead : isHeader w.code) (hm : Headers bytes m i) : Headers bytes m k := by
  intro j code hj hjk hat
  rcases Nat.lt_trichotomy j i with hlt | rfl | hgt
  · exact hm j code hj hlt hat
  · have heq := Option.some.inj (hat.code.symm.trans hcode.code)
    rw [heq]
    exact hhead
  · rcases h j code hgt hjk hat with rfl | rfl <;> decide

theorem Carries.goes (h : Carries bytes m i w) (hm : Moves bytes i w.copy w'.copy)
    (hcode : w'.code = w'.copy.back 1) (hstd : w'.stat.std = w.stat.std)
    (hcut : w'.stat.fragmented = w.stat.fragmented) :
    ∃ k, i < k ∧ Carries bytes m k w' ∧ Between bytes i k := by
  obtain ⟨hcopies, k, hk, hstop, hbetween⟩ := hm
  have hsize := h.size
  refine ⟨k, hk, ?_, hbetween⟩
  exact {
    rest := hstop.rest
    code := hcode ▸ hstop.code
    copied := hcopies.copied (le_trans (by decide) hsize) h.copied
    size := hsize.trans hcopies.grows
    std := by rw [hstd]; exact h.std
    probed := by rw [hstd]; exact h.probed
    uncut := hcut.trans h.uncut }

variable (hs : Elementary bytes)
include hs

/-- The next start code behind one that is not the last, nor that of a picture. -/
theorem Carries.nextCode (h : Carries bytes m i w) (hne : w.code ≠ 0) (hlast : i + 4 < bytes.length) :
    ∃ w' k, w.nextCode = .goes w' ∧ i < k ∧ Carries bytes m k w' ∧ NoMark bytes (i + 1) k ∧
      w'.recallme = w.recallme := by
  have hle : i + 4 ≤ bytes.length - 4 := h.code.apart hne hs.ends.toMarkAt (by omega)
  obtain ⟨c, hmark⟩ := mark_finds h.rest hle hs.ends
  obtain ⟨k, hk, hstop, hno⟩ := mark_at h.rest hmark
  have hno' : NoMark bytes (i + 1) k := by
    intro j hj hjk hmark
    exact hno j (h.code.apart hne hmark hj) hjk hmark
  obtain ⟨k', hk', hcarries, hbetween⟩ := @Carries.goes bytes i m w
    { w with copy := c, stat := { w.stat with finalByte := c.back 1 } } h
    ⟨(mark_copies hmark).1, k, by omega, hstop, .of_noMark hno'⟩ rfl rfl rfl
  have hkk : k' = k := by
    have hrest := congrArg List.length (hcarries.rest.symm.trans hstop.rest)
    have := hcarries.code.length
    have := hstop.code.length
    simp only [List.length_drop] at hrest
    omega
  rw [hkk] at hcarries
  exact ⟨_, k, nextCode_mark hmark, by omega, hcarries, hno', rfl⟩

theorem pictureHead_carries (h : Carries bytes m i w) (hcode : w.code = 0x00) :
    ∃ k, i < k ∧ Carries bytes m k (w.pictureHead mem numBytes) ∧ Between bytes i k := by
  have hat : CodeAt bytes i 0x00 := by
    have := h.code
    rwa [hcode] at this
  have hpicture := picture_head_moves hs mem w.stat.std w.stat.vsh1 hat h.rest
  rw [pictureHead_eq hcode]
  split_ifs with hext
  · have hstd : w.stat.std = .mpeg2 := hext.1
    refine h.goes ?_ rfl rfl rfl
    have hmoves := coding_ext_moves hs mem w.stat.vsh1 (h.std hstd) hat h.rest
    rw [← hstd] at hmoves
    exact hmoves
  · exact h.goes hpicture rfl rfl rfl

/-- Every branch of the loop over the headers goes on to another start code, or stops at the end
of the sequence, or stands still. -/
theorem turn_carries (h : Carries bytes m i w) (hhead : isHeader w.code) (hrec : w.recallme = true) :
    ∃ w' k, w.turn mem numBytes = .goes w' ∧ Carries bytes m k w' ∧ i ≤ k ∧
      (Headers bytes m i → Headers bytes m k) ∧ (w'.recallme = false → w'.code = 0xb7 ∧ k = i) := by
  have hgoes : ∀ w', (∃ k, i < k ∧ Carries bytes m k w' ∧ Between bytes i k) →
      w'.recallme = true → ∃ w'' k, Part.goes w' = .goes w'' ∧ Carries bytes m k w'' ∧ i ≤ k ∧
        (Headers bytes m i → Headers bytes m k) ∧ (w''.recallme = false → w''.code = 0xb7 ∧ k = i) := by
    intro w' hw hrec'
    obtain ⟨k, hk, hcarries, hbetween⟩ := hw
    refine ⟨w', k, rfl, hcarries, hk.le, hbetween.headers h.code hhead, fun hfalse => ?_⟩
    rw [hrec'] at hfalse
    cases hfalse
  rcases code_cases w.code with hcode | hcode | hcode | hcode
  · exact absurd hhead hcode
  · rw [turn_idle hcode]
    obtain ⟨hcopy, hc, hstd, -⟩ := seqEnd_keeps w
    refine ⟨w.seqEnd, i, rfl, ?_, le_rfl, id, fun hfalse => ?_⟩
    · exact {
        rest := by rw [hcopy]; exact h.rest
        code := by rw [hc]; exact h.code
        copied := by rw [hcopy]; exact h.copied
        size := by rw [Work.size, hcopy]; exact h.size
        std := by rw [hstd]; exact h.std
        probed := by rw [hstd]; exact h.probed
        uncut := by
          rw [Work.seqEnd]
          split_ifs
          · rfl
          · exact h.uncut }
    · rw [Work.seqEnd] at hfalse ⊢
      split_ifs at hfalse ⊢ with hend
      · exact ⟨hend, rfl⟩
      · rw [hrec] at hfalse
        cases hfalse
  · have hne : w.code ≠ 0xb7 := by
      rcases hcode with hc | hc <;> rw [hc] <;> decide
    have hne' : w.code ≠ 0 := by
      rcases hcode with hc | hc <;> rw [hc] <;> decide
    have hlast := hs.last h.code hne
    obtain ⟨w', k, hnext, hk, hcarries, hno, hrec'⟩ := h.nextCode hs hne' (by omega)
    rw [turn_userData hcode, hnext]
    exact hgoes w' ⟨k, hk, hcarries, .of_noMark hno⟩ (hrec'.trans hrec)
  · have hat := h.code
    rcases hcode with hc | hc | hc
    · rw [hc] at hat
      rw [Work.turn, if_pos hc, Work.seqHead, if_pos hc]
      exact hgoes _ (h.goes (seq_head_moves hs mem w.stat.std hat h.rest) rfl rfl rfl) hrec
    · rw [hc] at hat
      rw [Work.turn, if_neg (by rw [hc]; decide), if_pos hc, Work.gopHead, if_pos hc]
      exact hgoes _ (h.goes (gop_head_moves hs mem w.stat.std hat h.rest) rfl rfl rfl) hrec
    · rw [Work.turn, if_neg (by rw [hc]; decide), if_neg (by rw [hc]; decide), if_pos hc]
      refine hgoes _ (pictureHead_carries hs h hc) ?_
      rw [pictureHead_eq hc]
      split_ifs <;> exact hrec

/-- The loop over the headers passes headers only, and stops at a slice or at the end of a
sequence. -/
theorem inHeaders_carries {w₀ : Work} {p : Part Work} (h₀ : Carries bytes m i w₀)
    (hm : Headers bytes m i) (hrec : w₀.recallme = true) (h : InHeaders mem numBytes w₀ p) :
    ∃ w k, p = .goes w ∧ Carries bytes m k w ∧ i ≤ k ∧ Headers bytes m k ∧
      (w.recallme = false → w.code = 0xb7) := by
  induction h with
  | start =>
    refine ⟨w₀, i, rfl, h₀, le_rfl, hm, fun hfalse => ?_⟩
    rw [hrec] at hfalse
    cases hfalse
  | turn h hloop ih =>
    obtain ⟨w, k, he, hcarries, hk, hheaders, -⟩ := ih
    cases he
    obtain ⟨w', k', he', hcarries', hk', hheaders', hend⟩ := turn_carries hs hcarries hloop.1 hloop.2
    exact ⟨w', k', he', hcarries', hk.trans hk', hheaders' hheaders, fun hfalse => (hend hfalse).1⟩

end Call

/-! ### Slices -/

section Slices

variable {bytes : List UInt8} {i m n : ℕ} {c c' : Copy} {w w' : Work} {x x' : Aux} {numBytes : ℕ}

theorem scanSlice_copies {size : ℕ} {rest copied left : List UInt8}
    (h : scanSlice numBytes size x rest = (copied, some (x', left))) :
    copied ++ x'.bytes ++ left = x.bytes ++ rest := by
  induction rest generalizing size x copied with
  | nil =>
    rw [scanSlice] at h
    split_ifs at h
    · cases h
    · cases h
      rfl
  | cons d rest ih =>
    rw [scanSlice] at h
    split_ifs at h
    · dsimp only at h
      rcases hs : scanSlice numBytes (size + 1) ⟨x.b, x.c, d⟩ rest with ⟨copied', r⟩
      rw [hs] at h
      cases h
      exact congrArg (List.cons x.a) (ih hs)
    · cases h
      rfl

theorem slice_copies {code : UInt8} (h : c.slice numBytes = (c', some (x, code))) :
    Copies c c' := by
  obtain ⟨buf, rest⟩ := c
  match rest, h with
  | y :: z :: u :: rest, h =>
    rw [Copy.slice] at h
    dsimp only at h
    rcases hs : scanSlice numBytes buf.length ⟨y, z, u⟩ rest with ⟨copied, _ | ⟨aux, _ | ⟨d, left⟩⟩⟩
    · rw [hs] at h
      cases h
    · rw [hs] at h
      cases h
    · rw [hs] at h
      cases h
      have hcopies := scanSlice_copies hs
      refine ⟨?_, ?_⟩
      · simp only [List.append_assoc] at hcopies ⊢
        exact congrArg (buf ++ ·) hcopies
      · simp only [List.length_append]
        omega
  | [], h | [_], h | [_, _], h => cases h

theorem scanSlice_finds {size k : ℕ} {rest : List UInt8}
    (hn : bytes.drop n = x.a :: x.b :: x.c :: rest) (hk : n ≤ k) (hmark : MarkAt bytes k) :
    ∃ copied x' left, scanSlice numBytes size x rest = (copied, some (x', left)) := by
  induction rest generalizing n size x with
  | nil =>
    have hlen := congrArg List.length hn
    have hlt := (List.getElem?_eq_some_iff.mp hmark.one).1
    simp only [List.length_drop, List.length_cons, List.length_nil] at hlen
    obtain rfl : k = n := by omega
    have hstart : x.isStart := (markAt_iff hn).mp hmark
    rw [scanSlice, if_neg fun hgo => hgo.1 hstart]
    exact ⟨_, _, _, rfl⟩
  | cons d rest ih =>
    rw [scanSlice]
    split_ifs with hgo
    · have hne : n ≠ k := by
        rintro rfl
        exact hgo.1 ((markAt_iff hn).mp hmark)
      obtain ⟨copied, x', left, hs⟩ :=
        @ih (n + 1) ⟨x.b, x.c, d⟩ (size + 1) (drop_cons hn).2 (by omega)
      rw [hs]
      exact ⟨_, _, _, rfl⟩
    · exact ⟨_, _, _, rfl⟩

theorem slice_finds {k : ℕ} {code : UInt8} (hc : c.rest = bytes.drop n) (hk : n ≤ k)
    (hcode : CodeAt bytes k code) :
    ∃ c' x code', c.slice numBytes = (c', some (x, code')) := by
  obtain ⟨buf, rest⟩ := c
  have hlast := hcode.length
  have hlen := congrArg List.length hc
  match rest, hc, hlen with
  | y :: z :: u :: rest, hc, _ =>
    obtain ⟨copied, x', left, hs⟩ :=
      @scanSlice_finds bytes n ⟨y, z, u⟩ numBytes buf.length k rest hc.symm hk hcode.toMarkAt
    obtain ⟨k', hk', hleft, hno, -⟩ := @scanSlice_at bytes n numBytes buf.length ⟨y, z, u⟩ x' rest
      copied left hc.symm hs
    have hle : k' ≤ k := by
      by_contra hlt
      exact hno k hk (Nat.lt_of_not_le hlt) hcode.toMarkAt
    rw [Copy.slice]
    dsimp only
    rw [hs]
    cases left with
    | nil =>
      have := congrArg List.length hleft
      simp only [List.length_drop, List.length_cons, List.length_nil] at this
      omega
    | cons d left => exact ⟨_, _, _, rfl⟩
  | [], _, hlen | [_], _, hlen | [_, _], _, hlen =>
    simp only [List.length_drop, List.length_cons, List.length_nil] at hlen
    omega

/-- What a packet from `m` on is at its end: it has come to the start code at `k`, which `buf_aux`
holds, or is cut off. -/
inductive Ended (bytes : List UInt8) (m : ℕ) (w : Work) (x : Aux) : ℕ → Prop
  | code {k : ℕ} (h : Carries bytes m k w) (hx : x.isStart) : Ended bytes m w x k
  | cut {n : ℕ} (hf : w.stat.fragmented = true) (hx : ¬ x.isStart)
      (hrest : w.copy.rest = bytes.drop n) (hle : n ≤ bytes.length)
      (hcopied : w.copy.buf.drop 4 ++ w.copy.rest = bytes.drop m)
      (hstd : w.stat.std = .mpeg2 → IsMpeg2 bytes) (hprobed : w.stat.std ≠ .toProbe)
      (hsize : 8 ≤ w.size) : Ended bytes m w x n

variable (hs : Elementary bytes)
include hs

theorem slice_ended (hrest : w.copy.rest = bytes.drop n) (hn : n + 4 ≤ bytes.length)
    (hcopied : w.copy.buf.drop 4 ++ w.copy.rest = bytes.drop m) (hfour : 4 ≤ w.size)
    (hstd : w.stat.std = .mpeg2 → IsMpeg2 bytes) (hprobed : w.stat.std ≠ .toProbe) :
    ∃ w' x k, w.slice numBytes = .goes (w', x) ∧ Ended bytes m w' x k ∧
      (w'.stat.fragmented = true → numBytes ≤ w'.size) ∧
        (w'.stat.fragmented = false → w'.recallme = true → ¬ isHeader w'.code) := by
  obtain ⟨c, x, code, he⟩ := @slice_finds bytes n w.copy numBytes (bytes.length - 4) 0xb7 hrest
    (by omega) hs.ends
  obtain ⟨k, hk, hleft, hcode, hno, hmark, hstop, hgrows⟩ := slice_at hrest he
  have hcopied' := (slice_copies he).copied hfour hcopied
  have hle : k + 4 ≤ bytes.length := by
    have := (List.getElem?_eq_some_iff.mp hcode).1
    omega
  have hsize : 8 ≤ c.buf.length := (Nat.add_le_add_right hfour 4).trans hgrows
  rw [Work.slice, he]
  dsimp only
  by_cases hstart : x.isStart
  · refine ⟨_, x, k, rfl, .code ?_ hstart, fun hf => ?_, fun _ hrec hhead => ?_⟩
    · exact {
        rest := hleft
        code := ⟨hmark.mpr hstart, hcode⟩
        copied := hcopied'
        size := hsize
        std := hstd
        probed := hprobed
        uncut := by simp [hstart] }
    · simp [hstart] at hf
    · have hhead' : isHeader code := hhead
      simp [hstart, hhead'] at hrec
  · refine ⟨_, x, k + 4, rfl, .cut (by simp [hstart]) hstart hleft hle hcopied' hstd hprobed hsize,
      fun _ => hstop.resolve_left hstart, fun hf => ?_⟩
    simp [hstart] at hf

/-- The loop over the slices, if it is entered or `buf_aux` holds a start code as it is. -/
theorem slices_ended {fuel k : ℕ} {r : Part (Work × Aux)} (h : Carries bytes m k w)
    (hcode : w.recallme = true → ¬ isHeader w.code)
    (henter : x.isStart ∨ w.size < numBytes ∧ w.recallme = true)
    (hr : Work.slices numBytes fuel (w, x) = some r) :
    ∃ w' x' n, r = .goes (w', x') ∧ Ended bytes m w' x' n := by
  induction fuel generalizing w x k with
  | zero => cases hr
  | succ fuel ih =>
    rw [Work.slices] at hr
    split_ifs at hr with hloop
    · have hslice := hcode hloop.2
      have hne : w.code ≠ 0 := fun h0 => hslice (.inr h0)
      have hne' : w.code ≠ 0xb7 := fun h7 => hslice (.inl (by rw [h7]; decide))
      have hlast := hs.last h.code hne'
      have hbehind : k + 4 ≤ bytes.length - 4 := h.code.apart hne hs.ends.toMarkAt hlast
      obtain ⟨w₁, x₁, n, he, hended, hcut, hmore⟩ := @slice_ended bytes m (k + 4) w numBytes hs h.rest
        (by omega) h.copied (le_trans (by decide) h.size) h.std h.probed
      rw [he] at hr
      dsimp only at hr
      cases hended with
      | code h₁ hx => exact ih h₁ (hmore h₁.uncut) (.inl hx) hr
      | cut hf hx =>
        have hfull := hcut hf
        cases fuel with
        | zero => cases hr
        | succ fuel =>
          rw [Work.slices, if_neg (by omega)] at hr
          cases hr
          exact ⟨w₁, x₁, n, rfl, .cut hf hx ‹_› ‹_› ‹_› ‹_› ‹_› ‹_›⟩
    · cases hr
      exact ⟨w, x, k, rfl, .code h (henter.resolve_right hloop)⟩

end Slices

/-! ### Packets -/

/-- The media between two calls, with the file sent up to `m`. -/
inductive Stands (bytes : List UInt8) (me : MpegMedia) : ℕ → Prop
  | new (hstat : me.stat = none) : Stands bytes me 0
  | code {s : StaticMpegVideo} {k : ℕ} (hstat : me.stat = some s) (hrest : me.rest = bytes.drop (k + 4))
      (hcode : CodeAt bytes k s.finalByte) (huncut : s.fragmented = false)
      (hstd : s.std = .mpeg2 → IsMpeg2 bytes) (hprobed : s.std ≠ .toProbe) : Stands bytes me k
  | cut {s : StaticMpegVideo} {n : ℕ} (hstat : me.stat = some s) (hrest : me.rest = bytes.drop n)
      (hle : n ≤ bytes.length) (hf : s.fragmented = true)
      (hstd : s.std = .mpeg2 → IsMpeg2 bytes) (hprobed : s.std ≠ .toProbe) : Stands bytes me n

section Packets

variable {bytes : List UInt8} {k m : ℕ} {w : Work} {x : Aux} {me me' : MpegMedia} {p : MpegPacket}

theorem Stands.sent (h : Stands bytes me m) (hbytes : me.bytes = bytes) : me.sent = m := by
  cases h with
  | new hstat => rw [MpegMedia.sent, hstat]
  | code hstat hrest hcode huncut =>
    have := hcode.length
    simp only [MpegMedia.sent, hstat, hbytes, hrest, huncut, List.length_drop, Bool.false_eq_true,
      if_false]
    omega
  | cut hstat hrest hle hf =>
    simp only [MpegMedia.sent, hstat, hbytes, hrest, hf, List.length_drop, if_true]
    omega

/-- What a packet carries behind its header. -/
def MpegPacket.payload (p : MpegPacket) : List UInt8 := p.data.drop 4

theorem settled {r : MpegEnd} (h : settle w r = .packet p me') : r = .packet p me' := by
  rw [settle] at h
  split_ifs at h
  exact h

theorem finish_sends (h : Ended bytes m w x k) (he : finish me w x = .packet p me') :
    me'.bytes = me.bytes ∧ Stands bytes me' k ∧ bytes.drop m = p.payload ++ bytes.drop k := by
  rw [finish] at he
  dsimp only at he
  have hpacket := settled he
  clear he
  -- the four bytes of the header take the place of those that were left free
  have hpayload : ∀ (v : VideoSpecHead1) (l : List UInt8), 4 ≤ l.length →
      ((v.bytes ++ l.drop 4).take l.length).drop 4 = l.drop 4 := by
    intro v l hl
    have hfour : v.bytes.length = 4 := rfl
    rw [List.take_of_length_le (by simp [hfour]; omega), List.drop_append_of_le_length (by omega)]
    rfl
  cases h with
  | code h hx =>
    rw [if_pos hx] at hpacket
    cases hpacket
    have hplace := h.place
    have hsize := h.size
    have hw : w.size = w.copy.buf.length := rfl
    refine ⟨rfl, .code rfl h.rest h.code h.uncut h.std h.probed, ?_⟩
    rw [MpegPacket.payload, hpayload _ _ (by rw [List.length_take]; omega), List.drop_take, ← h.copied]
    have hbuf : (w.copy.buf.drop 4).take (w.copy.buf.length - 4 - 4) = (bytes.drop m).take (k - m) := by
      rw [← h.copied, List.take_append_of_le_length (by rw [List.length_drop]; omega)]
      congr 1
      omega
    rw [hbuf, h.copied, show k = m + (k - m) by omega, Nat.add_sub_cancel_left, ← List.drop_drop,
      List.take_append_drop]
  | cut hf hx hrest hle hcopied hstd hprobed hsize =>
    rw [if_neg hx] at hpacket
    cases hpacket
    refine ⟨rfl, .cut rfl hrest hle hf hstd hprobed, ?_⟩
    rw [MpegPacket.payload, hpayload _ _ (le_trans (by decide) hsize), ← hcopied, hrest]

end Packets

/-! ### The beginning of a packet -/

section Begins

variable {bytes : List UInt8} {i k k' n : ℕ} {code code' : UInt8} {me : MpegMedia} {c : Copy}

theorem FirstCode.unique (h : FirstCode bytes n k code) (h' : FirstCode bytes n k' code') :
    k = k' ∧ code = code' := by
  obtain ⟨hk, hcode, hno⟩ := h
  obtain ⟨hk', hcode', hno'⟩ := h'
  have heq : k = k' := by
    rcases Nat.lt_trichotomy k k' with hlt | heq | hgt
    · exact absurd hcode.toMarkAt (hno' k hk hlt)
    · exact heq
    · exact absurd hcode'.toMarkAt (hno k' hk' hgt)
  subst heq
  exact ⟨rfl, Option.some.inj (hcode.code.symm.trans hcode'.code)⟩

theorem CodeAt.drop (h : CodeAt bytes i code) :
    bytes.drop i = 0 :: 0 :: 1 :: code :: bytes.drop (i + 4) := by
  obtain ⟨l, hl⟩ := h.toMarkAt.drop
  have hbehind : bytes.drop (i + 3) = l :=
    (drop_cons (drop_cons (drop_cons hl).2).2).2
  have hlen := h.length
  rw [hl, ← hbehind, List.drop_eq_getElem_cons (by omega)]
  have hcode := h.code
  rw [List.getElem?_eq_getElem (by omega)] at hcode
  rw [Option.some.inj hcode]

variable (hs : Elementary bytes)
include hs

/-- The probe reads the sequence header, up to a start code that is not the last one. -/
theorem probe_carries (mem : Memory) (hc : c.rest = bytes) :
    ∃ k, Copies c (probe_standard mem .toProbe c).1 ∧
      c.buf.length + 4 ≤ (probe_standard mem .toProbe c).1.buf.length ∧
      StopsAt bytes k (probe_standard mem .toProbe c).1 ∧ 8 ≤ k ∧ Headers bytes 0 k ∧
      (probe_standard mem .toProbe c).1.back 1 ≠ 0xb7 ∧
      ((probe_standard mem .toProbe c).2.1 = .mpeg2 → IsMpeg2 bytes) ∧
      (probe_standard mem .toProbe c).2.1 ≠ .toProbe := by
  obtain ⟨i, k, code, hfirst, hsecond, hne⟩ := hs.begins
  have hdrop : c.rest = bytes.drop 0 := by rw [hc, List.drop_zero]
  obtain ⟨c₁, hmark⟩ := mark_finds hdrop (Nat.zero_le i) hfirst.2.1
  obtain ⟨i', -, hstop, hno⟩ := mark_at hdrop hmark
  obtain ⟨rfl, hseq⟩ := FirstCode.unique ⟨Nat.zero_le i', hstop.code, hno⟩ hfirst
  obtain ⟨hcopies, hsize⟩ := mark_copies hmark
  have hat : CodeAt bytes i' 0xb3 := hfirst.2.1
  have hquiet := hs.headers i' _ hat (.inl rfl)
  obtain ⟨hcopies', k', hk', hstop', hno'⟩ := fixed_moves hs mem hat (by decide) hstop.rest hquiet
  obtain ⟨rfl, hback⟩ :=
    FirstCode.unique ⟨hk', hstop'.code, fun j hj hjk => hno' j (by omega) hjk⟩ hsecond
  have hlen : fixedLength 0xb3 c₁.rest ≤ c₁.rest.length := by
    have hlast := hstop'.code.length
    rw [hstop.rest, List.length_drop]
    omega
  have hhead : (read_seq_head mem .toProbe c₁).1 =
      next_code mem (c₁.ahead (fixedLength 0xb3 (bytes.drop (i' + 4)))) := by
    rw [read_seq_head, seq_fixed mem hlen, hstop.rest]
    rfl
  rw [probe_standard, (next_code_tracks mem).complete _ _ hmark]
  dsimp only
  rw [if_pos hseq]
  dsimp only
  rw [← hhead] at hcopies' hstop' hback
  have hfixed : 8 ≤ fixedLength 0xb3 (bytes.drop (i' + 4)) := by
    rw [fixedLength, if_pos rfl]
    dsimp only
    split_ifs <;> omega
  refine ⟨k', hcopies.trans hcopies', hsize.trans hcopies'.grows, hstop', by omega, ?_, ?_, ?_, ?_⟩
  · intro j code' _ hjk hcode'
    rcases Nat.lt_trichotomy j i' with hlt | rfl | hgt
    · exact absurd hcode'.toMarkAt (hno j (Nat.zero_le j) hlt)
    · rw [Option.some.inj (hcode'.code.symm.trans hat.code)]
      decide
    · exact absurd hcode'.toMarkAt (hno' j hgt hjk)
  · rw [hback]
    exact hne
  · split_ifs with hext
    · refine fun _ => ⟨i', 0xb3, hfirst, .inr ⟨rfl, k', ?_⟩⟩
      rw [hback] at hext
      rw [hext] at hsecond
      exact hsecond
    · exact False.elim
  · split_ifs <;> exact Standard.noConfusion

theorem opened_carries (hbytes : me.bytes = bytes) (hstat : me.stat = none) (mem : Memory) :
    ∃ k, Carries bytes 0 k (Begin.startCode ⟨firstProbe mem me.opened {}, true, false⟩) ∧ 8 ≤ k ∧
      Headers bytes 0 k ∧
      (Begin.startCode ⟨firstProbe mem me.opened {}, true, false⟩).code ≠ 0xb7 := by
  have hrest : me.opened.rest = bytes := by
    rw [MpegMedia.opened, if_pos hstat]
    exact hbytes
  have hprobe := @probe_carries bytes ⟨(List.range 4).map mem, me.opened.rest⟩ hs mem hrest
  rw [firstProbe, if_pos rfl, Work.probe]
  dsimp only
  generalize probe_standard mem .toProbe ⟨(List.range 4).map mem, me.opened.rest⟩ = r at hprobe ⊢
  obtain ⟨k, hcopies, hsize, hstop, hk, hheaders, hne, hmpeg2, hprobed⟩ := hprobe
  refine ⟨k, ?_, hk, hheaders, hne⟩
  exact {
    rest := hstop.rest
    code := hstop.code
    copied := hcopies.copied le_rfl hrest
    size := hsize
    std := hmpeg2
    probed := hprobed
    uncut := rfl }

omit hs in
theorem firstProbe_probed {s : StaticMpegVideo} (h : s.std ≠ .toProbe) (mem : Memory)
    (me : MpegMedia) : firstProbe mem me s =
      ⟨⟨(List.range 4).map mem, me.rest⟩, s, me.bitrate, false, false⟩ := by
  rw [firstProbe, if_neg h]

omit hs in
/-- A later call writes the start code again that the call before has taken back. -/
theorem left_carries {s : StaticMpegVideo} (hrest : me.rest = bytes.drop (k + 4))
    (hcode : CodeAt bytes k s.finalByte)
    (huncut : s.fragmented = false) (hstd : s.std = .mpeg2 → IsMpeg2 bytes)
    (hprobed : s.std ≠ .toProbe) (mem : Memory) :
    Carries bytes k k (Begin.startCode ⟨firstProbe mem me s, false, false⟩) := by
  rw [firstProbe_probed hprobed]
  exact {
    rest := hrest
    code := hcode
    copied := by
      rw [hcode.drop, ← hrest]
      rfl
    size := by simp [Begin.startCode, Work.size]
    std := hstd
    probed := hprobed
    uncut := huncut }

end Begins

/-! ### One call -/

section Read

variable {bytes : List UInt8} {i k m n : ℕ} {w w' : Work} {x : Aux} {me me' : MpegMedia}
  {cs : Circumstances} {fuel : ℕ} {p : MpegPacket} {r : MpegEnd}

theorem Ended.relabel (h : Ended bytes m w x n) (v : VideoSpecHead1) :
    Ended bytes m { w with stat := { w.stat with vsh1 := v } } x n := by
  cases h with
  | code h hx => exact .code ⟨h.rest, h.code, h.copied, h.size, h.std, h.probed, h.uncut⟩ hx
  | cut hf hx hrest hle hcopied hstd hprobed hsize =>
    exact .cut hf hx hrest hle hcopied hstd hprobed hsize

/-- Where there is room for a slice the loop over the headers comes to it in time. -/
theorem Room.enters {numBytes : ℕ} (h : Room bytes m numBytes) (hw : Carries bytes m k w)
    (hm : Headers bytes m k) (hend : w.recallme = false → w.code = 0xb7 ∧ m < k) :
    w.size < numBytes ∧ w.recallme = true := by
  obtain ⟨k₁, code, hle, hcode, hslice, hlt, hno⟩ := h
  have hkk : k ≤ k₁ := by
    by_contra hgt
    exact hslice (hm k₁ code hle (Nat.lt_of_not_le hgt) hcode)
  have hplace := hw.place
  refine ⟨by omega, ?_⟩
  by_contra hfalse
  obtain ⟨hb7, hmk⟩ := hend (eq_false_of_ne_true hfalse)
  have hat : CodeAt bytes k 0xb7 := hb7 ▸ hw.code
  rcases Nat.eq_or_lt_of_le hkk with rfl | hlt'
  · apply hslice
    rw [Option.some.inj (hcode.code.symm.trans hat.code)]
    decide
  · exact hno k hmk hlt' hat

/-- A call that begins with the headers of a packet that has room for a slice, or to whose end
`buf_aux` fits as it is. -/
theorem headersAndSlices_ended (hs : Elementary bytes) (hw : Carries bytes m i w)
    (hm : Headers bytes m i) (hrec : w.recallme = true) (hmi : w.code = 0xb7 → i + 4 < bytes.length)
    (hroom : Room bytes m me.numBytes ∨ cs.aux.isStart)
    (hr : headersAndSlices cs fuel me w = some r) :
    ∃ w' x n, r = finish me w' x ∧ Ended bytes m w' x n := by
  rw [headersAndSlices] at hr
  -- behind the end of a sequence the packet begins with the start code behind it
  have hstart : ∃ w₁ k, w.afterSeqEnd = .goes w₁ ∧ Carries bytes m k w₁ ∧ Headers bytes m k ∧
      w₁.recallme = true ∧ (w₁.code = 0xb7 → m < k) := by
    rw [Work.afterSeqEnd]
    split_ifs with hcode
    · have hne : w.code ≠ 0 := by
        rw [hcode]
        decide
      obtain ⟨w₁, k, hnext, hk, hcarries, hno, hrec₁⟩ := hw.nextCode hs hne (hmi hcode)
      have hplace := hw.place
      have hsize := hw.size
      have hhead : isHeader w.code := by
        rw [hcode]
        decide
      exact ⟨w₁, k, hnext, hcarries, (Between.of_noMark hno).headers hw.code hhead hm,
        hrec₁.trans hrec, fun _ => by omega⟩
    · exact ⟨w, i, rfl, hw, hm, hrec, fun hc => absurd hc hcode⟩
  obtain ⟨w₁, k₁, hafter, hw₁, hm₁, hrec₁, hend₁⟩ := hstart
  rw [hafter] at hr
  dsimp only at hr
  cases hh : Work.headers cs.mem me.numBytes fuel w₁ with
  | none =>
    rw [hh] at hr
    cases hr
  | some r₁ =>
    obtain ⟨w₂, k₂, rfl, hw₂, hk₂, hm₂, hend₂⟩ :=
      inHeaders_carries hs hw₁ hm₁ hrec₁ (headers_moment hh .start)
    have hleft := headers_left hh
    have hend : w₂.recallme = false → w₂.code = 0xb7 ∧ m < k₂ := by
      intro hfalse
      have hb7 := hend₂ hfalse
      refine ⟨hb7, ?_⟩
      have hplace := hw₁.place
      have hsize := hw₁.size
      rcases Nat.eq_or_lt_of_le hk₂ with rfl | hlt
      · refine hend₁ ?_
        rw [← hb7]
        exact Option.some.inj (hw₁.code.code.symm.trans hw₂.code.code)
      · omega
    have henter : cs.aux.isStart ∨ w₂.size < me.numBytes ∧ w₂.recallme = true :=
      hroom.symm.imp_right fun h => h.enters hw₂ hm₂ hend
    rw [hh] at hr
    dsimp only at hr
    cases hsl : Work.slices me.numBytes fuel (w₂, cs.aux) with
    | none =>
      rw [hsl] at hr
      cases hr
    | some r₂ =>
      obtain ⟨w₃, x₃, n, rfl, hended⟩ := slices_ended hs hw₂ hleft henter hsl
      rw [hsl] at hr
      cases hr
      exact ⟨_, x₃, n, rfl, hended.relabel _⟩

theorem restOfSlice_ended (hs : Elementary bytes) (hrest : w.copy.rest = bytes.drop m)
    (hm : m + 4 ≤ bytes.length) (hcopied : w.copy.buf.drop 4 = []) (hfour : 4 ≤ w.size)
    (hstd : w.stat.std = .mpeg2 → IsMpeg2 bytes) (hprobed : w.stat.std ≠ .toProbe) :
    ∃ w' x n, restOfSlice me w = finish me w' x ∧ Ended bytes m w' x n := by
  have hcopied' : w.copy.buf.drop 4 ++ w.copy.rest = bytes.drop m := by
    rw [hcopied, hrest, List.nil_append]
  obtain ⟨w', x, n, he, hended, -⟩ :=
    @slice_ended bytes m m w me.numBytes hs hrest hm hcopied' hfour hstd hprobed
  rw [restOfSlice, he]
  exact ⟨_, x, n, rfl, hended.relabel _⟩

theorem finish_ne_error {res : ℤ} : finish me w x ≠ .error res me' := by
  rw [finish]
  dsimp only
  rw [settle]
  split_ifs <;> exact MpegEnd.noConfusion

theorem last_code_read (hs : Elementary bytes) (hw : Carries bytes m k w)
    (hlast : k + 4 = bytes.length) (hr : headersAndSlices cs fuel me w = some r) :
    r ≠ .packet p me' := by
  have hcode : w.code = 0xb7 := by
    by_contra hne
    have := hs.last hw.code hne
    omega
  have hnone : w.copy.mark = none := by
    have hrest : w.copy.rest = [] := by
      rw [hw.rest, hlast, List.drop_length]
    rw [Copy.mark, next_start_code, hrest]
    rfl
  rw [headersAndSlices, Work.afterSeqEnd, if_pos hcode, nextCode_none hnone] at hr
  cases hr
  exact endOfFile_ne me _

/-- A call of a run sends the file from where it stands, and there is an end of the file only at
the last start code. -/
theorem read_sends (hs : Elementary bytes) (hbytes : me.bytes = bytes) (hstands : Stands bytes me m)
    {a : ReadCall} (hguard : Conserving me a)
    (hr : read_MPEG_video a.cs a.fuel me = some r) :
    (∀ me', r = .error errEof me' → m + 4 = bytes.length) ∧
      ∀ p me', r = .packet p me' → me'.bytes = bytes ∧
        ∃ n, Stands bytes me' n ∧ bytes.drop m = p.payload ++ bytes.drop n := by
  have hsent := hstands.sent hbytes
  have hopened : me.opened.bytes = bytes ∧ me.opened.numBytes = me.numBytes := by
    rw [MpegMedia.opened]
    split_ifs <;> exact ⟨hbytes, rfl⟩
  have hended : (∃ w x n, r = finish me.opened w x ∧ Ended bytes m w x n) →
      (∀ me', r = .error errEof me' → m + 4 = bytes.length) ∧
      ∀ p me', r = .packet p me' → me'.bytes = bytes ∧
        ∃ n, Stands bytes me' n ∧ bytes.drop m = p.payload ++ bytes.drop n := by
    rintro ⟨w, x, n, rfl, hended⟩
    refine ⟨fun me' he => absurd he finish_ne_error, fun p me' he => ?_⟩
    obtain ⟨hsame, hstands', hpayload⟩ := finish_sends hended he
    exact ⟨hsame.trans hopened.1, n, hstands', hpayload⟩
  rw [read_MPEG_video] at hr
  by_cases hfail : me.stat = none ∧ a.cs.mediaopen < 0
  · rw [if_pos hfail] at hr
    cases hr
    refine ⟨fun me' he => ?_, fun p me' he => ?_⟩
    · have hres : a.cs.mediaopen = errEof := (MpegEnd.error.inj he).1
      exact absurd hres hguard.opens
    · cases he
  rw [if_neg hfail] at hr
  dsimp only at hr
  rw [begin_packet_seek hguard.seek] at hr
  have hroom := hguard.room
  rw [hsent, hbytes, ← hopened.2] at hroom
  cases hstands with
  | new hstat =>
    have hstat' : me.opened.stat = none := by
      rw [MpegMedia.opened, if_pos hstat]
      exact hstat
    obtain ⟨k, hcarries, hk, hheaders, hne⟩ := opened_carries hs hbytes hstat a.cs.mem
    rw [hstat', Option.getD_none, if_neg (by exact Bool.noConfusion)] at hr
    have hlen := hcarries.code.length
    have hroom' := (hroom (by simp [hstat])).resolve_left (by omega)
    exact hended (headersAndSlices_ended hs hcarries hheaders rfl (fun hc => absurd hc hne) hroom' hr)
  | code hstat hrest hcode huncut hstd hprobed =>
    have hme : me.opened = me := by
      rw [MpegMedia.opened, if_neg]
      rw [hstat]
      exact Option.some_ne_none _
    have hcarries := left_carries hrest hcode huncut hstd hprobed a.cs.mem
    have hprobe := firstProbe_probed hprobed a.cs.mem me
    rw [hme] at hroom hended hr
    rw [hstat, Option.getD_some, if_neg (by rw [hprobe, huncut]; exact Bool.noConfusion),
      decide_eq_false hprobed] at hr
    have hheaders : Headers bytes m m := fun j code hj hjm => by omega
    by_cases hlast : m + 4 = bytes.length
    · refine ⟨fun _ _ => hlast, fun p me' he => ?_⟩
      exact absurd he (last_code_read hs hcarries hlast hr)
    · have hlen := hcode.length
      have hroom' := (hroom (by simp [hstat, huncut])).resolve_left hlast
      exact hended (headersAndSlices_ended hs hcarries hheaders rfl (fun _ => by omega) hroom' hr)
  | cut hstat hrest hle hf hstd hprobed =>
    have hme : me.opened = me := by
      rw [MpegMedia.opened, if_neg]
      rw [hstat]
      exact Option.some_ne_none _
    have hprobe := firstProbe_probed hprobed a.cs.mem me
    have hcut := hguard.cut _ (hstat ▸ rfl) hf
    rw [hsent, hbytes] at hcut
    rw [hme] at hended hr
    rw [hstat, Option.getD_some, hprobe, if_pos hf] at hr
    cases hr
    exact hended (restOfSlice_ended hs hrest hcut rfl (by simp [Work.size]) hstd hprobed)

end Read

/-! ### Runs -/

/-- A call of a run, with the payloads up to now. -/
def sendStep (s : MpegMedia × List UInt8) (a : ReadCall) : Option (MpegMedia × List UInt8) :=
  (packetOf (read_MPEG_video a.cs a.fuel s.1)).map fun r => (r.2, s.2 ++ r.1.payload)

section Runs

variable {me₀ me me' : MpegMedia} {out : List UInt8} {as : List ReadCall} {a : ReadCall}

theorem sendStep_eq {s t : MpegMedia × List UInt8} (h : sendStep s a = some t) :
    ∃ p, read_MPEG_video a.cs a.fuel s.1 = some (.packet p t.1) ∧ t.2 = s.2 ++ p.payload := by
  obtain ⟨⟨p, me₁⟩, hp, rfl⟩ := Option.map_eq_some_iff.mp h
  exact ⟨p, packetOf_eq hp, rfl⟩

theorem run_sends (hs : Elementary me₀.bytes) (hnew : me₀.stat = none)
    (hrun : GuardedRun sendStep (fun s a => Conserving s.1 a) (me₀, []) as (me, out)) :
    me.bytes = me₀.bytes ∧ ∃ m, Stands me₀.bytes me m ∧ me₀.bytes = out ++ me₀.bytes.drop m := by
  refine @GuardedRun.invariant _ _ _ _ (fun s => s.1.bytes = me₀.bytes ∧
    ∃ m, Stands me₀.bytes s.1 m ∧ me₀.bytes = s.2 ++ me₀.bytes.drop m)
    ?_ _ _ _ hrun ⟨rfl, 0, .new hnew, rfl⟩
  rintro s a t ⟨hbytes, m, hstands, hsent⟩ hguard hstep
  obtain ⟨p, hread, hout⟩ := sendStep_eq hstep
  obtain ⟨-, hsends⟩ := read_sends hs hbytes hstands hguard hread
  obtain ⟨hbytes', n, hstands', hpayload⟩ := hsends p t.1 rfl
  refine ⟨hbytes', n, hstands', ?_⟩
  rw [hout, List.append_assoc, ← hpayload]
  exact hsent

/-- In a run over an MPEG video stream that ends with a sequence end code, where every packet
begins at the end or has room for a slice, and no slice is cut off within the last start code, the
payloads up to the end of the file are the stream without its last start code. -/
theorem stream_conserved (hs : Elementary me₀.bytes) (hnew : me₀.stat = none)
    (hrun : GuardedRun sendStep (fun s a => Conserving s.1 a) (me₀, []) as (me, out))
    (hguard : Conserving me a)
    (hread : read_MPEG_video a.cs a.fuel me = some (.error errEof me')) :
    me₀.bytes = out ++ [0, 0, 1, 0xb7] := by
  obtain ⟨hbytes, m, hstands, hsent⟩ := run_sends hs hnew hrun
  have hlast := (read_sends hs hbytes hstands hguard hread).1 me' rfl
  have hm : m = me₀.bytes.length - 4 := by omega
  rw [hm, hs.ends.drop, List.drop_eq_nil_of_le (by omega)] at hsent
  exact hsent

end Runs

/-- A stream of a sequence header, a picture and one slice, whose start codes are the only ones. -/
theorem picture_elementary {bytes : List UInt8} {n : ℕ} (hlen : bytes.length = n + 4) (hn : 24 ≤ n)
    (hseq : CodeAt bytes 0 0xb3) (hpic : CodeAt bytes 12 0x00) (hslice : CodeAt bytes 20 0x01)
    (hend : CodeAt bytes n 0xb7) (height : fixedLength 0xb3 (bytes.drop 4) = 8)
    (htwo : fixedLength 0x00 (bytes.drop 16) = 2)
    (honly : ∀ i, MarkAt bytes i → i = 0 ∨ i = 12 ∨ i = 20 ∨ i = n) : Elementary bytes := by
  have hquiet : ∀ {a b : ℕ}, (0 < a ∧ b ≤ 12) ∨ (12 < a ∧ b ≤ 20) → NoMark bytes a b := by
    intro a b hab j hj hjb hmark
    have := honly j hmark
    omega
  have hfirst : FirstCode bytes 0 0 0xb3 := ⟨le_rfl, hseq, fun j _ hj => absurd hj (Nat.not_lt_zero j)⟩
  have hsecond : FirstCode bytes (0 + 4 + fixedLength 0xb3 (bytes.drop (0 + 4))) 12 0x00 := by
    rw [height]
    exact ⟨le_rfl, hpic, fun j hj hjk => absurd hjk (Nat.not_lt_of_le hj)⟩
  refine ⟨⟨0, 12, 0x00, hfirst, hsecond, by decide⟩, ?_, ?_, ?_⟩
  · rw [hlen, Nat.add_sub_cancel]
    exact hend
  · intro i code hcode hkind
    have hsame : ∀ {other : UInt8}, CodeAt bytes i other → code = other := fun h =>
      Option.some.inj (hcode.code.symm.trans h.code)
    obtain rfl | rfl | rfl | rfl := honly i hcode.toMarkAt
    · obtain rfl := hsame hseq
      rw [height]
      exact hquiet (.inl ⟨by decide, le_rfl⟩)
    · obtain rfl := hsame hpic
      rw [htwo]
      exact hquiet (.inr ⟨by decide, by decide⟩)
    · rw [hsame hslice] at hkind
      exact absurd hkind (by decide)
    · rw [hsame hend] at hkind
      exact absurd hkind (by decide)
  · rintro ⟨k, code, hk, hkind⟩
    obtain ⟨rfl, rfl⟩ := hk.unique hfirst
    obtain hkind | ⟨-, m, hm⟩ := hkind
    · exact absurd hkind (by decide)
    · exact absurd (hm.unique hsecond).2 (by decide)

/-- The error of a call and the media behind it. -/
def errorOf : Option MpegEnd → Option (ℤ × MpegMedia)
  | some (.error res me) => some (res, me)
  | _ => none

theorem packet_and_end {me : MpegMedia} {sent total n : ℕ}
    (h : (sendStep (me, []) onePictureRead).map (fun s => (s.1.sent, s.1.bytes.length, s.2.length,
      (errorOf (read_MPEG_video onePictureRead.cs onePictureRead.fuel s.1)).map Prod.fst)) =
        some (sent, total, n, some errEof)) :
    ∃ me₁ out me', sendStep (me, []) onePictureRead = some (me₁, out) ∧ me₁.sent = sent ∧
      me₁.bytes.length = total ∧ out.length = n ∧
      read_MPEG_video onePictureRead.cs onePictureRead.fuel me₁ = some (.error errEof me') := by
  obtain ⟨⟨me₁, out⟩, hstep, he⟩ := Option.map_eq_some_iff.mp h
  simp only [Prod.mk.injEq] at he
  obtain ⟨hsent, htotal, hn, herror⟩ := he
  obtain ⟨⟨res, me'⟩, hres, rfl⟩ := Option.map_eq_some_iff.mp herror
  refine ⟨me₁, out, me', hstep, hsent, htotal, hn, ?_⟩
  revert hres
  generalize read_MPEG_video onePictureRead.cs onePictureRead.fuel me₁ = r
  intro hres
  cases r with
  | none => cases hres
  | some r =>
    cases r with
    | error res' me'' =>
      cases hres
      rfl
    | packet => cases hres
    | overrun => cases hres

theorem onePicture_elementary : Elementary (onePicture 1).bytes := by
  refine picture_elementary rfl (by decide) ⟨⟨rfl, rfl, rfl⟩, rfl⟩ ⟨⟨rfl, rfl, rfl⟩, rfl⟩
    ⟨⟨rfl, rfl, rfl⟩, rfl⟩ ⟨⟨rfl, rfl, rfl⟩, rfl⟩ (by decide) (by decide) fun i hmark => ?_
  have hlt := (List.getElem?_eq_some_iff.mp hmark.one).1
  have hall : ∀ i < 34, MarkAt (onePicture 1).bytes i → i = 0 ∨ i = 12 ∨ i = 20 ∨ i = 30 := by
    decide
  exact hall i (by change i + 2 < 34 at hlt; omega) hmark

/-- The stream of one picture, in one packet. -/
theorem one_picture_conserved : ∃ me out me',
    sendStep (onePicture 1, []) onePictureRead = some (me, out) ∧
      read_MPEG_video onePictureRead.cs onePictureRead.fuel me = some (.error errEof me') ∧
      (onePicture 1).bytes = out ++ [0, 0, 1, 0xb7] := by
  obtain ⟨me, out, me', hstep, hsent, htotal, -, hread⟩ :=
    @packet_and_end (onePicture 1) 30 34 30 (by decide +kernel)
  have hroom : Room (onePicture 1).bytes 0 1400 := by
    refine ⟨20, 0x01, by decide, ⟨⟨rfl, rfl, rfl⟩, rfl⟩, by decide, by decide, fun j _ hj hend => ?_⟩
    have hmem := onePicture_codes (.inl rfl) hend
    simp at hmem
    omega
  have hfirst : Conserving (onePicture 1) onePictureRead :=
    ⟨rfl, by decide, fun _ => .inr (.inl hroom), by rintro s ⟨⟩⟩
  have hsecond : Conserving me onePictureRead :=
    ⟨rfl, by decide, fun _ => .inl (by omega), fun _ _ _ => by omega⟩
  exact ⟨me, out, me', hstep, hread, stream_conserved onePicture_elementary rfl
    (.cons hfirst hstep (.nil _)) hsecond hread⟩

/-- A slice that fills its packet up to two bytes of the last start code. -/
def longSlice : MpegMedia where
  bytes := (onePicture 1).bytes.take 24 ++ List.replicate 236 0xff ++ [0, 0, 1, 0xb7]
  rest := []
  stat := none
  bytePerPckt := 262
  bitrate := 0
  live := false

theorem longSlice_elementary : Elementary longSlice.bytes := by
  have hlen : longSlice.bytes.length = 260 + 4 := by decide +kernel
  refine picture_elementary hlen (by decide) (by decide) (by decide) (by decide)
    (by decide +kernel) (by decide) (by decide) fun i hmark => ?_
  have hlt := (List.getElem?_eq_some_iff.mp hmark.one).1
  -- in the slice there is no byte that is 1
  have hslice : ∀ j, j < 236 → longSlice.bytes[24 + j]? = some 0xff := by
    intro j hj
    have hhead : ((onePicture 1).bytes.take 24).length = 24 := rfl
    rw [longSlice, List.append_assoc, List.getElem?_append_right (by omega), hhead,
      Nat.add_sub_cancel_left, List.getElem?_append_left (by rw [List.length_replicate]; exact hj),
      List.getElem?_replicate, if_pos hj]
  rcases Nat.lt_or_ge i 22 with hlow | hge
  · have hall : ∀ i < 22, MarkAt longSlice.bytes i → i = 0 ∨ i = 12 ∨ i = 20 ∨ i = 260 := by
      decide
    exact hall i hlow hmark
  · rcases Nat.lt_or_ge i 258 with hmid | hhigh
    · have hone := hmark.one
      rw [show i + 2 = 24 + (i - 22) by omega, hslice _ (by omega)] at hone
      exact absurd hone (by decide)
    · have hall : ∀ j < 4, MarkAt longSlice.bytes (258 + j) → 258 + j = 260 := by
        decide +kernel
      have := hall (i - 258) (by omega) (by rwa [Nat.add_sub_cancel' hhigh])
      omega

/-- Two bytes of the last start code are in the packet of the slice. -/
theorem last_code_split : ¬ ∀ (me₀ me me' : MpegMedia) (out : List UInt8) (as : List ReadCall)
    (a : ReadCall), Elementary me₀.bytes → me₀.stat = none →
      GuardedRun sendStep (fun _ a => a.cs.seek = none ∧ 0 ≤ a.cs.mediaopen) (me₀, []) as (me, out) →
      a.cs.seek = none → 0 ≤ a.cs.mediaopen →
      read_MPEG_video a.cs a.fuel me = some (.error errEof me') →
      me₀.bytes = out ++ [0, 0, 1, 0xb7] := by
  intro hall
  obtain ⟨me, out, me', hstep, -, -, hlen, hread⟩ :=
    @packet_and_end longSlice 262 264 262 (by decide +kernel)
  have hsame := congrArg List.length (hall longSlice me me' out _ onePictureRead longSlice_elementary
    rfl (.cons ⟨rfl, le_rfl⟩ hstep (.nil _)) rfl le_rfl hread)
  have htotal : longSlice.bytes.length = 264 := by decide +kernel
  rw [List.length_append, hlen, htotal] at hsame
  exact absurd hsame (by decide)

end Fenice.Mediainfo.Mpeg
