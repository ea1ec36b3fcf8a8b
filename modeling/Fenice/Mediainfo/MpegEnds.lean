import Fenice.Mediainfo.MpegHeads

/-!
# When the loops of read_MPEG_video end

The loop over the headers goes on while the last start code is that of a header, and has a
branch for five of them. With any other code above 0xaf it stands still, and a header that is cut
off by the end of the file leaves it with whatever code lies in the memory.
-/

namespace Fenice.Mediainfo.Mpeg

/-- Nothing was written behind `data_tmp`. -/
def Fits (c : Copy) : Prop := c.buf.length ≤ dataTmpSize

/-- The slices that follow fit into `data_tmp`, up to the end of the packet or of the file. -/
inductive SlicesFit (numBytes : ℕ) : Copy → Prop
  | stop {c c' : Copy} {x : Aux} {code : UInt8} (h : c.slice numBytes = (c', some (x, code)))
      (hstop : (x.isStart ∧ isHeader code) ∨ numBytes ≤ c'.buf.length) (hfit : Fits c') :
      SlicesFit numBytes c
  | more {c c' : Copy} {x : Aux} {code : UInt8} (h : c.slice numBytes = (c', some (x, code)))
      (hmore : ¬ (x.isStart ∧ isHeader code)) (hlt : c'.buf.length < numBytes)
      (hfit : SlicesFit numBytes c') : SlicesFit numBytes c
  | fileEnd {c c' : Copy} (h : c.slice numBytes = (c', none)) (hfit : Fits c') :
      SlicesFit numBytes c

/-- The same when the packet may be full already. -/
def PacketFits (numBytes : ℕ) (c : Copy) : Prop :=
  if c.buf.length < numBytes then SlicesFit numBytes c else Fits c

/-- The headers of the file lead from `code` to a slice, to the end of the sequence, or to user
data or an extension that the file ends in. Each of them is complete, and none has a code
that `read_MPEG_video` knows nothing of. -/
inductive Leads (std : Standard) (numBytes : ℕ) : UInt8 → Copy → Prop
  | slice {code : UInt8} {c : Copy} (h : ¬ isHeader code) (hfit : PacketFits numBytes c) :
      Leads std numBytes code c
  | seqEnd {c : Copy} (hfit : Fits c) : Leads std numBytes 0xb7 c
  | fileEnd {code : UInt8} {c : Copy} (h : code = 0xb2 ∨ code = 0xb5) (hm : c.mark = none)
      (hfit : Fits (next_start_code c).2) : Leads std numBytes code c
  | userData {code : UInt8} {c c' : Copy} (h : code = 0xb2 ∨ code = 0xb5) (hm : c.mark = some c')
      (hl : Leads std numBytes (c'.back 1) c') : Leads std numBytes code c
  | seqHead {c c' : Copy} (hm : c.seqHead std = some c')
      (hl : Leads std numBytes (c'.back 1) c') : Leads std numBytes 0xb3 c
  | gopHead {c c' : Copy} (hm : c.gopHead std = some c')
      (hl : Leads std numBytes (c'.back 1) c') : Leads std numBytes 0xb8 c
  | pictureHead {c c' : Copy} (hm : c.pictureHead std numBytes = some c')
      (hl : Leads std numBytes (c'.back 1) c') : Leads std numBytes 0x00 c

section

variable {std : Standard} {numBytes : ℕ} {code : UInt8} {c : Copy}

/-- The complete header that begins with a code. -/
def headOf (std : Standard) (numBytes : ℕ) (code : UInt8) (c : Copy) : Option Copy :=
  if code = 0xb3 then c.seqHead std
  else if code = 0xb8 then c.gopHead std
  else if code = 0x00 then c.pictureHead std numBytes
  else none

theorem Leads.cases (h : Leads std numBytes code c) :
    (¬ isHeader code ∧ PacketFits numBytes c) ∨ (code = 0xb7 ∧ Fits c) ∨
    ((code = 0xb2 ∨ code = 0xb5) ∧ c.mark = none ∧ Fits (next_start_code c).2) ∨
    ((code = 0xb2 ∨ code = 0xb5) ∧
      ∃ c', c.mark = some c' ∧ Leads std numBytes (c'.back 1) c') ∨
    (code = 0xb3 ∨ code = 0xb8 ∨ code = 0x00) ∧
      ∃ c', headOf std numBytes code c = some c' ∧ Leads std numBytes (c'.back 1) c' := by
  cases h with
  | slice h hfit => exact Or.inl ⟨h, hfit⟩
  | seqEnd hfit => exact Or.inr (Or.inl ⟨rfl, hfit⟩)
  | fileEnd h hm hfit => exact Or.inr (Or.inr (Or.inl ⟨h, hm, hfit⟩))
  | userData h hm hl => exact Or.inr (Or.inr (Or.inr (Or.inl ⟨h, _, hm, hl⟩)))
  | seqHead hm hl => exact Or.inr (Or.inr (Or.inr (Or.inr ⟨by simp, _, hm, hl⟩)))
  | gopHead hm hl => exact Or.inr (Or.inr (Or.inr (Or.inr ⟨by simp, _, hm, hl⟩)))
  | pictureHead hm hl => exact Or.inr (Or.inr (Or.inr (Or.inr ⟨by simp, _, hm, hl⟩)))

theorem leads_head (hcode : code = 0xb3 ∨ code = 0xb8 ∨ code = 0x00) :
    Leads std numBytes code c ↔
      ∃ c', headOf std numBytes code c = some c' ∧ Leads std numBytes (c'.back 1) c' := by
  constructor
  · intro h
    rcases h.cases with ⟨hslice, -⟩ | ⟨he, -⟩ | ⟨he, -⟩ | ⟨he, -⟩ | ⟨-, h⟩
    · rcases hcode with rfl | rfl | rfl <;> exact absurd (by decide) hslice
    · rcases hcode with rfl | rfl | rfl <;> exact absurd he (by decide)
    · rcases hcode with rfl | rfl | rfl <;> exact absurd he (by decide)
    · rcases hcode with rfl | rfl | rfl <;> exact absurd he (by decide)
    · exact h
  · rintro ⟨c', hm, hl⟩
    rcases hcode with rfl | rfl | rfl
    · exact .seqHead hm hl
    · exact .gopHead hm hl
    · exact .pictureHead hm hl

theorem leads_userData (hcode : code = 0xb2 ∨ code = 0xb5) :
    Leads std numBytes code c ↔ (c.mark = none ∧ Fits (next_start_code c).2) ∨
      ∃ c', c.mark = some c' ∧ Leads std numBytes (c'.back 1) c' := by
  constructor
  · intro h
    rcases h.cases with ⟨hslice, -⟩ | ⟨he, -⟩ | ⟨-, h⟩ | ⟨-, h⟩ | ⟨he, -⟩
    · rcases hcode with rfl | rfl <;> exact absurd (by decide) hslice
    · rcases hcode with rfl | rfl <;> exact absurd he (by decide)
    · exact Or.inl h
    · exact Or.inr h
    · rcases hcode with rfl | rfl <;> exact absurd he (by decide)
  · rintro (⟨hm, hfit⟩ | ⟨c', hm, hl⟩)
    · exact .fileEnd hcode hm hfit
    · exact .userData hcode hm hl

theorem not_leads_blank : ¬ Leads std numBytes 0xb0 c := by
  intro h
  rcases h.cases with ⟨hslice, -⟩ | ⟨he, -⟩ | ⟨he, -⟩ | ⟨he, -⟩ | ⟨he, -⟩
  · exact hslice (by decide)
  all_goals exact absurd he (by decide)

theorem headOf_consumes {c' : Copy} (h : headOf std numBytes code c = some c') :
    Consumes c c' := by
  unfold headOf at h
  split at h
  · exact seqHead_copies h
  split at h
  · exact gopHead_copies h
  split at h
  · exact pictureHead_copies h
  · cases h

end

/-! ### The parts of one iteration -/

/-- The call is on its way: it is about to go on with its code, or it has met the end of the
sequence. -/
def OnWay (std : Standard) (numBytes : ℕ) (w : Work) : Prop :=
  w.stat.std = std ∧ (w.recallme = true ∧ Leads std numBytes w.code w.copy ∨
    w.recallme = false ∧ w.code = 0xb7 ∧ Fits w.copy)

/-- A part `f` of the loop reads the header that begins with `k`. -/
structure HeadPart (mem : Memory) (std : Standard) (numBytes : ℕ) (k : UInt8)
    (f : Work → Work) : Prop where
  head : k = 0xb3 ∨ k = 0xb8 ∨ k = 0x00
  skips : ∀ w : Work, w.code ≠ k → f w = w
  reads : ∀ w : Work, w.code = k → w.stat.std = std → ∃ r : Copy → Copy,
    Tracks mem r (headOf std numBytes k) ∧ (f w).copy = r w.copy ∧
      (f w).code = (r w.copy).back 1 ∧ (f w).stat.std = std ∧ (f w).recallme = w.recallme

theorem seqHead_part (mem : Memory) (std : Standard) (numBytes : ℕ) :
    HeadPart mem std numBytes 0xb3 (Work.seqHead mem) where
  head := Or.inl rfl
  skips := fun _ h => if_neg h
  reads := by
    intro w hcode hstd
    refine ⟨_, read_seq_head_tracks mem std, ?_⟩
    unfold Work.seqHead
    rw [if_pos hcode, hstd]
    exact ⟨rfl, rfl, hstd, rfl⟩

theorem gopHead_part (mem : Memory) (std : Standard) (numBytes : ℕ) :
    HeadPart mem std numBytes 0xb8 (Work.gopHead mem) where
  head := Or.inr (Or.inl rfl)
  skips := fun _ h => if_neg h
  reads := by
    intro w hcode hstd
    refine ⟨_, read_gop_head_tracks mem std, ?_⟩
    unfold Work.gopHead
    rw [if_pos hcode, hstd]
    exact ⟨rfl, rfl, hstd, rfl⟩

theorem pictureHead_part (mem : Memory) (std : Standard) (numBytes : ℕ) :
    HeadPart mem std numBytes 0x00 (Work.pictureHead mem numBytes) where
  head := Or.inr (Or.inr rfl)
  skips := fun _ h => if_neg h
  reads := by
    intro w hcode hstd
    refine ⟨_, (read_picture_head_tracks mem std w.stat.vsh1).comp
      (read_picture_coding_ext_tracks mem std numBytes), ?_⟩
    unfold Work.pictureHead
    rw [if_pos hcode, hstd]
    dsimp only
    split
    · rename_i hext
      rw [if_pos ⟨hstd.symm.trans hext.1, hext.2⟩]
      exact ⟨rfl, rfl, hstd, rfl⟩
    · rename_i hext
      rw [if_neg fun hc => hext ⟨hstd.trans hc.1, hc.2⟩]
      exact ⟨rfl, rfl, hstd, rfl⟩

section Iteration

variable {mem : Memory} {std : Standard} {numBytes : ℕ} {k : UInt8} {f : Work → Work} {w : Work}

theorem HeadPart.keeps_std (h : HeadPart mem std numBytes k f) (hstd : w.stat.std = std) :
    (f w).stat.std = std := by
  by_cases hcode : w.code = k
  · obtain ⟨r, -, -, -, hstd', -⟩ := h.reads w hcode hstd
    exact hstd'
  · rw [h.skips w hcode]
    exact hstd

theorem HeadPart.recallme (h : HeadPart mem std numBytes k f) (hstd : w.stat.std = std) :
    (f w).recallme = w.recallme := by
  by_cases hcode : w.code = k
  · obtain ⟨r, -, -, -, -, hrec⟩ := h.reads w hcode hstd
    exact hrec
  · rw [h.skips w hcode]

theorem HeadPart.size (h : HeadPart mem std numBytes k f) (hstd : w.stat.std = std) :
    w.copy.buf.length ≤ (f w).copy.buf.length := by
  by_cases hcode : w.code = k
  · obtain ⟨r, ht, hcopy, -⟩ := h.reads w hcode hstd
    rw [hcopy]
    exact ht.grows w.copy
  · rw [h.skips w hcode]

theorem HeadPart.onWay (h : HeadPart mem std numBytes k f) (hw : OnWay std numBytes w) :
    OnWay std numBytes (f w) ∧ (f w).copy.rest.length ≤ w.copy.rest.length ∧
      (w.code = k → (f w).copy.rest.length < w.copy.rest.length) := by
  by_cases hcode : w.code = k
  case neg =>
    rw [h.skips w hcode]
    exact ⟨hw, le_rfl, fun he => absurd he hcode⟩
  obtain ⟨hstd, ⟨hrec, hl⟩ | ⟨-, hend, -⟩⟩ := hw
  · rw [hcode] at hl
    obtain ⟨c', hm, hl⟩ := (leads_head h.head).mp hl
    obtain ⟨r, ht, hcopy, hnext, hstd', hrec'⟩ := h.reads w hcode hstd
    obtain hr := ht.complete _ _ hm
    have hlt := (headOf_consumes hm).2
    rw [hcopy, hr]
    refine ⟨⟨hstd', Or.inl ⟨hrec'.trans hrec, ?_⟩⟩, hlt.le, fun _ => hlt⟩
    rw [hcopy, hnext, hr]
    exact hl
  · rw [hcode] at hend
    rcases h.head with rfl | rfl | rfl <;> exact absurd hend (by decide)

/-- With blank memory a part that leaves the call on its way has read a complete header. -/
theorem HeadPart.of_onWay (h : HeadPart mem std numBytes k f) {n : ℕ} (hb : BlankFrom mem n)
    (hn : n ≤ w.copy.buf.length) (hstd : w.stat.std = std) (hrec : w.recallme = true)
    (hw : OnWay std numBytes (f w)) : OnWay std numBytes w := by
  by_cases hcode : w.code = k
  case neg =>
    rw [h.skips w hcode] at hw
    exact hw
  obtain ⟨r, ht, hcopy, hnext, -, hrec'⟩ := h.reads w hcode hstd
  have hl : Leads std numBytes (f w).code (f w).copy := by
    rcases hw.2 with ⟨-, hl⟩ | ⟨hfalse, -⟩
    · exact hl
    · rw [hrec', hrec] at hfalse
      cases hfalse
  rw [hcopy, hnext] at hl
  refine ⟨hstd, Or.inl ⟨hrec, ?_⟩⟩
  rw [hcode]
  refine (leads_head h.head).mpr ?_
  cases hm : headOf std numBytes k w.copy with
  | none =>
    rw [((ht.lost n w.copy hn hm).lost hb).2] at hl
    exact absurd hl not_leads_blank
  | some c' =>
    rw [ht.complete _ _ hm] at hl
    exact ⟨c', rfl, hl⟩

theorem seqEnd_onWay (hw : OnWay std numBytes w) : OnWay std numBytes w.seqEnd := by
  unfold Work.seqEnd
  split
  · rename_i hcode
    obtain ⟨hstd, ⟨-, hl⟩ | ⟨-, -, hfit⟩⟩ := hw
    · refine ⟨hstd, Or.inr ⟨rfl, hcode, ?_⟩⟩
      rw [hcode] at hl
      rcases hl.cases with ⟨hslice, -⟩ | ⟨-, hfit⟩ | ⟨he, -⟩ | ⟨he, -⟩ | ⟨he, -⟩
      · exact absurd (by decide) hslice
      · exact hfit
      all_goals exact absurd he (by decide)
    · exact ⟨hstd, Or.inr ⟨rfl, hcode, hfit⟩⟩
  · exact hw

theorem of_seqEnd_onWay (hstd : w.stat.std = std) (hrec : w.recallme = true)
    (hw : OnWay std numBytes w.seqEnd) : OnWay std numBytes w := by
  unfold Work.seqEnd at hw
  split at hw
  · rename_i hcode
    obtain ⟨-, ⟨hfalse, -⟩ | ⟨-, -, hfit⟩⟩ := hw
    · cases hfalse
    · refine ⟨hstd, Or.inl ⟨hrec, ?_⟩⟩
      rw [hcode]
      exact .seqEnd hfit
  · exact hw

/-- One iteration up to the inner loop: it takes up some of the file, unless it meets the end
of the sequence, or nothing but user data. -/
theorem header_onWay (hw : OnWay std numBytes w) (hhead : isHeader w.code) :
    OnWay std numBytes (w.header mem numBytes) ∧
      (w.header mem numBytes).copy.rest.length ≤ w.copy.rest.length ∧
      ((w.header mem numBytes).recallme = false ∨
        (w.header mem numBytes).copy.rest.length < w.copy.rest.length ∨
        (w.code = 0xb2 ∨ w.code = 0xb5) ∧ w.header mem numBytes = w) := by
  obtain ⟨h₁, hle₁, hlt₁⟩ := (seqHead_part mem std numBytes).onWay hw
  obtain ⟨h₂, hle₂, hlt₂⟩ := (gopHead_part mem std numBytes).onWay h₁
  obtain ⟨h₃, hle₃, hlt₃⟩ := (pictureHead_part mem std numBytes).onWay h₂
  have hcopy : (w.header mem numBytes).copy =
      (((w.seqHead mem).gopHead mem).pictureHead mem numBytes).copy := by
    unfold Work.header Work.seqEnd
    split <;> rfl
  refine ⟨seqEnd_onWay h₃, by rw [hcopy]; omega, ?_⟩
  rw [hcopy]
  by_cases hseq : w.code = 0xb3
  · have := hlt₁ hseq
    omega
  have he₁ : w.seqHead mem = w := (seqHead_part mem std numBytes).skips w hseq
  by_cases hgop : w.code = 0xb8
  · have := hlt₂ (by rw [he₁]; exact hgop)
    omega
  have he₂ : (w.seqHead mem).gopHead mem = w := by
    rw [he₁]
    exact (gopHead_part mem std numBytes).skips w hgop
  by_cases hpic : w.code = 0x00
  · have := hlt₃ (by rw [he₂]; exact hpic)
    omega
  have he₃ : ((w.seqHead mem).gopHead mem).pictureHead mem numBytes = w := by
    rw [he₂]
    exact (pictureHead_part mem std numBytes).skips w hpic
  have he : w.header mem numBytes = w.seqEnd := congrArg Work.seqEnd he₃
  rcases hw.2 with ⟨-, hl⟩ | ⟨-, hend, -⟩
  · rcases hl.cases with ⟨hslice, -⟩ | ⟨hend, -⟩ | ⟨hc, -⟩ | ⟨hc, -⟩ | ⟨hc, -⟩
    · exact absurd hhead hslice
    · left
      rw [he]
      unfold Work.seqEnd
      rw [if_pos hend]
    · right; right
      refine ⟨hc, he.trans (if_neg ?_)⟩
      rcases hc with hc | hc <;> rw [hc] <;> decide
    · right; right
      refine ⟨hc, he.trans (if_neg ?_)⟩
      rcases hc with hc | hc <;> rw [hc] <;> decide
    · rcases hc with hc | hc | hc
      · exact absurd hc hseq
      · exact absurd hc hgop
      · exact absurd hc hpic
  · left
    rw [he]
    unfold Work.seqEnd
    rw [if_pos hend]

theorem of_header_onWay {n : ℕ} (hb : BlankFrom mem n) (hn : n ≤ w.copy.buf.length)
    (hstd : w.stat.std = std) (hrec : w.recallme = true)
    (hw : OnWay std numBytes (w.header mem numBytes)) : OnWay std numBytes w := by
  have p₁ := seqHead_part mem std numBytes
  have p₂ := gopHead_part mem std numBytes
  have p₃ := pictureHead_part mem std numBytes
  have hstd₁ := p₁.keeps_std hstd
  have hstd₂ := p₂.keeps_std hstd₁
  have hrec₁ := (p₁.recallme hstd).trans hrec
  have hrec₂ := (p₂.recallme hstd₁).trans hrec₁
  have hn₁ := hn.trans (p₁.size hstd)
  have hn₂ := hn₁.trans (p₂.size hstd₁)
  have h₃ := of_seqEnd_onWay (p₃.keeps_std hstd₂) ((p₃.recallme hstd₂).trans hrec₂) hw
  exact p₁.of_onWay hb hn hstd hrec (p₂.of_onWay hb hn₁ hstd₁ hrec₁
    (p₃.of_onWay hb hn₂ hstd₂ hrec₂ h₃))

/-! ### The loops -/

theorem nextCode_mark {c : Copy} (h : w.copy.mark = some c) : w.nextCode =
    .goes { w with copy := c, stat := { w.stat with finalByte := c.back 1 } } := by
  unfold Copy.mark at h
  unfold Work.nextCode
  dsimp only at h ⊢
  split at h
  · cases h
  · rename_i hn
    rw [if_neg hn]
    unfold Copy.take at h
    split at h
    · rename_i hle
      cases h
      cases hrest : (next_start_code w.copy).2.rest with
      | nil =>
        rw [hrest] at hle
        cases hle
      | cons code rest =>
        simp [Copy.back]
    · cases h

theorem nextCode_none (h : w.copy.mark = none) :
    w.nextCode = .errEof { w with copy := (next_start_code w.copy).2 } := by
  unfold Copy.mark at h
  unfold Work.nextCode
  dsimp only at h ⊢
  split at h
  · rename_i hn
    rw [if_pos hn]
  · rename_i hn
    rw [if_neg hn]
    unfold Copy.take at h
    split at h
    · cases h
    · rename_i hle
      rw [List.length_eq_zero_iff.mp (Nat.lt_one_iff.mp (Nat.lt_of_not_le hle))]

/-- What a part of the call may end with: the loop over the headers is left for a slice or
for good. -/
def Settled (numBytes : ℕ) : Part Work → Prop
  | .errEof w => Fits w.copy
  | .goes w => w.recallme = false ∧ Fits w.copy ∨
      w.recallme = true ∧ ¬ isHeader w.code ∧ PacketFits numBytes w.copy

theorem userData_ends {fuel : ℕ} (hw : OnWay std numBytes w)
    (hf : w.copy.rest.length < fuel) :
    ∃ r, Work.userData fuel w = some r ∧ match r with
      | .errEof w' => Fits w'.copy
      | .goes w' => OnWay std numBytes w' ∧ w'.recallme = w.recallme ∧
          w'.copy.rest.length ≤ w.copy.rest.length ∧
          (w.code = 0xb2 ∨ w.code = 0xb5 → w'.copy.rest.length < w.copy.rest.length) := by
  induction fuel generalizing w with
  | zero => omega
  | succ fuel ih =>
    unfold Work.userData
    by_cases hcode : w.code = 0xb2 ∨ w.code = 0xb5
    case neg =>
      rw [if_neg hcode]
      exact ⟨_, rfl, hw, rfl, le_rfl, fun h => absurd h hcode⟩
    rw [if_pos hcode]
    obtain ⟨hstd, ⟨hrec, hl⟩ | ⟨-, hend, -⟩⟩ := hw
    · rcases (leads_userData hcode).mp hl with ⟨hm, hfit⟩ | ⟨c', hm, hl⟩
      · rw [nextCode_none hm]
        exact ⟨_, rfl, hfit⟩
      · rw [nextCode_mark hm]
        have hlen := (mark_copies hm).1.length
        have hsize := (mark_copies hm).2
        obtain ⟨r, hr, hgood⟩ := @ih
          { w with copy := c', stat := { w.stat with finalByte := c'.back 1 } }
          ⟨hstd, Or.inl ⟨hrec, hl⟩⟩ (by change c'.rest.length < fuel; omega)
        refine ⟨r, hr, ?_⟩
        cases r with
        | errEof w' => exact hgood
        | goes w' =>
          obtain ⟨hon, hrec', hle, -⟩ := hgood
          change w'.copy.rest.length ≤ c'.rest.length at hle
          exact ⟨hon, hrec', by omega, fun _ => by omega⟩
    · rcases hcode with hcode | hcode <;> rw [hcode] at hend <;> exact absurd hend (by decide)

theorem headers_end {fuel : ℕ} (hw : OnWay std numBytes w)
    (hf : w.copy.rest.length + 2 ≤ fuel) :
    ∃ r, Work.headers mem numBytes fuel w = some r ∧ Settled numBytes r ∧
      ∀ w', r = .goes w' → w'.copy.rest.length ≤ w.copy.rest.length := by
  induction fuel generalizing w with
  | zero => omega
  | succ fuel ih =>
    unfold Work.headers
    by_cases hloop : isHeader w.code ∧ w.recallme = true
    case neg =>
      rw [if_neg hloop]
      refine ⟨_, rfl, ?_, fun w' he => by cases he; exact le_rfl⟩
      obtain ⟨-, ⟨hrec, hl⟩ | ⟨hrec, -, hfit⟩⟩ := hw
      · have hslice : ¬ isHeader w.code := fun h => hloop ⟨h, hrec⟩
        rcases hl.cases with ⟨-, hfit⟩ | ⟨he, -⟩ | ⟨he, -⟩ | ⟨he, -⟩ | ⟨he, -⟩
        · exact Or.inr ⟨hrec, hslice, hfit⟩
        · exact absurd (by rw [he]; decide) hslice
        · exact absurd (by rcases he with he | he <;> rw [he] <;> decide) hslice
        · exact absurd (by rcases he with he | he <;> rw [he] <;> decide) hslice
        · exact absurd (by rcases he with he | he | he <;> rw [he] <;> decide) hslice
      · exact Or.inl ⟨hrec, hfit⟩
    rw [if_pos hloop]
    obtain ⟨hon, hle, hprogress⟩ := @header_onWay mem std numBytes w hw hloop.1
    obtain ⟨r, hr, hgood⟩ := @userData_ends std numBytes (w.header mem numBytes) fuel hon (by omega)
    rw [hr]
    cases r with
    | errEof w' => exact ⟨_, rfl, hgood, fun _ he => by cases he⟩
    | goes w' =>
      obtain ⟨hon', hrec', hle', hlt'⟩ := hgood
      by_cases hend : w'.recallme = false
      · -- the sequence has ended, and so does the loop
        obtain ⟨fuel, rfl⟩ : ∃ k, fuel = k + 1 := ⟨fuel - 1, by omega⟩
        dsimp only
        unfold Work.headers
        rw [if_neg fun hc => by rw [hend] at hc; exact absurd hc.2 (by decide)]
        refine ⟨_, rfl, ?_, fun _ he => by cases he; exact hle'.trans hle⟩
        obtain ⟨-, ⟨hrec, -⟩ | ⟨-, -, hfit⟩⟩ := hon'
        · rw [hend] at hrec
          cases hrec
        · exact Or.inl ⟨hend, hfit⟩
      · have hshort : w'.copy.rest.length < w.copy.rest.length := by
          rcases hprogress with hfalse | hlt | ⟨huser, he⟩
          · exact absurd (hrec'.trans hfalse) hend
          · exact hle'.trans_lt hlt
          · rw [he] at hlt'
            exact hlt' huser
        obtain ⟨r, hr, hsettled, hrest⟩ := ih hon' (by omega)
        exact ⟨r, hr, hsettled, fun w'' he => (hrest w'' he).trans hshort.le⟩

theorem of_userData {n fuel : ℕ} {r : Part Work} (hn : n ≤ w.copy.buf.length)
    (hstd : w.stat.std = std) (hrec : w.recallme = true) (h : Work.userData fuel w = some r)
    (hend : ∀ w', r = .errEof w' → Fits w'.copy)
    (hgoes : ∀ w', r = .goes w' → n ≤ w'.copy.buf.length → w'.stat.std = std →
      w'.recallme = true → OnWay std numBytes w') : OnWay std numBytes w := by
  induction fuel generalizing w with
  | zero => cases h
  | succ fuel ih =>
    unfold Work.userData at h
    split at h
    · rename_i hcode
      refine ⟨hstd, Or.inl ⟨hrec, (leads_userData hcode).mpr ?_⟩⟩
      cases hm : w.copy.mark with
      | none =>
        rw [nextCode_none hm] at h
        cases h
        exact Or.inl ⟨rfl, hend _ rfl⟩
      | some c' =>
        rw [nextCode_mark hm] at h
        have hgrows := (mark_copies hm).1.grows
        obtain ⟨-, ⟨-, hl⟩ | ⟨hfalse, -⟩⟩ := @ih
          { w with copy := c', stat := { w.stat with finalByte := c'.back 1 } }
          (hn.trans hgrows) hstd hrec h
        · exact Or.inr ⟨c', rfl, hl⟩
        · rw [show w.recallme = false from hfalse] at hrec
          cases hrec
    · cases h
      exact hgoes _ rfl hn hstd hrec

theorem header_keeps (hstd : w.stat.std = std) :
    (w.header mem numBytes).stat.std = std ∧
      w.copy.buf.length ≤ (w.header mem numBytes).copy.buf.length ∧
      ((w.header mem numBytes).recallme = w.recallme ∨
        (w.header mem numBytes).recallme = false ∧ (w.header mem numBytes).code = 0xb7) := by
  have p₁ := seqHead_part mem std numBytes
  have p₂ := gopHead_part mem std numBytes
  have p₃ := pictureHead_part mem std numBytes
  have hstd₁ := p₁.keeps_std hstd
  have hstd₂ := p₂.keeps_std hstd₁
  have hstd₃ := p₃.keeps_std hstd₂
  have hsize := ((p₁.size hstd).trans (p₂.size hstd₁)).trans (p₃.size hstd₂)
  have hrec := ((p₃.recallme hstd₂).trans (p₂.recallme hstd₁)).trans (p₁.recallme hstd)
  unfold Work.header Work.seqEnd
  -- what the three headers leave
  generalize ((w.seqHead mem).gopHead mem).pictureHead mem numBytes = w' at *
  split
  · rename_i hend
    exact ⟨hstd₃, hsize, Or.inr ⟨rfl, hend⟩⟩
  · exact ⟨hstd₃, hsize, Or.inl hrec⟩

theorem of_headers {n fuel : ℕ} {r : Part Work} (hb : BlankFrom mem n)
    (hn : n ≤ w.copy.buf.length) (hstd : w.stat.std = std) (hrec : w.recallme = true)
    (h : Work.headers mem numBytes fuel w = some r) (hr : Settled numBytes r) :
    OnWay std numBytes w := by
  induction fuel generalizing w with
  | zero => cases h
  | succ fuel ih =>
    unfold Work.headers at h
    split at h
    case isFalse hloop =>
      cases h
      rcases hr with ⟨hfalse, -⟩ | ⟨-, hslice, hfit⟩
      · rw [hrec] at hfalse
        cases hfalse
      · exact ⟨hstd, Or.inl ⟨hrec, .slice hslice hfit⟩⟩
    obtain ⟨hstd', hsize, hrec' | ⟨hfalse, hend⟩⟩ := @header_keeps mem std numBytes w hstd
    · refine of_header_onWay hb hn hstd hrec ?_
      cases hu : Work.userData fuel (w.header mem numBytes) with
      | none =>
        rw [hu] at h
        cases h
      | some r' =>
        rw [hu] at h
        refine of_userData (hn.trans hsize) hstd' (hrec'.trans hrec) hu ?_ ?_
        · rintro w' rfl
          cases h
          exact hr
        · rintro w' rfl hn' hstd'' hrec''
          exact ih hn' hstd'' hrec'' h
    · -- the end of the sequence leaves both loops at once
      refine of_header_onWay hb hn hstd hrec ⟨hstd', Or.inr ⟨hfalse, hend, ?_⟩⟩
      cases fuel with
      | zero => cases h
      | succ fuel =>
        unfold Work.userData at h
        rw [if_neg (by rw [hend]; decide)] at h
        dsimp only at h
        unfold Work.headers at h
        rw [if_neg fun hc => by rw [hfalse] at hc; exact absurd hc.2 (by decide)] at h
        cases h
        rcases hr with ⟨-, hfit⟩ | ⟨htrue, -⟩
        · exact hfit
        · rw [hfalse] at htrue
          cases htrue

/-! ### The slices -/

theorem slice_shorter {c c' : Copy} {x : Aux × UInt8} (h : c.slice numBytes = (c', some x)) :
    c'.rest.length < c.rest.length := by
  have hscan : ∀ size (y : Aux) rest copied z left,
      scanSlice numBytes size y rest = (copied, some (z, left)) → left.length ≤ rest.length := by
    intro size y rest
    induction rest generalizing size y with
    | nil =>
      intro copied z left h
      unfold scanSlice at h
      split at h
      · cases h
      · cases h
        exact le_rfl
    | cons d rest ih =>
      intro copied z left h
      unfold scanSlice at h
      split at h
      · dsimp only at h
        rcases hs : scanSlice numBytes (size + 1) ⟨y.b, y.c, d⟩ rest with ⟨copied', left'⟩
        rw [hs] at h
        cases h
        exact (ih _ _ _ _ _ hs).trans (Nat.le_succ _)
      · cases h
        exact le_rfl
  obtain ⟨buf, rest⟩ := c
  unfold Copy.slice at h
  rcases rest with _ | ⟨a, _ | ⟨b, _ | ⟨d, rest⟩⟩⟩
  case cons.cons.cons =>
    dsimp only at h
    rcases hs : scanSlice numBytes buf.length ⟨a, b, d⟩ rest with ⟨copied, _ | ⟨y, left⟩⟩
    · rw [hs] at h
      cases h
    · rw [hs] at h
      have hle := hscan _ _ _ _ _ _ hs
      cases left with
      | nil => cases h
      | cons code left =>
        cases h
        change left.length < rest.length + 3
        rw [List.length_cons] at hle
        omega
  all_goals cases h

/-- The loop over the slices has ended inside `data_tmp`. -/
def SlicesSettled : Part (Work × Aux) → Prop
  | .errEof w => Fits w.copy
  | .goes r => Fits r.1.copy

/-- The loop over the slices comes to an end in any case; the copy fits if what it reads
does. -/
theorem slices_end {fuel : ℕ} {x : Aux} (hrec : w.recallme = true)
    (hfit : PacketFits numBytes w.copy) (hf : w.copy.rest.length + 1 < fuel) :
    ∃ r, Work.slices numBytes fuel (w, x) = some r ∧ SlicesSettled r := by
  induction fuel generalizing w x with
  | zero => omega
  | succ fuel ih =>
    obtain ⟨fuel, rfl⟩ : ∃ k, fuel = k + 1 := ⟨fuel - 1, by omega⟩
    unfold PacketFits at hfit
    unfold Work.slices
    by_cases hlt : w.copy.buf.length < numBytes
    case neg =>
      rw [if_neg fun hc => hlt hc.1]
      rw [if_neg hlt] at hfit
      exact ⟨_, rfl, hfit⟩
    rw [if_pos hlt] at hfit
    rw [if_pos ⟨hlt, hrec⟩]
    unfold Work.slice
    cases hfit with
    | stop h hstop hfit =>
      rw [h]
      dsimp only
      unfold Work.slices
      refine ⟨_, if_neg ?_, hfit⟩
      rintro ⟨hsize, hagain⟩
      rcases hstop with hhead | hfull
      · simp [hhead] at hagain
      · exact absurd hsize (Nat.not_lt.mpr hfull)
    | more h hmore hlt' hfit =>
      have hshort := slice_shorter h
      rw [h]
      refine ih (by simp [hmore]) ?_ (by dsimp only; omega)
      unfold PacketFits
      rw [if_pos hlt']
      exact hfit
    | fileEnd h hfit =>
      rw [h]
      exact ⟨_, rfl, hfit⟩

theorem of_slices {fuel : ℕ} {x : Aux} {r : Part (Work × Aux)} (hrec : w.recallme = true)
    (h : Work.slices numBytes fuel (w, x) = some r) (hr : SlicesSettled r) :
    PacketFits numBytes w.copy := by
  induction fuel generalizing w x with
  | zero => cases h
  | succ fuel ih =>
    unfold PacketFits
    unfold Work.slices at h
    split at h
    · rename_i hloop
      rw [if_pos (show w.copy.buf.length < numBytes from hloop.1)]
      rcases hs : w.copy.slice numBytes with ⟨c', _ | ⟨y, code⟩⟩
      · rw [show w.slice numBytes = .errEof { w with copy := c' } by unfold Work.slice; rw [hs]] at h
        cases h
        exact .fileEnd hs hr
      · rw [show w.slice numBytes = .goes ({ w with
            copy := c'
            recallme := !decide (y.isStart ∧ isHeader code)
            stat := { w.stat with finalByte := code, fragmented := !decide y.isStart } }, y) by
          unfold Work.slice; rw [hs]] at h
        dsimp only at h
        by_cases hhead : y.isStart ∧ isHeader code
        · refine .stop hs (Or.inl hhead) ?_
          cases fuel with
          | zero => cases h
          | succ fuel =>
            unfold Work.slices at h
            rw [if_neg fun hc => by simp [hhead] at hc] at h
            cases h
            exact hr
        · have hnext := ih (by simp [hhead]) h
          unfold PacketFits at hnext
          dsimp only at hnext
          by_cases hlt : c'.buf.length < numBytes
          · rw [if_pos hlt] at hnext
            exact .more hs hhead hlt hnext
          · rw [if_neg hlt] at hnext
            exact .stop hs (Or.inr (Nat.le_of_not_lt hlt)) hnext
    · rename_i hloop
      cases h
      rw [if_neg fun hlt : w.copy.buf.length < numBytes => hloop ⟨hlt, hrec⟩]
      exact hr

end Iteration

end Fenice.Mediainfo.Mpeg
