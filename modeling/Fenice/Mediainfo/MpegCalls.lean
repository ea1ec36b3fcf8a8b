import Fenice.Mediainfo.MpegEnds

/-!
# When a call of read_MPEG_video ends

What a call finds in the memory of `malloc` is not up to it. The code that a cut off header is left
with lies behind all that was written, so a call that ends whatever is in the memory has led from
complete headers to a slice or to the end.
-/

namespace Fenice.Mediainfo.Mpeg

/-! ### The beginning of a packet depends on the memory it overwrites only -/

def AgreeBelow (n : ℕ) (m m' : Memory) : Prop := ∀ i < n, m i = m' i

theorem AgreeBelow.mono {n k : ℕ} {m m' : Memory} (h : AgreeBelow n m m') (hk : k ≤ n) :
    AgreeBelow k m m' := fun i hi => h i (hi.trans_le hk)

/-- A reader lengthens the copy, and looks at no memory behind it. -/
structure Regular (f : Memory → Copy → Copy) : Prop where
  grows : ∀ m c, c.buf.length ≤ (f m c).buf.length
  confined : ∀ m m' c, AgreeBelow (f m c).buf.length m m' → f m' c = f m c

namespace Regular

variable {f g : Memory → Copy → Copy}

theorem comp (hf : Regular f) (hg : Regular g) : Regular fun m c => g m (f m c) where
  grows := fun m c => (hf.grows m c).trans (hg.grows m _)
  confined := by
    intro m m' c h
    rw [hf.confined m m' c (h.mono (hg.grows m _))]
    exact hg.confined m m' _ h

theorem ite (hf : Regular f) (p : Copy → Prop) [DecidablePred p] :
    Regular fun m c => if p c then f m c else c where
  grows := by
    intro m c
    split
    · exact hf.grows m c
    · exact le_rfl
  confined := by
    intro m m' c h
    split
    · rename_i hp
      rw [if_pos hp] at h
      exact hf.confined m m' c h
    · rfl

theorem read (n : ℕ) : Regular fun m c => c.read m n where
  grows := fun m c => by
    rw [read_length]
    exact Nat.le_add_right _ _
  confined := by
    intro m m' c h
    rw [read_length] at h
    unfold Copy.read
    congr 2
    refine List.map_congr_left fun i hi => ?_
    rw [h _ (Nat.add_lt_add_left (List.mem_range.mp hi) _)]

theorem next_code : Regular next_code where
  grows := fun m => (next_code_tracks m).grows
  confined := fun m m' _ h => (read 1).confined m m' _ h

theorem end_of_head (std : Standard) : Regular fun m c => end_of_head m std c := by
  have hskip := fun code : UInt8 => next_code.ite fun c => c.back 1 = code
  exact next_code.comp (((hskip 0xb5).comp (hskip 0xb2)).ite fun _ => std = .mpeg1)

theorem read_matrices : Regular read_matrices := by
  have hmatrix := fun bit : UInt8 => (read 64).ite fun c => (c.back 1 &&& bit) ≠ 0
  exact (hmatrix 2).comp (hmatrix 1)

end Regular

section Beginning

variable {m m' : Memory}

theorem read_seq_head_local {std : Standard} {c : Copy}
    (h : AgreeBelow (read_seq_head m std c).1.buf.length m m') :
    read_seq_head m' std c = read_seq_head m std c := by
  have hread := (Regular.read 4).comp (Regular.read 4)
  have htail := Regular.read_matrices.comp (Regular.end_of_head std)
  have he := hread.confined m m' c (h.mono (htail.grows m _))
  unfold read_seq_head
  dsimp only at he ⊢
  rw [he]
  exact Prod.ext (htail.confined m m' _ h) rfl

theorem probe_standard_grows (std : Standard) (c : Copy) :
    c.buf.length ≤ (probe_standard m std c).1.buf.length := by
  unfold probe_standard
  dsimp only
  split
  · exact (Regular.next_code.grows m c).trans ((read_seq_head_tracks m std).grows _)
  · exact Regular.next_code.grows m c

theorem probe_standard_local {std : Standard} {c : Copy}
    (h : AgreeBelow (probe_standard m std c).1.buf.length m m') :
    probe_standard m' std c = probe_standard m std c := by
  have hle : (next_code m c).buf.length ≤ (probe_standard m std c).1.buf.length := by
    unfold probe_standard
    dsimp only
    split
    · exact (read_seq_head_tracks m std).grows _
    · exact le_rfl
  have he := Regular.next_code.confined m m' c (h.mono hle)
  unfold probe_standard at h ⊢
  dsimp only at h ⊢
  rw [he]
  split
  · rename_i hb3
    rw [if_pos hb3] at h
    rw [read_seq_head_local h]
  · rfl

theorem probe_local {w : Work} (h : AgreeBelow (w.probe m).copy.buf.length m m') :
    w.probe m' = w.probe m := by
  have he := @probe_standard_local m m' w.stat.std w.copy h
  unfold Work.probe
  rw [he]

theorem probe_grows (w : Work) : w.copy.buf.length ≤ (w.probe m).copy.buf.length :=
  probe_standard_grows w.stat.std w.copy

theorem firstProbe_local {me : MpegMedia} {s : StaticMpegVideo}
    (h : AgreeBelow (firstProbe m me s).copy.buf.length m m') :
    firstProbe m' me s = firstProbe m me s := by
  let w : Work := ⟨⟨(List.range 4).map m, me.rest⟩, s, me.bitrate, false, false⟩
  have hfour : 4 ≤ (firstProbe m me s).copy.buf.length := by
    have hw : w.copy.buf.length = 4 := by simp [w]
    unfold firstProbe
    dsimp only
    split
    · exact hw ▸ probe_grows w
    · exact hw.ge
  have hmem : (List.range 4).map m' = (List.range 4).map m := by
    refine List.map_congr_left fun i hi => ?_
    rw [h i ((List.mem_range.mp hi).trans_le hfour)]
  unfold firstProbe at h ⊢
  dsimp only at h ⊢
  rw [hmem]
  split
  · rename_i hprobe
    rw [if_pos hprobe] at h
    exact probe_local h
  · rfl

variable {cs cs' : Circumstances}

/-- The same with other memory. -/
def Circumstances.withMem (cs : Circumstances) (mem : Memory) : Circumstances :=
  { cs with mem := mem }

theorem begin_packet_local {me : MpegMedia} {s : StaticMpegVideo}
    (h : AgreeBelow (begin_packet cs me s).work.copy.buf.length cs.mem m') :
    begin_packet (cs.withMem m') me s = begin_packet cs me s := by
  unfold begin_packet at h ⊢
  unfold Circumstances.withMem
  dsimp only at h ⊢
  cases hseek : cs.seek with
  | none =>
    rw [hseek] at h
    dsimp only at h ⊢
    rw [firstProbe_local h]
  | some p =>
    obtain ⟨count, bitrate⟩ := p
    rw [hseek] at h
    dsimp only at h ⊢
    by_cases hzero : (firstProbe cs.mem me s).bitrate = 0
    · rw [if_pos hzero] at h
      rw [firstProbe_local h, if_pos hzero, if_pos hzero]
    rw [if_neg hzero] at h
    by_cases hflag : decide (s.std = .toProbe) = true
    · rw [if_pos hflag] at h
      rw [firstProbe_local h, if_pos hflag, if_pos hflag]
    · rw [if_neg hflag] at h
      have hgrows := @probe_grows cs.mem { firstProbe cs.mem me s with
        copy := { (firstProbe cs.mem me s).copy with rest := me.bytes }
        stat := { (firstProbe cs.mem me s).stat with fragmented := false } }
      rw [firstProbe_local (h.mono hgrows), if_neg hzero, if_neg hzero, if_neg hflag,
        if_neg hflag, probe_local h]

end Beginning

/-! ### One call -/

section Call

variable {numBytes : ℕ} {w : Work}

/-- What the start code that a packet begins with leads to. -/
def StartLeads (numBytes : ℕ) (w : Work) : Prop :=
  if w.code = 0xb7 then
    w.copy.mark = none ∧ Fits (next_start_code w.copy).2 ∨
      ∃ c, w.copy.mark = some c ∧ Leads w.stat.std numBytes (c.back 1) c
  else Leads w.stat.std numBytes w.code w.copy

/-- The call cannot open the file, or the slice it has begun fits into `data_tmp`, or the
headers it begins with lead to slices or to the end, inside `data_tmp`. -/
def Untroubled (cs : Circumstances) (me : MpegMedia) : Prop :=
  (me.stat = none ∧ cs.mediaopen < 0) ∨
    let b := begin_packet cs me.opened (me.opened.stat.getD {})
    if b.work.stat.fragmented then Fits (b.work.copy.slice me.opened.numBytes).1
    else StartLeads me.opened.numBytes b.startCode

/-- A packet or an error is returned. -/
def Returned (r : MpegEnd) : Prop := (∃ p me, r = .packet p me) ∨ ∃ res me, r = .error res me

/-- The call returns, with a packet or an error. -/
def Ends (cs : Circumstances) (me : MpegMedia) : Prop :=
  ∃ fuel r, read_MPEG_video cs fuel me = some r ∧ Returned r

theorem settle_returned {r : MpegEnd} (hr : Returned r) :
    Returned (settle w r) ↔ Fits w.copy := by
  unfold settle
  by_cases hfit : w.size ≤ dataTmpSize
  · rw [if_pos hfit]
    exact ⟨fun _ => hfit, fun _ => hr⟩
  · rw [if_neg hfit]
    refine ⟨?_, fun h => absurd h hfit⟩
    rintro (⟨p, me', h⟩ | ⟨res, me', h⟩) <;> cases h

theorem endOfFile_returned (me : MpegMedia) : Returned (endOfFile me w) ↔ Fits w.copy :=
  settle_returned (Or.inr ⟨_, _, rfl⟩)

theorem finish_returned (me : MpegMedia) (x : Aux) : Returned (finish me w x) ↔ Fits w.copy :=
  settle_returned (Or.inl ⟨_, _, rfl⟩)

theorem restOfSlice_returned (me : MpegMedia) :
    Returned (restOfSlice me w) ↔ Fits (w.copy.slice me.numBytes).1 := by
  unfold restOfSlice Work.slice
  rcases hs : w.copy.slice me.numBytes with ⟨c, _ | ⟨x, code⟩⟩
  · exact endOfFile_returned me
  · exact finish_returned me x

/-- The start code of the packet, after the end of a sequence the one behind it. -/
theorem startLeads_iff : StartLeads numBytes w ↔
    (∃ w', w.afterSeqEnd = .errEof w' ∧ Fits w'.copy) ∨
      ∃ w', w.afterSeqEnd = .goes w' ∧ Leads w'.stat.std numBytes w'.code w'.copy := by
  unfold StartLeads Work.afterSeqEnd
  by_cases hend : w.code = 0xb7
  · rw [if_pos hend, if_pos hend]
    cases hm : w.copy.mark with
    | none =>
      rw [nextCode_none hm]
      simp
    | some c =>
      rw [nextCode_mark hm]
      simp [Work.code]
  · rw [if_neg hend, if_neg hend]
    simp

theorem afterSeqEnd_goes {w' : Work} (h : w.afterSeqEnd = .goes w') :
    w'.recallme = w.recallme ∧ w.copy.buf.length ≤ w'.copy.buf.length := by
  unfold Work.afterSeqEnd at h
  split at h
  · cases hm : w.copy.mark with
    | none =>
      rw [nextCode_none hm] at h
      cases h
    | some c =>
      rw [nextCode_mark hm] at h
      cases h
      exact ⟨rfl, (mark_copies hm).1.grows⟩
  · cases h
    exact ⟨rfl, le_rfl⟩

/-- A loop over the headers that is left goes on behind a header only if the packet ends. -/
theorem headers_left {mem : Memory} {fuel : ℕ} {w' : Work}
    (h : Work.headers mem numBytes fuel w = some (.goes w')) :
    w'.recallme = true → ¬ isHeader w'.code := by
  induction fuel generalizing w with
  | zero => cases h
  | succ fuel ih =>
    unfold Work.headers at h
    split at h
    · split at h
      · exact ih h
      · rename_i hgoes
        exact absurd h (hgoes _)
    · rename_i hloop
      cases h
      exact fun hrec hhead => hloop ⟨hhead, hrec⟩

theorem headersAndSlices_ends {cs : Circumstances} {me : MpegMedia}
    (hrec : w.recallme = true) (hl : StartLeads me.numBytes w) :
    ∃ fuel r, headersAndSlices cs fuel me w = some r ∧ Returned r := by
  unfold headersAndSlices
  rcases startLeads_iff.mp hl with ⟨w₁, hafter, hfit⟩ | ⟨w₁, hafter, hl₁⟩
  · rw [hafter]
    exact ⟨0, _, rfl, (endOfFile_returned me).mpr hfit⟩
  rw [hafter]
  dsimp only
  have hrec₁ : w₁.recallme = true := (afterSeqEnd_goes hafter).1.trans hrec
  obtain ⟨r, hr, hsettled, hrest⟩ := @headers_end cs.mem w₁.stat.std me.numBytes w₁ _
    ⟨rfl, Or.inl ⟨hrec₁, hl₁⟩⟩ (le_refl (w₁.copy.rest.length + 2))
  refine ⟨w₁.copy.rest.length + 2, ?_⟩
  rw [hr]
  cases r with
  | errEof w₂ => exact ⟨_, rfl, (endOfFile_returned me).mpr hsettled⟩
  | goes w₂ =>
    have hle := hrest w₂ rfl
    obtain ⟨r, hs, hfit⟩ : ∃ r, Work.slices me.numBytes (w₁.copy.rest.length + 2)
        (w₂, cs.aux) = some r ∧ SlicesSettled r := by
      rcases hsettled with ⟨hfalse, hfit⟩ | ⟨htrue, -, hfit⟩
      · unfold Work.slices
        rw [if_neg fun hc => by rw [hfalse] at hc; exact absurd hc.2 (by decide)]
        exact ⟨_, rfl, hfit⟩
      · exact slices_end htrue hfit (by omega)
    rw [show (some (Part.goes w₂)) = some (.goes w₂) from rfl]
    dsimp only
    rw [hs]
    cases r with
    | errEof w₃ => exact ⟨_, rfl, (endOfFile_returned me).mpr hfit⟩
    | goes r => exact ⟨_, rfl, (finish_returned me r.2).mpr hfit⟩

/-- With blank memory, a call that ends has led from its start code to slices or to the end. -/
theorem of_headersAndSlices {cs : Circumstances} {me : MpegMedia} {n fuel : ℕ} {r : MpegEnd}
    (hb : BlankFrom cs.mem n) (hn : n ≤ w.copy.buf.length) (hrec : w.recallme = true)
    (h : headersAndSlices cs fuel me w = some r) (hr : Returned r) :
    StartLeads me.numBytes w := by
  unfold headersAndSlices at h
  refine startLeads_iff.mpr ?_
  cases hafter : w.afterSeqEnd with
  | errEof w₁ =>
    rw [hafter] at h
    cases h
    exact Or.inl ⟨w₁, rfl, (endOfFile_returned me).mp hr⟩
  | goes w₁ =>
    rw [hafter] at h
    dsimp only at h
    obtain ⟨hrec₁, hgrows⟩ := afterSeqEnd_goes hafter
    refine Or.inr ⟨w₁, rfl, ?_⟩
    have hleads : ∀ r, Work.headers cs.mem me.numBytes fuel w₁ = some r →
        Settled me.numBytes r → Leads w₁.stat.std me.numBytes w₁.code w₁.copy := by
      intro r hh hsettled
      obtain ⟨-, ⟨-, hl⟩ | ⟨hfalse, -⟩⟩ :=
        of_headers hb (hn.trans hgrows) rfl (hrec₁.trans hrec) hh hsettled
      · exact hl
      · rw [hrec₁, hrec] at hfalse
        cases hfalse
    cases hh : Work.headers cs.mem me.numBytes fuel w₁ with
    | none =>
      rw [hh] at h
      cases h
    | some r₁ =>
      rw [hh] at h
      refine hleads r₁ hh ?_
      cases r₁ with
      | errEof w₂ =>
        cases h
        have hfit : Fits w₂.copy := (endOfFile_returned me).mp hr
        exact hfit
      | goes w₂ =>
        dsimp only at h
        have hslices : ∃ r, Work.slices me.numBytes fuel (w₂, cs.aux) = some r ∧
            SlicesSettled r := by
          cases hs : Work.slices me.numBytes fuel (w₂, cs.aux) with
          | none =>
            rw [hs] at h
            cases h
          | some r₂ =>
            rw [hs] at h
            refine ⟨r₂, rfl, ?_⟩
            cases r₂ with
            | errEof w₃ =>
              rw [← Option.some.inj h] at hr
              exact (@endOfFile_returned w₃ me).mp hr
            | goes p =>
              rw [← Option.some.inj h] at hr
              have hfit := (finish_returned me p.2).mp hr
              exact hfit
        obtain ⟨r₂, hs, hfit⟩ := hslices
        cases htrue : w₂.recallme with
        | true => exact Or.inr ⟨htrue, headers_left hh htrue, of_slices htrue hs hfit⟩
        | false =>
          refine Or.inl ⟨htrue, ?_⟩
          cases fuel with
          | zero => cases hs
          | succ fuel =>
            unfold Work.slices at hs
            rw [if_neg fun hc => by rw [htrue] at hc; exact absurd hc.2 (by decide)] at hs
            cases hs
            exact hfit

theorem startCode_recallme (b : Begin) : b.startCode.recallme = true := by
  unfold Begin.startCode
  dsimp only
  split <;> rfl

theorem startCode_grows (b : Begin) :
    b.work.copy.buf.length ≤ b.startCode.copy.buf.length := by
  unfold Begin.startCode
  dsimp only
  split
  · exact le_rfl
  · rw [List.length_append]
    exact Nat.le_add_right _ _

theorem ends_of_untroubled {cs : Circumstances} {me : MpegMedia} (h : Untroubled cs me) :
    Ends cs me := by
  by_cases hclosed : me.stat = none ∧ cs.mediaopen < 0
  · exact ⟨0, _, if_pos hclosed, Or.inr ⟨_, _, rfl⟩⟩
  replace h := h.resolve_left hclosed
  unfold Ends read_MPEG_video
  simp only [if_neg hclosed]
  dsimp only at h
  by_cases hslice : (begin_packet cs me.opened (me.opened.stat.getD {})).work.stat.fragmented = true
  · rw [if_pos hslice] at h
    simp only [if_pos hslice]
    exact ⟨0, _, rfl, (restOfSlice_returned me.opened).mpr h⟩
  · rw [if_neg hslice] at h
    simp only [if_neg hslice]
    exact headersAndSlices_ends (startCode_recallme _) h

/-- With blank memory behind the start code of the packet, only an untroubled call ends. -/
theorem untroubled_of_ends {cs : Circumstances} {me : MpegMedia}
    (hb : BlankFrom cs.mem
      (begin_packet cs me.opened (me.opened.stat.getD {})).work.copy.buf.length)
    (h : Ends cs me) : Untroubled cs me := by
  by_cases hclosed : me.stat = none ∧ cs.mediaopen < 0
  · exact Or.inl hclosed
  refine Or.inr ?_
  obtain ⟨fuel, r, h, hr⟩ := h
  unfold read_MPEG_video at h
  rw [if_neg hclosed] at h
  dsimp only at h ⊢
  split at h
  · rename_i hslice
    rw [if_pos hslice]
    cases h
    exact (restOfSlice_returned me.opened).mp hr
  · rename_i hslice
    rw [if_neg hslice]
    exact of_headersAndSlices hb (startCode_grows _) (startCode_recallme _) h hr

/-- Whether a call is untroubled does not depend on memory it does not write to before the
headers. -/
theorem untroubled_congr {cs cs' : Circumstances} {me : MpegMedia}
    (hopen : cs'.mediaopen = cs.mediaopen)
    (h : begin_packet cs' me.opened (me.opened.stat.getD {}) =
      begin_packet cs me.opened (me.opened.stat.getD {})) :
    Untroubled cs' me ↔ Untroubled cs me := by
  unfold Untroubled
  rw [hopen, h]

/-- `read_MPEG_video` returns, whatever is in the memory that `malloc` hands out, exactly if the
headers it meets lead somewhere. -/
theorem read_ends_iff (mediaopen : ℤ) (seek : Option (ℕ × ℕ)) (me : MpegMedia) :
    (∀ mem aux, Ends ⟨mediaopen, mem, aux, seek⟩ me) ↔
      ∀ mem aux, Untroubled ⟨mediaopen, mem, aux, seek⟩ me := by
  constructor
  · intro h mem aux
    let cs : Circumstances := ⟨mediaopen, mem, aux, seek⟩
    let n := (begin_packet cs me.opened (me.opened.stat.getD {})).work.copy.buf.length
    -- what the packet begins with is kept, and nothing of use lies behind it
    let blank : Memory := fun i => if i < n then mem i else 0xb0
    have hsame : begin_packet (cs.withMem blank) me.opened (me.opened.stat.getD {}) =
        begin_packet cs me.opened (me.opened.stat.getD {}) :=
      begin_packet_local fun i hi => (if_pos hi).symm
    have hblank : BlankFrom (cs.withMem blank).mem
        (begin_packet (cs.withMem blank) me.opened (me.opened.stat.getD {})).work.copy.buf.length := by
      rw [hsame]
      exact fun i hi => if_neg (Nat.not_lt.mpr hi)
    have hends : Ends (cs.withMem blank) me := h blank aux
    exact (@untroubled_congr cs (cs.withMem blank) me rfl hsame).mp
      (untroubled_of_ends hblank hends)
  · exact fun h mem aux => ends_of_untroubled (h mem aux)

/-! ### A pack header -/

theorem headers_stuck {mem : Memory} (hhead : isHeader w.code) (hrec : w.recallme = true)
    (hknown : w.code ≠ 0xb3 ∧ w.code ≠ 0xb8 ∧ w.code ≠ 0x00 ∧ w.code ≠ 0xb7)
    (huser : ¬ (w.code = 0xb2 ∨ w.code = 0xb5)) (fuel : ℕ) :
    Work.headers mem numBytes fuel w = none := by
  have hstays : w.header mem numBytes = w := by
    unfold Work.header
    rw [(seqHead_part mem w.stat.std numBytes).skips w hknown.1,
      (gopHead_part mem w.stat.std numBytes).skips w hknown.2.1,
      (pictureHead_part mem w.stat.std numBytes).skips w hknown.2.2.1]
    exact if_neg hknown.2.2.2
  induction fuel with
  | zero => rfl
  | succ fuel ih =>
    unfold Work.headers
    rw [if_pos ⟨hhead, hrec⟩, hstays]
    cases fuel with
    | zero => rfl
    | succ fuel =>
      unfold Work.userData
      rw [if_neg huser]
      exact ih

end Call

/-- A program stream begins with a pack header. -/
def programStream : MpegMedia where
  bytes := [0x00, 0x00, 0x01, 0xba, 0x21, 0x00, 0x01, 0x00, 0x01, 0x80, 0x27, 0x11]
  rest := []
  stat := none
  bytePerPckt := 0
  bitrate := 0
  live := false

def programStreamRead : Circumstances := ⟨0, fun _ => 0, ⟨0, 0, 0⟩, none⟩

theorem program_stream_hangs (fuel : ℕ) :
    read_MPEG_video programStreamRead fuel programStream = none := by
  let w := (begin_packet programStreamRead programStream.opened {}).startCode
  have hgoes : w.afterSeqEnd = .goes w := if_neg (by decide)
  have hstuck : w.headers programStreamRead.mem programStream.opened.numBytes fuel = none :=
    headers_stuck (by decide) (by decide) (by decide) (by decide) fuel
  unfold read_MPEG_video
  rw [if_neg (by decide)]
  dsimp only
  rw [if_neg (by decide)]
  unfold headersAndSlices
  rw [show (begin_packet programStreamRead programStream.opened
    (programStream.opened.stat.getD {})).startCode = w from rfl, hgoes]
  dsimp only
  rw [hstuck]

theorem program_stream_never_ends : ¬ Ends programStreamRead programStream := by
  rintro ⟨fuel, r, hr, -⟩
  rw [program_stream_hangs] at hr
  cases hr

end Fenice.Mediainfo.Mpeg
