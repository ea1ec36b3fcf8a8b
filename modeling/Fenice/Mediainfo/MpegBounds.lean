import Fenice.H264.Bounds
import Fenice.Mediainfo.MpegCalls

/-!
# Where read_MPEG_video writes

Every reader appends to `data_tmp` without knowing its size. A call that stands still at a code it
does not know writes nothing more, but one that a cut off header leaves with zeros of the memory
reads picture headers from behind the end of the file for ever.
-/

namespace Fenice.Mediainfo.Mpeg

/-- `OMSSLOT_DATASIZE`. -/
def omsslotDataSize : ℕ := 65000

/-! ### The moments of a call -/

/-- Where a part of the call has come to. -/
def Part.work : Part Work → Work
  | .goes w => w
  | .errEof w => w

namespace Work

/-- The branch of the loop over the headers that the code asks for. -/
def turn (mem : Memory) (numBytes : ℕ) (w : Work) : Part Work :=
  if w.code = 0xb3 then .goes (w.seqHead mem)
  else if w.code = 0xb8 then .goes (w.gopHead mem)
  else if w.code = 0x00 then .goes (w.pictureHead mem numBytes)
  else if w.code = 0xb2 ∨ w.code = 0xb5 then w.nextCode
  else .goes w.seqEnd

end Work

/-- Where the loop over the headers comes by from `w₀`, one branch after another. -/
inductive InHeaders (mem : Memory) (numBytes : ℕ) (w₀ : Work) : Part Work → Prop
  | start : InHeaders mem numBytes w₀ (.goes w₀)
  | turn {w : Work} (h : InHeaders mem numBytes w₀ (.goes w))
      (hloop : isHeader w.code ∧ w.recallme = true) :
      InHeaders mem numBytes w₀ (w.turn mem numBytes)

/-- A slice without `buf_aux`. -/
def Work.sliceOnly (numBytes : ℕ) (w : Work) : Part Work :=
  match w.slice numBytes with
  | .goes r => .goes r.1
  | .errEof w => .errEof w

/-- Where the loop over the slices comes by. -/
inductive InSlices (numBytes : ℕ) (w₀ : Work) : Part Work → Prop
  | start : InSlices numBytes w₀ (.goes w₀)
  | slice {w : Work} (h : InSlices numBytes w₀ (.goes w))
      (hloop : w.size < numBytes ∧ w.recallme = true) :
      InSlices numBytes w₀ (w.sliceOnly numBytes)

/-- Where a packet that begins with a start code comes by. -/
inductive InPacket (mem : Memory) (numBytes : ℕ) (w₀ : Work) : Part Work → Prop
  | startCode : InPacket mem numBytes w₀ (.goes w₀)
  | seqEnd : InPacket mem numBytes w₀ w₀.afterSeqEnd
  | headers {w : Work} {p : Part Work} (hs : w₀.afterSeqEnd = .goes w)
      (h : InHeaders mem numBytes w p) : InPacket mem numBytes w₀ p
  | slices {w w' : Work} {p : Part Work} (hs : w₀.afterSeqEnd = .goes w)
      (h : InHeaders mem numBytes w (.goes w'))
      (hleft : ¬ (isHeader w'.code ∧ w'.recallme = true)) (hp : InSlices numBytes w' p) :
      InPacket mem numBytes w₀ p

/-- Where a call comes by. -/
inductive InCall (cs : Circumstances) (me : MpegMedia) : Part Work → Prop
  | begins (hopen : ¬ (me.stat = none ∧ cs.mediaopen < 0)) :
      InCall cs me (.goes (begin_packet cs me.opened (me.opened.stat.getD {})).work)
  | restOfSlice (hopen : ¬ (me.stat = none ∧ cs.mediaopen < 0))
      (hf : (begin_packet cs me.opened (me.opened.stat.getD {})).work.stat.fragmented = true) :
      InCall cs me ((begin_packet cs me.opened (me.opened.stat.getD {})).work.sliceOnly
        me.opened.numBytes)
  | packet {p : Part Work} (hopen : ¬ (me.stat = none ∧ cs.mediaopen < 0))
      (hf : ¬ (begin_packet cs me.opened (me.opened.stat.getD {})).work.stat.fragmented = true)
      (h : InPacket cs.mem me.opened.numBytes
        (begin_packet cs me.opened (me.opened.stat.getD {})).startCode p) : InCall cs me p

/-- The call never writes behind `data_tmp`, nor returns more than a slot of the buffer holds. -/
structure StaysInside (cs : Circumstances) (me : MpegMedia) : Prop where
  writes : ∀ p, InCall cs me p → p.work.size ≤ dataTmpSize
  returns : ∀ fuel p me', read_MPEG_video cs fuel me = some (.packet p me') →
    p.data.length ≤ omsslotDataSize

/-! ### The files that keep it inside -/

/-- A code that the loop over the headers has no reader for. -/
def Idle (code : UInt8) : Prop :=
  isHeader code ∧ code ≠ 0xb3 ∧ code ≠ 0xb8 ∧ code ≠ 0x00 ∧ code ≠ 0xb2 ∧ code ≠ 0xb5

instance (code : UInt8) : Decidable (Idle code) := by
  unfold Idle
  infer_instance

/-- The headers of the file lead from `code` to a slice, to user data or an extension that the
file ends in, or to a code without a reader; those on the way are complete, and all that is copied
on the way fits into `data_tmp`. -/
inductive Stays (std : Standard) (numBytes : ℕ) : UInt8 → Copy → Prop
  | slice {code : UInt8} {c : Copy} (h : ¬ isHeader code) (hfit : PacketFits numBytes c) :
      Stays std numBytes code c
  | idle {code : UInt8} {c : Copy} (h : Idle code) (hfit : Fits c) : Stays std numBytes code c
  | fileEnd {code : UInt8} {c : Copy} (h : code = 0xb2 ∨ code = 0xb5) (hm : c.mark = none)
      (hfit : Fits (next_start_code c).2) : Stays std numBytes code c
  | userData {code : UInt8} {c c' : Copy} (h : code = 0xb2 ∨ code = 0xb5) (hm : c.mark = some c')
      (hl : Stays std numBytes (c'.back 1) c') : Stays std numBytes code c
  | head {code : UInt8} {c c' : Copy} (h : code = 0xb3 ∨ code = 0xb8 ∨ code = 0x00)
      (hm : headOf std numBytes code c = some c') (hl : Stays std numBytes (c'.back 1) c') :
      Stays std numBytes code c

/-- The same from the start code that a packet begins with. -/
def StartStays (numBytes : ℕ) (w : Work) : Prop :=
  if w.code = 0xb7 then
    w.copy.mark = none ∧ Fits (next_start_code w.copy).2 ∨
      ∃ c, w.copy.mark = some c ∧ Stays w.stat.std numBytes (c.back 1) c
  else Stays w.stat.std numBytes w.code w.copy

/-- The call cannot open the file, or the slice it has begun fits into `data_tmp`, or so do the
headers and the slices it begins with. -/
def Roomy (cs : Circumstances) (me : MpegMedia) : Prop :=
  (me.stat = none ∧ cs.mediaopen < 0) ∨
    let b := begin_packet cs me.opened (me.opened.stat.getD {})
    if b.work.stat.fragmented then Fits (b.work.copy.slice me.opened.numBytes).1
    else StartStays me.opened.numBytes b.startCode

section Packet

variable {mem : Memory} {std : Standard} {numBytes : ℕ} {code : UInt8} {c : Copy} {w w₀ : Work}

theorem code_cases (code : UInt8) : ¬ isHeader code ∨ Idle code ∨ (code = 0xb2 ∨ code = 0xb5) ∨
    (code = 0xb3 ∨ code = 0xb8 ∨ code = 0x00) := by
  by_cases hhead : isHeader code
  · by_cases huser : code = 0xb2 ∨ code = 0xb5
    · exact .inr (.inr (.inl huser))
    · by_cases hread : code = 0xb3 ∨ code = 0xb8 ∨ code = 0x00
      · exact .inr (.inr (.inr hread))
      · push Not at huser hread
        exact .inr (.inl ⟨hhead, hread.1, hread.2.1, hread.2.2, huser⟩)
  · exact .inl hhead

/-! ### One branch -/

theorem turn_head (hcode : w.code = 0xb3 ∨ w.code = 0xb8 ∨ w.code = 0x00)
    (hstd : w.stat.std = std) : ∃ w' r, w.turn mem numBytes = .goes w' ∧
      Tracks mem r (headOf std numBytes w.code) ∧ w'.copy = r w.copy ∧
      w'.code = (r w.copy).back 1 ∧ w'.stat.std = std ∧ w'.recallme = w.recallme := by
  rcases hcode with hcode | hcode | hcode
  · obtain ⟨r, hr⟩ := (seqHead_part mem std numBytes).reads w hcode hstd
    exact ⟨_, r, by simp [Work.turn, hcode], hcode ▸ hr⟩
  · obtain ⟨r, hr⟩ := (gopHead_part mem std numBytes).reads w hcode hstd
    exact ⟨_, r, by simp [Work.turn, hcode], hcode ▸ hr⟩
  · obtain ⟨r, hr⟩ := (pictureHead_part mem std numBytes).reads w hcode hstd
    exact ⟨_, r, by simp [Work.turn, hcode], hcode ▸ hr⟩

theorem turn_userData (hcode : w.code = 0xb2 ∨ w.code = 0xb5) :
    w.turn mem numBytes = w.nextCode := by
  rcases hcode with hcode | hcode
  · simp [Work.turn, hcode]
  · simp [Work.turn, hcode]

theorem turn_idle (hcode : Idle w.code) : w.turn mem numBytes = .goes w.seqEnd := by
  simp [Work.turn, hcode.2]

theorem seqEnd_keeps (w : Work) : w.seqEnd.copy = w.copy ∧ w.seqEnd.code = w.code ∧
    w.seqEnd.stat.std = w.stat.std ∧ (w.seqEnd.recallme = w.recallme ∨ w.seqEnd.recallme = false) := by
  unfold Work.seqEnd
  split
  · exact ⟨rfl, rfl, rfl, .inr rfl⟩
  · exact ⟨rfl, rfl, rfl, .inl rfl⟩

/-! ### Inside -/

theorem slice_grows {c' : Copy} {o : Option (Aux × UInt8)} (h : c.slice numBytes = (c', o)) :
    c.buf.length ≤ c'.buf.length := by
  unfold Copy.slice at h
  split at h
  · split at h
    all_goals
      cases h
      simp only [List.length_append]
      omega
  · cases h
    exact le_rfl

theorem SlicesFit.fits (h : SlicesFit numBytes c) : Fits c := by
  induction h with
  | stop h hstop hfit => exact (slice_grows h).trans hfit
  | more h hmore hlt hfit ih => exact (slice_grows h).trans ih
  | fileEnd h hfit => exact (slice_grows h).trans hfit

theorem PacketFits.fits (h : PacketFits numBytes c) : Fits c := by
  unfold PacketFits at h
  split at h
  · exact h.fits
  · exact h

theorem next_start_code_grows (c : Copy) : c.buf.length ≤ (next_start_code c).2.buf.length := by
  by_cases hn : (next_start_code c).1 < 0
  · exact (start_code_missing hn).2
  · exact (start_code_found hn).1.grows

theorem Stays.fits (h : Stays std numBytes code c) : Fits c := by
  induction h with
  | slice h hfit => exact hfit.fits
  | idle h hfit => exact hfit
  | fileEnd h hm hfit => exact (next_start_code_grows _).trans hfit
  | userData h hm hl ih => exact (mark_copies hm).1.grows.trans ih
  | head h hm hl ih => exact (headOf_consumes hm).1.grows.trans ih

theorem stays_slice (hcode : ¬ isHeader code) :
    Stays std numBytes code c ↔ PacketFits numBytes c := by
  constructor
  · intro h
    cases h with
    | slice h hfit => exact hfit
    | idle h hfit => exact absurd h.1 hcode
    | fileEnd h => rcases h with rfl | rfl <;> exact absurd (by decide) hcode
    | userData h => rcases h with rfl | rfl <;> exact absurd (by decide) hcode
    | head h => rcases h with rfl | rfl | rfl <;> exact absurd (by decide) hcode
  · exact .slice hcode

theorem stays_userData (hcode : code = 0xb2 ∨ code = 0xb5) :
    Stays std numBytes code c ↔ (c.mark = none ∧ Fits (next_start_code c).2) ∨
      ∃ c', c.mark = some c' ∧ Stays std numBytes (c'.back 1) c' := by
  constructor
  · intro h
    cases h with
    | slice h => rcases hcode with rfl | rfl <;> exact absurd (by decide) h
    | idle h => rcases hcode with rfl | rfl <;> simp [Idle] at h
    | fileEnd h hm hfit => exact .inl ⟨hm, hfit⟩
    | userData h hm hl => exact .inr ⟨_, hm, hl⟩
    | head h => rcases hcode with rfl | rfl <;> simp at h
  · rintro (⟨hm, hfit⟩ | ⟨c', hm, hl⟩)
    · exact .fileEnd hcode hm hfit
    · exact .userData hcode hm hl

theorem stays_head (hcode : code = 0xb3 ∨ code = 0xb8 ∨ code = 0x00) :
    Stays std numBytes code c ↔
      ∃ c', headOf std numBytes code c = some c' ∧ Stays std numBytes (c'.back 1) c' := by
  constructor
  · intro h
    cases h with
    | slice h => rcases hcode with rfl | rfl | rfl <;> exact absurd (by decide) h
    | idle h => rcases hcode with rfl | rfl | rfl <;> simp [Idle] at h
    | fileEnd h => rcases hcode with rfl | rfl | rfl <;> simp at h
    | userData h => rcases hcode with rfl | rfl | rfl <;> simp at h
    | head h hm hl => exact ⟨_, hm, hl⟩
  · rintro ⟨c', hm, hl⟩
    exact .head hcode hm hl

/-- The call is inside `data_tmp`, and what it has before it keeps it there. -/
def Kept (std : Standard) (numBytes : ℕ) : Part Work → Prop
  | .errEof w => Fits w.copy
  | .goes w => w.stat.std = std ∧ (w.recallme = true ∧ Stays std numBytes w.code w.copy ∨
      w.recallme = false ∧ Fits w.copy)

theorem Kept.fits {p : Part Work} (h : Kept std numBytes p) : Fits p.work.copy := by
  cases p with
  | errEof w => exact h
  | goes w =>
    obtain ⟨-, ⟨-, hstays⟩ | ⟨-, hfit⟩⟩ := h
    · exact hstays.fits
    · exact hfit

theorem nextCode_kept (hstd : w.stat.std = std) (hrec : w.recallme = true)
    (h : (w.copy.mark = none ∧ Fits (next_start_code w.copy).2) ∨
      ∃ c', w.copy.mark = some c' ∧ Stays std numBytes (c'.back 1) c') :
    Kept std numBytes w.nextCode := by
  rcases h with ⟨hm, hfit⟩ | ⟨c', hm, hl⟩
  · rw [nextCode_none hm]
    exact hfit
  · rw [nextCode_mark hm]
    exact ⟨hstd, .inl ⟨hrec, hl⟩⟩

theorem turn_kept (h : Kept std numBytes (.goes w))
    (hloop : isHeader w.code ∧ w.recallme = true) : Kept std numBytes (w.turn mem numBytes) := by
  obtain ⟨hstd, ⟨hrec, hstays⟩ | ⟨hfalse, -⟩⟩ := h
  case inr =>
    rw [hloop.2] at hfalse
    cases hfalse
  rcases code_cases w.code with hcode | hcode | hcode | hcode
  · exact absurd hloop.1 hcode
  · obtain ⟨hcopy, hc, hs, hr⟩ := seqEnd_keeps w
    rw [turn_idle hcode]
    refine ⟨hs.trans hstd, ?_⟩
    rw [hcopy, hc]
    rcases hr with hr | hr
    · exact .inl ⟨hr.trans hrec, hstays⟩
    · exact .inr ⟨hr, hstays.fits⟩
  · rw [turn_userData hcode]
    exact nextCode_kept hstd hrec ((stays_userData hcode).mp hstays)
  · obtain ⟨c', hm, hl⟩ := (stays_head hcode).mp hstays
    obtain ⟨w', r, hturn, ht, hcopy, hc, hs, hr⟩ := @turn_head mem std numBytes w hcode hstd
    rw [hturn]
    refine ⟨hs, .inl ⟨hr.trans hrec, ?_⟩⟩
    rw [hc, hcopy, ht.complete _ _ hm]
    exact hl

theorem InHeaders.kept {p : Part Work} (hp : InHeaders mem numBytes w p)
    (h : Kept std numBytes (.goes w)) : Kept std numBytes p := by
  induction hp with
  | start => exact h
  | turn hw hloop ih => exact turn_kept ih hloop

def SlicesKept (numBytes : ℕ) : Part Work → Prop
  | .errEof w => Fits w.copy
  | .goes w => w.recallme = true ∧ PacketFits numBytes w.copy ∨
      w.recallme = false ∧ Fits w.copy

theorem SlicesKept.fits {p : Part Work} (h : SlicesKept numBytes p) : Fits p.work.copy := by
  cases p with
  | errEof w => exact h
  | goes w =>
    rcases h with ⟨-, hfit⟩ | ⟨-, hfit⟩
    · exact hfit.fits
    · exact hfit

theorem sliceOnly_none {c' : Copy} (h : w.copy.slice numBytes = (c', none)) :
    w.sliceOnly numBytes = .errEof { w with copy := c' } := by
  simp [Work.sliceOnly, Work.slice, h]

theorem sliceOnly_some {c' : Copy} {x : Aux} {code : UInt8}
    (h : w.copy.slice numBytes = (c', some (x, code))) : w.sliceOnly numBytes = .goes { w with
      copy := c'
      recallme := !decide (x.isStart ∧ isHeader code)
      stat := { w.stat with finalByte := code, fragmented := !decide x.isStart } } := by
  simp [Work.sliceOnly, Work.slice, h]

theorem sliceOnly_kept (h : SlicesKept numBytes (.goes w))
    (hloop : w.size < numBytes ∧ w.recallme = true) : SlicesKept numBytes (w.sliceOnly numBytes) := by
  rcases h with ⟨-, hfit⟩ | ⟨hfalse, -⟩
  case inr =>
    rw [hloop.2] at hfalse
    cases hfalse
  unfold PacketFits at hfit
  rw [if_pos (show w.copy.buf.length < numBytes from hloop.1)] at hfit
  cases hfit with
  | @stop _ c' x code h hstop hfit =>
    rw [sliceOnly_some h]
    rcases hstop with hhead | hfull
    · exact .inr ⟨by simp [hhead], hfit⟩
    · by_cases hhead : x.isStart ∧ isHeader code
      · exact .inr ⟨by simp [hhead], hfit⟩
      · refine .inl ⟨by simp only [hhead, decide_false, Bool.not_false], ?_⟩
        unfold PacketFits
        rw [if_neg (Nat.not_lt.mpr hfull)]
        exact hfit
  | more h hmore hlt hfit =>
    rw [sliceOnly_some h]
    refine .inl ⟨by simp only [hmore, decide_false, Bool.not_false], ?_⟩
    unfold PacketFits
    rw [if_pos hlt]
    exact hfit
  | fileEnd h hfit =>
    rw [sliceOnly_none h]
    exact hfit

theorem InSlices.kept {p : Part Work} (hp : InSlices numBytes w p)
    (h : SlicesKept numBytes (.goes w)) : SlicesKept numBytes p := by
  induction hp with
  | start => exact h
  | slice hw hloop ih => exact sliceOnly_kept ih hloop

theorem afterSeqEnd_kept (hrec : w.recallme = true) (h : StartStays numBytes w) :
    Kept w.stat.std numBytes w.afterSeqEnd := by
  unfold StartStays at h
  unfold Work.afterSeqEnd
  split at h
  · rename_i hcode
    rw [if_pos hcode]
    exact nextCode_kept rfl hrec h
  · rename_i hcode
    rw [if_neg hcode]
    exact ⟨rfl, .inl ⟨hrec, h⟩⟩

theorem StartStays.fits (h : StartStays numBytes w) : Fits w.copy := by
  unfold StartStays at h
  split at h
  · rcases h with ⟨-, hfit⟩ | ⟨c', hm, hl⟩
    · exact (next_start_code_grows _).trans hfit
    · exact (mark_copies hm).1.grows.trans hl.fits
  · exact h.fits

theorem InPacket.fits {p : Part Work} (hp : InPacket mem numBytes w p) (hrec : w.recallme = true)
    (h : StartStays numBytes w) : Fits p.work.copy := by
  have hkept := afterSeqEnd_kept hrec h
  cases hp with
  | startCode => exact h.fits
  | seqEnd => exact hkept.fits
  | headers hs hh =>
    rw [hs] at hkept
    exact (hh.kept hkept).fits
  | slices hs hh hleft hslices =>
    rw [hs] at hkept
    refine (hslices.kept ?_).fits
    obtain ⟨-, ⟨hrec', hstays⟩ | ⟨hfalse, hfit⟩⟩ := hh.kept hkept
    · have hcode := fun hhead => hleft ⟨hhead, hrec'⟩
      exact .inl ⟨hrec', (stays_slice hcode).mp hstays⟩
    · exact .inr ⟨hfalse, hfit⟩

/-! ### And only then -/

theorem InHeaders.trans {p : Part Work} (h : InHeaders mem numBytes w₀ (.goes w))
    (hp : InHeaders mem numBytes w p) : InHeaders mem numBytes w₀ p := by
  induction hp with
  | start => exact h
  | turn hw hloop ih => exact .turn ih hloop

theorem InSlices.trans {p : Part Work} (h : InSlices numBytes w₀ (.goes w))
    (hp : InSlices numBytes w p) : InSlices numBytes w₀ p := by
  induction hp with
  | start => exact h
  | slice hw hloop ih => exact .slice ih hloop

theorem packetFits_of (hrec : w.recallme = true)
    (h : ∀ p, InSlices numBytes w p → Fits p.work.copy) : PacketFits numBytes w.copy := by
  induction hn : w.copy.rest.length using Nat.strong_induction_on generalizing w with
  | _ n ih =>
    unfold PacketFits
    split
    case isFalse => exact h _ .start
    rename_i hlt
    have hnext : InSlices numBytes w (w.sliceOnly numBytes) := .slice .start ⟨hlt, hrec⟩
    rcases hs : w.copy.slice numBytes with ⟨c', _ | ⟨x, code⟩⟩
    · refine .fileEnd hs ?_
      rw [sliceOnly_none hs] at hnext
      exact h _ hnext
    · rw [sliceOnly_some hs] at hnext
      have hfit := h _ hnext
      by_cases hhead : x.isStart ∧ isHeader code
      · exact .stop hs (.inl hhead) hfit
      · have hshort := slice_shorter hs
        have hrest := ih c'.rest.length (hn ▸ hshort) (by simp only [hhead, decide_false,
          Bool.not_false]) (fun p hp => h p (hnext.trans hp)) rfl
        unfold PacketFits at hrest
        dsimp only at hrest
        split at hrest
        · rename_i hlt'
          exact .more hs hhead hlt' hrest
        · rename_i hfull
          exact .stop hs (.inr (Nat.le_of_not_lt hfull)) hrest

theorem read_picture_head_longer (vsh1 : VideoSpecHead1) :
    c.buf.length + 2 ≤ (read_picture_head mem std vsh1 c).1.buf.length := by
  have hread := read_length mem 2 c
  unfold read_picture_head
  dsimp only
  refine le_trans ?_ ((end_of_head_tracks mem std).grows _)
  split
  · unfold read_vectors
    dsimp only
    rw [read_length, read_length, hread]
    omega
  · exact hread.ge

/-- A picture header read from behind the end of the file, where the memory is zero, is followed
by another one. -/
theorem turn_zeros {n : ℕ} (hz : ∀ i, n ≤ i → mem i = 0) (hn : n ≤ w.size)
    (hrest : w.copy.rest = []) (hcode : w.code = 0x00) :
    ∃ w', w.turn mem numBytes = .goes w' ∧ w'.copy.rest = [] ∧ w'.code = 0x00 ∧
      w'.recallme = w.recallme ∧ w.size < w'.size := by
  obtain ⟨w', r, hturn, ht, hcopy, hc, -, hr⟩ :=
    @turn_head mem w.stat.std numBytes w (.inr (.inr hcode)) rfl
  have hnone : headOf w.stat.std numBytes w.code w.copy = none := by
    simp [headOf, hcode, Copy.pictureHead, Copy.take, hrest]
  obtain ⟨hspent, i, hi, hlast⟩ := ht.lost n w.copy hn hnone
  refine ⟨w', hturn, hcopy ▸ hspent, ?_, hr, ?_⟩
  · rw [hc, hlast]
    exact hz i hi
  · have hgoes : w.turn mem numBytes = .goes (w.pictureHead mem numBytes) := by
      simp [Work.turn, hcode]
    rw [hgoes] at hturn
    cases hturn
    have hlonger := @read_picture_head_longer mem w.stat.std w.copy w.stat.vsh1
    unfold Work.pictureHead Work.size
    rw [if_pos hcode]
    dsimp only
    split
    · refine lt_of_lt_of_le ?_ (Regular.next_code.grows mem _)
      simp only [Work.have_read, read_length]
      omega
    · simp only [Work.have_read]
      omega

theorem zeros_grow {n : ℕ} (hz : ∀ i, n ≤ i → mem i = 0) (hn : n ≤ w.size)
    (hrest : w.copy.rest = []) (hcode : w.code = 0x00) (hrec : w.recallme = true) (k : ℕ) :
    ∃ w', InHeaders mem numBytes w (.goes w') ∧ w'.copy.rest = [] ∧ w'.code = 0x00 ∧
      w'.recallme = true ∧ w.size + k ≤ w'.size := by
  induction k with
  | zero => exact ⟨w, .start, hrest, hcode, hrec, le_rfl⟩
  | succ k ih =>
    obtain ⟨w', hp, hrest', hcode', hrec', hsize⟩ := ih
    obtain ⟨w'', hturn, hrest'', hcode'', hrec'', hlt⟩ :=
      @turn_zeros mem numBytes w' n hz (by omega) hrest' hcode'
    have hnext := InHeaders.turn hp ⟨by rw [hcode']; decide, hrec'⟩
    rw [hturn] at hnext
    exact ⟨w'', hnext, hrest'', hcode'', hrec''.trans hrec', by omega⟩

/-- With zeros in the memory, a loop that stays inside meets no header that is cut off. -/
theorem stays_of {n : ℕ} (hz : ∀ i, n ≤ i → mem i = 0) (hn : n ≤ w.size)
    (hrec : w.recallme = true) (hh : ∀ p, InHeaders mem numBytes w p → Fits p.work.copy)
    (hs : ∀ w', InHeaders mem numBytes w (.goes w') → ¬ (isHeader w'.code ∧ w'.recallme = true) →
      ∀ p, InSlices numBytes w' p → Fits p.work.copy) :
    Stays w.stat.std numBytes w.code w.copy := by
  induction hlen : w.copy.rest.length using Nat.strong_induction_on generalizing w with
  | _ k ih =>
    -- one branch further on the same holds
    have hstep : ∀ w', w.turn mem numBytes = .goes w' → isHeader w.code →
        w'.copy.rest.length < k → n ≤ w'.size → w'.recallme = true →
        Stays w'.stat.std numBytes w'.code w'.copy := by
      intro w' hturn hhead hlt hn' hrec'
      have hnext : InHeaders mem numBytes w (.goes w') := hturn ▸ .turn .start ⟨hhead, hrec⟩
      exact ih _ hlt hn' hrec' (fun p hp => hh p (hnext.trans hp))
        (fun w'' hw'' => hs w'' (hnext.trans hw'')) rfl
    rcases code_cases w.code with hcode | hcode | hcode | hcode
    · exact .slice hcode (packetFits_of hrec (hs w .start fun h => hcode h.1))
    · exact .idle hcode (hh _ .start)
    · have hhead : isHeader w.code := by rcases hcode with hc | hc <;> rw [hc] <;> decide
      have hturn := @turn_userData mem numBytes w hcode
      refine (stays_userData hcode).mpr ?_
      cases hm : w.copy.mark with
      | none =>
        have hnext : InHeaders mem numBytes w (w.turn mem numBytes) := .turn .start ⟨hhead, hrec⟩
        rw [hturn, nextCode_none hm] at hnext
        exact .inl ⟨rfl, hh _ hnext⟩
      | some c' =>
        rw [nextCode_mark hm] at hturn
        have hlen' := (mark_copies hm).1.length
        have hsize := (mark_copies hm).2
        refine .inr ⟨c', rfl, hstep _ hturn hhead ?_ ?_ hrec⟩
        · dsimp only
          omega
        · exact hn.trans (mark_copies hm).1.grows
    · have hhead : isHeader w.code := by rcases hcode with hc | hc | hc <;> rw [hc] <;> decide
      obtain ⟨w', r, hturn, ht, hcopy, hc, hstd, hr⟩ :=
        @turn_head mem w.stat.std numBytes w hcode rfl
      have hgrows : w.size ≤ w'.size := by
        unfold Work.size
        rw [hcopy]
        exact ht.grows w.copy
      refine (stays_head hcode).mpr ?_
      cases hm : headOf w.stat.std numBytes w.code w.copy with
      | none =>
        -- the header is cut off, and from here on zeros are read
        obtain ⟨hspent, i, hi, hlast⟩ := ht.lost n w.copy hn hm
        have hnext : InHeaders mem numBytes w (.goes w') := hturn ▸ .turn .start ⟨hhead, hrec⟩
        obtain ⟨w'', hp, -, -, -, hsize⟩ := @zeros_grow mem numBytes w' n hz (hn.trans hgrows)
          (hcopy ▸ hspent) (by rw [hc, hlast]; exact hz i hi) (hr.trans hrec) (dataTmpSize + 1)
        have hfit : w''.size ≤ dataTmpSize := hh _ (hnext.trans hp)
        omega
      | some c' =>
        have hc' := ht.complete _ _ hm
        have hlt := (headOf_consumes hm).2
        have hl := hstep w' hturn hhead (by rw [hcopy, hc']; omega) (hn.trans hgrows)
          (hr.trans hrec)
        rw [hstd, hc, hcopy, hc'] at hl
        exact ⟨c', rfl, hl⟩

theorem startStays_of {n : ℕ} (hz : ∀ i, n ≤ i → mem i = 0) (hn : n ≤ w.size)
    (hrec : w.recallme = true) (h : ∀ p, InPacket mem numBytes w p → Fits p.work.copy) :
    StartStays numBytes w := by
  have hgoes : ∀ w', w.afterSeqEnd = .goes w' → Stays w'.stat.std numBytes w'.code w'.copy := by
    intro w' hs
    obtain ⟨hrec', hgrows⟩ := afterSeqEnd_goes hs
    exact stays_of hz (hn.trans hgrows) (hrec'.trans hrec) (fun p hp => h p (.headers hs hp))
      fun w'' hh hleft p hp => h p (.slices hs hh hleft hp)
  unfold StartStays
  by_cases hcode : w.code = 0xb7
  · rw [if_pos hcode]
    have hafter : w.afterSeqEnd = w.nextCode := if_pos hcode
    cases hm : w.copy.mark with
    | none =>
      have hfit := h _ .seqEnd
      rw [hafter, nextCode_none hm] at hfit
      exact .inl ⟨rfl, hfit⟩
    | some c' =>
      exact .inr ⟨c', rfl, hgoes _ (hafter.trans (nextCode_mark hm))⟩
  · rw [if_neg hcode]
    exact hgoes w (if_neg hcode)

end Packet

/-! ### One call -/

section Call

variable {cs : Circumstances} {me : MpegMedia}

theorem sliceOnly_copy (numBytes : ℕ) (w : Work) :
    (w.sliceOnly numBytes).work.copy = (w.copy.slice numBytes).1 := by
  rcases hs : w.copy.slice numBytes with ⟨c', _ | ⟨x, code⟩⟩
  · rw [sliceOnly_none hs]
    rfl
  · rw [sliceOnly_some hs]
    rfl

theorem roomy_fits (h : Roomy cs me) {p : Part Work} (hp : InCall cs me p) : Fits p.work.copy := by
  cases hp with
  | begins hopen =>
    have hroom := h.resolve_left hopen
    dsimp only at hroom
    split at hroom
    · exact (slice_grows rfl).trans hroom
    · exact (startCode_grows _).trans hroom.fits
  | restOfSlice hopen hf =>
    have hroom := h.resolve_left hopen
    dsimp only at hroom
    rw [if_pos hf] at hroom
    rw [sliceOnly_copy]
    exact hroom
  | packet hopen hf hp =>
    have hroom := h.resolve_left hopen
    dsimp only at hroom
    rw [if_neg hf] at hroom
    exact hp.fits (startCode_recallme _) hroom

theorem of_fits {n : ℕ} (hz : ∀ i, n ≤ i → cs.mem i = 0)
    (hn : n ≤ (begin_packet cs me.opened (me.opened.stat.getD {})).work.size)
    (h : ∀ p, InCall cs me p → Fits p.work.copy) : Roomy cs me := by
  by_cases hopen : me.stat = none ∧ cs.mediaopen < 0
  · exact .inl hopen
  refine .inr ?_
  dsimp only
  split
  · rename_i hf
    have hfit := h _ (.restOfSlice hopen hf)
    rwa [sliceOnly_copy] at hfit
  · rename_i hf
    exact startStays_of hz (hn.trans (startCode_grows _)) (startCode_recallme _)
      fun p hp => h p (.packet hopen hf hp)

theorem finish_size {me me' : MpegMedia} {w : Work} {x : Aux} {p : MpegPacket}
    (h : finish me w x = .packet p me') : p.data.length ≤ dataTmpSize := by
  unfold finish settle at h
  dsimp only at h
  split at h
  · rename_i hfit
    cases h
    have hsize : w.copy.buf.length ≤ dataTmpSize := hfit
    split
    · simp only [List.length_take]
      omega
    · simp only [List.length_take]
      omega
  · cases h

theorem packet_size {fuel : ℕ} {p : MpegPacket} {me' : MpegMedia}
    (h : read_MPEG_video cs fuel me = some (.packet p me')) : p.data.length ≤ omsslotDataSize := by
  have herror : ∀ (me : MpegMedia) (w : Work), endOfFile me w ≠ .packet p me' := by
    intro me w he
    unfold endOfFile settle at he
    split at he <;> cases he
  unfold read_MPEG_video at h
  split at h
  · cases h
  dsimp only at h
  split at h
  · have he := Option.some.inj h
    unfold restOfSlice at he
    split at he
    · exact absurd he (herror _ _)
    · exact finish_size he
  · unfold headersAndSlices at h
    split at h
    · exact absurd (Option.some.inj h) (herror _ _)
    · split at h
      · cases h
      · exact absurd (Option.some.inj h) (herror _ _)
      · split at h
        · cases h
        · exact absurd (Option.some.inj h) (herror _ _)
        · exact finish_size (Option.some.inj h)

/-- A call stays inside `data_tmp`, whatever is in the memory, exactly if there is room for the
headers and slices it meets. -/
theorem stays_inside_iff (mediaopen : ℤ) (seek : Option (ℕ × ℕ)) (me : MpegMedia) :
    (∀ mem aux, StaysInside ⟨mediaopen, mem, aux, seek⟩ me) ↔
      ∀ mem aux, Roomy ⟨mediaopen, mem, aux, seek⟩ me := by
  constructor
  · intro h mem aux
    let cs : Circumstances := ⟨mediaopen, mem, aux, seek⟩
    let n := (begin_packet cs me.opened (me.opened.stat.getD {})).work.copy.buf.length
    let zeros : Memory := fun i => if i < n then mem i else 0
    have hsame : begin_packet (cs.withMem zeros) me.opened (me.opened.stat.getD {}) =
        begin_packet cs me.opened (me.opened.stat.getD {}) :=
      begin_packet_local fun i hi => (if_pos hi).symm
    have hzeros : ∀ i, n ≤ i → (cs.withMem zeros).mem i = 0 :=
      fun i hi => if_neg (Nat.not_lt.mpr hi)
    have hroomy : Roomy (cs.withMem zeros) me :=
      of_fits hzeros (by rw [hsame]; exact le_rfl) (h zeros aux).writes
    unfold Roomy at hroomy ⊢
    rw [hsame] at hroomy
    exact hroomy
  · exact fun h mem aux => ⟨fun p hp => roomy_fits (h mem aux) hp, fun _ _ _ => packet_size⟩

end Call

/-! ### What the loops end with is a moment of them -/

section Loops

variable {mem : Memory} {numBytes fuel : ℕ} {w w₀ : Work} {k : UInt8} {f : Work → Work}

theorem part_moment (hf : HeadPart mem w.stat.std numBytes k f)
    (hturn : w.code = k → w.turn mem numBytes = .goes (f w))
    (h : InHeaders mem numBytes w₀ (.goes w)) (hrec : w.recallme = true) :
    InHeaders mem numBytes w₀ (.goes (f w)) := by
  by_cases hcode : w.code = k
  · have hhead : isHeader w.code := by
      rcases hf.head with hk | hk | hk <;> rw [hcode, hk] <;> decide
    have hnext := InHeaders.turn h ⟨hhead, hrec⟩
    rwa [hturn hcode] at hnext
  · rwa [hf.skips w hcode]

theorem header_moment (h : InHeaders mem numBytes w₀ (.goes w)) (hrec : w.recallme = true) :
    InHeaders mem numBytes w₀ (.goes (w.header mem numBytes)) ∧
      ((w.header mem numBytes).recallme = true ∨ (w.header mem numBytes).code = 0xb7) := by
  have p₁ := seqHead_part mem w.stat.std numBytes
  have p₂ := gopHead_part mem (w.seqHead mem).stat.std numBytes
  have p₃ := pictureHead_part mem ((w.seqHead mem).gopHead mem).stat.std numBytes
  have r₁ := (p₁.recallme rfl).trans hrec
  have r₂ := (p₂.recallme rfl).trans r₁
  have r₃ := (p₃.recallme rfl).trans r₂
  have h₁ := part_moment p₁ (fun hc => by simp [Work.turn, hc]) h hrec
  have h₂ := part_moment p₂ (fun hc => by simp [Work.turn, hc]) h₁ r₁
  have h₃ := part_moment p₃ (fun hc => by simp [Work.turn, hc]) h₂ r₂
  unfold Work.header
  generalize ((w.seqHead mem).gopHead mem).pictureHead mem numBytes = v at h₃ r₃ ⊢
  by_cases hend : v.code = 0xb7
  · have hidle : Idle v.code := by rw [hend]; decide
    have hnext := InHeaders.turn h₃ ⟨hidle.1, r₃⟩
    rw [turn_idle hidle] at hnext
    exact ⟨hnext, .inr ((seqEnd_keeps v).2.1.trans hend)⟩
  · have hsame : v.seqEnd = v := if_neg hend
    rw [hsame]
    exact ⟨h₃, .inl r₃⟩

theorem userData_moment {r : Part Work} (hr : Work.userData fuel w = some r)
    (h : InHeaders mem numBytes w₀ (.goes w)) (hrec : w.recallme = true ∨ w.code = 0xb7) :
    InHeaders mem numBytes w₀ r := by
  induction fuel generalizing w with
  | zero => cases hr
  | succ fuel ih =>
    unfold Work.userData at hr
    split at hr
    · rename_i hcode
      have hrec' : w.recallme = true := hrec.resolve_right (by rcases hcode with hc | hc <;> simp [hc])
      have hhead : isHeader w.code := by rcases hcode with hc | hc <;> rw [hc] <;> decide
      have hnext := InHeaders.turn h ⟨hhead, hrec'⟩
      rw [turn_userData hcode] at hnext
      cases hm : w.copy.mark with
      | none =>
        rw [nextCode_none hm] at hr hnext
        cases hr
        exact hnext
      | some c' =>
        rw [nextCode_mark hm] at hr hnext
        exact ih hr hnext (.inl hrec')
    · cases hr
      exact h

theorem headers_moment {r : Part Work} (hr : Work.headers mem numBytes fuel w = some r)
    (h : InHeaders mem numBytes w₀ (.goes w)) : InHeaders mem numBytes w₀ r := by
  induction fuel generalizing w with
  | zero => cases hr
  | succ fuel ih =>
    unfold Work.headers at hr
    split at hr
    · rename_i hloop
      obtain ⟨hhead, hrec⟩ := header_moment h hloop.2
      cases hu : Work.userData fuel (w.header mem numBytes) with
      | none =>
        rw [hu] at hr
        cases hr
      | some r' =>
        have hr' := userData_moment hu hhead hrec
        rw [hu] at hr
        cases r' with
        | errEof w' =>
          cases hr
          exact hr'
        | goes w' => exact ih hr hr'
    · cases hr
      exact h

/-- The result of the loop over the slices, without `buf_aux`. -/
def withoutAux : Part (Work × Aux) → Part Work
  | .goes r => .goes r.1
  | .errEof w => .errEof w

theorem slices_moment {x : Aux} {r : Part (Work × Aux)}
    (hr : Work.slices numBytes fuel (w, x) = some r) (h : InSlices numBytes w₀ (.goes w)) :
    InSlices numBytes w₀ (withoutAux r) := by
  induction fuel generalizing w x with
  | zero => cases hr
  | succ fuel ih =>
    unfold Work.slices at hr
    split at hr
    · rename_i hloop
      have hnext := InSlices.slice h hloop
      unfold Work.sliceOnly at hnext
      cases hs : w.slice numBytes with
      | errEof w' =>
        rw [hs] at hr hnext
        cases hr
        exact hnext
      | goes r' =>
        rw [hs] at hr hnext
        exact ih hr hnext
    · cases hr
      exact h

variable {cs : Circumstances} {me : MpegMedia}

theorem StaysInside.fits (h : StaysInside cs me) {p : Part Work} (hp : InCall cs me p) :
    Fits p.work.copy := h.writes p hp

theorem settle_fits {r : MpegEnd} (hfit : Fits w.copy) : settle w r = r := if_pos hfit

theorem not_overrun (h : StaysInside cs me) : read_MPEG_video cs fuel me ≠ some .overrun := by
  have herror : ∀ (me : MpegMedia) (w : Work), Fits w.copy → endOfFile me w ≠ .overrun := by
    intro me w hfit he
    rw [endOfFile, settle_fits hfit] at he
    cases he
  have hfinish : ∀ (me : MpegMedia) (w : Work) (x : Aux), Fits w.copy →
      finish me w x ≠ .overrun := by
    intro me w x hfit he
    rw [finish, settle_fits hfit] at he
    cases he
  intro hr
  unfold read_MPEG_video at hr
  split at hr
  · cases hr
  rename_i hopen
  dsimp only at hr
  split at hr
  · rename_i hf
    have hfit := h.fits (.restOfSlice hopen hf)
    have he := Option.some.inj hr
    unfold restOfSlice at he
    unfold Work.sliceOnly at hfit
    split at he
    · rename_i hs
      rw [hs] at hfit
      exact herror _ _ hfit he
    · rename_i hs
      rw [hs] at hfit
      refine hfinish _ _ _ ?_ he
      exact hfit
  · rename_i hf
    unfold headersAndSlices at hr
    cases hs : (begin_packet cs me.opened (me.opened.stat.getD {})).startCode.afterSeqEnd with
    | errEof w₁ =>
      have hfit := h.fits (.packet hopen hf .seqEnd)
      rw [hs] at hr hfit
      exact herror _ _ hfit (Option.some.inj hr)
    | goes w₁ =>
      rw [hs] at hr
      dsimp only at hr
      cases hh : Work.headers cs.mem me.opened.numBytes fuel w₁ with
      | none =>
        rw [hh] at hr
        cases hr
      | some r₁ =>
        have hmoment := headers_moment hh .start
        rw [hh] at hr
        cases r₁ with
        | errEof w₂ =>
          exact herror _ _ (h.fits (.packet hopen hf (.headers hs hmoment)))
            (Option.some.inj hr)
        | goes w₂ =>
          have hleft : ¬ (isHeader w₂.code ∧ w₂.recallme = true) :=
            fun hc => headers_left hh hc.2 hc.1
          dsimp only at hr
          cases hsl : Work.slices me.opened.numBytes fuel (w₂, cs.aux) with
          | none =>
            rw [hsl] at hr
            cases hr
          | some r₂ =>
            have hin := slices_moment hsl .start
            have hfit := h.fits (.packet hopen hf (.slices hs hmoment hleft hin))
            rw [hsl] at hr
            cases r₂ with
            | errEof w₃ => exact herror _ _ hfit (Option.some.inj hr)
            | goes r =>
              refine hfinish _ _ _ ?_ (Option.some.inj hr)
              exact hfit

end Loops

/-! ### Both readers -/

open H264

/-- At every position of every H.264 file, and in every state of an MPEG video file, a call of the
reader stays inside its arrays exactly if the start codes come in time. -/
theorem readers_inside_iff (bytes : List UInt8) (pos : ℕ) (mediaopen : ℤ) (seek : Option (ℕ × ℕ))
    (me : MpegMedia) :
    (readNALU ⟨bytes, pos, false⟩ ≠ .ran ↔ Bounded bytes pos) ∧
      ((∀ mem aux, StaysInside ⟨mediaopen, mem, aux, seek⟩ me) ↔
        ∀ mem aux, Roomy ⟨mediaopen, mem, aux, seek⟩ me) :=
  ⟨readNALU_inside bytes pos, stays_inside_iff mediaopen seek me⟩

/-- A second start code right behind the first one. -/
theorem start_codes_adjoin :
    ¬ ((∀ bytes, readNALU (opened bytes) ≠ .ran) ∧ ∀ cs me, StaysInside cs me) := by
  rintro ⟨hinside, -⟩
  exact hinside [0, 0, 1, 0, 0, 1] (by decide)

end Fenice.Mediainfo.Mpeg
