import Fenice.Lib.Run
import Fenice.Mediainfo.MpegBounds
import Fenice.Mediainfo.MpegStream

/-!
# The picture that a packet is for

`read_picture_head` takes the fields of the RTP video header from a picture header, and they stay
until the next one is read. The temporal reference goes through a `char`.
-/

namespace Fenice.Mediainfo.Mpeg

open Run

/-! ### The fields of a picture -/

structure PictureFields where
  temporalReference : ℕ
  type : ℕ
  fullPelForward : ℕ
  forwardFCode : ℕ
  fullPelBackward : ℕ
  backwardFCode : ℕ
  deriving DecidableEq

/-- What a picture header says, from what stands behind its start code: ten bits, three for the type,
sixteen of the delay, and four each for the vectors that the type has. -/
def PictureFields.coded (l : List UInt8) : PictureFields :=
  let byte := fun k => (l.getD k 0).toNat
  let type := byte 1 / 8 % 8
  { temporalReference := byte 0 * 4 + byte 1 / 64
    type
    fullPelForward := if type = 2 ∨ type = 3 then byte 3 / 4 % 2 else 0
    forwardFCode := if type = 2 ∨ type = 3 then byte 3 % 4 * 2 + byte 4 / 128 else 0
    fullPelBackward := if type = 3 then byte 4 / 64 % 2 else 0
    backwardFCode := if type = 3 then byte 4 / 8 % 8 else 0 }

/-- What the first four bytes of a packet say:
|MBZ:5|T:1|TR:10|AN:1|N:1|S:1|B:1|E:1|P:3|FBV:1|BFC:3|FFV:1|FFC:3|. -/
def PictureFields.carried (data : List UInt8) : PictureFields :=
  let byte := fun k => (data.getD k 0).toNat
  let x := byte 0 * 2 ^ 24 + byte 1 * 2 ^ 16 + byte 2 * 2 ^ 8 + byte 3
  { temporalReference := x / 2 ^ 16 % 2 ^ 10
    type := x / 2 ^ 8 % 2 ^ 3
    fullPelForward := x / 2 ^ 3 % 2
    forwardFCode := x % 2 ^ 3
    fullPelBackward := x / 2 ^ 7 % 2
    backwardFCode := x / 2 ^ 4 % 2 ^ 3 }

/-- The temporal reference has been through a `char`. -/
def PictureFields.throughChar (f : PictureFields) : PictureFields :=
  { f with temporalReference := tenBits (.ofNat f.temporalReference) }

namespace VideoSpecHead1

def fields (v : VideoSpecHead1) : PictureFields := ⟨v.tr, v.p, v.ffv, v.ffc, v.fbv, v.bfc⟩

/-- The values are in the range of their bit-fields. -/
structure InRange (v : VideoSpecHead1) : Prop where
  ffc : v.ffc < 8
  ffv : v.ffv < 2
  bfc : v.bfc < 8
  fbv : v.fbv < 2
  p : v.p < 8
  e : v.e < 2
  b : v.b < 2
  s : v.s < 2
  n : v.n < 2
  an : v.an < 2
  tr : v.tr < 1024
  t : v.t < 2
  mbz : v.mbz < 32

end VideoSpecHead1

theorem zero_inRange : ({} : VideoSpecHead1).InRange := by
  constructor <;> decide

theorem fourBytes {x : ℕ} (h : x < 2 ^ 32) :
    x / 2 ^ 24 % 256 * 2 ^ 24 + x / 2 ^ 16 % 256 * 2 ^ 16 + x / 2 ^ 8 % 256 * 2 ^ 8 + x % 256 = x := by
  omega

theorem carried_bytes {v : VideoSpecHead1} (h : v.InRange) (tail : List UInt8) :
    PictureFields.carried (v.bytes ++ tail) = v.fields := by
  obtain ⟨hffc, hffv, hbfc, hfbv, hp, he, hb, hs, hn, han, htr, ht, hmbz⟩ := h
  simp only [PictureFields.carried, VideoSpecHead1.bytes, List.cons_append, List.nil_append,
    List.getD_cons_zero, List.getD_cons_succ, UInt8.toNat_ofNat', VideoSpecHead1.fields]
  rw [fourBytes (by omega)]
  simp only [PictureFields.mk.injEq]
  refine ⟨?_, ?_, ?_, ?_, ?_, ?_⟩ <;> omega

theorem tenBits_lt (x : UInt8) : tenBits x < 1024 := by
  have := x.toNat_lt
  rw [tenBits]
  split_ifs <;> omega

/-- Ten bits come through if they are the eight lower ones with the sign extended. -/
theorem tenBits_iff {n : ℕ} (hn : n < 1024) : tenBits (.ofNat n) = n ↔ n < 128 ∨ 896 ≤ n := by
  have hval : (UInt8.ofNat n).toNat = n % 256 := UInt8.toNat_ofNat'
  have hlt : UInt8.ofNat n < 128 ↔ n % 256 < 128 := by
    rw [UInt8.lt_iff_toNat_lt, hval]
    rfl
  rw [tenBits]
  split_ifs with h
  · rw [hlt] at h
    omega
  · rw [hlt] at h
    omega

theorem throughChar_iff {l : List UInt8} :
    (PictureFields.coded l).throughChar = .coded l ↔
      (PictureFields.coded l).temporalReference < 128 ∨
        896 ≤ (PictureFields.coded l).temporalReference := by
  have hlt : (PictureFields.coded l).temporalReference < 1024 := by
    have := (l.getD 0 0).toNat_lt
    have := (l.getD 1 0).toNat_lt
    simp only [PictureFields.coded]
    omega
  rw [← tenBits_iff hlt, PictureFields.throughChar]
  constructor
  · intro h
    exact congrArg PictureFields.temporalReference h
  · intro h
    rw [h]

/-! ### Reading a picture header -/

theorem bits_toNat (x shift : UInt8) (hshift : shift.toNat < 8) (k : ℕ) (hk : k < 8) :
    (bits x shift (.ofNat (2 ^ k - 1))).toNat = x.toNat / 2 ^ shift.toNat % 2 ^ k := by
  have hpow : 2 ^ k - 1 < 256 := by
    have : 2 ^ k ≤ 2 ^ 7 := Nat.pow_le_pow_right (by decide) (by omega)
    omega
  rw [bits, UInt8.toNat_and, UInt8.toNat_shiftRight, UInt8.toNat_ofNat', Nat.mod_eq_of_lt hshift,
    Nat.mod_eq_of_lt hpow, Nat.and_two_pow_sub_one_eq_mod, Nat.shiftRight_eq_div_pow]

theorem tempRef_ofNat (x y : UInt8) :
    x * 4 + bits y 6 0x03 = .ofNat (x.toNat * 4 + y.toNat / 64) := by
  have hbits := bits_toNat y 6 (by decide) 2 (by decide)
  have hlt := y.toNat_lt
  apply UInt8.toNat_inj.mp
  rw [UInt8.toNat_add, UInt8.toNat_mul, UInt8.toNat_ofNat']
  change (x.toNat * 4 % 256 + (bits y 6 0x03).toNat) % 256 = _
  change (bits y 6 0x03).toNat = y.toNat / 64 % 4 at hbits
  rw [hbits]
  omega

section ReadPicture

variable {c : Copy} (mem : Memory) (std : Standard) (v : VideoSpecHead1)

/-- The header of a complete picture is read as it is coded, but for the temporal reference. -/
theorem read_picture_head_coded (h : fixedLength 0x00 c.rest ≤ c.rest.length) :
    (read_picture_head mem std v c).1 =
        end_of_head mem std (c.ahead (fixedLength 0x00 c.rest)) ∧
      (read_picture_head mem std v c).2.2.fields = (PictureFields.coded c.rest).throughChar := by
  have htype : (bits (c.rest.getD 1 0) 3 0x07).toNat = (c.rest.getD 1 0).toNat / 8 % 8 :=
    bits_toNat _ 3 (by decide) 3 (by decide)
  have hfixed : fixedLength 0x00 c.rest = if (c.rest.getD 1 0).toNat / 8 % 8 = 2 ∨
      (c.rest.getD 1 0).toNat / 8 % 8 = 3 then 5 else 2 := by
    rw [← htype]
    rfl
  rw [hfixed] at h ⊢
  have hlen : 2 ≤ c.rest.length := by
    split_ifs at h <;> omega
  have hread : c.read mem 2 = c.ahead 2 := read_ahead mem hlen
  have hfirst : (c.ahead 2).back 2 = c.rest.getD 0 0 := ahead_back (by decide) le_rfl hlen
  have hsecond : (c.ahead 2).back 1 = c.rest.getD 1 0 := ahead_back (by decide) (by decide) hlen
  simp only [read_picture_head, hread, hfirst, hsecond, htype, tempRef_ofNat]
  by_cases hpb : (c.rest.getD 1 0).toNat / 8 % 8 = 2 ∨ (c.rest.getD 1 0).toNat / 8 % 8 = 3
  · rw [if_pos hpb] at h ⊢
    have hfour : (c.ahead 2).read mem 2 = c.ahead 4 := read_behind mem (by omega)
    have hfive : (c.ahead 4).read mem 1 = c.ahead 5 := read_behind mem h
    have hback : (c.ahead 4).back 1 = c.rest.getD 3 0 :=
      ahead_back (by decide) (by decide) (by omega)
    have hback' : (c.ahead 5).back 1 = c.rest.getD 4 0 := ahead_back (by decide) (by decide) h
    rw [if_pos hpb]
    simp only [read_vectors, hfour, hfive, hback, hback']
    refine ⟨trivial, ?_⟩
    have hffv : (bits (c.rest.getD 3 0) 2 0x01).toNat = (c.rest.getD 3 0).toNat / 4 % 2 :=
      bits_toNat _ 2 (by decide) 1 (by decide)
    have hffc : (bits (c.rest.getD 3 0) 0 0x03).toNat = (c.rest.getD 3 0).toNat / 1 % 4 :=
      bits_toNat _ 0 (by decide) 2 (by decide)
    have hlow : (bits (c.rest.getD 4 0) 7 0x01).toNat = (c.rest.getD 4 0).toNat / 128 % 2 :=
      bits_toNat _ 7 (by decide) 1 (by decide)
    have hfbv : (bits (c.rest.getD 4 0) 6 0x01).toNat = (c.rest.getD 4 0).toNat / 64 % 2 :=
      bits_toNat _ 6 (by decide) 1 (by decide)
    have hbfc : (bits (c.rest.getD 4 0) 3 0x07).toNat = (c.rest.getD 4 0).toNat / 8 % 8 :=
      bits_toNat _ 3 (by decide) 3 (by decide)
    have hlt := (c.rest.getD 4 0).toNat_lt
    simp only [VideoSpecHead1.fields, PictureFields.throughChar, PictureFields.coded, hffv, hffc,
      hlow, hfbv, hbfc, if_pos hpb, Nat.div_one, PictureFields.mk.injEq, true_and, and_true]
    omega
  · rw [if_neg hpb] at h ⊢
    have hnot : ¬ (c.rest.getD 1 0).toNat / 8 % 8 = 3 := fun h3 => hpb (.inr h3)
    simp only [if_neg hpb, if_neg hnot, VideoSpecHead1.fields, PictureFields.throughChar,
      PictureFields.coded, and_self]

theorem read_picture_head_inRange (h : v.InRange) : (read_picture_head mem std v c).2.2.InRange := by
  obtain ⟨hffc, hffv, hbfc, hfbv, hp, he, hb, hs, hn, han, htr, ht, hmbz⟩ := h
  have hbits : ∀ x shift : UInt8, (bits x shift 0x07).toNat < 8 ∧ (bits x shift 0x03).toNat < 4 ∧
      (bits x shift 0x01).toNat < 2 := by
    intro x shift
    simp only [bits, UInt8.toNat_and]
    exact ⟨Nat.lt_succ_of_le Nat.and_le_right, Nat.lt_succ_of_le Nat.and_le_right,
      Nat.lt_succ_of_le Nat.and_le_right⟩
  simp only [read_picture_head]
  split_ifs
  · refine ⟨?_, (hbits _ _).2.2, ?_, ?_, (hbits _ _).1, he, hb, hs, hn, han, tenBits_lt _, ht, hmbz⟩
    · simp only [read_vectors]
      have := (hbits ((((c.read mem 2).read mem 2).back 1)) 0).2.1
      have := (hbits ((((c.read mem 2).read mem 2).read mem 1).back 1) 7).2.2
      omega
    · simp only [read_vectors]
      split_ifs
      · exact (hbits _ _).1
      · decide
    · simp only [read_vectors]
      split_ifs
      · exact (hbits _ _).2.2
      · decide
  · exact ⟨Nat.succ_pos _, Nat.succ_pos _, Nat.succ_pos _, Nat.succ_pos _, (hbits _ _).1, he, hb,
      hs, hn, han, tenBits_lt _, ht, hmbz⟩

end ReadPicture

/-! ### The last picture -/

/-- The picture whose start code is the last one in the first `n` bytes. -/
structure LastPicture (bytes : List UInt8) (n i : ℕ) : Prop where
  code : CodeAt bytes i 0x00
  ends : i + 4 ≤ n
  last : ∀ j, i < j → j + 4 ≤ n → ¬ CodeAt bytes j 0x00

/-- The header describes the last picture in the first `n` bytes, if there is one. -/
def Knows (bytes : List UInt8) (n : ℕ) (v : VideoSpecHead1) : Prop :=
  ∀ i, LastPicture bytes n i → v.fields = (PictureFields.coded (bytes.drop (i + 4))).throughChar

/-- A picture that begins before `k` has its start code there. -/
def Far (bytes : List UInt8) (k : ℕ) : Prop := ∀ j, j < k → CodeAt bytes j 0x00 → j + 4 ≤ k

section Known

variable {bytes : List UInt8} {i k n : ℕ} {code : UInt8} {v : VideoSpecHead1}

theorem Knows.extend (h : Knows bytes n v) (hle : n ≤ k)
    (hno : ∀ j, n < j + 4 → j + 4 ≤ k → ¬ CodeAt bytes j 0x00) : Knows bytes k v := by
  intro i hi
  have hin : i + 4 ≤ n := by
    by_contra hlt
    exact hno i (by omega) hi.ends hi.code
  exact h i ⟨hi.code, hin, fun j hj hjn => hi.last j hj (by omega)⟩

theorem Far.reaches (hfar : Far bytes i) (hle : i + 4 ≤ k) (hno : NoPicture bytes i k) :
    Far bytes k := by
  intro j hj hpic
  rcases Nat.lt_trichotomy j i with hji | rfl | hij
  · have := hfar j hji hpic
    omega
  · exact hle
  · exact absurd hpic (hno j hij hj)

theorem Knows.reaches (h : Knows bytes i v) (hfar : Far bytes i) (hle : i + 4 ≤ k)
    (hcode : CodeAt bytes i code) (hne : code ≠ 0) (hno : NoPicture bytes i k) :
    Knows bytes k v := by
  refine h.extend (by omega) fun j hj hjk hpic => ?_
  rcases Nat.lt_trichotomy j i with hji | rfl | hij
  · have := hfar j hji hpic
    omega
  · exact hne (Option.some.inj (hcode.code.symm.trans hpic.code))
  · exact hno j hij (by omega) hpic

theorem Knows.picture (hcode : CodeAt bytes i 0x00) (hle : i + 4 ≤ k) (hno : NoPicture bytes i k)
    (hv : v.fields = (PictureFields.coded (bytes.drop (i + 4))).throughChar) :
    Knows bytes k v := by
  intro j hj
  rcases Nat.lt_trichotomy j i with hji | rfl | hij
  · exact absurd hcode (hj.last i hji hle)
  · exact hv
  · have := hj.ends
    exact absurd hj.code (hno j hij (by omega))

end Known

/-! ### On the way through a call -/

/-- The state behind a picture header. -/
def Work.picture (mem : Memory) (w : Work) : Work :=
  let r := read_picture_head mem w.stat.std w.stat.vsh1 w.copy
  let w := w.have_read r.1
  { w with stat := { w.stat with tempRef := r.2.1, vsh1 := r.2.2 } }

/-- The call has come to the start code at `k`, and describes the picture in front of it. -/
structure Pending (bytes : List UInt8) (k : ℕ) (w : Work) : Prop where
  rest : w.copy.rest = bytes.drop (k + 4)
  code : CodeAt bytes k w.code
  far : Far bytes k
  knows : Knows bytes k w.stat.vsh1
  inRange : w.stat.vsh1.InRange
  std : w.stat.std = .mpeg2 → IsMpeg2 bytes
  probed : w.stat.std ≠ .toProbe
  uncut : w.stat.fragmented = false
  size : 8 ≤ w.size

section Call

variable {bytes : List UInt8} {i : ℕ} {c : Copy} {w w' : Work} {mem : Memory} {numBytes : ℕ}

theorem Pending.goes (h : Pending bytes i w) (hne : w.code ≠ 0) (hr : Reaches bytes i w'.copy)
    (hcode : w'.code = w'.copy.back 1) (hv : w'.stat.vsh1 = w.stat.vsh1)
    (hstd : w'.stat.std = w.stat.std) (hcut : w'.stat.fragmented = w.stat.fragmented)
    (hsize : w.size ≤ w'.size) : ∃ k, Pending bytes k w' := by
  obtain ⟨k, hk, hstop, hno⟩ := hr
  refine ⟨k, hstop.rest, hcode ▸ hstop.code, h.far.reaches hk hno, ?_, hv ▸ h.inRange, ?_, ?_,
    hcut.trans h.uncut, h.size.trans hsize⟩
  · rw [hv]
    exact h.knows.reaches h.far hk h.code hne hno
  · rw [hstd]
    exact h.std
  · rw [hstd]
    exact h.probed

theorem Pending.picture (h : Pending bytes i w) (hcode : w.code = 0x00) : CodeAt bytes i 0x00 := by
  have hat := h.code
  rwa [hcode] at hat

theorem Stream.picture (hs : Stream bytes) (h : CodeAt bytes i 0x00) :
    Whole bytes i (fixedLength 0x00 (bytes.drop (i + 4))) :=
  hs.headers i 0x00 h (.inr (.inr (.inl rfl)))

theorem Pending.congr (h : Pending bytes i w) (hcopy : w'.copy = w.copy) (hcode : w'.code = w.code)
    (hv : w'.stat.vsh1 = w.stat.vsh1) (hstd : w'.stat.std = w.stat.std)
    (hcut : w'.stat.fragmented = false) : Pending bytes i w' where
  rest := by rw [hcopy, h.rest]
  code := by rw [hcode]; exact h.code
  far := h.far
  knows := by rw [hv]; exact h.knows
  inRange := by rw [hv]; exact h.inRange
  std := by rw [hstd]; exact h.std
  probed := by rw [hstd]; exact h.probed
  uncut := hcut
  size := by rw [Work.size, hcopy]; exact h.size

theorem Pending.mark_reaches (h : Pending bytes i w) (hne : w.code ≠ 0)
    (hmark : w.copy.mark = some c) : Reaches bytes i c := by
  obtain ⟨k, hk, hstop, hno⟩ := mark_at h.rest hmark
  exact ⟨k, hk, hstop, fun j hj hlt hpic =>
    hno j (h.code.apart hne hpic.toMarkAt hj) hlt hpic.toMarkAt⟩

theorem Pending.nextCode (h : Pending bytes i w) (hne : w.code ≠ 0)
    (hnext : w.nextCode = .goes w') : ∃ k, Pending bytes k w' := by
  cases hmark : w.copy.mark with
  | none =>
    rw [nextCode_none hmark] at hnext
    cases hnext
  | some c =>
    rw [nextCode_mark hmark] at hnext
    cases hnext
    exact h.goes hne (h.mark_reaches hne hmark) rfl rfl rfl rfl (mark_copies hmark).1.grows

variable (hs : Stream bytes)
include hs

theorem seqHead_pending (h : Pending bytes i w) (hcode : w.code = 0xb3) :
    ∃ k, Pending bytes k (w.seqHead mem) := by
  have hsize := (seqHead_part mem w.stat.std 0).size (w := w) rfl
  rw [Work.seqHead, if_pos hcode] at hsize ⊢
  exact h.goes (by rw [hcode]; decide)
    (read_seq_head_reaches mem hs w.stat.std h.rest (hcode ▸ h.code)) rfl rfl rfl rfl hsize

theorem gopHead_pending (h : Pending bytes i w) (hcode : w.code = 0xb8) :
    ∃ k, Pending bytes k (w.gopHead mem) := by
  have hsize := (gopHead_part mem w.stat.std 0).size (w := w) rfl
  rw [Work.gopHead, if_pos hcode] at hsize ⊢
  exact h.goes (by rw [hcode]; decide)
    (read_gop_head_reaches mem hs w.stat.std h.rest (hcode ▸ h.code)) rfl rfl rfl rfl hsize

omit hs in
theorem pictureHead_eq (hcode : w.code = 0x00) : w.pictureHead mem numBytes =
    if (w.picture mem).stat.std = .mpeg2 ∧ (w.picture mem).size < numBytes then
      (w.picture mem).have_read (read_picture_coding_ext mem (w.picture mem).copy)
    else w.picture mem :=
  if_pos hcode

theorem picture_reaches (h : Pending bytes i w) (hcode : w.code = 0x00) (std : Standard)
    (v : VideoSpecHead1) : ∃ k, i + 4 ≤ k ∧
      StopsAt bytes k (read_picture_head mem std v w.copy).1 ∧ NoPicture bytes i k ∧
        (std = .mpeg2 → FirstCode bytes (i + 4 + fixedLength 0x00 (bytes.drop (i + 4))) k
          ((read_picture_head mem std v w.copy).1.back 1)) := by
  have hwhole := hs.picture (h.picture hcode)
  have hlen := hwhole.length h.rest
  rw [← h.rest] at hlen
  obtain ⟨hhead, -⟩ := read_picture_head_coded mem std v hlen
  rw [hhead, h.rest]
  by_cases hstd : std = .mpeg2
  · have hend : ∀ c, end_of_head mem std c = next_code mem c := by
      intro c
      rw [end_of_head, if_neg]
      rw [hstd]
      decide
    rw [hend]
    obtain ⟨k, hstop, hfirst⟩ := next_code_first mem hwhole h.rest
    have hle := hfirst.1
    exact ⟨k, by omega, hstop, hwhole.noPicture hfirst, fun _ => hfirst⟩
  · obtain ⟨k, hk, hstop, hno⟩ := end_of_head_reaches mem hs hwhole h.rest std
    exact ⟨k, hk, hstop, hno, fun he => absurd he hstd⟩

theorem picture_pending (h : Pending bytes i w) (hcode : w.code = 0x00) :
    ∃ k, Pending bytes k (w.picture mem) ∧ (w.stat.std = .mpeg2 →
      FirstCode bytes (i + 4 + fixedLength 0x00 (bytes.drop (i + 4))) k (w.picture mem).code) := by
  have hsize := (pictureHead_part mem w.stat.std 0).size (w := w) rfl
  rw [pictureHead_eq hcode, if_neg (by omega)] at hsize
  have hlen := (hs.picture (h.picture hcode)).length h.rest
  rw [← h.rest] at hlen
  obtain ⟨-, hfields⟩ := read_picture_head_coded mem w.stat.std w.stat.vsh1 hlen
  rw [h.rest] at hfields
  have hreach : ∃ k, i + 4 ≤ k ∧
      StopsAt bytes k (read_picture_head mem w.stat.std w.stat.vsh1 w.copy).1 ∧ NoPicture bytes i k ∧
        (w.stat.std = .mpeg2 → FirstCode bytes (i + 4 + fixedLength 0x00 (bytes.drop (i + 4))) k
          ((read_picture_head mem w.stat.std w.stat.vsh1 w.copy).1.back 1)) :=
    picture_reaches hs h hcode w.stat.std w.stat.vsh1
  obtain ⟨k, hk, hstop, hno, hfirst⟩ := hreach
  refine ⟨k, ?_, hfirst⟩
  exact {
    rest := hstop.rest
    code := hstop.code
    far := h.far.reaches hk hno
    knows := .picture (h.picture hcode) hk hno hfields
    inRange := read_picture_head_inRange mem w.stat.std w.stat.vsh1 h.inRange
    std := h.std
    probed := h.probed
    uncut := h.uncut
    size := h.size.trans hsize }

theorem pictureHead_pending (h : Pending bytes i w) (hcode : w.code = 0x00) :
    ∃ k, Pending bytes k (w.pictureHead mem numBytes) := by
  have hpicture : ∃ k, Pending bytes k (w.picture mem) ∧ (w.stat.std = .mpeg2 →
      FirstCode bytes (i + 4 + fixedLength 0x00 (bytes.drop (i + 4))) k (w.picture mem).code) :=
    picture_pending hs h hcode
  obtain ⟨k, hpending, hfirst⟩ := hpicture
  rw [pictureHead_eq hcode]
  split_ifs with hext
  · have hstd : (w.picture mem).stat.std = w.stat.std := rfl
    have hmpeg2 : w.stat.std = .mpeg2 := hstd.symm.trans hext.1
    obtain ⟨hne, hwhole⟩ := hs.extensions (h.std hmpeg2) i k _ (h.picture hcode) (hfirst hmpeg2)
    generalize w.picture mem = w₁ at hpending hne
    have hgrows := (read_picture_coding_ext_tracks mem .mpeg2 (w₁.copy.buf.length + 1)).grows w₁.copy
    rw [if_pos ⟨rfl, Nat.lt_succ_self _⟩] at hgrows
    exact hpending.goes hne (read_picture_coding_ext_reaches mem hwhole hpending.rest) rfl rfl rfl
      rfl hgrows
  · exact ⟨k, hpending⟩

theorem turn_pending (h : Pending bytes i w) (hturn : w.turn mem numBytes = .goes w') :
    ∃ k, Pending bytes k w' := by
  rw [Work.turn] at hturn
  split_ifs at hturn with hseq hgop hpic huser
  · cases hturn
    exact seqHead_pending hs h hseq
  · cases hturn
    exact gopHead_pending hs h hgop
  · cases hturn
    exact pictureHead_pending hs h hpic
  · refine h.nextCode ?_ hturn
    rcases huser with hc | hc <;> rw [hc] <;> decide
  · cases hturn
    rw [Work.seqEnd]
    split_ifs
    · exact ⟨i, h.congr rfl rfl rfl rfl rfl⟩
    · exact ⟨i, h⟩

theorem inHeaders_pending {w₀ : Work} {p : Part Work} (h₀ : Pending bytes i w₀)
    (h : InHeaders mem numBytes w₀ p) (hp : p = .goes w) : ∃ k, Pending bytes k w := by
  induction h generalizing w with
  | start =>
    cases hp
    exact ⟨i, h₀⟩
  | turn h hloop ih =>
    obtain ⟨k, hk⟩ := ih rfl
    exact turn_pending hs hk hp

end Call

/-! ### Slices -/

/-- What a call leaves: the start code at `k`, or a slice that was cut off before `n`. -/
inductive Stopped (bytes : List UInt8) (w : Work) : ℕ → Prop
  | code {k : ℕ} (h : Pending bytes k w) : Stopped bytes w k
  | cut {n : ℕ} (hf : w.stat.fragmented = true) (hrest : w.copy.rest = bytes.drop n)
      (hle : n ≤ bytes.length) (hknows : Knows bytes n w.stat.vsh1) (hrange : w.stat.vsh1.InRange)
      (hstd : w.stat.std = .mpeg2 → IsMpeg2 bytes) (hprobed : w.stat.std ≠ .toProbe)
      (hsize : 8 ≤ w.size) : Stopped bytes w n

section Slices

variable {bytes : List UInt8} {i n : ℕ} {w w' : Work} {x : Aux} {numBytes : ℕ}

theorem slice_stopped (hrest : w.copy.rest = bytes.drop n) (hknows : Knows bytes n w.stat.vsh1)
    (hfar : Far bytes n) (hrange : w.stat.vsh1.InRange) (hstd : w.stat.std = .mpeg2 → IsMpeg2 bytes)
    (hprobed : w.stat.std ≠ .toProbe) (hsize : 4 ≤ w.size)
    (h : w.slice numBytes = .goes (w', x)) :
    (∃ m, Stopped bytes w' m) ∧ (w'.stat.fragmented = true → numBytes ≤ w'.size) ∧
      (w'.stat.fragmented = false → w'.recallme = true → ¬ isHeader w'.code) := by
  rw [Work.slice] at h
  rcases hs : w.copy.slice numBytes with ⟨c, _ | ⟨y, code⟩⟩
  · rw [hs] at h
    cases h
  rw [hs] at h
  cases h
  obtain ⟨k, hk, hleft, hcode, hno, hmark, hstop, hgrows⟩ := slice_at hrest hs
  have hle : k + 4 ≤ bytes.length := by
    have := (List.getElem?_eq_some_iff.mp hcode).1
    omega
  have hsize' : 8 ≤ c.buf.length := (Nat.add_le_add_right hsize 4).trans hgrows
  by_cases hstart : x.isStart
  · have hat : CodeAt bytes k code := ⟨hmark.mpr hstart, hcode⟩
    refine ⟨⟨k, .code ?_⟩, fun hf => ?_, fun _ hrec hhead => ?_⟩
    · exact {
        rest := hleft
        code := hat
        far := by
          intro j hj hpic
          rcases Nat.lt_or_ge j n with hjn | hjn
          · have := hfar j hjn hpic
            omega
          · exact absurd hpic.toMarkAt (hno j hjn hj)
        knows := by
          refine hknows.extend hk fun j hj hjk hpic => ?_
          rcases Nat.lt_or_ge j n with hjn | hjn
          · have := hfar j hjn hpic
            omega
          · exact hno j hjn (by omega) hpic.toMarkAt
        inRange := hrange
        std := hstd
        probed := hprobed
        uncut := by simp [hstart]
        size := hsize' }
    · simp [hstart] at hf
    · have hhead' : isHeader code := hhead
      simp [hstart, hhead'] at hrec
  · refine ⟨⟨k + 4, .cut (by simp [hstart]) hleft hle ?_ hrange hstd hprobed hsize'⟩,
      fun _ => hstop.resolve_left hstart, fun hf => ?_⟩
    · refine hknows.extend (by omega) fun j hj hjk hpic => ?_
      rcases Nat.lt_or_ge j n with hjn | hjn
      · have := hfar j hjn hpic
        omega
      · rcases Nat.eq_or_lt_of_le (show j ≤ k by omega) with rfl | hlt
        · exact hstart (hmark.mp hpic.toMarkAt)
        · exact hno j hjn hlt hpic.toMarkAt
    · simp [hstart] at hf

theorem Pending.behind (h : Pending bytes i w) (hne : w.code ≠ 0) :
    Knows bytes (i + 4) w.stat.vsh1 ∧ Far bytes (i + 4) := by
  have hpic : ∀ j, i ≤ j → j < i + 4 → ¬ CodeAt bytes j 0x00 := by
    intro j hj hlt hpic
    rcases Nat.eq_or_lt_of_le hj with rfl | hij
    · exact hne (Option.some.inj (h.code.code.symm.trans hpic.code))
    · have := h.code.apart hne hpic.toMarkAt hij
      omega
  constructor
  · refine h.knows.extend (by omega) fun j hj hji hat => ?_
    rcases Nat.lt_or_ge j i with hlt | hge
    · have := h.far j hlt hat
      omega
    · exact hpic j hge (by omega) hat
  · intro j hj hat
    rcases Nat.lt_or_ge j i with hlt | hge
    · have := h.far j hlt hat
      omega
    · exact absurd hat (hpic j hge hj)

theorem slices_stopped {fuel : ℕ} {x' : Aux} (h : Pending bytes i w)
    (hcode : w.recallme = true → ¬ isHeader w.code)
    (hr : Work.slices numBytes fuel (w, x) = some (.goes (w', x'))) :
    ∃ m, Stopped bytes w' m := by
  induction fuel generalizing w x i with
  | zero => cases hr
  | succ fuel ih =>
    rw [Work.slices] at hr
    split_ifs at hr with hloop
    · rcases hs : w.slice numBytes with ⟨w₁, x₁⟩ | w₁
      · rw [hs] at hr
        have hne : w.code ≠ 0 := fun h0 => hcode hloop.2 (.inr h0)
        obtain ⟨hknows, hfar⟩ := h.behind hne
        obtain ⟨⟨m, hm⟩, hcut, hslice⟩ :=
          slice_stopped h.rest hknows hfar h.inRange h.std h.probed
            (le_trans (by decide) h.size) hs
        cases hm with
        | code h₁ => exact ih h₁ (hslice h₁.uncut) hr
        | cut hf₁ =>
          have hfull := hcut hf₁
          cases fuel with
          | zero => cases hr
          | succ fuel =>
            dsimp only at hr
            rw [Work.slices, if_neg (by omega)] at hr
            cases hr
            exact ⟨m, .cut hf₁ ‹_› ‹_› ‹_› ‹_› ‹_› ‹_› ‹_›⟩
      · rw [hs] at hr
        cases hr
    · cases hr
      exact ⟨i, .code h⟩

end Slices

/-! ### Packets -/

/-- The media between two calls, with `m` bytes of the stream sent. -/
inductive Rests (bytes : List UInt8) (me : MpegMedia) : ℕ → Prop
  | new (hstat : me.stat = none) : Rests bytes me 0
  | stopped {w : Work} {m : ℕ} (hstat : me.stat = some w.stat) (hrest : me.rest = w.copy.rest)
      (h : Stopped bytes w m) : Rests bytes me m

/-- The position up to which packets have been made: a start code that was read is not sent yet. -/
def MpegMedia.sent (me : MpegMedia) : ℕ :=
  match me.stat with
  | none => 0
  | some s => me.bytes.length - me.rest.length - if s.fragmented then 0 else 4

section Packets

variable {bytes : List UInt8} {i m : ℕ} {w w' : Work} {x : Aux} {me me' : MpegMedia} {p : MpegPacket}

theorem Rests.sent (h : Rests bytes me m) (hbytes : me.bytes = bytes) : me.sent = m := by
  cases h with
  | new hstat => rw [MpegMedia.sent, hstat]
  | stopped hstat hrest h =>
    rw [MpegMedia.sent, hstat, hbytes, hrest]
    cases h with
    | code h =>
      have := h.code.length
      simp only [h.uncut, h.rest, List.length_drop, Bool.false_eq_true, if_false]
      omega
    | cut hf hrest' hle =>
      simp only [hf, hrest', List.length_drop, if_true]
      omega

theorem Stopped.congr (h : Stopped bytes w m) (hcopy : w'.copy = w.copy) (hcode : w'.code = w.code)
    (hfrag : w'.stat.fragmented = w.stat.fragmented) (hstd : w'.stat.std = w.stat.std)
    (hv : w'.stat.vsh1.fields = w.stat.vsh1.fields) (hrange : w'.stat.vsh1.InRange) :
    Stopped bytes w' m := by
  cases h with
  | code h =>
    refine .code ?_
    exact {
      rest := by rw [hcopy, h.rest]
      code := by rw [hcode]; exact h.code
      far := h.far
      knows := fun j hj => hv.trans (h.knows j hj)
      inRange := hrange
      std := by rw [hstd]; exact h.std
      probed := by rw [hstd]; exact h.probed
      uncut := hfrag.trans h.uncut
      size := by rw [Work.size, hcopy]; exact h.size }
  | cut hf hrest hle hknows hrange' hstd' hprobed hsize =>
    exact .cut (hfrag.trans hf) (by rw [hcopy, hrest]) hle (fun j hj => hv.trans (hknows j hj)) hrange
      (by rw [hstd]; exact hstd') (by rw [hstd]; exact hprobed) (by rw [Work.size, hcopy]; exact hsize)

theorem Stopped.knows (h : Stopped bytes w m) : Knows bytes m w.stat.vsh1 ∧ w.stat.vsh1.InRange ∧
    8 ≤ w.size := by
  cases h with
  | code h => exact ⟨h.knows, h.inRange, h.size⟩
  | cut _ _ _ hknows hrange _ _ hsize => exact ⟨hknows, hrange, hsize⟩

theorem finish_describes (h : Stopped bytes w m) (he : finish me w x = .packet p me') :
    me'.bytes = me.bytes ∧ Rests bytes me' m ∧ ∀ i, LastPicture bytes m i →
      PictureFields.carried p.data = (PictureFields.coded (bytes.drop (i + 4))).throughChar := by
  obtain ⟨hknows, hrange, hsize⟩ := h.knows
  rw [finish] at he
  dsimp only at he
  by_cases hfit : w.size ≤ dataTmpSize
  case neg =>
    rw [settle, if_neg hfit] at he
    cases he
  rw [settle, if_pos hfit] at he
  -- the copy without the start code of the next packet
  generalize hc : (if x.isStart then ⟨w.copy.buf.take (w.copy.buf.length - 4), w.copy.rest⟩
    else w.copy : Copy) = c at he
  have hrest : c.rest = w.copy.rest := by
    rw [← hc]
    split_ifs <;> rfl
  have hlen : 4 ≤ c.buf.length := by
    rw [Work.size] at hsize
    rw [← hc]
    split_ifs
    · rw [List.length_take]
      omega
    · omega
  generalize hv : ({ w.stat.vsh1 with
    t := 0, mbz := 0, an := 0, n := 0
    s := if w.seqHeadPres then 1 else 0
    e := if w.stat.fragmented then 0 else 1 } : VideoSpecHead1) = v at he
  have hfields : v.fields = w.stat.vsh1.fields := by
    rw [← hv]
    rfl
  have hrange' : v.InRange := by
    obtain ⟨hffc, hffv, hbfc, hfbv, hp, he, hb, hs, hn, han, htr, ht, hmbz⟩ := hrange
    rw [← hv]
    refine ⟨hffc, hffv, hbfc, hfbv, hp, ?_, hb, ?_, Nat.succ_pos _, Nat.succ_pos _, htr,
      Nat.succ_pos _, Nat.succ_pos _⟩
    · dsimp only
      split_ifs <;> decide
    · dsimp only
      split_ifs <;> decide
  cases he
  refine ⟨rfl, ?_, ?_⟩
  · refine @Rests.stopped _ _ { w with stat := { w.stat with
      vsh1 := v, dataTotal := w.stat.dataTotal + c.buf.length - 4 } } m rfl hrest ?_
    exact h.congr rfl rfl rfl rfl hfields hrange'
  · intro i hi
    rw [← hknows i hi, ← hfields, ← carried_bytes hrange' ((c.buf.drop 4).take (c.buf.length - 4))]
    congr 1
    have hfour : v.bytes.length = 4 := rfl
    rw [List.take_append, hfour, List.take_of_length_le (by omega)]

end Packets

/-! ### One call -/

structure ReadCall where
  cs : Circumstances
  fuel : ℕ

/-- The position of the file is where the packets have come to, and a slice was not cut off within
the start code of a picture. -/
structure Clean (me : MpegMedia) (a : ReadCall) : Prop where
  seek : a.cs.seek = none
  cut : ∀ s ∈ me.stat, s.fragmented = true →
    ∀ j < me.sent, me.sent < j + 4 → ¬ CodeAt me.bytes j 0x00

section Begins

variable {bytes : List UInt8} {me : MpegMedia} {cs : Circumstances} {s : StaticMpegVideo}

theorem begin_packet_seek (hseek : cs.seek = none) : begin_packet cs me s =
    ⟨firstProbe cs.mem me s, decide (s.std = .toProbe), false⟩ := by
  rw [begin_packet, hseek]

/-- The probe of a stream comes to a start code with no picture in front of it. -/
theorem probe_stops (hs : Stream bytes) (mem : Memory) {c : Copy} (hc : c.rest = bytes) :
    ∃ k, StopsAt bytes k (probe_standard mem .toProbe c).1 ∧
      (∀ j, j < k → ¬ CodeAt bytes j 0x00) ∧
      ((probe_standard mem .toProbe c).2.1 = .mpeg2 → IsMpeg2 bytes) ∧
      (probe_standard mem .toProbe c).2.1 ≠ .toProbe ∧
      c.buf.length + 4 ≤ (probe_standard mem .toProbe c).1.buf.length := by
  have hdrop : c.rest = bytes.drop 0 := by rw [hc, List.drop_zero]
  obtain ⟨k₀, code₀, hcode₀⟩ := hs.starts
  obtain ⟨c₁, hmark⟩ := mark_finds hdrop (Nat.zero_le k₀) hcode₀
  obtain ⟨k, -, hstop, hno⟩ := mark_at hdrop hmark
  have hsize := (mark_copies hmark).2
  have hbefore : ∀ j, j < k → ¬ CodeAt bytes j 0x00 :=
    fun j hj hpic => hno j (Nat.zero_le j) hj hpic.toMarkAt
  rw [probe_standard, (next_code_tracks mem).complete _ _ hmark]
  by_cases hseq : c₁.back 1 = 0xb3
  · have hat : CodeAt bytes k 0xb3 := hseq ▸ hstop.code
    have hwhole := hs.headers k _ hat (.inl rfl)
    have hlen := hwhole.length hstop.rest
    rw [← hstop.rest] at hlen hwhole
    obtain ⟨m, hstop', hfirst⟩ := next_code_first mem hwhole hstop.rest
    have hhead : (read_seq_head mem .toProbe c₁).1 =
        next_code mem (c₁.ahead (fixedLength 0xb3 c₁.rest)) := by
      rw [read_seq_head, seq_fixed mem hlen]
      rfl
    have hgrows := (read_seq_head_tracks mem .toProbe).grows c₁
    dsimp only
    rw [if_pos hseq]
    dsimp only
    rw [← hhead] at hstop' hfirst
    refine ⟨m, hstop', ?_, ?_, ?_, hsize.trans hgrows⟩
    · intro j hj hpic
      rcases Nat.lt_trichotomy j k with hjk | rfl | hkj
      · exact hbefore j hjk hpic
      · exact absurd (hat.code.symm.trans hpic.code) (by decide)
      · exact hwhole.noPicture hfirst j hkj hj hpic
    · split_ifs with hext
      · rw [hext, hstop.rest] at hfirst
        exact fun _ => ⟨k, 0xb3, ⟨Nat.zero_le k, hat, hno⟩, .inr ⟨rfl, m, hfirst⟩⟩
      · exact False.elim
    · split_ifs <;> exact Standard.noConfusion
  · dsimp only
    rw [if_neg hseq]
    dsimp only
    refine ⟨k, hstop, hbefore, ?_, ?_, hsize⟩
    · split_ifs with hext
      · exact fun _ => ⟨k, 0xb5, ⟨Nat.zero_le k, hext ▸ hstop.code, hno⟩, .inl rfl⟩
      · exact False.elim
    · split_ifs <;> exact Standard.noConfusion

theorem opened_pending (hs : Stream bytes) (hbytes : me.bytes = bytes) (hstat : me.stat = none)
    (mem : Memory) : ∃ k, Pending bytes k
      (Begin.startCode ⟨firstProbe mem me.opened {}, true, false⟩) := by
  have hrest : me.opened.rest = bytes := by
    rw [MpegMedia.opened, if_pos hstat]
    exact hbytes
  obtain ⟨k, hstop, hbefore, hmpeg2, hprobed, hsize⟩ :=
    @probe_stops bytes hs mem ⟨(List.range 4).map mem, me.opened.rest⟩ hrest
  rw [firstProbe, if_pos rfl, Work.probe]
  dsimp only
  generalize probe_standard mem .toProbe ⟨(List.range 4).map mem, me.opened.rest⟩ = r at *
  have hsize' : 8 ≤ r.1.buf.length := hsize
  refine ⟨k, ?_⟩
  exact {
    rest := hstop.rest
    code := hstop.code
    far := fun j hj hpic => absurd hpic (hbefore j hj)
    knows := fun j hj => absurd hj.code (hbefore j (by have := hj.ends; omega))
    inRange := zero_inRange
    std := hmpeg2
    probed := hprobed
    uncut := rfl
    size := hsize' }

theorem left_pending {k : ℕ} {w : Work} (h : Pending bytes k w) (mem : Memory)
    (hstat : me.stat = some w.stat) (hrest : me.rest = w.copy.rest) :
    Pending bytes k (Begin.startCode ⟨firstProbe mem me.opened w.stat, false, false⟩) := by
  have hopened : me.opened = me := by
    rw [MpegMedia.opened, if_neg]
    rw [hstat]
    exact Option.some_ne_none _
  have hprobe : firstProbe mem me w.stat =
      ⟨⟨(List.range 4).map mem, me.rest⟩, w.stat, me.bitrate, false, false⟩ := by
    rw [firstProbe, if_neg h.probed]
  rw [hopened, hprobe]
  exact {
    rest := hrest.trans h.rest
    code := h.code
    far := h.far
    knows := h.knows
    inRange := h.inRange
    std := h.std
    probed := h.probed
    uncut := h.uncut
    size := by simp [Begin.startCode, Work.size] }

end Begins

section Read

variable {bytes : List UInt8} {me me' : MpegMedia} {cs : Circumstances} {fuel k m n : ℕ} {w : Work}
  {p : MpegPacket}

theorem endOfFile_ne (me : MpegMedia) (w : Work) : endOfFile me w ≠ .packet p me' := by
  rw [endOfFile, settle]
  split_ifs <;> exact MpegEnd.noConfusion

theorem startCode_pending (h : Pending bytes k w) {w₁ : Work} (hsw : w.afterSeqEnd = .goes w₁) :
    ∃ k, Pending bytes k w₁ := by
  rw [Work.afterSeqEnd] at hsw
  split_ifs at hsw with hcode
  · exact h.nextCode (by rw [hcode]; decide) hsw
  · cases hsw
    exact ⟨k, h⟩

theorem headersAndSlices_describes (hs : Stream bytes) (h : Pending bytes k w)
    (hr : headersAndSlices cs fuel me w = some (.packet p me')) :
    ∃ m, me'.bytes = me.bytes ∧ Rests bytes me' m ∧ ∀ i, LastPicture bytes m i →
      PictureFields.carried p.data = (PictureFields.coded (bytes.drop (i + 4))).throughChar := by
  rw [headersAndSlices] at hr
  cases hsw : w.afterSeqEnd with
  | errEof w₁ =>
    rw [hsw] at hr
    exact absurd (Option.some.inj hr) (endOfFile_ne me w₁)
  | goes w₁ =>
    rw [hsw] at hr
    dsimp only at hr
    obtain ⟨k₁, h₁⟩ := startCode_pending h hsw
    cases hh : Work.headers cs.mem me.numBytes fuel w₁ with
    | none =>
      rw [hh] at hr
      cases hr
    | some r =>
      rw [hh] at hr
      cases r with
      | errEof w₂ => exact absurd (Option.some.inj hr) (endOfFile_ne me w₂)
      | goes w₂ =>
        obtain ⟨k₂, h₂⟩ := inHeaders_pending hs h₁ (headers_moment hh .start) rfl
        dsimp only at hr
        cases hsl : Work.slices me.numBytes fuel (w₂, cs.aux) with
        | none =>
          rw [hsl] at hr
          cases hr
        | some r =>
          rw [hsl] at hr
          cases r with
          | errEof w₃ => exact absurd (Option.some.inj hr) (endOfFile_ne me w₃)
          | goes r =>
            obtain ⟨w₃, x₃⟩ := r
            obtain ⟨m, hm⟩ := slices_stopped h₂ (headers_left hh) hsl
            obtain ⟨-, hrange, -⟩ := hm.knows
            have hm' : Stopped bytes
                { w₃ with stat := { w₃.stat with vsh1 := { w₃.stat.vsh1 with b := 1 } } } m :=
              hm.congr rfl rfl rfl rfl rfl { hrange with b := Nat.lt_succ_self 1 }
            exact ⟨m, finish_describes hm' (Option.some.inj hr)⟩

theorem restOfSlice_describes (hrest : w.copy.rest = bytes.drop n) (hknows : Knows bytes n w.stat.vsh1)
    (hfar : Far bytes n) (hrange : w.stat.vsh1.InRange) (hstd : w.stat.std = .mpeg2 → IsMpeg2 bytes)
    (hprobed : w.stat.std ≠ .toProbe) (hsize : 4 ≤ w.size) (hr : restOfSlice me w = .packet p me') :
    ∃ m, me'.bytes = me.bytes ∧ Rests bytes me' m ∧ ∀ i, LastPicture bytes m i →
      PictureFields.carried p.data = (PictureFields.coded (bytes.drop (i + 4))).throughChar := by
  rw [restOfSlice] at hr
  cases hsl : w.slice me.numBytes with
  | errEof w₁ =>
    rw [hsl] at hr
    exact absurd hr (endOfFile_ne me w₁)
  | goes r =>
    rw [hsl] at hr
    obtain ⟨w₁, x⟩ := r
    obtain ⟨⟨m, hm⟩, -⟩ := slice_stopped hrest hknows hfar hrange hstd hprobed hsize hsl
    obtain ⟨-, hrange', -⟩ := hm.knows
    have hm' : Stopped bytes
        { w₁ with stat := { w₁.stat with vsh1 := { w₁.stat.vsh1 with b := 0 } } } m :=
      hm.congr rfl rfl rfl rfl rfl { hrange' with b := Nat.succ_pos 1 }
    exact ⟨m, finish_describes hm' hr⟩

theorem read_describes (hs : Stream bytes) (hbytes : me.bytes = bytes) (hrests : Rests bytes me m)
    {a : ReadCall} (hclean : Clean me a)
    (hr : read_MPEG_video a.cs a.fuel me = some (.packet p me')) :
    ∃ m, me'.bytes = bytes ∧ Rests bytes me' m ∧ ∀ i, LastPicture bytes m i →
      PictureFields.carried p.data = (PictureFields.coded (bytes.drop (i + 4))).throughChar := by
  have hsent := hrests.sent hbytes
  have hopened : me.opened.bytes = bytes := by
    rw [MpegMedia.opened]
    split_ifs <;> exact hbytes
  rw [read_MPEG_video] at hr
  by_cases hfail : me.stat = none ∧ a.cs.mediaopen < 0
  · rw [if_pos hfail] at hr
    cases hr
  rw [if_neg hfail] at hr
  dsimp only at hr
  rw [begin_packet_seek hclean.seek] at hr
  cases hrests with
  | new hstat =>
    have hstat' : me.opened.stat = none := by
      rw [MpegMedia.opened, if_pos hstat]
      exact hstat
    obtain ⟨k, hk⟩ := opened_pending hs hbytes hstat a.cs.mem
    rw [hstat', Option.getD_none, if_neg (by exact Bool.noConfusion)] at hr
    obtain ⟨m, hsame, hdescribes⟩ := headersAndSlices_describes hs hk hr
    exact ⟨m, hsame.trans hopened, hdescribes⟩
  | @stopped w _ hstat hrest h =>
    have hme : me.opened = me := by
      rw [MpegMedia.opened, if_neg]
      rw [hstat]
      exact Option.some_ne_none _
    have hprobe : w.stat.std ≠ .toProbe → firstProbe a.cs.mem me w.stat =
        ⟨⟨(List.range 4).map a.cs.mem, me.rest⟩, w.stat, me.bitrate, false, false⟩ :=
      fun hne => by rw [firstProbe, if_neg hne]
    rw [hme, hstat, Option.getD_some] at hr
    cases h with
    | code h =>
      have hk := left_pending h a.cs.mem hstat hrest
      rw [hme] at hk
      rw [hprobe h.probed] at hr hk
      rw [if_neg (by rw [h.uncut]; exact Bool.noConfusion), decide_eq_false h.probed] at hr
      obtain ⟨m, hsame, hdescribes⟩ := headersAndSlices_describes hs hk hr
      exact ⟨m, hsame.trans hbytes, hdescribes⟩
    | cut hf hrest' hle hknows hrange hstd hprobed hsize =>
      rw [hprobe hprobed, if_pos hf] at hr
      have hfar : Far bytes m := by
        intro j hj hpic
        by_contra hlt
        rw [← hsent] at hj hlt
        rw [← hbytes] at hpic
        exact hclean.cut w.stat hstat hf j hj (Nat.lt_of_not_le hlt) hpic
      obtain ⟨m, hsame, hdescribes⟩ := @restOfSlice_describes bytes me me' m
        ⟨⟨(List.range 4).map a.cs.mem, me.rest⟩, w.stat, me.bitrate, false, false⟩ p
        (hrest.trans hrest') hknows hfar hrange hstd hprobed (by simp [Work.size]) (Option.some.inj hr)
      exact ⟨m, hsame.trans hbytes, hdescribes⟩

end Read

/-! ### Runs -/

/-- The packet of a call and the media behind it. -/
def packetOf : Option MpegEnd → Option (MpegPacket × MpegMedia)
  | some (.packet p me) => some (p, me)
  | _ => none

def readStep (me : MpegMedia) (a : ReadCall) : Option MpegMedia :=
  (packetOf (read_MPEG_video a.cs a.fuel me)).map Prod.snd

section Runs

variable {me₀ me me' : MpegMedia} {as : List ReadCall} {a : ReadCall} {p : MpegPacket}

theorem packetOf_eq {r : Option MpegEnd} (h : packetOf r = some (p, me)) : r = some (.packet p me) := by
  match r, h with
  | some (.packet _ _), h =>
    cases h
    rfl

theorem readStep_eq (h : readStep me a = some me') :
    ∃ p, read_MPEG_video a.cs a.fuel me = some (.packet p me') := by
  obtain ⟨⟨p, me₁⟩, hp, rfl⟩ := Option.map_eq_some_iff.mp h
  exact ⟨p, packetOf_eq hp⟩

theorem run_rests (hs : Stream me₀.bytes) (hnew : me₀.stat = none)
    (hrun : GuardedRun readStep Clean me₀ as me) :
    me.bytes = me₀.bytes ∧ ∃ m, Rests me₀.bytes me m := by
  refine @GuardedRun.invariant _ _ _ _ (fun me => me.bytes = me₀.bytes ∧ ∃ m, Rests me₀.bytes me m)
    ?_ _ _ _ hrun ⟨rfl, 0, .new hnew⟩
  rintro me a me' ⟨hbytes, m, hrests⟩ hclean hstep
  obtain ⟨p, hread⟩ := readStep_eq hstep
  obtain ⟨m', hbytes', hrests', -⟩ := read_describes hs hbytes hrests hclean hread
  exact ⟨hbytes', m', hrests'⟩

/-- In a run over an MPEG video stream, without a seek and without a cut through a picture start
code, a packet carries the header of its picture exactly if the temporal reference of the picture
is below 128 or not below 896. -/
theorem packet_describes_iff (hs : Stream me₀.bytes) (hnew : me₀.stat = none)
    (hrun : GuardedRun readStep Clean me₀ as me) (hclean : Clean me a)
    (hread : read_MPEG_video a.cs a.fuel me = some (.packet p me')) {i : ℕ}
    (hi : LastPicture me₀.bytes me'.sent i) :
    PictureFields.carried p.data = PictureFields.coded (me₀.bytes.drop (i + 4)) ↔
      (PictureFields.coded (me₀.bytes.drop (i + 4))).temporalReference < 128 ∨
        896 ≤ (PictureFields.coded (me₀.bytes.drop (i + 4))).temporalReference := by
  obtain ⟨hbytes, m, hrests⟩ := run_rests hs hnew hrun
  obtain ⟨m', hbytes', hrests', hdescribes⟩ := read_describes hs hbytes hrests hclean hread
  rw [hrests'.sent hbytes'] at hi
  rw [hdescribes i hi, throughChar_iff]

end Runs

/-- A stream of one picture, whose temporal reference has its upper eight bits in `x`. -/
def onePicture (x : UInt8) : MpegMedia where
  bytes := [0, 0, 1, 0xb3, 0x10, 0x01, 0x00, 0x11, 0xff, 0xff, 0xe0, 0x00,
    0, 0, 1, 0x00, x, 0x0f, 0xff, 0xf8, 0, 0, 1, 0x01, 0x13, 0xf8, 0x7d, 0x29, 0x48, 0x80,
    0, 0, 1, 0xb7]
  rest := []
  stat := none
  bytePerPckt := 0
  bitrate := 0
  live := false

def onePictureRead : ReadCall := ⟨⟨0, fun _ => 0, ⟨0, 0, 0⟩, none⟩, 5⟩

section OnePicture

variable {x : UInt8} (hx : x = 1 ∨ x = 0x20)
include hx

theorem onePicture_codes {i : ℕ} {code : UInt8} (h : CodeAt (onePicture x).bytes i code) :
    (i, code) ∈ [(0, 0xb3), (12, 0x00), (20, 0x01), (30, (0xb7 : UInt8))] := by
  have hle : i + 4 ≤ 34 := h.length
  obtain ⟨hmark, hcode⟩ := h
  have hi : i ≤ 30 := by omega
  rcases hx with rfl | rfl <;> interval_cases i <;> first
    | exact absurd hmark (by decide)
    | (obtain rfl := Option.some.inj hcode; decide)

theorem onePicture_whole {i n k : ℕ} {code : UInt8}
    (hno : 12 ≤ i ∨ i + 4 + n ≤ 12)
    (hk : i + 4 + n ≤ k) (hcode : CodeAt (onePicture x).bytes k code) :
    Whole (onePicture x).bytes i n where
  quiet := by
    intro j hj hlt hpic
    have hmem := onePicture_codes hx hpic
    simp at hmem
    omega
  next := ⟨k, code, hk, hcode⟩

theorem onePicture_stream : Stream (onePicture x).bytes := by
  have hpic : CodeAt (onePicture x).bytes 12 0x00 := ⟨⟨rfl, rfl, rfl⟩, rfl⟩
  have hslice : CodeAt (onePicture x).bytes 20 0x01 := ⟨⟨rfl, rfl, rfl⟩, rfl⟩
  have hend : CodeAt (onePicture x).bytes 30 0xb7 := ⟨⟨rfl, rfl, rfl⟩, rfl⟩
  have hseq : fixedLength 0xb3 ((onePicture x).bytes.drop (0 + 4)) = 8 := by
    rcases hx with rfl | rfl <;> decide
  have htwo : fixedLength 0x00 ((onePicture x).bytes.drop (12 + 4)) = 2 := by
    rcases hx with rfl | rfl <;> decide
  refine ⟨⟨12, 0x00, hpic⟩, ?_, ?_⟩
  · intro i code h hhead
    have hmem := onePicture_codes hx h
    simp only [List.mem_cons, Prod.mk.injEq, List.not_mem_nil, or_false] at hmem
    obtain ⟨rfl, rfl⟩ | ⟨rfl, rfl⟩ | ⟨rfl, rfl⟩ | ⟨rfl, rfl⟩ := hmem
    · rw [hseq]
      exact onePicture_whole hx (.inr le_rfl) le_rfl hpic
    · rw [htwo]
      exact onePicture_whole hx (.inl le_rfl) (by decide) hslice
    · exact absurd hhead (by simp [Headed])
    · exact absurd hhead (by simp [Headed])
  · rintro - i k code h ⟨hk, hcode, hno⟩
    have hmem := onePicture_codes hx h
    have hmem' := onePicture_codes hx hcode
    simp only [List.mem_cons, Prod.mk.injEq, List.not_mem_nil, or_false] at hmem hmem'
    obtain ⟨rfl, he⟩ | ⟨rfl, -⟩ | ⟨rfl, he⟩ | ⟨rfl, he⟩ := hmem
    · cases he
    · obtain ⟨rfl, -⟩ | ⟨rfl, -⟩ | ⟨rfl, rfl⟩ | ⟨rfl, -⟩ := hmem'
      · exact absurd hk (by omega)
      · exact absurd hk (by omega)
      · exact ⟨by decide, onePicture_whole hx (.inl (by decide)) (by decide) hend⟩
      · exact absurd hslice.toMarkAt (hno 20 (by rw [htwo]; decide) (by decide))
    · cases he
    · cases he

theorem onePicture_packet : ∃ p me',
    read_MPEG_video onePictureRead.cs onePictureRead.fuel (onePicture x) = some (.packet p me') ∧
      me'.sent = 30 ∧ PictureFields.carried p.data = ⟨if x = 1 then 4 else 896, 1, 0, 0, 0, 0⟩ := by
  have hread : ∀ y : UInt8, (y = 1 ∨ y = 0x20) →
      (packetOf (read_MPEG_video onePictureRead.cs onePictureRead.fuel (onePicture y))).map
        (fun r => (r.2.sent, PictureFields.carried r.1.data)) =
      some (30, ⟨if y = 1 then 4 else 896, 1, 0, 0, 0, 0⟩) := by
    rintro y (rfl | rfl) <;> decide +kernel
  obtain ⟨⟨p, me'⟩, hp, he⟩ := Option.map_eq_some_iff.mp (hread x hx)
  obtain ⟨hsent, hcarried⟩ := Prod.mk.inj he
  exact ⟨p, me', packetOf_eq hp, hsent, hcarried⟩

theorem onePicture_last : LastPicture (onePicture x).bytes 30 12 where
  code := ⟨⟨rfl, rfl, rfl⟩, rfl⟩
  ends := by decide
  last := by
    intro j hj _ hpic
    have hmem := onePicture_codes hx hpic
    simp at hmem
    omega

omit hx in
theorem onePicture_clean : Clean (onePicture x) onePictureRead where
  seek := rfl
  cut := fun s hs => by cases hs

end OnePicture

theorem one_picture_described : ∃ p me',
    read_MPEG_video onePictureRead.cs onePictureRead.fuel (onePicture 1) = some (.packet p me') ∧
      (PictureFields.carried p.data = PictureFields.coded ((onePicture 1).bytes.drop (12 + 4)) ↔
        (PictureFields.coded ((onePicture 1).bytes.drop (12 + 4))).temporalReference < 128 ∨
          896 ≤ (PictureFields.coded ((onePicture 1).bytes.drop (12 + 4))).temporalReference) := by
  obtain ⟨p, me', hread, hsent, -⟩ := onePicture_packet (.inl rfl)
  refine ⟨p, me', hread, ?_⟩
  exact packet_describes_iff (onePicture_stream (.inl rfl)) rfl (.nil _) onePicture_clean
    hread (hsent ▸ onePicture_last (.inl rfl))

/-- A picture with the temporal reference 128. -/
theorem picture_128_misdescribed : ∃ p me', Stream (onePicture 0x20).bytes ∧
    read_MPEG_video onePictureRead.cs onePictureRead.fuel (onePicture 0x20) = some (.packet p me') ∧
      LastPicture (onePicture 0x20).bytes me'.sent 12 ∧
        PictureFields.coded ((onePicture 0x20).bytes.drop (12 + 4)) = ⟨128, 1, 0, 0, 0, 0⟩ ∧
          PictureFields.carried p.data = ⟨896, 1, 0, 0, 0, 0⟩ := by
  obtain ⟨p, me', hread, hsent, hcarried⟩ := onePicture_packet (.inr rfl)
  exact ⟨p, me', onePicture_stream (.inr rfl), hread, hsent ▸ onePicture_last (.inr rfl), by decide,
    hcarried⟩

end Fenice.Mediainfo.Mpeg
