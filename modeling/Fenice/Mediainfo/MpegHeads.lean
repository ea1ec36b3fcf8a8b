import Fenice.Mediainfo.MpegVideo
import Mathlib.Data.List.GetD

/-!
# Complete MPEG headers

The header readers test nothing, so at the end of the file they go on with the bytes that
`malloc` left in `data_tmp`. Here is when all that a reader looks for is there; then it copies a
piece of the file, whatever is in the memory behind it.
-/

namespace Fenice.Mediainfo.Mpeg

namespace Copy

/-- Copy `n` bytes, if there are that many. -/
def take (n : ℕ) (c : Copy) : Option Copy :=
  if n ≤ c.rest.length then some ⟨c.buf ++ c.rest.take n, c.rest.drop n⟩ else none

/-- Copy up to the next start code and the byte behind it. -/
def mark (c : Copy) : Option Copy :=
  let r := next_start_code c
  if r.1 < 0 then none else r.2.take 1

/-- In MPEG-1, skip what begins with `code`. -/
def skip (code : UInt8) (c : Copy) : Option Copy := if c.back 1 = code then c.mark else some c

def headEnd (std : Standard) (c : Copy) : Option Copy :=
  c.mark.bind fun c => if std = .mpeg1 then (c.skip 0xb5).bind (skip 0xb2) else some c

/-- A quantizer matrix, if the byte before says that there is one. -/
def matrix (bit : UInt8) (c : Copy) : Option Copy :=
  if (c.back 1 &&& bit) ≠ 0 then c.take 64 else some c

/-- A complete sequence header. -/
def seqHead (std : Standard) (c : Copy) : Option Copy :=
  ((c.take 4).bind (take 4)).bind fun c => ((c.matrix 2).bind (matrix 1)).bind (headEnd std)

/-- A complete header of a group of pictures. -/
def gopHead (std : Standard) (c : Copy) : Option Copy := (c.take 4).bind (headEnd std)

/-- The motion vectors of a P or B picture. -/
def vectors (c : Copy) : Option Copy :=
  let p := (bits (c.back 1) 3 0x07).toNat
  if p = 2 ∨ p = 3 then (c.take 2).bind (take 1) else some c

/-- A picture coding extension, which is looked for in MPEG-2 while the packet is short. -/
def codingExt (std : Standard) (numBytes : ℕ) (c : Copy) : Option Copy :=
  if std = .mpeg2 ∧ c.buf.length < numBytes then
    (((c.take 3).bind (take 1)).bind (take 1)).bind mark
  else some c

def pictureHead (std : Standard) (numBytes : ℕ) (c : Copy) : Option Copy :=
  (((c.take 2).bind vectors).bind (headEnd std)).bind (codingExt std numBytes)

end Copy

/-! ### What is copied is read from the file -/

/-- `c'` has copied a piece of the file behind `c`. -/
structure Copies (c c' : Copy) : Prop where
  bytes : c'.buf ++ c'.rest = c.buf ++ c.rest
  grows : c.buf.length ≤ c'.buf.length

namespace Copies

variable {c c' c'' : Copy}

theorem refl (c : Copy) : Copies c c := ⟨rfl, le_rfl⟩

theorem trans (h : Copies c c') (h' : Copies c' c'') : Copies c c'' :=
  ⟨h'.bytes.trans h.bytes, h.grows.trans h'.grows⟩

theorem length (h : Copies c c') : c'.buf.length + c'.rest.length =
    c.buf.length + c.rest.length := by
  have := congrArg List.length h.bytes
  rwa [List.length_append, List.length_append] at this

theorem rest_le (h : Copies c c') : c'.rest.length ≤ c.rest.length := by
  have := h.length
  have := h.grows
  omega

theorem bind {f g : Copy → Option Copy} (hf : ∀ c c', f c = some c' → Copies c c')
    (hg : ∀ c c', g c = some c' → Copies c c') {c c' : Copy} (h : (f c).bind g = some c') :
    Copies c c' := by
  obtain ⟨d, hd, hg'⟩ := Option.bind_eq_some_iff.mp h
  exact (hf c d hd).trans (hg d c' hg')

end Copies

theorem take_copies {n : ℕ} {c c' : Copy} (h : c.take n = some c') :
    Copies c c' ∧ c'.buf.length = c.buf.length + n := by
  unfold Copy.take at h
  split at h
  · rename_i hn
    cases h
    refine ⟨⟨?_, ?_⟩, ?_⟩
    · dsimp only
      rw [List.append_assoc, List.take_append_drop]
    · dsimp only
      rw [List.length_append]
      omega
    · dsimp only
      rw [List.length_append, List.length_take, Nat.min_eq_left hn]
  · cases h

theorem scan_found {a b c : UInt8} {rest copied left : List UInt8}
    (h : scan a b c rest = (copied, some left)) :
    copied ++ left = a :: b :: c :: rest ∧ 3 ≤ copied.length := by
  induction rest generalizing a b c copied with
  | nil =>
    unfold scan at h
    split_ifs at h
    · cases h
      exact ⟨rfl, le_rfl⟩
    · cases h
  | cons d rest ih =>
    unfold scan at h
    split_ifs at h
    · cases h
      exact ⟨rfl, le_rfl⟩
    · dsimp only at h
      rcases hs : scan b c d rest with ⟨copied', left'⟩
      rw [hs] at h
      cases h
      obtain ⟨hbytes, hlen⟩ := ih hs
      exact ⟨congrArg (List.cons a) hbytes, hlen.trans (Nat.le_succ _)⟩

/-- `next_start_code` reads up to the end of a start code, or to the end of the file. -/
theorem next_start_code_cases (c : Copy) :
    (∃ copied left, next_start_code c = ((copied.length : ℤ) - 3, ⟨c.buf ++ copied, left⟩) ∧
      copied ++ left = c.rest ∧ 3 ≤ copied.length) ∨
    ∃ copied, next_start_code c = (-1, ⟨c.buf ++ copied, []⟩) := by
  obtain ⟨buf, rest⟩ := c
  unfold next_start_code
  rcases rest with _ | ⟨x, _ | ⟨y, _ | ⟨z, rest⟩⟩⟩
  case cons.cons.cons =>
    dsimp only
    rcases hs : scan x y z rest with ⟨copied, _ | left⟩
    · exact Or.inr ⟨copied, rfl⟩
    · obtain ⟨hbytes, hlen⟩ := scan_found hs
      exact Or.inl ⟨copied, left, rfl, hbytes, hlen⟩
  all_goals exact Or.inr ⟨[], by simp⟩

theorem start_code_found {c : Copy} (h : ¬ (next_start_code c).1 < 0) :
    Copies c (next_start_code c).2 ∧ c.buf.length + 3 ≤ (next_start_code c).2.buf.length := by
  rcases next_start_code_cases c with ⟨copied, left, he, hbytes, hlen⟩ | ⟨copied, he⟩
  · have hsize : (c.buf ++ copied).length = c.buf.length + copied.length := List.length_append
    rw [he]
    refine ⟨⟨?_, ?_⟩, ?_⟩
    · change c.buf ++ copied ++ left = c.buf ++ c.rest
      rw [List.append_assoc, hbytes]
    · exact hsize ▸ Nat.le_add_right _ _
    · exact hsize ▸ Nat.add_le_add_left hlen _
  · rw [he] at h
    exact absurd (show (-1 : ℤ) < 0 by decide) h

theorem start_code_missing {c : Copy} (h : (next_start_code c).1 < 0) :
    (next_start_code c).2.rest = [] ∧ c.buf.length ≤ (next_start_code c).2.buf.length := by
  rcases next_start_code_cases c with ⟨copied, left, he, -, hlen⟩ | ⟨copied, he⟩
  · rw [he] at h
    dsimp only at h
    omega
  · rw [he]
    refine ⟨rfl, ?_⟩
    change c.buf.length ≤ (c.buf ++ copied).length
    rw [List.length_append]
    exact Nat.le_add_right _ _

theorem mark_copies {c c' : Copy} (h : c.mark = some c') :
    Copies c c' ∧ c.buf.length + 4 ≤ c'.buf.length := by
  unfold Copy.mark at h
  dsimp only at h
  split at h
  · cases h
  · rename_i hn
    obtain ⟨hfound, hsize⟩ := start_code_found hn
    obtain ⟨htake, hlen⟩ := take_copies h
    exact ⟨hfound.trans htake, by omega⟩

theorem skip_copies {code : UInt8} {c c' : Copy} (h : c.skip code = some c') : Copies c c' := by
  unfold Copy.skip at h
  split at h
  · exact (mark_copies h).1
  · cases h
    exact .refl c

theorem headEnd_copies {std : Standard} {c c' : Copy} (h : c.headEnd std = some c') :
    Copies c c' ∧ c'.rest.length < c.rest.length := by
  obtain ⟨d, hd, h⟩ := Option.bind_eq_some_iff.mp h
  obtain ⟨hmark, hsize⟩ := mark_copies hd
  have htail : Copies d c' := by
    split at h
    · exact Copies.bind (fun _ _ => skip_copies) (fun _ _ => skip_copies) h
    · cases h
      exact .refl _
  refine ⟨hmark.trans htail, ?_⟩
  have := hmark.length
  have := htail.rest_le
  omega

theorem matrix_copies {bit : UInt8} {c c' : Copy} (h : c.matrix bit = some c') : Copies c c' := by
  unfold Copy.matrix at h
  split at h
  · exact (take_copies h).1
  · cases h
    exact .refl c

theorem vectors_copies {c c' : Copy} (h : c.vectors = some c') : Copies c c' := by
  unfold Copy.vectors at h
  dsimp only at h
  split at h
  · exact Copies.bind (fun _ _ h => (take_copies h).1) (fun _ _ h => (take_copies h).1) h
  · cases h
    exact .refl c

theorem codingExt_copies {std : Standard} {numBytes : ℕ} {c c' : Copy}
    (h : c.codingExt std numBytes = some c') : Copies c c' := by
  have htake : ∀ n (c c' : Copy), c.take n = some c' → Copies c c' :=
    fun n _ _ h => (take_copies h).1
  unfold Copy.codingExt at h
  split at h
  · obtain ⟨d, hd, h⟩ := Option.bind_eq_some_iff.mp h
    obtain ⟨e, he, hd⟩ := Option.bind_eq_some_iff.mp hd
    exact ((Copies.bind (htake 3) (htake 1) he).trans (htake 1 e d hd)).trans (mark_copies h).1
  · cases h
    exact .refl c

/-- A header takes up some of the file. -/
def Consumes (c c' : Copy) : Prop := Copies c c' ∧ c'.rest.length < c.rest.length

theorem seqHead_copies {std : Standard} {c c' : Copy} (h : c.seqHead std = some c') :
    Consumes c c' := by
  obtain ⟨d, hd, h⟩ := Option.bind_eq_some_iff.mp h
  obtain ⟨e, he, h⟩ := Option.bind_eq_some_iff.mp h
  have hde := (Copies.bind (fun _ _ h => (take_copies h).1) (fun _ _ h => (take_copies h).1) hd).trans
    (Copies.bind (fun _ _ => matrix_copies) (fun _ _ => matrix_copies) he)
  obtain ⟨hend, hlt⟩ := headEnd_copies h
  exact ⟨hde.trans hend, hlt.trans_le hde.rest_le⟩

theorem gopHead_copies {std : Standard} {c c' : Copy} (h : c.gopHead std = some c') :
    Consumes c c' := by
  obtain ⟨d, hd, h⟩ := Option.bind_eq_some_iff.mp h
  obtain ⟨hend, hlt⟩ := headEnd_copies h
  exact ⟨(take_copies hd).1.trans hend, hlt.trans_le (take_copies hd).1.rest_le⟩

theorem pictureHead_copies {std : Standard} {numBytes : ℕ} {c c' : Copy}
    (h : c.pictureHead std numBytes = some c') : Consumes c c' := by
  obtain ⟨d, hd, h⟩ := Option.bind_eq_some_iff.mp h
  obtain ⟨e, he, hd⟩ := Option.bind_eq_some_iff.mp hd
  have hce := Copies.bind (fun _ _ h => (take_copies h).1) (fun _ _ => vectors_copies) he
  obtain ⟨hend, hlt⟩ := headEnd_copies hd
  have hext := codingExt_copies h
  exact ⟨(hce.trans hend).trans hext, (hext.rest_le.trans_lt hlt).trans_le hce.rest_le⟩

/-! ### The readers and the complete headers -/

/-- From position `k` on the memory holds the code of no header, user data or slice. -/
def BlankFrom (mem : Memory) (k : ℕ) : Prop := ∀ i, k ≤ i → mem i = 0xb0

/-- The file is read to its end, and the last byte of the copy comes from the memory. -/
def Lost (c : Copy) : Prop := c.rest = [] ∧ c.back 1 = 0xb0

/-- The same of any memory, whose byte lies at `k` or behind. -/
def Spent (mem : Memory) (k : ℕ) (c : Copy) : Prop := c.rest = [] ∧ ∃ i, k ≤ i ∧ c.back 1 = mem i

theorem Spent.lost {mem : Memory} {k : ℕ} {c : Copy} (h : Spent mem k c)
    (hb : BlankFrom mem k) : Lost c := by
  obtain ⟨hrest, i, hi, hlast⟩ := h
  exact ⟨hrest, hlast.trans (hb i hi)⟩

/-- The reader `f` does what `g` says where a header is complete, and has spent the file where
it is not, or was not before. -/
structure Tracks (mem : Memory) (f : Copy → Copy) (g : Copy → Option Copy) : Prop where
  complete : ∀ c c', g c = some c' → f c = c'
  lost : ∀ k c, k ≤ c.buf.length → g c = none → Spent mem k (f c)
  ruined : ∀ k c, k ≤ c.buf.length → Spent mem k c → Spent mem k (f c)
  grows : ∀ c, c.buf.length ≤ (f c).buf.length

namespace Tracks

variable {mem : Memory} {f f' : Copy → Copy} {g g' : Copy → Option Copy}

theorem comp (h : Tracks mem f g) (h' : Tracks mem f' g') :
    Tracks mem (fun c => f' (f c)) fun c => (g c).bind g' where
  complete := by
    intro c c' hc
    obtain ⟨d, hd, hc⟩ := Option.bind_eq_some_iff.mp hc
    rw [h.complete c d hd]
    exact h'.complete d c' hc
  lost := by
    intro k c hk hc
    have hk' := hk.trans (h.grows c)
    cases hd : g c with
    | none => exact h'.ruined k _ hk' (h.lost k c hk hd)
    | some d =>
      rw [hd] at hc
      exact h'.lost k _ hk' ((h.complete c d hd).symm ▸ hc)
  ruined := by
    intro k c hk hc
    exact h'.ruined k _ (hk.trans (h.grows c)) (h.ruined k c hk hc)
  grows := fun c => (h.grows c).trans (h'.grows _)

theorem ite (h : Tracks mem f g) (p : Copy → Prop) [DecidablePred p] :
    Tracks mem (fun c => if p c then f c else c) fun c => if p c then g c else some c where
  complete := by
    intro c c' hc
    split at hc
    · rename_i hp
      rw [if_pos hp]
      exact h.complete c c' hc
    · rename_i hp
      rw [if_neg hp]
      exact Option.some.inj hc
  lost := by
    intro k c hk hc
    split at hc
    · rename_i hp
      rw [if_pos hp]
      exact h.lost k c hk hc
    · cases hc
  ruined := by
    intro k c hk hc
    split
    · exact h.ruined k c hk hc
    · exact hc
  grows := by
    intro c
    split
    · exact h.grows c
    · exact le_rfl

end Tracks

section Readers

variable (mem : Memory)

theorem read_length (n : ℕ) (c : Copy) : (c.read mem n).buf.length = c.buf.length + n := by
  unfold Copy.read
  rw [List.length_append, List.length_map, List.length_range]

theorem read_lost {n k : ℕ} {c : Copy} (hk : k ≤ c.buf.length) (hn : c.rest.length < n) :
    Spent mem k (c.read mem n) := by
  refine ⟨List.drop_eq_nil_of_le hn.le, c.buf.length + (n - 1), by omega, ?_⟩
  have hlast : c.buf.length + n - 1 - c.buf.length = n - 1 := by omega
  unfold Copy.back
  rw [read_length]
  unfold Copy.read
  rw [List.getD_append_right _ _ _ _ (by omega), hlast, List.getD_eq_getElem _ _ (by simp; omega),
    List.getElem_map, List.getElem_range, List.getD_eq_default _ _ (by omega)]

theorem read_tracks {n : ℕ} (hn : 0 < n) : Tracks mem (Copy.read mem n) (Copy.take n) where
  complete := by
    intro c c' hc
    unfold Copy.take at hc
    split at hc
    · rename_i hle
      cases hc
      unfold Copy.read
      congr 2
      refine List.ext_getElem (by simp [hle]) fun i hi hi' => ?_
      rw [List.getElem_map, List.getElem_range, List.getElem_take, List.getD_eq_getElem]
    · cases hc
  lost := by
    intro k c hk hc
    unfold Copy.take at hc
    split at hc
    · cases hc
    · rename_i hle
      exact read_lost mem hk (Nat.lt_of_not_le hle)
  ruined := by
    intro k c hk hc
    refine read_lost mem hk ?_
    rw [hc.1]
    exact hn
  grows := by
    intro c
    rw [read_length]
    exact Nat.le_add_right _ _

theorem next_code_tracks : Tracks mem (next_code mem) Copy.mark where
  complete := by
    intro c c' hc
    unfold Copy.mark at hc
    dsimp only at hc
    split at hc
    · cases hc
    · exact (read_tracks mem Nat.one_pos).complete _ c' hc
  lost := by
    intro k c hk hc
    unfold Copy.mark at hc
    dsimp only at hc
    split at hc
    · rename_i hn
      obtain ⟨hrest, hgrows⟩ := start_code_missing hn
      exact read_lost mem (hk.trans hgrows) (by rw [hrest]; exact Nat.one_pos)
    · rename_i hn
      exact (read_tracks mem Nat.one_pos).lost k _ (hk.trans (start_code_found hn).1.grows) hc
  ruined := by
    intro k c hk hc
    have he : next_start_code c = (-1, ⟨c.buf, []⟩) := by
      unfold next_start_code
      rw [hc.1]
    unfold next_code
    rw [he]
    exact read_lost mem hk Nat.one_pos
  grows := by
    intro c
    unfold next_code
    rw [read_length]
    by_cases hn : (next_start_code c).1 < 0
    · exact (start_code_missing hn).2.trans (Nat.le_add_right _ _)
    · exact (start_code_found hn).1.grows.trans (Nat.le_add_right _ _)

theorem end_of_head_tracks (std : Standard) :
    Tracks mem (end_of_head mem std) (Copy.headEnd std) := by
  have hskip := fun code : UInt8 => (next_code_tracks mem).ite fun c => c.back 1 = code
  have htail := ((hskip 0xb5).comp (hskip 0xb2)).ite fun _ => std = .mpeg1
  exact (next_code_tracks mem).comp htail

theorem read_matrices_tracks :
    Tracks mem (read_matrices mem) fun c => (c.matrix 2).bind (Copy.matrix 1) := by
  have hmatrix := fun bit : UInt8 =>
    (read_tracks mem (show 0 < 64 by decide)).ite fun c => (c.back 1 &&& bit) ≠ 0
  exact (hmatrix 2).comp (hmatrix 1)

theorem read_seq_head_tracks (std : Standard) :
    Tracks mem (fun c => (read_seq_head mem std c).1) (Copy.seqHead std) := by
  have hread := (read_tracks mem (show 0 < 4 by decide)).comp
    (read_tracks mem (show 0 < 4 by decide))
  exact hread.comp ((read_matrices_tracks mem).comp (end_of_head_tracks mem std))

theorem read_gop_head_tracks (std : Standard) :
    Tracks mem (fun c => (read_gop_head mem std c).1) (Copy.gopHead std) :=
  (read_tracks mem (show 0 < 4 by decide)).comp (end_of_head_tracks mem std)

theorem read_vectors_tracks : Tracks mem
    (fun c => if (bits (c.back 1) 3 0x07).toNat = 2 ∨ (bits (c.back 1) 3 0x07).toNat = 3 then
      (c.read mem 2).read mem 1 else c) Copy.vectors :=
  ((read_tracks mem (show 0 < 2 by decide)).comp (read_tracks mem (show 0 < 1 by decide))).ite
    fun c => (bits (c.back 1) 3 0x07).toNat = 2 ∨ (bits (c.back 1) 3 0x07).toNat = 3

theorem read_picture_head_tracks (std : Standard) (vsh1 : VideoSpecHead1) :
    Tracks mem (fun c => (read_picture_head mem std vsh1 c).1)
      fun c => ((c.take 2).bind Copy.vectors).bind (Copy.headEnd std) := by
  have htracks := ((read_tracks mem (show 0 < 2 by decide)).comp (read_vectors_tracks mem)).comp
    (end_of_head_tracks mem std)
  convert htracks using 2 with c
  unfold read_picture_head
  dsimp only
  congr 1
  split <;> rfl

theorem read_picture_coding_ext_tracks (std : Standard) (numBytes : ℕ) :
    Tracks mem (fun c => if std = .mpeg2 ∧ c.buf.length < numBytes then
      read_picture_coding_ext mem c else c) (Copy.codingExt std numBytes) := by
  have hread := ((read_tracks mem (show 0 < 3 by decide)).comp
    (read_tracks mem (show 0 < 1 by decide))).comp (read_tracks mem (show 0 < 1 by decide))
  exact (hread.comp (next_code_tracks mem)).ite fun c => std = .mpeg2 ∧ c.buf.length < numBytes

end Readers

end Fenice.Mediainfo.Mpeg
