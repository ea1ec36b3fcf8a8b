import Fenice.Lib.CString
import Fenice.Mediainfo.MpegStream
import Mathlib.Data.BitVec

/-!
# Looking for a start code (common_utils.c)

`next_start_code` as it works on memory: it copies byte by byte to `buf[*buf_size]` until the
three bytes that it holds are those of a start code. The index is a `uint32` and the result an
`int`. The readers of MPEG video know the buffer as the list of the bytes in it, which is the
same as long as the index does not begin again at zero.
-/

namespace Fenice.Mediainfo
open Mpeg (Copy MarkAt NoMark scan scan_at scan_finds scan_found)
open Fenice.CString

/-- The memory from `buf` on, and `*buf_size`. -/
structure Buffer where
  mem : ℕ → UInt8
  size : BitVec 32

/-- `buf[*buf_size] = x; *buf_size += 1`. -/
def Buffer.put (b : Buffer) (x : UInt8) : Buffer :=
  ⟨Function.update b.mem b.size.toNat x, b.size + 1⟩

def Buffer.putAll (b : Buffer) (bytes : List UInt8) : Buffer := bytes.foldl Buffer.put b

/-- What `next_start_code` returns and leaves; `rest` are the bytes of the file not read yet. -/
structure Scanned where
  result : ℤ
  buffer : Buffer
  rest : List UInt8

/-- The loop with the three bytes of `buf_aux` and `count`. -/
def scanLoop (x y z : UInt8) (b : Buffer) (count : BitVec 32) : List UInt8 → Scanned
  | [] =>
    if x = 0 ∧ y = 0 ∧ z = 1 then ⟨count.toInt, b.putAll [x, y, z], []⟩ else ⟨-1, b.put x, []⟩
  | d :: rest =>
    if x = 0 ∧ y = 0 ∧ z = 1 then ⟨count.toInt, b.putAll [x, y, z], d :: rest⟩
    else scanLoop y z d (b.put x) (count + 1) rest

/-- A file with less than three bytes is read to its end. -/
def next_start_code (b : Buffer) : List UInt8 → Scanned
  | x :: y :: z :: rest => scanLoop x y z b 0 rest
  | _ => ⟨-1, b, []⟩

/-- The bytes stand one behind the other from `*buf_size` on, and nothing else has changed. -/
structure Appends (b : Buffer) (bytes : List UInt8) (b' : Buffer) : Prop where
  size : b'.size.toNat = b.size.toNat + bytes.length
  written : ∀ i x, bytes[i]? = some x → b'.mem (b.size.toNat + i) = x
  kept : ∀ a, a < b.size.toNat ∨ b.size.toNat + bytes.length ≤ a → b'.mem a = b.mem a

/-- The same with an index that begins again at zero behind `2 ^ 32 - 1`. -/
structure Wraps (b : Buffer) (bytes : List UInt8) (b' : Buffer) : Prop where
  size : b'.size = b.size + BitVec.ofNat 32 bytes.length
  written : ∀ i x, bytes[i]? = some x → bytes.length ≤ i + 2 ^ 32 →
    b'.mem (b.size + BitVec.ofNat 32 i).toNat = x
  kept : ∀ a, (∀ i < bytes.length, a ≠ (b.size + BitVec.ofNat 32 i).toNat) → b'.mem a = b.mem a

section Buffers

variable {b b' : Buffer} {bytes : List UInt8} {x : UInt8} {n : ℕ}

theorem Buffer.putAll_concat (b : Buffer) (bytes : List UInt8) (x : UInt8) :
    b.putAll (bytes ++ [x]) = (b.putAll bytes).put x := List.foldl_concat ..

theorem index_toNat (s : BitVec 32) (i : ℕ) :
    (s + BitVec.ofNat 32 i).toNat = (s.toNat + i) % 2 ^ 32 := by
  rw [BitVec.toNat_add, BitVec.toNat_ofNat, Nat.add_mod_mod]

theorem Buffer.wraps (b : Buffer) (bytes : List UInt8) : Wraps b bytes (b.putAll bytes) := by
  induction bytes using List.reverseRecOn with
  | nil =>
    refine ⟨(BitVec.add_zero _).symm, ?_, fun a _ => rfl⟩
    intro i x hx
    cases hx
  | append_singleton bytes x ih =>
    have hlen : (bytes ++ [x]).length = bytes.length + 1 := List.length_append
    have hmem : ∀ a, (b.putAll (bytes ++ [x])).mem a =
        if a = (b.size + BitVec.ofNat 32 bytes.length).toNat then x
        else (b.putAll bytes).mem a := by
      intro a
      rw [Buffer.putAll_concat, Buffer.put]
      dsimp only
      rw [Function.update_apply, ih.size]
    refine ⟨?_, ?_, ?_⟩
    · rw [Buffer.putAll_concat, Buffer.put]
      dsimp only
      rw [ih.size, hlen, BitVec.ofNat_add, BitVec.add_assoc]
      rfl
    · intro i y hy hi
      rw [hlen] at hi
      rw [hmem]
      rcases Nat.lt_or_ge i bytes.length with hlt | hge
      · have hne : (b.size + BitVec.ofNat 32 i).toNat ≠
            (b.size + BitVec.ofNat 32 bytes.length).toNat := by
          rw [index_toNat, index_toNat]
          omega
        rw [List.getElem?_append_left hlt] at hy
        rw [if_neg hne]
        exact ih.written i y hy (by omega)
      · have hlast := (List.getElem?_eq_some_iff.mp hy).1
        obtain rfl : i = bytes.length := by omega
        rw [List.getElem?_concat_length, Option.some.injEq] at hy
        rw [if_pos rfl, hy]
    · intro a ha
      rw [hlen] at ha
      rw [hmem, if_neg (ha _ (Nat.lt_succ_self _))]
      exact ih.kept a fun i hi => ha i (Nat.lt_succ_of_lt hi)

theorem Wraps.appends (h : Wraps b bytes b') (hfit : b.size.toNat + bytes.length < 2 ^ 32) :
    Appends b bytes b' := by
  have hindex : ∀ i ≤ bytes.length,
      (b.size + BitVec.ofNat 32 i).toNat = b.size.toNat + i := by
    intro i hi
    rw [index_toNat, Nat.mod_eq_of_lt (by omega)]
  refine ⟨?_, ?_, ?_⟩
  · rw [h.size, hindex _ le_rfl]
  · intro i x hx
    have hi := (List.getElem?_eq_some_iff.mp hx).1
    rw [← hindex i hi.le]
    exact h.written i x hx (by omega)
  · intro a ha
    refine h.kept a fun i hi => ?_
    rw [hindex i hi.le]
    omega

end Buffers

/-! ### The scan -/

section Scan

variable {file rest copied left : List UInt8} {x y z : UInt8} {b : Buffer} {pos k : ℕ}

theorem scanLoop_eq (b : Buffer) (count : BitVec 32) :
    scanLoop x y z b count rest =
      match scan x y z rest with
      | (copied, some left) =>
        ⟨(count + BitVec.ofNat 32 (copied.length - 3)).toInt, b.putAll copied, left⟩
      | (copied, none) => ⟨-1, b.putAll copied, []⟩ := by
  induction rest generalizing x y z b count with
  | nil =>
    rw [scanLoop, scan]
    split
    · simp
    · rfl
  | cons d rest ih =>
    rw [scanLoop, scan]
    split
    · simp
    · rw [ih]
      rcases hs : scan y z d rest with ⟨copied, _ | left⟩
      · rfl
      · have hlen := (scan_found hs).2
        have hsub : copied.length + 1 - 3 = 1 + (copied.length - 3) := by omega
        dsimp only
        rw [List.length_cons, hsub, BitVec.ofNat_add, ← BitVec.add_assoc]
        rfl

theorem next_start_code_eq (h : rest = x :: y :: z :: left) :
    next_start_code b rest =
      match scan x y z left with
      | (copied, some left) => ⟨int32 (copied.length - 3), b.putAll copied, left⟩
      | (copied, none) => ⟨-1, b.putAll copied, []⟩ := by
  rw [h, next_start_code, scanLoop_eq]
  rcases hs : scan x y z left with ⟨copied, _ | left⟩
  · rfl
  · have hlen := (scan_found hs).2
    dsimp only
    rw [zero_add, toInt_ofNat, Nat.cast_sub hlen]
    rfl

theorem length_scan_le (x y z : UInt8) (rest : List UInt8) :
    (scan x y z rest).1.length ≤ rest.length + 3 := by
  induction rest generalizing x y z with
  | nil =>
    rw [scan]
    split <;> simp
  | cons d rest ih =>
    rw [scan]
    split
    · simp
    · have hle := ih y z d
      simp only [List.length_cons]
      omega

theorem scan_first (hn : file.drop pos = x :: y :: z :: rest) (hk : pos ≤ k)
    (hmark : MarkAt file k) (hno : NoMark file pos k) :
    scan x y z rest = ((file.drop pos).take (k + 3 - pos), some (file.drop (k + 3))) := by
  obtain ⟨copied, left, hs⟩ := scan_finds hn hk hmark
  obtain ⟨j, hj, hmark', hleft, hno'⟩ := scan_at hn hs
  obtain ⟨hbytes, hlen⟩ := scan_found hs
  obtain rfl : j = k := by
    rcases Nat.lt_trichotomy j k with hlt | heq | hgt
    · exact absurd hmark' (hno j hj hlt)
    · exact heq
    · exact absurd hmark (hno' k hk hgt)
  have hsplit : copied ++ file.drop (j + 3) = file.drop pos := by
    rw [hleft, hbytes, hn]
  have hcount : copied.length = j + 3 - pos := by
    have hone := (List.getElem?_eq_some_iff.mp hmark'.one).1
    have hlens := congrArg List.length hsplit
    rw [List.length_append, List.length_drop, List.length_drop] at hlens
    omega
  rw [hs, ← hsplit, ← hcount, List.take_left, hleft]

theorem scan_none (hn : file.drop pos = x :: y :: z :: rest)
    (hno : ∀ k, pos ≤ k → ¬ MarkAt file k) : ∃ copied, scan x y z rest = (copied, none) := by
  rcases hs : scan x y z rest with ⟨copied, _ | left⟩
  · exact ⟨copied, rfl⟩
  · obtain ⟨k, hk, hmark, -⟩ := scan_at hn hs
    exact absurd hmark (hno k hk)

end Scan

/-- What a scan from `pos` on does when the first start code stands at `k`: it copies up to the
end of it, and comes back with the number of bytes in front. The last two parts are for an index
and a number that are not too large for their types. -/
structure Finds (file : List UInt8) (pos k : ℕ) (b : Buffer) (r : Scanned) : Prop where
  result : r.result = int32 (k - pos)
  rest : r.rest = file.drop (k + 3)
  stored : Wraps b ((file.drop pos).take (k + 3 - pos)) r.buffer
  counted : k - pos < 2 ^ 31 → r.result = k - pos
  appended : b.size.toNat + (k + 3 - pos) < 2 ^ 32 →
    Appends b ((file.drop pos).take (k + 3 - pos)) r.buffer

/-- `next_start_code` finds the first start code, and fails if there is none. -/
theorem finds_first_start_code (file : List UInt8) (pos : ℕ) (b : Buffer) :
    (∀ k, pos ≤ k → MarkAt file k → NoMark file pos k →
      Finds file pos k b (next_start_code b (file.drop pos))) ∧
    ((∀ k, pos ≤ k → ¬ MarkAt file k) → (next_start_code b (file.drop pos)).result = -1) := by
  constructor
  · intro k hk hmark hno
    have hone := (List.getElem?_eq_some_iff.mp hmark.one).1
    obtain ⟨x, y, z, rest, hn⟩ : ∃ x y z rest, file.drop pos = x :: y :: z :: rest := by
      match hd : file.drop pos with
      | x :: y :: z :: rest => exact ⟨x, y, z, rest, rfl⟩
      | [] | [_] | [_, _] =>
        have hlen := congrArg List.length hd
        simp only [List.length_drop, List.length_cons, List.length_nil] at hlen
        omega
    have hlen : ((file.drop pos).take (k + 3 - pos)).length = k + 3 - pos := by
      rw [List.length_take, List.length_drop]
      omega
    have hresult : next_start_code b (file.drop pos) =
        ⟨int32 (k - pos), b.putAll ((file.drop pos).take (k + 3 - pos)), file.drop (k + 3)⟩ := by
      rw [next_start_code_eq hn, scan_first hn hk hmark hno]
      dsimp only
      rw [hlen]
      congr 2
      omega
    rw [hresult]
    have hwraps := b.wraps ((file.drop pos).take (k + 3 - pos))
    refine ⟨rfl, rfl, hwraps, ?_, ?_⟩
    · intro hsmall
      exact int32_of_small (by omega) (by omega)
    · intro hfit
      exact hwraps.appends (by omega)
  · intro hno
    match hd : file.drop pos with
    | x :: y :: z :: rest =>
      obtain ⟨copied, hs⟩ := scan_none hd hno
      rw [next_start_code_eq rfl, hs]
    | [] | [_] | [_, _] => rfl

/-- The index of the buffer begins again at zero in the midst of a start code. -/
theorem index_begins_again : ¬ ∀ (file : List UInt8) (pos : ℕ) (b : Buffer),
    (∀ k, pos ≤ k → MarkAt file k → NoMark file pos k →
      (next_start_code b (file.drop pos)).result = k - pos ∧
      (next_start_code b (file.drop pos)).rest = file.drop (k + 3) ∧
      Appends b ((file.drop pos).take (k + 3 - pos)) (next_start_code b (file.drop pos)).buffer) ∧
    ((∀ k, pos ≤ k → ¬ MarkAt file k) → (next_start_code b (file.drop pos)).result = -1) := by
  intro hall
  have hno : NoMark [0, 0, 1] 0 0 := fun j _ hj => absurd hj (Nat.not_lt_zero j)
  have h := ((hall [0, 0, 1] 0 ⟨fun _ => 0, 0xffffffff⟩).1 0 le_rfl (by decide) hno).2.2.size
  revert h
  decide

/-! ### The list of the readers -/

/-- The bytes of a list stand in the buffer. -/
structure Mirrors (b : Buffer) (buf : List UInt8) : Prop where
  size : b.size.toNat = buf.length
  mem : ∀ i x, buf[i]? = some x → b.mem i = x

theorem Mirrors.append {b b' : Buffer} {buf bytes : List UInt8} (h : Mirrors b buf)
    (ha : Appends b bytes b') : Mirrors b' (buf ++ bytes) := by
  refine ⟨?_, ?_⟩
  · rw [ha.size, h.size, List.length_append]
  · intro i x hx
    rcases Nat.lt_or_ge i buf.length with hlt | hge
    · rw [List.getElem?_append_left hlt] at hx
      rw [ha.kept i (.inl (by rw [h.size]; exact hlt))]
      exact h.mem i x hx
    · rw [List.getElem?_append_right hge] at hx
      have hi : i = b.size.toNat + (i - buf.length) := by
        rw [h.size]
        omega
      rw [hi]
      exact ha.written _ x hx

/-- In a buffer that is long enough the readers see what `next_start_code` does. -/
theorem next_start_code_refines {b : Buffer} {c : Copy} (h : Mirrors b c.buf)
    (hfit : c.buf.length + c.rest.length < 2 ^ 31) :
    Mirrors (next_start_code b c.rest).buffer (Mpeg.next_start_code c).2.buf ∧
      (next_start_code b c.rest).rest = (Mpeg.next_start_code c).2.rest ∧
      (next_start_code b c.rest).result = (Mpeg.next_start_code c).1 := by
  obtain ⟨buf, rest⟩ := c
  dsimp only at h hfit ⊢
  match rest with
  | [] | [_] | [_, _] => exact ⟨by simpa [next_start_code, Mpeg.next_start_code] using h, rfl, rfl⟩
  | x :: y :: z :: rest =>
    have hlen := length_scan_le x y z rest
    have happend : ∀ copied : List UInt8, copied.length ≤ rest.length + 3 →
        Mirrors (b.putAll copied) (buf ++ copied) := by
      intro copied hle
      refine h.append ((b.wraps copied).appends ?_)
      have hsize := h.size
      simp only [List.length_cons] at hfit
      omega
    rw [next_start_code_eq rfl, Mpeg.next_start_code]
    dsimp only
    rcases hs : scan x y z rest with ⟨copied, _ | left⟩
    · rw [hs] at hlen
      exact ⟨happend copied hlen, rfl, rfl⟩
    · rw [hs] at hlen
      have h3 := (scan_found hs).2
      refine ⟨happend copied hlen, rfl, int32_of_small ?_ ?_⟩
      · omega
      · simp only [List.length_cons] at hfit hlen
        omega

end Fenice.Mediainfo
