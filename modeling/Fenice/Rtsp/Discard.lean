import Fenice.Rtsp.Framing

/-!
# What is left of the buffer behind a discarded message

`RTSP_remove_msg` moves everything behind the message to the front and clears
the buffer from the length of the message on, wherever the rest ends.
-/

namespace Fenice.Rtsp
open Fenice.CString

/-- The rest is at the front of the buffer, and behind it there are zeros. -/
structure Discarded (n : ℕ) (ib ib' : InBuffer) : Prop where
  size : ib'.size + n = ib.size
  received : ib'.received = ib.received.drop n
  cleared : ∀ c ∈ ib'.bytes.drop ib'.size, c = 0

instance (n : ℕ) (ib ib' : InBuffer) : Decidable (Discarded n ib ib') :=
  decidable_of_iff (ib'.size + n = ib.size ∧ ib'.received = ib.received.drop n ∧
    ∀ c ∈ ib'.bytes.drop ib'.size, c = 0)
    ⟨fun ⟨h1, h2, h3⟩ => ⟨h1, h2, h3⟩, fun ⟨h1, h2, h3⟩ => ⟨h1, h2, h3⟩⟩

/-- Nothing is to be cleared where `RTSP_remove_msg` does not clear, and nothing is
lost where it does. With the last message the buffer is left as it is. The rest
is wiped from `n` on; a shorter rest is followed up to `n` by what stood behind
it, and where the buffer ends by what stood there before. -/
def Spared (n : ℕ) (ib : InBuffer) : Prop :=
  if ib.size = n then ∀ c ∈ ib.bytes, c = 0
  else
    (∀ c ∈ (ib.bytes.take ib.size).drop (2 * n), c = 0) ∧
      (∀ c ∈ (ib.bytes.take (2 * n)).drop ib.size, c = 0) ∧
        ∀ c ∈ (ib.bytes.take n).drop (bufferSize - n), c = 0

instance (n : ℕ) (ib : InBuffer) : Decidable (Spared n ib) := by
  unfold Spared
  infer_instance

/-! ### Bytes by their index -/

theorem zeros_between {s : Bytes} {a b : ℕ} :
    (∀ c ∈ (s.take b).drop a, c = 0) ↔ ∀ i, a ≤ i → i < b → i < s.length → s[i]? = some 0 := by
  constructor
  · intro h i ha hb hi
    have hc : s[i]? = some s[i] := List.getElem?_eq_getElem hi
    rw [hc, h s[i]]
    rw [List.mem_iff_getElem?]
    refine ⟨i - a, ?_⟩
    rw [List.getElem?_drop, Nat.add_sub_cancel' ha, List.getElem?_take_of_lt hb, hc]
  · intro h c hc
    obtain ⟨j, hj⟩ := List.mem_iff_getElem?.mp hc
    rw [List.getElem?_drop] at hj
    have hlt : a + j < (s.take b).length := by
      by_contra hge
      rw [List.getElem?_eq_none (by omega)] at hj
      cases hj
    rw [List.length_take] at hlt
    rw [List.getElem?_take_of_lt (by omega), h (a + j) (by omega) (by omega) (by omega)] at hj
    cases hj
    rfl

theorem zeros_from {s : Bytes} {a : ℕ} :
    (∀ c ∈ s.drop a, c = 0) ↔ ∀ i, a ≤ i → i < s.length → s[i]? = some 0 := by
  have h := zeros_between (s := s) (a := a) (b := s.length)
  rw [List.take_length] at h
  rw [h]
  exact ⟨fun h i ha hi => h i ha hi hi, fun h i ha _ hi => h i ha hi⟩

theorem remove_byte {ib : InBuffer} {n : ℕ} (hpos : 0 < n) (hn : n < ib.size) :
    ∃ ib', RTSP_remove_msg n ib = some ib' ∧ ib'.size = ib.size - n ∧
      ∀ i < bufferSize, ib'.bytes[i]? =
        if n ≤ i then some 0
        else if i + n < bufferSize then ib.bytes[n + i]?
        else ib.bytes[i]? := by
  have hfits := ib.fits
  have hfull := ib.full
  unfold RTSP_remove_msg
  rw [dif_pos ⟨by omega, by omega⟩]
  simp only [Int.toNat_natCast]
  rw [if_pos ⟨by omega, by omega⟩]
  refine ⟨_, rfl, rfl, ?_⟩
  intro i hi
  have hlen : ((ib.bytes.drop n ++ ib.bytes.drop (bufferSize - n)).take n).length = n := by
    simp only [List.length_take, List.length_append, List.length_drop]
    omega
  by_cases hni : n ≤ i
  · rw [if_pos hni, List.getElem?_append_right (by omega), hlen, List.getElem?_replicate,
      if_pos (by omega)]
  · rw [if_neg hni, List.getElem?_append_left (by omega), List.getElem?_take_of_lt (by omega)]
    by_cases hmoved : i + n < bufferSize
    · rw [if_pos hmoved, List.getElem?_append_left (by rw [List.length_drop]; omega),
        List.getElem?_drop]
    · rw [if_neg hmoved, List.getElem?_append_right (by rw [List.length_drop]; omega),
        List.length_drop, List.getElem?_drop]
      congr 1
      omega

theorem remove_last {ib : InBuffer} {n : ℕ} (hn : ib.size = n) :
    ∃ ib', RTSP_remove_msg n ib = some ib' ∧ ib'.size = 0 ∧ ib'.bytes = ib.bytes := by
  unfold RTSP_remove_msg
  rw [dif_pos ⟨by omega, by omega⟩]
  simp only [Int.toNat_natCast]
  rw [if_neg fun h => h.1 (by omega)]
  exact ⟨_, rfl, by simp only [hn, Nat.sub_self], rfl⟩

theorem discarded_last {ib ib' : InBuffer} {n : ℕ} (hn : ib.size = n) (hsize : ib'.size = 0)
    (hbytes : ib'.bytes = ib.bytes) : Discarded n ib ib' ↔ ∀ c ∈ ib.bytes, c = 0 := by
  constructor
  · intro h
    have hc := h.cleared
    rw [hsize, hbytes, List.drop_zero] at hc
    exact hc
  · intro h
    refine ⟨by omega, ?_, ?_⟩
    · rw [InBuffer.received, hsize, List.take_zero, List.drop_eq_nil_of_le]
      rw [ib.length_received]
      omega
    · intro c hc
      rw [hbytes] at hc
      exact h c (List.mem_of_mem_drop hc)

/-- The rest is kept iff nothing of it stands from the length of the message on. -/
theorem received_kept {ib ib' : InBuffer} {n : ℕ} (hn : n < ib.size)
    (hsize : ib'.size = ib.size - n)
    (hbyte : ∀ i < bufferSize, ib'.bytes[i]? =
      if n ≤ i then some 0
      else if i + n < bufferSize then ib.bytes[n + i]?
      else ib.bytes[i]?) :
    ib'.received = ib.received.drop n ↔
      ∀ c ∈ (ib.bytes.take ib.size).drop (2 * n), c = 0 := by
  have hfits := ib.fits
  have hfull := ib.full
  rw [zeros_between]
  constructor
  · intro h i h2 hi _
    have hat := congrArg (fun s : Bytes => s[i - n]?) h
    simp only [InBuffer.received, List.getElem?_drop] at hat
    rw [List.getElem?_take_of_lt (by omega), hbyte _ (by omega), if_pos (by omega),
      show n + (i - n) = i by omega, List.getElem?_take_of_lt hi] at hat
    exact hat.symm
  · intro h
    apply List.ext_getElem?
    intro i
    simp only [InBuffer.received, List.getElem?_drop]
    by_cases hi : i < ib.size - n
    · rw [List.getElem?_take_of_lt (by omega), List.getElem?_take_of_lt (by omega),
        hbyte i (by omega)]
      by_cases hni : n ≤ i
      · rw [if_pos hni, h (n + i) (by omega) (by omega) (by omega)]
      · rw [if_neg hni, if_pos (by omega)]
    · rw [List.getElem?_eq_none, List.getElem?_eq_none]
      · rw [List.length_take]
        omega
      · rw [List.length_take]
        omega

/-- There are zeros behind the rest iff there were where nothing is cleared. -/
theorem rest_cleared {ib ib' : InBuffer} {n : ℕ} (hn : n < ib.size)
    (hsize : ib'.size = ib.size - n)
    (hbyte : ∀ i < bufferSize, ib'.bytes[i]? =
      if n ≤ i then some 0
      else if i + n < bufferSize then ib.bytes[n + i]?
      else ib.bytes[i]?) :
    (∀ c ∈ ib'.bytes.drop ib'.size, c = 0) ↔
      (∀ c ∈ (ib.bytes.take (2 * n)).drop ib.size, c = 0) ∧
        ∀ c ∈ (ib.bytes.take n).drop (bufferSize - n), c = 0 := by
  have hfits := ib.fits
  have hfull := ib.full
  have hfull' := ib'.full
  rw [zeros_from, zeros_between, zeros_between]
  constructor
  · intro h
    constructor
    · intro i hi h2 hlt
      have hat := h (i - n) (by omega) (by omega)
      rw [hbyte _ (by omega), if_neg (by omega), if_pos (by omega),
        show n + (i - n) = i by omega] at hat
      exact hat
    · intro i hi h2 hlt
      have hat := h i (by omega) (by omega)
      rw [hbyte _ (by omega), if_neg (by omega), if_neg (by omega)] at hat
      exact hat
  · intro ⟨hmoved, hleft⟩ i hi hlt
    rw [hbyte i (by omega)]
    by_cases hni : n ≤ i
    · rw [if_pos hni]
    rw [if_neg hni]
    by_cases hin : i + n < bufferSize
    · rw [if_pos hin]
      exact hmoved (n + i) (by omega) (by omega) (by omega)
    · rw [if_neg hin]
      exact hleft i (by omega) (by omega) (by omega)

/-- A message is discarded without harm iff the bytes around it allow it. -/
theorem discards_exactly (ib : InBuffer) (len : ℤ) (hpos : 0 < len) (hle : len ≤ ib.size) :
    (∃ ib', RTSP_remove_msg len ib = some ib' ∧ Discarded len.toNat ib ib') ↔
      Spared len.toNat ib := by
  obtain ⟨n, rfl⟩ := Int.eq_ofNat_of_zero_le (Int.le_of_lt hpos)
  simp only [Int.toNat_natCast]
  unfold Spared
  by_cases hlast : ib.size = n
  · rw [if_pos hlast]
    obtain ⟨ib', hremove, hsize, hbytes⟩ := remove_last hlast
    rw [hremove, ← discarded_last hlast hsize hbytes]
    constructor
    · intro ⟨_, he, h⟩
      cases he
      exact h
    · exact fun h => ⟨ib', rfl, h⟩
  · rw [if_neg hlast]
    have hn : n < ib.size := by omega
    obtain ⟨ib', hremove, hsize, hbyte⟩ := remove_byte (by omega) hn
    rw [hremove, ← received_kept hn hsize hbyte, ← rest_cleared hn hsize hbyte]
    constructor
    · intro ⟨_, he, h⟩
      cases he
      exact ⟨h.received, h.cleared⟩
    · exact fun ⟨hr, hc⟩ => ⟨ib', rfl, by omega, hr, hc⟩

/-- Two requests of the same length that fill the buffer so far received. -/
def optionsTwice : InBuffer :=
  InBuffer.empty.append
    (lit "OPTIONS * RTSP/1.0\r\nCSeq: 1\r\n\r\nOPTIONS * RTSP/1.0\r\nCSeq: 2\r\n\r\n") (by decide)

theorem discards_options :
    (0 < (31 : ℤ) ∧ (31 : ℤ) ≤ optionsTwice.size) ∧
      ((∃ ib', RTSP_remove_msg 31 optionsTwice = some ib' ∧ Discarded 31 optionsTwice ib') ↔
        Spared 31 optionsTwice) :=
  ⟨by decide +kernel, discards_exactly optionsTwice 31 (by decide) (by decide +kernel)⟩

/-- A short request in front of a longer one. -/
def optionsThenPause : InBuffer :=
  InBuffer.empty.append
    (lit "OPTIONS * RTSP/1.0\r\nCSeq: 1\r\n\r\n" ++
      lit "PAUSE rtsp://localhost/film.sd RTSP/1.0\r\nCSeq: 2\r\nSession: 7\r\n\r\n") (by decide)

/-- The end of the longer one is wiped. -/
theorem pipelined_wiped :
    RTSP_full_msg_rcvd optionsThenPause = .method 31 0 ∧
      (0 < (31 : ℤ) ∧ (31 : ℤ) ≤ optionsThenPause.size) ∧
        ¬ ∃ ib', RTSP_remove_msg 31 optionsThenPause = some ib' ∧
          Discarded 31 optionsThenPause ib' := by
  refine ⟨by decide +kernel, by decide +kernel, ?_⟩
  have hlost : ∀ ib' ∈ RTSP_remove_msg 31 optionsThenPause,
      ib'.received ≠ optionsThenPause.received.drop 31 := by decide +kernel
  intro ⟨ib', he, h⟩
  exact hlost ib' he h.received

end Fenice.Rtsp
