import Fenice.Lib.Ring
import Fenice.BufferPool.Pool
import Mathlib.Data.List.Count

/-!
# The invariant of a pool

Read from the slot behind `write_pos`, the ring is a stretch of `z` slots that
were never written, then the committed slots with consecutive `slot_seq`
`lo, lo + 1, …`, the last one at `write_pos`. A page is only added when no
unwritten slot is left, so it lands in front of this order, and a commit turns
the order by one.
-/

namespace Fenice.BufferPool
open Fenice.Ring

/-- Shape of the ring: `ord` is the order described above. -/
structure RingInv (b : OMSBuffer) (ord : ℕ → ℕ) (z lo : ℕ) : Prop where
  ring : IsRing (fun i => (b.slots i).next) ord b.control.nslots
  bound : ∀ i < b.control.nslots, ord i < b.control.nslots
  written : b.control.writePos = ord (b.control.nslots - 1)
  fresh_le : z ≤ b.control.nslots
  lo_pos : 0 < lo
  lo_one : z = b.control.nslots → lo = 1
  fresh : ∀ i < z, (b.slots (ord i)).slotSeq = 0 ∧ (b.slots (ord i)).refs = 0
  seqs : ∀ i, z ≤ i → i < b.control.nslots → (b.slots (ord i)).slotSeq = lo + (i - z)
  valid : ∃ v < b.control.nslots, b.control.validReadPos = ord v ∧
    (z < b.control.nslots → z ≤ v) ∧ (z = b.control.nslots → v = 0)
  small : ∀ i < b.control.nslots, (b.slots i).refs < 65536
  small_count : b.control.refs < 65536

namespace RingInv

variable {b : OMSBuffer} {ord : ℕ → ℕ} {z lo : ℕ}

theorem lastSeq_eq (h : RingInv b ord z lo) :
    b.lastSeq = lo + (b.control.nslots - z) - 1 := by
  have hp := h.ring.pos
  unfold OMSBuffer.lastSeq
  rw [h.written]
  by_cases hz : z ≤ b.control.nslots - 1
  · rw [h.seqs _ hz (by omega)]
    omega
  · have he : z = b.control.nslots := by have := h.fresh_le; omega
    rw [(h.fresh _ (by omega)).1, h.lo_one he]
    omega

theorem committed_at (h : RingInv b ord z lo) {i : ℕ} (hi : i < b.control.nslots)
    (hs : (b.slots (ord i)).slotSeq ≠ 0) :
    z ≤ i ∧ (b.slots (ord i)).slotSeq = lo + (i - z) := by
  have hz : z ≤ i := by
    by_contra hn
    exact hs (h.fresh i (by omega)).1
  exact ⟨hz, h.seqs i hz hi⟩

theorem seq_le_last (h : RingInv b ord z lo) {i : ℕ} (hi : i < b.control.nslots) :
    (b.slots (ord i)).slotSeq ≤ b.lastSeq := by
  by_cases hs : (b.slots (ord i)).slotSeq = 0
  · omega
  · have := h.committed_at hi hs
    have := h.lastSeq_eq
    omega

theorem lo_le_seq (h : RingInv b ord z lo) {i : ℕ} (hi : i < b.control.nslots)
    (hs : (b.slots (ord i)).slotSeq ≠ 0) : lo ≤ (b.slots (ord i)).slotSeq := by
  have := h.committed_at hi hs
  omega

theorem eq_of_seq (h : RingInv b ord z lo) {i j : ℕ} (hi : i < b.control.nslots)
    (hj : j < b.control.nslots) (hs : (b.slots (ord i)).slotSeq ≠ 0)
    (he : (b.slots (ord i)).slotSeq = (b.slots (ord j)).slotSeq) : i = j := by
  have := h.committed_at hi hs
  have := h.committed_at hj (he ▸ hs)
  omega

theorem slot_of_seq (h : RingInv b ord z lo) {q : ℕ} (hl : lo ≤ q) (hk : q ≤ b.lastSeq) :
    ∃ i, z ≤ i ∧ i < b.control.nslots ∧ (b.slots (ord i)).slotSeq = q := by
  have hp := h.lo_pos
  have hq := h.lastSeq_eq
  refine ⟨z + (q - lo), by omega, by omega, ?_⟩
  rw [h.seqs _ (by omega) (by omega)]
  omega

/-- The slot behind a committed one that is not the newest carries the next number. -/
theorem next_seq (h : RingInv b ord z lo) {i : ℕ} (hi : i < b.control.nslots)
    (hs : (b.slots (ord i)).slotSeq ≠ 0) (hk : (b.slots (ord i)).slotSeq < b.lastSeq) :
    (b.slots (b.slots (ord i)).next).slotSeq = (b.slots (ord i)).slotSeq + 1 := by
  obtain ⟨hz, hq⟩ := h.committed_at hi hs
  have hl := h.lastSeq_eq
  have hn := h.ring.succ i (by omega)
  rw [hn, h.seqs (i + 1) (by omega) (by omega), hq]
  omega

theorem next_write (h : RingInv b ord z lo) : (b.slots b.control.writePos).next = ord 0 := by
  rw [h.written]
  exact h.ring.wrap

theorem fresh_zero (h : RingInv b ord z lo) (hr : 0 < (b.slots (ord 0)).refs) : z = 0 := by
  by_contra hn
  have := (h.fresh 0 (by omega)).2
  omega

theorem index_of_lt (h : RingInv b ord z lo) {s : ℕ} (hs : s < b.control.nslots) :
    ∃ i < b.control.nslots, s = ord i := h.ring.index_of_lt h.bound hs

end RingInv

/-- A consumer that is counted in the oldest slot it can still be given. -/
def Client.owing (cl : Client) (lo : ℕ) : Prop := cl.status.covers (max cl.cursor lo) = true

theorem covers_mono {st : Status} {q q' : ℕ} (h : st.covers q' = true) (hq : q ≤ q') :
    st.covers q = true := by
  cases st with
  | reading => rfl
  | leaving last =>
    simp only [Status.covers, decide_eq_true_eq] at h ⊢
    omega
  | gone => cases h

theorem Client.owing.covers {cl : Client} {lo : ℕ} (h : cl.owing lo) :
    cl.status.covers cl.cursor = true := covers_mono h (le_max_left ..)

/-- Position of one consumer that has not left. `lastReadPos` may have been
overwritten, then the oldest slot of the ring is the next one to read. -/
structure ClientInv (n₀ : ℕ) (b : OMSBuffer) (ord : ℕ → ℕ) (z lo : ℕ) (cl : Client) : Prop where
  first_pos : 0 < cl.first
  upTo : cl.cursor ≤ b.lastSeq + 1
  readIn : ∃ j < b.control.nslots, cl.cons.readPos = ord j
  unread : cl.cons.lastReadPos = none → cl.cons.lastSeq = 0 ∧
    (cl.cursor ≤ b.lastSeq → max cl.cursor lo ≤ (b.slots cl.cons.readPos).slotSeq) ∧
    (b.lastSeq < cl.cursor → z = b.control.nslots ∧ cl.cons.readPos = ord 0)
  unreadOwing : cl.cons.lastReadPos = none → cl.owing lo → cl.cursor ≤ b.lastSeq →
    (b.slots cl.cons.readPos).slotSeq = max cl.cursor lo
  last : ∀ l, cl.cons.lastReadPos = some l → 0 < cl.cons.lastSeq ∧
    (∃ j < b.control.nslots, l = ord j) ∧
    ((b.slots l).slotSeq = cl.cons.lastSeq ∨ cl.cursor ≤ lo)
  lower : cl.cons.lastReadPos ≠ none ∨ 2 ≤ n₀ → cl.status.covers cl.cursor = true →
    lo ≤ cl.cursor
  covered : ∀ last, cl.status = .leaving last → last ≤ b.lastSeq

/-- The slot the producer holds is the one behind `write_pos`, nobody refers to
it and new consumers do not begin with it; in a buffer of a single slot it is
the newest slot itself. -/
structure HeldInv (b : OMSBuffer) (clients : List Client) (ord : ℕ → ℕ) (z lo s : ℕ) :
    Prop where
  eq : s = ord 0
  free : 2 ≤ b.control.nslots → (b.slots s).refs = 0
  pushed : 2 ≤ b.control.nslots → z = 0 → b.control.validReadPos ≠ s
  behind : z = 0 → ∀ cl ∈ clients, cl.owing lo → cl.cons.lastReadPos ≠ none → lo < cl.cursor

structure Inv (n₀ : ℕ) (p : Pool) (ord : ℕ → ℕ) (z lo : ℕ) : Prop where
  ring : RingInv p.buffer ord z lo
  size : n₀ ≤ p.buffer.control.nslots
  counts : ∀ i, z ≤ i → i < p.buffer.control.nslots →
    (p.buffer.slots (ord i)).refs = p.clients.countP fun cl => cl.owes (lo + (i - z))
  readers : p.buffer.control.refs = p.clients.countP fun cl => cl.status = .reading
  client : ∀ cl ∈ p.clients, cl.status ≠ .gone → ClientInv n₀ p.buffer ord z lo cl
  held : ∀ s ∈ p.slot, HeldInv p.buffer p.clients ord z lo s

/-- `n₀` is the size the buffer was made with. -/
def PoolInv (n₀ : ℕ) (p : Pool) : Prop := ∃ ord z lo, Inv n₀ p ord z lo

/-! ### Selection -/

section Selection

variable {n₀ : ℕ} {b : OMSBuffer} {ord : ℕ → ℕ} {z lo : ℕ} {cl : Client}

theorem cursor_of_none (h : cl.cons.lastReadPos = none) : cl.cursor = cl.first := by
  unfold Client.cursor
  rw [h]

theorem cursor_of_some {l : ℕ} (h : cl.cons.lastReadPos = some l) :
    cl.cursor = cl.cons.lastSeq + 1 := by
  unfold Client.cursor
  rw [h]

theorem ClientInv.cursor_pos (hc : ClientInv n₀ b ord z lo cl) : 0 < cl.cursor := by
  cases hl : cl.cons.lastReadPos with
  | none =>
    rw [cursor_of_none hl]
    exact hc.first_pos
  | some l =>
    rw [cursor_of_some hl]
    omega

/-- The slot behind the one read last, when that one still holds what was read. -/
theorem behind_unread (hr : RingInv b ord z lo) (hc : ClientInv n₀ b ord z lo cl) {l : ℕ}
    (hl : cl.cons.lastReadPos = some l) (hs : (b.slots l).slotSeq = cl.cons.lastSeq)
    (hk : cl.cursor ≤ b.lastSeq) :
    (b.slots (b.slots l).next).slotSeq = cl.cursor ∧ lo < cl.cursor := by
  obtain ⟨hpos, ⟨j, hj, rfl⟩, -⟩ := hc.last l hl
  rw [cursor_of_some hl] at hk ⊢
  have hlo := hr.lo_le_seq hj (by omega)
  rw [hr.next_seq hj (by omega) (by omega), hs]
  exact ⟨rfl, by omega⟩

/-- Whatever a safe read selects was not consumed before. -/
theorem select_unread (hr : RingInv b ord z lo) (hc : ClientInv n₀ b ord z lo cl)
    (hsafe : ReadSafe b cl.cons) {s : ℕ} (hs : OMSbuff.select b cl.cons = some s) :
    ∃ i, z ≤ i ∧ i < b.control.nslots ∧ s = ord i ∧
      max cl.cursor lo ≤ (b.slots s).slotSeq := by
  obtain ⟨j, hj, hread⟩ := hc.readIn
  have hreadAt : (b.slots cl.cons.readPos).refs ≠ 0 → z ≤ j := by
    intro hne
    by_contra hn
    exact hne (hread ▸ (hr.fresh j (by omega)).2)
  have committed : ∀ {i : ℕ}, i < b.control.nslots → cl.cursor ≤ (b.slots (ord i)).slotSeq →
      (b.slots (ord i)).slotSeq ≠ 0 →
      ∃ k, z ≤ k ∧ k < b.control.nslots ∧ ord i = ord k ∧
        max cl.cursor lo ≤ (b.slots (ord i)).slotSeq := by
    intro i hi hle hne
    exact ⟨i, (hr.committed_at hi hne).1, hi, rfl, max_le hle (hr.lo_le_seq hi hne)⟩
  cases hl : cl.cons.lastReadPos with
  | none =>
    simp only [OMSbuff.select, hl, Option.map_none] at hs
    split at hs
    · cases hs
    · rename_i hcase
      obtain ⟨-, hunread, hnone⟩ := hc.unread hl
      cases hs
      have href : (b.slots cl.cons.readPos).refs ≠ 0 := fun h => hcase (Or.inl h)
      by_cases hk : cl.cursor ≤ b.lastSeq
      · exact ⟨j, hreadAt href, hj, hread, hunread hk⟩
      · obtain ⟨hz, h0⟩ := hnone (by omega)
        exact absurd (h0 ▸ (hr.fresh 0 (by have := hr.ring.pos; omega)).2) href
  | some l =>
    obtain ⟨hpos, ⟨m, hm, rfl⟩, hlast⟩ := hc.last l hl
    obtain ⟨k, hk, hnext⟩ := hr.ring.next_mem hm
    have hcur := cursor_of_some hl
    obtain ⟨hself, hsafe⟩ := hsafe (ord m) hl
    simp only [OMSbuff.select, hl, Option.map_some] at hs
    split at hs
    · -- the slot at `read_pos` is not for this consumer
      split at hs
      · rename_i hb
        cases hs
        rw [hnext] at hb ⊢
        exact committed hk (by omega) (by omega)
      · cases hs
    · rename_i hcase
      push Not at hcase
      have hseq : cl.cursor ≤ (b.slots cl.cons.readPos).slotSeq := by
        rcases hself with h | h <;> omega
      split at hs
      · rename_i hb
        cases hs
        -- the slot behind is older than the one at `read_pos`
        have hbehind : (b.slots (b.slots (ord m)).next).slotSeq = cl.cursor := by
          rcases hsafe with h | h | ⟨h, hne⟩
          · refine (behind_unread hr hc hl h ?_).1
            have := hr.seq_le_last hj
            rw [← hread] at this
            omega
          · omega
          · rcases hlast with h' | h'
            · refine (behind_unread hr hc hl h' ?_).1
              have := hr.seq_le_last hj
              rw [← hread] at this
              omega
            · rw [hnext] at hne hb
              have := hr.lo_le_seq hk hne
              omega
        rw [hnext] at hbehind ⊢
        exact committed hk (by omega) (by omega)
      · cases hs
        rw [hread] at hseq hcase ⊢
        exact committed hj hseq (by omega)

theorem select_owing (hr : RingInv b ord z lo) (hc : ClientInv n₀ b ord z lo cl)
    (hown : cl.owing lo) (hk : cl.cursor ≤ b.lastSeq)
    (hcount : ∀ i, z ≤ i → i < b.control.nslots →
      (b.slots (ord i)).slotSeq = max cl.cursor lo → (b.slots (ord i)).refs ≠ 0)
    (hsafe : ReadSafe b cl.cons) :
    ∃ i, z ≤ i ∧ i < b.control.nslots ∧ OMSbuff.select b cl.cons = some (ord i) ∧
      (b.slots (ord i)).slotSeq = max cl.cursor lo := by
  obtain ⟨j, hj, hread⟩ := hc.readIn
  have hlo := hr.lo_pos
  cases hl : cl.cons.lastReadPos with
  | none =>
    obtain ⟨hzero, -, -⟩ := hc.unread hl
    have hseq := hc.unreadOwing hl hown hk
    rw [hread] at hseq
    obtain ⟨hz, -⟩ := hr.committed_at hj (by omega)
    have href := hcount j hz hj hseq
    refine ⟨j, hz, hj, ?_, hseq⟩
    simp only [OMSbuff.select, hl, Option.map_none, hread, hzero]
    rw [if_neg (by omega)]
  | some l =>
    obtain ⟨hpos, ⟨m, hm, rfl⟩, hlast⟩ := hc.last l hl
    obtain ⟨k, hkn, hnext⟩ := hr.ring.next_mem hm
    have hcur := cursor_of_some hl
    have hge := hc.lower (Or.inl (by simp [hl])) hown.covers
    have hmax : max cl.cursor lo = cl.cursor := max_eq_left hge
    obtain ⟨hself, hsafe⟩ := hsafe (ord m) hl
    obtain ⟨u, hzu, hun, hu⟩ := hr.slot_of_seq hge hk
    have hrefu := hcount u hzu hun (hu.trans hmax.symm)
    have unique : ∀ {i : ℕ}, i < b.control.nslots → (b.slots (ord i)).slotSeq = cl.cursor →
        ord i = ord u := by
      intro i hi he
      rw [hr.eq_of_seq hi hun (by omega) (he.trans hu.symm)]
    refine ⟨u, hzu, hun, ?_, hu.trans hmax.symm⟩
    simp only [OMSbuff.select, hl, Option.map_some, hnext]
    rw [hnext] at hsafe
    -- either the slot behind is the wanted one, or `read_pos` designates it
    have hwhere : (b.slots (ord k)).slotSeq = cl.cursor ∨
        (b.slots cl.cons.readPos).slotSeq = cl.cursor ∧
          ¬ (b.slots (ord k)).slotSeq < cl.cursor := by
      rcases hsafe with h | h | ⟨h, hne⟩
      · have := (behind_unread hr hc hl h hk).1
        rw [hnext] at this
        exact Or.inl this
      · exact Or.inl (by omega)
      · rcases hlast with h' | h'
        · have := (behind_unread hr hc hl h' hk).1
          rw [hnext] at this
          exact Or.inl this
        · exact Or.inr ⟨by omega, by have := hr.lo_le_seq hkn hne; omega⟩
    by_cases hcase : (b.slots cl.cons.readPos).refs = 0 ∨
        (b.slots cl.cons.readPos).slotSeq < cl.cons.lastSeq
    · rw [if_pos hcase]
      rcases hwhere with h | ⟨h, -⟩
      · rw [unique hkn h, if_pos ⟨hrefu, by omega⟩]
      · exfalso
        rw [hread] at h hcase
        rw [unique hj h] at hcase
        omega
    · rw [if_neg hcase]
      push Not at hcase
      rcases hwhere with h | ⟨h, hn⟩
      · by_cases hlt : (b.slots (ord k)).slotSeq < (b.slots cl.cons.readPos).slotSeq
        · rw [if_pos hlt, unique hkn h]
        · rw [if_neg hlt, hread, unique hj]
          rw [← hread]
          rcases hself with h' | h' <;> omega
      · rw [if_neg (by omega), hread, unique hj (hread ▸ h)]

end Selection

end Fenice.BufferPool
