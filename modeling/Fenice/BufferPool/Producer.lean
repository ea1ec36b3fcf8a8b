import Fenice.BufferPool.Consumer

/-!
# Producer steps keep the invariant

Taking a slot either finds the oldest slot free of references or puts a page of
unwritten slots in front of it. A commit writes the first slot of the order,
which then becomes the last one.
-/

namespace Fenice.BufferPool
open Fenice.Ring

section Steps

variable {n₀ : ℕ} {p : Pool} {ord : ℕ → ℕ} {z lo : ℕ}

theorem Inv.hold (h : Inv n₀ p ord z lo) (slot : Option ℕ) {v : ℕ}
    (hv : v < p.buffer.control.nslots ∧ (z < p.buffer.control.nslots → z ≤ v) ∧
      (z = p.buffer.control.nslots → v = 0))
    (hheld : ∀ s ∈ slot, s = ord 0 ∧ (p.buffer.slots s).refs = 0 ∧
      (2 ≤ p.buffer.control.nslots → z = 0 → v ≠ 0)) :
    Inv n₀
      { p with
        slot := slot
        buffer := { p.buffer with control := { p.buffer.control with validReadPos := ord v } } }
      ord z lo := by
  have hsame : SameSeqs p.buffer
      { p.buffer with control := { p.buffer.control with validReadPos := ord v } } :=
    ⟨rfl, rfl, fun _ => rfl, fun _ => rfl⟩
  refine ⟨?_, h.size, h.counts, h.readers, ?_, ?_⟩
  · apply h.ring.congr hsame
    · exact fun j hj => (h.ring.fresh j hj).2
    · exact ⟨v, hv.1, rfl, hv.2⟩
    · exact h.ring.small
    · exact h.ring.small_count
  · exact fun c hc hst => (h.client c hc hst).congr hsame
  · intro s hs
    obtain ⟨rfl, hfree, hpush⟩ := hheld s hs
    refine ⟨rfl, fun _ => hfree, ?_, ?_⟩
    · intro h2 hz
      exact h.ring.ring.ne hv.1 h.ring.ring.pos (hpush h2 hz)
    · -- the slot has no references, so nobody owes it
      intro hz c hc hco _
      by_contra hn
      have hpos := h.counted hc (k := 0) (by omega) h.ring.ring.pos
        (owes_of_owing hco (by omega))
      omega

/-- What `OMSbuff_addpage` does to each slot. -/
structure PageAdded (b b' : OMSBuffer) : Prop where
  control : b'.control = { b.control with nslots := b.control.nslots + memPage }
  old : ∀ j < b.control.nslots, b'.slots j =
    { b.slots j with
      next := if j = b.control.writePos then b.control.nslots else (b.slots j).next }
  new : ∀ j, b.control.nslots ≤ j → j < b.control.nslots + memPage →
    (b'.slots j).refs = 0 ∧ (b'.slots j).slotSeq = 0 ∧
      (b'.slots j).next = if j + 1 < b.control.nslots + memPage then j + 1
        else (b.slots b.control.writePos).next

theorem addpage_spec {b : OMSBuffer} (hw : b.control.writePos < b.control.nslots) :
    ∃ b', OMSbuff.addpage true b b.control.writePos = some (b', b.control.nslots) ∧
      PageAdded b b' := by
  refine ⟨_, rfl, rfl, ?_, ?_⟩
  · intro j hj
    have hout : ¬ (b.control.nslots ≤ j ∧ j < b.control.nslots + memPage) := by omega
    by_cases hjw : j = b.control.writePos
    · rw [hjw] at hout
      simp only [OMSBuffer.upd_slots, hjw, if_true, hout, if_false]
    · rw [OMSBuffer.upd_slots_ne _ _ hjw]
      simp only [hout, hjw, if_false]
  · intro j hj hjn
    have hjw : j ≠ b.control.writePos := by omega
    rw [OMSBuffer.upd_slots_ne _ _ hjw]
    simp only [if_pos (And.intro hj hjn), and_self]

theorem PageAdded.isRing {b b' : OMSBuffer} (hp : PageAdded b b')
    (hring : IsRing (fun i => (b.slots i).next) ord b.control.nslots)
    (hbound : ∀ i < b.control.nslots, ord i < b.control.nslots)
    (hwritten : b.control.writePos = ord (b.control.nslots - 1)) :
    IsRing (fun i => (b'.slots i).next) (splice (fun i => b.control.nslots + i) ord memPage)
      (b.control.nslots + memPage) := by
  have hpos := hring.pos
  have hold : ∀ i < b.control.nslots, b'.slots (ord i) =
      { b.slots (ord i) with
        next := if ord i = b.control.writePos then b.control.nslots
          else (b.slots (ord i)).next } := fun i hi => hp.old _ (hbound i hi)
  have hnew : ∀ i < memPage, _ := fun i hi =>
    hp.new (b.control.nslots + i) (Nat.le_add_right _ _) (by omega)
  refine hring.splice (by decide) ?_ ?_ ?_ ?_ ?_ ?_
  · intro i _ j _ he
    omega
  · intro i _ j hj he
    have := hbound j hj
    omega
  · intro i hi
    rw [(hnew i (by omega)).2.2, if_pos (by omega), Nat.add_assoc]
  · rw [(hnew (memPage - 1) (by decide)).2.2, if_neg (by unfold memPage; omega), hwritten]
    exact hring.wrap
  · rw [hold _ (by omega)]
    exact if_pos hwritten.symm
  · intro i hi
    rw [hold i (by omega), hwritten]
    exact if_neg (hring.ne (by omega) (by omega) (by omega))

theorem PageAdded.bound {b b' : OMSBuffer} (hp : PageAdded b b')
    (hbound : ∀ i < b.control.nslots, ord i < b.control.nslots) {i : ℕ}
    (hi : i < b'.control.nslots) :
    splice (fun i => b.control.nslots + i) ord memPage i < b'.control.nslots := by
  have hn : b'.control.nslots = b.control.nslots + memPage := by rw [hp.control]
  rw [hn] at hi ⊢
  by_cases hip : i < memPage
  · rw [splice_of_lt hip]
    omega
  · rw [splice_of_le (by omega)]
    have := hbound (i - memPage) (by omega)
    omega

theorem PageAdded.ring {b b' : OMSBuffer} (hp : PageAdded b b') (h : RingInv b ord z lo)
    (hz : z < b.control.nslots) :
    RingInv b' (splice (fun i => b.control.nslots + i) ord memPage) (z + memPage) lo := by
  have hpos := h.ring.pos
  have hn : b'.control.nslots = b.control.nslots + memPage := by rw [hp.control]
  have hold : ∀ i < b.control.nslots, b'.slots (ord i) =
      { b.slots (ord i) with
        next := if ord i = b.control.writePos then b.control.nslots
          else (b.slots (ord i)).next } := fun i hi => hp.old _ (h.bound i hi)
  have hnew : ∀ i < memPage, _ := fun i hi =>
    hp.new (b.control.nslots + i) (Nat.le_add_right _ _) (by omega)
  refine ⟨?_, fun i hi => hp.bound h.bound hi, ?_, ?_, h.lo_pos, ?_, ?_, ?_, ?_, ?_, ?_⟩
  · rw [hn]
    exact hp.isRing h.ring h.bound h.written
  · rw [hp.control, splice_of_le (by simp only; omega)]
    change b.control.writePos = ord (b.control.nslots + memPage - 1 - memPage)
    rw [h.written, show b.control.nslots + memPage - 1 - memPage = b.control.nslots - 1 by omega]
  · omega
  · omega
  · intro i hi
    by_cases hip : i < memPage
    · rw [splice_of_lt hip]
      exact ⟨(hnew i hip).2.1, (hnew i hip).1⟩
    · rw [splice_of_le (by omega), hold _ (by omega)]
      exact h.fresh (i - memPage) (by omega)
  · intro i hip hi
    rw [splice_of_le (by omega), hold _ (by omega)]
    refine (h.seqs (i - memPage) (by omega) (by omega)).trans ?_
    omega
  · obtain ⟨v, hv, he, hzv, -⟩ := h.valid
    have := hzv hz
    refine ⟨v + memPage, by omega, ?_, fun _ => by omega, fun _ => by omega⟩
    rw [splice_of_le (by omega), Nat.add_sub_cancel, hp.control]
    exact he
  · intro i hi
    by_cases hip : i < b.control.nslots
    · rw [hp.old i hip]
      exact h.small i hip
    · rw [(hp.new i (by omega) (by omega)).1]
      omega
  · rw [hp.control]
    exact h.small_count

theorem PageAdded.lastSeq {b b' : OMSBuffer} (hp : PageAdded b b')
    (hw : b.control.writePos < b.control.nslots) : b'.lastSeq = b.lastSeq := by
  unfold OMSBuffer.lastSeq
  rw [hp.control]
  change (b'.slots b.control.writePos).slotSeq = _
  rw [hp.old _ hw]

theorem PageAdded.client {b b' : OMSBuffer} (hp : PageAdded b b') (h : RingInv b ord 0 lo)
    {cl : Client} (hc : ClientInv n₀ b ord 0 lo cl) :
    ClientInv n₀ b' (splice (fun i => b.control.nslots + i) ord memPage) memPage lo cl := by
  have hpos := h.ring.pos
  have hn : b'.control.nslots = b.control.nslots + memPage := by rw [hp.control]
  have hw : b.control.writePos < b.control.nslots := by
    rw [h.written]
    exact h.bound _ (by omega)
  have hlast := hp.lastSeq hw
  have hmove : ∀ {s}, (∃ j < b.control.nslots, s = ord j) →
      (∃ j < b'.control.nslots, s = splice (fun i => b.control.nslots + i) ord memPage j) ∧
        (b'.slots s).slotSeq = (b.slots s).slotSeq := by
    rintro s ⟨j, hj, rfl⟩
    refine ⟨⟨j + memPage, by omega, ?_⟩, ?_⟩
    · rw [splice_of_le (by omega), Nat.add_sub_cancel]
    · rw [hp.old _ (h.bound j hj)]
  obtain ⟨hread, hseq⟩ := hmove hc.readIn
  refine ⟨hc.first_pos, hlast ▸ hc.upTo, hread, ?_, ?_, ?_, hc.lower, hlast ▸ hc.covered⟩
  · intro hnone
    obtain ⟨hz, hle, hempty⟩ := hc.unread hnone
    rw [hlast, hseq]
    refine ⟨hz, hle, fun hk => ?_⟩
    have := (hempty hk).1
    omega
  · rw [hlast, hseq]
    exact hc.unreadOwing
  · intro l hl
    obtain ⟨h0, hmem, hor⟩ := hc.last l hl
    obtain ⟨hmem', hseq'⟩ := hmove hmem
    exact ⟨h0, hmem', by rw [hseq']; exact hor⟩

theorem Inv.page (h : Inv n₀ p ord 0 lo) {b' : OMSBuffer} (hp : PageAdded p.buffer b') :
    Inv n₀ { p with slot := some p.buffer.control.nslots, buffer := b' }
      (splice (fun i => p.buffer.control.nslots + i) ord memPage) memPage lo := by
  have hn : b'.control.nslots = p.buffer.control.nslots + memPage := by rw [hp.control]
  have hring := hp.ring h.ring h.ring.ring.pos
  rw [Nat.zero_add] at hring
  refine ⟨hring, ?_, ?_, ?_, ?_, ?_⟩
  · have := h.size
    change n₀ ≤ b'.control.nslots
    omega
  · intro i hip hi
    change i < b'.control.nslots at hi
    change (b'.slots _).refs = _
    rw [splice_of_le hip, hp.old _ (h.ring.bound _ (by omega))]
    exact h.counts (i - memPage) (by omega) (by omega)
  · change b'.control.refs = _
    rw [hp.control]
    exact h.readers
  · exact fun c hc hst => hp.client h.ring (h.client c hc hst)
  · intro s hs
    cases hs
    refine ⟨?_, fun _ => ?_, fun _ hz => ?_, fun hz => ?_⟩
    · rw [splice_of_lt (by decide)]
      rfl
    · exact (hp.new _ le_rfl (by unfold memPage; omega)).1
    · cases hz
    · cases hz

/-! ### Taking a slot -/

/-- How a producer gets slot `s`: it is the first of a page that was added
because the oldest slot is still referred to, or the oldest slot itself. -/
inductive Taken (b : OMSBuffer) (oldest : ℕ) : ℕ → OMSBuffer → Prop
  | page {b' : OMSBuffer} (hrefs : 0 < (b.slots oldest).refs) (hp : PageAdded b b') :
      Taken b oldest b.control.nslots b'
  | reuse (v : ℕ) (hfree : (b.slots oldest).refs = 0) :
      Taken b oldest oldest { b with control := { b.control with validReadPos := v } }

theorem Inv.taken_page (h : Inv n₀ p ord z lo) (hrefs : 0 < (p.buffer.slots (ord 0)).refs)
    (mem : Bool) :
    mem = false ∧ OMSbuff.addpage mem p.buffer p.buffer.control.writePos = none ∨
      ∃ b' ord' z', OMSbuff.addpage mem p.buffer p.buffer.control.writePos =
          some (b', p.buffer.control.nslots) ∧
        Taken p.buffer (ord 0) p.buffer.control.nslots b' ∧ b'.lastSeq = p.buffer.lastSeq ∧
        Inv n₀ { p with slot := some p.buffer.control.nslots, buffer := b' } ord' z' lo := by
  obtain rfl := h.ring.fresh_zero hrefs
  have hpos := h.ring.ring.pos
  have hwlt : p.buffer.control.writePos < p.buffer.control.nslots := by
    rw [h.ring.written]
    exact h.ring.bound _ (by omega)
  cases mem with
  | false => exact Or.inl ⟨rfl, rfl⟩
  | true =>
    obtain ⟨b', hb', hp⟩ := addpage_spec hwlt
    exact Or.inr ⟨b', _, _, hb', .page hrefs hp, hp.lastSeq hwlt, h.page hp⟩

theorem Inv.taken_reuse (h : Inv n₀ p ord z lo) (hfree : (p.buffer.slots (ord 0)).refs = 0)
    {v : ℕ} (hv : v < p.buffer.control.nslots)
    (hz : z < p.buffer.control.nslots → z ≤ v) (hempty : z = p.buffer.control.nslots → v = 0)
    (hpush : 2 ≤ p.buffer.control.nslots → z = 0 → v ≠ 0) :
    Taken p.buffer (ord 0) (ord 0)
        { p.buffer with control := { p.buffer.control with validReadPos := ord v } } ∧
      Inv n₀
        { p with
          slot := some (ord 0)
          buffer := { p.buffer with control := { p.buffer.control with validReadPos := ord v } } }
        ord z lo := by
  refine ⟨.reuse (ord v) hfree, h.hold _ ⟨hv, hz, hempty⟩ ?_⟩
  intro s hs
  cases hs
  exact ⟨rfl, hfree, hpush⟩

/-- When `valid_read_pos` is not at the oldest slot, or nothing was written, it stays. -/
theorem Inv.taken_as_is (h : Inv n₀ p ord z lo) (hfree : (p.buffer.slots (ord 0)).refs = 0)
    (hvalid : ¬ ((p.buffer.slots p.buffer.control.validReadPos).slotSeq ≠ 0 ∧
      p.buffer.control.validReadPos = ord 0)) :
    Taken p.buffer (ord 0) (ord 0) p.buffer ∧
      Inv n₀ { p with slot := some (ord 0) } ord z lo := by
  have hpos := h.ring.ring.pos
  have hlo := h.ring.lo_pos
  obtain ⟨v, hv, he, hz, hempty⟩ := h.ring.valid
  have ht := h.taken_reuse hfree hv hz hempty (by
    intro _ hz0 hv0
    rw [hv0] at he
    have hseq := h.ring.seqs 0 (by omega) hpos
    exact hvalid ⟨by rw [he]; omega, he⟩)
  rw [← he] at ht
  exact ht

theorem pushNewer_spec {b : OMSBuffer} (h : RingInv b ord 0 lo) (fuel ts : ℕ) {v : ℕ}
    (hv : v < b.control.nslots) :
    ∃ j, v ≤ j ∧ j < b.control.nslots ∧ OMSbuff.pushNewer b fuel ts (ord v) = ord j ∧
      (v + 1 < b.control.nslots → 0 < fuel → ts = (b.slots (ord v)).timestamp → v < j) := by
  induction fuel generalizing ts v with
  | zero => exact ⟨v, le_rfl, hv, rfl, fun _ h0 => absurd h0 (lt_irrefl 0)⟩
  | succ fuel ih =>
    have hseq := h.seqs v (Nat.zero_le v) hv
    unfold OMSbuff.pushNewer
    by_cases hlast : v + 1 < b.control.nslots
    · rw [h.ring.succ v hlast]
      split
      · obtain ⟨j, hvj, hj, he, -⟩ := ih (b.slots (ord v)).timestamp hlast
        exact ⟨j, by omega, hj, he, fun _ _ _ => by omega⟩
      · rename_i hcond
        refine ⟨v, le_rfl, hv, rfl, fun _ _ hts => absurd ⟨?_, hts⟩ hcond⟩
        rw [hseq, h.seqs (v + 1) (Nat.zero_le _) hlast]
        omega
    · -- behind the newest slot comes the oldest
      have hlo := h.seqs 0 le_rfl h.ring.pos
      have hw := h.ring.wrap
      rw [show b.control.nslots - 1 = v by omega] at hw
      rw [hw, if_neg]
      · exact ⟨v, le_rfl, hv, rfl, fun hlt => absurd hlt hlast⟩
      · omega

theorem Inv.getslot (h : Inv n₀ p ord z lo) (mem : Bool) :
    OMSbuff.getslot mem p.buffer = (none, p.buffer) ∧ 0 < (p.buffer.slots (ord 0)).refs ∨
      ∃ s b' ord' z', OMSbuff.getslot mem p.buffer = (some s, b') ∧
        Taken p.buffer (ord 0) s b' ∧ Inv n₀ { p with slot := some s, buffer := b' } ord' z' lo := by
  have hpos := h.ring.ring.pos
  unfold OMSbuff.getslot
  simp only [h.ring.next_write]
  split
  · rename_i hrefs
    rcases h.taken_page hrefs mem with ⟨-, hnone⟩ | ⟨b', ord', z', hb', ht, -, hi⟩
    · rw [hnone]
      exact Or.inl ⟨rfl, hrefs⟩
    · rw [hb']
      exact Or.inr ⟨_, _, ord', z', rfl, ht, hi⟩
  · have hfree : (p.buffer.slots (ord 0)).refs = 0 := by omega
    split
    · rename_i hvalid
      obtain ⟨hne, hv0⟩ := hvalid
      rw [hv0] at hne
      simp only [hv0]
      have hz := (h.ring.committed_at hpos hne).1
      obtain rfl : z = 0 := by omega
      obtain ⟨j, -, hj, he, hpush⟩ := pushNewer_spec h.ring p.buffer.control.nslots
        (p.buffer.slots (ord 0)).timestamp hpos
      rw [he]
      obtain ⟨ht, hi⟩ := h.taken_reuse hfree hj (fun _ => Nat.zero_le j) (fun h0 => by omega)
        (fun h2 _ => (hpush (by omega) hpos rfl).ne')
      exact Or.inr ⟨_, _, ord, 0, rfl, ht, hi⟩
    · rename_i hvalid
      obtain ⟨ht, hi⟩ := h.taken_as_is hfree hvalid
      exact Or.inr ⟨_, _, ord, z, rfl, ht, hi⟩

theorem pushWritten_uniform {b : OMSBuffer} (h : RingInv b ord 0 lo) {ts : ℕ}
    (hts : ∀ i < b.control.nslots, (b.slots (ord i)).timestamp = ts) {fuel v : ℕ}
    (hv : v < b.control.nslots) : OMSbuff.pushWritten b fuel ts (ord v) = none := by
  induction fuel generalizing v with
  | zero => rfl
  | succ fuel ih =>
    obtain ⟨j, hj, hn⟩ := h.ring.next_mem hv
    have hlo := h.lo_pos
    have hseq := h.seqs j (Nat.zero_le j) hj
    unfold OMSbuff.pushWritten
    rw [hn, if_pos ⟨by omega, (hts v hv).symm⟩, hts v hv]
    exact ih hj

theorem pushWritten_from {b : OMSBuffer} (h : RingInv b ord 0 lo) {fuel ts v r : ℕ}
    (hv : v < b.control.nslots) (hts : ∀ i < v, (b.slots (ord i)).timestamp = ts)
    (hr : OMSbuff.pushWritten b fuel ts (ord v) = some r) :
    ∃ j, v ≤ j ∧ j < b.control.nslots ∧ r = ord j := by
  induction fuel generalizing v with
  | zero => cases hr
  | succ fuel ih =>
    have hlo := h.lo_pos
    unfold OMSbuff.pushWritten at hr
    split at hr
    · rename_i hcond
      have hall : ∀ i < v + 1, (b.slots (ord i)).timestamp = ts := by
        intro i hi
        rcases Nat.lt_succ_iff_lt_or_eq.mp hi with hlt | rfl
        · exact hts i hlt
        · exact hcond.2.symm
      rw [← hcond.2] at hr
      by_cases hlast : v + 1 < b.control.nslots
      · rw [h.ring.succ v hlast] at hr
        obtain ⟨j, hvj, hj, he⟩ := ih hlast hall hr
        exact ⟨j, by omega, hj, he⟩
      · obtain rfl : v = b.control.nslots - 1 := by omega
        rw [h.ring.wrap, pushWritten_uniform h
          (fun i hi => hall i (by omega)) h.ring.pos] at hr
        cases hr
    · cases hr
      exact ⟨v, le_rfl, hv, rfl⟩

theorem pushWritten_spec {b : OMSBuffer} (h : RingInv b ord 0 lo) {fuel r : ℕ}
    (hr : OMSbuff.pushWritten b fuel (b.slots (ord 0)).timestamp (ord 0) = some r) :
    ∃ j, 0 < j ∧ j < b.control.nslots ∧ r = ord j := by
  have hpos := h.ring.pos
  by_cases h2 : 1 < b.control.nslots
  · cases fuel with
    | zero => cases hr
    | succ fuel =>
      have hlo := h.lo_pos
      have hseq := h.seqs 1 (Nat.zero_le 1) h2
      unfold OMSbuff.pushWritten at hr
      rw [h.ring.succ 0 h2, if_pos ⟨by rw [hseq]; omega, rfl⟩] at hr
      obtain ⟨j, hj, hjn, he⟩ := pushWritten_from h h2
        (fun i hi => by rw [show i = 0 by omega]) hr
      exact ⟨j, by omega, hjn, he⟩
  · rw [pushWritten_uniform h (fun i hi => by rw [show i = 0 by omega]) hpos] at hr
    cases hr

/-! ### Committing -/

section Commit

variable {b : OMSBuffer} {s : ℕ} (timestamp marker dataSize : ℕ)

@[simp] theorem commitSlot_control :
    (OMSbuff.commitSlot b s 0 timestamp marker dataSize).control =
      { b.control with writePos := s } := rfl

theorem commitSlot_slots_ne {j : ℕ} (h : j ≠ s) :
    (OMSbuff.commitSlot b s 0 timestamp marker dataSize).slots j = b.slots j := by
  simp only [OMSbuff.commitSlot]
  exact OMSBuffer.upd_slots_ne b _ h

theorem commitSlot_slots_self (h : b.lastSeq + 1 < 2 ^ 64) :
    (OMSbuff.commitSlot b s 0 timestamp marker dataSize).slots s =
      { b.slots s with
        timestamp := timestamp, marker := marker, dataSize := dataSize
        refs := b.control.refs, slotSeq := b.lastSeq + 1 } := by
  unfold OMSbuff.commitSlot
  simp only [OMSBuffer.upd_slots_self, ne_eq, not_true_eq_false, if_false, OMSSlot.mk.injEq,
    true_and, and_true]
  exact Nat.mod_eq_of_lt h

theorem commitSlot_lastSeq (h : b.lastSeq + 1 < 2 ^ 64) :
    (OMSbuff.commitSlot b s 0 timestamp marker dataSize).lastSeq = b.lastSeq + 1 := by
  unfold OMSBuffer.lastSeq
  simp only [commitSlot_control]
  rw [commitSlot_slots_self timestamp marker dataSize h]
  rfl

/-- The first slot of the order becomes the last one, and if it had been written
before, the oldest number is gone. -/
theorem RingInv.commit (h : RingInv b ord z lo) (hlt : b.lastSeq + 1 < 2 ^ 64) :
    RingInv (OMSbuff.commitSlot b (ord 0) 0 timestamp marker dataSize)
      (rotate ord b.control.nslots) (z - 1) (if z = 0 then lo + 1 else lo) := by
  have hpos := h.ring.pos
  have hlo := h.lo_pos
  have hle := h.fresh_le
  have hlast := h.lastSeq_eq
  have hself := commitSlot_slots_self (s := ord 0) timestamp marker dataSize hlt
  have hother : ∀ i, i + 1 < b.control.nslots →
      (OMSbuff.commitSlot b (ord 0) 0 timestamp marker dataSize).slots (ord (i + 1)) =
        b.slots (ord (i + 1)) := by
    intro i hi
    exact commitSlot_slots_ne timestamp marker dataSize (h.ring.ne hi hpos (by omega))
  refine ⟨?_, ?_, ?_, ?_, ?_, ?_, ?_, ?_, ?_, ?_, h.small_count⟩
  · refine h.ring.rotate.congr fun i hi => ?_
    by_cases he : rotate ord b.control.nslots i = ord 0
    · rw [he, hself]
    · rw [commitSlot_slots_ne timestamp marker dataSize he]
  · intro i hi
    change rotate ord b.control.nslots i < b.control.nslots
    unfold rotate
    split
    · exact h.bound _ ‹_›
    · exact h.bound 0 hpos
  · exact (rotate_last hpos).symm
  · change z - 1 ≤ b.control.nslots
    omega
  · split <;> omega
  · intro he
    change z - 1 = b.control.nslots at he
    omega
  · intro i hi
    rw [rotate_of_lt (by omega), hother i (by omega)]
    exact h.fresh (i + 1) (by omega)
  · intro i hzi hi
    change i < b.control.nslots at hi
    by_cases hi1 : i + 1 < b.control.nslots
    · rw [rotate_of_lt hi1, hother i hi1, h.seqs (i + 1) (by omega) hi1]
      split <;> omega
    · rw [show i = b.control.nslots - 1 by omega, rotate_last hpos, hself]
      change b.lastSeq + 1 = _
      split <;> omega
  · obtain ⟨v, hv, he, hz, hempty⟩ := h.valid
    cases v with
    | zero =>
      refine ⟨b.control.nslots - 1, by simp only [commitSlot_control]; omega, ?_, ?_, ?_⟩
      · rw [rotate_last hpos]
        exact he
      · intro _
        omega
      · intro hn
        change z - 1 = b.control.nslots at hn
        omega
    | succ v =>
      refine ⟨v, by simp only [commitSlot_control]; omega, ?_, ?_, ?_⟩
      · rw [rotate_of_lt hv]
        exact he
      · intro _
        by_cases hzn : z < b.control.nslots
        · have := hz hzn
          omega
        · have := hempty (by omega)
          omega
      · intro hn
        change z - 1 = b.control.nslots at hn
        omega
  · intro i hi
    by_cases he : i = ord 0
    · rw [he, hself]
      exact h.small_count
    · rw [commitSlot_slots_ne timestamp marker dataSize he]
      exact h.small i hi

theorem owing_mono {cl : Client} {lo' : ℕ} (h : cl.owing lo') (hl : lo ≤ lo') : cl.owing lo :=
  covers_mono h (by omega)

theorem ClientInv.commit (h : Inv n₀ p ord z lo)
    (hh : HeldInv p.buffer p.clients ord z lo (ord 0)) {cl : Client} (hm : cl ∈ p.clients)
    (hst : cl.status ≠ .gone) (hlt : p.buffer.lastSeq + 1 < 2 ^ 64) :
    ClientInv n₀ (OMSbuff.commitSlot p.buffer (ord 0) 0 timestamp marker dataSize)
      (rotate ord p.buffer.control.nslots) (z - 1) (if z = 0 then lo + 1 else lo) cl := by
  have hc := h.client cl hm hst
  have hpos := h.ring.ring.pos
  have hlo := h.ring.lo_pos
  have hsize := h.size
  have hlast := h.ring.lastSeq_eq
  have hup := hc.upTo
  have hnew := commitSlot_lastSeq (s := ord 0) timestamp marker dataSize hlt
  have hself := commitSlot_slots_self (s := ord 0) timestamp marker dataSize hlt
  have hmem : ∀ {t}, (∃ j < p.buffer.control.nslots, t = ord j) →
      ∃ j < p.buffer.control.nslots, t = rotate ord p.buffer.control.nslots j := by
    rintro t ⟨j, hj, rfl⟩
    cases j with
    | zero => exact ⟨p.buffer.control.nslots - 1, by omega, (rotate_last hpos).symm⟩
    | succ j => exact ⟨j, by omega, (rotate_of_lt hj).symm⟩
  -- a slot of the ring is the one just written, or keeps its number
  have hseq : ∀ {t}, (∃ j < p.buffer.control.nslots, t = ord j) →
      t = ord 0 ∧ ((OMSbuff.commitSlot p.buffer (ord 0) 0 timestamp marker dataSize).slots
          t).slotSeq = p.buffer.lastSeq + 1 ∨
        ((OMSbuff.commitSlot p.buffer (ord 0) 0 timestamp marker dataSize).slots t).slotSeq =
          (p.buffer.slots t).slotSeq ∧
        ((p.buffer.slots t).slotSeq ≠ 0 → z = 0 → lo + 1 ≤ (p.buffer.slots t).slotSeq) ∧
        t ≠ ord 0 := by
    rintro t ⟨j, hj, rfl⟩
    by_cases hj0 : j = 0
    · subst hj0
      exact Or.inl ⟨rfl, by rw [hself]⟩
    · have hne := h.ring.ring.ne hj hpos hj0
      refine Or.inr ⟨by rw [commitSlot_slots_ne timestamp marker dataSize hne], fun hs hz => ?_, hne⟩
      have := h.ring.committed_at hj hs
      omega
  -- nobody owes the slot that is overwritten, unless the ring has one slot only
  have hfree : 2 ≤ p.buffer.control.nslots → z = 0 → cl.owing lo → lo < cl.cursor := by
    intro h2 hz hco
    by_contra hn
    have hrefs := h.counted hm (k := 0) (by omega) hpos (owes_of_owing hco (by omega))
    have := hh.free h2
    omega
  refine ⟨hc.first_pos, by omega, hmem hc.readIn, ?_, ?_, ?_, ?_, ?_⟩
  · intro hnone
    obtain ⟨hzero, hle, hempty⟩ := hc.unread hnone
    refine ⟨hzero, fun _ => ?_, fun hk => by omega⟩
    rcases hseq hc.readIn with ⟨-, hs⟩ | ⟨hs, hnext, hne⟩
    · rw [hs]
      split <;> omega
    · rw [hs]
      by_cases hk : cl.cursor ≤ p.buffer.lastSeq
      · have := hle hk
        split
        · have := hnext (by omega) ‹_›
          omega
        · omega
      · exact absurd (hempty (by omega)).2 hne
  · intro hnone hco hk
    have hown : cl.owing lo := owing_mono hco (by split <;> omega)
    obtain ⟨-, -, hempty⟩ := hc.unread hnone
    by_cases hk' : cl.cursor ≤ p.buffer.lastSeq
    · have hold := hc.unreadOwing hnone hown hk'
      rcases hseq hc.readIn with ⟨he, hs⟩ | ⟨hs, hnext, -⟩
      · rw [he] at hold
        have hz := (h.ring.committed_at hpos (by omega)).1
        have hlow := h.ring.seqs 0 hz hpos
        have hone : ¬ 2 ≤ p.buffer.control.nslots := by
          intro h2
          have := hfree h2 (by omega) hown
          omega
        rw [hs, if_pos (by omega)]
        omega
      · rw [hs, hold]
        split
        · have := hnext (by omega) ‹_›
          omega
        · rfl
    · obtain ⟨hz, he⟩ := hempty (by omega)
      rcases hseq hc.readIn with ⟨-, hs⟩ | ⟨-, -, hne⟩
      · have := h.ring.lo_one hz
        rw [hs, if_neg (by omega)]
        omega
      · exact absurd he hne
  · intro l hl
    obtain ⟨h0, hin, hor⟩ := hc.last l hl
    have hcur := cursor_of_some hl
    refine ⟨h0, hmem hin, ?_⟩
    rcases hseq hin with ⟨he, -⟩ | ⟨hs, -, -⟩
    · right
      rcases hor with heq | hle
      · rw [he] at heq
        have hz := h.ring.committed_at hpos (by omega)
        rw [if_pos (by omega)]
        omega
      · split <;> omega
    · rw [hs]
      exact hor.imp_right fun hle => by split <;> omega
  · intro hcase hcov
    have hle := hc.lower hcase hcov
    have hown : cl.owing lo := by
      unfold Client.owing
      rwa [max_eq_left hle]
    split
    · rcases hcase with hsome | h2
      · exact hh.behind ‹_› cl hm hown hsome
      · exact hfree (by omega) ‹_› hown
    · exact hle
  · intro last hl
    have := hc.covered last hl
    omega

theorem Inv.owes_new (h : Inv n₀ p ord z lo) {cl : Client} (hm : cl ∈ p.clients) :
    cl.owes (p.buffer.lastSeq + 1) = decide (cl.status = .reading) := by
  unfold Client.owes
  cases hst : cl.status with
  | reading =>
    have := (h.client cl hm (by simp [hst])).upTo
    simp [Status.covers, this]
  | leaving last =>
    have := (h.client cl hm (by simp [hst])).covered last hst
    simp only [Status.covers, reduceCtorEq, decide_false, Bool.and_eq_false_imp,
      decide_eq_true_eq]
    omega
  | gone => simp [Status.covers]

theorem Inv.commit (h : Inv n₀ p ord z lo) {s : ℕ} (hs : p.slot = some s)
    (hlt : p.buffer.lastSeq + 1 < 2 ^ 64) :
    Inv n₀ (p.committed (OMSbuff.commitSlot p.buffer s 0 timestamp marker dataSize))
      (rotate ord p.buffer.control.nslots) (z - 1) (if z = 0 then lo + 1 else lo) := by
  have hh := h.held s hs
  obtain rfl := hh.eq
  have hpos := h.ring.ring.pos
  have hlo := h.ring.lo_pos
  have hlast := h.ring.lastSeq_eq
  have hle := h.ring.fresh_le
  have hring := h.ring.commit timestamp marker dataSize hlt
  refine ⟨hring, h.size, ?_, h.readers, ?_, ?_⟩
  · intro i hzi hi
    change i < p.buffer.control.nslots at hi
    by_cases hi1 : i + 1 < p.buffer.control.nslots
    · rw [rotate_of_lt hi1]
      change ((OMSbuff.commitSlot p.buffer (ord 0) 0 timestamp marker dataSize).slots _).refs = _
      rw [commitSlot_slots_ne timestamp marker dataSize (h.ring.ring.ne hi1 hpos (by omega)), h.counts (i + 1) (by omega) hi1]
      congr 1
      funext cl
      congr 1
      split <;> omega
    · rw [show i = p.buffer.control.nslots - 1 by omega, rotate_last hpos]
      change ((OMSbuff.commitSlot p.buffer (ord 0) 0 timestamp marker dataSize).slots _).refs = _
      rw [commitSlot_slots_self timestamp marker dataSize hlt]
      change p.buffer.control.refs = _
      rw [h.readers]
      apply List.countP_congr
      intro cl hm
      have hq : (if z = 0 then lo + 1 else lo) + (p.buffer.control.nslots - 1 - (z - 1)) =
          p.buffer.lastSeq + 1 := by split <;> omega
      rw [hq, h.owes_new hm]
  · exact fun cl hm hst => ClientInv.commit timestamp marker dataSize h hh hm hst hlt
  · intro t ht
    cases ht

end Commit

theorem Inv.contents (h : Inv n₀ p ord z lo) (s : ℕ) (f : OMSSlot → OMSSlot)
    (hf : ∀ x, (f x).slotSeq = x.slotSeq ∧ (f x).next = x.next ∧ (f x).refs = x.refs) :
    Inv n₀ { p with buffer := p.buffer.upd s f } ord z lo := by
  have hrefs : ∀ j, ((p.buffer.upd s f).slots j).refs = (p.buffer.slots j).refs := by
    intro j
    rw [OMSBuffer.upd_slots]
    split
    · exact (hf _).2.2
    · rfl
  have hsame : SameSeqs p.buffer (p.buffer.upd s f) := by
    refine ⟨rfl, rfl, fun j => ?_, fun j => ?_⟩
    · rw [OMSBuffer.upd_slots]
      split
      · exact (hf _).1
      · rfl
    · rw [OMSBuffer.upd_slots]
      split
      · exact (hf _).2.1
      · rfl
  refine ⟨?_, h.size, ?_, h.readers, fun c hc hst => (h.client c hc hst).congr hsame, ?_⟩
  · refine h.ring.congr hsame ?_ h.ring.valid ?_ h.ring.small_count
    · exact fun j hj => (hrefs _).trans (h.ring.fresh j hj).2
    · exact fun j hj => (hrefs j).symm ▸ h.ring.small j hj
  · exact fun j hzj hj => (hrefs _).trans (h.counts j hzj hj)
  · intro t ht
    have hh := h.held t ht
    exact ⟨hh.eq, fun h2 => (hrefs t).trans (hh.free h2), hh.pushed, hh.behind⟩

theorem Inv.copyCommit {b : OMSBuffer} {s : ℕ}
    (h : Inv n₀ { p with slot := some s, buffer := b } ord z lo)
    (hlt : b.lastSeq + 1 < 2 ^ 64) (timestamp marker dataSize : ℕ) (bytes : List UInt8) :
    Inv n₀ (p.committed (OMSbuff.copyCommit b s 0 timestamp marker bytes dataSize))
      (rotate ord b.control.nslots) (z - 1) (if z = 0 then lo + 1 else lo) := by
  have hc := h.contents s (fun x => { x with data := bytes.take dataSize ++ x.data.drop dataSize })
    (fun _ => ⟨rfl, rfl, rfl⟩)
  refine Inv.commit timestamp marker dataSize hc rfl ?_
  change OMSBuffer.lastSeq (b.upd s _) + 1 < 2 ^ 64
  unfold OMSBuffer.lastSeq at hlt ⊢
  rw [OMSBuffer.upd_slots]
  split <;> exact hlt

theorem Inv.write_taken (h : Inv n₀ p ord z lo) {mem : Bool} {timestamp marker dataSize : ℕ}
    {bytes : List UInt8} {b' : OMSBuffer}
    (hw : OMSbuff.write mem p.buffer 0 timestamp marker (.foreign bytes) dataSize = .done b') :
    ∃ s b₁ ord' z', b' = OMSbuff.copyCommit b₁ s 0 timestamp marker bytes dataSize ∧
      Taken p.buffer (ord 0) s b₁ ∧ b₁.lastSeq = p.buffer.lastSeq ∧
      Inv n₀ { p with slot := some s, buffer := b₁ } ord' z' lo := by
  have hpos := h.ring.ring.pos
  unfold OMSbuff.write at hw
  simp only [h.ring.next_write, reduceCtorEq, if_false] at hw
  split at hw
  · rename_i hrefs
    rcases h.taken_page hrefs mem with ⟨-, hnone⟩ | ⟨b₁, ord', z', hb₁, ht, hlast, hi⟩
    · rw [hnone] at hw
      cases hw
    · rw [hb₁] at hw
      cases hw
      exact ⟨_, b₁, ord', z', rfl, ht, hlast, hi⟩
  · have hfree : (p.buffer.slots (ord 0)).refs = 0 := by omega
    split at hw
    · rename_i hvalid
      obtain ⟨hne, hv0⟩ := hvalid
      rw [hv0] at hne hw
      have hz := (h.ring.committed_at hpos hne).1
      obtain rfl : z = 0 := by omega
      split at hw
      · cases hw
      · rename_i r hr
        obtain ⟨j, hj0, hj, rfl⟩ := pushWritten_spec h.ring hr
        cases hw
        obtain ⟨ht, hi⟩ := h.taken_reuse hfree hj (fun _ => Nat.zero_le j) (fun h0 => by omega)
          (fun _ _ => by omega)
        exact ⟨_, _, ord, 0, rfl, ht, rfl, hi⟩
    · rename_i hvalid
      cases hw
      obtain ⟨ht, hi⟩ := h.taken_as_is hfree hvalid
      exact ⟨_, _, ord, z, rfl, ht, rfl, hi⟩

end Steps

end Fenice.BufferPool
