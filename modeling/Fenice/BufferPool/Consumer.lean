import Fenice.BufferPool.Invariant

/-!
# Consumer steps keep the invariant

Consumers change `refs` and their own positions; the ring and its numbers stay.
-/

namespace Fenice.BufferPool
open Fenice.Ring

/-- Nothing but `refs`, `valid_read_pos` and slot contents differ. -/
structure SameSeqs (b b' : OMSBuffer) : Prop where
  nslots : b'.control.nslots = b.control.nslots
  writePos : b'.control.writePos = b.control.writePos
  seq : ∀ i, (b'.slots i).slotSeq = (b.slots i).slotSeq
  next : ∀ i, (b'.slots i).next = (b.slots i).next

section Congr

variable {b b' : OMSBuffer} {ord : ℕ → ℕ} {z lo n₀ : ℕ} {cl : Client}

theorem SameSeqs.lastSeq (h : SameSeqs b b') : b'.lastSeq = b.lastSeq := by
  unfold OMSBuffer.lastSeq
  rw [h.writePos, h.seq]

theorem RingInv.congr (hr : RingInv b ord z lo) (h : SameSeqs b b')
    (hfresh : ∀ i < z, (b'.slots (ord i)).refs = 0)
    (hvalid : ∃ v < b.control.nslots, b'.control.validReadPos = ord v ∧
      (z < b.control.nslots → z ≤ v) ∧ (z = b.control.nslots → v = 0))
    (hsmall : ∀ i < b.control.nslots, (b'.slots i).refs < 65536)
    (hcount : b'.control.refs < 65536) : RingInv b' ord z lo where
  ring := by
    rw [h.nslots]
    exact hr.ring.congr fun i _ => h.next (ord i)
  bound := h.nslots ▸ hr.bound
  written := by rw [h.writePos, h.nslots]; exact hr.written
  fresh_le := h.nslots ▸ hr.fresh_le
  lo_pos := hr.lo_pos
  lo_one := h.nslots ▸ hr.lo_one
  fresh := fun i hi => ⟨(h.seq (ord i)).trans (hr.fresh i hi).1, hfresh i hi⟩
  seqs := fun i hz hi => (h.seq (ord i)).trans (hr.seqs i hz (h.nslots ▸ hi))
  valid := h.nslots ▸ hvalid
  small := h.nslots ▸ hsmall
  small_count := hcount

theorem ClientInv.congr (hc : ClientInv n₀ b ord z lo cl) (h : SameSeqs b b') :
    ClientInv n₀ b' ord z lo cl where
  first_pos := hc.first_pos
  upTo := h.lastSeq ▸ hc.upTo
  readIn := h.nslots ▸ hc.readIn
  unread := by
    rw [h.lastSeq, h.nslots, h.seq]
    exact hc.unread
  unreadOwing := by
    rw [h.lastSeq, h.seq]
    exact hc.unreadOwing
  last := by
    intro l hl
    rw [h.nslots, h.seq]
    exact hc.last l hl
  lower := hc.lower
  covered := h.lastSeq ▸ hc.covered

end Congr

theorem countP_set_add {α : Type*} {l : List α} {i : ℕ} {a c : α} (f : α → Bool)
    (h : l[i]? = some c) :
    (l.set i a).countP f + (if f c then 1 else 0) = l.countP f + if f a then 1 else 0 := by
  induction l generalizing i with
  | nil => cases h
  | cons x xs ih =>
    cases i with
    | zero =>
      simp only [List.getElem?_cons_zero, Option.some.injEq] at h
      subst h
      simp only [List.set_cons_zero, List.countP_cons]
      omega
    | succ i =>
      simp only [List.getElem?_cons_succ] at h
      have hi := ih h
      simp only [List.set_cons_succ, List.countP_cons]
      omega

theorem mem_of_mem_set {α : Type*} {l : List α} {i : ℕ} {a x : α} (h : x ∈ l.set i a) :
    x = a ∨ x ∈ l := (List.mem_or_eq_of_mem_set h).symm

section Steps

variable {n₀ : ℕ} {p : Pool} {ord : ℕ → ℕ} {z lo : ℕ}

theorem Inv.counted (h : Inv n₀ p ord z lo) {cl : Client} (hm : cl ∈ p.clients) {k : ℕ}
    (hz : z ≤ k) (hk : k < p.buffer.control.nslots) (ho : cl.owes (lo + (k - z)) = true) :
    0 < (p.buffer.slots (ord k)).refs := by
  rw [h.counts k hz hk]
  exact List.countP_pos_iff.mpr ⟨cl, hm, ho⟩

theorem owes_of_owing {cl : Client} {q : ℕ} (h : cl.owing lo) (hq : q = max cl.cursor lo) :
    cl.owes q = true := by
  unfold Client.owing at h
  unfold Client.owes
  rw [hq, h, Bool.true_and, decide_eq_true_eq]
  exact le_max_left ..

/-- A safe read that has something to read gets the next slot, and is counted in it. -/
theorem Inv.select_some (h : Inv n₀ p ord z lo) {cl : Client} (hm : cl ∈ p.clients)
    (hst : cl.status ≠ .gone) (hown : cl.owing lo) (hk : cl.cursor ≤ p.buffer.lastSeq)
    (hsafe : ReadSafe p.buffer cl.cons) :
    ∃ i, z ≤ i ∧ i < p.buffer.control.nslots ∧
      OMSbuff.select p.buffer cl.cons = some (ord i) ∧
      (p.buffer.slots (ord i)).slotSeq = max cl.cursor lo :=
  select_owing h.ring (h.client cl hm hst) hown hk
    (fun k hz hkn hq => (h.counted hm hz hkn
      (owes_of_owing hown ((h.ring.seqs k hz hkn).symm.trans hq))).ne')
    hsafe

/-- What a safe read selects, if the consumer is entitled to it, is the next
slot it owes. -/
theorem Inv.select_next (h : Inv n₀ p ord z lo) {cl : Client} (hm : cl ∈ p.clients)
    (hst : cl.status ≠ .gone) (hsafe : ReadSafe p.buffer cl.cons) {s : ℕ}
    (hs : OMSbuff.select p.buffer cl.cons = some s)
    (hcov : cl.status.covers (p.buffer.slots s).slotSeq = true) :
    cl.owing lo ∧ ∃ k, z ≤ k ∧ k < p.buffer.control.nslots ∧ s = ord k ∧
      (p.buffer.slots (ord k)).slotSeq = max cl.cursor lo := by
  obtain ⟨i, hz, hi, rfl, hle⟩ := select_unread h.ring (h.client cl hm hst) hsafe hs
  have hown : cl.owing lo := by
    unfold Client.owing
    cases hstat : cl.status with
    | reading => rfl
    | gone => exact absurd hstat hst
    | leaving last =>
      rw [hstat] at hcov
      simp only [Status.covers, decide_eq_true_eq] at hcov ⊢
      omega
  have hk : cl.cursor ≤ p.buffer.lastSeq := by
    have := h.ring.seq_le_last hi
    omega
  obtain ⟨k, hzk, hkn, hsel, hseq⟩ := h.select_some hm hst hown hk hsafe
  rw [hs, Option.some.injEq] at hsel
  exact ⟨hown, k, hzk, hkn, hsel, hseq⟩

theorem consume_sameSeqs (p : Pool) (i : ℕ) (cl : Client) (s : ℕ) :
    SameSeqs p.buffer (p.consume i cl s).buffer where
  nslots := rfl
  writePos := rfl
  seq := fun j => by
    simp only [Pool.consume, OMSbuff.take, OMSBuffer.upd_slots]
    split <;> rfl
  next := fun j => by
    simp only [Pool.consume, OMSbuff.take, OMSBuffer.upd_slots]
    split <;> rfl

theorem consume_refs (p : Pool) (i : ℕ) (cl : Client) (s j : ℕ) :
    ((p.consume i cl s).buffer.slots j).refs =
      if j = s then decr16 (p.buffer.slots j).refs else (p.buffer.slots j).refs := by
  simp only [Pool.consume, OMSbuff.take, OMSBuffer.upd_slots]
  split <;> rfl

theorem took_cursor (cl : Client) (b : OMSBuffer) (s : ℕ) :
    (cl.took b s).cursor = (b.slots s).slotSeq + 1 := rfl

theorem ClientInv.took (hr : RingInv p.buffer ord z lo) {cl : Client}
    (hc : ClientInv n₀ p.buffer ord z lo cl) {k : ℕ} (hk : k < p.buffer.control.nslots)
    (hs : (p.buffer.slots (ord k)).slotSeq ≠ 0) :
    ClientInv n₀ p.buffer ord z lo (cl.took p.buffer (ord k)) := by
  obtain ⟨next, hnlt, hnext⟩ := hr.ring.next_mem hk
  have hle := hr.seq_le_last hk
  have hlow := hr.lo_le_seq hk hs
  refine ⟨hc.first_pos, by rw [took_cursor]; omega, ⟨next, hnlt, hnext⟩, ?_, ?_, ?_, ?_,
    hc.covered⟩
  · intro hn
    cases hn
  · intro hn
    cases hn
  · intro l hl
    cases hl
    exact ⟨Nat.pos_of_ne_zero hs, ⟨k, hk, rfl⟩, Or.inl rfl⟩
  · intro _ _
    rw [took_cursor]
    omega

theorem Inv.consume (h : Inv n₀ p ord z lo) {i : ℕ} {cl : Client}
    (hi : p.clients[i]? = some cl) (hst : cl.status ≠ .gone) (hown : cl.owing lo) {k : ℕ}
    (hz : z ≤ k) (hk : k < p.buffer.control.nslots)
    (hseq : (p.buffer.slots (ord k)).slotSeq = max cl.cursor lo) :
    Inv n₀ (p.consume i cl (ord k)) ord z lo := by
  have hm := List.mem_of_getElem? hi
  have hc := h.client cl hm hst
  have hlo := h.ring.lo_pos
  have hq := h.ring.seqs k hz hk
  have hpos := h.counted hm hz hk (owes_of_owing hown (hq.symm.trans hseq))
  have hsmall := h.ring.small _ (h.ring.bound k hk)
  have hsame := consume_sameSeqs p i cl (ord k)
  obtain ⟨cl', hcl⟩ : ∃ cl', cl' = cl.took p.buffer (ord k) := ⟨_, rfl⟩
  have hcur : cl'.cursor = max cl.cursor lo + 1 := by rw [hcl]; exact congrArg (· + 1) hseq
  have hstat : cl'.status = cl.status := by rw [hcl]; rfl
  have hclients : (p.consume i cl (ord k)).clients = p.clients.set i cl' := by rw [hcl]; rfl
  refine ⟨?_, h.size, ?_, ?_, ?_, ?_⟩
  · refine h.ring.congr hsame ?_ h.ring.valid ?_ h.ring.small_count
    · intro j hj
      rw [consume_refs, if_neg (h.ring.ring.ne (by omega) hk (by omega))]
      exact (h.ring.fresh j hj).2
    · intro j hj
      rw [consume_refs]
      split
      · unfold decr16; omega
      · exact h.ring.small j hj
  · intro j hzj hjn
    rw [hclients, consume_refs]
    have hcount := countP_set_add (a := cl') (fun c => c.owes (lo + (j - z))) hi
    have hold := h.counts j hzj hjn
    -- the client drops out of exactly one count, that of the slot it took
    have hcov : cl'.owes (lo + (j - z)) = (cl.owes (lo + (j - z)) && decide (j ≠ k)) := by
      unfold Client.owes
      rw [hcur, hstat, Bool.and_assoc]
      refine congrArg _ ?_
      by_cases hjk : j = k
      · subst hjk
        simp only [ne_eq, not_true_eq_false, decide_false, Bool.and_false, decide_eq_false_iff_not]
        omega
      · simp only [ne_eq, hjk, not_false_eq_true, decide_true, Bool.and_true, decide_eq_decide]
        omega
    simp only [hcov] at hcount
    by_cases hjk : j = k
    · subst hjk
      have ho : cl.owes (lo + (j - z)) = true := owes_of_owing hown (hq.symm.trans hseq)
      rw [if_pos rfl, decr16_of_pos hpos hsmall]
      simp only [ho, ne_eq, not_true_eq_false, decide_false, Bool.and_false, if_true,
        Bool.false_eq_true, if_false] at hcount
      omega
    · rw [if_neg (h.ring.ring.ne hjn hk hjk)]
      simp only [ne_eq, hjk, not_false_eq_true, decide_true, Bool.and_true] at hcount
      omega
  · rw [hclients]
    have hcount := countP_set_add (a := cl') (fun c => decide (c.status = .reading)) hi
    have hread := h.readers
    rw [hstat] at hcount
    change p.buffer.control.refs = _
    omega
  · intro c hcm hcst
    rw [hclients] at hcm
    rcases mem_of_mem_set hcm with rfl | hold
    · rw [hcl]
      exact (hc.took h.ring hk (by omega)).congr hsame
    · exact (h.client c hold hcst).congr hsame
  · intro s hs
    have hh := h.held s hs
    refine ⟨hh.eq, ?_, hh.pushed, ?_⟩
    · intro h2
      have hfree := hh.free h2
      rw [consume_refs, if_neg]
      · exact hfree
      · rintro rfl
        omega
    · intro hz0 c hcm hco hcn
      rw [hclients] at hcm
      rcases mem_of_mem_set hcm with rfl | hold
      · omega
      · exact hh.behind hz0 c hold hco hcn

/-! ### Leaving -/

/-- A reader that finds no reference of anybody else selects nothing that was
committed after it left. -/
theorem covers_of_spent {b : OMSBuffer} {cl : Client} {s : ℕ}
    (hr : Spent b cl cl.cons.readPos)
    (hl : ∀ l ∈ cl.cons.lastReadPos, Spent b cl (b.slots l).next)
    (hs : OMSbuff.select b cl.cons = some s) : cl.status.covers (b.slots s).slotSeq = true := by
  unfold OMSbuff.select at hs
  cases hlast : cl.cons.lastReadPos with
  | none =>
    simp only [hlast, Option.map_none] at hs
    split at hs
    · cases hs
    · cases hs
      exact hr.resolve_left (by omega)
  | some l =>
    have hbehind := hl l hlast
    simp only [hlast, Option.map_some] at hs
    split at hs
    · split at hs
      · rename_i hb
        cases hs
        exact hbehind.resolve_left hb.1
      · cases hs
    · have hread := hr.resolve_left (by omega)
      split at hs
      · cases hs
        exact covers_mono hread (by omega)
      · cases hs
        exact hread

theorem Inv.drain_covers (h : Inv n₀ p ord z lo) {cl : Client} (hm : cl ∈ p.clients)
    (hst : cl.status ≠ .gone) (hsafe : DrainSafe p.buffer cl) {s : ℕ}
    (hs : OMSbuff.select p.buffer cl.cons = some s) :
    cl.status.covers (p.buffer.slots s).slotSeq = true := by
  obtain ⟨hread, ⟨i, hi, ho⟩ | ⟨hr, hl⟩⟩ := hsafe
  · obtain ⟨k, hk, rfl⟩ := h.ring.index_of_lt hi
    simp only [Client.owes, Bool.and_eq_true, decide_eq_true_eq] at ho
    have hcur := (h.client cl hm hst).cursor_pos
    have hlo := h.ring.lo_le_seq hk (by omega)
    have hown : cl.owing lo := covers_mono ho.1 (by omega)
    have hle := h.ring.seq_le_last hk
    obtain ⟨j, hzj, hj, hsel, hseq⟩ := h.select_some hm hst hown (by omega) hread
    rw [hs, Option.some.injEq] at hsel
    rw [hsel, hseq]
    exact hown
  · exact covers_of_spent hr hl hs

/-- A client is replaced by one that owes the same slots; the count of the
buffer follows the number of readers. -/
theorem Inv.setClient (h : Inv n₀ p ord z lo) {i : ℕ} {cl cl' : Client} {refs : ℕ}
    (hi : p.clients[i]? = some cl) (hrefs : refs < 65536)
    (howes : ∀ q, lo ≤ q → q ≤ p.buffer.lastSeq → cl'.owes q = cl.owes q)
    (hreaders : refs + (if cl.status = .reading then 1 else 0) =
      p.buffer.control.refs + if cl'.status = .reading then 1 else 0)
    (hinv : cl'.status ≠ .gone → ClientInv n₀ p.buffer ord z lo cl')
    (hown : cl'.owing lo → cl'.cons.lastReadPos ≠ none →
      cl.owing lo ∧ cl.cons.lastReadPos ≠ none ∧ cl'.cursor = cl.cursor) :
    Inv n₀
      { p with
        buffer := { p.buffer with control := { p.buffer.control with refs := refs } }
        clients := p.clients.set i cl' } ord z lo := by
  have hsame : SameSeqs p.buffer
      { p.buffer with control := { p.buffer.control with refs := refs } } :=
    ⟨rfl, rfl, fun _ => rfl, fun _ => rfl⟩
  refine ⟨?_, h.size, ?_, ?_, ?_, ?_⟩
  · apply h.ring.congr hsame
    · exact fun j hj => (h.ring.fresh j hj).2
    · exact h.ring.valid
    · exact h.ring.small
    · exact hrefs
  · intro j hzj hj
    have hlast := h.ring.lastSeq_eq
    have hcount := countP_set_add (a := cl') (fun c => c.owes (lo + (j - z))) hi
    have hold := h.counts j hzj hj
    change j < p.buffer.control.nslots at hj
    simp only [howes (lo + (j - z)) (by omega) (by omega)] at hcount
    change (p.buffer.slots (ord j)).refs = (p.clients.set i cl').countP _
    omega
  · have hcount := countP_set_add (a := cl') (fun c => decide (c.status = .reading)) hi
    have hold := h.readers
    simp only [decide_eq_true_eq] at hcount
    change refs = (p.clients.set i cl').countP _
    omega
  · intro c hc hst
    rcases mem_of_mem_set hc with rfl | hmem
    · exact (hinv hst).congr hsame
    · exact (h.client c hmem hst).congr hsame
  · intro s hs
    have hh := h.held s hs
    refine ⟨hh.eq, hh.free, hh.pushed, ?_⟩
    intro hz c hc hco hcn
    rcases mem_of_mem_set hc with rfl | hmem
    · obtain ⟨ho, hn, he⟩ := hown hco hcn
      rw [he]
      exact hh.behind hz cl (List.mem_of_getElem? hi) ho hn
    · exact hh.behind hz c hmem hco hcn

theorem getreader_cons (b : OMSBuffer) (c : OMSConsumer) :
    (OMSbuff.getreader b c).2 = { c with firstts := (OMSbuff.getreader b c).2.firstts } := by
  unfold OMSbuff.getreader
  split
  · rfl
  · simp only
    split <;> rfl

theorem Inv.getreader (h : Inv n₀ p ord z lo) {i : ℕ} {cl : Client}
    (hi : p.clients[i]? = some cl) (hst : cl.status = .reading) :
    Inv n₀ { p with
      clients := p.clients.set i { cl with cons := (OMSbuff.getreader p.buffer cl.cons).2 } }
      ord z lo := by
  have hc := h.client cl (List.mem_of_getElem? hi) (by simp [hst])
  rw [getreader_cons]
  refine h.setClient hi h.ring.small_count (fun q _ _ => rfl) rfl (fun _ => ?_) ?_
  · exact ⟨hc.first_pos, hc.upTo, hc.readIn, hc.unread, hc.unreadOwing, hc.last, hc.lower,
      hc.covered⟩
  · exact fun ho hn => ⟨ho, hn, rfl⟩

theorem Inv.advance (h : Inv n₀ p ord z lo) {i : ℕ} {cl : Client}
    (hi : p.clients[i]? = some cl) (hst : cl.status = .reading)
    (hsafe : ReadSafe p.buffer cl.cons) : Inv n₀ (p.advance i cl) ord z lo := by
  have hne : cl.status ≠ .gone := by simp [hst]
  unfold Pool.advance
  cases hs : OMSbuff.select p.buffer cl.cons with
  | none => exact h
  | some s =>
    obtain ⟨hown, k, hz, hk, rfl, hseq⟩ :=
      h.select_next (List.mem_of_getElem? hi) hne hsafe hs (by rw [hst]; rfl)
    exact h.consume hi hne hown hz hk hseq

/-- A reader is counted, so `OMSbuff_unref` enters the branch that lowers the count. -/
theorem Inv.readers_pos (h : Inv n₀ p ord z lo) {i : ℕ} {cl : Client}
    (hi : p.clients[i]? = some cl) (hst : cl.status = .reading) :
    0 < p.buffer.control.refs := by
  rw [h.readers]
  exact List.countP_pos_iff.mpr ⟨cl, List.mem_of_getElem? hi, by simp [hst]⟩

theorem Inv.unref (h : Inv n₀ p ord z lo) {i : ℕ} {cl : Client}
    (hi : p.clients[i]? = some cl) (hst : cl.status = .reading) :
    Inv n₀ { p with
      buffer := { p.buffer with
        control := { p.buffer.control with refs := p.buffer.control.refs - 1 } }
      clients := p.clients.set i { cl with status := .leaving p.buffer.lastSeq } } ord z lo := by
  have hc := h.client cl (List.mem_of_getElem? hi) (by simp [hst])
  have hpos := h.readers_pos hi hst
  have hsmall := h.ring.small_count
  have hown : cl.owing lo := by unfold Client.owing; rw [hst]; rfl
  refine h.setClient hi (by omega) ?_ ?_ ?_ ?_
  · intro q _ hq
    simp only [Client.owes, hst, Status.covers, hq, decide_true]
    rfl
  · simp only [hst, if_true, reduceCtorEq, if_false]
    omega
  · intro _
    refine ⟨hc.first_pos, hc.upTo, hc.readIn, hc.unread, ?_, hc.last, ?_, ?_⟩
    · exact fun hn _ => hc.unreadOwing hn hown
    · exact fun hn _ => hc.lower hn hown.covers
    · intro last hlast
      cases hlast
      exact le_rfl
  · exact fun _ hn => ⟨hown, hn, rfl⟩

theorem Inv.owes_nothing (h : Inv n₀ p ord z lo) {cl : Client} (hm : cl ∈ p.clients)
    (hst : cl.status ≠ .gone) (hsafe : ReadSafe p.buffer cl.cons)
    (hs : OMSbuff.select p.buffer cl.cons = none) {q : ℕ} (hl : lo ≤ q)
    (hk : q ≤ p.buffer.lastSeq) : cl.owes q = false := by
  by_contra ho
  simp only [Bool.not_eq_false, Client.owes, Bool.and_eq_true, decide_eq_true_eq] at ho
  have hown : cl.owing lo := covers_mono ho.1 (by omega)
  obtain ⟨_, _, _, hsel, _⟩ := h.select_some hm hst hown (by omega) hsafe
  rw [hs] at hsel
  cases hsel

theorem Inv.leave (h : Inv n₀ p ord z lo) {i : ℕ} {cl : Client}
    (hi : p.clients[i]? = some cl) {last : ℕ} (hst : cl.status = .leaving last)
    (hsafe : ReadSafe p.buffer cl.cons) (hs : OMSbuff.select p.buffer cl.cons = none) :
    Inv n₀ { p with clients := p.clients.set i { cl with status := .gone } } ord z lo := by
  refine h.setClient hi h.ring.small_count ?_ ?_ ?_ ?_
  · intro q hl hk
    rw [h.owes_nothing (List.mem_of_getElem? hi) (by simp [hst]) hsafe hs hl hk]
    rfl
  · simp [hst]
  · exact fun hne => absurd rfl hne
  · intro ho
    cases ho

/-! ### Joining -/

/-- The window of `OMSbuff_ref` is what follows position `v` up to the last slot. -/
theorem refWindow_spec {next ord : ℕ → ℕ} {n : ℕ} (h : IsRing next ord n) {fuel v : ℕ}
    {b : OMSBuffer} (hv : v < n) (hf : n ≤ v + fuel) (hn : ∀ i, (b.slots i).next = next i) :
    ∃ b', OMSbuff.refWindow (ord (n - 1)) fuel b (ord v) = some b' ∧
      b'.control = b.control ∧
      (∀ k, v ≤ k → k < n →
        b'.slots (ord k) = { b.slots (ord k) with refs := incr16 (b.slots (ord k)).refs }) ∧
      ∀ j, (∀ k, v ≤ k → k < n → j ≠ ord k) → b'.slots j = b.slots j := by
  induction fuel generalizing v b with
  | zero => omega
  | succ fuel ih =>
    unfold OMSbuff.refWindow
    by_cases hlast : v = n - 1
    · subst hlast
      refine ⟨_, if_pos rfl, rfl, ?_, ?_⟩
      · intro k hk hkn
        obtain rfl : k = n - 1 := by omega
        rw [OMSBuffer.upd_slots_self]
      · intro j hj
        exact OMSBuffer.upd_slots_ne b _ (hj (n - 1) le_rfl hv)
    · rw [if_neg (h.ne hv (by omega) hlast), hn, h.succ v (by omega)]
      obtain ⟨b', hb', hc, hin, hout⟩ := ih (v := v + 1)
        (b := b.upd (ord v) fun s => { s with refs := incr16 s.refs }) (by omega) (by omega)
        (by
          intro i
          rw [OMSBuffer.upd_slots]
          split
          · exact hn i
          · exact hn i)
      refine ⟨b', hb', hc, ?_, ?_⟩
      · intro k hk hkn
        by_cases hkv : k = v
        · subst hkv
          rw [hout (ord k) fun m hm hmn => h.ne hkn hmn (by omega), OMSBuffer.upd_slots_self]
        · rw [hin k (by omega) hkn, OMSBuffer.upd_slots_ne b _ (h.ne hkn hv hkv)]
      · intro j hj
        rw [hout j fun k hk hkn => hj k (by omega) hkn,
          OMSBuffer.upd_slots_ne b _ (hj v le_rfl hv)]

/-- What `OMSbuff_ref` does in a ring: the slots from the one at
`valid_read_pos` on are counted, none if nothing was written. -/
theorem RingInv.ref {b : OMSBuffer} (h : RingInv b ord z lo) :
    ∃ v b', v < b.control.nslots ∧ b.control.validReadPos = ord v ∧
      (z < b.control.nslots → z ≤ v) ∧ (z = b.control.nslots → v = 0) ∧
      OMSbuff.ref b = some (⟨ord v, none, 0, 0, -1⟩, b') ∧
      b'.control = { b.control with refs := incr16 b.control.refs } ∧
      SameSeqs b b' ∧ (∀ j, (b'.slots j).packet = (b.slots j).packet) ∧
      (∀ k < b.control.nslots, (b'.slots (ord k)).refs =
        if z ≤ k ∧ v ≤ k then incr16 (b.slots (ord k)).refs else (b.slots (ord k)).refs) := by
  obtain ⟨v, hv, hpos, hz, hempty⟩ := h.valid
  have hle := h.fresh_le
  by_cases hq : (b.slots (ord v)).slotSeq = 0
  · -- an empty buffer: only the count of the buffer goes up
    have hzn : z = b.control.nslots := by
      by_contra hne
      have hseq := h.seqs v (hz (by omega)) hv
      have := h.lo_pos
      omega
    refine ⟨v, { b with control := { b.control with refs := incr16 b.control.refs } }, hv, hpos,
      hz, hempty, ?_, rfl, ⟨rfl, rfl, fun _ => rfl, fun _ => rfl⟩, fun _ => rfl, ?_⟩
    · unfold OMSbuff.ref
      simp only [hpos, hq, ne_eq, not_true_eq_false, if_false]
    · intro k hk
      rw [if_neg (by omega)]
  · have hzv := (h.committed_at hv hq).1
    obtain ⟨b', hb', hc, hin, hout⟩ := refWindow_spec h.ring (b := b) hv
      (Nat.le_add_left _ _) (fun _ => rfl)
    have hslot : ∀ j, b'.slots j = b.slots j ∨
        b'.slots j = { b.slots j with refs := incr16 (b.slots j).refs } := by
      intro j
      by_cases hj : ∃ k, v ≤ k ∧ k < b.control.nslots ∧ j = ord k
      · obtain ⟨k, hvk, hk, rfl⟩ := hj
        exact Or.inr (hin k hvk hk)
      · push Not at hj
        exact Or.inl (hout j hj)
    refine ⟨v, { b' with control := { b'.control with refs := incr16 b'.control.refs } }, hv, hpos,
      hz, hempty, ?_, by rw [hc], ⟨by rw [hc], by rw [hc], ?_, ?_⟩, ?_, ?_⟩
    · unfold OMSbuff.ref
      simp only [hpos, ne_eq, hq, not_false_eq_true, if_true, h.written, hb', Option.map_some]
    · intro j
      rcases hslot j with hj | hj <;> simp only [hj]
    · intro j
      rcases hslot j with hj | hj <;> simp only [hj]
    · intro j
      rcases hslot j with hj | hj <;> simp only [hj, OMSSlot.packet]
    · intro k hk
      by_cases hvk : v ≤ k
      · rw [if_pos ⟨by omega, hvk⟩]
        exact congrArg OMSSlot.refs (hin k hvk hk)
      · rw [if_neg (by omega)]
        exact congrArg OMSSlot.refs (hout (ord k) fun m hm hmn => h.ring.ne hk hmn (by omega))

theorem RingInv.firstSeq_eq {b : OMSBuffer} (h : RingInv b ord z lo) {v : ℕ}
    (hv : v < b.control.nslots) (hpos : b.control.validReadPos = ord v)
    (hz : z < b.control.nslots → z ≤ v) : b.firstSeq = lo + (v - z) := by
  have hlo := h.lo_pos
  have hlast := h.lastSeq_eq
  have hle := h.fresh_le
  unfold OMSBuffer.firstSeq
  rw [hpos]
  by_cases hzn : z < b.control.nslots
  · rw [h.seqs v (hz hzn) hv, if_pos (by omega)]
  · rw [(h.fresh v (by omega)).1]
    simp only [ne_eq, not_true_eq_false, if_false]
    omega

theorem Inv.ref (h : Inv n₀ p ord z lo) (hcount : p.buffer.control.refs < 65535)
    (hslots : ∀ i < p.buffer.control.nslots, (p.buffer.slots i).refs < 65535) :
    ∃ r, OMSbuff.ref p.buffer = some r ∧ Inv n₀ (p.register r.1 r.2) ord z lo := by
  obtain ⟨v, b', hv, hpos, hz, hempty, href, hctl, hsame, -, hrefs⟩ := h.ring.ref
  refine ⟨_, href, ?_⟩
  have hlast := h.ring.lastSeq_eq
  have hlo := h.ring.lo_pos
  have hle := h.ring.fresh_le
  have hfirst := h.ring.firstSeq_eq hv hpos hz
  obtain ⟨cl, hcl⟩ : ∃ cl : Client,
      cl = ⟨⟨ord v, none, 0, 0, -1⟩, .reading, p.buffer.firstSeq, []⟩ := ⟨_, rfl⟩
  have hreg : p.register ⟨ord v, none, 0, 0, -1⟩ b' =
      { p with buffer := b', clients := p.clients ++ [cl] } := by rw [hcl]; rfl
  have hcur : cl.cursor = lo + (v - z) := by rw [hcl]; exact hfirst
  have hread : cl.cons.readPos = ord v := by rw [hcl]
  have hst : cl.status = .reading := by rw [hcl]
  have hnone : cl.cons.lastReadPos = none := by rw [hcl]
  rw [hreg]
  refine ⟨?_, hsame.nslots ▸ h.size, ?_, ?_, ?_, ?_⟩
  · apply h.ring.congr hsame
    · intro j hj
      rw [hrefs j (by omega), if_neg (by omega)]
      exact (h.ring.fresh j hj).2
    · refine ⟨v, hv, ?_, hz, hempty⟩
      rw [hctl]
      exact hpos
    · intro j hj
      obtain ⟨k, hk, rfl⟩ := h.ring.index_of_lt hj
      have := hslots _ hj
      rw [hrefs k hk, incr16_of_lt this]
      split <;> omega
    · rw [hctl]
      change incr16 p.buffer.control.refs < 65536
      rw [incr16_of_lt hcount]
      omega
  · intro j hzj hj
    change j < b'.control.nslots at hj
    rw [hsame.nslots] at hj
    have hzv := hz (by omega)
    change (b'.slots (ord j)).refs = (p.clients ++ [cl]).countP _
    rw [hrefs j hj, List.countP_append, List.countP_singleton, ← h.counts j hzj hj,
      incr16_of_lt (hslots _ (h.ring.bound j hj))]
    have howes : cl.owes (lo + (j - z)) = true ↔ v ≤ j := by
      simp only [Client.owes, hst, hcur, Status.covers, Bool.true_and, decide_eq_true_eq]
      omega
    by_cases hvj : v ≤ j
    · rw [if_pos ⟨hzj, hvj⟩, if_pos (howes.mpr hvj)]
    · rw [if_neg (by omega), if_neg (mt howes.mp hvj)]
      rfl
  · change b'.control.refs = (p.clients ++ [cl]).countP _
    rw [hctl, List.countP_append, List.countP_singleton, ← h.readers, hst]
    exact incr16_of_lt hcount
  · intro c hc hcst
    rcases List.mem_append.mp hc with hold | hnew
    · exact (h.client c hold hcst).congr hsame
    · rw [List.mem_singleton] at hnew
      subst hnew
      refine ClientInv.congr (b := p.buffer) ?_ hsame
      refine ⟨?_, by omega, ⟨v, hv, hread⟩, ?_, ?_, ?_, fun _ _ => by omega, ?_⟩
      · rw [← cursor_of_none hnone]
        omega
      · intro _
        refine ⟨by rw [hcl], ?_, ?_⟩
        · intro hk
          rw [hread, hcur, h.ring.seqs v (hz (by omega)) hv]
          omega
        · intro hk
          have hzn : z = p.buffer.control.nslots := by omega
          rw [hread, hempty hzn]
          exact ⟨hzn, rfl⟩
      · intro _ _ hk
        rw [hread, hcur, h.ring.seqs v (hz (by omega)) hv]
        omega
      · intro l hl
        rw [hnone] at hl
        cases hl
      · intro last hl
        rw [hst] at hl
        cases hl
  · intro s hs
    have hh := h.held s hs
    refine ⟨hh.eq, ?_, ?_, ?_⟩
    · intro h2
      rw [hctl] at h2
      change (b'.slots s).refs = 0
      rw [hh.eq, hrefs 0 (by omega), if_neg]
      · exact hh.eq ▸ hh.free h2
      · -- `valid_read_pos` was pushed off the slot the producer holds
        rintro ⟨hz0, hv0⟩
        apply hh.pushed h2 (by omega)
        rw [hpos, hh.eq, show v = 0 by omega]
    · rw [hctl]
      exact hh.pushed
    · intro hz0 c hc hco hcn
      rcases List.mem_append.mp hc with hold | hnew
      · exact hh.behind hz0 c hold hco hcn
      · rw [List.mem_singleton] at hnew
        subst hnew
        exact absurd hnone hcn

end Steps

end Fenice.BufferPool
