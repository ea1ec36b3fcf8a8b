import Fenice.BufferPool.Window

/-!
# The copying write and the write in place

`OMSbuff_write` takes a slot for data that belongs to none with its own copy of
the code of `OMSbuff_getslot`. The two loops over `valid_read_pos` stop at
different slots only in a full ring whose slots all carry one timestamp.
-/

namespace Fenice.BufferPool
open Fenice.Run Fenice.Ring

namespace OMSbuff

/-- The producer puts `bytes` into the slot it has obtained. -/
def fill (b : OMSBuffer) (slot : ℕ) (bytes : List UInt8) : OMSBuffer :=
  b.upd slot fun s =>
    { s with data := bytes ++ s.data.drop bytes.length, dataSize := bytes.length }

/-- `OMSbuff_getslot`, the slot filled, `OMSbuff_write` with the data of the slot. -/
def zeroCopy (mem : Bool) (b : OMSBuffer) (seq timestamp marker : ℕ) (bytes : List UInt8) :
    Written :=
  match getslot mem b with
  | (none, b') => .errAlloc b'
  | (some s, b') => write mem (fill b' s bytes) seq timestamp marker (.slot s) bytes.length

end OMSbuff

/-- The copying write comes to an end, and as the write in place does. -/
def Agrees (mem : Bool) (b : OMSBuffer) (seq timestamp marker : ℕ) (bytes : List UInt8) : Prop :=
  OMSbuff.write mem b seq timestamp marker (.foreign bytes) bytes.length ≠ .diverges ∧
    OMSbuff.write mem b seq timestamp marker (.foreign bytes) bytes.length =
      OMSbuff.zeroCopy mem b seq timestamp marker bytes

/-- Every slot was written, all with one timestamp, and the next one to be written is
the slot at `valid_read_pos`, which nobody has to read. -/
def AllAlike (b : OMSBuffer) : Prop :=
  (b.slots b.control.validReadPos).refs = 0 ∧
    b.control.validReadPos = (b.slots b.control.writePos).next ∧
    ∀ i < b.control.nslots, (b.slots i).slotSeq ≠ 0 ∧
      (b.slots i).timestamp = (b.slots b.control.validReadPos).timestamp

/-! ### The shape of the ring in every run -/

/-- The slots that were never written come first, those behind carry consecutive numbers,
which may wrap. -/
structure Shape (b : OMSBuffer) (ord : ℕ → ℕ) (z : ℕ) : Prop where
  ring : IsRing (fun i => (b.slots i).next) ord b.control.nslots
  bound : ∀ i < b.control.nslots, ord i < b.control.nslots
  written : b.control.writePos = ord (b.control.nslots - 1)
  fresh_le : z ≤ b.control.nslots
  fresh : ∀ i < z, (b.slots (ord i)).slotSeq = 0
  seqs : ∀ i, z ≤ i → i + 1 < b.control.nslots →
    (b.slots (ord (i + 1))).slotSeq = ((b.slots (ord i)).slotSeq + 1) % 2 ^ 64
  small : ∀ i < b.control.nslots, (b.slots (ord i)).slotSeq < 2 ^ 64
  valid : ∃ v < b.control.nslots, b.control.validReadPos = ord v

/-- The slot the producer holds is the one behind `write_pos`. -/
def Shaped (p : Pool) : Prop := ∃ ord z, Shape p.buffer ord z ∧ ∀ s ∈ p.slot, s = ord 0

section Shapes

variable {b b' : OMSBuffer} {ord : ℕ → ℕ} {z : ℕ}

theorem Shape.next_write (h : Shape b ord z) : (b.slots b.control.writePos).next = ord 0 := by
  rw [h.written]
  exact h.ring.wrap

theorem Shape.write_lt (h : Shape b ord z) : b.control.writePos < b.control.nslots := by
  rw [h.written]
  exact h.bound _ (Nat.sub_lt h.ring.pos Nat.one_pos)

theorem Shape.congr (h : Shape b ord z) (hs : SameSeqs b b')
    (hv : ∃ v < b.control.nslots, b'.control.validReadPos = ord v) : Shape b' ord z where
  ring := by
    rw [hs.nslots]
    exact h.ring.congr fun i _ => hs.next (ord i)
  bound := hs.nslots ▸ h.bound
  written := by
    rw [hs.writePos, hs.nslots]
    exact h.written
  fresh_le := hs.nslots ▸ h.fresh_le
  fresh := fun i hi => (hs.seq _).trans (h.fresh i hi)
  seqs := by
    intro i hz hi
    rw [hs.seq, hs.seq]
    exact h.seqs i hz (hs.nslots ▸ hi)
  small := fun i hi => (hs.seq _).trans_lt (h.small i (hs.nslots ▸ hi))
  valid := hs.nslots ▸ hv

theorem Shape.of_bare (h : Shape b ord z) (he : b'.bare = b.bare) : Shape b' ord z := by
  have hwrite := congrArg (fun c : OMSBuffer => c.control.writePos) he
  have hvalid := congrArg (fun c : OMSBuffer => c.control.validReadPos) he
  have hseq := fun i => congrArg (fun c : OMSBuffer => (c.slots i).slotSeq) he
  have hnext := fun i => congrArg (fun c : OMSBuffer => (c.slots i).next) he
  obtain ⟨v, hv, hpos⟩ := h.valid
  exact h.congr ⟨bare_nslots he, hwrite, hseq, hnext⟩ ⟨v, hv, hvalid.trans hpos⟩

theorem Shape.page (h : Shape b ord z) (hp : PageAdded b b') :
    Shape b' (splice (fun i => b.control.nslots + i) ord memPage) (z + memPage) := by
  have hn : b'.control.nslots = b.control.nslots + memPage := by rw [hp.control]
  have hle := h.fresh_le
  have hpos := h.ring.pos
  have hold : ∀ i < b.control.nslots, (b'.slots (ord i)).slotSeq = (b.slots (ord i)).slotSeq := by
    intro i hi
    rw [hp.old _ (h.bound i hi)]
  refine ⟨?_, fun i hi => hp.bound h.bound hi, ?_, ?_, ?_, ?_, ?_, ?_⟩
  · rw [hn]
    exact hp.isRing h.ring h.bound h.written
  · rw [hn, splice_of_le (by omega), hp.control]
    change b.control.writePos = ord (b.control.nslots + memPage - 1 - memPage)
    rw [h.written, show b.control.nslots + memPage - 1 - memPage = b.control.nslots - 1 by omega]
  · omega
  · intro i hi
    by_cases hip : i < memPage
    · rw [splice_of_lt hip]
      exact (hp.new _ (Nat.le_add_right _ _) (by omega)).2.1
    · rw [splice_of_le (by omega), hold _ (by omega)]
      exact h.fresh (i - memPage) (by omega)
  · intro i hz hi
    rw [splice_of_le (by omega), splice_of_le (by omega), hold _ (by omega), hold _ (by omega),
      show i + 1 - memPage = i - memPage + 1 by omega]
    exact h.seqs (i - memPage) (by omega) (by omega)
  · intro i hi
    by_cases hip : i < memPage
    · rw [splice_of_lt hip, (hp.new _ (Nat.le_add_right _ _) (by omega)).2.1]
      exact Nat.two_pow_pos 64
    · rw [splice_of_le (by omega), hold _ (by omega)]
      exact h.small (i - memPage) (by omega)
  · obtain ⟨v, hv, he⟩ := h.valid
    refine ⟨v + memPage, by omega, ?_⟩
    rw [splice_of_le (by omega), Nat.add_sub_cancel, hp.control]
    exact he

theorem Shape.commit (h : Shape b ord z) (timestamp marker dataSize : ℕ) :
    Shape (OMSbuff.commitSlot b (ord 0) 0 timestamp marker dataSize)
      (rotate ord b.control.nslots) (z - 1) := by
  have hpos := h.ring.pos
  have hle := h.fresh_le
  have hother : ∀ i, i + 1 < b.control.nslots →
      (OMSbuff.commitSlot b (ord 0) 0 timestamp marker dataSize).slots (ord (i + 1)) =
        b.slots (ord (i + 1)) := by
    intro i hi
    exact commitSlot_slots_ne timestamp marker dataSize (h.ring.ne hi hpos (Nat.succ_ne_zero i))
  have hself : ((OMSbuff.commitSlot b (ord 0) 0 timestamp marker dataSize).slots (ord 0)).slotSeq =
      ((b.slots (ord (b.control.nslots - 1))).slotSeq + 1) % 2 ^ 64 := by
    rw [← h.written]
    unfold OMSbuff.commitSlot
    simp
  refine ⟨?_, ?_, ?_, ?_, ?_, ?_, ?_, ?_⟩
  · refine h.ring.rotate.congr fun i hi => ?_
    unfold OMSbuff.commitSlot
    dsimp only
    rw [OMSBuffer.upd_slots]
    split <;> rfl
  · intro i hi
    change rotate ord b.control.nslots i < b.control.nslots
    unfold rotate
    split
    · exact h.bound _ ‹_›
    · exact h.bound 0 hpos
  · exact (rotate_last hpos).symm
  · change z - 1 ≤ b.control.nslots
    omega
  · intro i hi
    rw [rotate_of_lt (by omega), hother i (by omega)]
    exact h.fresh (i + 1) (by omega)
  · intro i hz hi
    change i + 1 < b.control.nslots at hi
    rw [rotate_of_lt hi, hother i hi]
    by_cases hlast : i + 1 + 1 < b.control.nslots
    · rw [rotate_of_lt hlast, hother (i + 1) hlast]
      exact h.seqs (i + 1) (by omega) hlast
    · rw [show i + 1 = b.control.nslots - 1 by omega, rotate_last hpos]
      exact hself
  · intro i hi
    change i < b.control.nslots at hi
    by_cases hi1 : i + 1 < b.control.nslots
    · rw [rotate_of_lt hi1, hother i hi1]
      exact h.small (i + 1) hi1
    · rw [show i = b.control.nslots - 1 by omega, rotate_last hpos, hself]
      exact Nat.mod_lt _ (Nat.two_pow_pos 64)
  · obtain ⟨v, hv, he⟩ := h.valid
    change ∃ v < b.control.nslots, b.control.validReadPos = rotate ord b.control.nslots v
    cases v with
    | zero => exact ⟨b.control.nslots - 1, by omega, he.trans (rotate_last hpos).symm⟩
    | succ v => exact ⟨v, by omega, he.trans (rotate_of_lt hv).symm⟩

theorem Shape.contents (h : Shape b ord z) (s : ℕ) (f : OMSSlot → OMSSlot)
    (hf : ∀ x, (f x).slotSeq = x.slotSeq ∧ (f x).next = x.next) : Shape (b.upd s f) ord z := by
  refine h.congr ⟨rfl, rfl, fun j => ?_, fun j => ?_⟩ h.valid
  · rw [OMSBuffer.upd_slots]
    split
    · exact (hf _).1
    · rfl
  · rw [OMSBuffer.upd_slots]
    split
    · exact (hf _).2
    · rfl

theorem Shape.copyCommit (h : Shape b ord z) (timestamp marker dataSize : ℕ)
    (bytes : List UInt8) :
    Shape (OMSbuff.copyCommit b (ord 0) 0 timestamp marker bytes dataSize)
      (rotate ord b.control.nslots) (z - 1) :=
  Shape.commit (h.contents (ord 0)
    (fun x => { x with data := bytes.take dataSize ++ x.data.drop dataSize }) fun _ => ⟨rfl, rfl⟩)
    timestamp marker dataSize

theorem Shape.pushNewer_mem (h : Shape b ord z) (fuel ts : ℕ) {v : ℕ}
    (hv : v < b.control.nslots) :
    ∃ j < b.control.nslots, OMSbuff.pushNewer b fuel ts (ord v) = ord j := by
  induction fuel generalizing ts v with
  | zero => exact ⟨v, hv, rfl⟩
  | succ fuel ih =>
    unfold OMSbuff.pushNewer
    split
    · obtain ⟨j, hj, he⟩ := h.ring.next_mem hv
      rw [he]
      exact ih _ hj
    · exact ⟨v, hv, rfl⟩

theorem Shape.pushWritten_mem (h : Shape b ord z) {fuel ts v r : ℕ}
    (hv : v < b.control.nslots) (hr : OMSbuff.pushWritten b fuel ts (ord v) = some r) :
    ∃ j < b.control.nslots, r = ord j := by
  induction fuel generalizing ts v with
  | zero => cases hr
  | succ fuel ih =>
    unfold OMSbuff.pushWritten at hr
    split at hr
    · obtain ⟨j, hj, he⟩ := h.ring.next_mem hv
      rw [he] at hr
      exact ih hj hr
    · cases hr
      exact ⟨v, hv, rfl⟩

theorem Shape.moved (h : Shape b ord z) {v : ℕ} (hv : v < b.control.nslots) :
    Shape { b with control := { b.control with validReadPos := ord v } } ord z :=
  h.congr ⟨rfl, rfl, fun _ => rfl, fun _ => rfl⟩ ⟨v, hv, rfl⟩

theorem Shape.getslot (h : Shape b ord z) (mem : Bool) :
    ∃ ord' z', Shape (OMSbuff.getslot mem b).2 ord' z' ∧
      ∀ s ∈ (OMSbuff.getslot mem b).1, s = ord' 0 := by
  unfold OMSbuff.getslot
  dsimp only
  rw [h.next_write]
  split
  · obtain ⟨b', hb', hp⟩ := addpage_spec h.write_lt
    cases mem with
    | false => exact ⟨ord, z, h, fun s hs => by cases hs⟩
    | true =>
      rw [hb']
      refine ⟨_, _, h.page hp, ?_⟩
      intro s hs
      cases hs
      rfl
  · split
    · obtain ⟨v, hv, hpos⟩ := h.valid
      obtain ⟨j, hj, he⟩ := h.pushNewer_mem b.control.nslots
        (b.slots b.control.validReadPos).timestamp hv
      rw [hpos] at he ⊢
      rw [he]
      refine ⟨ord, z, h.moved hj, ?_⟩
      intro s hs
      cases hs
      rfl
    · refine ⟨ord, z, h, ?_⟩
      intro s hs
      cases hs
      rfl

theorem Shape.write_foreign (h : Shape b ord z) {mem : Bool} {timestamp marker dataSize : ℕ}
    {bytes : List UInt8}
    (hw : OMSbuff.write mem b 0 timestamp marker (.foreign bytes) dataSize = .done b') :
    ∃ ord' z', Shape b' ord' z' := by
  unfold OMSbuff.write at hw
  dsimp only at hw
  rw [h.next_write, if_neg (by simp)] at hw
  split at hw
  · obtain ⟨b₁, hb₁, hp⟩ := addpage_spec h.write_lt
    cases mem with
    | false => cases hw
    | true =>
      rw [hb₁] at hw
      cases hw
      exact ⟨_, _, Shape.copyCommit (h.page hp) timestamp marker dataSize bytes⟩
  · split at hw
    · obtain ⟨v, hv, hpos⟩ := h.valid
      split at hw
      · cases hw
      · rename_i r hr
        rw [hpos] at hr
        obtain ⟨j, hj, rfl⟩ := h.pushWritten_mem hv hr
        cases hw
        exact ⟨_, _, Shape.copyCommit (h.moved hj) timestamp marker dataSize bytes⟩
    · cases hw
      exact ⟨_, _, h.copyCommit timestamp marker dataSize bytes⟩

end Shapes

/-! ### Every run keeps the shape -/

theorem new_slotSeq {n : ℕ} {b : OMSBuffer} (hb : OMSbuff.new n = some b) (i : ℕ) :
    (b.slots i).slotSeq = 0 := by
  unfold OMSbuff.new at hb
  split at hb
  · cases hb
  · cases hb
    rfl

theorem Shaped.init {n : ℕ} {b : OMSBuffer} (hb : OMSbuff.new n = some b) :
    Shaped (Pool.init b) := by
  obtain ⟨ord, z, lo, hi⟩ := PoolInv.init hb
  have hlo := hi.ring.lo_pos
  obtain ⟨v, hv, hpos, -⟩ := hi.ring.valid
  refine ⟨ord, z, ⟨hi.ring.ring, hi.ring.bound, hi.ring.written, hi.ring.fresh_le,
    fun i hz => (hi.ring.fresh i hz).1, ?_, ?_, v, hv, hpos⟩, fun s hs => by cases hs⟩
  · intro i hz hn
    have hseq := hi.ring.seqs i hz (by omega)
    rw [show ((Pool.init b).buffer.slots (ord i)).slotSeq = 0 from new_slotSeq hb _] at hseq
    omega
  · intro i _
    rw [show ((Pool.init b).buffer.slots (ord i)).slotSeq = 0 from new_slotSeq hb _]
    exact Nat.two_pow_pos 64

theorem Shaped.of_bare {p p' : Pool} (h : Shaped p) (hb : p'.buffer.bare = p.buffer.bare)
    (hslot : p'.slot = p.slot) : Shaped p' := by
  obtain ⟨ord, z, hs, hheld⟩ := h
  exact ⟨ord, z, hs.of_bare hb, hslot ▸ hheld⟩

theorem Shaped.consume {p : Pool} (h : Shaped p) (i : ℕ) (cl : Client) (s : ℕ) :
    Shaped (p.consume i cl s) :=
  h.of_bare (bare_upd_refs p.buffer s decr16) rfl

theorem Shaped.advance {p : Pool} (h : Shaped p) (i : ℕ) (cl : Client) :
    Shaped (p.advance i cl) := by
  unfold Pool.advance
  cases OMSbuff.select p.buffer cl.cons with
  | none => exact h
  | some s => exact h.consume i cl s

theorem Shaped.commit {p : Pool} (h : Shaped p) {s : ℕ} (hs : p.slot = some s)
    {timestamp marker dataSize : ℕ} {b' : OMSBuffer}
    (hw : OMSbuff.write true p.buffer 0 timestamp marker (.slot s) dataSize = .done b') :
    Shaped (p.committed b') := by
  obtain ⟨ord, z, hshape, hheld⟩ := h
  obtain rfl := hheld s hs
  unfold OMSbuff.write at hw
  dsimp only at hw
  rw [hshape.next_write, if_pos rfl] at hw
  cases hw
  exact ⟨_, _, hshape.commit timestamp marker dataSize, fun s hs => by cases hs⟩

theorem Shaped.step {p p' : Pool} {a : Act} (h : Shaped p) (hs : Pool.step p a = some p') :
    Shaped p' := by
  cases a with
  | getslot mem =>
    cases hs
    obtain ⟨ord, z, hshape, -⟩ := h
    exact hshape.getslot mem
  | fill data dataSize =>
    obtain ⟨s, hslot, rfl⟩ := Option.map_eq_some_iff.mp hs
    obtain ⟨ord, z, hshape, hheld⟩ := h
    exact ⟨ord, z, hshape.contents s (fun x => { x with data := data, dataSize := dataSize })
      fun _ => ⟨rfl, rfl⟩, hheld⟩
  | commit timestamp marker =>
    obtain ⟨s, hslot, hs⟩ := Option.bind_eq_some_iff.mp hs
    split at hs
    · rename_i b' hw
      cases hs
      exact h.commit hslot hw
    · cases hs
  | write mem timestamp marker bytes dataSize =>
    unfold Pool.step at hs
    dsimp only at hs
    split at hs
    · rename_i b' hw
      cases hs
      obtain ⟨ord, z, hshape, -⟩ := h
      obtain ⟨ord', z', hshape'⟩ := hshape.write_foreign hw
      exact ⟨ord', z', hshape', fun s hs => by cases hs⟩
    · rename_i b' hw
      cases hs
      rw [write_errAlloc hw]
      exact h
    · cases hs
  | ref =>
    obtain ⟨r, hr, rfl⟩ := Option.map_eq_some_iff.mp hs
    exact h.of_bare (bare_ref hr) rfl
  | getreader i =>
    obtain ⟨cl, -, -, he⟩ := Pool.of_reading hs
    cases he
    exact h
  | gotreader i | read i =>
    obtain ⟨cl, -, -, he⟩ := Pool.of_reading hs
    cases he
    exact h.advance i cl
  | unref i =>
    obtain ⟨cl, -, -, he⟩ := Pool.of_reading hs
    split at he
    · rename_i b hb
      cases he
      unfold OMSbuff.unrefCount at hb
      split at hb
      · cases hb
        exact h.of_bare rfl rfl
      · cases hb
    · cases he
      exact h
  | drain i =>
    obtain ⟨cl, last, -, -, ⟨s, -, rfl⟩ | ⟨-, rfl⟩⟩ := Pool.of_leaving hs
    · exact h.consume i cl s
    · exact h

theorem Shaped.run {p p' : Pool} {as : List Act} (h : Shaped p)
    (hs : exec Pool.step p as = some p') : Shaped p' := by
  induction as generalizing p with
  | nil =>
    cases hs
    exact h
  | cons a as ih =>
    obtain ⟨q, hq, hs⟩ := Option.bind_eq_some_iff.mp hs
    exact ih (h.step hq) hs

/-! ### The two loops over `valid_read_pos` -/

section Push

variable {b : OMSBuffer} {ord : ℕ → ℕ} {z : ℕ}

theorem Shape.seq_lt (h : Shape b ord 0) {i : ℕ} (hi : i + 1 < b.control.nslots)
    (hne : (b.slots (ord (i + 1))).slotSeq ≠ 0) :
    (b.slots (ord i)).slotSeq < (b.slots (ord (i + 1))).slotSeq := by
  have hseq := h.seqs i (Nat.zero_le i) hi
  have hsmall := h.small i (by omega)
  omega

/-- Both loops stop at the same slot, or the slots to the end of the ring carry the
timestamp they look for. -/
theorem Shape.push_agree (h : Shape b ord 0) (ts : ℕ) {fuel i : ℕ}
    (hf : i + fuel = b.control.nslots) (hi : i < b.control.nslots) (hne : ∀ j ≤ i, (b.slots (ord j)).slotSeq ≠ 0) :
    OMSbuff.pushWritten b (fuel + 1) ts (ord i) = some (OMSbuff.pushNewer b fuel ts (ord i)) ∨
      ∀ j, i ≤ j → j < b.control.nslots →
        (b.slots (ord j)).slotSeq ≠ 0 ∧ (b.slots (ord j)).timestamp = ts := by
  induction fuel generalizing i with
  | zero => omega
  | succ fuel ih =>
    unfold OMSbuff.pushWritten OMSbuff.pushNewer
    by_cases hts : ts = (b.slots (ord i)).timestamp
    case neg =>
      rw [if_neg fun hc => hts hc.2, if_neg fun hc => hts hc.2]
      exact Or.inl rfl
    by_cases hlast : i + 1 < b.control.nslots
    · rw [h.ring.succ i hlast]
      by_cases hzero : (b.slots (ord (i + 1))).slotSeq = 0
      · rw [hzero, if_neg fun hc => hc.1 rfl, if_neg fun hc => Nat.not_lt_zero _ hc.1]
        exact Or.inl rfl
      · rw [if_pos ⟨hzero, hts⟩, if_pos ⟨h.seq_lt hlast hzero, hts⟩, ← hts]
        have hne' : ∀ j ≤ i + 1, (b.slots (ord j)).slotSeq ≠ 0 := by
          intro j hj
          rcases Nat.of_le_succ hj with hj | rfl
          · exact hne j hj
          · exact hzero
        refine (ih (by omega) hlast hne').imp_right fun hall j hij hjn => ?_
        rcases Nat.eq_or_lt_of_le hij with rfl | hlt
        · exact ⟨hne i le_rfl, hts.symm⟩
        · exact hall j hlt hjn
    · -- the last slot of the order: the first one behind it is older
      refine Or.inr fun j hij hjn => ?_
      rw [show j = i by omega]
      exact ⟨hne i le_rfl, hts.symm⟩

theorem pushWritten_never {n : ℕ} (h : IsRing (fun i => (b.slots i).next) ord n) {ts : ℕ}
    (hall : ∀ j < n, (b.slots (ord j)).slotSeq ≠ 0 ∧ (b.slots (ord j)).timestamp = ts) {i : ℕ}
    (hi : i < n) (fuel : ℕ) : OMSbuff.pushWritten b fuel ts (ord i) = none := by
  induction fuel generalizing i with
  | zero => rfl
  | succ fuel ih =>
    obtain ⟨j, hj, he⟩ := h.next_mem hi
    unfold OMSbuff.pushWritten
    rw [he, if_pos ⟨(hall j hj).1, (hall i hi).2.symm⟩, (hall i hi).2]
    exact ih hj

end Push

/-! ### Filling and committing a slot -/

section Agree

variable {b : OMSBuffer} (seq timestamp marker : ℕ) (bytes : List UInt8)

theorem upd_slotSeq (b : OMSBuffer) (s : ℕ) (f : OMSSlot → OMSSlot)
    (hf : ∀ x, (f x).slotSeq = x.slotSeq) (j : ℕ) :
    ((b.upd s f).slots j).slotSeq = (b.slots j).slotSeq := by
  rw [OMSBuffer.upd_slots]
  split
  · exact hf _
  · rfl

theorem commitSlot_contents {s size : ℕ} {f g : OMSSlot → OMSSlot}
    (hdata : ∀ x, (f x).data = (g x).data ∧ (f x).next = (g x).next)
    (hf : ∀ x, (f x).slotSeq = x.slotSeq) (hg : ∀ x, (g x).slotSeq = x.slotSeq) :
    OMSbuff.commitSlot (b.upd s f) s seq timestamp marker size =
      OMSbuff.commitSlot (b.upd s g) s seq timestamp marker size := by
  unfold OMSbuff.commitSlot
  dsimp only
  rw [upd_slotSeq b s f hf, upd_slotSeq b s g hg]
  congr 1
  funext j
  simp only [OMSBuffer.upd_slots]
  split
  · rw [(hdata _).1, (hdata _).2]
    rfl
  · rfl

theorem write_filled (mem : Bool) {s : ℕ} (hs : (b.slots b.control.writePos).next = s) :
    OMSbuff.write mem (OMSbuff.fill b s bytes) seq timestamp marker (.slot s) bytes.length =
      .done (OMSbuff.copyCommit b s seq timestamp marker bytes bytes.length) := by
  have hnext : ((OMSbuff.fill b s bytes).slots (OMSbuff.fill b s bytes).control.writePos).next =
      s := by
    unfold OMSbuff.fill
    rw [OMSBuffer.upd_control, OMSBuffer.upd_slots]
    split <;> exact hs
  unfold OMSbuff.write
  dsimp only
  rw [hnext, if_pos rfl]
  unfold OMSbuff.copyCommit
  rw [List.take_length]
  exact congrArg _ (commitSlot_contents seq timestamp marker (fun _ => ⟨rfl, rfl⟩)
    (fun _ => rfl) fun _ => rfl)

theorem AllAlike.never {ord : ℕ → ℕ} {z : ℕ} (hshape : Shape b ord z) (h : AllAlike b)
    (fuel : ℕ) : OMSbuff.pushWritten b fuel (b.slots b.control.validReadPos).timestamp
      b.control.validReadPos = none := by
  obtain ⟨-, hvalid, hall⟩ := h
  rw [hshape.next_write] at hvalid
  have hfull : ∀ j < b.control.nslots, (b.slots (ord j)).slotSeq ≠ 0 ∧
      (b.slots (ord j)).timestamp = (b.slots (ord 0)).timestamp := by
    intro j hj
    rw [← hvalid]
    exact hall (ord j) (hshape.bound j hj)
  rw [hvalid]
  exact pushWritten_never hshape.ring hfull hshape.ring.pos fuel

theorem AllAlike.diverges {ord : ℕ → ℕ} {z : ℕ} (hshape : Shape b ord z) (h : AllAlike b)
    (mem : Bool) :
    OMSbuff.write mem b seq timestamp marker (.foreign bytes) bytes.length = .diverges := by
  have hloop := h.never hshape
  obtain ⟨hrefs, hvalid, hall⟩ := h
  obtain ⟨v, hv, hpos⟩ := hshape.valid
  have hseq := (hall b.control.validReadPos (hpos ▸ hshape.bound v hv)).1
  unfold OMSbuff.write
  dsimp only
  rw [← hvalid, if_neg (by simp), if_neg (by omega), if_pos ⟨hseq, rfl⟩, hloop]

theorem Shape.agrees {ord : ℕ → ℕ} {z : ℕ} (h : Shape b ord z) (hb : ¬ AllAlike b) (mem : Bool) :
    Agrees mem b seq timestamp marker bytes := by
  have hnext := h.next_write
  unfold Agrees OMSbuff.zeroCopy OMSbuff.write OMSbuff.getslot
  dsimp only
  rw [hnext, if_neg (by simp)]
  by_cases hrefs : 0 < (b.slots (ord 0)).refs
  · rw [if_pos hrefs, if_pos hrefs]
    obtain ⟨b', hb', hp⟩ := addpage_spec h.write_lt
    cases mem with
    | false => exact ⟨by simp [OMSbuff.addpage], rfl⟩
    | true =>
      rw [hb']
      have hs : (b'.slots b'.control.writePos).next = b.control.nslots := by
        rw [hp.control]
        change (b'.slots b.control.writePos).next = _
        rw [hp.old _ h.write_lt]
        exact if_pos rfl
      exact ⟨by simp, (write_filled seq timestamp marker bytes true hs).symm⟩
  rw [if_neg hrefs, if_neg hrefs]
  by_cases hpush : (b.slots b.control.validReadPos).slotSeq ≠ 0 ∧ b.control.validReadPos = ord 0
  · rw [if_pos hpush, if_pos hpush]
    obtain ⟨hseq, hvalid⟩ := hpush
    rw [hvalid] at hseq ⊢
    obtain rfl : z = 0 := by
      by_contra hz
      exact hseq (h.fresh 0 (Nat.pos_of_ne_zero hz))
    have hne : ∀ j ≤ 0, (b.slots (ord j)).slotSeq ≠ 0 := by
      intro j hj
      rw [Nat.le_zero.mp hj]
      exact hseq
    rcases h.push_agree (b.slots (ord 0)).timestamp (Nat.zero_add _) h.ring.pos hne with
      hstop | hall
    · rw [hstop]
      let pushed := { b with control := { b.control with
        validReadPos := OMSbuff.pushNewer b b.control.nslots (b.slots (ord 0)).timestamp (ord 0) } }
      exact ⟨by simp, (@write_filled pushed seq timestamp marker bytes mem _ hnext).symm⟩
    · -- every slot of the ring carries the timestamp of the first one
      refine absurd ⟨?_, ?_, ?_⟩ hb
      · rw [hvalid]
        omega
      · rw [hvalid, hnext]
      · intro i hi
        obtain ⟨j, hj, rfl⟩ := h.ring.index_of_lt h.bound hi
        rw [hvalid]
        exact hall j (Nat.zero_le j) hj
  · rw [if_neg hpush, if_neg hpush]
    exact ⟨by simp, (write_filled seq timestamp marker bytes mem hnext).symm⟩

end Agree

/-! ### Where the two agree -/

/-- The copying write does not end in a ring of one timestamp, and agrees with the write in
place everywhere else. -/
theorem agrees_iff {n : ℕ} {b : OMSBuffer} (hb : OMSbuff.new n = some b) {as : List Act} {p : Pool}
    (hp : exec Pool.step (Pool.init b) as = some p) (mem : Bool) (seq timestamp marker : ℕ)
    (bytes : List UInt8) :
    (Agrees mem p.buffer seq timestamp marker bytes ↔ ¬ AllAlike p.buffer) ∧
      (AllAlike p.buffer → ∀ fuel, OMSbuff.pushWritten p.buffer fuel
        (p.buffer.slots p.buffer.control.validReadPos).timestamp
        p.buffer.control.validReadPos = none) := by
  obtain ⟨ord, z, hshape, -⟩ := (Shaped.init hb).run hp
  refine ⟨⟨fun h halike => ?_, fun h => hshape.agrees seq timestamp marker bytes h mem⟩,
    fun h => h.never hshape⟩
  exact h.1 (halike.diverges seq timestamp marker bytes hshape mem)

/-- Two slots with different timestamps, then three bytes that belong to no slot. -/
theorem two_timestamps_agree : ∃ b p, OMSbuff.new 2 = some b ∧
    exec Pool.step (Pool.init b) [.getslot true, .commit 7 0, .getslot true, .commit 8 1] = some p ∧
    Agrees true p.buffer 0 9 1 [1, 2, 3] := by
  refine ⟨_, _, rfl, rfl, (@agrees_iff 2 _ rfl [.getslot true, .commit 7 0, .getslot true,
    .commit 8 1] _ rfl true 0 9 1 [1, 2, 3]).1.mpr ?_⟩
  intro h
  exact absurd (h.2.2 1 (by decide)).2 (by decide)

/-- After two slots of one timestamp the copying write of a third packet hangs. -/
theorem one_timestamp_hangs : ¬ ∀ n b as p, OMSbuff.new n = some b →
    exec Pool.step (Pool.init b) as = some p → ∀ mem seq timestamp marker bytes,
      Agrees mem p.buffer seq timestamp marker bytes := by
  intro h
  refine (h 2 _ [.getslot true, .commit 7 0, .getslot true, .commit 7 1] _ rfl rfl
    true 0 7 1 [1, 2, 3]).1 ?_
  rfl

end Fenice.BufferPool
