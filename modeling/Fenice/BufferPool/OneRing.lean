import Fenice.BufferPool.Producer
import Fenice.BufferPool.Shared

/-!
# The slots form one ring

Whatever the numbers, references and timestamps in the slots are, the links lead around all of
them. The order is read from the slot behind `write_pos`: a commit turns it by one, a page is
put in front of it, and nothing else touches a link.
-/

namespace Fenice.BufferPool
open Fenice.Ring Fenice.Run

/-- Following `next` meets each slot once before it comes back, and the positions of the control
structure are slots. -/
structure Circular (b : OMSBuffer) : Prop where
  visits : ∀ s < b.control.nslots, List.Perm
    ((List.range b.control.nslots).map fun k => (fun i => (b.slots i).next)^[k] s)
    (List.range b.control.nslots)
  returns : ∀ s < b.control.nslots, (fun i => (b.slots i).next)^[b.control.nslots] s = s
  written : b.control.writePos < b.control.nslots
  valid : b.control.validReadPos < b.control.nslots

/-- A page was put behind the slot written last, in front of the one that came next. -/
structure Inserted (b b' : OMSBuffer) (added : ℕ) : Prop where
  first : added = b.control.nslots
  count : b'.control.nslots = b.control.nslots + memPage
  entered : (b'.slots b.control.writePos).next = added
  inOrder : ∀ i, i + 1 < memPage → (b'.slots (added + i)).next = added + i + 1
  left : (b'.slots (added + (memPage - 1))).next = (b.slots b.control.writePos).next
  others : ∀ s < b.control.nslots, s ≠ b.control.writePos →
    (b'.slots s).next = (b.slots s).next

/-- What the links and positions are, for the order `ord`. -/
structure OneRing (b : OMSBuffer) (ord : ℕ → ℕ) : Prop where
  ring : IsRing (fun i => (b.slots i).next) ord b.control.nslots
  bound : ∀ i < b.control.nslots, ord i < b.control.nslots
  written : b.control.writePos = ord (b.control.nslots - 1)
  valid : b.control.validReadPos < b.control.nslots

structure SameLinks (b b' : OMSBuffer) : Prop where
  nslots : b'.control.nslots = b.control.nslots
  writePos : b'.control.writePos = b.control.writePos
  valid : b'.control.validReadPos = b.control.validReadPos
  next : ∀ i, (b'.slots i).next = (b.slots i).next

section Ring

variable {b b' : OMSBuffer} {ord : ℕ → ℕ}

theorem OneRing.circular (h : OneRing b ord) : Circular b where
  visits := by
    intro s hs
    obtain ⟨i, hi, rfl⟩ := h.ring.index_of_lt h.bound hs
    exact h.ring.perm_range h.bound hi
  returns := by
    intro s hs
    obtain ⟨i, hi, rfl⟩ := h.ring.index_of_lt h.bound hs
    exact h.ring.iterate_self hi
  written := by
    have hpos := h.ring.pos
    rw [h.written]
    exact h.bound _ (by omega)
  valid := h.valid

theorem OneRing.congr (h : OneRing b ord) (hs : SameLinks b b') : OneRing b' ord where
  ring := by
    rw [hs.nslots]
    exact h.ring.congr fun i _ => hs.next _
  bound := hs.nslots ▸ h.bound
  written := by rw [hs.nslots, hs.writePos, h.written]
  valid := by rw [hs.nslots, hs.valid]; exact h.valid

theorem OneRing.pushed (h : OneRing b ord) {v : ℕ} (hv : v < b.control.nslots) :
    OneRing { b with control := { b.control with validReadPos := v } } ord :=
  ⟨h.ring, h.bound, h.written, hv⟩

theorem OneRing.next_lt (h : OneRing b ord) {s : ℕ} (hs : s < b.control.nslots) :
    (b.slots s).next < b.control.nslots := by
  obtain ⟨i, hi, rfl⟩ := h.ring.index_of_lt h.bound hs
  obtain ⟨j, hj, he⟩ := h.ring.next_mem hi
  rw [he]
  exact h.bound j hj

theorem sameLinks_upd (b : OMSBuffer) (s : ℕ) {f : OMSSlot → OMSSlot}
    (hf : ∀ x, (f x).next = x.next) : SameLinks b (b.upd s f) where
  nslots := rfl
  writePos := rfl
  valid := rfl
  next := by
    intro i
    rw [OMSBuffer.upd_slots]
    split
    · exact hf _
    · rfl

theorem OneRing.next_write (h : OneRing b ord) : (b.slots b.control.writePos).next = ord 0 := by
  rw [h.written]
  exact h.ring.wrap

theorem OneRing.commit (h : OneRing b ord) (seq timestamp marker dataSize : ℕ) :
    OneRing (OMSbuff.commitSlot b (ord 0) seq timestamp marker dataSize)
      (rotate ord b.control.nslots) where
  ring := by
    refine h.ring.rotate.congr fun i _ => ?_
    simp only [OMSbuff.commitSlot, OMSBuffer.upd_slots]
    split <;> rfl
  bound := by
    intro i hi
    change rotate ord b.control.nslots i < b.control.nslots
    rw [rotate]
    split
    · exact h.bound _ ‹_›
    · exact h.bound 0 h.ring.pos
  written := (rotate_last h.ring.pos).symm
  valid := h.valid

theorem OneRing.copyCommit (h : OneRing b ord) (seq timestamp marker : ℕ) (bytes : List UInt8)
    (dataSize : ℕ) : OneRing (OMSbuff.copyCommit b (ord 0) seq timestamp marker bytes dataSize)
      (rotate ord b.control.nslots) := by
  have hcopy : OneRing (b.upd (ord 0) fun s =>
      { s with data := bytes.take dataSize ++ s.data.drop dataSize }) ord :=
    h.congr (sameLinks_upd b (ord 0) fun _ => rfl)
  exact hcopy.commit seq timestamp marker dataSize

/-! ### Walks that push `valid_read_pos` -/

theorem OneRing.pushNewer_lt (h : OneRing b ord) (fuel ts : ℕ) {v : ℕ}
    (hv : v < b.control.nslots) : OMSbuff.pushNewer b fuel ts v < b.control.nslots := by
  induction fuel generalizing ts v with
  | zero => exact hv
  | succ fuel ih =>
    rw [OMSbuff.pushNewer]
    split
    · exact ih _ (h.next_lt hv)
    · exact hv

theorem OneRing.pushWritten_lt (h : OneRing b ord) {fuel ts v r : ℕ} (hv : v < b.control.nslots)
    (hr : OMSbuff.pushWritten b fuel ts v = some r) : r < b.control.nslots := by
  induction fuel generalizing ts v with
  | zero => cases hr
  | succ fuel ih =>
    rw [OMSbuff.pushWritten] at hr
    split at hr
    · exact ih (h.next_lt hv) hr
    · cases hr
      exact hv

/-! ### Pages -/

theorem PageAdded.inserted (hp : PageAdded b b') (hw : b.control.writePos < b.control.nslots) :
    Inserted b b' b.control.nslots where
  first := rfl
  count := by rw [hp.control]
  entered := by rw [hp.old _ hw, if_pos rfl]
  inOrder := by
    intro i hi
    rw [(hp.new _ (by omega) (by omega)).2.2, if_pos (by omega)]
  left := by
    have hpage : 0 < memPage := by decide
    rw [(hp.new _ (by omega) (by omega)).2.2, if_neg (by omega)]
  others := by
    intro s hs hne
    rw [hp.old s hs, if_neg hne]

theorem PageAdded.oneRing (hp : PageAdded b b') (h : OneRing b ord) :
    OneRing b' (splice (fun i => b.control.nslots + i) ord memPage) where
  ring := by
    rw [show b'.control.nslots = b.control.nslots + memPage by rw [hp.control]]
    exact hp.isRing h.ring h.bound h.written
  bound := fun i hi => hp.bound h.bound hi
  written := by
    have hpos := h.ring.pos
    have hcount : b'.control.nslots = b.control.nslots + memPage := by rw [hp.control]
    rw [hcount, splice_of_le (by omega), hp.control, Nat.sub_right_comm, Nat.add_sub_cancel]
    exact h.written
  valid := by
    rw [hp.control]
    exact Nat.lt_add_right _ h.valid

end Ring

namespace MappedBuffer

/-- A buffer just made by `OMSbuff_new`; in shared memory the slots are linked the same way. -/
def made (type : OMSBufferType) (pool : OMSBuffer) : MappedBuffer :=
  ⟨type, pool, pool.control.nslots, pool.control.nslots * slotSize, true, false⟩

/-- The calls of the buffer, with any arguments. `fill` is the producer that writes into a slot
it was given; the loop of `OMSbuff_unref` is a sequence of `OMSbuff_gotreader`. -/
inductive BufferCall where
  | getslot (o : Outcomes)
  | fill (s : ℕ) (data : List UInt8) (dataSize : ℕ)
  | write (o : Outcomes) (w : WriteArgs)
  | ref
  | gotreader (c : OMSConsumer)
  | read (c : OMSConsumer) (dataSize : ℕ)
  | unref

/-- The buffer after a call that returns. -/
def call (b : MappedBuffer) : BufferCall → Option MappedBuffer
  | .getslot o => (b.getslot o).map Prod.snd
  | .fill s data dataSize =>
    some { b with pool := b.pool.upd s fun x => { x with data := data, dataSize := dataSize } }
  | .write o w =>
    match b.write o w with
    | .returned _ b => some b
    | _ => none
  | .ref => (OMSbuff.ref b.pool).map fun r => { b with pool := r.2 }
  | .gotreader c => some { b with pool := ((OMSbuff.gotreader b.pool c).map Prod.snd).getD b.pool }
  | .read c dataSize =>
    some { b with pool := ((OMSbuff.read b.pool c dataSize).map fun r => r.2.2).getD b.pool }
  | .unref => some { b with pool := (OMSbuff.unrefCount b.pool).getD b.pool }

def PagesAdded (b : MappedBuffer) : BufferCall → Prop
  | .getslot o | .write o _ => b.Full → b.Grows o
  | _ => True

instance (b : MappedBuffer) (c : BufferCall) : Decidable (b.PagesAdded c) := by
  cases c <;> dsimp only [PagesAdded] <;> infer_instance

/-- One ring, all of it mapped. -/
structure RingMapped (b : MappedBuffer) : Prop where
  ring : ∃ ord, OneRing b.pool ord
  mapped : b.mapped = true
  known : b.knownSlots = b.pool.control.nslots

section Calls

variable {b b' : MappedBuffer} {o : Outcomes} {added : ℕ}

theorem shmAddpage_added {pool : OMSBuffer} (hw : pool.control.writePos < pool.control.nslots) :
    PageAdded pool (((newPage pool).upd (pool.control.nslots + memPage - 1) fun s =>
      { s with next := ((newPage pool).slots pool.control.writePos).next }).upd
        pool.control.writePos fun s => { s with next := pool.control.nslots }) where
  control := rfl
  old := by
    intro j hj
    have hpage : 0 < memPage := by decide
    have hout : ¬ (pool.control.nslots ≤ j ∧ j < pool.control.nslots + memPage) := by omega
    have hold : (newPage pool).slots j = pool.slots j := if_neg hout
    simp only [OMSBuffer.upd_slots, if_neg (show j ≠ pool.control.nslots + memPage - 1 by omega),
      hold]
    split <;> rfl
  new := by
    intro j hj hjn
    have hne : j ≠ pool.control.writePos := by omega
    have hbehind : (newPage pool).slots pool.control.writePos =
        pool.slots pool.control.writePos := if_neg (by omega)
    have hnew : (newPage pool).slots j = { pool.slots j with
        refs := 0, slotSeq := 0
        next := if j + 1 < pool.control.nslots + memPage then j + 1 else nullPos } :=
      if_pos ⟨hj, hjn⟩
    rw [OMSBuffer.upd_slots_ne _ _ hne, OMSBuffer.upd_slots, hbehind]
    by_cases hlast : j = pool.control.nslots + memPage - 1
    · rw [if_pos hlast, hnew]
      exact ⟨rfl, rfl, (if_neg (by omega)).symm⟩
    · rw [if_neg hlast, hnew]
      exact ⟨rfl, rfl, (if_pos (by omega)).trans (if_pos (by omega)).symm⟩

theorem addpage_added (hw : b.pool.control.writePos < b.pool.control.nslots)
    (hm : b.mapped = true) (h : b.addpage o b.pool.control.writePos = some (some added, b')) :
    added = b.pool.control.nslots ∧ PageAdded b.pool b'.pool ∧ b'.mapped = true ∧
      b'.knownSlots = b'.pool.control.nslots := by
  cases ht : b.type with
  | buffLocal =>
    cases hmem : o.realloc with
    | false => simp [addpage, ht, OMSbuff.addpage, hmem] at h
    | true =>
      obtain ⟨pool, hpool, hpage⟩ := addpage_spec hw
      simp only [addpage, ht, hmem, hpool, Option.some.injEq, Prod.mk.injEq] at h
      obtain ⟨rfl, rfl⟩ := h
      exact ⟨rfl, hpage, hm, rfl⟩
  | buffShm =>
    by_cases hext : b.Extends o.page
    · obtain ⟨hname, hopen, hstat, hsize, htrunc, hunmap, hmap⟩ := hext
      simp only [addpage, ht, shmAddpage, hname, hopen, hstat, hsize, htrunc, hunmap, hmap,
        Bool.true_eq_false, if_false, ne_eq, not_true_eq_false, Option.some.injEq,
        Prod.mk.injEq, Option.getD_some] at h
      obtain ⟨rfl, rfl⟩ := h
      exact ⟨rfl, shmAddpage_added hw, rfl, rfl⟩
    · obtain ⟨fileSize, mapped, hr⟩ := shmAddpage_fails hext
      simp only [addpage, ht, hr] at h
      split at h
      · cases h
      · cases h

theorem RingMapped.links (h : b.RingMapped) {pool : OMSBuffer} (hs : SameLinks b.pool pool) :
    RingMapped { b with pool := pool } where
  ring := by
    obtain ⟨ord, hord⟩ := h.ring
    exact ⟨ord, hord.congr hs⟩
  mapped := h.mapped
  known := h.known.trans hs.nslots.symm

theorem RingMapped.refresh (h : b.RingMapped) (o : Outcomes) :
    b.lock.refresh o = some (true, b.lock) :=
  if_neg fun hs => hs.2 h.known

theorem RingMapped.written_lt (h : b.RingMapped) :
    b.pool.control.writePos < b.pool.control.nslots := by
  obtain ⟨ord, hord⟩ := h.ring
  exact hord.circular.written

theorem RingMapped.page (h : b.RingMapped)
    (hp : b.addpage o b.pool.control.writePos = some (some added, b')) :
    b'.RingMapped ∧ added = (b'.pool.slots b'.pool.control.writePos).next := by
  obtain ⟨hfirst, hpage, hm, hknown⟩ := addpage_added h.written_lt h.mapped hp
  obtain ⟨ord, hord⟩ := h.ring
  refine ⟨⟨⟨_, hpage.oneRing hord⟩, hm, hknown⟩, ?_⟩
  rw [hpage.control]
  exact hfirst.trans (hpage.inserted h.written_lt).entered.symm

theorem RingMapped.pushed (h : b.RingMapped) {v : ℕ} (hv : v < b.pool.control.nslots) :
    RingMapped { b with
      pool := { b.pool with control := { b.pool.control with validReadPos := v } } } where
  ring := by
    obtain ⟨ord, hord⟩ := h.ring
    exact ⟨ord, hord.pushed hv⟩
  mapped := h.mapped
  known := h.known

theorem RingMapped.unlock (h : b.RingMapped) : b.unlock.RingMapped := ⟨h.ring, h.mapped, h.known⟩

theorem RingMapped.lock (h : b.RingMapped) : b.lock.RingMapped := ⟨h.ring, h.mapped, h.known⟩

theorem RingMapped.pushNewer_lt (h : b.RingMapped) (fuel ts : ℕ) :
    OMSbuff.pushNewer b.pool fuel ts b.pool.control.validReadPos < b.pool.control.nslots := by
  obtain ⟨ord, hord⟩ := h.ring
  exact hord.pushNewer_lt fuel ts hord.valid

theorem RingMapped.pushWritten_lt (h : b.RingMapped) {fuel ts r : ℕ}
    (hr : OMSbuff.pushWritten b.pool fuel ts b.pool.control.validReadPos = some r) :
    r < b.pool.control.nslots := by
  obtain ⟨ord, hord⟩ := h.ring
  exact hord.pushWritten_lt hord.valid hr

theorem RingMapped.commit (h : b.RingMapped) (seq timestamp marker dataSize : ℕ) (locked : Bool) :
    RingMapped { b with
      pool := OMSbuff.commitSlot b.pool b.nextSlot seq timestamp marker dataSize
      locked := locked } where
  ring := by
    obtain ⟨ord, hord⟩ := h.ring
    rw [nextSlot, hord.next_write]
    exact ⟨_, hord.commit seq timestamp marker dataSize⟩
  mapped := h.mapped
  known := h.known

theorem RingMapped.copied (h : b.RingMapped) {slot : ℕ} (hs : slot = b.nextSlot) (w : WriteArgs)
    (bytes : List UInt8) {res : ℤ} (hw : b.copied slot w bytes = .returned res b') :
    b'.RingMapped := by
  subst hs
  cases hw
  obtain ⟨ord, hord⟩ := h.ring
  refine ⟨?_, h.mapped, h.known⟩
  rw [nextSlot, hord.next_write]
  exact ⟨_, hord.copyCommit w.seq w.timestamp w.marker bytes w.dataSize⟩

/-! ### One call -/

theorem getslot_ring (h : b.RingMapped) (hg : b.Full → b.Grows o) {slot : Option ℕ}
    (hs : b.getslot o = some (slot, b')) : b'.RingMapped := by
  rw [getslot, h.refresh o] at hs
  dsimp only at hs
  split at hs
  · rename_i hfull
    obtain ⟨added, b₁, hpage⟩ := @addpage_grows b.lock o b.pool.control.writePos (hg hfull)
    rw [show b.lock.addpage o b.lock.pool.control.writePos = some (some added, b₁) from hpage] at hs
    cases hs
    exact (h.lock.page hpage).1.unlock
  · split at hs
    · cases hs
      exact (h.lock.pushed (h.lock.pushNewer_lt _ _)).unlock
    · cases hs
      exact h.lock.unlock

theorem write_ring (h : b.RingMapped) (hg : b.Full → b.Grows o) {w : WriteArgs} {res : ℤ}
    (hs : b.write o w = .returned res b') : b'.RingMapped := by
  have hwritten := h.written_lt
  rw [write, if_neg (by rw [h.known]; omega), h.refresh o] at hs
  dsimp only at hs
  split at hs
  · cases hs
    exact h.lock.commit w.seq w.timestamp w.marker w.dataSize false
  split at hs
  · rename_i hfull
    obtain ⟨added, b₁, hpage⟩ := @addpage_grows b.lock o b.pool.control.writePos (hg hfull)
    rw [show b.lock.addpage o b.lock.pool.control.writePos = some (some added, b₁) from hpage] at hs
    obtain ⟨hring, hadded⟩ := h.lock.page hpage
    exact hring.copied hadded w _ hs
  split at hs
  · split at hs
    · cases hs
    · rename_i valid hv
      exact (h.lock.pushed (h.lock.pushWritten_lt hv)).copied rfl w _ hs
  · exact h.lock.copied rfl w _ hs

theorem refWindow_links {pool pool' : OMSBuffer} {stop fuel i : ℕ}
    (h : OMSbuff.refWindow stop fuel pool i = some pool') : SameLinks pool pool' := by
  induction fuel generalizing pool i with
  | zero => cases h
  | succ fuel ih =>
    have hstep : SameLinks pool (pool.upd i fun s => { s with refs := incr16 s.refs }) :=
      sameLinks_upd pool i fun _ => rfl
    rw [OMSbuff.refWindow] at h
    split at h
    · cases h
      exact hstep
    · have hrest := ih h
      exact ⟨hrest.nslots.trans hstep.nslots, hrest.writePos.trans hstep.writePos,
        hrest.valid.trans hstep.valid, fun j => (hrest.next j).trans (hstep.next j)⟩

theorem ref_links {pool : OMSBuffer} {r : OMSConsumer × OMSBuffer}
    (h : OMSbuff.ref pool = some r) : SameLinks pool r.2 := by
  rw [OMSbuff.ref] at h
  split at h
  · obtain ⟨pool', hw, rfl⟩ := Option.map_eq_some_iff.mp h
    have hlinks := refWindow_links hw
    exact ⟨hlinks.nslots, hlinks.writePos, hlinks.valid, hlinks.next⟩
  · cases h
    exact ⟨rfl, rfl, rfl, fun _ => rfl⟩

theorem gotreader_links (pool : OMSBuffer) (c : OMSConsumer) :
    SameLinks pool (((OMSbuff.gotreader pool c).map Prod.snd).getD pool) := by
  rw [OMSbuff.gotreader]
  cases OMSbuff.select pool c with
  | none => exact ⟨rfl, rfl, rfl, fun _ => rfl⟩
  | some s =>
    exact sameLinks_upd (f := fun x => { x with refs := decr16 x.refs }) pool s fun _ => rfl

theorem call_ring (h : b.RingMapped) {c : BufferCall} (hg : b.PagesAdded c)
    (hs : b.call c = some b') : b'.RingMapped := by
  cases c with
  | getslot o =>
    obtain ⟨⟨slot, b₁⟩, hget, rfl⟩ := Option.map_eq_some_iff.mp hs
    exact getslot_ring h hg hget
  | fill s data dataSize =>
    cases hs
    exact h.links (sameLinks_upd b.pool s fun _ => rfl)
  | write o w =>
    rw [call] at hs
    split at hs
    · rename_i hw
      cases hs
      exact write_ring h hg hw
    · cases hs
  | ref =>
    obtain ⟨r, hr, rfl⟩ := Option.map_eq_some_iff.mp hs
    exact h.links (ref_links hr)
  | gotreader c =>
    cases hs
    exact h.links (gotreader_links b.pool c)
  | read c dataSize =>
    cases hs
    have hread : (OMSbuff.read b.pool c dataSize).map (fun r => r.2.2) =
        (OMSbuff.gotreader b.pool c).map Prod.snd := by
      rw [← Pool.read_eq b.pool c dataSize, Option.map_map]
      rfl
    rw [hread]
    exact h.links (gotreader_links b.pool c)
  | unref =>
    cases hs
    rw [OMSbuff.unrefCount]
    split <;> exact h.links ⟨rfl, rfl, rfl, fun _ => rfl⟩

end Calls

theorem made_ring {n : ℕ} {pool : OMSBuffer} (hnew : OMSbuff.new n = some pool)
    (type : OMSBufferType) : (made type pool).RingMapped := by
  rw [OMSbuff.new] at hnew
  split at hnew
  · cases hnew
  · cases hnew
    have hpos : 0 < n := by omega
    have hring : IsRing (fun i => if i + 1 < n then i + 1 else 0) id n :=
      ⟨hpos, fun _ _ _ _ he => he, fun i hi => if_pos hi, if_neg (by simp only [id]; omega)⟩
    exact ⟨⟨id, hring, fun _ hi => hi, rfl, hpos⟩, rfl, rfl⟩

/-- After any calls the slots are one ring, and a page that is added lies behind the slot written
last. -/
theorem one_ring {n : ℕ} {pool : OMSBuffer} (hnew : OMSbuff.new n = some pool)
    {type : OMSBufferType} {cs : List BufferCall} {b : MappedBuffer}
    (h : GuardedRun call PagesAdded (made type pool) cs b) :
    Circular b.pool ∧ ∀ (o : Outcomes) (added : ℕ) (b' : MappedBuffer),
      b.addpage o b.pool.control.writePos = some (some added, b') →
        Inserted b.pool b'.pool added := by
  have hring : b.RingMapped :=
    h.invariant (fun _ _ _ hi hg hs => call_ring hi hg hs) (made_ring hnew type)
  obtain ⟨ord, hord⟩ := hring.ring
  refine ⟨hord.circular, ?_⟩
  intro o added b' hadd
  obtain ⟨rfl, hpage, -⟩ := addpage_added hring.written_lt hring.mapped hadd
  exact hpage.inserted hring.written_lt

/-- A reader keeps the only slot, so that a page comes behind it. -/
def grows : List BufferCall :=
  let o : Outcomes :=
    ⟨true, ⟨true, true, true, true, true, true⟩, false, ⟨true, true, true, true, true, true⟩⟩
  [.ref, .write o ⟨0, 5, 0, .foreign [1], 1⟩, .write o ⟨0, 6, 0, .foreign [2], 1⟩]

theorem one_ring_grown : ∃ b, exec call (made .buffLocal ⟨⟨0, 1, 0, 0⟩, fun _ => {}⟩) grows = some b ∧
    b.pool.control.nslots = 10 ∧ Circular b.pool := by
  have hallowed : allowed call PagesAdded (made .buffLocal ⟨⟨0, 1, 0, 0⟩, fun _ => {}⟩) grows =
      true := by
    decide +kernel
  have hrun : (exec call (made .buffLocal ⟨⟨0, 1, 0, 0⟩, fun _ => {}⟩) grows).any
      (fun b => b.pool.control.nslots == 10) = true := by
    decide +kernel
  obtain ⟨b, hb, hten⟩ := (Option.any_eq_true _ _).mp hrun
  have hnew : OMSbuff.new 1 = some ⟨⟨0, 1, 0, 0⟩, fun _ => {}⟩ := by
    simp [OMSbuff.new]
  exact ⟨b, hb, by simpa using hten, (one_ring hnew (.of_allowed hallowed hb)).1⟩

end MappedBuffer

end Fenice.BufferPool
