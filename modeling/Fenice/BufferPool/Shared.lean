import Fenice.BufferPool.Slots

/-!
# Buffers in shared memory (OMSbuff_addpage.c, OMSbuff_shm_addpage.c, OMSbuff_shm_remap.c)

A buffer is local or lies in a shared memory object that several processes map, so each
call first compares the number of slots it has mapped with the one in the control
structure. Every call of the operating system may fail. A result `none` says that memory is
used that is not, or no longer, the buffer's.
-/

namespace Fenice.BufferPool

/-- `ERR_ALLOC`. -/
def errAlloc : ℤ := -4

/-- `sizeof(OMSSlot)`. -/
def slotSize : ℕ := 65048

/-- The position -1 in a `ptrdiff_t`. -/
def nullPos : ℕ := 2 ^ 64 - 1

inductive OMSBufferType where
  | buffLocal
  | buffShm
  deriving DecidableEq

/-- The calls that `OMSbuff_shm_remap` and `OMSbuff_shm_addpage` make, in their order, and
whether each succeeds. Only `OMSbuff_shm_addpage` calls `ftruncate`. -/
structure ShmCalls where
  ipcName : Bool
  shmOpen : Bool
  fstat : Bool
  ftruncate : Bool
  munmap : Bool
  mmap : Bool
  deriving DecidableEq

/-- The outcomes of all calls that one `OMSbuff_getslot` or `OMSbuff_write` may make; `moved`
says that the new mapping of `OMSbuff_shm_remap` is not where the old one was. -/
structure Outcomes where
  realloc : Bool
  remap : ShmCalls
  moved : Bool
  page : ShmCalls
  deriving DecidableEq

/-- An `OMSBuffer` as one process sees it: `pool` is what the memory holds, `knownSlots` the
number of slots it has mapped, `mapped` is false once the old slots are unmapped and no new
mapping was had, `fileSize` is the size of the shared memory object, `locked` the mutex. -/
structure MappedBuffer where
  type : OMSBufferType
  pool : OMSBuffer
  knownSlots : ℕ
  fileSize : ℕ
  mapped : Bool
  locked : Bool

namespace MappedBuffer

def lock (b : MappedBuffer) : MappedBuffer := { b with locked := true }

def unlock (b : MappedBuffer) : MappedBuffer := { b with locked := false }

/-- The slot that comes after the one at `write_pos`. -/
def nextSlot (b : MappedBuffer) : ℕ := (b.pool.slots b.pool.control.writePos).next

/-- `OMSbuff_shm_remap`; `false` is its return 1. -/
def shmRemap (c : ShmCalls) (b : MappedBuffer) : Bool × MappedBuffer :=
  if c.ipcName = false then (false, b)
  else if c.shmOpen = false then (false, b)
  else if c.fstat = false then (false, b)
  else if b.fileSize ≠ b.pool.control.nslots * slotSize then (false, b)
  else if c.munmap = false then (false, b)
  else if c.mmap = false then (false, { b with mapped := false })
  else (true, { b with mapped := true, knownSlots := b.pool.control.nslots })

/-- `OMSbuff_shm_refresh`; `none`: the slots have moved, and the caller has taken the address
of one before. -/
def refresh (o : Outcomes) (b : MappedBuffer) : Option (Bool × MappedBuffer) :=
  if b.type = .buffShm ∧ b.knownSlots ≠ b.pool.control.nslots then
    let r := shmRemap o.remap b
    if r.1 ∧ o.moved then none else some r
  else some (true, b)

/-- The page of new slots in `OMSbuff_shm_addpage`; the last one is linked to nothing. -/
def newPage (b : OMSBuffer) : OMSBuffer where
  control := { b.control with nslots := b.control.nslots + memPage }
  slots := fun i =>
    if b.control.nslots ≤ i ∧ i < b.control.nslots + memPage then
      { b.slots i with
        refs := 0, slotSeq := 0
        next := if i + 1 < b.control.nslots + memPage then i + 1 else nullPos }
    else b.slots i

/-- `OMSbuff_shm_addpage`; `none` is NULL. -/
def shmAddpage (c : ShmCalls) (b : MappedBuffer) : Option ℕ × MappedBuffer :=
  let n := b.pool.control.nslots
  if c.ipcName = false then (none, b)
  else if c.shmOpen = false then (none, b)
  else if c.fstat = false then (none, b)
  else if b.fileSize ≠ n * slotSize then (none, b)
  else if c.ftruncate = false then (none, b)
  else
    let b := { b with fileSize := (n + memPage) * slotSize }
    if c.munmap = false then (none, b)
    else if c.mmap = false then (none, { b with mapped := false })
    else (some n, { b with mapped := true, pool := newPage b.pool, knownSlots := n + memPage })

/-- `OMSbuff_addpage`. In shared memory the result of `OMSbuff_shm_addpage` is not tested
before the slots are linked. -/
def addpage (o : Outcomes) (b : MappedBuffer) (prev : ℕ) : Option (Option ℕ × MappedBuffer) :=
  match b.type with
  | .buffShm =>
    let r := shmAddpage o.page b
    let b := r.2
    if b.mapped = false then none
    else
      let behind := (b.pool.slots prev).next
      let pool := b.pool.upd (b.knownSlots - 1) fun s => { s with next := behind }
      let pool := pool.upd prev fun s => { s with next := r.1.getD nullPos }
      some (r.1, { b with pool := pool })
  | .buffLocal =>
    match OMSbuff.addpage o.realloc b.pool prev with
    | none => some (none, b)
    | some (pool, added) =>
      some (some added, { b with pool := pool, knownSlots := pool.control.nslots })

/-- `OMSbuff_getslot`. -/
def getslot (o : Outcomes) (b : MappedBuffer) : Option (Option ℕ × MappedBuffer) :=
  match b.lock.refresh o with
  | none => none
  | some (false, b) => some (none, b)
  | some (true, b) =>
    let valid := b.pool.control.validReadPos
    if 0 < (b.pool.slots b.nextSlot).refs then
      match b.addpage o b.pool.control.writePos with
      | none => none
      | some (none, b) => some (none, b.unlock)
      | some (some added, b) => some (some added, b.unlock)
    else if (b.pool.slots valid).slotSeq ≠ 0 ∧ valid = b.nextSlot then
      let valid' := OMSbuff.pushNewer b.pool b.pool.control.nslots
        (b.pool.slots valid).timestamp valid
      let pool := { b.pool with control := { b.pool.control with validReadPos := valid' } }
      some (some b.nextSlot, { b with pool := pool }.unlock)
    else some (some b.nextSlot, b.unlock)

/-- The end of a call of `OMSbuff_write`: its result, memory that is not there, or the loop
over `valid_read_pos` that does not end. -/
inductive WriteEnd where
  | returned (res : ℤ) (b : MappedBuffer)
  | wild
  | hangs

/-- The arguments of `OMSbuff_write`. -/
structure WriteArgs where
  seq : ℕ
  timestamp : ℕ
  marker : ℕ
  data : OMSbuff.Data
  dataSize : ℕ

/-- The end of `OMSbuff_write` with data that is copied into `slot`. -/
def copied (b : MappedBuffer) (slot : ℕ) (w : WriteArgs) (bytes : List UInt8) : WriteEnd :=
  .returned 0 { b with
    pool := OMSbuff.copyCommit b.pool slot w.seq w.timestamp w.marker bytes w.dataSize
    locked := false }

/-- `OMSbuff_write`. The `slot_seq` at `write_pos` is read before anything else. -/
def write (o : Outcomes) (b : MappedBuffer) (w : WriteArgs) : WriteEnd :=
  if b.knownSlots ≤ b.pool.control.writePos then .wild
  else match b.lock.refresh o with
  | none => .wild
  | some (false, b) => .returned errAlloc b
  | some (true, b) =>
    let valid := b.pool.control.validReadPos
    let bytes := w.data.bytes b.pool
    if w.data = .slot b.nextSlot then
      .returned 0 { b with
        pool := OMSbuff.commitSlot b.pool b.nextSlot w.seq w.timestamp w.marker w.dataSize
        locked := false }
    else if 0 < (b.pool.slots b.nextSlot).refs then
      match b.addpage o b.pool.control.writePos with
      | none => .wild
      | some (none, b) => .returned errAlloc b.unlock
      | some (some added, b) => b.copied added w bytes
    else if (b.pool.slots valid).slotSeq ≠ 0 ∧ valid = b.nextSlot then
      match OMSbuff.pushWritten b.pool (b.pool.control.nslots + 1)
          (b.pool.slots valid).timestamp valid with
      | none => .hangs
      | some valid' =>
        let pool := { b.pool with control := { b.pool.control with validReadPos := valid' } }
        { b with pool := pool }.copied b.nextSlot w bytes
    else b.copied b.nextSlot w bytes

/-! ### A local buffer -/

/-- On a local buffer this is the `getslot` of the pool, between lock and unlock. -/
theorem getslot_local {b : MappedBuffer} (h : b.type = .buffLocal) (o : Outcomes) :
    ∃ known, b.getslot o = some ((OMSbuff.getslot o.realloc b.pool).1,
      { b with
        pool := (OMSbuff.getslot o.realloc b.pool).2, knownSlots := known, locked := false }) := by
  have hrefresh : b.lock.refresh o = some (true, b.lock) := by
    unfold refresh
    rw [if_neg fun hc => by simp [lock, h] at hc]
  have hgrow : b.lock.addpage o b.pool.control.writePos =
      match OMSbuff.addpage o.realloc b.pool b.pool.control.writePos with
      | none => some (none, b.lock)
      | some (pool, added) =>
        some (some added, { b.lock with pool := pool, knownSlots := pool.control.nslots }) := by
    unfold addpage lock
    simp only [h]
  unfold getslot OMSbuff.getslot nextSlot
  rw [hrefresh]
  dsimp only
  simp only [show b.lock.pool = b.pool from rfl]
  rw [hgrow]
  by_cases hfull : 0 < (b.pool.slots (b.pool.slots b.pool.control.writePos).next).refs
  · rw [if_pos hfull, if_pos hfull]
    cases OMSbuff.addpage o.realloc b.pool b.pool.control.writePos with
    | none => exact ⟨b.knownSlots, rfl⟩
    | some r => exact ⟨r.1.control.nslots, rfl⟩
  · rw [if_neg hfull, if_neg hfull]
    refine ⟨b.knownSlots, ?_⟩
    split <;> rfl

/-! ### Which calls succeed -/

/-- Another process has added slots that this one has not mapped. -/
def Stale (b : MappedBuffer) : Prop :=
  b.type = .buffShm ∧ b.knownSlots ≠ b.pool.control.nslots

/-- The next slot is still referred to, so that a page has to be added. -/
def Full (b : MappedBuffer) : Prop := 0 < (b.pool.slots b.nextSlot).refs

/-- Every call of `OMSbuff_shm_remap` succeeds. -/
def Remaps (c : ShmCalls) (b : MappedBuffer) : Prop :=
  c.ipcName = true ∧ c.shmOpen = true ∧ c.fstat = true ∧
    b.fileSize = b.pool.control.nslots * slotSize ∧ c.munmap = true ∧ c.mmap = true

/-- Every call of `OMSbuff_shm_addpage` succeeds. -/
def Extends (c : ShmCalls) (b : MappedBuffer) : Prop :=
  c.ipcName = true ∧ c.shmOpen = true ∧ c.fstat = true ∧
    b.fileSize = b.pool.control.nslots * slotSize ∧ c.ftruncate = true ∧ c.munmap = true ∧
    c.mmap = true

/-- A page can be added. -/
def Grows (o : Outcomes) (b : MappedBuffer) : Prop :=
  match b.type with
  | .buffLocal => o.realloc = true
  | .buffShm => Extends o.page b

instance (b : MappedBuffer) : Decidable b.Stale := by unfold Stale; infer_instance
instance (b : MappedBuffer) : Decidable b.Full := by unfold Full; infer_instance
instance (c : ShmCalls) (b : MappedBuffer) : Decidable (b.Remaps c) := by
  unfold Remaps; infer_instance
instance (c : ShmCalls) (b : MappedBuffer) : Decidable (b.Extends c) := by
  unfold Extends; infer_instance
instance (o : Outcomes) (b : MappedBuffer) : Decidable (b.Grows o) := by
  unfold Grows; split <;> infer_instance

/-- A buffer between two calls: all links and `write_pos` are positions of slots. -/
structure WellFormed (b : MappedBuffer) : Prop where
  mapped : b.mapped = true
  unlocked : b.locked = false
  known : b.type = .buffLocal → b.knownSlots = b.pool.control.nslots
  written : b.pool.control.writePos < b.pool.control.nslots
  links : ∀ i < b.pool.control.nslots, (b.pool.slots i).next < b.pool.control.nslots
  small : b.pool.control.nslots < 2 ^ 32

section Calls

variable {b : MappedBuffer} {o : Outcomes} {c : ShmCalls}

theorem shmRemap_ok (h : b.Remaps c) :
    b.shmRemap c = (true, { b with mapped := true, knownSlots := b.pool.control.nslots }) := by
  obtain ⟨hname, hopen, hstat, hsize, hunmap, hmap⟩ := h
  unfold shmRemap
  simp [hname, hopen, hstat, hsize, hunmap, hmap]

theorem shmRemap_fails (h : ¬ b.Remaps c) :
    ∃ mapped, b.shmRemap c = (false, { b with mapped := mapped }) := by
  unfold shmRemap
  split_ifs with hname hopen hstat hsize hunmap hmap
  case neg =>
    refine absurd ⟨?_, ?_, ?_, ?_, ?_, ?_⟩ h
    · simpa using hname
    · simpa using hopen
    · simpa using hstat
    · simpa using hsize
    · simpa using hunmap
    · simpa using hmap
  all_goals exact ⟨_, rfl⟩

/-- Whatever fails, the memory of the slots is as before, if it is still there. -/
theorem shmAddpage_fails (h : ¬ b.Extends c) : ∃ fileSize mapped,
    b.shmAddpage c = (none, { b with fileSize := fileSize, mapped := mapped }) := by
  unfold shmAddpage
  dsimp only
  split_ifs with hname hopen hstat hsize htrunc hunmap hmap
  case neg =>
    refine absurd ⟨?_, ?_, ?_, ?_, ?_, ?_, ?_⟩ h
    · simpa using hname
    · simpa using hopen
    · simpa using hstat
    · simpa using hsize
    · simpa using htrunc
    · simpa using hunmap
    · simpa using hmap
  all_goals exact ⟨_, _, rfl⟩

/-! ### Getting a slot -/

/-- What `OMSbuff_shm_refresh` needs. -/
def Ready (o : Outcomes) (b : MappedBuffer) : Prop :=
  b.Stale → b.Remaps o.remap ∧ o.moved = false

/-- What `OMSbuff_shm_refresh` leaves. -/
structure Refreshed (b b' : MappedBuffer) : Prop where
  pool : b'.pool = b.pool
  type : b'.type = b.type
  fileSize : b'.fileSize = b.fileSize
  mapped : b'.mapped = true

theorem Refreshed.full {b' : MappedBuffer} (h : Refreshed b b') : b'.Full ↔ b.Full := by
  unfold Full nextSlot
  rw [h.pool]

theorem Refreshed.grows {b' : MappedBuffer} (h : Refreshed b b') : b'.Grows o ↔ b.Grows o := by
  unfold Grows Extends
  rw [h.type, h.fileSize, h.pool]

theorem refresh_ready (hm : b.mapped = true) (h : b.Ready o) :
    ∃ b', b.lock.refresh o = some (true, b') ∧ Refreshed b b' := by
  unfold refresh
  by_cases hs : b.lock.type = .buffShm ∧ b.lock.knownSlots ≠ b.lock.pool.control.nslots
  · obtain ⟨hremaps, hmoved⟩ := h hs
    rw [if_pos hs, show b.lock.shmRemap o.remap = _ from shmRemap_ok hremaps, hmoved]
    exact ⟨_, if_neg (by simp), rfl, rfl, rfl, rfl⟩
  · rw [if_neg hs]
    exact ⟨b.lock, rfl, rfl, rfl, rfl, hm⟩

/-- If the slots cannot be mapped again, the mutex stays locked. -/
theorem refresh_fails (h : ¬ b.Ready o) : b.lock.refresh o = none ∨
    ∃ b', b.lock.refresh o = some (false, b') ∧ b'.locked = true := by
  obtain ⟨hs, hn⟩ := Classical.not_imp.mp h
  unfold refresh
  rw [if_pos (show b.lock.type = .buffShm ∧ b.lock.knownSlots ≠ b.lock.pool.control.nslots from hs)]
  by_cases hremaps : b.Remaps o.remap
  · left
    rw [show b.lock.shmRemap o.remap = _ from shmRemap_ok hremaps]
    refine if_pos ⟨rfl, ?_⟩
    by_contra hmoved
    exact hn ⟨hremaps, by simpa using hmoved⟩
  · right
    obtain ⟨mapped, hr⟩ := @shmRemap_fails b.lock o.remap hremaps
    rw [hr]
    exact ⟨_, if_neg (by simp), rfl⟩

theorem getslot_stale (h : ¬ b.Ready o) : b.getslot o = none ∨
    ∃ b', b.getslot o = some (none, b') ∧ b'.locked = true := by
  unfold getslot
  rcases refresh_fails h with hr | ⟨b', hr, hlocked⟩
  · rw [hr]
    exact Or.inl rfl
  · rw [hr]
    exact Or.inr ⟨b', rfl, hlocked⟩

theorem addpage_grows {prev : ℕ} (h : b.Grows o) :
    ∃ added b', b.addpage o prev = some (some added, b') := by
  unfold Grows at h
  unfold addpage
  split at h
  · rename_i ht
    simp only [ht, OMSbuff.addpage, h, if_true]
    exact ⟨_, _, rfl⟩
  · rename_i ht
    obtain ⟨hname, hopen, hstat, hsize, htrunc, hunmap, hmap⟩ := h
    simp only [ht, shmAddpage, hname, hopen, hstat, hsize, htrunc, hunmap, hmap]
    simp

theorem addpage_local {prev : ℕ} (ht : b.type = .buffLocal) (h : ¬ b.Grows o) :
    b.addpage o prev = some (none, b) := by
  unfold Grows at h
  unfold addpage
  simp only [ht] at h ⊢
  simp [OMSbuff.addpage, h]

theorem addpage_shm {prev : ℕ} (ht : b.type = .buffShm) (h : ¬ b.Grows o) :
    b.addpage o prev = none ∨
      ∃ b', b.addpage o prev = some (none, b') ∧ (b'.pool.slots prev).next = nullPos := by
  unfold Grows at h
  unfold addpage
  simp only [ht] at h ⊢
  obtain ⟨fileSize, mapped, hr⟩ := shmAddpage_fails h
  rw [hr]
  cases mapped with
  | false => exact Or.inl rfl
  | true =>
    refine Or.inr ⟨_, rfl, ?_⟩
    rw [OMSBuffer.upd_slots_self]
    rfl

theorem getslot_obtains (hm : b.mapped = true) (h : b.Ready o) (hg : b.Full → b.Grows o) :
    ∃ s b', b.getslot o = some (some s, b') := by
  obtain ⟨b₁, hr, hb₁⟩ := refresh_ready hm h
  unfold getslot
  rw [hr]
  dsimp only
  split
  · rename_i hfull
    obtain ⟨added, b', hb'⟩ := @addpage_grows b₁ o b₁.pool.control.writePos
      (hb₁.grows.mpr (hg (hb₁.full.mp hfull)))
    rw [hb']
    exact ⟨added, _, rfl⟩
  · split
    · exact ⟨_, _, rfl⟩
    · exact ⟨_, _, rfl⟩

/-- A local buffer that cannot grow is left as it was. -/
theorem getslot_local_fails (hm : b.mapped = true) (ht : b.type = .buffLocal) (hfull : b.Full)
    (hg : ¬ b.Grows o) :
    ∃ b', b.getslot o = some (none, b') ∧ b'.pool = b.pool ∧ b'.locked = false := by
  obtain ⟨b₁, hr, hb₁⟩ := @refresh_ready b o hm fun hs => by simp [hs.1] at ht
  have hpage := @addpage_local b₁ o b₁.pool.control.writePos (hb₁.type.trans ht)
    (mt hb₁.grows.mp hg)
  unfold getslot
  rw [hr]
  dsimp only
  rw [if_pos (show 0 < (b₁.pool.slots b₁.nextSlot).refs from hb₁.full.mpr hfull), hpage]
  exact ⟨_, rfl, hb₁.pool, rfl⟩

/-- A shared buffer that cannot grow loses its ring. -/
theorem getslot_shm_fails (hm : b.mapped = true) (ht : b.type = .buffShm) (h : b.Ready o)
    (hfull : b.Full) (hg : ¬ b.Grows o) : b.getslot o = none ∨
    ∃ b', b.getslot o = some (none, b') ∧
      (b'.pool.slots b.pool.control.writePos).next = nullPos := by
  obtain ⟨b₁, hr, hb₁⟩ := refresh_ready hm h
  unfold getslot
  rw [hr]
  dsimp only
  rw [if_pos (show 0 < (b₁.pool.slots b₁.nextSlot).refs from hb₁.full.mpr hfull), hb₁.pool]
  rcases @addpage_shm b₁ o b.pool.control.writePos (hb₁.type.trans ht) (mt hb₁.grows.mp hg) with
    hpage | ⟨b', hpage, hnull⟩
  · rw [hpage]
    exact Or.inl rfl
  · rw [hpage]
    exact Or.inr ⟨_, rfl, hnull⟩

/-! ### Writing -/

/-- The call writes, or reports that it could not and has changed nothing. -/
def WriteEnd.Harmless (b : MappedBuffer) : WriteEnd → Prop
  | returned res b' => res = 0 ∨ res = errAlloc ∧ b'.pool = b.pool ∧ b'.locked = false
  -- a ring of one timestamp, whether or not there is memory
  | hangs => True
  | wild => False

theorem write_harmless (hw : b.WellFormed) (h : b.Ready o)
    (hknown : b.Stale → b.pool.control.writePos < b.knownSlots)
    (hg : b.Full → b.Grows o ∨ b.type = .buffLocal) (w : WriteArgs) :
    (b.write o w).Harmless b := by
  have hlt : b.pool.control.writePos < b.knownSlots := by
    by_cases hs : b.Stale
    · exact hknown hs
    · have hn : b.knownSlots = b.pool.control.nslots := by
        cases ht : b.type with
        | buffLocal => exact hw.known ht
        | buffShm =>
          by_contra hne
          exact hs ⟨ht, hne⟩
      rw [hn]
      exact hw.written
  obtain ⟨b₁, hr, hb₁⟩ := refresh_ready hw.mapped h
  unfold write
  rw [if_neg (Nat.not_le.mpr hlt), hr]
  dsimp only
  split
  · exact Or.inl rfl
  split
  · rename_i hfull
    by_cases hgrow : b₁.Grows o
    · obtain ⟨added, b', hb'⟩ := @addpage_grows b₁ o b₁.pool.control.writePos hgrow
      rw [hb']
      exact Or.inl rfl
    · have ht := (hg (hb₁.full.mp hfull)).resolve_left (mt hb₁.grows.mpr hgrow)
      rw [@addpage_local b₁ o b₁.pool.control.writePos (hb₁.type.trans ht) hgrow]
      exact Or.inr ⟨rfl, hb₁.pool, rfl⟩
  split
  · split
    · exact trivial
    · exact Or.inl rfl
  · exact Or.inl rfl

end Calls

end MappedBuffer

end Fenice.BufferPool
