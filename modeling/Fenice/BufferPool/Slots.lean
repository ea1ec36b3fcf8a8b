import Mathlib.Algebra.Group.Nat.Defs
import Mathlib.Tactic.Common
import Mathlib.Data.Nat.Notation
import Mathlib.Data.Int.Notation

/-!
# The packet buffer (bufferpool/OMSbuff_*.c)

A local buffer: a ring of slots linked by index, one producer that takes the
slot behind the one it wrote last, and consumers that keep their own position.
`refs` of a slot counts the consumers that have not read it. Counters are
natural numbers with the wrap of their C type (`uint16`, `uint64`) written out;
a timestamp is the `uint32` that `OMSbuff_write` stores in a double.
-/

namespace Fenice.BufferPool

/-- `OMSBUFF_MEM_PAGE`. -/
def memPage : ℕ := 9

/-- `x++` and `x--` on a `uint16`. -/
def incr16 (x : ℕ) : ℕ := (x + 1) % 65536
def decr16 (x : ℕ) : ℕ := (x + 65535) % 65536

theorem incr16_of_lt {x : ℕ} (h : x < 65535) : incr16 x = x + 1 := by
  unfold incr16; omega

theorem decr16_of_pos {x : ℕ} (h : 0 < x) (hx : x < 65536) : decr16 x = x - 1 := by
  unfold decr16; omega

structure OMSSlot where
  refs : ℕ := 0
  slotSeq : ℕ := 0
  timestamp : ℕ := 0
  data : List UInt8 := []
  dataSize : ℕ := 0
  marker : ℕ := 0
  next : ℕ := 0
  deriving DecidableEq

structure OMSControl where
  refs : ℕ
  nslots : ℕ
  writePos : ℕ
  validReadPos : ℕ
  deriving DecidableEq

/-- A buffer of type `buff_local`; the slots are `slots 0 … slots (nslots - 1)`. -/
structure OMSBuffer where
  control : OMSControl
  slots : ℕ → OMSSlot

/-- `readPos` and `lastReadPos` are slot indices, `none` standing for -1;
`firstts` is -1 until the first slot is seen. -/
structure OMSConsumer where
  readPos : ℕ
  lastReadPos : Option ℕ
  lastSeq : ℕ
  frames : ℤ
  firstts : ℤ
  deriving DecidableEq

namespace OMSBuffer

/-- Change one slot. -/
def upd (b : OMSBuffer) (i : ℕ) (f : OMSSlot → OMSSlot) : OMSBuffer :=
  { b with slots := fun j => if j = i then f (b.slots j) else b.slots j }

@[simp] theorem upd_control (b : OMSBuffer) (i f) : (b.upd i f).control = b.control := rfl

@[simp] theorem upd_slots_self (b : OMSBuffer) (i f) : (b.upd i f).slots i = f (b.slots i) :=
  if_pos rfl

theorem upd_slots_ne (b : OMSBuffer) {i j : ℕ} (f) (h : j ≠ i) :
    (b.upd i f).slots j = b.slots j := if_neg h

theorem upd_slots (b : OMSBuffer) (i j : ℕ) (f) :
    (b.upd i f).slots j = if j = i then f (b.slots j) else b.slots j := rfl

end OMSBuffer

namespace OMSbuff

/-- `OMSbuff_new`: the slots come zeroed from `xcalloc`. -/
def new (bufferSize : ℕ) : Option OMSBuffer :=
  if bufferSize = 0 then none
  else some
    { control := ⟨0, bufferSize, bufferSize - 1, 0⟩
      slots := fun i => { next := if i + 1 < bufferSize then i + 1 else 0 } }

/-- `OMSbuff_addpage` on a local buffer: nine new slots linked behind `prev`.
`mem` is the outcome of `realloc`. Only `refs`, `slot_seq` and `next` of the new
slots are set. -/
def addpage (mem : Bool) (b : OMSBuffer) (prev : ℕ) : Option (OMSBuffer × ℕ) :=
  if mem then
    let n := b.control.nslots
    let linked : ℕ → OMSSlot := fun i =>
      if n ≤ i ∧ i < n + memPage then
        { b.slots i with
          refs := 0, slotSeq := 0
          next := if i + 1 < n + memPage then i + 1 else (b.slots prev).next }
      else b.slots i
    let grown : OMSBuffer :=
      { control := { b.control with nslots := n + memPage }, slots := linked }
    some (grown.upd prev fun s => { s with next := n }, n)
  else none

/-- The loop of `OMSbuff_getslot` that pushes `valid_read_pos`, as long as the
slot behind it is newer and the timestamp is the one of the slot before.
`slot_seq` grows along the walk, so it is shorter than the ring. -/
def pushNewer (b : OMSBuffer) : ℕ → ℕ → ℕ → ℕ
  | 0, _, v => v
  | fuel + 1, ts, v =>
    if (b.slots v).slotSeq < (b.slots (b.slots v).next).slotSeq ∧ ts = (b.slots v).timestamp
    then pushNewer b fuel (b.slots v).timestamp (b.slots v).next
    else v

/-- `OMSbuff_getslot`; `none` in the first component is the NULL returned when
no page can be added. -/
def getslot (mem : Bool) (b : OMSBuffer) : Option ℕ × OMSBuffer :=
  let slot := b.control.writePos
  let valid := b.control.validReadPos
  let next := (b.slots slot).next
  if 0 < (b.slots next).refs then
    match addpage mem b slot with
    | none => (none, b)
    | some (b', added) => (some added, b')
  else if (b.slots valid).slotSeq ≠ 0 ∧ valid = next then
    let valid' := pushNewer b b.control.nslots (b.slots valid).timestamp valid
    (some next, { b with control := { b.control with validReadPos := valid' } })
  else (some next, b)

/-- What `OMSbuff_write` stores in the slot it commits. -/
def commitSlot (b : OMSBuffer) (slot seq timestamp marker dataSize : ℕ) : OMSBuffer :=
  let currSeq := (b.slots b.control.writePos).slotSeq
  let b' := b.upd slot fun s =>
    { s with
      timestamp := timestamp, marker := marker, dataSize := dataSize
      refs := b.control.refs
      slotSeq := if seq ≠ 0 then seq else (currSeq + 1) % 2 ^ 64 }
  { b' with control := { b'.control with writePos := slot } }

/-- The loop of `OMSbuff_write` that pushes `valid_read_pos`; it looks only
whether the slot behind was ever written. `none` is a walk that meets equal
timestamps all around the ring and does not end. -/
def pushWritten (b : OMSBuffer) : ℕ → ℕ → ℕ → Option ℕ
  | 0, _, _ => none
  | fuel + 1, ts, v =>
    if (b.slots (b.slots v).next).slotSeq ≠ 0 ∧ ts = (b.slots v).timestamp
    then pushWritten b fuel (b.slots v).timestamp (b.slots v).next
    else some v

/-- The `data` argument of `OMSbuff_write`: the data area of a slot, or bytes
that belong to no slot. -/
inductive Data where
  | slot (i : ℕ)
  | foreign (bytes : List UInt8)
  deriving DecidableEq

def Data.bytes (b : OMSBuffer) : Data → List UInt8
  | .slot i => (b.slots i).data
  | .foreign bytes => bytes

inductive Written where
  | done (b : OMSBuffer)
  | errAlloc (b : OMSBuffer)
  | diverges

/-- The copying half of `OMSbuff_write`: `memcpy` into the slot, then the same
commit. -/
def copyCommit (b : OMSBuffer) (slot seq timestamp marker : ℕ) (bytes : List UInt8)
    (dataSize : ℕ) : OMSBuffer :=
  commitSlot (b.upd slot fun s => { s with data := bytes.take dataSize ++ s.data.drop dataSize })
    slot seq timestamp marker dataSize

/-- `OMSbuff_write`: data of the slot behind `write_pos` is committed in place,
other data is copied into a slot taken as `OMSbuff_getslot` takes it. -/
def write (mem : Bool) (b : OMSBuffer) (seq timestamp marker : ℕ) (data : Data)
    (dataSize : ℕ) : Written :=
  let slot := b.control.writePos
  let valid := b.control.validReadPos
  let next := (b.slots slot).next
  if data = .slot next then .done (commitSlot b next seq timestamp marker dataSize)
  else if 0 < (b.slots next).refs then
    match addpage mem b slot with
    | none => .errAlloc b
    | some (b', added) =>
      .done (copyCommit b' added seq timestamp marker (data.bytes b) dataSize)
  else if (b.slots valid).slotSeq ≠ 0 ∧ valid = next then
    match pushWritten b (b.control.nslots + 1) (b.slots valid).timestamp valid with
    | none => .diverges
    | some valid' =>
      let b' := { b with control := { b.control with validReadPos := valid' } }
      .done (copyCommit b' next seq timestamp marker (data.bytes b) dataSize)
  else .done (copyCommit b next seq timestamp marker (data.bytes b) dataSize)

/-- The loop of `OMSbuff_ref` over the window of the ring that ends at
`write_pos`; `none` if it does not meet that position. -/
def refWindow (stop : ℕ) : ℕ → OMSBuffer → ℕ → Option OMSBuffer
  | 0, _, _ => none
  | fuel + 1, b, i =>
    let b' := b.upd i fun s => { s with refs := incr16 s.refs }
    if i = stop then some b' else refWindow stop fuel b' (b.slots i).next

/-- `OMSbuff_ref`: a new consumer, counted in every slot of the window. -/
def ref (b : OMSBuffer) : Option (OMSConsumer × OMSBuffer) :=
  let cons : OMSConsumer := ⟨b.control.validReadPos, none, 0, 0, -1⟩
  let counted (b' : OMSBuffer) : OMSBuffer :=
    { b' with control := { b'.control with refs := incr16 b'.control.refs } }
  if (b.slots cons.readPos).slotSeq ≠ 0 then
    (refWindow b.control.writePos b.control.nslots b cons.readPos).map fun b' =>
      (cons, counted b')
  else some (cons, counted b)

/-- The choice of a slot that `OMSbuff_getreader`, `OMSbuff_gotreader`,
`OMSbuff_read`, `OMSbuff_isempty` and `OMSbuff_nextts` all begin with. -/
def select (b : OMSBuffer) (c : OMSConsumer) : Option ℕ :=
  let next := b.slots c.readPos
  let behind := c.lastReadPos.map fun l => (b.slots l).next
  if next.refs = 0 ∨ next.slotSeq < c.lastSeq then
    -- pages may have been added behind the slot read last
    match behind with
    | some i =>
      if (b.slots i).refs ≠ 0 ∧ c.lastSeq < (b.slots i).slotSeq then some i else none
    | none => none
  else match behind with
    | some i => if (b.slots i).slotSeq < next.slotSeq then some i else some c.readPos
    | none => some c.readPos

/-- `OMSbuff_getreader`: the chosen slot, nothing moves but `firstts`. -/
def getreader (b : OMSBuffer) (c : OMSConsumer) : Option ℕ × OMSConsumer :=
  match select b c with
  | none => (none, c)
  | some i =>
    (some i, if c.firstts = -1 then { c with firstts := (b.slots i).timestamp } else c)

/-- Take the chosen slot: drop its reference and move behind it. -/
def take (b : OMSBuffer) (c : OMSConsumer) (i : ℕ) : OMSConsumer × OMSBuffer :=
  ({ c with
      lastSeq := (b.slots i).slotSeq, lastReadPos := some i, readPos := (b.slots i).next },
    b.upd i fun s => { s with refs := decr16 s.refs })

/-- `OMSbuff_gotreader`; `none` is the error return 1, which changes nothing. -/
def gotreader (b : OMSBuffer) (c : OMSConsumer) : Option (OMSConsumer × OMSBuffer) :=
  (select b c).map fun i => take b c i

structure ReadOut where
  timestamp : ℕ
  marker : ℕ
  data : List UInt8
  dataSize : ℕ
  result : ℤ
  deriving DecidableEq

/-- `OMSbuff_read`: `gotreader` with a copy of the slot; `none` is the return -1. -/
def read (b : OMSBuffer) (c : OMSConsumer) (dataSize : ℕ) :
    Option (ReadOut × OMSConsumer × OMSBuffer) :=
  (select b c).map fun i =>
    let s := b.slots i
    let cpySize := min dataSize s.dataSize
    (⟨s.timestamp, s.marker, s.data.take cpySize, cpySize,
        if cpySize = s.dataSize then 0 else 1⟩, take b c i)

/-- `OMSbuff_isempty`. -/
def isempty (b : OMSBuffer) (c : OMSConsumer) : ℤ :=
  match select b c with
  | none => 1
  | some _ => 0

/-- `OMSbuff_nextts`. -/
def nextts (b : OMSBuffer) (c : OMSConsumer) : ℤ :=
  match select b c with
  | none => -1
  | some i => (b.slots i).timestamp

/-- The first step of `OMSbuff_unref`: the count of the buffer goes down under
the mutex. What follows outside of it is a loop of `gotreader`. `none` is the
branch of a buffer that counts no consumer, where the loop is not entered. -/
def unrefCount (b : OMSBuffer) : Option OMSBuffer :=
  if 0 < b.control.refs then
    some { b with control := { b.control with refs := b.control.refs - 1 } }
  else none

end OMSbuff

end Fenice.BufferPool
