import Fenice.BufferPool.Pool

/-!
# The five readers

`OMSbuff_isempty`, `OMSbuff_nextts`, `OMSbuff_getreader`, `OMSbuff_gotreader` and
`OMSbuff_read` on a local buffer, each with its own choice of the slot and its own returns.
All five choose as `select` does, which the pool is built on.
-/

namespace Fenice.BufferPool

/-- An `OMSConsumer` with the buffer it points to. -/
structure Reader where
  buffer : OMSBuffer
  cons : OMSConsumer

/-- What `OMSbuff_read` is given to fill. -/
structure ReadArgs where
  timestamp : ℕ
  marker : ℕ
  data : List UInt8
  dataSize : ℕ
  deriving DecidableEq

/-- The arguments once slot `s` was copied into them. -/
def ReadArgs.copied (args : ReadArgs) (s : OMSSlot) : ReadArgs :=
  let cpySize := min args.dataSize s.dataSize
  { timestamp := s.timestamp
    marker := s.marker
    data := s.data.take cpySize ++ args.data.drop cpySize
    dataSize := cpySize }

namespace Reader

/-- `OMStoSlot`: the slot a position designates, `none` for the position -1. -/
def toSlot (r : Reader) (pos : Option ℕ) : Option OMSSlot := pos.map r.buffer.slots

/-- `OMSbuff_isempty`. -/
def isempty (r : Reader) : ℤ × Reader :=
  let next := r.buffer.slots r.cons.readPos
  match r.toSlot r.cons.lastReadPos with
  | none =>
    if next.refs = 0 ∨ next.slotSeq < r.cons.lastSeq then (1, r) else (0, r)
  | some lastRead =>
    let added := r.buffer.slots lastRead.next
    if next.refs = 0 ∨ next.slotSeq < r.cons.lastSeq then
      -- added some slots?
      if added.refs ≠ 0 ∧ added.slotSeq > r.cons.lastSeq then (0, r) else (1, r)
    else if added.slotSeq < next.slotSeq then (0, r)
    else (0, r)

/-- `OMSbuff_nextts`. -/
def nextts (r : Reader) : ℤ × Reader :=
  let next := r.buffer.slots r.cons.readPos
  match r.toSlot r.cons.lastReadPos with
  | none =>
    if next.refs = 0 ∨ next.slotSeq < r.cons.lastSeq then (-1, r) else (next.timestamp, r)
  | some lastRead =>
    let added := r.buffer.slots lastRead.next
    if next.refs = 0 ∨ next.slotSeq < r.cons.lastSeq then
      if added.refs ≠ 0 ∧ added.slotSeq > r.cons.lastSeq then (added.timestamp, r) else (-1, r)
    else if added.slotSeq < next.slotSeq then (added.timestamp, r)
    else (next.timestamp, r)

/-- The end of `OMSbuff_getreader`: slot `i` is handed out. -/
def handOut (r : Reader) (i : ℕ) : Option ℕ × Reader :=
  if r.cons.firstts = -1 then
    (some i, { r with cons := { r.cons with firstts := (r.buffer.slots i).timestamp } })
  else (some i, r)

/-- `OMSbuff_getreader`. -/
def getreader (r : Reader) : Option ℕ × Reader :=
  let next := r.buffer.slots r.cons.readPos
  match r.toSlot r.cons.lastReadPos with
  | none =>
    if next.refs = 0 ∨ next.slotSeq < r.cons.lastSeq then (none, r)
    else r.handOut r.cons.readPos
  | some lastRead =>
    let added := r.buffer.slots lastRead.next
    if next.refs = 0 ∨ next.slotSeq < r.cons.lastSeq then
      if added.refs ≠ 0 ∧ added.slotSeq > r.cons.lastSeq then r.handOut lastRead.next
      else (none, r)
    else if added.slotSeq < next.slotSeq then r.handOut lastRead.next
    else r.handOut r.cons.readPos

/-- The end of `OMSbuff_gotreader`: slot `i` loses a reference, and the consumer moves
behind it. -/
def moveOn (r : Reader) (i : ℕ) : ℤ × Reader :=
  let buffer := r.buffer.upd i fun s => { s with refs := decr16 s.refs }
  (0,
    { buffer
      cons := { r.cons with
        lastSeq := (buffer.slots i).slotSeq
        lastReadPos := some i
        readPos := (buffer.slots i).next } })

/-- `OMSbuff_gotreader`. -/
def gotreader (r : Reader) : ℤ × Reader :=
  let next := r.buffer.slots r.cons.readPos
  match r.toSlot r.cons.lastReadPos with
  | none =>
    if next.refs = 0 ∨ next.slotSeq < r.cons.lastSeq then (1, r) else r.moveOn r.cons.readPos
  | some lastRead =>
    let added := r.buffer.slots lastRead.next
    if next.refs = 0 ∨ next.slotSeq < r.cons.lastSeq then
      if added.refs ≠ 0 ∧ added.slotSeq > r.cons.lastSeq then r.moveOn lastRead.next
      else (1, r)
    else if added.slotSeq < next.slotSeq then r.moveOn lastRead.next
    else r.moveOn r.cons.readPos

/-- The end of `OMSbuff_read`: slot `i` is copied as far as it fits; `last_read_pos` is set
last, after the mutex is released. -/
def copyOut (r : Reader) (i : ℕ) (args : ReadArgs) : ℤ × ReadArgs × Reader :=
  let cpySize := min args.dataSize (r.buffer.slots i).dataSize
  let buffer := r.buffer.upd i fun s => { s with refs := decr16 s.refs }
  let next := buffer.slots i
  let cons := { r.cons with lastSeq := next.slotSeq, readPos := next.next }
  (if cpySize = next.dataSize then 0 else 1,
    { timestamp := next.timestamp
      marker := next.marker
      data := next.data.take cpySize ++ args.data.drop cpySize
      dataSize := cpySize },
    { buffer, cons := { cons with lastReadPos := some i } })

/-- `OMSbuff_read`. -/
def read (r : Reader) (args : ReadArgs) : ℤ × ReadArgs × Reader :=
  let next := r.buffer.slots r.cons.readPos
  match r.toSlot r.cons.lastReadPos with
  | none =>
    if next.refs = 0 ∨ next.slotSeq < r.cons.lastSeq then (-1, args, r)
    else r.copyOut r.cons.readPos args
  | some lastRead =>
    let added := r.buffer.slots lastRead.next
    if next.refs = 0 ∨ next.slotSeq < r.cons.lastSeq then
      if added.refs ≠ 0 ∧ added.slotSeq > r.cons.lastSeq then r.copyOut lastRead.next args
      else (-1, args, r)
    else if added.slotSeq < next.slotSeq then r.copyOut lastRead.next args
    else r.copyOut r.cons.readPos args

/-! ### One choice -/

/-- A function that ends with `absent` or with `found i` for the slot chosen. -/
def choose {α : Type} (r : Reader) (absent : α) (found : ℕ → α) : α :=
  match OMSbuff.select r.buffer r.cons with
  | none => absent
  | some i => found i

section Choice

variable {α : Type} {r : Reader} {absent : α} {found : ℕ → α}

theorem choose_none (h : OMSbuff.select r.buffer r.cons = none) : r.choose absent found = absent := by
  unfold choose
  rw [h]

theorem choose_some {i : ℕ} (h : OMSbuff.select r.buffer r.cons = some i) :
    r.choose absent found = found i := by
  unfold choose
  rw [h]

theorem choose_eq (r : Reader) (absent : α) (found : ℕ → α) :
    r.choose absent found =
      let next := r.buffer.slots r.cons.readPos
      match r.toSlot r.cons.lastReadPos with
      | none =>
        if next.refs = 0 ∨ next.slotSeq < r.cons.lastSeq then absent else found r.cons.readPos
      | some lastRead =>
        let added := r.buffer.slots lastRead.next
        if next.refs = 0 ∨ next.slotSeq < r.cons.lastSeq then
          if added.refs ≠ 0 ∧ added.slotSeq > r.cons.lastSeq then found lastRead.next else absent
        else if added.slotSeq < next.slotSeq then found lastRead.next
        else found r.cons.readPos := by
  unfold choose OMSbuff.select toSlot
  cases r.cons.lastReadPos with
  | none =>
    simp only [Option.map_none]
    split_ifs <;> rfl
  | some l =>
    simp only [Option.map_some]
    split_ifs <;> rfl

theorem nextts_eq (r : Reader) :
    r.nextts = r.choose (-1, r) fun i => (((r.buffer.slots i).timestamp : ℤ), r) := by
  rw [choose_eq]
  rfl

theorem isempty_eq (r : Reader) : r.isempty = r.choose (1, r) fun _ => (0, r) := by
  rw [choose_eq]
  rfl

theorem getreader_eq (r : Reader) : r.getreader = r.choose (none, r) r.handOut := by
  rw [choose_eq]
  rfl

theorem gotreader_eq (r : Reader) : r.gotreader = r.choose (1, r) r.moveOn := by
  rw [choose_eq]
  rfl

theorem read_eq (r : Reader) (args : ReadArgs) :
    r.read args = r.choose (-1, args, r) fun i => r.copyOut i args := by
  rw [choose_eq]
  rfl

end Choice

/-! ### The readers of the pool -/

theorem pool_readers (r : Reader) (args : ReadArgs) :
    OMSbuff.isempty r.buffer r.cons = r.isempty.1 ∧
      OMSbuff.nextts r.buffer r.cons = r.nextts.1 ∧
      OMSbuff.getreader r.buffer r.cons = (r.getreader.1, r.getreader.2.cons) ∧
      (OMSbuff.gotreader r.buffer r.cons).getD (r.cons, r.buffer) =
        (r.gotreader.2.cons, r.gotreader.2.buffer) ∧
      ((OMSbuff.read r.buffer r.cons args.dataSize).map fun out => out.2).getD
        (r.cons, r.buffer) = ((r.read args).2.2.cons, (r.read args).2.2.buffer) := by
  rw [isempty_eq, nextts_eq, getreader_eq, gotreader_eq, read_eq]
  unfold OMSbuff.isempty OMSbuff.nextts OMSbuff.getreader OMSbuff.gotreader OMSbuff.read
  cases h : OMSbuff.select r.buffer r.cons with
  | none => simp only [choose_none h, Option.map_none, Option.getD_none, and_self]
  | some i =>
    simp only [choose_some h, Option.map_some, Option.getD_some]
    refine ⟨trivial, trivial, ?_, ?_, ?_⟩
    · unfold handOut
      split <;> rfl
    · unfold moveOn OMSbuff.take
      simp
    · unfold copyOut OMSbuff.take
      simp

/-! ### Agreement -/

/-- The consumer as it would be without `firstts`. -/
def upToFirstts (r : Reader) : Reader := { r with cons := { r.cons with firstts := -1 } }

/-- The five functions agree on one state. -/
structure SameSlot (r : Reader) (args : ReadArgs) : Prop where
  isempty : r.isempty.1 = 1 ↔ r.getreader.1 = none
  nextts : r.nextts.1 = -1 ↔ r.getreader.1 = none
  gotreader : r.gotreader.1 = 1 ↔ r.getreader.1 = none
  read : (r.read args).1 = -1 ↔ r.getreader.1 = none
  slot : ∀ i ∈ r.getreader.1, r.nextts.1 = (r.buffer.slots i).timestamp ∧
    (r.read args).2.1 = args.copied (r.buffer.slots i)
  moves : (r.read args).2.2.upToFirstts = r.getreader.2.gotreader.2.upToFirstts
  peeks : r.isempty.2 = r ∧ r.nextts.2 = r

theorem handOut_fst (r : Reader) (i : ℕ) : (r.handOut i).1 = some i := by
  unfold handOut
  split <;> rfl

theorem handOut_buffer (r : Reader) (i : ℕ) : (r.handOut i).2.buffer = r.buffer ∧
    ∃ t, (r.handOut i).2.cons = { r.cons with firstts := t } := by
  unfold handOut
  split
  · exact ⟨rfl, _, rfl⟩
  · exact ⟨rfl, r.cons.firstts, rfl⟩

theorem gotreader_of_handOut {r : Reader} {i : ℕ} (h : OMSbuff.select r.buffer r.cons = some i) :
    (r.handOut i).2.gotreader = (r.handOut i).2.moveOn i := by
  obtain ⟨hb, t, hc⟩ := r.handOut_buffer i
  rw [gotreader_eq]
  refine choose_some ?_
  rw [hb, hc]
  exact h

theorem same_slot (r : Reader) (args : ReadArgs) : r.SameSlot args := by
  cases h : OMSbuff.select r.buffer r.cons with
  | none =>
    have hget : r.getreader = (none, r) := (r.getreader_eq).trans (choose_none h)
    have hgot : r.gotreader = (1, r) := (r.gotreader_eq).trans (choose_none h)
    have hread : r.read args = (-1, args, r) := (r.read_eq args).trans (choose_none h)
    have hempty : r.isempty = (1, r) := (r.isempty_eq).trans (choose_none h)
    have hts : r.nextts = (-1, r) := (r.nextts_eq).trans (choose_none h)
    constructor <;> simp [hget, hgot, hread, hempty, hts]
  | some i =>
    have hget : r.getreader = r.handOut i := (r.getreader_eq).trans (choose_some h)
    have hfst : r.getreader.1 = some i := hget ▸ r.handOut_fst i
    have hgot : r.gotreader = r.moveOn i := (r.gotreader_eq).trans (choose_some h)
    have hread : r.read args = r.copyOut i args := (r.read_eq args).trans (choose_some h)
    have hempty : r.isempty = (0, r) := (r.isempty_eq).trans (choose_some h)
    have hts : r.nextts = (((r.buffer.slots i).timestamp : ℤ), r) :=
      (r.nextts_eq).trans (choose_some h)
    refine ⟨?_, ?_, ?_, ?_, ?_, ?_, ?_⟩
    · simp [hfst, hempty]
    · rw [hfst, hts]
      simp
    · simp [hfst, hgot, moveOn]
    · rw [hfst, hread]
      unfold copyOut
      simp only [reduceCtorEq, iff_false]
      split <;> decide
    · intro j hj
      obtain rfl : i = j := Option.some.inj (hfst.symm.trans hj)
      rw [hread, hts]
      refine ⟨rfl, ?_⟩
      simp [copyOut, ReadArgs.copied]
    · obtain ⟨hb, t, hc⟩ := r.handOut_buffer i
      rw [hread, hget, gotreader_of_handOut h]
      unfold moveOn copyOut upToFirstts
      dsimp only
      rw [hb, hc]
    · exact ⟨congrArg Prod.snd hempty, congrArg Prod.snd hts⟩

end Reader

end Fenice.BufferPool
