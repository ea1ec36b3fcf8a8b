import Fenice.Lib.Run
import Fenice.BufferPool.Slots

/-!
# Producer and consumers around one buffer

A `Pool` is a local buffer with the slot its producer holds and the consumers
that were ever registered. One action is one section under the buffer mutex;
`OMSbuff_unref` is a first section that lowers the count and one section for
each `OMSbuff_gotreader` of its loop. `log`, `first` and `got` only record what
was committed and consumed.
-/

namespace Fenice.BufferPool

structure Packet where
  slotSeq : ℕ
  timestamp : ℕ
  marker : ℕ
  data : List UInt8
  dataSize : ℕ
  deriving DecidableEq

def OMSSlot.packet (s : OMSSlot) : Packet :=
  ⟨s.slotSeq, s.timestamp, s.marker, s.data, s.dataSize⟩

/-- `leaving last`: inside `OMSbuff_unref`, the count already lowered when slot
`last` was the newest one. -/
inductive Status where
  | reading
  | leaving (last : ℕ)
  | gone
  deriving DecidableEq

/-- Whether slot `q` was committed while the consumer was counted. -/
def Status.covers : Status → ℕ → Bool
  | .reading, _ => true
  | .leaving last, q => decide (q ≤ last)
  | .gone, _ => false

/-- A consumer; `first` is the `slot_seq` it has to begin with. -/
structure Client where
  cons : OMSConsumer
  status : Status
  first : ℕ
  got : List Packet

/-- The client once it has taken slot `s`. -/
def Client.took (cl : Client) (b : OMSBuffer) (s : ℕ) : Client :=
  { cl with
    cons := (OMSbuff.take b cl.cons s).1
    got := cl.got ++ [(b.slots s).packet] }

structure Pool where
  buffer : OMSBuffer
  slot : Option ℕ
  clients : List Client
  log : List Packet

inductive Act where
  | getslot (mem : Bool)
  | fill (data : List UInt8) (dataSize : ℕ)
  | commit (timestamp marker : ℕ)
  | write (mem : Bool) (timestamp marker : ℕ) (bytes : List UInt8) (dataSize : ℕ)
  | ref
  | getreader (i : ℕ)
  | gotreader (i : ℕ)
  | read (i : ℕ) (dataSize : ℕ)
  | unref (i : ℕ)
  | drain (i : ℕ)
  deriving DecidableEq

namespace OMSBuffer

/-- The `slot_seq` of the slot written last. -/
def lastSeq (b : OMSBuffer) : ℕ := (b.slots b.control.writePos).slotSeq

/-- The `slot_seq` a consumer registered now begins with: that of the slot at
`valid_read_pos`, or of the next commit if nothing was written there. -/
def firstSeq (b : OMSBuffer) : ℕ :=
  let q := (b.slots b.control.validReadPos).slotSeq
  if q ≠ 0 then q else b.lastSeq + 1

end OMSBuffer

namespace Pool

def init (b : OMSBuffer) : Pool := ⟨b, none, [], []⟩

/-- The state after a commit that left buffer `b`. -/
def committed (p : Pool) (b : OMSBuffer) : Pool :=
  { p with buffer := b, slot := none, log := p.log ++ [(b.slots b.control.writePos).packet] }

/-- Client `i` consumes slot `s`. -/
def consume (p : Pool) (i : ℕ) (cl : Client) (s : ℕ) : Pool :=
  { p with
    buffer := (OMSbuff.take p.buffer cl.cons s).2
    clients := p.clients.set i (cl.took p.buffer s) }

/-- `OMSbuff_gotreader` or `OMSbuff_read` of client `i`; both take the selected
slot, and neither changes anything when there is none. -/
def advance (p : Pool) (i : ℕ) (cl : Client) : Pool :=
  match OMSbuff.select p.buffer cl.cons with
  | none => p
  | some s => p.consume i cl s

def register (p : Pool) (c : OMSConsumer) (b : OMSBuffer) : Pool :=
  { p with buffer := b, clients := p.clients ++ [⟨c, .reading, p.buffer.firstSeq, []⟩] }

def step (p : Pool) : Act → Option Pool
  | .getslot mem =>
    let r := OMSbuff.getslot mem p.buffer
    some { p with slot := r.1, buffer := r.2 }
  | .fill data dataSize =>
    p.slot.map fun s =>
      { p with buffer := p.buffer.upd s fun x => { x with data := data, dataSize := dataSize } }
  | .commit timestamp marker =>
    p.slot.bind fun s =>
      match OMSbuff.write true p.buffer 0 timestamp marker (.slot s)
          (p.buffer.slots s).dataSize with
      | .done b => some (p.committed b)
      | _ => none
  | .write mem timestamp marker bytes dataSize =>
    match OMSbuff.write mem p.buffer 0 timestamp marker (.foreign bytes) dataSize with
    | .done b => some (p.committed b)
    | .errAlloc b => some { p with buffer := b }
    | .diverges => none
  | .ref => (OMSbuff.ref p.buffer).map fun r => p.register r.1 r.2
  | .getreader i =>
    match p.clients[i]? with
    | some cl =>
      if cl.status = .reading then
        some { p with
          clients := p.clients.set i { cl with cons := (OMSbuff.getreader p.buffer cl.cons).2 } }
      else none
    | none => none
  | .gotreader i | .read i _ =>
    match p.clients[i]? with
    | some cl => if cl.status = .reading then some (p.advance i cl) else none
    | none => none
  | .unref i =>
    match p.clients[i]? with
    | some cl =>
      if cl.status = .reading then
        match OMSbuff.unrefCount p.buffer with
        | some b => some { p with
            buffer := b
            clients := p.clients.set i { cl with status := .leaving p.buffer.lastSeq } }
        | none => some { p with clients := p.clients.set i { cl with status := .gone } }
      else none
    | none => none
  | .drain i =>
    match p.clients[i]? with
    | some cl =>
      match cl.status with
      | .leaving _ =>
        match OMSbuff.select p.buffer cl.cons with
        | some s => some (p.consume i cl s)
        | none => some { p with clients := p.clients.set i { cl with status := .gone } }
      | _ => none
    | none => none

theorem of_reading {p p' : Pool} {i : ℕ} {f : Client → Option Pool}
    (h : (match p.clients[i]? with
      | some cl => if cl.status = .reading then f cl else none
      | none => none) = some p') :
    ∃ cl, p.clients[i]? = some cl ∧ cl.status = .reading ∧ f cl = some p' := by
  split at h
  · rename_i cl hcl
    split at h
    · rename_i hst
      exact ⟨cl, hcl, hst, h⟩
    · cases h
  · cases h

theorem of_leaving {p p' : Pool} {i : ℕ} (h : p.step (.drain i) = some p') :
    ∃ cl last, p.clients[i]? = some cl ∧ cl.status = .leaving last ∧
      ((∃ s, OMSbuff.select p.buffer cl.cons = some s ∧ p' = p.consume i cl s) ∨
        OMSbuff.select p.buffer cl.cons = none ∧
          p' = { p with clients := p.clients.set i { cl with status := .gone } }) := by
  unfold step at h
  dsimp only at h
  split at h
  · rename_i cl hcl
    split at h
    · rename_i last hst
      refine ⟨cl, last, hcl, hst, ?_⟩
      split at h
      · rename_i s hsel
        cases h
        exact .inl ⟨s, hsel, rfl⟩
      · rename_i hsel
        cases h
        exact .inr ⟨hsel, rfl⟩
    · cases h
  · cases h

theorem gotreader_eq (b : OMSBuffer) (c : OMSConsumer) :
    OMSbuff.gotreader b c = (OMSbuff.select b c).map (OMSbuff.take b c) := rfl

theorem read_eq (b : OMSBuffer) (c : OMSConsumer) (dataSize : ℕ) :
    (OMSbuff.read b c dataSize).map (fun r => (r.2.1, r.2.2)) = OMSbuff.gotreader b c := by
  unfold OMSbuff.read OMSbuff.gotreader
  cases OMSbuff.select b c <;> rfl

end Pool

namespace Client

/-- The next `slot_seq` to consume. -/
def cursor (cl : Client) : ℕ :=
  match cl.cons.lastReadPos with
  | none => cl.first
  | some _ => cl.cons.lastSeq + 1

/-- Whether the consumer still has to consume the slot committed as `q`. -/
def owes (cl : Client) (q : ℕ) : Bool := cl.status.covers q && decide (cl.cursor ≤ q)

end Client

/-! ### When the consumer paths choose rightly -/

/-- The slot read last still holds what was read, or the slot behind it is the
next one, or `read_pos` designates the next one and the slot behind is committed;
and `read_pos` is not the slot just read while others still refer to it. -/
def ReadSafe (b : OMSBuffer) (c : OMSConsumer) : Prop :=
  ∀ l ∈ c.lastReadPos,
    ((b.slots c.readPos).refs = 0 ∨ (b.slots c.readPos).slotSeq ≠ c.lastSeq) ∧
    ((b.slots l).slotSeq = c.lastSeq ∨
      (b.slots (b.slots l).next).slotSeq = c.lastSeq + 1 ∨
      (b.slots c.readPos).slotSeq = c.lastSeq + 1 ∧
        (b.slots (b.slots l).next).slotSeq ≠ 0)

instance (b : OMSBuffer) (c : OMSConsumer) : Decidable (ReadSafe b c) := by
  unfold ReadSafe; infer_instance

/-- No consumer that is still counted would lose a reference in slot `i`. -/
def Spent (b : OMSBuffer) (cl : Client) (i : ℕ) : Prop :=
  (b.slots i).refs = 0 ∨ cl.status.covers (b.slots i).slotSeq = true

instance (b : OMSBuffer) (cl : Client) (i : ℕ) : Decidable (Spent b cl i) := by
  unfold Spent; infer_instance

/-- A leaving consumer still owes a slot, or the slots it looks at hold no
reference of anybody else. -/
def DrainSafe (b : OMSBuffer) (cl : Client) : Prop :=
  ReadSafe b cl.cons ∧
    ((∃ i < b.control.nslots, cl.owes (b.slots i).slotSeq = true) ∨
      Spent b cl cl.cons.readPos ∧ ∀ l ∈ cl.cons.lastReadPos, Spent b cl (b.slots l).next)

instance (b : OMSBuffer) (cl : Client) : Decidable (DrainSafe b cl) := by
  unfold DrainSafe; infer_instance

/-- The condition on one step of a pool: counters stay inside their C types,
reads are safe, and a consumer that has lowered the count finds no reference
that a slot got afterwards. -/
def Guard (p : Pool) : Act → Prop
  | .commit .. | .write .. => p.buffer.lastSeq + 1 < 2 ^ 64
  | .ref => p.buffer.control.refs < 65535 ∧
      ∀ i < p.buffer.control.nslots, (p.buffer.slots i).refs < 65535
  | .getreader i | .gotreader i | .read i _ =>
    ∀ cl ∈ p.clients[i]?, ReadSafe p.buffer cl.cons
  | .drain i => ∀ cl ∈ p.clients[i]?, DrainSafe p.buffer cl
  | _ => True

instance (p : Pool) (a : Act) : Decidable (Guard p a) := by
  cases a <;> dsimp only [Guard] <;> infer_instance

end Fenice.BufferPool
