import Fenice.BufferPool.References

/-!
# The window of new consumers

The slots from `valid_read_pos` to `write_pos`, whatever the references of the
slots are: a read may take any slot, and a slot taken by `OMSbuff_getslot` need
not be committed.
-/

namespace Fenice.BufferPool
open Fenice.Run Fenice.Ring

/-- The buffer without its reference counts. -/
def OMSBuffer.bare (b : OMSBuffer) : OMSBuffer where
  control := { b.control with refs := 0 }
  slots := fun i => { b.slots i with refs := 0 }

/-- The slot reached from `valid_read_pos` in `i` steps. -/
def OMSBuffer.windowSlot (b : OMSBuffer) (i : ℕ) : ℕ :=
  (fun j => (b.slots j).next)^[i] b.control.validReadPos

/-- From `valid_read_pos` the links lead in `k` steps to `write_pos`, not earlier,
through slots with consecutive numbers. -/
structure IsWindow (b : OMSBuffer) (k : ℕ) : Prop where
  ends : b.windowSlot k = b.control.writePos
  before : ∀ i < k, b.windowSlot i ≠ b.control.writePos
  seqs : ∀ i ≤ k, (b.slots (b.windowSlot i)).slotSeq ≠ 0 ∧
    (b.slots (b.windowSlot i)).slotSeq + (k - i) = b.lastSeq

/-- `OMSbuff_ref` comes to an end; the slots of the window, and no others, get a reference. -/
def RefsWindow (b : OMSBuffer) (k : ℕ) : Prop :=
  ∃ c b', OMSbuff.ref b = some (c, b') ∧ c.readPos = b.control.validReadPos ∧
    (∀ i ≤ k, (b'.slots (b.windowSlot i)).refs = incr16 (b.slots (b.windowSlot i)).refs) ∧
    ∀ j < b.control.nslots, (∀ i ≤ k, j ≠ b.windowSlot i) → (b'.slots j).refs = (b.slots j).refs

/-- Once a slot has been committed there is such a window, and it ends with the last one. -/
def WindowSound (p : Pool) : Prop :=
  p.log ≠ [] → ∃ k, IsWindow p.buffer k ∧ RefsWindow p.buffer k ∧
    p.log.getLast?.map Packet.slotSeq = some p.buffer.lastSeq

/-- The producer commits the slot it has obtained, and does not pass other data to
`OMSbuff_write`. -/
def Act.InPlace : Act → Prop
  | .write .. => False
  | _ => True

instance (a : Act) : Decidable a.InPlace :=
  match a with
  | .write .. => isFalse id
  | .getslot _ | .fill .. | .commit .. | .ref | .getreader _ | .gotreader _ | .read .. | .unref _
  | .drain _ => isTrue trivial

def Act.isCommit : Act → Bool
  | .commit .. => true
  | _ => false

/-- The number of slots that a run commits. -/
def commits (as : List Act) : ℕ := as.countP Act.isCommit

/-! ### Reference counts do not matter -/

structure WindowInv (p : Pool) (ord : ℕ → ℕ) (z lo : ℕ) : Prop where
  ring : RingInv p.buffer.bare ord z lo
  idle : z = p.buffer.control.nslots → ∀ i, (p.buffer.slots i).refs = 0
  held : ∀ s ∈ p.slot, s = ord 0
  logged : p.log.length = p.buffer.lastSeq
  newest : p.log ≠ [] → p.log.getLast?.map Packet.slotSeq = some p.buffer.lastSeq

theorem bare_of_refs {b b' : OMSBuffer}
    (hc : { b'.control with refs := 0 } = { b.control with refs := 0 })
    (hs : ∀ i, { b'.slots i with refs := 0 } = { b.slots i with refs := 0 }) : b'.bare = b.bare := by
  unfold OMSBuffer.bare
  rw [hc]
  congr 1
  exact funext hs

theorem bare_upd_refs (b : OMSBuffer) (i : ℕ) (f : ℕ → ℕ) :
    (b.upd i fun s => { s with refs := f s.refs }).bare = b.bare := by
  refine bare_of_refs rfl ?_
  intro j
  rw [OMSBuffer.upd_slots]
  split <;> rfl

theorem bare_nslots {b b' : OMSBuffer} (h : b'.bare = b.bare) :
    b'.control.nslots = b.control.nslots := by
  change b'.bare.control.nslots = b.bare.control.nslots
  rw [h]

theorem bare_lastSeq {b b' : OMSBuffer} (h : b'.bare = b.bare) : b'.lastSeq = b.lastSeq := by
  change b'.bare.lastSeq = b.bare.lastSeq
  rw [h]

theorem bare_refWindow {stop fuel i : ℕ} {b b' : OMSBuffer}
    (h : OMSbuff.refWindow stop fuel b i = some b') : b'.bare = b.bare := by
  induction fuel generalizing b i with
  | zero => cases h
  | succ fuel ih =>
    unfold OMSbuff.refWindow at h
    split at h
    · cases h
      exact bare_upd_refs b i incr16
    · exact (ih h).trans (bare_upd_refs b i incr16)

theorem bare_ref {b : OMSBuffer} {r : OMSConsumer × OMSBuffer} (h : OMSbuff.ref b = some r) :
    r.2.bare = b.bare := by
  unfold OMSbuff.ref at h
  dsimp only at h
  split at h
  · obtain ⟨b', hb', rfl⟩ := Option.map_eq_some_iff.mp h
    rw [← bare_refWindow hb']
    rfl
  · cases h
    rfl

theorem WindowInv.same {p p' : Pool} {ord : ℕ → ℕ} {z lo : ℕ} (h : WindowInv p ord z lo)
    (hb : p'.buffer.bare = p.buffer.bare) (hlog : p'.log = p.log)
    (hslot : ∀ s ∈ p'.slot, s ∈ p.slot)
    (hidle : (∀ i, (p.buffer.slots i).refs = 0) → ∀ i, (p'.buffer.slots i).refs = 0) :
    WindowInv p' ord z lo := by
  have hn := bare_nslots hb
  have hl := bare_lastSeq hb
  refine ⟨?_, ?_, fun s hs => h.held s (hslot s hs), ?_, ?_⟩
  · rw [hb]
    exact h.ring
  · rw [hn]
    exact fun hz => hidle (h.idle hz)
  · rw [hlog, hl]
    exact h.logged
  · rw [hlog, hl]
    exact h.newest

theorem select_idle {b : OMSBuffer} (h : ∀ i, (b.slots i).refs = 0) (c : OMSConsumer) :
    OMSbuff.select b c = none := by
  unfold OMSbuff.select
  dsimp only
  rw [if_pos (Or.inl (h _))]
  cases c.lastReadPos with
  | none => rfl
  | some l =>
    dsimp only [Option.map_some]
    rw [if_neg fun hc => hc.1 (h _)]

theorem WindowInv.consume {p : Pool} {ord : ℕ → ℕ} {z lo : ℕ} (h : WindowInv p ord z lo) {i : ℕ}
    {cl : Client} {s : ℕ} (hs : OMSbuff.select p.buffer cl.cons = some s) :
    WindowInv (p.consume i cl s) ord z lo := by
  refine h.same ?_ rfl (fun _ hm => hm) ?_
  · exact bare_upd_refs p.buffer s decr16
  · intro hidle
    rw [select_idle hidle] at hs
    cases hs

theorem WindowInv.advance {p : Pool} {ord : ℕ → ℕ} {z lo : ℕ} (h : WindowInv p ord z lo) (i : ℕ)
    (cl : Client) : WindowInv (p.advance i cl) ord z lo := by
  unfold Pool.advance
  cases hs : OMSbuff.select p.buffer cl.cons with
  | none => exact h
  | some s => exact h.consume hs

theorem WindowInv.register {p : Pool} {ord : ℕ → ℕ} {z lo : ℕ} (h : WindowInv p ord z lo)
    {r : OMSConsumer × OMSBuffer} (hr : OMSbuff.ref p.buffer = some r) :
    WindowInv (p.register r.1 r.2) ord z lo := by
  by_cases hz : z = p.buffer.control.nslots
  · -- nothing was written yet, so there is no window to count in
    refine h.same (bare_ref hr) rfl (fun _ hm => hm) ?_
    intro hidle
    obtain ⟨v, hv, hpos, -, hempty⟩ := h.ring.valid
    have hseq : (p.buffer.slots p.buffer.control.validReadPos).slotSeq = 0 := by
      have hfresh := (h.ring.fresh v (by rw [hz]; exact hv)).1
      rw [← hpos] at hfresh
      exact hfresh
    unfold OMSbuff.ref at hr
    dsimp only at hr
    rw [if_neg fun hne => hne hseq] at hr
    cases hr
    exact hidle
  · have hn := bare_nslots (bare_ref hr)
    have hl := bare_lastSeq (bare_ref hr)
    refine ⟨?_, fun he => absurd (he.trans hn) hz, h.held, h.logged.trans hl.symm, ?_⟩
    · rw [show (p.register r.1 r.2).buffer.bare = p.buffer.bare from bare_ref hr]
      exact h.ring
    · intro hne
      rw [show (p.register r.1 r.2).buffer.lastSeq = p.buffer.lastSeq from hl]
      exact h.newest hne

/-! ### The producer -/

theorem WindowInv.page {p : Pool} {ord : ℕ → ℕ} {z lo : ℕ} (h : WindowInv p ord z lo)
    (hrefs : 0 < (p.buffer.slots (ord 0)).refs) :
    ∃ b' ord' z', OMSbuff.addpage true p.buffer p.buffer.control.writePos =
        some (b', p.buffer.control.nslots) ∧
      WindowInv { p with slot := some p.buffer.control.nslots, buffer := b' } ord' z' lo := by
  have hpos := h.ring.ring.pos
  have hz : z < p.buffer.control.nslots := by
    have := h.ring.fresh_le
    by_contra hge
    have := h.idle (Nat.le_antisymm this (Nat.le_of_not_lt hge)) (ord 0)
    omega
  have hw : p.buffer.control.writePos < p.buffer.control.nslots := by
    have := h.ring.bound (p.buffer.control.nslots - 1) (Nat.sub_lt hpos Nat.one_pos)
    rw [show p.buffer.control.writePos = ord (p.buffer.control.nslots - 1) from h.ring.written]
    exact this
  obtain ⟨b', hb', hp⟩ := addpage_spec hw
  have hbare : PageAdded p.buffer.bare b'.bare := by
    refine ⟨?_, ?_, ?_⟩
    · change { b'.control with refs := 0 } = _
      rw [hp.control]
      rfl
    · intro j hj
      change { b'.slots j with refs := 0 } = _
      rw [hp.old j hj]
      rfl
    · intro j hj hjn
      exact ⟨rfl, (hp.new j hj hjn).2.1, (hp.new j hj hjn).2.2⟩
  have hl : b'.lastSeq = p.buffer.lastSeq := hp.lastSeq hw
  have hn : b'.control.nslots = p.buffer.control.nslots + memPage := by rw [hp.control]
  refine ⟨b', _, _, hb', hbare.ring h.ring hz, ?_, ?_, h.logged.trans hl.symm, ?_⟩
  · intro he
    change z + memPage = b'.control.nslots at he
    omega
  · intro s hs
    cases hs
    rfl
  · intro hne
    change _ = some b'.lastSeq
    rw [hl]
    exact h.newest hne

theorem WindowInv.moved {p : Pool} {ord : ℕ → ℕ} {z lo v : ℕ} (h : WindowInv p ord z lo)
    (hv : v < p.buffer.control.nslots) (hz : z < p.buffer.control.nslots → z ≤ v)
    (hempty : z = p.buffer.control.nslots → v = 0) {slot : Option ℕ}
    (hslot : ∀ s ∈ slot, s = ord 0) :
    WindowInv { p with
      slot := slot
      buffer := { p.buffer with control := { p.buffer.control with validReadPos := ord v } } }
      ord z lo := by
  refine ⟨?_, h.idle, hslot, h.logged, h.newest⟩
  refine h.ring.congr ⟨rfl, rfl, fun _ => rfl, fun _ => rfl⟩ (fun _ _ => rfl) ?_
    (fun _ _ => Nat.succ_pos _) (Nat.succ_pos _)
  exact ⟨v, hv, rfl, hz, hempty⟩

theorem pushNewer_bare (b : OMSBuffer) (fuel ts v : ℕ) :
    OMSbuff.pushNewer b.bare fuel ts v = OMSbuff.pushNewer b fuel ts v := by
  induction fuel generalizing ts v with
  | zero => rfl
  | succ fuel ih =>
    unfold OMSbuff.pushNewer
    rw [ih]
    rfl

theorem WindowInv.getslot {p : Pool} {ord : ℕ → ℕ} {z lo : ℕ} (h : WindowInv p ord z lo)
    (mem : Bool) :
    ∃ ord' z', WindowInv { p with
      slot := (OMSbuff.getslot mem p.buffer).1, buffer := (OMSbuff.getslot mem p.buffer).2 }
      ord' z' lo ∧ (mem = true → (OMSbuff.getslot mem p.buffer).1 ≠ none) := by
  have hpos := h.ring.ring.pos
  have hnext : (p.buffer.slots p.buffer.control.writePos).next = ord 0 := h.ring.next_write
  unfold OMSbuff.getslot
  dsimp only
  rw [hnext]
  by_cases hrefs : 0 < (p.buffer.slots (ord 0)).refs
  · rw [if_pos hrefs]
    obtain ⟨b', ord', z', hb', hi⟩ := h.page hrefs
    cases mem with
    | false =>
      refine ⟨ord, z, ?_, fun hf => (by cases hf)⟩
      exact h.same rfl rfl (fun s hs => (by cases hs)) id
    | true =>
      rw [hb']
      exact ⟨ord', z', hi, fun _ hnone => (by cases hnone)⟩
  rw [if_neg hrefs]
  obtain ⟨v, hv, hvalid, hz, hempty⟩ := h.ring.valid
  change p.buffer.control.validReadPos = ord v at hvalid
  change v < p.buffer.control.nslots at hv
  by_cases hpush : (p.buffer.slots p.buffer.control.validReadPos).slotSeq ≠ 0 ∧
      p.buffer.control.validReadPos = ord 0
  · rw [if_pos hpush]
    have hseq : (p.buffer.bare.slots (ord 0)).slotSeq ≠ 0 := by
      rw [← hpush.2]
      exact hpush.1
    obtain rfl : z = 0 := by
      have := (h.ring.committed_at hpos hseq).1
      omega
    obtain ⟨j, -, hj, he, -⟩ := pushNewer_spec h.ring p.buffer.control.nslots
      (p.buffer.slots p.buffer.control.validReadPos).timestamp hpos
    rw [pushNewer_bare, ← hpush.2] at he
    rw [he]
    refine ⟨ord, 0, h.moved hj (fun _ => Nat.zero_le j) (fun h0 => ?_) ?_, fun _ hnone => (by cases hnone)⟩
    · have hn : 0 < p.buffer.control.nslots := hpos
      omega
    · intro s hs
      cases hs
      rfl
  · rw [if_neg hpush]
    refine ⟨ord, z, ?_, fun _ hnone => (by cases hnone)⟩
    have hsame := @WindowInv.moved p ord z lo v h hv hz hempty (some (ord 0))
      (fun s hs => (by cases hs; rfl))
    rw [← hvalid] at hsame
    exact hsame

theorem commitSlot_bare (b : OMSBuffer) (s timestamp marker dataSize : ℕ) :
    (OMSbuff.commitSlot b s 0 timestamp marker dataSize).bare =
      OMSbuff.commitSlot b.bare s 0 timestamp marker dataSize := by
  unfold OMSbuff.commitSlot OMSBuffer.bare
  congr 1
  funext j
  dsimp only
  rw [OMSBuffer.upd_slots, OMSBuffer.upd_slots]
  split <;> rfl

/-- The slot obtained is the one that `OMSbuff_write` finds behind `write_pos`. -/
theorem WindowInv.write_held {p : Pool} {ord : ℕ → ℕ} {z lo : ℕ} (h : WindowInv p ord z lo) {s : ℕ}
    (hs : p.slot = some s) (timestamp marker dataSize : ℕ) :
    OMSbuff.write true p.buffer 0 timestamp marker (.slot s) dataSize =
      .done (OMSbuff.commitSlot p.buffer s 0 timestamp marker dataSize) := by
  have hnext : (p.buffer.slots p.buffer.control.writePos).next = ord 0 := h.ring.next_write
  rw [← h.held s hs] at hnext
  unfold OMSbuff.write
  dsimp only
  rw [if_pos (by rw [hnext]), hnext]

theorem WindowInv.commit {p : Pool} {ord : ℕ → ℕ} {z lo : ℕ} (h : WindowInv p ord z lo) {s : ℕ}
    (hs : p.slot = some s) (hlt : p.log.length + 1 < 2 ^ 64) (timestamp marker : ℕ) :
    ∃ b', OMSbuff.write true p.buffer 0 timestamp marker (.slot s) (p.buffer.slots s).dataSize =
        .done b' ∧ ∃ ord' z' lo', WindowInv (p.committed b') ord' z' lo' := by
  have hheld := h.write_held hs timestamp marker (p.buffer.slots s).dataSize
  obtain rfl := h.held s hs
  have hlt' : p.buffer.lastSeq + 1 < 2 ^ 64 := by
    rw [← h.logged]
    exact hlt
  have hring := h.ring.commit timestamp marker (p.buffer.slots (ord 0)).dataSize hlt'
  rw [← commitSlot_bare] at hring
  have hlast := commitSlot_lastSeq (s := ord 0) timestamp marker (p.buffer.slots (ord 0)).dataSize hlt'
  refine ⟨OMSbuff.commitSlot p.buffer (ord 0) 0 timestamp marker (p.buffer.slots (ord 0)).dataSize,
    hheld, _, _, _, hring, ?_, ?_, ?_, ?_⟩
  · intro he
    have hpos := h.ring.ring.pos
    have hle := h.ring.fresh_le
    change z - 1 = p.buffer.control.nslots at he
    change z ≤ p.buffer.control.nslots at hle
    change 0 < p.buffer.control.nslots at hpos
    omega
  · intro s hs
    cases hs
  · change (p.log ++ [_]).length = _
    rw [List.length_append, h.logged]
    exact hlast.symm
  · intro _
    change (p.log ++ [_]).getLast?.map Packet.slotSeq = _
    rw [List.getLast?_append, List.getLast?_singleton, Option.some_or, Option.map_some]
    rfl

theorem WindowInv.fill {p : Pool} {ord : ℕ → ℕ} {z lo : ℕ} (h : WindowInv p ord z lo) (s : ℕ)
    (data : List UInt8) (dataSize : ℕ) :
    WindowInv { p with
      buffer := p.buffer.upd s fun x => { x with data := data, dataSize := dataSize } } ord z lo := by
  have hslot : ∀ j, ((p.buffer.upd s fun x => { x with data := data, dataSize := dataSize }).slots j).slotSeq =
      (p.buffer.slots j).slotSeq ∧
      ((p.buffer.upd s fun x => { x with data := data, dataSize := dataSize }).slots j).next =
        (p.buffer.slots j).next ∧
      ((p.buffer.upd s fun x => { x with data := data, dataSize := dataSize }).slots j).refs =
        (p.buffer.slots j).refs := by
    intro j
    rw [OMSBuffer.upd_slots]
    split <;> exact ⟨rfl, rfl, rfl⟩
  have hlast : (p.buffer.upd s fun x => { x with data := data, dataSize := dataSize }).lastSeq =
      p.buffer.lastSeq := (hslot _).1
  refine ⟨?_, ?_, h.held, h.logged.trans hlast.symm, ?_⟩
  · refine h.ring.congr ⟨rfl, rfl, fun j => (hslot j).1, fun j => (hslot j).2.1⟩ (fun _ _ => rfl)
      h.ring.valid (fun _ _ => Nat.succ_pos _) (Nat.succ_pos _)
  · intro hz j
    rw [(hslot j).2.2]
    exact h.idle hz j
  · intro hne
    rw [show Pool.buffer _ = _ from rfl, hlast]
    exact h.newest hne

/-! ### Runs -/

def SomeWindow (p : Pool) : Prop := ∃ ord z lo, WindowInv p ord z lo

theorem SomeWindow.init {n : ℕ} {b : OMSBuffer} (hb : OMSbuff.new n = some b) :
    SomeWindow (Pool.init b) := by
  obtain ⟨ord, z, lo, hi⟩ := PoolInv.init hb
  have hlast : b.lastSeq = 0 := by
    unfold OMSbuff.new at hb
    split at hb
    · cases hb
    · cases hb
      rfl
  refine ⟨ord, z, lo, ?_, ?_, ?_, hlast.symm, fun hne => absurd rfl hne⟩
  · refine hi.ring.congr ⟨rfl, rfl, fun _ => rfl, fun _ => rfl⟩ (fun _ _ => rfl) hi.ring.valid
      (fun _ _ => Nat.succ_pos _) (Nat.succ_pos _)
  · intro _ i
    unfold OMSbuff.new at hb
    split at hb
    · cases hb
    · cases hb
      rfl
  · intro s hs
    cases hs

theorem SomeWindow.clients {p : Pool} (h : SomeWindow p) (clients : List Client) :
    SomeWindow { p with clients := clients } := by
  obtain ⟨ord, z, lo, hi⟩ := h
  exact ⟨ord, z, lo, hi.same rfl rfl (fun _ hm => hm) id⟩

/-- Every step but a write of other data keeps the window; what it adds to the log is
a commit. -/
theorem SomeWindow.step {p p' : Pool} {a : Act} (h : SomeWindow p) (ha : a.InPlace)
    (hlt : a.isCommit = true → p.log.length + 1 < 2 ^ 64) (hs : Pool.step p a = some p') :
    SomeWindow p' ∧ p'.log.length = p.log.length + if a.isCommit = true then 1 else 0 := by
  obtain ⟨ord, z, lo, hi⟩ := h
  cases a with
  | getslot mem =>
    cases hs
    obtain ⟨ord', z', hi', -⟩ := hi.getslot mem
    exact ⟨⟨ord', z', lo, hi'⟩, rfl⟩
  | fill data dataSize =>
    obtain ⟨s, -, rfl⟩ := Option.map_eq_some_iff.mp hs
    exact ⟨⟨ord, z, lo, hi.fill s data dataSize⟩, rfl⟩
  | commit timestamp marker =>
    obtain ⟨s, hslot, hs⟩ := Option.bind_eq_some_iff.mp hs
    obtain ⟨b', hb', ord', z', lo', hi'⟩ := hi.commit hslot (hlt rfl) timestamp marker
    rw [hb'] at hs
    cases hs
    refine ⟨⟨ord', z', lo', hi'⟩, ?_⟩
    change (p.log ++ [_]).length = _
    rw [List.length_append]
    rfl
  | write => exact ha.elim
  | ref =>
    obtain ⟨r, hr, rfl⟩ := Option.map_eq_some_iff.mp hs
    exact ⟨⟨ord, z, lo, hi.register hr⟩, rfl⟩
  | getreader i =>
    obtain ⟨cl, -, -, he⟩ := Pool.of_reading hs
    cases he
    exact ⟨SomeWindow.clients ⟨ord, z, lo, hi⟩ _, rfl⟩
  | gotreader i | read i dataSize =>
    obtain ⟨cl, -, -, he⟩ := Pool.of_reading hs
    cases he
    refine ⟨⟨ord, z, lo, hi.advance i cl⟩, ?_⟩
    unfold Pool.advance
    split <;> rfl
  | unref i =>
    obtain ⟨cl, -, -, he⟩ := Pool.of_reading hs
    split at he
    · rename_i b hb
      cases he
      unfold OMSbuff.unrefCount at hb
      split at hb
      · cases hb
        exact ⟨⟨ord, z, lo, hi.same rfl rfl (fun _ hm => hm) id⟩, rfl⟩
      · cases hb
    · cases he
      exact ⟨SomeWindow.clients ⟨ord, z, lo, hi⟩ _, rfl⟩
  | drain i =>
    obtain ⟨cl, last, -, -, ⟨s, hsel, rfl⟩ | ⟨-, rfl⟩⟩ := Pool.of_leaving hs
    · exact ⟨⟨ord, z, lo, hi.consume hsel⟩, rfl⟩
    · exact ⟨SomeWindow.clients ⟨ord, z, lo, hi⟩ _, rfl⟩

theorem commits_cons (a : Act) (as : List Act) :
    commits (a :: as) = commits as + if a.isCommit = true then 1 else 0 := by
  unfold commits
  rw [List.countP_cons]

theorem SomeWindow.run {p p' : Pool} {as : List Act} (h : SomeWindow p) (ha : ∀ a ∈ as, a.InPlace)
    (hlt : p.log.length + commits as < 2 ^ 64) (hs : exec Pool.step p as = some p') :
    SomeWindow p' ∧ p'.log.length = p.log.length + commits as := by
  induction as generalizing p with
  | nil =>
    cases hs
    exact ⟨h, rfl⟩
  | cons a as ih =>
    obtain ⟨q, hq, hs⟩ := Option.bind_eq_some_iff.mp hs
    rw [commits_cons] at hlt ⊢
    have hcommit : a.isCommit = true → p.log.length + 1 < 2 ^ 64 := by
      intro hc
      rw [if_pos hc] at hlt
      omega
    obtain ⟨hw, hlen⟩ := h.step (ha a List.mem_cons_self) hcommit hq
    obtain ⟨hw', hlen'⟩ := ih hw (fun a hm => ha a (List.mem_cons_of_mem _ hm)) (by omega) hs
    exact ⟨hw', by omega⟩

/-! ### The window -/

theorem RingInv.windowSlot {b : OMSBuffer} {ord : ℕ → ℕ} {z lo v i : ℕ}
    (h : RingInv b.bare ord z lo) (hv : b.control.validReadPos = ord v)
    (hi : v + i < b.control.nslots) : b.windowSlot i = ord (v + i) := by
  unfold OMSBuffer.windowSlot
  rw [hv]
  exact h.ring.iterate hi

theorem RingInv.isWindow {b : OMSBuffer} {ord : ℕ → ℕ} {z lo v : ℕ}
    (h : RingInv b.bare ord z lo) (hv : b.control.validReadPos = ord v)
    (hlt : v < b.control.nslots) (hz : z ≤ v) : IsWindow b (b.control.nslots - 1 - v) := by
  have hwrite : b.control.writePos = ord (b.control.nslots - 1) := h.written
  have hlast : b.lastSeq = lo + (b.control.nslots - z) - 1 := h.lastSeq_eq
  have hlo := h.lo_pos
  refine ⟨?_, ?_, ?_⟩
  · rw [h.windowSlot hv (by omega), hwrite]
    congr 1
    omega
  · intro i hi
    rw [h.windowSlot hv (by omega), hwrite]
    exact h.ring.ne (by change _ < b.control.nslots; omega) (by change _ < b.control.nslots; omega)
      (by omega)
  · intro i hi
    have hseq : (b.slots (ord (v + i))).slotSeq = lo + (v + i - z) :=
      h.seqs (v + i) (by omega) (by change _ < b.control.nslots; omega)
    rw [h.windowSlot hv (by omega), hseq, hlast]
    constructor <;> omega

theorem RingInv.refsWindow {b : OMSBuffer} {ord : ℕ → ℕ} {z lo v : ℕ}
    (h : RingInv b.bare ord z lo) (hv : b.control.validReadPos = ord v)
    (hlt : v < b.control.nslots) (hz : z ≤ v) : RefsWindow b (b.control.nslots - 1 - v) := by
  have hwrite : b.control.writePos = ord (b.control.nslots - 1) := h.written
  have hseq : (b.slots b.control.validReadPos).slotSeq ≠ 0 := by
    have hs : (b.slots (ord v)).slotSeq = lo + (v - z) := h.seqs v hz hlt
    have hlo := h.lo_pos
    rw [hv, hs]
    omega
  obtain ⟨b', hb', -, hin, hout⟩ := refWindow_spec h.ring hlt
    (Nat.le_add_left b.control.nslots v) (fun _ => rfl : ∀ i, (b.slots i).next = _)
  refine ⟨⟨b.control.validReadPos, none, 0, 0, -1⟩,
    { b' with control := { b'.control with refs := incr16 b'.control.refs } }, ?_, rfl, ?_, ?_⟩
  · unfold OMSbuff.ref
    dsimp only
    rw [if_pos hseq, hwrite, hv]
    exact congrArg (Option.map _) hb'
  · intro i hi
    rw [h.windowSlot hv (by omega)]
    change (b'.slots (ord (v + i))).refs = _
    rw [hin (v + i) (Nat.le_add_right v i) (by change _ < b.control.nslots; omega)]
  · intro j _ hj
    change (b'.slots j).refs = _
    rw [hout j]
    intro k hk hkn
    change k < b.control.nslots at hkn
    have hne := hj (k - v) (by omega)
    rw [h.windowSlot hv (by omega), show v + (k - v) = k by omega] at hne
    exact hne

theorem SomeWindow.sound {p : Pool} (h : SomeWindow p) : WindowSound p := by
  obtain ⟨ord, z, lo, hi⟩ := h
  intro hne
  have hlog : p.log.length ≠ 0 := fun h0 => hne (List.length_eq_zero_iff.mp h0)
  have hlast : p.buffer.lastSeq = lo + (p.buffer.control.nslots - z) - 1 := hi.ring.lastSeq_eq
  have hz : z < p.buffer.control.nslots := by
    have hle : z ≤ p.buffer.control.nslots := hi.ring.fresh_le
    by_contra hge
    have he : z = p.buffer.control.nslots := Nat.le_antisymm hle (Nat.le_of_not_lt hge)
    have hlo := hi.ring.lo_one he
    have := hi.logged
    omega
  obtain ⟨v, hv, hpos, hzv, -⟩ := hi.ring.valid
  exact ⟨_, hi.ring.isWindow hpos hv (hzv hz), hi.ring.refsWindow hpos hv (hzv hz), hi.newest hne⟩

theorem window_sound {n : ℕ} {b : OMSBuffer} (hb : OMSbuff.new n = some b) {as : List Act}
    {p : Pool} (hp : exec Pool.step (Pool.init b) as = some p) (ha : ∀ a ∈ as, a.InPlace)
    (hlt : commits as < 2 ^ 64) : WindowSound p := by
  refine (SomeWindow.run (SomeWindow.init hb) ha ?_ hp).1.sound
  change 0 + commits as < 2 ^ 64
  omega

/-- The ring of two slots is full when the third slot is committed. -/
def fullRing : List Act :=
  [.getslot true, .commit 0 0, .getslot true, .commit 0 0, .getslot true, .commit 1 0, .ref,
    .getslot true]

theorem window_sound_full_ring : ∃ b p, OMSbuff.new 2 = some b ∧
    exec Pool.step (Pool.init b) fullRing = some p ∧ WindowSound p := by
  obtain ⟨b, hb⟩ : ∃ b, OMSbuff.new 2 = some b := ⟨_, rfl⟩
  have hrun : ∃ p, exec Pool.step (Pool.init b) fullRing = some p := by
    cases hb
    exact ⟨_, rfl⟩
  obtain ⟨p, hp⟩ := hrun
  exact ⟨b, p, hb, hp, window_sound hb hp (by decide) (by decide)⟩

theorem SomeWindow.obtains {p : Pool} (h : SomeWindow p) : ∃ q s,
    Pool.step p (.getslot true) = some q ∧ q.slot = some s ∧ q.log = p.log ∧ SomeWindow q := by
  obtain ⟨ord, z, lo, hi⟩ := h
  obtain ⟨ord', z', hg, hsome⟩ := hi.getslot true
  obtain ⟨s, hs⟩ := Option.ne_none_iff_exists'.mp (hsome rfl)
  exact ⟨_, s, rfl, hs, rfl, ord', z', lo, hg⟩

theorem SomeWindow.produces {p : Pool} (h : SomeWindow p) : ∃ q s,
    exec Pool.step p [.getslot true, .commit 0 0] =
      some (q.committed (OMSbuff.commitSlot q.buffer s 0 0 0 (q.buffer.slots s).dataSize)) ∧
      Pool.step q (.commit 0 0) =
        some (q.committed (OMSbuff.commitSlot q.buffer s 0 0 0 (q.buffer.slots s).dataSize)) ∧
      q.log = p.log ∧ SomeWindow q := by
  obtain ⟨q, s, hq, hs, hlog, hw⟩ := h.obtains
  obtain ⟨ord, z, lo, hi⟩ := hw
  have hcommit : Pool.step q (.commit 0 0) =
      some (q.committed (OMSbuff.commitSlot q.buffer s 0 0 0 (q.buffer.slots s).dataSize)) := by
    unfold Pool.step
    dsimp only
    rw [hs, Option.bind_some, hi.write_held hs]
  refine ⟨q, s, ?_, hcommit, hlog, ord, z, lo, hi⟩
  rw [exec_cons, hq, Option.bind_some, exec_cons, hcommit]
  rfl

/-- Every number of slots below the range of `slot_seq` can be committed. -/
theorem SomeWindow.reaches {n : ℕ} {b : OMSBuffer} (hb : OMSbuff.new n = some b) {k : ℕ}
    (hk : k < 2 ^ 64) : ∃ as p, exec Pool.step (Pool.init b) as = some p ∧
      (∀ a ∈ as, a.InPlace) ∧ SomeWindow p ∧ p.log.length = k := by
  induction k with
  | zero => exact ⟨[], Pool.init b, rfl, (by intro a ha; cases ha), SomeWindow.init hb, rfl⟩
  | succ k ih =>
    obtain ⟨as, p, hp, ha, hw, hlen⟩ := ih (Nat.lt_of_succ_lt hk)
    obtain ⟨q, s, hexec, hstep, hlog, hq⟩ := hw.produces
    obtain ⟨hw', hlen'⟩ := @SomeWindow.step q _ (.commit 0 0) hq trivial
      (fun _ => (by rw [hlog, hlen]; exact hk)) hstep
    refine ⟨as ++ [.getslot true, .commit 0 0], _, exec_append hp hexec, ?_, hw', ?_⟩
    · intro a hm
      rcases List.mem_append.mp hm with hm | hm
      · exact ha a hm
      · rcases List.mem_pair.mp hm with rfl | rfl <;> exact trivial
    · rw [hlen', hlog, hlen]
      rfl

/-- The commit that uses up the numbers of `slot_seq` leaves a slot numbered 0. -/
theorem commitSlot_wraps {b : OMSBuffer} (s timestamp marker dataSize : ℕ)
    (h : b.lastSeq = 2 ^ 64 - 1) :
    (OMSbuff.commitSlot b s 0 timestamp marker dataSize).lastSeq = 0 := by
  unfold OMSBuffer.lastSeq OMSbuff.commitSlot
  dsimp only
  rw [OMSBuffer.upd_slots_self]
  dsimp only
  rw [if_neg (fun hne => hne rfl)]
  change (b.lastSeq + 1) % 2 ^ 64 = 0
  omega

theorem window_broken_by_wrap : ¬ ∀ n b as p, OMSbuff.new n = some b →
    exec Pool.step (Pool.init b) as = some p → (∀ a ∈ as, a.InPlace) → WindowSound p := by
  intro h
  obtain ⟨b, hb⟩ : ∃ b, OMSbuff.new 2 = some b := ⟨_, rfl⟩
  obtain ⟨as, p, hp, ha, hw, hlen⟩ := @SomeWindow.reaches 2 b hb (2 ^ 64 - 1) (by omega)
  obtain ⟨q, s, hexec, hstep, hlog, hq⟩ := hw.produces
  have hlast : q.buffer.lastSeq = 2 ^ 64 - 1 := by
    obtain ⟨ord, z, lo, hi⟩ := hq
    rw [← hi.logged, hlog, hlen]
  have hzero := commitSlot_wraps s 0 0 (q.buffer.slots s).dataSize hlast
  have hplace : ∀ a ∈ as ++ [.getslot true, .commit 0 0], a.InPlace := by
    intro a hm
    rcases List.mem_append.mp hm with hm | hm
    · exact ha a hm
    · rcases List.mem_pair.mp hm with rfl | rfl <;> exact trivial
  obtain ⟨k, hk, -, -⟩ := h 2 b _ _ hb (exec_append hp hexec) hplace (List.concat_ne_nil _ _)
  refine (hk.seqs k le_rfl).1 ?_
  rw [hk.ends]
  exact hzero

end Fenice.BufferPool
