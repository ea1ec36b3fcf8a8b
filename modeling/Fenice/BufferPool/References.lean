import Fenice.BufferPool.Producer

/-!
# Reference accounting

In every state a guarded run reaches, the `refs` of a committed slot is the
number of consumers that still have to consume it.
-/

namespace Fenice.BufferPool
open Fenice.Run Fenice.Ring

/-! ### Runs keep the invariant -/

theorem PoolInv.init {n : ℕ} {b : OMSBuffer} (hb : OMSbuff.new n = some b) :
    PoolInv n (Pool.init b) := by
  unfold OMSbuff.new at hb
  split at hb
  · cases hb
  · rename_i hn
    cases hb
    refine ⟨id, n, 1, ?_, le_rfl, ?_, rfl, ?_, ?_⟩
    · refine ⟨?_, ?_, rfl, le_rfl, Nat.one_pos, fun _ => rfl, ?_, ?_, ?_, ?_, ?_⟩
      · refine ⟨by simp only [Pool.init]; omega, fun i _ j _ he => he, ?_, ?_⟩
        · intro i hi
          exact if_pos hi
        · exact if_neg (by simp only [Pool.init, id]; omega)
      · exact fun i hi => hi
      · exact fun i _ => ⟨rfl, rfl⟩
      · intro i hz hi
        change i < n at hi
        omega
      · refine ⟨0, by simp only [Pool.init]; omega, rfl, fun h => ?_, fun _ => rfl⟩
        exact absurd h (lt_irrefl n)
      · intro i _
        change 0 < 65536
        omega
      · change 0 < 65536
        omega
    · intro i hz hi
      change i < n at hi
      omega
    · intro cl hm
      cases hm
    · intro s hs
      cases hs

theorem write_errAlloc {b b' : OMSBuffer} {mem : Bool} {seq timestamp marker dataSize : ℕ}
    {data : OMSbuff.Data}
    (h : OMSbuff.write mem b seq timestamp marker data dataSize = .errAlloc b') : b' = b := by
  unfold OMSbuff.write at h
  simp only at h
  split at h
  · cases h
  · split at h
    · split at h
      · cases h
        rfl
      · cases h
    · split at h
      · split at h <;> cases h
      · cases h

theorem Inv.drop_slot {n₀ : ℕ} {p : Pool} {ord : ℕ → ℕ} {z lo : ℕ} (h : Inv n₀ p ord z lo) :
    Inv n₀ { p with slot := none } ord z lo :=
  ⟨h.ring, h.size, h.counts, h.readers, h.client, fun _ hs => by cases hs⟩

/-- The slot the producer holds is the one behind `write_pos`, so its data is
committed in place. -/
theorem Inv.write_held {n₀ : ℕ} {p : Pool} {ord : ℕ → ℕ} {z lo s : ℕ}
    (h : Inv n₀ p ord z lo) (hs : p.slot = some s) (mem : Bool) (timestamp marker dataSize : ℕ) :
    OMSbuff.write mem p.buffer 0 timestamp marker (.slot s) dataSize =
      .done (OMSbuff.commitSlot p.buffer s 0 timestamp marker dataSize) := by
  unfold OMSbuff.write
  simp only [h.ring.next_write, (h.held s hs).eq, if_true]

theorem PoolInv.step {n₀ : ℕ} {p p' : Pool} {a : Act} (h : PoolInv n₀ p) (hg : Guard p a)
    (hs : p.step a = some p') : PoolInv n₀ p' := by
  obtain ⟨ord, z, lo, h⟩ := h
  cases a with
  | getslot mem =>
    cases hs
    rcases h.getslot mem with ⟨he, -⟩ | ⟨s, b', ord', z', he, -, h'⟩
    · rw [he]
      exact ⟨ord, z, lo, h.drop_slot⟩
    · rw [he]
      exact ⟨ord', z', lo, h'⟩
  | fill data dataSize =>
    obtain ⟨s, hslot, rfl⟩ := Option.map_eq_some_iff.mp hs
    exact ⟨ord, z, lo, h.contents s _ fun _ => ⟨rfl, rfl, rfl⟩⟩
  | commit timestamp marker =>
    obtain ⟨s, hslot, hw⟩ := Option.bind_eq_some_iff.mp hs
    rw [h.write_held hslot] at hw
    cases hw
    exact ⟨_, _, _, Inv.commit timestamp marker _ h hslot hg⟩
  | write mem timestamp marker bytes dataSize =>
    simp only [Pool.step] at hs
    split at hs
    · rename_i b' hw
      cases hs
      obtain ⟨s, b₁, ord', z', rfl, -, hlast, h'⟩ := h.write_taken hw
      exact ⟨_, _, _, h'.copyCommit (hlast.symm ▸ hg) ..⟩
    · rename_i b' hw
      cases hs
      rw [write_errAlloc hw]
      exact ⟨ord, z, lo, h⟩
    · cases hs
  | ref =>
    obtain ⟨r, hr, h'⟩ := h.ref hg.1 hg.2
    simp only [Pool.step, hr, Option.map_some, Option.some.injEq] at hs
    exact ⟨ord, z, lo, hs ▸ h'⟩
  | getreader i =>
    obtain ⟨cl, hi, hst, he⟩ := Pool.of_reading hs
    cases he
    exact ⟨ord, z, lo, h.getreader hi hst⟩
  | gotreader i | read i dataSize =>
    obtain ⟨cl, hi, hst, he⟩ := Pool.of_reading hs
    cases he
    exact ⟨ord, z, lo, h.advance hi hst (hg cl hi)⟩
  | unref i =>
    obtain ⟨cl, hi, hst, he⟩ := Pool.of_reading hs
    simp only [OMSbuff.unrefCount, if_pos (h.readers_pos hi hst)] at he
    cases he
    exact ⟨ord, z, lo, h.unref hi hst⟩
  | drain i =>
    obtain ⟨cl, last, hi, hst, hend⟩ := Pool.of_leaving hs
    have hsafe := hg cl hi
    have hne : cl.status ≠ .gone := by simp [hst]
    have hm := List.mem_of_getElem? hi
    rcases hend with ⟨s, hsel, rfl⟩ | ⟨hsel, rfl⟩
    · obtain ⟨hown, k, hz, hk, rfl, hseq⟩ :=
        h.select_next hm hne hsafe.1 hsel (h.drain_covers hm hne hsafe hsel)
      exact ⟨ord, z, lo, h.consume hi hne hown hz hk hseq⟩
    · exact ⟨ord, z, lo, h.leave hi hst hsafe.1 hsel⟩

theorem PoolInv.run {n : ℕ} {b : OMSBuffer} (hb : OMSbuff.new n = some b) {as : List Act}
    {p : Pool} (h : GuardedRun Pool.step Guard (Pool.init b) as p) : PoolInv n p :=
  h.invariant (fun _ _ _ hi hg hs => hi.step hg hs) (PoolInv.init hb)

/-! ### The accounting -/

/-- The step of client `i` that takes a slot next, while it reads and while it leaves. -/
inductive Taking (p : Pool) (i : ℕ) (cl : Client) : Act → Prop
  | gotreader (h : cl.status = .reading) : Taking p i cl (.gotreader i)
  | read (h : cl.status = .reading) (dataSize : ℕ) : Taking p i cl (.read i dataSize)
  | drain {last : ℕ} (h : cl.status = .leaving last) : Taking p i cl (.drain i)

/-- The count of every committed slot is the number of consumers that still
have to consume it, and a step that takes a slot takes one the consumer is
counted in. A consumer that has left counts nowhere. -/
structure RefsExact (p : Pool) : Prop where
  counted : ∀ s < p.buffer.control.nslots, (p.buffer.slots s).slotSeq ≠ 0 →
    (p.buffer.slots s).refs = p.clients.countP fun cl => cl.owes (p.buffer.slots s).slotSeq
  own : ∀ i cl a s, p.clients[i]? = some cl → Taking p i cl a → Guard p a →
    OMSbuff.select p.buffer cl.cons = some s →
    s < p.buffer.control.nslots ∧ (p.buffer.slots s).slotSeq ≠ 0 ∧
      0 < (p.buffer.slots s).refs ∧ cl.owes (p.buffer.slots s).slotSeq = true
  departed : ∀ cl ∈ p.clients, cl.status = .gone → ∀ q, cl.owes q = false

theorem Inv.refsExact {n₀ : ℕ} {p : Pool} {ord : ℕ → ℕ} {z lo : ℕ} (h : Inv n₀ p ord z lo) :
    RefsExact p := by
  refine ⟨?_, ?_, ?_⟩
  · intro s hs hseq
    obtain ⟨i, hi, rfl⟩ := h.ring.index_of_lt hs
    obtain ⟨hz, hq⟩ := h.ring.committed_at hi hseq
    rw [h.counts i hz hi, hq]
  · intro i cl a s hi ht hg hsel
    have hm := List.mem_of_getElem? hi
    have hnext : cl.owing lo ∧ ∃ k, z ≤ k ∧ k < p.buffer.control.nslots ∧ s = ord k ∧
        (p.buffer.slots (ord k)).slotSeq = max cl.cursor lo := by
      cases ht with
      | gotreader hst | read hst =>
        exact h.select_next hm (by simp [hst]) (hg cl hi) hsel (by rw [hst]; rfl)
      | drain hst =>
        have hne : cl.status ≠ .gone := by simp [hst]
        exact h.select_next hm hne (hg cl hi).1 hsel (h.drain_covers hm hne (hg cl hi) hsel)
    obtain ⟨hown, k, hz, hk, rfl, hseq⟩ := hnext
    have hlo := h.ring.lo_pos
    have howes := owes_of_owing hown hseq
    have hq := h.ring.seqs k hz hk
    exact ⟨h.ring.bound k hk, by omega, h.counted hm hz hk (hq ▸ howes), howes⟩
  · intro cl _ hst q
    simp [Client.owes, hst, Status.covers]

theorem refs_exact {n : ℕ} {b : OMSBuffer} (hb : OMSbuff.new n = some b) {as : List Act}
    {p : Pool} (h : GuardedRun Pool.step Guard (Pool.init b) as p) : RefsExact p := by
  obtain ⟨ord, z, lo, hi⟩ := PoolInv.run hb h
  exact hi.refsExact

/-- One consumer reads two slots and leaves while another one falls behind. -/
def twoReaders : List Act :=
  [.ref, .ref, .getslot true, .commit 0 0, .gotreader 0, .getslot true, .commit 1 0, .unref 0,
    .drain 0, .drain 0]

theorem refs_exact_two_readers : ∃ b p, OMSbuff.new 5 = some b ∧
    exec Pool.step (Pool.init b) twoReaders = some p ∧
    p.clients.map Client.status = [.gone, .reading] ∧ RefsExact p := by
  refine ⟨_, _, rfl, rfl, rfl, ?_⟩
  apply refs_exact (n := 5) rfl
  apply GuardedRun.of_allowed
  case he => exact (rfl : exec Pool.step _ twoReaders = _)
  case h => decide

/-- A slot committed after `OMSbuff_unref` has lowered the count is counted for
the other consumer only, and the loop of `OMSbuff_unref` takes that reference. -/
theorem unref_takes_foreign_reference :
    ¬ ∀ n b as p, OMSbuff.new n = some b → exec Pool.step (Pool.init b) as = some p →
      RefsExact p := by
  intro h
  have hex := h 5 _ [.ref, .ref, .unref 0, .getslot true, .commit 0 0, .drain 0] _ rfl rfl
  exact absurd (hex.counted 0 (by decide) (by decide)) (by decide)

end Fenice.BufferPool
