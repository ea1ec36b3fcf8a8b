import Fenice.BufferPool.Shared
import Fenice.BufferPool.TwoWrites
import Fenice.Mediainfo.GetFrame

/-!
# A pool that cannot grow

What `OMSbuff_getslot`, `OMSbuff_write` and `get_frame` do when the memory for a page of
slots, or a mapping of the slots another process has added, is not to be had.
-/

namespace Fenice.Mediainfo
open Fenice.BufferPool

/-- The packet buffer of a media, local or shared, with the outcomes of the calls that need
memory. -/
def growOps (o : Outcomes) : SlotOps MappedBuffer where
  getslot b := b.getslot o
  store b i data := { b with
    pool := b.pool.upd i fun s =>
      { s with data := data ++ s.data.drop data.length, dataSize := data.length } }
  dataSize b i := (b.pool.slots i).dataSize
  commit b i mtime marker :=
    match b.write o ⟨0, mtime, marker, .slot i, (b.pool.slots i).dataSize⟩ with
    | .returned _ b' => b'
    | _ => b

variable {σ : Type}

/-- `OMSbuff_getslot` obtains a slot, or returns NULL with nothing changed and the mutex
released. -/
def GetslotHarmless (o : Outcomes) (b : MappedBuffer) : Prop :=
  ∃ r b', b.getslot o = some (r, b') ∧ (r = none → b'.pool = b.pool ∧ b'.locked = false)

/-- Without a slot `get_frame` returns an error and has written to none. -/
def FrameHarmless (o : Outcomes) (b : MappedBuffer)
    (read_media : σ → Option (MediaRead σ)) (x : σ) : Prop :=
  ∀ b₁, b.getslot o = some (none, b₁) → ∃ res b' x', res ≠ errNoerror ∧ b'.pool = b.pool ∧
    ∀ fuel, get_frame (growOps o) read_media (fuel + 1) b x = some (.returned res b' x' 0)

structure Harmless (o : Outcomes) (b : MappedBuffer) (w : MappedBuffer.WriteArgs)
    (read_media : σ → Option (MediaRead σ)) (x : σ) : Prop where
  getslot : GetslotHarmless o b
  write : (b.write o w).Harmless b
  get_frame : FrameHarmless o b read_media x

/-- The reader of the media fails without a look at the slot it is given. -/
def FailsUnseen (read_media : σ → Option (MediaRead σ)) (x : σ) : Prop :=
  ∃ r, read_media x = some r ∧ r.stored = none ∧ r.res ≠ errNoerror

/-- Slots that another process has added can be mapped where the old ones were, and
`write_pos` is not among them; a page that is needed can be added, or is needed by a local
buffer whose media then fails too. -/
def Fine (o : Outcomes) (b : MappedBuffer) (read_media : σ → Option (MediaRead σ))
    (x : σ) : Prop :=
  (b.Stale → (b.Remaps o.remap ∧ o.moved = false) ∧ b.pool.control.writePos < b.knownSlots) ∧
    (b.Full → b.Grows o ∨ b.type = .buffLocal ∧ FailsUnseen read_media x)

section

variable {o : Outcomes} {b : MappedBuffer} {w : MappedBuffer.WriteArgs}
  {read_media : σ → Option (MediaRead σ)} {x : σ}

theorem get_frame_null {b₁ : MappedBuffer} (hslot : b.getslot o = some (none, b₁)) (fuel : ℕ) :
    get_frame (growOps o) read_media (fuel + 1) b x =
      match read_media x with
      | none => some .crashed
      | some r =>
        if r.stored.isSome ∨ r.res = errNoerror then some .crashed
        else some (.returned r.res b₁ r.state 0) := by
  have hops : (growOps o).getslot b = some (none, b₁) := hslot
  rw [get_frame, hops]
  cases read_media x <;> rfl

theorem frameHarmless_of_fails {b₁ : MappedBuffer} (hslot : b.getslot o = some (none, b₁))
    (hpool : b₁.pool = b.pool) (h : FailsUnseen read_media x) :
    FrameHarmless o b read_media x := by
  obtain ⟨r, hr, hst, hres⟩ := h
  intro b₂ h₂
  obtain rfl : b₁ = b₂ := congrArg Prod.snd (Option.some.inj (hslot.symm.trans h₂))
  refine ⟨r.res, b₁, r.state, hres, hpool, fun fuel => ?_⟩
  rw [get_frame_null hslot, hr]
  exact if_neg (by simp [hst, hres])

/-- A reader that looks at the slot, or claims success, is the end of the process. -/
theorem fails_of_frameHarmless {b₁ : MappedBuffer} (hslot : b.getslot o = some (none, b₁))
    (h : FrameHarmless o b read_media x) : FailsUnseen read_media x := by
  obtain ⟨res, b', x', hres, -, hframe⟩ := h b₁ hslot
  have hzero := hframe 0
  rw [get_frame_null hslot] at hzero
  cases hr : read_media x with
  | none =>
    rw [hr] at hzero
    cases hzero
  | some r =>
    rw [hr] at hzero
    dsimp only at hzero
    split at hzero
    · cases hzero
    · rename_i hcase
      refine ⟨r, hr, ?_, fun he => hcase (Or.inr he)⟩
      by_contra hst
      exact hcase (Or.inl (Option.isSome_iff_ne_none.mpr hst))

theorem GetslotHarmless.ready (h : GetslotHarmless o b) : b.Ready o := by
  obtain ⟨r, b', hslot, hnone⟩ := h
  by_contra hready
  rcases MappedBuffer.getslot_stale hready with hg | ⟨b₁, hg, hlocked⟩
  · rw [hg] at hslot
    cases hslot
  · rw [hg] at hslot
    cases hslot
    rw [(hnone rfl).2] at hlocked
    cases hlocked

/-- Only a local buffer is unharmed when it cannot grow. -/
theorem GetslotHarmless.isLocal (hb : b.WellFormed) (h : GetslotHarmless o b) (hfull : b.Full)
    (hg : ¬ b.Grows o) : b.type = .buffLocal := by
  have hready := h.ready
  obtain ⟨r, b', hslot, hnone⟩ := h
  cases ht : b.type with
  | buffLocal => rfl
  | buffShm =>
    exfalso
    rcases MappedBuffer.getslot_shm_fails hb.mapped ht hready hfull hg with hn | ⟨b₁, hn, hnull⟩
    · rw [hn] at hslot
      cases hslot
    · rw [hn] at hslot
      cases hslot
      have hlink := hb.links _ hb.written
      have hsmall := hb.small
      rw [(hnone rfl).1] at hnull
      rw [hnull] at hlink
      unfold nullPos at hlink
      omega

theorem write_known (h : (b.write o w).Harmless b) :
    b.pool.control.writePos < b.knownSlots := by
  by_contra hlt
  unfold MappedBuffer.write at h
  rw [if_pos (Nat.le_of_not_lt hlt)] at h
  exact h

theorem Harmless.fine (hb : b.WellFormed) (h : Harmless o b w read_media x) :
    Fine o b read_media x := by
  refine ⟨fun hs => ⟨h.getslot.ready hs, write_known h.write⟩, fun hfull => ?_⟩
  by_cases hg : b.Grows o
  · exact Or.inl hg
  · have ht := h.getslot.isLocal hb hfull hg
    obtain ⟨b₁, hslot, -⟩ := MappedBuffer.getslot_local_fails hb.mapped ht hfull hg
    exact Or.inr ⟨ht, fails_of_frameHarmless hslot h.get_frame⟩

theorem Fine.harmless (hb : b.WellFormed) (h : Fine o b read_media x) :
    Harmless o b w read_media x := by
  obtain ⟨hstale, hfull⟩ := h
  have hready : b.Ready o := fun hs => (hstale hs).1
  have hwrite := MappedBuffer.write_harmless hb hready (fun hs => (hstale hs).2)
    (fun hf => (hfull hf).imp_right And.left) w
  by_cases hg : b.Full → b.Grows o
  · obtain ⟨s, b', hslot⟩ := MappedBuffer.getslot_obtains hb.mapped hready hg
    refine ⟨⟨some s, b', hslot, fun hn => by cases hn⟩, hwrite, fun b₁ hn => ?_⟩
    rw [hslot] at hn
    cases hn
  · obtain ⟨hf, hg⟩ := Classical.not_imp.mp hg
    obtain ⟨ht, hfails⟩ := (hfull hf).resolve_left hg
    obtain ⟨b', hslot, hpool, hlocked⟩ :=
      MappedBuffer.getslot_local_fails hb.mapped ht hf hg
    exact ⟨⟨none, b', hslot, fun _ => ⟨hpool, hlocked⟩⟩, hwrite,
      frameHarmless_of_fails hslot hpool hfails⟩

end

/-- Whether the failures of memory do no harm to a buffer between two calls. -/
theorem harmless_iff {b : MappedBuffer} (hb : b.WellFormed) (o : Outcomes)
    (w : MappedBuffer.WriteArgs) (read_media : σ → Option (MediaRead σ)) (x : σ) :
    Harmless o b w read_media x ↔ Fine o b read_media x :=
  ⟨Harmless.fine hb, Fine.harmless hb⟩

/-- The local buffer that a pool runs on. -/
def ofPool (b : OMSBuffer) : MappedBuffer where
  type := .buffLocal
  pool := b
  knownSlots := b.control.nslots
  fileSize := 0
  mapped := true
  locked := false

/-- Between two calls every buffer a pool reaches is well formed, as long as `nslots` does not
leave its type. -/
theorem reachable_wellFormed {n : ℕ} {b : OMSBuffer} (hb : OMSbuff.new n = some b)
    {as : List Act} {p : Pool} (hp : Run.exec Pool.step (Pool.init b) as = some p)
    (hsmall : p.buffer.control.nslots < 2 ^ 32) : (ofPool p.buffer).WellFormed := by
  obtain ⟨ord, z, hshape, -⟩ := (Shaped.init hb).run hp
  refine ⟨rfl, rfl, fun _ => rfl, hshape.write_lt, ?_, hsmall⟩
  intro i hi
  obtain ⟨j, hj, rfl⟩ := hshape.ring.index_of_lt hshape.bound hi
  obtain ⟨k, hk, he⟩ := hshape.ring.next_mem hj
  change (p.buffer.slots (ord j)).next < p.buffer.control.nslots
  rw [he]
  exact hshape.bound k hk

/-- A buffer of two slots, both of them still referred to. -/
def twoReferred (type : OMSBufferType) : MappedBuffer where
  type := type
  pool :=
    { control := ⟨1, 2, 1, 0⟩
      slots := fun i => { refs := 1, slotSeq := i + 1, next := if i = 0 then 1 else 0 } }
  knownSlots := 2
  fileSize := 2 * slotSize
  mapped := true
  locked := false

theorem twoReferred_wellFormed (type : OMSBufferType) : (twoReferred type).WellFormed where
  mapped := rfl
  unlocked := rfl
  known := fun _ => rfl
  written := show 1 < 2 by decide
  links := by
    intro i _
    change (if i = 0 then 1 else 0) < 2
    split <;> decide
  small := show 2 < 2 ^ 32 by decide

/-- The end of a file: nothing is read. -/
def endOfFile (_ : Unit) : Option (MediaRead Unit) := some ⟨errEof, none, 0, 0, false, ()⟩

/-- Everything fails. -/
def nothingWorks : Outcomes :=
  ⟨false, ⟨false, false, false, false, false, false⟩, false,
    ⟨false, false, false, false, false, false⟩⟩

theorem local_end_harmless :
    Harmless nothingWorks (twoReferred .buffLocal) ⟨0, 0, 0, .foreign [1], 1⟩ endOfFile () := by
  refine (harmless_iff (twoReferred_wellFormed .buffLocal) nothingWorks _ endOfFile ()).mpr ⟨?_, ?_⟩
  · intro hs
    cases hs.1
  · exact fun _ => Or.inr ⟨rfl, _, rfl, rfl, by decide⟩

/-- When the shared memory object cannot be opened, the newest slot is linked to nothing. -/
theorem shared_page_breaks_ring : ¬ ∀ (o : Outcomes) (b : MappedBuffer)
    (w : MappedBuffer.WriteArgs), b.WellFormed → Harmless o b w endOfFile () := by
  intro h
  obtain ⟨r, b', hslot, hnone⟩ := (h nothingWorks (twoReferred .buffShm) ⟨0, 0, 0, .foreign [1], 1⟩
    (twoReferred_wellFormed .buffShm)).getslot
  cases hslot
  have hpool := (hnone rfl).1
  have hlink := congrArg (fun p : OMSBuffer => (p.slots 1).next) hpool
  exact absurd hlink (by decide)

end Fenice.Mediainfo
