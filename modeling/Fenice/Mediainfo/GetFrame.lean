import Fenice.BufferPool.Slots

/-!
# Filling the packet buffer (mediainfo/get_frame.c)

`get_frame` takes a slot, lets the reader of the media fill it, commits it, and goes on as
long as the reader asks to be called again. Packet buffer and reader are parameters.
-/

namespace Fenice.Mediainfo
open Fenice.BufferPool

/-- `ERR_NOERROR` and `ERR_EOF`. -/
def errNoerror : ℤ := 0
def errEof : ℤ := -8

/-- What one call of `read_media` does: its result, the data it stores in the slot (`none`: it
does not touch the slot), and what it sets. -/
structure MediaRead (σ : Type) where
  res : ℤ
  stored : Option (List UInt8)
  mtime : ℕ
  marker : ℕ
  recallme : Bool
  state : σ

/-- The operations on `me->pkt_buffer`. A `getslot` that gives `none` uses memory that is not
there. `commit` is the call of `OMSbuff_write`, whose error is only logged. -/
structure SlotOps (B : Type) where
  getslot : B → Option (Option ℕ × B)
  store : B → ℕ → List UInt8 → B
  dataSize : B → ℕ → ℕ
  commit : B → ℕ → ℕ → ℕ → B

/-- The end of a call: it returns, having committed `commits` slots, or it uses memory that
is not there. -/
inductive Frame (B σ : Type) where
  | returned (res : ℤ) (b : B) (state : σ) (commits : ℕ)
  | crashed

def Frame.add {B σ : Type} (k : ℕ) : Frame B σ → Frame B σ
  | returned res b state commits => returned res b state (k + commits)
  | crashed => crashed

variable {B σ : Type}

theorem Frame.add_add (j k : ℕ) (r : Frame B σ) : (r.add j).add k = r.add (k + j) := by
  cases r with
  | returned res b state commits => simp [Frame.add, Nat.add_assoc]
  | crashed => rfl

/-- `get_frame`; `none`: its loop is still running after `fuel` iterations. A reader that gives
`none` has left its memory. -/
def get_frame (ops : SlotOps B) (read_media : σ → Option (MediaRead σ)) :
    ℕ → B → σ → Option (Frame B σ)
  | 0, _, _ => none
  | fuel + 1, b, x =>
    match ops.getslot b, read_media x with
    | none, _ | _, none => some .crashed
    | some (none, b), some r =>
      -- the slot is not tested, and its fields are those of a null pointer
      if r.stored.isSome ∨ r.res = errNoerror then some .crashed
      else some (.returned r.res b r.state 0)
    | some (some i, b), some r =>
      let b := match r.stored with
        | some data => ops.store b i data
        | none => b
      if r.res = errNoerror then
        let commit : Bool := ops.dataSize b i ≠ 0
        let b := if commit then ops.commit b i r.mtime r.marker else b
        let k := if commit then 1 else 0
        if r.recallme then (get_frame ops read_media fuel b r.state).map (Frame.add k)
        else some (.returned r.res b r.state k)
      else some (.returned r.res b r.state 0)

theorem get_frame_mono {ops : SlotOps B} {read_media : σ → Option (MediaRead σ)} {fuel : ℕ} {b : B}
    {x : σ} {r : Frame B σ} (h : get_frame ops read_media fuel b x = some r) (k : ℕ) :
    get_frame ops read_media (fuel + k) b x = some r := by
  induction fuel generalizing b x r with
  | zero => cases h
  | succ fuel ih =>
    rw [Nat.add_right_comm, get_frame]
    rw [get_frame] at h
    rcases hs : ops.getslot b with _ | ⟨_ | i, b'⟩ <;> cases hr : read_media x <;>
      simp only [hs, hr] at h ⊢
    case none.none | none.some | some.none.none | some.none.some | some.some.none =>
      exact h
    case some.some.some out =>
      split_ifs at h ⊢
      all_goals first
        | exact h
        | (obtain ⟨r', hr', rfl⟩ := Option.map_eq_some_iff.mp h
           rw [ih hr']
           rfl)

theorem get_frame_unique {ops : SlotOps B} {read_media : σ → Option (MediaRead σ)} {f g : ℕ} {b : B}
    {x : σ} {r r' : Frame B σ} (h : get_frame ops read_media f b x = some r)
    (h' : get_frame ops read_media g b x = some r') : r = r' := by
  have h₁ := get_frame_mono h g
  have h₂ := get_frame_mono h' f
  rw [Nat.add_comm, h₂] at h₁
  exact (Option.some.inj h₁).symm

/-- A buffer that always has a slot, and keeps the size that is stored. -/
structure SlotOps.Plentiful (ops : SlotOps B) : Prop where
  getslot : ∀ b, ∃ i b', ops.getslot b = some (some i, b')
  dataSize : ∀ b i data, ops.dataSize (ops.store b i data) i = data.length

section Iterations

variable {ops : SlotOps B} {read_media : σ → Option (MediaRead σ)} {x : σ} {r : MediaRead σ}

theorem get_frame_error (hops : ops.Plentiful) (hr : read_media x = some r)
    (hres : r.res ≠ errNoerror) (hst : r.stored = none) (b : B) :
    ∃ b', ∀ fuel,
      get_frame ops read_media (fuel + 1) b x = some (.returned r.res b' r.state 0) := by
  obtain ⟨i, b', hslot⟩ := hops.getslot b
  exact ⟨b', fun fuel => by simp only [get_frame, hslot, hr, hst, if_neg hres]⟩

theorem get_frame_packet (hops : ops.Plentiful) (hr : read_media x = some r)
    (hres : r.res = errNoerror) {data : List UInt8} (hst : r.stored = some data)
    (hne : data ≠ []) (b : B) :
    ∃ b', ∀ fuel, get_frame ops read_media (fuel + 1) b x =
      if r.recallme then (get_frame ops read_media fuel b' r.state).map (Frame.add 1)
      else some (.returned r.res b' r.state 1) := by
  obtain ⟨i, b', hslot⟩ := hops.getslot b
  have hsize : ops.dataSize (ops.store b' i data) i ≠ 0 := by
    rw [hops.dataSize]
    exact fun h => hne (List.length_eq_zero_iff.mp h)
  refine ⟨ops.commit (ops.store b' i data) i r.mtime r.marker, fun fuel => ?_⟩
  simp [get_frame, hslot, hr, hst, hres, hsize]

end Iterations

/-! ### A local buffer -/

/-- The packet buffer of a media that is not shared, with the outcome `mem` of `realloc`. -/
def localOps (mem : Bool) : SlotOps OMSBuffer where
  getslot b := some (OMSbuff.getslot mem b)
  store b i data := b.upd i fun s =>
    { s with data := data ++ s.data.drop data.length, dataSize := data.length }
  dataSize b i := (b.slots i).dataSize
  commit b i mtime marker :=
    match OMSbuff.write mem b 0 mtime marker (.slot i) (b.slots i).dataSize with
    | .done b' => b'
    | .errAlloc b' => b'
    | .diverges => b

theorem localOps_plentiful : (localOps true).Plentiful where
  getslot b := by
    change ∃ i b', some (OMSbuff.getslot true b) = some (some i, b')
    unfold OMSbuff.getslot OMSbuff.addpage
    simp only [if_true]
    split_ifs
    all_goals exact ⟨_, _, rfl⟩
  dataSize b i data := by simp [localOps]

end Fenice.Mediainfo
