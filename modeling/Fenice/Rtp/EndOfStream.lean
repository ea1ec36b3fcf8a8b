import Fenice.Rtp.SendPacket
import Fenice.Mediainfo.GetFrame

/-!
# The end of a stream (RTP_send_packet.c, get_frame.c, schedule_do.c)

A visit of `schedule_do` to a session whose media is read through `get_frame` into the shared
buffer. An error of `get_frame` is returned before anything is sent.
-/

namespace Fenice.Rtp
open Fenice.BufferPool Fenice.Mediainfo Fenice.Run

/-- `ERR_ALLOC`. -/
def errAlloc : ℤ := -4

/-- `get_frame` on the buffer of a pool, with the outcome `mem` of `realloc`. -/
def poolOps (mem : Bool) : SlotOps Pool where
  getslot p := (p.step (.getslot mem)).map fun q => (q.slot, q)
  store p i data :=
    (p.step (.fill (data ++ (p.buffer.slots i).data.drop data.length) data.length)).getD p
  dataSize p i := (p.buffer.slots i).dataSize
  commit p _ mtime marker := (p.step (.commit mtime marker)).getD p

section Reader

variable {σ : Type} (mem : Bool) (read_media : σ → Option (MediaRead σ)) (sTime : σ → ℤ)

/-- `RTP_send_packet` of session `i`, its result and what the reader has come to; `sTime` is what
the reader has left in `*mtime`. `none`: it does not return. -/
def playAction (fuel i : ℕ) (st : Senders) (x : σ) : Option (ℤ × Senders × σ) :=
  st.pool.clients[i]?.bind fun cl =>
    let next := OMSbuff.getreader st.pool.buffer cl.cons
    match next.1 with
    | none =>
      match get_frame (poolOps mem) read_media fuel st.pool x with
      | some (.returned res p y _) =>
        if res ≠ errNoerror then some (res, { st with pool := p }, y)
        else
          (sendLoop i (sTime y) fuel { st with pool := p }).map fun t => (errNoerror, t, y)
      | _ => none
    | some s =>
      (sendLoop i ((st.pool.buffer.slots s).timestamp - next.2.firstts) fuel st).map fun t =>
        (errNoerror, t, x)

/-- Whether `schedule_do` calls `schedule_stop` for what `play_action` returned. -/
def stops (live : Bool) (res : ℤ) : Bool := (res == errEof && !live) || res == errAlloc

/-- A visit of `schedule_do`, up to the call of `schedule_stop`. -/
def visit (live : Bool) (fuel i : ℕ) (st : Senders) (x : σ) : Option (Bool × Senders × σ) :=
  (playAction mem read_media sTime fuel i st x).map fun r => (stops live r.1, r.2)

end Reader

/-- The committed slots that consumer `i` has not taken. -/
def unread (p : Pool) (i : ℕ) : ℕ :=
  match p.clients[i]? with
  | some cl => p.log.length - (cl.first - 1 + cl.got.length)
  | none => 0

/-! ### Frames without a packet -/

section Wasted

variable {B σ : Type} (ops : SlotOps B) (read_media : σ → Option (MediaRead σ))

def filled (b : B) (i : ℕ) (r : MediaRead σ) : B :=
  match r.stored with
  | some data => ops.store b i data
  | none => b

/-- The reader fails before it gives a packet that is not empty. -/
inductive Wasted : B → σ → Prop
  | fails {b b' : B} {o : Option ℕ} {x : σ} {r : MediaRead σ} (hs : ops.getslot b = some (o, b'))
      (hr : read_media x = some r) (hres : r.res ≠ errNoerror) : Wasted b x
  | empty {b b' : B} {i : ℕ} {x : σ} {r : MediaRead σ} (hs : ops.getslot b = some (some i, b'))
      (hr : read_media x = some r) (hres : r.res = errNoerror)
      (hsize : ops.dataSize (filled ops b' i r) i = 0)
      (tail : Wasted (filled ops b' i r) r.state) : Wasted b x

variable {ops read_media}

/-- The buffer behind an iteration, and how many slots it committed. -/
def iterated (ops : SlotOps B) (b : B) (i : ℕ) (r : MediaRead σ) : B × ℕ :=
  let b := filled ops b i r
  if ops.dataSize b i = 0 then (b, 0) else (ops.commit b i r.mtime r.marker, 1)

theorem get_frame_step {b b' : B} {i : ℕ} {x : σ} {r : MediaRead σ}
    (hs : ops.getslot b = some (some i, b')) (hr : read_media x = some r)
    (hres : r.res = errNoerror) (fuel : ℕ) :
    get_frame ops read_media (fuel + 1) b x =
      if r.recallme then
        (get_frame ops read_media fuel (iterated ops b' i r).1 r.state).map
          (Frame.add (iterated ops b' i r).2)
      else some (.returned r.res (iterated ops b' i r).1 r.state (iterated ops b' i r).2) := by
  rw [get_frame]
  cases hst : r.stored with
  | none =>
    by_cases hd : ops.dataSize b' i = 0 <;> simp [hs, hr, hres, iterated, filled, hst, hd]
  | some data =>
    by_cases hd : ops.dataSize (ops.store b' i data) i = 0 <;>
      simp [hs, hr, hres, iterated, filled, hst, hd]

/-- A call that fails has committed nothing exactly if the frame was wasted. -/
theorem commits_zero_iff {fuel : ℕ} {b q : B} {x y : σ} {res : ℤ} {k : ℕ}
    (h : get_frame ops read_media fuel b x = some (.returned res q y k))
    (hres : res ≠ errNoerror) : k = 0 ↔ Wasted ops read_media b x := by
  induction fuel generalizing b x k with
  | zero => cases h
  | succ fuel ih =>
    cases hs : ops.getslot b with
    | none => simp [get_frame, hs] at h
    | some slot =>
      obtain ⟨o, b'⟩ := slot
      cases hr : read_media x with
      | none => cases o <;> simp [get_frame, hs, hr] at h
      | some r =>
        by_cases hok : r.res = errNoerror
        · cases o with
          | none => simp [get_frame, hs, hr, hok] at h
          | some i =>
            rw [get_frame_step hs hr hok] at h
            split_ifs at h with hrecall
            · obtain ⟨out, hout, hadd⟩ := Option.map_eq_some_iff.mp h
              cases out with
              | crashed => cases hadd
              | returned res' q' y' k' =>
                simp only [Frame.add, Frame.returned.injEq] at hadd
                obtain ⟨rfl, rfl, rfl, rfl⟩ := hadd
                have htail := ih hout
                constructor
                · intro hk
                  have hzero : (iterated ops b' i r).2 = 0 := by omega
                  have hsize : ops.dataSize (filled ops b' i r) i = 0 := by
                    by_contra hd
                    simp [iterated, hd] at hzero
                  refine .empty hs hr hok hsize ?_
                  have hsame : (iterated ops b' i r).1 = filled ops b' i r := by
                    simp [iterated, hsize]
                  rw [← hsame]
                  exact htail.mp (by omega)
                · intro hw
                  cases hw with
                  | fails hs' hr' hres' =>
                    cases hr.symm.trans hr'
                    exact absurd hok hres'
                  | empty hs' hr' _ hsize tail =>
                    cases hs.symm.trans hs'
                    cases hr.symm.trans hr'
                    simp only [iterated, hsize, if_true] at htail ⊢
                    rw [htail.mpr tail]
            · simp only [Option.some.injEq, Frame.returned.injEq] at h
              exact absurd (h.1 ▸ hok) hres
        · refine iff_of_true ?_ (.fails hs hr hok)
          cases o with
          | none =>
            simp only [get_frame, hs, hr] at h
            split_ifs at h <;> cases h
            rfl
          | some i =>
            simp only [get_frame, hs, hr, if_neg hok] at h
            cases h
            rfl

end Wasted

/-! ### What `get_frame` does to a pool -/

section Pool

variable {σ : Type} {mem : Bool} {read_media : σ → Option (MediaRead σ)}

/-- The slot that the producer holds is the one behind `write_pos`. -/
def Held (p : Pool) : Prop :=
  ∀ s ∈ p.slot, s = (p.buffer.slots p.buffer.control.writePos).next

theorem getslot_held {p q : Pool} {o : Option ℕ}
    (h : (poolOps mem).getslot p = some (o, q)) :
    o = q.slot ∧ Held q ∧ q.clients = p.clients ∧ q.log = p.log := by
  simp only [poolOps, Pool.step, Option.map_some, Option.some.injEq, Prod.mk.injEq] at h
  obtain ⟨rfl, rfl⟩ := h
  refine ⟨rfl, ?_, rfl, rfl⟩
  intro s hs
  simp only [OMSbuff.getslot] at hs ⊢
  split_ifs at hs ⊢ with hrefs hpush
  · cases ha : OMSbuff.addpage mem p.buffer p.buffer.control.writePos with
    | none => simp [ha] at hs
    | some added =>
      rw [ha] at hs
      unfold OMSbuff.addpage at ha
      split_ifs at ha
      cases ha
      cases hs
      simp [OMSBuffer.upd]
  · cases hs
    rfl
  · cases hs
    rfl

theorem store_held {p : Pool} (h : Held p) (i : ℕ) (data : List UInt8) :
    Held ((poolOps mem).store p i data) ∧ ((poolOps mem).store p i data).slot = p.slot ∧
      ((poolOps mem).store p i data).clients = p.clients ∧
      ((poolOps mem).store p i data).log = p.log := by
  cases hs : p.slot with
  | none => simpa [poolOps, Pool.step, hs] using h
  | some s =>
    refine ⟨?_, by simp [poolOps, Pool.step, hs]⟩
    intro t ht
    have := h t (by simpa [poolOps, Pool.step, hs] using ht)
    simp only [poolOps, Pool.step, hs, Option.map_some, Option.getD_some,
      OMSBuffer.upd_control, OMSBuffer.upd_slots]
    split_ifs <;> exact this

theorem commit_log {p : Pool} (h : Held p) {s : ℕ} (hs : p.slot = some s) (i mtime marker : ℕ) :
    ((poolOps mem).commit p i mtime marker).clients = p.clients ∧
      ((poolOps mem).commit p i mtime marker).log.length = p.log.length + 1 := by
  have hnext := h s hs
  simp [poolOps, Pool.step, hs, OMSbuff.write, hnext, Pool.committed]

theorem filled_pool {p : Pool} (h : Held p) {i : ℕ} (hs : p.slot = some i) (r : MediaRead σ) :
    Held (filled (poolOps mem) p i r) ∧ (filled (poolOps mem) p i r).slot = some i ∧
      (filled (poolOps mem) p i r).clients = p.clients ∧
      (filled (poolOps mem) p i r).log = p.log := by
  unfold filled
  cases r.stored with
  | none => exact ⟨h, hs, rfl, rfl⟩
  | some data =>
    obtain ⟨hh, hslot, hc, hl⟩ := @store_held mem _ h i data
    exact ⟨hh, hslot.trans hs, hc, hl⟩

theorem iterated_pool {p : Pool} (h : Held p) {i : ℕ} (hs : p.slot = some i) (r : MediaRead σ) :
    (iterated (poolOps mem) p i r).1.clients = p.clients ∧
      (iterated (poolOps mem) p i r).1.log.length =
        p.log.length + (iterated (poolOps mem) p i r).2 := by
  obtain ⟨hh, hslot, hc, hl⟩ := @filled_pool σ mem _ h _ hs r
  unfold iterated
  by_cases hd : (poolOps mem).dataSize (filled (poolOps mem) p i r) i = 0
  · simp only [if_pos hd, hc, hl, Nat.add_zero, and_self]
  · obtain ⟨hc', hl'⟩ := @commit_log mem _ hh _ hslot i r.mtime r.marker
    simp only [if_neg hd, hc', hc, hl', hl, and_self]

theorem get_frame_log {fuel : ℕ} {p q : Pool} {x y : σ} {res : ℤ} {k : ℕ}
    (h : get_frame (poolOps mem) read_media fuel p x = some (.returned res q y k)) :
    q.clients = p.clients ∧ q.log.length = p.log.length + k := by
  induction fuel generalizing p x k with
  | zero => cases h
  | succ fuel ih =>
    cases hs : (poolOps mem).getslot p with
    | none => simp [get_frame, hs] at h
    | some slot =>
      obtain ⟨o, p'⟩ := slot
      obtain ⟨ho, hheld, hclients, hlog⟩ := getslot_held hs
      cases hr : read_media x with
      | none => cases o <;> simp [get_frame, hs, hr] at h
      | some r =>
        cases o with
        | none =>
          simp only [get_frame, hs, hr] at h
          split_ifs at h <;> cases h
          exact ⟨hclients, by rw [hlog, Nat.add_zero]⟩
        | some i =>
          obtain ⟨hh, hslot, hc, hl⟩ := filled_pool hheld ho.symm r
          obtain ⟨hic, hil⟩ := iterated_pool hheld ho.symm r
          by_cases hok : r.res = errNoerror
          · rw [get_frame_step hs hr hok] at h
            split_ifs at h with hrecall
            · obtain ⟨out, hout, hadd⟩ := Option.map_eq_some_iff.mp h
              cases out with
              | crashed => cases hadd
              | returned res' q' y' k' =>
                simp only [Frame.add, Frame.returned.injEq] at hadd
                obtain ⟨rfl, rfl, rfl, rfl⟩ := hadd
                obtain ⟨htc, htl⟩ := ih hout
                exact ⟨htc.trans (hic.trans hclients), by rw [htl, hil, hlog, Nat.add_assoc]⟩
            · cases h
              exact ⟨hic.trans hclients, hlog ▸ hil⟩
          · simp only [get_frame, hs, hr, if_neg hok] at h
            cases h
            refine ⟨hc.trans hclients, ?_⟩
            rw [Nat.add_zero, ← hlog]
            exact congrArg List.length hl

end Pool

/-! ### A visit that stops a session -/

section Visit

variable {σ : Type} {mem : Bool} {read_media : σ → Option (MediaRead σ)} {sTime : σ → ℤ}

theorem visit_stops {live : Bool} {fuel i : ℕ} {st t : Senders} {x y : σ}
    (h : visit mem read_media sTime live fuel i st x = some (true, t, y)) :
    ∃ cl res k, st.pool.clients[i]? = some cl ∧
      OMSbuff.select st.pool.buffer cl.cons = none ∧ res ≠ errNoerror ∧
      get_frame (poolOps mem) read_media fuel st.pool x = some (.returned res t.pool y k) := by
  obtain ⟨⟨res, t', y'⟩, hplay, he⟩ := Option.map_eq_some_iff.mp h
  simp only [Prod.mk.injEq] at he
  obtain ⟨hstop, rfl, rfl⟩ := he
  have hres : res ≠ errNoerror := by
    rintro rfl
    cases live <;> cases hstop
  obtain ⟨cl, hcl, hplay⟩ := Option.bind_eq_some_iff.mp hplay
  dsimp only at hplay
  refine ⟨cl, res, ?_⟩
  split at hplay
  · rename_i hnext
    have hsel : OMSbuff.select st.pool.buffer cl.cons = none := by
      cases hs : OMSbuff.select st.pool.buffer cl.cons with
      | none => rfl
      | some s => simp [OMSbuff.getreader, hs] at hnext
    split at hplay
    · rename_i res' p y' k hf
      split_ifs at hplay with hok
      · cases hplay
        exact ⟨k, hcl, hsel, hres, hf⟩
      · obtain ⟨u, -, he⟩ := Option.map_eq_some_iff.mp hplay
        exact absurd (congrArg Prod.fst he).symm hres
    · cases hplay
  · obtain ⟨u, -, he⟩ := Option.map_eq_some_iff.mp hplay
    exact absurd (congrArg Prod.fst he).symm hres

theorem unread_zero {n : ℕ} (hn : 2 ≤ n) {b : OMSBuffer} (hb : OMSbuff.new n = some b)
    {as : List Act} {st : Senders} (hrun : GuardedRun Senders.step Guard (Senders.init b) as st)
    {i : ℕ} {cl : Client} (hcl : st.pool.clients[i]? = some cl) (hst : cl.status = .reading)
    (hsafe : ReadSafe st.pool.buffer cl.cons)
    (hsel : OMSbuff.select st.pool.buffer cl.cons = none) :
    st.pool.log.length = cl.first - 1 + cl.got.length := by
  have hinv := SendersInv.of_run hn hb hrun
  obtain ⟨as', hpool⟩ := hinv.run
  have hconsumed :=
    (BufferPool.Delivered.consumed (run_recorded hn hb hpool).2.2 (List.mem_of_getElem? hcl)).1
  have hoff := hinv.offered hn hb hcl hst hsafe
  rw [hsel, Option.map_none] at hoff
  have := List.getElem?_eq_none_iff.mp hoff.symm
  omega

/-- A session that is stopped has read everything exactly if its reader failed before it gave a
packet in the same call. -/
theorem stop_unread_iff {n : ℕ} (hn : 2 ≤ n) {b : OMSBuffer} (hb : OMSbuff.new n = some b)
    {as : List Act} {st : Senders} (hrun : GuardedRun Senders.step Guard (Senders.init b) as st)
    {i : ℕ} {cl : Client} (hcl : st.pool.clients[i]? = some cl) (hst : cl.status = .reading)
    (hsafe : ReadSafe st.pool.buffer cl.cons) {live : Bool} {fuel : ℕ} {x y : σ} {t : Senders}
    (h : visit mem read_media sTime live fuel i st x = some (true, t, y)) :
    unread t.pool i = 0 ↔ Wasted (poolOps mem) read_media st.pool x := by
  obtain ⟨cl', res, k, hcl', hsel, hres, hf⟩ := visit_stops h
  obtain rfl : cl = cl' := Option.some.inj (hcl.symm.trans hcl')
  obtain ⟨hclients, hlog⟩ := get_frame_log hf
  have hall := unread_zero hn hb hrun hcl hst hsafe hsel
  rw [← commits_zero_iff hf hres, unread, hclients, hcl, hlog, hall]
  dsimp only
  omega

end Visit

/-- A reader of the packets left in its file, all of one frame that the file does not finish. -/
def cutShort : List (List UInt8) → Option (MediaRead (List (List UInt8)))
  | [] => some ⟨errEof, none, 0, 0, false, []⟩
  | data :: rest => some ⟨errNoerror, some data, 40, 0, true, rest⟩

def oneSession : List Act := [.play 1 1 1 ⟨32, some 90000⟩]

/-- Two packets of the file are committed, and the session has sent both. -/
def twoRead : List Act :=
  oneSession ++ [.other ⟨.getslot true, trivial⟩, .other ⟨.fill [7] 1, trivial⟩,
    .other ⟨.commit 40 1, trivial⟩, .getreader 0, .gotreader 0, .other ⟨.getslot true, trivial⟩,
    .other ⟨.fill [9] 1, trivial⟩, .other ⟨.commit 80 1, trivial⟩, .getreader 0, .gotreader 0]

theorem stopped_at_end : ∃ b st t y, OMSbuff.new 4 = some b ∧
    exec Senders.step (Senders.init b) twoRead = some st ∧
    visit true cutShort (fun _ => 0) false 5 0 st [] = some (true, t, y) ∧
    t.pool.log.length = 2 ∧ unread t.pool 0 = 0 := by
  refine ⟨_, _, _, _, rfl, rfl, rfl, rfl, ?_⟩
  refine (@stop_unread_iff _ true cutShort (fun _ => 0) 4 (by decide) _ rfl twoRead _
    (GuardedRun.of_allowed ?_ rfl) 0 _ rfl rfl ?_ false 5 [] _ _ rfl).mpr ?_
  · decide
  · decide
  · exact .fails (r := ⟨errEof, none, 0, 0, false, []⟩) rfl rfl (by decide)

theorem stopped_with_packet : ∃ b st t y, OMSbuff.new 4 = some b ∧
    GuardedRun Senders.step Guard (Senders.init b) oneSession st ∧
    visit true cutShort (fun _ => 0) false 5 0 st [[1]] = some (true, t, y) ∧
    unread t.pool 0 = 1 := by
  refine ⟨_, _, _, _, rfl, GuardedRun.of_allowed ?_ rfl, rfl, rfl⟩
  decide

end Fenice.Rtp
