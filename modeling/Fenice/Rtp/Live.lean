import Fenice.Rtp.EndOfStream

/-!
# From the reader of a media to its sessions (get_frame.c, RTP_send_packet.c)

The loop of `get_frame` one turn at a time: a slot is taken, the reader fills it, the slot is
committed. The sessions that read the buffer take their steps between any two of these.
-/

namespace Fenice.Rtp
open Fenice.BufferPool Fenice.Mediainfo Fenice.Run

/-- A packet on its way from the reader to a receiver. -/
structure Parcel where
  mtime : ℕ
  marker : ℕ
  bytes : List UInt8
  deriving DecidableEq

/-- What is sent of a slot. -/
def parcel (x : Packet) : Parcel := ⟨x.timestamp, x.marker, x.data.take x.dataSize⟩

/-- What a call of the reader gives to be sent. -/
def yield {σ : Type} (r : MediaRead σ) : List Parcel :=
  match r.stored with
  | some data =>
    if r.res = errNoerror ∧ data ≠ [] then [⟨r.mtime, r.marker, data⟩] else []
  | none => []

/-- Calls of the reader one after the other, with all that they give. -/
inductive Given {σ : Type} (read_media : σ → Option (MediaRead σ)) (x₀ : σ) :
    List Parcel → σ → Prop
  | start : Given read_media x₀ [] x₀
  | call {out : List Parcel} {x : σ} {r : MediaRead σ} (h : Given read_media x₀ out x)
      (hr : read_media x = some r) : Given read_media x₀ (out ++ yield r) r.state

/-- A call that succeeds stores something, if only an empty packet. -/
def Stores {σ : Type} (read_media : σ → Option (MediaRead σ)) : Prop :=
  ∀ x r, read_media x = some r → r.res = errNoerror → r.stored.isSome

/-- Where the producer is in a turn of the loop of `get_frame`. -/
inductive Stage where
  | between
  | taken
  | filled (mtime marker : ℕ)
  deriving DecidableEq

/-- The sessions on a media, and its reader. -/
structure Live (σ : Type) where
  senders : Senders
  stage : Stage
  media : σ

/-- What sessions do. -/
def IsSession : Act → Prop
  | .other ⟨.unref _, _⟩ | .other ⟨.drain _, _⟩ => True
  | .other _ => False
  | .play .. | .getreader _ | .gotreader _ => True

instance (a : Act) : Decidable (IsSession a) :=
  match a with
  | .other ⟨.unref _, _⟩ | .other ⟨.drain _, _⟩ => isTrue trivial
  | .other ⟨.getslot _, _⟩ | .other ⟨.fill .., _⟩ | .other ⟨.commit .., _⟩
  | .other ⟨.write .., _⟩ | .other ⟨.ref, _⟩ | .other ⟨.getreader _, _⟩
  | .other ⟨.gotreader _, _⟩ | .other ⟨.read .., _⟩ => isFalse id
  | .play .. | .getreader _ | .gotreader _ => isTrue trivial

namespace Live

variable {σ : Type} (read_media : σ → Option (MediaRead σ))

inductive Act where
  | getslot (mem : Bool)
  | read
  | commit
  | session (a : {a : Rtp.Act // IsSession a})

def init (b : OMSBuffer) (x : σ) : Live σ := ⟨.init b, .between, x⟩

/-- The live stream with another buffer. -/
def withPool (l : Live σ) (p : Pool) (stage : Stage) : Live σ :=
  { l with senders := { l.senders with pool := p }, stage := stage }

/-- One step. Without a slot the reader is given a null pointer; `none`: it is used. -/
def step (l : Live σ) : Act → Option (Live σ)
  | .getslot mem =>
    if l.stage = .between then
      (l.senders.pool.step (.getslot mem)).map fun p => l.withPool p .taken
    else none
  | .read =>
    match l.stage, l.senders.pool.slot, read_media l.media with
    | .taken, some i, some r =>
      some { l.withPool (filled (poolOps true) l.senders.pool i r)
          (if r.res = errNoerror then .filled r.mtime r.marker else .between) with
        media := r.state }
    | .taken, none, some r =>
      if r.stored.isSome ∨ r.res = errNoerror then none
      else some { l with stage := .between, media := r.state }
    | _, _, _ => none
  | .commit =>
    match l.stage, l.senders.pool.slot with
    | .filled mtime marker, some i =>
      if (l.senders.pool.buffer.slots i).dataSize = 0 then some { l with stage := .between }
      else (l.senders.pool.step (.commit mtime marker)).map fun p => l.withPool p .between
    | _, _ => none
  | .session a => (l.senders.step a.1).map fun st => { l with senders := st }

/-- The condition on a step: that of the pool for what the step does to it. -/
def Guard (l : Live σ) : Act → Prop
  | .commit => BufferPool.Guard l.senders.pool (.commit 0 0)
  | .session a => Rtp.Guard l.senders a.1
  | _ => True

instance (l : Live σ) (a : Act) : Decidable (l.Guard a) := by
  cases a <;> dsimp only [Guard] <;> infer_instance

/-- The packet that the reader has put in the slot. -/
def pending (l : Live σ) : List Parcel :=
  match l.stage, l.senders.pool.slot with
  | .filled mtime marker, some i =>
    let s := l.senders.pool.buffer.slots i
    if s.dataSize = 0 then [] else [⟨mtime, marker, s.data.take s.dataSize⟩]
  | _, _ => []

end Live

/-! ### What sessions leave alone -/

/-- The slot of the producer, what is in the slots, and what was committed are the same. -/
structure Untouched (p p' : Pool) : Prop where
  slot : p'.slot = p.slot
  log : p'.log = p.log
  packet : ∀ s, (p'.buffer.slots s).packet = (p.buffer.slots s).packet

theorem Untouched.refl (p : Pool) : Untouched p p := ⟨rfl, rfl, fun _ => rfl⟩

theorem packet_refs (b : OMSBuffer) (i s : ℕ) (refs : OMSSlot → ℕ) :
    ((b.upd i fun x => { x with refs := refs x }).slots s).packet = (b.slots s).packet := by
  rw [OMSBuffer.upd_slots]
  split <;> rfl

theorem refWindow_packet {b b' : OMSBuffer} {stop fuel i : ℕ}
    (h : OMSbuff.refWindow stop fuel b i = some b') (s : ℕ) :
    (b'.slots s).packet = (b.slots s).packet := by
  induction fuel generalizing b i with
  | zero => cases h
  | succ fuel ih =>
    rw [OMSbuff.refWindow] at h
    split at h
    · cases h
      exact packet_refs b i s _
    · exact (ih h).trans (packet_refs b i s _)

theorem ref_packet {b : OMSBuffer} {r : OMSConsumer × OMSBuffer} (h : OMSbuff.ref b = some r)
    (s : ℕ) : (r.2.slots s).packet = (b.slots s).packet := by
  rw [OMSbuff.ref] at h
  split at h
  · obtain ⟨b', hw, rfl⟩ := Option.map_eq_some_iff.mp h
    exact refWindow_packet hw s
  · cases h
    rfl

theorem consume_untouched (p : Pool) (i : ℕ) (cl : Client) (s : ℕ) :
    Untouched p (p.consume i cl s) :=
  ⟨rfl, rfl, fun t => packet_refs p.buffer s t fun x => decr16 x.refs⟩

theorem advance_untouched (p : Pool) (i : ℕ) (cl : Client) : Untouched p (p.advance i cl) := by
  unfold Pool.advance
  split
  · exact .refl p
  · exact consume_untouched p i cl _

theorem session_untouched {st t : Senders} {a : Act} (ha : IsSession a) (h : st.step a = some t) :
    Untouched st.pool t.pool := by
  cases a with
  | other a =>
    obtain ⟨p, hp, rfl⟩ := Option.map_eq_some_iff.mp h
    obtain ⟨a, hother⟩ := a
    cases a with
    | unref i =>
      obtain ⟨cl, -, -, he⟩ := Pool.of_reading hp
      split at he
      · rename_i b hb
        cases he
        unfold OMSbuff.unrefCount at hb
        split_ifs at hb
        cases hb
        exact ⟨rfl, rfl, fun _ => rfl⟩
      · cases he
        exact ⟨rfl, rfl, fun _ => rfl⟩
    | drain i =>
      obtain ⟨cl, last, -, -, hend⟩ := Pool.of_leaving hp
      rcases hend with ⟨s, -, rfl⟩ | ⟨-, rfl⟩
      · exact consume_untouched _ _ _ _
      · exact ⟨rfl, rfl, fun _ => rfl⟩
    | getslot | fill | commit | write => exact absurd ha id
    | ref | getreader | gotreader | read => exact absurd hother id
  | play startSeq startRtptime ssrc media =>
    obtain ⟨p, hp, rfl⟩ := Option.map_eq_some_iff.mp h
    obtain ⟨r, hr, rfl⟩ := Option.map_eq_some_iff.mp hp
    exact ⟨rfl, rfl, ref_packet hr⟩
  | getreader i =>
    simp only [Senders.step] at h
    split at h
    · split_ifs at h
      obtain ⟨p, hp, rfl⟩ := Option.map_eq_some_iff.mp h
      obtain ⟨cl, -, -, he⟩ := Pool.of_reading hp
      cases he
      exact ⟨rfl, rfl, fun _ => rfl⟩
    · cases h
  | gotreader i =>
    simp only [Senders.step] at h
    split at h
    · split_ifs at h
      obtain ⟨p, hp, rfl⟩ := Option.map_eq_some_iff.mp h
      obtain ⟨cl, -, -, he⟩ := Pool.of_reading hp
      cases he
      exact advance_untouched _ _ _
    · cases h

/-! ### One step -/

section Steps

variable {σ : Type} {read_media : σ → Option (MediaRead σ)} {l l' : Live σ} {n : ℕ} {b : OMSBuffer}

/-- Whatever is taken, filled and committed is taken, filled and committed in the pool. -/
theorem Live.step_senders {a : Live.Act} (hg : l.Guard a)
    (h : l.step read_media a = some l') :
    ∃ as, GuardedRun Senders.step Rtp.Guard l.senders as l'.senders := by
  cases a with
  | getslot mem =>
    simp only [Live.step] at h
    split_ifs at h
    obtain ⟨p, hp, rfl⟩ := Option.map_eq_some_iff.mp h
    refine ⟨[.other ⟨.getslot mem, trivial⟩], .cons trivial ?_ (.nil _)⟩
    simp [Senders.step, hp, Live.withPool]
  | read =>
    simp only [Live.step] at h
    split at h
    · rename_i i r hstage hslot hr
      cases h
      unfold filled
      cases hst : r.stored with
      | none => exact ⟨[], .nil _⟩
      | some data =>
        refine ⟨[.other ⟨.fill (data ++ (l.senders.pool.buffer.slots i).data.drop data.length)
          data.length, trivial⟩], .cons trivial ?_ (.nil _)⟩
        simp [Senders.step, poolOps, Pool.step, hslot, Live.withPool]
    · split_ifs at h
      cases h
      exact ⟨[], .nil _⟩
    · cases h
  | commit =>
    simp only [Live.step] at h
    split at h
    · rename_i mtime marker i hstage hslot
      split_ifs at h
      · cases h
        exact ⟨[], .nil _⟩
      · obtain ⟨p, hp, rfl⟩ := Option.map_eq_some_iff.mp h
        refine ⟨[.other ⟨.commit mtime marker, trivial⟩], .cons hg ?_ (.nil _)⟩
        simp [Senders.step, hp, Live.withPool]
    · cases h
  | session a =>
    obtain ⟨st, hst, rfl⟩ := Option.map_eq_some_iff.mp h
    exact ⟨[a.1], .cons hg hst (.nil _)⟩

theorem commit_appends {p p' : Pool} (h : PoolInv n p) {i mtime marker : ℕ} (hs : p.slot = some i)
    (hlt : p.buffer.lastSeq + 1 < 2 ^ 64) (hp : p.step (.commit mtime marker) = some p') :
    ∃ x, p'.log = p.log ++ [x] ∧
      parcel x = ⟨mtime, marker, (parcel (p.buffer.slots i).packet).bytes⟩ := by
  obtain ⟨ord, z, lo, h⟩ := h
  obtain ⟨s, hslot, hw⟩ := Option.bind_eq_some_iff.mp hp
  obtain rfl : i = s := Option.some.inj (hs.symm.trans hslot)
  rw [h.write_held hslot] at hw
  cases hw
  refine ⟨_, rfl, ?_⟩
  have hself := commitSlot_slots_self (s := i) mtime marker (p.buffer.slots i).dataSize hlt
  change parcel ((OMSbuff.commitSlot p.buffer i 0 mtime marker
    (p.buffer.slots i).dataSize).slots i).packet = _
  rw [hself]
  rfl

theorem filled_slot {p : Pool} {i : ℕ} (hs : p.slot = some i) {r : MediaRead σ}
    {data : List UInt8} (hst : r.stored = some data) :
    filled (poolOps true) p i r = { p with
      buffer := p.buffer.upd i fun x =>
        { x with data := data ++ (p.buffer.slots i).data.drop data.length
                 dataSize := data.length } } := by
  simp [filled, hst, poolOps, Pool.step, hs]

/-- The log holds what the reader has given, but for the packet that is in the slot. -/
structure Live.Inv (read_media : σ → Option (MediaRead σ)) (b : OMSBuffer) (x₀ : σ) (l : Live σ) :
    Prop where
  senders : SendersInv b l.senders
  given : Given read_media x₀ (l.senders.pool.log.map parcel ++ l.pending) l.media

theorem Live.Inv.init (b : OMSBuffer) (x₀ : σ) : (Live.init b x₀).Inv read_media b x₀ :=
  ⟨.init b, .start⟩

theorem read_given (hstores : Stores read_media) {x₀ : σ} {i : ℕ} {r : MediaRead σ}
    (hslot : l.senders.pool.slot = some i) (hr : read_media l.media = some r)
    (h : Given read_media x₀ (l.senders.pool.log.map parcel) l.media)
    (hstep : l' = { l.withPool (filled (poolOps true) l.senders.pool i r)
        (if r.res = errNoerror then .filled r.mtime r.marker else .between) with
      media := r.state }) :
    Given read_media x₀ (l'.senders.pool.log.map parcel ++ l'.pending) l'.media := by
  have hnext := h.call hr
  have hlog : l'.senders.pool.log = l.senders.pool.log := by
    rw [hstep]
    cases hst : r.stored with
    | none => simp [Live.withPool, filled, hst]
    | some data => simp [Live.withPool, filled_slot hslot hst]
  have hmedia : l'.media = r.state := by rw [hstep]
  have hpending : l'.pending = yield r := by
    by_cases hok : r.res = errNoerror
    · obtain ⟨data, hst⟩ := Option.isSome_iff_exists.mp (hstores _ _ hr hok)
      by_cases hne : data = []
      · simp [hstep, Live.pending, Live.withPool, filled_slot hslot hst, hok, hslot, yield, hst, hne]
      · simp [hstep, Live.pending, Live.withPool, filled_slot hslot hst, hok, hslot, yield, hst, hne]
    · cases hst : r.stored with
      | none => simp [hstep, Live.pending, Live.withPool, hok, yield, hst]
      | some data => simp [hstep, Live.pending, Live.withPool, hok, yield, hst]
  rw [hlog, hmedia, hpending]
  exact hnext

theorem pending_between (h : l.stage = .between) : l.pending = [] := by
  simp [Live.pending, h]

theorem pending_taken (h : l.stage = .taken) : l.pending = [] := by
  simp [Live.pending, h]

theorem yield_null {r : MediaRead σ} (h : ¬ (r.stored.isSome ∨ r.res = errNoerror)) :
    yield r = [] := by
  have hst : r.stored = none := by
    cases hst : r.stored with
    | none => rfl
    | some data => simp [hst] at h
  simp [yield, hst]

theorem commit_pending {mtime marker i : ℕ} {p : Pool} (h : PoolInv n l.senders.pool)
    (hstage : l.stage = .filled mtime marker) (hslot : l.senders.pool.slot = some i)
    (hsize : (l.senders.pool.buffer.slots i).dataSize ≠ 0)
    (hlt : l.senders.pool.buffer.lastSeq + 1 < 2 ^ 64)
    (hp : l.senders.pool.step (.commit mtime marker) = some p) :
    p.log.map parcel = l.senders.pool.log.map parcel ++ l.pending := by
  obtain ⟨x, hlog, hx⟩ := commit_appends h hslot hlt hp
  have hpending : l.pending = [parcel x] := by
    rw [hx]
    simp [Live.pending, hstage, hslot, hsize, parcel, OMSSlot.packet]
  rw [hlog, hpending, List.map_append, List.map_singleton]

theorem session_pending {st : Senders} (h : Untouched l.senders.pool st.pool) :
    ({ l with senders := st } : Live σ).pending = l.pending := by
  unfold Live.pending
  simp only [h.slot]
  split
  · rename_i mtime marker i hstage hslot
    have hpacket := h.packet i
    simp only [OMSSlot.packet, Packet.mk.injEq] at hpacket
    simp only [hpacket]
  · rfl

theorem Live.Inv.step (hn : 2 ≤ n) (hb : OMSbuff.new n = some b) (hstores : Stores read_media)
    {x₀ : σ} (h : l.Inv read_media b x₀) {a : Live.Act} (hg : l.Guard a)
    (hs : l.step read_media a = some l') : l'.Inv read_media b x₀ := by
  obtain ⟨bs, hrun⟩ := Live.step_senders hg hs
  have hsenders : SendersInv b l'.senders :=
    hrun.invariant (fun _ _ _ hi hg hs => hi.step hn hb hg hs) h.senders
  refine ⟨hsenders, ?_⟩
  have hgiven := h.given
  cases a with
  | getslot mem =>
    simp only [Live.step] at hs
    split_ifs at hs with hstage
    obtain ⟨p, hp, rfl⟩ := Option.map_eq_some_iff.mp hs
    have hlog : p.log = l.senders.pool.log := by
      simp only [Pool.step, Option.some.injEq] at hp
      rw [← hp]
    have hafter : (l.withPool p .taken).pending = [] := pending_taken rfl
    rw [pending_between hstage] at hgiven
    rw [hafter]
    simpa [Live.withPool, hlog] using hgiven
  | read =>
    simp only [Live.step] at hs
    split at hs
    · rename_i i r hstage hslot hr
      rw [pending_taken hstage, List.append_nil] at hgiven
      exact read_given hstores hslot hr hgiven (Option.some.inj hs).symm
    · rename_i r hstage hslot hr
      split_ifs at hs with hnull
      cases hs
      have hafter : (⟨l.senders, .between, r.state⟩ : Live σ).pending = [] := pending_between rfl
      have hnext := hgiven.call hr
      rw [pending_taken hstage, yield_null hnull, List.append_nil] at hnext
      rw [hafter]
      exact hnext
    · cases hs
  | commit =>
    simp only [Live.step] at hs
    split at hs
    · rename_i mtime marker i hstage hslot
      split_ifs at hs with hsize
      · cases hs
        have hbefore : l.pending = [] := by simp [Live.pending, hstage, hslot, hsize]
        have hafter : ({ l with stage := .between } : Live σ).pending = [] := pending_between rfl
        rw [hbefore] at hgiven
        rw [hafter]
        exact hgiven
      · obtain ⟨p, hp, rfl⟩ := Option.map_eq_some_iff.mp hs
        obtain ⟨cs, hpool⟩ := h.senders.run
        have hlog := commit_pending (PoolInv.run hb hpool) hstage hslot hsize hg hp
        have hafter : (l.withPool p .between).pending = [] := pending_between rfl
        rw [← hlog] at hgiven
        rw [hafter, List.append_nil]
        exact hgiven
    · cases hs
  | session a =>
    obtain ⟨st, hst, rfl⟩ := Option.map_eq_some_iff.mp hs
    have hsame := session_untouched a.2 hst
    rw [session_pending hsame]
    simpa [hsame.log] using hgiven

theorem Live.Inv.of_run (hn : 2 ≤ n) (hb : OMSbuff.new n = some b) (hstores : Stores read_media)
    {x₀ : σ} {as : List Live.Act}
    (h : GuardedRun (Live.step read_media) Live.Guard (Live.init b x₀) as l) :
    l.Inv read_media b x₀ :=
  h.invariant (fun _ _ _ hi hg hs => hi.step hn hb hstores hg hs) (.init b x₀)

end Steps

/-! ### `get_frame` and `RTP_send_packet` as runs -/

section Calls

variable {σ : Type} {mem : Bool} {read_media : σ → Option (MediaRead σ)}

theorem getslot_step {p q : Pool} {o : Option ℕ} (h : (poolOps mem).getslot p = some (o, q)) :
    p.step (.getslot mem) = some q ∧ q.slot = o := by
  cases h
  exact ⟨rfl, rfl⟩

theorem commit_step {p : Pool} (h : Held p) {i : ℕ} (hs : p.slot = some i) (mtime marker : ℕ) :
    p.step (.commit mtime marker) = some ((poolOps mem).commit p i mtime marker) := by
  obtain ⟨q, hq⟩ : ∃ q, p.step (.commit mtime marker) = some q := by
    have hnext := congrArg OMSbuff.Data.slot (h i hs)
    simp only [Pool.step, hs, Option.bind_some, OMSbuff.write, if_pos hnext]
    exact ⟨_, rfl⟩
  simp [poolOps, hq]

theorem turn_run {st : Senders} {x : σ} {p : Pool} {i : ℕ} {r : MediaRead σ}
    (hs : (poolOps mem).getslot st.pool = some (some i, p)) (hr : read_media x = some r)
    (hok : r.res = errNoerror) :
    exec (Live.step read_media) ⟨st, .between, x⟩ [.getslot mem, .read, .commit] =
      some ⟨{ st with pool := (iterated (poolOps mem) p i r).1 }, .between, r.state⟩ := by
  have hheld := (getslot_held hs).2.1
  obtain ⟨hp, hslot⟩ := getslot_step hs
  obtain ⟨hh, hfslot, -, -⟩ := @filled_pool σ mem _ hheld _ hslot r
  have hfilled : filled (poolOps true) p i r = filled (poolOps mem) p i r := rfl
  simp only [exec_cons, Live.step, hp, Live.withPool, Option.map_some, Option.bind_some, if_true,
    hslot, hr, hok, hfilled, hfslot, exec_nil]
  by_cases hd : (poolOps mem).dataSize (filled (poolOps mem) p i r) i = 0
  · have hd' : ((filled (poolOps mem) p i r).buffer.slots i).dataSize = 0 := hd
    simp [hd', iterated, hd]
  · have hd' : ¬ ((filled (poolOps mem) p i r).buffer.slots i).dataSize = 0 := hd
    simp [hd', iterated, hd, @commit_step mem _ hh _ hfslot]

theorem get_frame_run {fuel : ℕ} {st : Senders} {q : Pool} {x y : σ} {res : ℤ} {k : ℕ}
    (h : get_frame (poolOps mem) read_media fuel st.pool x = some (.returned res q y k)) :
    ∃ as, exec (Live.step read_media) ⟨st, .between, x⟩ as =
      some ⟨{ st with pool := q }, .between, y⟩ := by
  induction fuel generalizing st x k with
  | zero => cases h
  | succ fuel ih =>
    cases hs : (poolOps mem).getslot st.pool with
    | none => simp [get_frame, hs] at h
    | some slot =>
      obtain ⟨o, p⟩ := slot
      obtain ⟨hp, ho⟩ := getslot_step hs
      cases hr : read_media x with
      | none => cases o <;> simp [get_frame, hs, hr] at h
      | some r =>
        cases o with
        | none =>
          simp only [get_frame, hs, hr] at h
          split_ifs at h with hnull
          · cases h
          · cases h
            refine ⟨[.getslot mem, .read], ?_⟩
            simp only [exec_cons, Live.step, hp, Live.withPool, Option.map_some, Option.bind_some,
              if_true, ho, hr, if_neg hnull, exec_nil]
        | some i =>
          by_cases hok : r.res = errNoerror
          · have hturn := @turn_run σ mem read_media st x p i r hs hr hok
            rw [get_frame_step hs hr hok] at h
            split_ifs at h with hrecall
            · obtain ⟨out, hout, hadd⟩ := Option.map_eq_some_iff.mp h
              cases out with
              | crashed => cases hadd
              | returned res' q' y' k' =>
                simp only [Frame.add, Frame.returned.injEq] at hadd
                obtain ⟨rfl, rfl, rfl, rfl⟩ := hadd
                obtain ⟨as, has⟩ :=
                  @ih { st with pool := (iterated (poolOps mem) p i r).1 } r.state k' hout
                exact ⟨_, exec_append hturn has⟩
            · cases h
              exact ⟨_, hturn⟩
          · simp only [get_frame, hs, hr, if_neg hok] at h
            cases h
            refine ⟨[.getslot mem, .read], ?_⟩
            simp only [exec_cons, Live.step, hp, Live.withPool, Option.map_some, Option.bind_some,
              if_true, ho, hr, if_neg hok, exec_nil]
            rfl

theorem sendLoop_live (stage : Stage) (x : σ) {i : ℕ} {sTime : ℤ} {fuel : ℕ} {st t : Senders}
    (h : sendLoop i sTime fuel st = some t) :
    ∃ as, exec (Live.step read_media) ⟨st, stage, x⟩ as = some ⟨t, stage, x⟩ := by
  induction fuel generalizing st with
  | zero =>
    cases h
    exact ⟨[], rfl⟩
  | succ fuel ih =>
    have hsession : ∀ {u v : Senders} (a : {a : Act // IsSession a}), u.step a.1 = some v →
        exec (Live.step read_media) ⟨u, stage, x⟩ [.session a] = some ⟨v, stage, x⟩ := by
      intro u v a ha
      simp [exec_cons, Live.step, ha]
    simp only [sendLoop, Option.bind_eq_some_iff] at h
    obtain ⟨u, hget, h⟩ := h
    have hu := hsession ⟨.getreader i, trivial⟩ hget
    split at h
    · simp only [Option.bind_eq_some_iff] at h
      obtain ⟨v, hgot, h⟩ := h
      have hv := exec_append hu (hsession ⟨.gotreader i, trivial⟩ hgot)
      split at h
      · cases h
      · split at h
        · cases h
          exact ⟨_, hv⟩
        · obtain ⟨as, has⟩ := ih h
          exact ⟨_, exec_append hv has⟩
    · cases h
      exact ⟨_, hu⟩

theorem playAction_run {sTime : σ → ℤ} {fuel i : ℕ} {st t : Senders} {x y : σ} {res : ℤ}
    (h : playAction mem read_media sTime fuel i st x = some (res, t, y)) :
    ∃ as, exec (Live.step read_media) ⟨st, .between, x⟩ as = some ⟨t, .between, y⟩ := by
  obtain ⟨cl, -, h⟩ := Option.bind_eq_some_iff.mp h
  dsimp only at h
  split at h
  · split at h
    · rename_i res' p y' k hf
      obtain ⟨as, has⟩ := get_frame_run hf
      split_ifs at h
      · cases h
        exact ⟨as, has⟩
      · obtain ⟨u, hu, he⟩ := Option.map_eq_some_iff.mp h
        cases he
        obtain ⟨bs, hbs⟩ := @sendLoop_live σ read_media .between y _ _ _ _ _ hu
        exact ⟨_, exec_append has hbs⟩
    · cases h
  · obtain ⟨u, hu, he⟩ := Option.map_eq_some_iff.mp h
    cases he
    exact sendLoop_live .between x hu

end Calls

/-! ### What the sessions send -/

/-- The packets that a session has sent, with the marker bit of the header. -/
def Session.parcels (s : Session) : List Parcel :=
  s.sent.map fun x => ⟨x.1.timestamp, x.2.marker, x.1.data.take x.1.dataSize⟩

theorem SessionInv.parcels_eq {log : List Packet} {cl : Client} {s : Session}
    (h : SessionInv log cl s) : s.parcels = (s.sent.map Prod.fst).map parcel := by
  rw [Session.parcels, List.map_map]
  refine List.map_congr_left fun x hx => ?_
  cases hsent : s.sent with
  | nil => simp [hsent] at hx
  | cons x₀ rest =>
    have hhead := h.headers x₀ (by simp [hsent]) x hx
    simp [hhead, Session.header, parcel]

section Sessions

variable {σ : Type} {read_media : σ → Option (MediaRead σ)} {l : Live σ} {n : ℕ} {b : OMSBuffer}

theorem Live.Inv.stretch (hn : 2 ≤ n) (hb : OMSbuff.new n = some b) {x₀ : σ}
    (h : l.Inv read_media b x₀) {i : ℕ} {s : Session} {cl : Client}
    (hs : l.senders.sessions[i]? = some s) (hcl : l.senders.pool.clients[i]? = some cl) :
    ∃ out, Given read_media x₀ out l.media ∧ cl.first - 1 + s.sent.length ≤ out.length ∧
      s.parcels = (out.drop (cl.first - 1)).take s.sent.length := by
  have hi := h.senders.each i s cl hs hcl
  have hstretch := hi.stretch
  have hlen : s.sent.length ≤ (l.senders.pool.log.drop (cl.first - 1)).length := by
    have := congrArg List.length hstretch
    rw [List.length_map, List.length_take] at this
    omega
  obtain ⟨bs, hrun⟩ := h.senders.run
  have hfirst :=
    (BufferPool.Delivered.consumed (run_recorded hn hb hrun).2.2 (List.mem_of_getElem? hcl)).1
  rw [List.length_drop] at hlen
  refine ⟨_, h.given, ?_, ?_⟩
  · rw [List.length_append, List.length_map]
    omega
  · rw [hi.parcels_eq, hstretch, List.map_take, List.map_drop, List.drop_append,
      List.take_append_of_le_length (by simpa using hlen)]

/-- Whatever the order of the steps, a session sends the packets of the reader one after the
other, from the one at which it has joined. -/
theorem session_stretch (hn : 2 ≤ n) (hb : OMSbuff.new n = some b) (hstores : Stores read_media)
    {x₀ : σ} {as : List Live.Act}
    (h : GuardedRun (Live.step read_media) Live.Guard (Live.init b x₀) as l) {i : ℕ} {s : Session}
    {cl : Client} (hs : l.senders.sessions[i]? = some s)
    (hcl : l.senders.pool.clients[i]? = some cl) :
    ∃ out, Given read_media x₀ out l.media ∧ cl.first - 1 + s.sent.length ≤ out.length ∧
      s.parcels = (out.drop (cl.first - 1)).take s.sent.length :=
  (Live.Inv.of_run hn hb hstores h).stretch hn hb hs hcl

end Sessions

theorem cutShort_stores : Stores cutShort := by
  intro x r hr hok
  cases x with
  | nil =>
    cases hr
    cases hok
  | cons data rest =>
    cases hr
    rfl

/-- The second session joins while the second packet is in its slot. -/
def joinWhileFilled : List Live.Act :=
  [.session ⟨.play 1 1 1 ⟨32, some 90000⟩, trivial⟩, .getslot true, .read, .commit,
    .session ⟨.getreader 0, trivial⟩, .session ⟨.gotreader 0, trivial⟩, .getslot true, .read,
    .session ⟨.play 5 1 2 ⟨32, some 90000⟩, trivial⟩, .commit, .session ⟨.getreader 1, trivial⟩,
    .session ⟨.gotreader 1, trivial⟩, .session ⟨.getreader 0, trivial⟩,
    .session ⟨.gotreader 0, trivial⟩, .getslot true, .read, .commit,
    .session ⟨.getreader 1, trivial⟩, .session ⟨.gotreader 1, trivial⟩]

theorem joinWhileFilled_run : ∃ b l s, ∃ cl : Client, OMSbuff.new 2 = some b ∧
    GuardedRun (Live.step cutShort) Live.Guard (Live.init b [[1], [2], [3]]) joinWhileFilled l ∧
    l.senders.sessions[1]? = some s ∧ l.senders.pool.clients[1]? = some cl ∧
    s.parcels = [⟨40, 0, [1]⟩, ⟨40, 0, [2]⟩] := by
  refine ⟨_, _, _, _, rfl, GuardedRun.of_allowed ?_
    (rfl : exec (Live.step cutShort) _ joinWhileFilled = _), rfl, rfl, ?_⟩
  · decide
  · decide

theorem session_stretch_joined : ∃ b l, ∃ s : Session, ∃ cl : Client, OMSbuff.new 2 = some b ∧
    exec (Live.step cutShort) (Live.init b [[1], [2], [3]]) joinWhileFilled = some l ∧
    s.parcels = [⟨40, 0, [1]⟩, ⟨40, 0, [2]⟩] ∧
    ∃ out, Given cutShort [[1], [2], [3]] out l.media ∧
      cl.first - 1 + s.sent.length ≤ out.length ∧
      s.parcels = (out.drop (cl.first - 1)).take s.sent.length := by
  obtain ⟨b, l, s, cl, hb, hrun, hs, hcl, hparcels⟩ := joinWhileFilled_run
  exact ⟨b, l, s, cl, hb, hrun.exec_eq, hparcels,
    session_stretch le_rfl hb cutShort_stores hrun hs hcl⟩

end Fenice.Rtp
