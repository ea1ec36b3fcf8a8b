import Fenice.Lib.Broadcast
import Fenice.BufferPool.References

/-!
# Delivery

In a buffer made with two slots or more every guarded run is a run of a log
with independent readers: a commit publishes, a registration joins at the slot
of `valid_read_pos`, and a consumer step takes the next item of the log.
-/

namespace Fenice.BufferPool
open Fenice.Run Fenice.Ring

/-- The log of commits as its readers see it. -/
def Pool.abs (p : Pool) : Broadcast.Log Packet :=
  ⟨p.log, fun i => p.clients[i]?.map fun cl => ⟨cl.first - 1, cl.got⟩⟩

/-- The ring holds what the log says, but for the slot that is being filled. -/
structure Recorded (p : Pool) : Prop where
  length : p.log.length = p.buffer.lastSeq
  numbered : ∀ i x, p.log[i]? = some x → x.slotSeq = i + 1
  kept : ∀ s < p.buffer.control.nslots, (p.buffer.slots s).slotSeq ≠ 0 → p.slot ≠ some s →
    p.log[(p.buffer.slots s).slotSeq - 1]? = some (p.buffer.slots s).packet
  place : ∀ cl ∈ p.clients, 0 < cl.first ∧ cl.first ≤ p.log.length + 1 ∧
    (cl.status ≠ .gone → cl.cursor = cl.first + cl.got.length)

section Steps

variable {n₀ : ℕ} {p : Pool} {ord : ℕ → ℕ} {z lo : ℕ}

theorem Recorded.congr (h : Recorded p) {b' : OMSBuffer} {clients : List Client}
    (hsame : SameSeqs p.buffer b')
    (hpacket : ∀ s, (b'.slots s).packet = (p.buffer.slots s).packet)
    (hplace : ∀ cl ∈ clients, 0 < cl.first ∧ cl.first ≤ p.log.length + 1 ∧
      (cl.status ≠ .gone → cl.cursor = cl.first + cl.got.length)) :
    Recorded { p with buffer := b', clients := clients } where
  length := h.length.trans hsame.lastSeq.symm
  numbered := h.numbered
  kept := by
    intro s hs hseq hslot
    rw [hpacket, hsame.seq]
    exact h.kept s (hsame.nslots ▸ hs) (hsame.seq s ▸ hseq) hslot
  place := hplace

/-- In a ring of two slots or more the slot the producer holds is not referred to. -/
theorem Inv.held_free (h : Inv n₀ p ord z lo) (hn : 2 ≤ n₀) {s : ℕ} (hs : p.slot = some s) :
    s = ord 0 ∧ (p.buffer.slots (ord 0)).refs = 0 := by
  have hh := h.held s hs
  have hfree := hh.free (hn.trans h.size)
  rw [hh.eq] at hfree
  exact ⟨hh.eq, hfree⟩

theorem Inv.next_packet (h : Inv n₀ p ord z lo) (hr : Recorded p) (hn : 2 ≤ n₀) {cl : Client}
    (hm : cl ∈ p.clients) (hst : cl.status ≠ .gone) (hown : cl.owing lo) {k : ℕ} (hz : z ≤ k)
    (hk : k < p.buffer.control.nslots)
    (hseq : (p.buffer.slots (ord k)).slotSeq = max cl.cursor lo) :
    p.slot ≠ some (ord k) ∧
      p.log[cl.first - 1 + cl.got.length]? = some (p.buffer.slots (ord k)).packet := by
  have hq := h.ring.seqs k hz hk
  have hlo := h.ring.lo_pos
  have hfree : p.slot ≠ some (ord k) := by
    intro hs
    obtain ⟨he, h0⟩ := h.held_free hn hs
    have := h.counted hm hz hk (hq ▸ owes_of_owing hown hseq)
    rw [he] at this
    omega
  refine ⟨hfree, ?_⟩
  have hlow := (h.client cl hm hst).lower (Or.inr hn) hown.covers
  obtain ⟨hpos, -, hcur⟩ := hr.place cl hm
  have hc := hcur hst
  have hk' := hr.kept _ (h.ring.bound k hk) (by omega) hfree
  rw [show cl.first - 1 + cl.got.length = (p.buffer.slots (ord k)).slotSeq - 1 by omega]
  exact hk'

/-! ### Consumers -/

theorem abs_set {i : ℕ} {cl cl' : Client} (hi : p.clients[i]? = some cl)
    (hf : cl'.first = cl.first) (b : OMSBuffer) :
    ({ p with buffer := b, clients := p.clients.set i cl' } : Pool).abs =
      { p.abs with
        readers := Function.update p.abs.readers i (some ⟨cl.first - 1, cl'.got⟩) } := by
  have hlt := (List.getElem?_eq_some_iff.mp hi).1
  simp only [Pool.abs, Broadcast.Log.mk.injEq, true_and]
  funext j
  by_cases hj : j = i
  · subst hj
    rw [Function.update_self, List.getElem?_set_self hlt, Option.map_some, hf]
  · rw [Function.update_of_ne hj, List.getElem?_set_ne (Ne.symm hj)]

theorem Recorded.set (h : Recorded p) {i : ℕ} {cl : Client} (hi : p.clients[i]? = some cl)
    (c : Client) (hf : c.first = cl.first) (hg : c.got = cl.got)
    (hc : c.status ≠ .gone → cl.status ≠ .gone ∧ c.cursor = cl.cursor) (refs : ℕ) :
    Recorded { p with
      buffer := { p.buffer with control := { p.buffer.control with refs := refs } }
      clients := p.clients.set i c } ∧
    ({ p with
      buffer := { p.buffer with control := { p.buffer.control with refs := refs } }
      clients := p.clients.set i c } : Pool).abs = p.abs := by
  constructor
  · refine h.congr ⟨rfl, rfl, fun _ => rfl, fun _ => rfl⟩ (fun _ => rfl) ?_
    intro d hm
    rcases mem_of_mem_set hm with rfl | hold
    · obtain ⟨hpos, hle, hcur⟩ := h.place cl (List.mem_of_getElem? hi)
      rw [hf, hg]
      refine ⟨hpos, hle, fun hne => ?_⟩
      obtain ⟨hst, he⟩ := hc hne
      rw [he]
      exact hcur hst
    · exact h.place d hold
  · have hreader : p.abs.readers i = some ⟨cl.first - 1, cl.got⟩ := by
      simp only [Pool.abs, hi, Option.map_some]
    rw [abs_set hi hf, hg, ← hreader, Function.update_eq_self]

theorem Inv.consume_take (h : Inv n₀ p ord z lo) (hr : Recorded p) (hn : 2 ≤ n₀) {i : ℕ}
    {cl : Client} (hi : p.clients[i]? = some cl) (hst : cl.status ≠ .gone) (hown : cl.owing lo)
    {k : ℕ} (hz : z ≤ k) (hk : k < p.buffer.control.nslots)
    (hseq : (p.buffer.slots (ord k)).slotSeq = max cl.cursor lo) :
    Recorded (p.consume i cl (ord k)) ∧
      Broadcast.Step p.abs (p.consume i cl (ord k)).abs := by
  have hm := List.mem_of_getElem? hi
  have hnext := (h.next_packet hr hn hm hst hown hz hk hseq).2
  have hlow := (h.client cl hm hst).lower (Or.inr hn) hown.covers
  have hpacket : ∀ s, ((p.consume i cl (ord k)).buffer.slots s).packet =
      (p.buffer.slots s).packet := by
    intro s
    simp only [Pool.consume, OMSbuff.take, OMSBuffer.upd_slots, OMSSlot.packet]
    split <;> rfl
  have hfirst : (cl.took p.buffer (ord k)).first = cl.first := rfl
  have hgot : (cl.took p.buffer (ord k)).got = cl.got ++ [(p.buffer.slots (ord k)).packet] := rfl
  constructor
  · refine hr.congr (consume_sameSeqs p i cl (ord k)) hpacket ?_
    intro c hc
    rcases mem_of_mem_set hc with rfl | hold
    · obtain ⟨hpos, hle, hcur⟩ := hr.place cl hm
      refine ⟨hpos, hle, fun _ => ?_⟩
      have hc' := hcur hst
      rw [took_cursor, hfirst, hgot, List.length_append, List.length_singleton]
      omega
    · exact hr.place c hold
  · unfold Pool.consume
    rw [abs_set hi hfirst]
    apply Broadcast.Step.take (r := ⟨cl.first - 1, cl.got⟩)
    · simp only [Pool.abs, hi, Option.map_some]
    · exact hnext

theorem Inv.ref_join (h : Inv n₀ p ord z lo) (hr : Recorded p) {r : OMSConsumer × OMSBuffer}
    (href : OMSbuff.ref p.buffer = some r) :
    Recorded (p.register r.1 r.2) ∧ Broadcast.Step p.abs (p.register r.1 r.2).abs := by
  obtain ⟨v, b', hv, hpos, hz, hempty, href', hctl, hsame, hpacket, -⟩ := h.ring.ref
  rw [href', Option.some.injEq] at href
  subst href
  have hfirst := h.ring.firstSeq_eq hv hpos hz
  have hlo := h.ring.lo_pos
  have hlast := h.ring.lastSeq_eq
  have hlen := hr.length
  have hle : p.buffer.firstSeq ≤ p.log.length + 1 := by
    have hfl := h.ring.fresh_le
    by_cases hzn : z < p.buffer.control.nslots
    · have := hz hzn
      omega
    · have := hempty (by omega)
      omega
  constructor
  · refine hr.congr hsame hpacket ?_
    intro c hc
    rcases List.mem_append.mp hc with hold | hnew
    · exact hr.place c hold
    · rw [List.mem_singleton] at hnew
      subst hnew
      exact ⟨by simp only; omega, hle, fun _ => rfl⟩
  · have habs : (p.register ⟨ord v, none, 0, 0, -1⟩ b').abs =
        { p.abs with
          readers := Function.update p.abs.readers p.clients.length
            (some ⟨p.buffer.firstSeq - 1, []⟩) } := by
      simp only [Pool.abs, Pool.register, Broadcast.Log.mk.injEq, true_and]
      funext j
      by_cases hj : j = p.clients.length
      · subst hj
        rw [Function.update_self, List.getElem?_concat_length, Option.map_some]
      · rw [Function.update_of_ne hj, List.getElem?_append]
        split
        · rfl
        · rw [List.getElem?_eq_none (by simp only [List.length_singleton]; omega),
            List.getElem?_eq_none (by omega)]
    rw [habs]
    apply Broadcast.Step.join
    · simp only [Pool.abs, List.getElem?_length, Option.map_none]
    · change p.buffer.firstSeq - 1 ≤ p.log.length
      omega

/-! ### The producer -/

/-- Taking a slot rewrites none that was committed, and the slot held before is
held again. -/
theorem Inv.taken_recorded (h : Inv n₀ p ord z lo) (hr : Recorded p) (hn : 2 ≤ n₀) {s : ℕ}
    {b' : OMSBuffer} (ht : Taken p.buffer (ord 0) s b') :
    Recorded { p with slot := some s, buffer := b' } := by
  have hpos := h.ring.ring.pos
  cases ht with
  | page hrefs hp =>
    have hwlt : p.buffer.control.writePos < p.buffer.control.nslots := by
      rw [h.ring.written]
      exact h.ring.bound _ (by omega)
    refine ⟨hr.length.trans (hp.lastSeq hwlt).symm, hr.numbered, ?_, hr.place⟩
    intro t ht hseq _
    change t < b'.control.nslots at ht
    rw [hp.control] at ht
    by_cases hlt : t < p.buffer.control.nslots
    · rw [hp.old t hlt] at hseq ⊢
      refine hr.kept t hlt hseq fun hs => ?_
      have := (h.held_free hn hs).2
      omega
    · exact absurd (hp.new t (by omega) ht).2.1 hseq
  | reuse v hfree =>
    refine ⟨hr.length, hr.numbered, fun t ht hseq hne => hr.kept t ht hseq fun hs => ?_, hr.place⟩
    exact hne (congrArg some (h.held_free hn hs).1.symm)

theorem Recorded.drop_slot (hr : Recorded p) (hnone : p.slot = none) {slot : Option ℕ} :
    Recorded { p with slot := slot } :=
  ⟨hr.length, hr.numbered, fun s hs hseq _ => hr.kept s hs hseq (by simp [hnone]), hr.place⟩

theorem Recorded.fill (hr : Recorded p) {s : ℕ} (hs : p.slot = some s) (f : OMSSlot → OMSSlot)
    (hf : ∀ x, (f x).slotSeq = x.slotSeq) :
    Recorded { p with buffer := p.buffer.upd s f } := by
  have hseq : ∀ t, ((p.buffer.upd s f).slots t).slotSeq = (p.buffer.slots t).slotSeq := by
    intro t
    rw [OMSBuffer.upd_slots]
    split
    · exact hf _
    · rfl
  refine ⟨hr.length.trans (hseq _).symm, hr.numbered, ?_, hr.place⟩
  intro t ht hne hslot
  have hts : t ≠ s := by
    rintro rfl
    exact hslot hs
  change ((p.buffer.upd s f).slots t).slotSeq ≠ 0 at hne
  change p.log[((p.buffer.upd s f).slots t).slotSeq - 1]? =
    some ((p.buffer.upd s f).slots t).packet
  rw [hseq] at hne ⊢
  rw [OMSBuffer.upd_slots_ne _ _ hts]
  exact hr.kept t ht hne hslot

theorem Recorded.commit (hr : Recorded p) {s : ℕ} (hs : p.slot = some s)
    (hlt : p.buffer.lastSeq + 1 < 2 ^ 64) (timestamp marker dataSize : ℕ) :
    Recorded (p.committed (OMSbuff.commitSlot p.buffer s 0 timestamp marker dataSize)) ∧
      Broadcast.Step p.abs
        (p.committed (OMSbuff.commitSlot p.buffer s 0 timestamp marker dataSize)).abs := by
  have hself := commitSlot_slots_self (s := s) timestamp marker dataSize hlt
  have hlen := hr.length
  obtain ⟨x, hx⟩ : ∃ x, x =
      ((OMSbuff.commitSlot p.buffer s 0 timestamp marker dataSize).slots s).packet := ⟨_, rfl⟩
  have hseq : x.slotSeq = p.log.length + 1 := by
    rw [hx, hself, hlen]
    rfl
  have hlog : (p.committed (OMSbuff.commitSlot p.buffer s 0 timestamp marker dataSize)).log =
      p.log ++ [x] := by
    rw [hx]
    rfl
  have hnew : (p.log ++ [x])[p.log.length]? = some x := List.getElem?_concat_length
  constructor
  · refine ⟨?_, ?_, ?_, ?_⟩
    · rw [hlog, List.length_append, List.length_singleton, hlen]
      exact (commitSlot_lastSeq timestamp marker dataSize hlt).symm
    · intro i y hy
      rw [hlog, List.getElem?_append] at hy
      split at hy
      · exact hr.numbered i y hy
      · have hi := (List.getElem?_eq_some_iff.mp hy).1
        rw [List.length_singleton] at hi
        obtain rfl : i = p.log.length := by omega
        rw [Nat.sub_self, List.getElem?_cons_zero, Option.some.injEq] at hy
        exact hy ▸ hseq
    · intro t ht hne _
      rw [hlog]
      by_cases hts : t = s
      · subst hts
        change (p.log ++ [x])[((OMSbuff.commitSlot p.buffer t 0 timestamp marker dataSize).slots
          t).slotSeq - 1]? = some ((OMSbuff.commitSlot p.buffer t 0 timestamp marker
            dataSize).slots t).packet
        rw [← hx, hself]
        change (p.log ++ [x])[p.buffer.lastSeq + 1 - 1]? = some x
        rw [Nat.add_sub_cancel, ← hlen]
        exact hnew
      · have hother := commitSlot_slots_ne (b := p.buffer) timestamp marker dataSize hts
        change ((OMSbuff.commitSlot p.buffer s 0 timestamp marker dataSize).slots t).slotSeq ≠ 0
          at hne
        change (p.log ++ [x])[((OMSbuff.commitSlot p.buffer s 0 timestamp marker dataSize).slots
          t).slotSeq - 1]? = some ((OMSbuff.commitSlot p.buffer s 0 timestamp marker
            dataSize).slots t).packet
        rw [hother] at hne ⊢
        have hk := hr.kept t ht hne (by rw [hs]; exact fun he => hts (Option.some.inj he).symm)
        rw [List.getElem?_append_left (List.getElem?_eq_some_iff.mp hk).1]
        exact hk
    · intro cl hm
      obtain ⟨hpos, hle, hcur⟩ := hr.place cl hm
      rw [hlog, List.length_append]
      exact ⟨hpos, by omega, hcur⟩
  · have habs : (p.committed (OMSbuff.commitSlot p.buffer s 0 timestamp marker dataSize)).abs =
        { p.abs with items := p.abs.items ++ [x] } := by
      simp only [Pool.abs, hlog]
      rfl
    rw [habs]
    exact .publish _ x

/-! ### Runs -/

theorem Recorded.step (h : Inv n₀ p ord z lo) (hr : Recorded p) (hn : 2 ≤ n₀) {a : Act}
    {p' : Pool} (hg : Guard p a) (hs : p.step a = some p') :
    Recorded p' ∧ Relation.ReflTransGen Broadcast.Step p.abs p'.abs := by
  cases a with
  | getslot mem =>
    cases hs
    rcases h.getslot mem with ⟨he, hrefs⟩ | ⟨s, b', ord', z', he, ht, -⟩
    · rw [he]
      refine ⟨hr.drop_slot ?_, .refl⟩
      by_contra hne
      obtain ⟨s, hs⟩ := Option.ne_none_iff_exists'.mp hne
      have := (h.held_free hn hs).2
      omega
    · rw [he]
      exact ⟨h.taken_recorded hr hn ht, .refl⟩
  | fill data dataSize =>
    obtain ⟨s, hslot, rfl⟩ := Option.map_eq_some_iff.mp hs
    exact ⟨hr.fill hslot _ fun _ => rfl, .refl⟩
  | commit timestamp marker =>
    obtain ⟨s, hslot, hw⟩ := Option.bind_eq_some_iff.mp hs
    rw [h.write_held hslot] at hw
    cases hw
    obtain ⟨hr', hstep⟩ := hr.commit hslot hg timestamp marker (p.buffer.slots s).dataSize
    exact ⟨hr', .single hstep⟩
  | write mem timestamp marker bytes dataSize =>
    simp only [Pool.step] at hs
    split at hs
    · rename_i b' hw
      cases hs
      obtain ⟨s, b₁, ord', z', rfl, ht, hlast, -⟩ := h.write_taken hw
      have hf := (h.taken_recorded hr hn ht).fill rfl
        (fun x => { x with data := bytes.take dataSize ++ x.data.drop dataSize }) fun _ => rfl
      obtain ⟨hr', hstep⟩ := hf.commit rfl
        (by rw [← hf.length, hr.length]; exact hg) timestamp marker dataSize
      exact ⟨hr', .single hstep⟩
    · rename_i b' hw
      cases hs
      rw [write_errAlloc hw]
      exact ⟨hr, .refl⟩
    · cases hs
  | ref =>
    obtain ⟨r, href, rfl⟩ := Option.map_eq_some_iff.mp hs
    obtain ⟨hr', hstep⟩ := h.ref_join hr href
    exact ⟨hr', .single hstep⟩
  | getreader i =>
    obtain ⟨cl, hi, hst, he⟩ := Pool.of_reading hs
    cases he
    rw [getreader_cons]
    obtain ⟨hr', habs⟩ := hr.set hi
      { cl with cons := { cl.cons with
        firstts := (OMSbuff.getreader p.buffer cl.cons).2.firstts } }
      rfl rfl (fun hne => ⟨hne, rfl⟩) p.buffer.control.refs
    exact ⟨hr', habs ▸ .refl⟩
  | gotreader i | read i dataSize =>
    obtain ⟨cl, hi, hst, he⟩ := Pool.of_reading hs
    cases he
    have hne : cl.status ≠ .gone := by simp [hst]
    unfold Pool.advance
    cases hsel : OMSbuff.select p.buffer cl.cons with
    | none => exact ⟨hr, .refl⟩
    | some s =>
      obtain ⟨hown, k, hz, hk, rfl, hseq⟩ :=
        h.select_next (List.mem_of_getElem? hi) hne (hg cl hi) hsel (by rw [hst]; rfl)
      obtain ⟨hr', hstep⟩ := h.consume_take hr hn hi hne hown hz hk hseq
      exact ⟨hr', .single hstep⟩
  | unref i =>
    obtain ⟨cl, hi, hst, he⟩ := Pool.of_reading hs
    simp only [OMSbuff.unrefCount, if_pos (h.readers_pos hi hst)] at he
    cases he
    obtain ⟨hr', habs⟩ := hr.set hi { cl with status := .leaving p.buffer.lastSeq } rfl rfl
      (fun _ => ⟨by simp [hst], rfl⟩) (p.buffer.control.refs - 1)
    exact ⟨hr', habs ▸ .refl⟩
  | drain i =>
    obtain ⟨cl, last, hi, hst, hend⟩ := Pool.of_leaving hs
    have hsafe := hg cl hi
    have hne : cl.status ≠ .gone := by simp [hst]
    have hm := List.mem_of_getElem? hi
    rcases hend with ⟨s, hsel, rfl⟩ | ⟨hsel, rfl⟩
    · obtain ⟨hown, k, hz, hk, rfl, hseq⟩ :=
        h.select_next hm hne hsafe.1 hsel (h.drain_covers hm hne hsafe hsel)
      obtain ⟨hr', hstep⟩ := h.consume_take hr hn hi hne hown hz hk hseq
      exact ⟨hr', .single hstep⟩
    · obtain ⟨hr', habs⟩ := hr.set hi { cl with status := .gone } rfl rfl
        (fun hne => absurd rfl hne) p.buffer.control.refs
      exact ⟨hr', habs ▸ .refl⟩

end Steps

theorem Recorded.init (b : OMSBuffer) (h : b.lastSeq = 0)
    (hz : ∀ s < b.control.nslots, (b.slots s).slotSeq = 0) : Recorded (Pool.init b) where
  length := h.symm
  numbered := fun i x hx => by cases hx
  kept := fun s hs hseq => absurd (hz s hs) hseq
  place := fun cl hm => by cases hm

theorem init_abs (b : OMSBuffer) : (Pool.init b).abs = Broadcast.empty := by
  simp only [Pool.abs, Pool.init, Broadcast.empty, List.getElem?_nil, Option.map_none]

/-- What a run reaches is recorded, and its log is the outcome of a run of the
log with readers. -/
theorem run_recorded {n : ℕ} (hn : 2 ≤ n) {b : OMSBuffer} (hb : OMSbuff.new n = some b)
    {as : List Act} {p : Pool} (h : GuardedRun Pool.step Guard (Pool.init b) as p) :
    PoolInv n p ∧ Recorded p ∧ Broadcast.Delivered p.abs := by
  let Sim : Pool → Broadcast.Log Packet → Prop :=
    fun q l => PoolInv n q ∧ Recorded q ∧ l = q.abs
  have hstart : Sim (Pool.init b) Broadcast.empty := by
    refine ⟨PoolInv.init hb, ?_, (init_abs b).symm⟩
    unfold OMSbuff.new at hb
    split at hb
    · cases hb
    · cases hb
      exact Recorded.init _ rfl fun _ _ => rfl
  have hstep : ∀ q a q' l, Sim q l → Guard q a → q.step a = some q' →
      ∃ l', Relation.ReflTransGen Broadcast.Step l l' ∧ Sim q' l' := by
    rintro q a q' l ⟨hi, hr, rfl⟩ hg hs
    obtain ⟨ord, z, lo, hinv⟩ := hi
    obtain ⟨hr', hsteps⟩ := hr.step hinv hn hg hs
    exact ⟨q'.abs, hsteps, PoolInv.step ⟨ord, z, lo, hinv⟩ hg hs, hr', rfl⟩
  obtain ⟨l, hsteps, hi, hr, rfl⟩ := h.simulation hstep hstart
  exact ⟨hi, hr, Broadcast.delivered_of_steps hsteps Broadcast.empty_delivered⟩

/-! ### Exactly once, in order -/

/-- Commits are numbered from 1. What a consumer has consumed is the stretch of
the log that begins with the slot it has to begin with, the rest of what it is
entitled to is still in the ring, and it is offered the first packet of that rest. -/
structure ExactlyOnce (p : Pool) : Prop where
  numbered : ∀ i x, p.log[i]? = some x → x.slotSeq = i + 1
  consumed : ∀ cl ∈ p.clients, 0 < cl.first ∧ cl.first - 1 + cl.got.length ≤ p.log.length ∧
    cl.got = (p.log.drop (cl.first - 1)).take cl.got.length
  consecutive : ∀ cl ∈ p.clients,
    cl.got.map Packet.slotSeq = List.range' cl.first cl.got.length
  kept : ∀ cl ∈ p.clients, ∀ q, cl.first + cl.got.length ≤ q → q ≤ p.log.length →
    cl.status.covers q = true →
    ∃ s < p.buffer.control.nslots, p.slot ≠ some s ∧ 0 < (p.buffer.slots s).refs ∧
      p.log[q - 1]? = some (p.buffer.slots s).packet
  offered : ∀ i cl, p.clients[i]? = some cl → cl.status = .reading → Guard p (.getreader i) →
    (OMSbuff.select p.buffer cl.cons).map (fun s => (p.buffer.slots s).packet) =
      p.log[cl.first - 1 + cl.got.length]?

theorem Delivered.consumed {p : Pool} (h : Broadcast.Delivered p.abs) {cl : Client}
    (hm : cl ∈ p.clients) : cl.first - 1 + cl.got.length ≤ p.log.length ∧
      cl.got = (p.log.drop (cl.first - 1)).take cl.got.length := by
  obtain ⟨i, hi⟩ := List.mem_iff_getElem?.mp hm
  exact h i ⟨cl.first - 1, cl.got⟩ (by simp only [Pool.abs, hi, Option.map_some])

theorem numbered_range {log got : List Packet} {first : ℕ} (hpos : 0 < first)
    (hnum : ∀ i x, log[i]? = some x → x.slotSeq = i + 1)
    (hgot : got = (log.drop (first - 1)).take got.length) :
    got.map Packet.slotSeq = List.range' first got.length := by
  apply List.ext_getElem?
  intro i
  rw [List.getElem?_map]
  by_cases hi : i < got.length
  · have hx : got[i]? = log[first - 1 + i]? := by
      rw [hgot, List.getElem?_take_of_lt hi, List.getElem?_drop]
    obtain ⟨x, hxi⟩ : ∃ x, got[i]? = some x := ⟨_, List.getElem?_eq_getElem hi⟩
    rw [hxi, Option.map_some, hnum (first - 1 + i) x (hx ▸ hxi), List.getElem?_range' hi]
    congr 1
    omega
  · rw [List.getElem?_eq_none (by omega), List.getElem?_eq_none (by simp; omega), Option.map_none]

theorem Inv.kept {n₀ : ℕ} {p : Pool} {ord : ℕ → ℕ} {z lo : ℕ} (h : Inv n₀ p ord z lo)
    (hr : Recorded p) (hn : 2 ≤ n₀) {cl : Client} (hm : cl ∈ p.clients) {q : ℕ}
    (hq : cl.first + cl.got.length ≤ q) (hl : q ≤ p.log.length)
    (hcov : cl.status.covers q = true) :
    ∃ s < p.buffer.control.nslots, p.slot ≠ some s ∧ 0 < (p.buffer.slots s).refs ∧
      p.log[q - 1]? = some (p.buffer.slots s).packet := by
  have hst : cl.status ≠ .gone := by
    intro hg
    rw [hg] at hcov
    cases hcov
  have hcur := (hr.place cl hm).2.2 hst
  have hlo := h.ring.lo_pos
  have hlow := (h.client cl hm hst).lower (Or.inr hn) (covers_mono hcov (by omega))
  have howes : cl.owes q = true := by
    simp only [Client.owes, hcov, Bool.true_and, decide_eq_true_eq]
    omega
  obtain ⟨i, hz, hi, hseq⟩ := h.ring.slot_of_seq (q := q) (by omega) (hr.length ▸ hl)
  have hrefs := h.counted hm hz hi (by rw [← h.ring.seqs i hz hi, hseq]; exact howes)
  have hslot : p.slot ≠ some (ord i) := by
    intro hs
    obtain ⟨he, h0⟩ := h.held_free hn hs
    rw [he] at hrefs
    omega
  have hk := hr.kept _ (h.ring.bound i hi) (by omega) hslot
  rw [hseq] at hk
  exact ⟨ord i, h.ring.bound i hi, hslot, hrefs, hk⟩

theorem Inv.offered {n₀ : ℕ} {p : Pool} {ord : ℕ → ℕ} {z lo : ℕ} (h : Inv n₀ p ord z lo)
    (hr : Recorded p) (hn : 2 ≤ n₀) {cl : Client} (hm : cl ∈ p.clients)
    (hst : cl.status = .reading) (hsafe : ReadSafe p.buffer cl.cons) :
    (OMSbuff.select p.buffer cl.cons).map (fun s => (p.buffer.slots s).packet) =
      p.log[cl.first - 1 + cl.got.length]? := by
  have hne : cl.status ≠ .gone := by simp [hst]
  obtain ⟨hpos, -, hcur⟩ := hr.place cl hm
  cases hs : OMSbuff.select p.buffer cl.cons with
  | some s =>
    obtain ⟨hown, k, hz, hk, rfl, hseq⟩ := h.select_next hm hne hsafe hs (by rw [hst]; rfl)
    exact (h.next_packet hr hn hm hne hown hz hk hseq).2.symm
  | none =>
    have hown : cl.owing lo := by
      unfold Client.owing
      rw [hst]
      rfl
    have hlast : p.log.length < cl.cursor := by
      by_contra hle
      have hk : cl.cursor ≤ p.buffer.lastSeq := by have := hr.length; omega
      obtain ⟨_, _, _, hsel, _⟩ := h.select_some hm hne hown hk hsafe
      rw [hs] at hsel
      cases hsel
    have := hcur hne
    rw [List.getElem?_eq_none (by omega), Option.map_none]

theorem exactly_once {n : ℕ} (hn : 2 ≤ n) {b : OMSBuffer} (hb : OMSbuff.new n = some b)
    {as : List Act} {p : Pool} (h : GuardedRun Pool.step Guard (Pool.init b) as p) :
    ExactlyOnce p := by
  obtain ⟨⟨ord, z, lo, hi⟩, hr, hd⟩ := run_recorded hn hb h
  refine ⟨hr.numbered, ?_, ?_, ?_, ?_⟩
  · intro cl hm
    exact ⟨(hr.place cl hm).1, Delivered.consumed hd hm⟩
  · intro cl hm
    exact numbered_range (hr.place cl hm).1 hr.numbered (Delivered.consumed hd hm).2
  · intro cl hm q hq hl hcov
    exact hi.kept hr hn hm hq hl hcov
  · intro i cl hcl hst hg
    exact hi.offered hr hn (List.mem_of_getElem? hcl) hst (hg cl hcl)

/-- Two consumers of different speed, a page behind the last slot and a lap of
the ring. -/
def lap : List Act :=
  [.ref, .ref, .getslot true, .fill [1] 1, .commit 0 0, .getreader 0, .gotreader 0,
    .getslot true, .commit 1 0, .getslot true, .fill [2] 1, .commit 2 0, .read 1 4, .gotreader 0,
    .gotreader 0, .read 1 4, .gotreader 1, .write true 3 0 [7] 1, .gotreader 0]

theorem exactly_once_lap : ∃ b p, OMSbuff.new 2 = some b ∧
    exec Pool.step (Pool.init b) lap = some p ∧ p.log.length = 4 ∧ ExactlyOnce p := by
  refine ⟨_, _, rfl, rfl, rfl, ?_⟩
  apply exactly_once (n := 2) le_rfl rfl
  apply GuardedRun.of_allowed
  case he => exact (rfl : exec Pool.step _ lap = _)
  case h => decide

/-- A consumer read slot 0 and stayed there while the producer went around and
wrote slot 0 again, then found slot 1 still referred to and added a page behind
slot 0. The slot behind the one read last is now one that was never committed,
and it is what the consumer takes. -/
def splicedBehind : List Act :=
  [.ref, .getslot true, .commit 0 0, .getslot true, .commit 1 0, .getslot true, .commit 2 0,
    .getslot true, .commit 3 0, .getslot true, .commit 4 0, .gotreader 0, .getslot true,
    .commit 5 0, .getslot true, .gotreader 0]

theorem spliced_page_consumed :
    ¬ ∀ n b as p, 2 ≤ n → OMSbuff.new n = some b → exec Pool.step (Pool.init b) as = some p →
      ExactlyOnce p := by
  intro h
  have hex := h 5 _ splicedBehind _ (by decide) rfl rfl
  exact absurd (hex.consecutive _ (List.mem_singleton.mpr rfl)) (by decide)

end Fenice.BufferPool
