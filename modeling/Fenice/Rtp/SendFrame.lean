import Fenice.Rtp.Playback

/-!
# One frame for each call (RTP_send_packet.c)

The loop of `RTP_send_packet` goes on while the next slot, counted from `firstts`, has the time
`s_time`. That is the time of the first slot, counted in the same way, if the slot was there; but
it is what the reader left in `*mtime` if `get_frame` had to be called.
-/

namespace Fenice.Playback
open Fenice.BufferPool Fenice.Mediainfo

/-- A consumer reads the slots `xs` one after the other. -/
inductive Reads : OMSBuffer → OMSConsumer → List OMSSlot → OMSBuffer → OMSConsumer → Prop
  | nil (b : OMSBuffer) (c : OMSConsumer) : Reads b c [] b c
  | cons {b b' : OMSBuffer} {c c' : OMSConsumer} {i : ℕ} {xs : List OMSSlot}
      (hs : OMSbuff.select b c = some i)
      (tail : Reads (OMSbuff.take b c i).2 (OMSbuff.take b c i).1 xs b' c') :
      Reads b c (b.slots i :: xs) b' c'

theorem Reads.unique {b b₁ b₂ : OMSBuffer} {c c₁ c₂ : OMSConsumer} {xs : List OMSSlot}
    (h₁ : Reads b c xs b₁ c₁) (h₂ : Reads b c xs b₂ c₂) : b₁ = b₂ ∧ c₁ = c₂ := by
  induction h₁ with
  | nil b c =>
    cases h₂
    exact ⟨rfl, rfl⟩
  | @cons b _ c _ i xs hs _ ih =>
    generalize hys : b.slots i :: xs = ys at h₂
    cases h₂ with
    | nil => cases hys
    | cons hs' tail' =>
      obtain rfl : i = _ := Option.some.inj (hs.symm.trans hs')
      obtain rfl := (List.cons.inj hys).2
      exact ih tail'

/-- The longest stretch of unread slots with the time of the first one. -/
def FrameRun (b : OMSBuffer) (c : OMSConsumer) (xs : List OMSSlot) : Prop :=
  ∃ b' c', Reads b c xs b' c' ∧ ∃ x rest, xs = x :: rest ∧
    (∀ y ∈ rest, y.timestamp = x.timestamp) ∧
    ∀ j, OMSbuff.select b' c' = some j → (b'.slots j).timestamp ≠ x.timestamp

/-- The loop takes a slot of time `ts` for one of the frame it sends. -/
def Continues (firstts : ℤ) (sTime : ℚ) (ts : ℕ) : Prop :=
  (ts : ℤ) - firstts ≠ -1 ∧ (((ts : ℤ) - firstts : ℤ) : ℚ) = sTime

instance (firstts : ℤ) (sTime : ℚ) (ts : ℕ) : Decidable (Continues firstts sTime ts) := by
  unfold Continues; infer_instance

section Loop

variable {σ : Type}

/-- The slot that is unread once slot `i` is read. -/
def second (p : Player σ) (i : ℕ) : Option OMSSlot :=
  let r := OMSbuff.take p.media.pktBuffer p.cons i
  (OMSbuff.select r.2 r.1).map r.2.slots

/-- What the loop decides about the slot behind slot `i` is right. -/
def Agrees (p : Player σ) (i : ℕ) (sTime : ℚ) : Prop :=
  ∀ y ∈ second p i, y.timestamp = (p.media.pktBuffer.slots i).timestamp ↔
    Continues p.cons.firstts sTime y.timestamp

instance (p : Player σ) (i : ℕ) (sTime : ℚ) : Decidable (Agrees p i sTime) := by
  unfold Agrees; infer_instance

/-- `s_time`, the slot and the session with which a call of `RTP_send_packet` enters its loop. -/
def begun (mem : Bool) (read_media : ReadMedia σ) (fuel : ℕ) (p : Player σ) :
    Option (ℚ × ℕ × Player σ) :=
  match p.getreader with
  | (some i, p) => some ((p.media.pktBuffer.slots i).timestamp - p.cons.firstts, i, p)
  | (none, p) =>
    match get_frame (localOps mem) (timed read_media) fuel p.media.pktBuffer
        (p.media.source, p.media.position) with
    | some (.returned res b (source, sTime) _) =>
      if res ≠ errNoerror then none
      else
        match Player.getreader
            { p with
              cons := { p.cons with frames := p.cons.frames + 1 }
              media := { p.media with pktBuffer := b, source } } with
        | (none, _) => none
        | (some i, p) => some (sTime, i, p)
    | _ => none

/-- The call sent all slots of one frame and no other, and moved `mtime` on once. -/
def OneFrame (mem : Bool) (read_media : ReadMedia σ) (fuel : ℕ) (p : Player σ) (sent : Sent σ) :
    Prop :=
  (∃ r ∈ begun mem read_media fuel p,
    FrameRun r.2.2.media.pktBuffer r.2.2.cons sent.packets) ∧
    sent.player.media.mtime = p.media.mtime + p.media.period

variable {p q : Player σ} {i : ℕ} {sTime : ℚ}

theorem getreader_some (h : p.getreader = (some i, q)) :
    OMSbuff.select q.media.pktBuffer q.cons = some i ∧
      (q.cons.firstts = p.cons.firstts ∧ p.cons.firstts ≠ -1 ∨
        q.cons.firstts = (q.media.pktBuffer.slots i).timestamp) := by
  unfold Player.getreader OMSbuff.getreader at h
  cases hs : OMSbuff.select p.media.pktBuffer p.cons with
  | none => simp [hs] at h
  | some j =>
    simp only [hs, Prod.mk.injEq, Option.some.injEq] at h
    obtain ⟨rfl, rfl⟩ := h
    split_ifs with hts
    · exact ⟨hs, Or.inr rfl⟩
    · exact ⟨hs, Or.inl ⟨rfl, hts⟩⟩

theorem getreader_set (hF : p.cons.firstts ≠ -1) :
    p.getreader = (OMSbuff.select p.media.pktBuffer p.cons, p) := by
  unfold Player.getreader OMSbuff.getreader
  cases hs : OMSbuff.select p.media.pktBuffer p.cons with
  | none => rfl
  | some j => simp only [if_neg hF]

theorem gotreader_some (hs : OMSbuff.select p.media.pktBuffer p.cons = some i) :
    p.gotreader = { p with
      cons := (OMSbuff.take p.media.pktBuffer p.cons i).1
      media := { p.media with pktBuffer := (OMSbuff.take p.media.pktBuffer p.cons i).2 } } := by
  simp [Player.gotreader, OMSbuff.gotreader, hs]

theorem ends_iff (p : Player σ) (sTime : ℚ) :
    (p.nextts = -1 ∨ (p.nextts : ℚ) ≠ sTime) ↔
      ∀ j, OMSbuff.select p.media.pktBuffer p.cons = some j →
        ¬ Continues p.cons.firstts sTime (p.media.pktBuffer.slots j).timestamp := by
  cases hs : OMSbuff.select p.media.pktBuffer p.cons with
  | none => simp [Player.nextts, OMSbuff.nextts, hs]
  | some j =>
    have ht : p.nextts = (p.media.pktBuffer.slots j).timestamp - p.cons.firstts := by
      simp [Player.nextts, OMSbuff.nextts, hs]
    rw [ht]
    simp only [Option.some.injEq, forall_eq', Continues, not_and_or, not_not, ne_eq]

theorem sendLoop_reads {fuel : ℕ} {r : List OMSSlot × Player σ}
    (h : sendLoop fuel sTime i p = some r)
    (hs : OMSbuff.select p.media.pktBuffer p.cons = some i) (hF : p.cons.firstts ≠ -1) :
    ∃ rest b c, r.1 = p.media.pktBuffer.slots i :: rest ∧
      Reads p.media.pktBuffer p.cons r.1 b c ∧
      (∀ y ∈ rest, Continues p.cons.firstts sTime y.timestamp) ∧
      ∀ j, OMSbuff.select b c = some j →
        ¬ Continues p.cons.firstts sTime (b.slots j).timestamp := by
  induction fuel generalizing i p r with
  | zero => cases h
  | succ fuel ih =>
    simp only [sendLoop] at h
    have hq := gotreader_some hs
    split_ifs at h with hend
    · cases h
      rw [ends_iff, hq] at hend
      exact ⟨[], _, _, rfl, .cons hs (.nil _ _), by simp, hend⟩
    · rw [ends_iff] at hend
      push Not at hend
      obtain ⟨j, hj, hcont⟩ := hend
      rw [getreader_set (by rw [hq]; exact hF), hj] at h
      obtain ⟨r', hr', rfl⟩ := Option.map_eq_some_iff.mp h
      obtain ⟨rest, b, c, hrest, hreads, hall, hlast⟩ := ih hr' hj (by rw [hq]; exact hF)
      rw [hq] at hreads hall hlast hcont hrest
      refine ⟨r'.1, b, c, rfl, .cons hs hreads, fun y hy => ?_, hlast⟩
      rw [hrest] at hy
      rcases List.mem_cons.mp hy with rfl | hy
      · exact hcont
      · exact hall y hy

/-- The loop sends a frame exactly if it is right about the second slot. -/
theorem frameRun_iff {fuel : ℕ} {r : List OMSSlot × Player σ}
    (h : sendLoop fuel sTime i p = some r)
    (hs : OMSbuff.select p.media.pktBuffer p.cons = some i) (hF : p.cons.firstts ≠ -1) :
    FrameRun p.media.pktBuffer p.cons r.1 ↔ Agrees p i sTime := by
  obtain ⟨rest, b, c, hr, hreads, hall, hlast⟩ := sendLoop_reads h hs hF
  rw [hr] at hreads
  -- what is read behind the first slot
  have hrest : Reads (OMSbuff.take p.media.pktBuffer p.cons i).2
      (OMSbuff.take p.media.pktBuffer p.cons i).1 rest b c := by
    generalize hys : p.media.pktBuffer.slots i :: rest = ys at hreads
    cases hreads with
    | nil => cases hys
    | cons hs' tail =>
      obtain rfl : i = _ := Option.some.inj (hs.symm.trans hs')
      obtain rfl := (List.cons.inj hys).2
      exact tail
  rw [hr]
  constructor
  · rintro ⟨b', c', hreads', x, rest', hx, hsame, hstop⟩ y hy
    obtain ⟨rfl, rfl⟩ := hreads.unique hreads'
    obtain ⟨rfl, rfl⟩ := List.cons.inj hx
    obtain ⟨j, hj, rfl⟩ := Option.map_eq_some_iff.mp hy
    cases hrest with
    | nil => exact iff_of_false (hstop j hj) (hlast j hj)
    | cons hs' tail =>
      obtain rfl : j = _ := Option.some.inj (hj.symm.trans hs')
      exact iff_of_true (hsame _ (List.mem_cons_self ..)) (hall _ (List.mem_cons_self ..))
  · intro hagrees
    refine ⟨b, c, hreads, _, rest, rfl, ?_⟩
    cases hrest with
    | nil =>
      refine ⟨by simp, fun j hj he => hlast j hj ((hagrees _ ?_).mp he)⟩
      exact Option.map_eq_some_iff.mpr ⟨j, hj, rfl⟩
    | @cons _ _ _ _ j _ hs' tail =>
      have hcont := hall _ (List.mem_cons_self ..)
      have hfirst := (hagrees _ (Option.map_eq_some_iff.mpr ⟨j, hs', rfl⟩)).mpr hcont
      -- every slot that goes on has the time of the second
      have htime : ∀ ts, Continues p.cons.firstts sTime ts ↔
          ts = (p.media.pktBuffer.slots i).timestamp := by
        intro ts
        rw [← hfirst]
        refine ⟨fun hts => ?_, fun he => he ▸ hcont⟩
        have := Int.cast_injective (hts.2.trans hcont.2.symm)
        omega
      exact ⟨fun y hy => (htime _).mp (hall y hy),
        fun j hj he => hlast j hj ((htime _).mpr he)⟩

end Loop

section Call

variable {σ : Type} {mem : Bool} {read_media : ReadMedia σ} {p : Player σ} {fuel : ℕ}
  {sent : Sent σ}

theorem send_begun (h : RTP_send_packet mem read_media fuel p = some sent)
    (hne : sent.packets ≠ []) :
    ∃ sTime i q r, begun mem read_media fuel p = some (sTime, i, q) ∧
      (∃ q₀ : Player σ, q₀.getreader = (some i, q)) ∧
      sendLoop fuel sTime i q = some r ∧ sent.packets = r.1 := by
  unfold RTP_send_packet at h
  split at h
  · rename_i i q hq
    obtain ⟨r, hr, rfl⟩ := Option.map_eq_some_iff.mp h
    refine ⟨_, i, q, r, ?_, ⟨p, hq⟩, hr, rfl⟩
    simp only [begun, hq]
  · rename_i q hq
    split at h
    · rename_i res b source sTime k hf
      dsimp only at h
      split_ifs at h with hres
      · cases h
        exact absurd rfl hne
      · split at h
        · cases h
          exact absurd rfl hne
        · rename_i i q' hq'
          obtain ⟨r, hr, rfl⟩ := Option.map_eq_some_iff.mp h
          refine ⟨sTime, i, q', r, ?_, ⟨_, hq'⟩, hr, rfl⟩
          simp only [begun, hq, hf, if_neg hres, hq']
    · cases h

theorem firstts_of_getreader {q₀ q : Player σ} {i : ℕ} (h : q₀.getreader = (some i, q)) :
    q.cons.firstts ≠ -1 := by
  obtain ⟨-, ⟨he, hF⟩ | he⟩ := getreader_some h
  · rwa [he]
  · omega

/-- A call that sends sends one frame exactly if it is right about the second slot. -/
theorem one_frame_iff (h : RTP_send_packet mem read_media fuel p = some sent)
    (hne : sent.packets ≠ []) :
    OneFrame mem read_media fuel p sent ↔
      ∀ r ∈ begun mem read_media fuel p, Agrees r.2.2 r.2.1 r.1 := by
  obtain ⟨sTime, i, q, r, hbegun, ⟨q₀, hq⟩, hloop, hpackets⟩ := send_begun h hne
  rw [OneFrame, hbegun, hpackets]
  simp only [Option.mem_def, Option.some.injEq, exists_eq_left', forall_eq',
    frameRun_iff hloop (getreader_some hq).1 (firstts_of_getreader hq)]
  exact and_iff_left (send_clock h hne).2

/-- For slots that were there, the loop is wrong only about a frame of several slots that is one
millisecond before `firstts`. -/
theorem agrees_consumer {q : Player σ} {i : ℕ} :
    Agrees q i ((q.media.pktBuffer.slots i).timestamp - q.cons.firstts) ↔
      ∀ y ∈ second q i, y.timestamp = (q.media.pktBuffer.slots i).timestamp →
        ((q.media.pktBuffer.slots i).timestamp : ℤ) - q.cons.firstts ≠ -1 := by
  refine forall₂_congr fun y _ => ⟨fun hiff he => ?_, fun hne => ⟨fun he => ?_, fun hc => ?_⟩⟩
  · rw [← he]
    exact (hiff.mp he).1
  · rw [he]
    exact ⟨hne he, by push_cast; rfl⟩
  · have htime := hc.2
    push_cast at htime
    exact_mod_cast sub_left_inj.mp htime

end Call

/-- A reader with a frame of two packets at time `t`. -/
def twoPackets (t : ℚ) : ReadMedia ℕ := fun n _ =>
  some ⟨errNoerror, some [1], t, n, n == 0, n + 1⟩

/-- The session that has just been started on a media with an empty buffer of four slots. -/
def sampleFirst : Player ℕ where
  cons := ⟨0, none, 0, 0, -1⟩
  mprevTxTime := 0
  pause := false
  started := true
  media := ⟨⟨40, 0, 0, 0, 0, 0⟩, ⟨⟨1, 4, 3, 0⟩, fun i => { next := (i + 1) % 4 }⟩, 0⟩

def firstCall (t : ℚ) : Option (Sent ℕ) := RTP_send_packet true (twoPackets t) 3 sampleFirst

/-- A frame at time 0 is sent by one call. -/
theorem one_frame_at_zero : ∃ sent, firstCall 0 = some sent ∧
    OneFrame true (twoPackets 0) 3 sampleFirst sent := by
  have hlen : ((firstCall 0).map fun s => s.packets.length) = some 2 := by decide +kernel
  obtain ⟨sent, hsent, hlen⟩ := Option.map_eq_some_iff.mp hlen
  have hne : sent.packets ≠ [] := by
    intro he
    rw [he] at hlen
    cases hlen
  refine ⟨sent, hsent, (one_frame_iff hsent hne).mpr fun r hr => ?_⟩
  have hagrees : ((begun true (twoPackets 0) 3 sampleFirst).map fun r =>
      decide (Agrees r.2.2 r.2.1 r.1)) = some true := by decide +kernel
  rw [hr] at hagrees
  exact of_decide_eq_true (Option.some.inj hagrees)

/-- Of a frame at 40 milliseconds the first call sends one packet of two. -/
theorem frame_torn : ∃ sent, firstCall 40 = some sent ∧ sent.packets ≠ [] ∧
    ¬ OneFrame true (twoPackets 40) 3 sampleFirst sent := by
  have hlen : ((firstCall 40).map fun s => s.packets.length) = some 1 := by decide +kernel
  obtain ⟨sent, hsent, hlen⟩ := Option.map_eq_some_iff.mp hlen
  have hne : sent.packets ≠ [] := by
    intro he
    rw [he] at hlen
    cases hlen
  refine ⟨sent, hsent, hne, fun ⟨⟨r, hr, hrun⟩, _⟩ => ?_⟩
  obtain ⟨sTime, i, q, r', hbegun, ⟨q₀, hq⟩, hloop, hpackets⟩ := send_begun hsent hne
  obtain rfl : r = (sTime, i, q) := Option.some.inj (hr.symm.trans hbegun)
  have hagrees : ((begun true (twoPackets 40) 3 sampleFirst).map fun r =>
      decide (Agrees r.2.2 r.2.1 r.1)) = some false := by decide +kernel
  rw [hbegun] at hagrees
  refine of_decide_eq_false (Option.some.inj hagrees) ?_
  rw [hpackets] at hrun
  exact (frameRun_iff hloop (getreader_some hq).1 (firstts_of_getreader hq)).mp hrun

end Fenice.Playback
