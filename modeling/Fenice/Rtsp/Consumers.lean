import Fenice.Rtsp.Readers

/-!
# One consumer per session

`schedule_start` registers a consumer whenever it is called. The count of a buffer is
that of its sessions as long as it is called once for each of them.
-/

namespace Fenice.Rtsp
open Fenice.CString Fenice.Schedule Fenice.Run

/-- The count of a buffer is the number of its consumers, and a buffer of no session is
freed. -/
structure OneConsumer (st : Streams) : Prop where
  counts : ∀ b n, st.refs b = some n → n = st.consumers b
  exists_refs : ∀ s r b, st.session s = some r → r.cons = some b → ∃ n, st.refs b = some n
  used : ∀ b n, st.refs b = some n →
    ∃ s r, st.session s = some r ∧ (st.media r.currentMedia).pktBuffer = some b

structure ConsumersInv (st : Streams) : Prop extends OneConsumer st, st.Readers

namespace ConsumersInv

variable {st st' : Streams}

theorem init (port : ℤ) : ConsumersInv (Streams.init port) where
  toReaders := .init port
  counts := by simp [Streams.init, Streams.refs]
  exists_refs := by simp [Streams.init, Streams.session]
  used := by simp [Streams.init, Streams.refs]

theorem of_readers (h : st.Readers) (hc : ∀ b n, st.refs b = some n → n = st.consumers b)
    (hu : ∀ b n, st.refs b = some n →
      ∃ s r, st.session s = some r ∧ (st.media r.currentMedia).pktBuffer = some b) :
    ConsumersInv st :=
  { h with counts := hc, exists_refs := h.alive, used := hu }

theorem kept (h : ConsumersInv st) (hk : st.Kept st') : ConsumersInv st' := by
  refine of_readers (h.toReaders.kept hk) ?_ ?_
  · intro b n hn
    rw [hk.refs] at hn
    rw [hk.consumers]
    exact h.counts b n hn
  · intro b n hn
    rw [hk.refs] at hn
    obtain ⟨s, r, hr, hb⟩ := h.used b n hn
    obtain ⟨r', hr', hm, -⟩ := hk.session_forth hr
    exact ⟨s, r', hr', by rw [hm, hk.pktBuffer, hb]⟩

theorem started (h : ConsumersInv st) {s b n : ℕ} {r : RTPSession}
    (hr : st.session s = some r) (hb : (st.media r.currentMedia).pktBuffer = some b)
    (hn : st.refs b = some n) (hnone : r.cons = none) (hlt : n < 65535) :
    ConsumersInv ((st.setRefs b (some (BufferPool.incr16 n))).setSession s
      (some { r with cons := some b, pause := false, started := true })) := by
  obtain ⟨hsession, hrefs, hcons⟩ := Streams.started_views
    { r with cons := some b, pause := false, started := true } hr hn rfl
  refine of_readers (h.toReaders.started hr hb hn hlt) ?_ ?_
  · intro c k hk
    have hc := hcons c
    rw [hnone, if_neg (by simp)] at hc
    rw [hrefs] at hk
    split at hk
    · rename_i he
      subst he
      have hcount := h.counts c n hn
      have hincr := BufferPool.incr16_of_lt hlt
      rw [if_pos rfl] at hc
      cases hk
      omega
    · rename_i he
      have hcount := h.counts c k hk
      rw [if_neg he] at hc
      omega
  · intro c k hk
    obtain ⟨k₀, hk₀⟩ : ∃ k₀, st.refs c = some k₀ := by
      rw [hrefs] at hk
      split at hk
      · rename_i he
        exact ⟨n, he ▸ hn⟩
      · exact ⟨k, hk⟩
    obtain ⟨t, q, hq, hqb⟩ := h.used c k₀ hk₀
    by_cases hts : t = s
    · subst hts
      rw [hr] at hq
      cases hq
      exact ⟨t, _, (hsession t).trans (if_pos rfl), hqb⟩
    · exact ⟨t, q, (hsession t).trans ((if_neg hts).trans hq), hqb⟩

theorem switched (h : ConsumersInv st) {s m : ℕ} {r : RTPSession} (hr : st.session s = some r)
    (hfree : st.SwitchFree s r m) : ConsumersInv (st.stream_switch s r m) := by
  refine of_readers (h.toReaders.switched hr hfree) ?_ ?_
  · intro b n hn
    rw [Streams.consumers_switch hr]
    exact h.counts b n hn
  · intro b n hn
    obtain ⟨t, q, hq, hqb⟩ := h.used b n hn
    by_cases hts : t = s
    · subst hts
      rw [hr] at hq
      cases hq
      refine ⟨t, _, by rw [Streams.session_switch hr, if_pos rfl], ?_⟩
      rw [Streams.switch_media hfree.1, if_pos rfl, hqb]
    · refine ⟨t, q, by rw [Streams.session_switch hr, if_neg hts, hq], ?_⟩
      rw [hfree.other hts hq, hqb]

theorem destroyed (h : ConsumersInv st) {s b n : ℕ} {r : RTPSession}
    (hr : st.session s = some r) (hd : st.Destroyed st' s r b n) : ConsumersInv st' := by
  have hreaders := h.toReaders.destroyed hr hd
  have hcounts : ∀ c k, st'.refs c = some k → k = st'.consumers c := by
    intro c k hk
    rw [hd.refs] at hk
    split at hk
    · cases hk
    · obtain ⟨k₀, hk₀, rfl⟩ := Option.map_eq_some_iff.mp hk
      have hcount := h.counts c k₀ hk₀
      have hcons := hd.consumers hr c
      unfold Streams.refsWithout
      split
      · rename_i hrc
        rw [if_pos hrc] at hcons
        omega
      · rename_i hrc
        rw [if_neg hrc] at hcons
        omega
  refine of_readers hreaders hcounts ?_
  intro c k hk
  by_cases hpos : 0 < st'.consumers c
  · obtain ⟨t, q, hq, hqc⟩ := Streams.exists_consumer hpos
    exact ⟨t, q, hq, hreaders.own t q c hq hqc⟩
  · -- nobody reads the buffer, so it is not that of the session
    have hzero : k = 0 := by
      have := hcounts c k hk
      omega
    rw [hd.refs] at hk
    split at hk
    · cases hk
    · rename_i hfree
      obtain ⟨k₀, hk₀, he⟩ := Option.map_eq_some_iff.mp hk
      have hcb : c ≠ b := by
        rintro rfl
        rw [hd.count] at hk₀
        cases hk₀
        exact hfree ⟨he.trans hzero, rfl⟩
      obtain ⟨t, q, hq, hqc⟩ := h.used c k₀ hk₀
      have hts : t ≠ s := by
        rintro rfl
        rw [hr] at hq
        cases hq
        rw [hd.buffer] at hqc
        exact hcb (Option.some.inj hqc).symm
      refine ⟨t, q, by rw [hd.session hr, if_neg hts, hq], ?_⟩
      rw [hd.media]
      split
      · rename_i hm
        rw [hm.2, hd.buffer] at hqc
        exact absurd (Option.some.inj hqc).symm hcb
      · exact hqc

theorem entered (h : ConsumersInv st) {source : ℕ} {r : RTPSession}
    (he : st.Entered st' source r) : ConsumersInv st' := by
  have hreaders := h.toReaders.entered he
  refine of_readers hreaders ?_ ?_
  · intro b n hn
    rcases he.refs b with hold | ⟨-, hzero, -⟩
    · rw [hold] at hn
      rw [he.consumers]
      exact h.counts b n hn
    · have := hreaders.counted b 0 hzero
      rw [hzero] at hn
      cases hn
      omega
  · intro b n hn
    rcases he.refs b with hold | ⟨-, -, hb⟩
    · rw [hold] at hn
      obtain ⟨t, q, hq, hqb⟩ := h.used b n hn
      refine ⟨t, q, ?_, he.kept _ _ hqb⟩
      rw [he.session, if_neg (Nat.ne_of_lt (Streams.lt_of_session hq)), hq]
    · exact ⟨st.heap.length, r, by rw [he.session, if_pos rfl], hb⟩

end ConsumersInv

/-- A session is started once, and media that are switched to are free. -/
def StartsOnce (st : Streams) : Call → Prop
  | .start id =>
    CountFits st id ∧ ∀ i ∈ Streams.index id, ∀ p ∈ st.held i, p.2.cons = none
  | .tick turn => SwitchesFree st turn
  | _ => True

instance (st : Streams) (c : Call) : Decidable (StartsOnce st c) :=
  match c with
  | .start id =>
    inferInstanceAs (Decidable (CountFits st id ∧ ∀ i ∈ Streams.index id, ∀ p ∈ st.held i,
      p.2.cons = none))
  | .tick turn => inferInstanceAs (Decidable (SwitchesFree st turn))
  | .look .. | .setup .. | .resume _ | .pause _ | .remove _ => isTrue trivial

theorem ConsumersInv.call {st st' : Streams} (h : ConsumersInv st) {c : Call}
    (hg : StartsOnce st c) (hs : callStep st c = some st') : ConsumersInv st' := by
  cases call_change hs with
  | kept same => exact h.kept same
  | started i s r b n hi hholds hr hb hn =>
    have hheld := Streams.held_eq.mpr ⟨hholds, hr⟩
    exact h.started hr hb hn (hg.2 i hi (s, r) hheld) (hg.1 i hi (s, r) hheld b hb n hn)
  | switched i s r m hpos hv hholds hr hp hsw same =>
    have hheld := Streams.held_eq.mpr ⟨hholds, hr⟩
    exact (h.switched hr (hg i hpos hv (s, r) hheld hp m hsw)).kept same
  | destroyed i s r hpos hv hholds hr hdad hd same =>
    obtain ⟨b, n, hdes⟩ := Streams.destroy_views hd
    exact (h.destroyed hr hdes).kept same
  | entered r he _ => exact h.entered he

/-- In a run in which each session is started once, every count is that of the sessions
that read the buffer. -/
theorem one_consumer {port : ℤ} {cs : List Call} {st : Streams}
    (h : GuardedRun callStep StartsOnce (Streams.init port) cs st) : OneConsumer st := by
  have hstep : ∀ s c t, ConsumersInv s → StartsOnce s c → callStep s c = some t →
      ConsumersInv t := fun _ _ _ hi hg hs => hi.call hg hs
  exact (h.invariant hstep (ConsumersInv.init port)).toOneConsumer

/-- A session plays, pauses, plays on and is torn down; the other one is left. -/
def playedRun : List Call :=
  [lookFilm, setupUnicast 0, setupUnicast 1, .start 0, .start 1, .pause 0, .resume 0, .remove 0,
    .tick ⟨true, none, 0⟩, .tick ⟨true, none, 0⟩]

theorem one_consumer_played : ∃ st, exec callStep (Streams.init rtpDefaultPort) playedRun = some st ∧
    st.refs 0 = none ∧ st.refs 1 = some 1 ∧ OneConsumer st := by
  have hrun : allowed callStep StartsOnce (Streams.init rtpDefaultPort) playedRun = true := by
    decide +kernel
  have he := @exec_reached playedRun (by decide +kernel)
  exact ⟨_, he, by decide +kernel, by decide +kernel, one_consumer (.of_allowed hrun he)⟩

/-- PLAY of a stream by its file name, PAUSE, and the same PLAY again. -/
def playedTwice : List Call := [lookFilm, setupUnicast 0, .start 0, .pause 0, .start 0]

theorem second_start_leaks :
    ¬ ∀ (cs : List Call) (st : Streams),
      exec callStep (Streams.init rtpDefaultPort) cs = some st → OneConsumer st := by
  intro h
  have hn := h playedTwice _ (exec_reached (by decide +kernel))
  have hrefs : (reached playedTwice).refs 0 = some 2 := by decide +kernel
  have hcons : (reached playedTwice).consumers 0 = 1 := by decide +kernel
  have := hn.counts 0 2 hrefs
  omega

end Fenice.Rtsp
