import Fenice.Rtsp.Readers

/-!
# A packet buffer and its users

The sessions of a live source share its entry. A buffer is freed with the last consumer
it has, but a session that was set up has none before it is played.
-/

namespace Fenice.Rtsp
open Fenice.CString Fenice.Schedule Fenice.Run

/-- The buffer of every session that owns its medium is there. -/
def Outlives (st : Streams) : Prop :=
  ∀ s r, st.session s = some r → r.isMulticastDad = true →
    ∃ b n, (st.media r.currentMedia).pktBuffer = some b ∧ st.refs b = some n

/-- A buffer that is freed in this step was not that of a medium still in use. -/
def FreesUnused (st st' : Streams) : Prop :=
  ∀ m b n, (st.media m).pktBuffer = some b → st.refs b = some n → st'.refs b = none →
    ∀ t q, st'.session t = some q → q.isMulticastDad = true → q.currentMedia ≠ m

structure LifetimeInv (st : Streams) : Prop extends st.Readers where
  outlives : Outlives st

namespace LifetimeInv

variable {st st' : Streams}

theorem init (port : ℤ) : LifetimeInv (Streams.init port) where
  toReaders := .init port
  outlives := by simp [Outlives, Streams.init, Streams.session]

theorem kept (h : LifetimeInv st) (hk : st.Kept st') : LifetimeInv st' where
  toReaders := h.toReaders.kept hk
  outlives := by
    intro s r' hr hdad
    obtain ⟨r, hr', hm, -, hd⟩ := hk.session_back hr
    rw [hk.pktBuffer, ← hm]
    simp only [hk.refs]
    exact h.outlives s r hr' (hd.trans hdad)

theorem started (h : LifetimeInv st) {s b n : ℕ} {r : RTPSession} (hr : st.session s = some r)
    (hb : (st.media r.currentMedia).pktBuffer = some b) (hn : st.refs b = some n)
    (hlt : n < 65535) :
    LifetimeInv ((st.setRefs b (some (BufferPool.incr16 n))).setSession s
      (some { r with cons := some b, pause := false, started := true })) where
  toReaders := h.toReaders.started hr hb hn hlt
  outlives := by
    obtain ⟨hsession, hrefs, -⟩ := Streams.started_views
      { r with cons := some b, pause := false, started := true } hr hn rfl
    intro t q hq hdad
    rw [hsession] at hq
    split at hq
    · cases hq
      exact ⟨b, _, hb, (hrefs b).trans (if_pos rfl)⟩
    · obtain ⟨c, k, hc, hk⟩ := h.outlives t q hq hdad
      by_cases hcb : c = b
      · exact ⟨c, _, hc, (hrefs c).trans (if_pos hcb)⟩
      · exact ⟨c, k, hc, (hrefs c).trans ((if_neg hcb).trans hk)⟩

theorem switched (h : LifetimeInv st) {s m : ℕ} {r : RTPSession} (hr : st.session s = some r)
    (hfree : st.SwitchFree s r m) : LifetimeInv (st.stream_switch s r m) where
  toReaders := h.toReaders.switched hr hfree
  outlives := by
    intro t q hq hdad
    rw [Streams.session_switch hr] at hq
    split at hq
    · cases hq
      obtain ⟨b, n, hb, hn⟩ := h.outlives s r hr hdad
      exact ⟨b, n, by rw [Streams.switch_media hfree.1, if_pos rfl, hb], hn⟩
    · rename_i hts
      rw [hfree.other hts hq]
      exact h.outlives t q hq hdad

theorem destroyed (h : LifetimeInv st) {s b n : ℕ} {r : RTPSession}
    (hr : st.session s = some r) (hd : st.Destroyed st' s r b n)
    (hused : 0 < (st.setSession s none).consumers b ∨
      ∀ t q, t ≠ s → st.session t = some q → q.isMulticastDad = true →
        (st.media q.currentMedia).pktBuffer ≠ some b) : LifetimeInv st' where
  toReaders := h.toReaders.destroyed hr hd
  outlives := by
    intro t q hq hdad
    rw [hd.session hr] at hq
    split at hq
    · cases hq
    · rename_i hts
      obtain ⟨c, k, hc, hk⟩ := h.outlives t q hq hdad
      have hfreed : ¬ (Streams.refsWithout n b r.cons = 0 ∧ c = b) := by
        rintro ⟨hz, rfl⟩
        rcases hused with hread | hno
        · exact h.read_not_freed hr hread hd.count hz
        · exact hno t q hts hq hdad hc
      refine ⟨c, Streams.refsWithout k c r.cons, ?_, ?_⟩
      · rw [hd.media]
        split
        · rename_i hz
          rw [hz.2, hd.buffer] at hc
          exact absurd ⟨hz.1, (Option.some.inj hc).symm⟩ hfreed
        · exact hc
      · rw [hd.refs, if_neg hfreed, hk]
        rfl

theorem entered (h : LifetimeInv st) {source : ℕ} {r : RTPSession}
    (he : st.Entered st' source r)
    (hsource : r.isMulticastDad = true → ∀ b, (st.media source).pktBuffer = some b →
      ∃ n, st.refs b = some n) : LifetimeInv st' where
  toReaders := h.toReaders.entered he
  outlives := by
    intro t q hq hdad
    rw [he.session] at hq
    split at hq
    · cases hq
      obtain ⟨b, hb⟩ := he.dad hdad
      have hold : (st.media source).pktBuffer = some b → ∃ b n,
          (st'.media r.currentMedia).pktBuffer = some b ∧ st'.refs b = some n := by
        intro hs
        obtain ⟨n, hn⟩ := hsource hdad b hs
        exact ⟨b, n, hb, he.refs_kept hn⟩
      rcases he.pktBuffer _ b hb with hprev | ⟨-, -, hs | ⟨hnew, hlen⟩⟩
      · rcases he.medium with hm | ⟨hm, -⟩
        · rw [hm, Streams.pktBuffer_length] at hprev
          cases hprev
        · exact hold (hm ▸ hprev)
      · exact hold hs
      · refine ⟨b, 0, hb, ?_⟩
        rw [Streams.refs, hnew, hlen]
        simp
    · obtain ⟨b, n, hb, hn⟩ := h.outlives t q hq hdad
      exact ⟨b, n, he.kept _ b hb, he.refs_kept hn⟩

end LifetimeInv

/-- A sweep takes a buffer away only from its last user: somebody else has a consumer of
it, or nobody else has it as the buffer of its medium. -/
def SweepsUnused (st : Streams) : Prop :=
  ∀ i ∈ st.position, (st.sched i).valid = false → ∀ p ∈ st.held i, p.2.isMulticastDad = true →
    ∀ b ∈ (st.media p.2.currentMedia).pktBuffer,
      0 < (st.setSession p.1 none).consumers b ∨
        ∀ t < st.heap.length, t ≠ p.1 → ∀ q ∈ st.session t, q.isMulticastDad = true →
          (st.media q.currentMedia).pktBuffer ≠ some b

instance (st : Streams) : Decidable (SweepsUnused st) := by
  unfold SweepsUnused
  infer_instance

/-- The medium a SETUP copies or shares has no buffer that was freed. -/
def CopiesAlive (st : Streams) (m : ℕ) (c : Chosen) : Prop :=
  c.dad = true → ∀ b ∈ (st.media m).pktBuffer, (st.refs b).isSome = true

instance (st : Streams) (m : ℕ) (c : Chosen) : Decidable (CopiesAlive st m c) := by
  unfold CopiesAlive
  infer_instance

def TakesNoBuffer (st : Streams) : Call → Prop
  | .start id => CountFits st id
  | .tick turn => SwitchesFree st turn ∧ SweepsUnused st
  | .setup w inp rtsp _ d m tkns =>
    ∀ c ∈ reachesAdd w inp rtsp d m tkns st, CopiesAlive st m c
  | _ => True

instance (st : Streams) (c : Call) : Decidable (TakesNoBuffer st c) :=
  match c with
  | .start id => inferInstanceAs (Decidable (CountFits st id))
  | .tick turn => inferInstanceAs (Decidable (SwitchesFree st turn ∧ SweepsUnused st))
  | .setup w inp rtsp _ d m tkns =>
    inferInstanceAs (Decidable (∀ c ∈ reachesAdd w inp rtsp d m tkns st, CopiesAlive st m c))
  | .look .. | .resume _ | .pause _ | .remove _ => isTrue trivial

theorem LifetimeInv.call {st st' : Streams} (h : LifetimeInv st) {c : Call}
    (hg : TakesNoBuffer st c) (hs : callStep st c = some st') : LifetimeInv st' := by
  cases call_change hs with
  | kept same => exact h.kept same
  | started i s r b n hi hholds hr hb hn =>
    exact h.started hr hb hn (hg i hi (s, r) (Streams.held_eq.mpr ⟨hholds, hr⟩) b hb n hn)
  | switched i s r m hpos hv hholds hr hp hsw same =>
    have hheld := Streams.held_eq.mpr ⟨hholds, hr⟩
    exact (h.switched hr (hg.1 i hpos hv (s, r) hheld hp m hsw)).kept same
  | destroyed i s r hpos hv hholds hr hdad hd same =>
    have hheld := Streams.held_eq.mpr ⟨hholds, hr⟩
    obtain ⟨b, n, hdes⟩ := Streams.destroy_views hd
    refine (h.destroyed hr hdes ?_).kept same
    rcases hg.2 i hpos hv (s, r) hheld hdad b hdes.buffer with hread | hno
    · exact Or.inl hread
    · exact Or.inr fun t q hts hq => hno t (Streams.lt_of_session hq) hts q hq
  | entered r he hreach =>
    refine h.entered he fun hdad b hb => ?_
    obtain ⟨c, hc, hcdad⟩ := hreach hdad
    exact Option.isSome_iff_exists.mp (hg c hc hcdad b hb)

theorem freed_cases {st st' : Streams} {c : Call} (hs : callStep st c = some st') {b n : ℕ}
    (hn : st.refs b = some n) (hfreed : st'.refs b = none) :
    ∃ s r t b' n', st.session s = some r ∧ st.Destroyed t s r b' n' ∧ t.Kept st' := by
  cases call_change hs with
  | kept same =>
    rw [same.refs, hn] at hfreed
    cases hfreed
  | started i s r b' n' hi hholds hr hb hn' =>
    obtain ⟨-, hrefs, -⟩ := Streams.started_views
      { r with cons := some b', pause := false, started := true } hr hn' rfl
    have h := (hrefs b).symm.trans hfreed
    split at h
    · cases h
    · rw [hn] at h
      cases h
  | switched i s r m hpos hv hholds hr hp hsw same =>
    have h : st.refs b = none := (same.refs b).symm.trans hfreed
    rw [hn] at h
    cases h
  | @destroyed _ t _ i s r hpos hv hholds hr hdad hd same =>
    obtain ⟨b', n', hdes⟩ := Streams.destroy_views hd
    exact ⟨s, r, t, b', n', hr, hdes, same⟩
  | entered r he hreach =>
    rw [he.refs_kept hn] at hfreed
    cases hfreed

theorem LifetimeInv.freesUnused {st st' : Streams} (h' : LifetimeInv st') {c : Call}
    (hs : callStep st c = some st') : FreesUnused st st' := by
  rintro m b n hb hn hfreed t q hq hdad rfl
  obtain ⟨b', n', hb', hn'⟩ := h'.outlives t q hq hdad
  obtain ⟨s, r, u, d, k, hr, hdes, hkept⟩ := freed_cases hs hn hfreed
  -- a medium keeps its buffer or has none
  have hmedia : (u.media q.currentMedia).pktBuffer = some b' := by rw [← hkept.pktBuffer, hb']
  rw [hdes.media] at hmedia
  split at hmedia
  · cases hmedia
  · rw [hb] at hmedia
    cases hmedia
    rw [hfreed] at hn'
    cases hn'

/-- In a run in which no step takes a buffer away from a session, every session that owns
its medium finds its buffer, and a buffer is freed only when nobody uses the medium. -/
theorem buffers_outlive {port : ℤ} {cs : List Call} {st : Streams}
    (h : GuardedRun callStep TakesNoBuffer (Streams.init port) cs st) :
    Outlives st ∧ ∀ c st', TakesNoBuffer st c → callStep st c = some st' → FreesUnused st st' := by
  have hstep : ∀ s c t, LifetimeInv s → TakesNoBuffer s c → callStep s c = some t →
      LifetimeInv t := fun _ _ _ hi hg hs => hi.call hg hs
  have hinv := h.invariant hstep (LifetimeInv.init port)
  exact ⟨hinv.outlives, fun c st' hg hs => (hinv.call hg hs).freesUnused hs⟩

/-- A presentation with one live stream. -/
def radio : SDFile where
  streams := [{ filename := lit "live.mp3", live := true, encodingName := lit "MPA" }]

def lookRadio : Call := .look (lit "film.sd") (.parsed radio)

/-- Two listeners; the first one leaves when the second one has been played. -/
def leftRun : List Call :=
  [lookRadio, setupUnicast 0, setupUnicast 0, .start 0, .start 1, .remove 0, .tick ⟨true, none, 0⟩,
    .tick ⟨true, none, 0⟩]

theorem buffers_outlive_left :
    ∃ st, exec callStep (Streams.init rtpDefaultPort) leftRun = some st ∧ Outlives st ∧
      ∀ c st', TakesNoBuffer st c → callStep st c = some st' → FreesUnused st st' := by
  have hrun : allowed callStep TakesNoBuffer (Streams.init rtpDefaultPort) leftRun = true := by
    decide +kernel
  exact ⟨_, exec_reached (by decide +kernel),
    buffers_outlive (.of_allowed hrun (exec_reached (by decide +kernel)))⟩

/-- The second listener has only been set up when the first one leaves. -/
def leftEarly : List Call :=
  [lookRadio, setupUnicast 0, setupUnicast 0, .start 0, .remove 0, .tick ⟨true, none, 0⟩,
    .tick ⟨true, none, 0⟩]

theorem listener_loses_buffer :
    ¬ ∀ (cs : List Call) (st : Streams),
      exec callStep (Streams.init rtpDefaultPort) cs = some st → Outlives st := by
  intro h
  have hout := h leftEarly _ (exec_reached (by decide +kernel))
  have hnone : ((reached leftEarly).media 0).pktBuffer = none := by decide +kernel
  have hsession : ((reached leftEarly).session 1).any
      (fun r => r.isMulticastDad && r.currentMedia == 0) = true := by decide +kernel
  obtain ⟨r, hr, hr'⟩ := (Option.any_eq_true _ _).mp hsession
  simp only [Bool.and_eq_true, beq_iff_eq] at hr'
  obtain ⟨b, n, hb, -⟩ := hout 1 r hr hr'.1
  rw [hr'.2, hnone] at hb
  cases hb

end Fenice.Rtsp
