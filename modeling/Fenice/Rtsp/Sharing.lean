import Fenice.Rtsp.Lifetime

/-!
# Sessions that adapt to the bandwidth

A session starts on an entry of its own, and `stream_switch` moves it to an entry of the
presentation, which other sessions can be moved to as well.
-/

namespace Fenice.Rtsp
open Fenice.CString Fenice.Schedule Fenice.Run

/-- Two media that were made from a stored source. -/
def Stored (st : Streams) (r q : RTPSession) : Prop :=
  (st.media r.currentMedia).live = false ∧ (st.media q.currentMedia).live = false

/-- They share no entry, which has the open file, and no packet buffer. -/
def Apart (st : Streams) (r q : RTPSession) : Prop :=
  r.currentMedia ≠ q.currentMedia ∧
    ∀ b, (st.media r.currentMedia).pktBuffer = some b →
      (st.media q.currentMedia).pktBuffer ≠ some b

theorem Apart.symm {st : Streams} {r q : RTPSession} (h : Apart st r q) : Apart st q r :=
  ⟨h.1.symm, fun b hq hr => h.2 b hr hq⟩

/-- A session that plays reads the buffer its medium writes, and sessions of a stored
source share nothing. -/
structure OwnBuffers (st : Streams) : Prop where
  reads : ∀ s r, st.session s = some r → r.started = true →
    ∃ b, r.cons = some b ∧ (st.media r.currentMedia).pktBuffer = some b
  apart : ∀ s t r q, s ≠ t → st.session s = some r → st.session t = some q → Stored st r q →
    Apart st r q

structure SharingInv (st : Streams) : Prop extends st.Readers where
  consumes : ∀ s r, st.session s = some r → r.started = true → ∃ b, r.cons = some b
  apart : ∀ s t r q, s ≠ t → st.session s = some r → st.session t = some q → Stored st r q →
    Apart st r q
  medium : ∀ s r, st.session s = some r → r.currentMedia < st.entries.length
  known : ∀ m b, (st.media m).pktBuffer = some b → b < st.buffers.length

namespace SharingInv

variable {st st' : Streams}

theorem ownBuffers (h : SharingInv st) : OwnBuffers st where
  reads := by
    intro s r hr hs
    obtain ⟨b, hb⟩ := h.consumes s r hr hs
    exact ⟨b, hb, h.own s r b hr hb⟩
  apart := h.apart

theorem init (port : ℤ) : SharingInv (Streams.init port) where
  toReaders := .init port
  consumes := by simp [Streams.init, Streams.session]
  apart := by simp [Streams.init, Streams.session]
  medium := by simp [Streams.init, Streams.session]
  known := by simp [Streams.init, Streams.media]

theorem kept (h : SharingInv st) (hk : st.Kept st') : SharingInv st' where
  toReaders := h.toReaders.kept hk
  consumes := by
    intro s r' hr hs
    obtain ⟨r, hr', hstart⟩ := hk.started s r' hr hs
    obtain ⟨b, hb⟩ := h.consumes s r hr' hstart
    obtain ⟨q, hq, -, hcons, -⟩ := hk.session_back hr
    rw [hr'] at hq
    cases hq
    exact ⟨b, hcons.symm.trans hb⟩
  apart := by
    intro s t r' q' hst hr hq hstored
    obtain ⟨r, hr', hrm, -⟩ := hk.session_back hr
    obtain ⟨q, hq', hqm, -⟩ := hk.session_back hq
    unfold Stored at hstored
    rw [← hrm, ← hqm, hk.live _ (h.medium s r hr'), hk.live _ (h.medium t q hq')] at hstored
    have := h.apart s t r q hst hr' hq' hstored
    unfold Apart at this ⊢
    rw [hk.pktBuffer, hk.pktBuffer, ← hrm, ← hqm]
    exact this
  medium := by
    intro s r' hr
    obtain ⟨r, hr', hm, -⟩ := hk.session_back hr
    rw [← hm]
    exact Nat.lt_of_lt_of_le (h.medium s r hr') hk.entries
  known := by
    intro m b hb
    rw [hk.pktBuffer] at hb
    rw [hk.buffers]
    exact h.known m b hb

theorem started (h : SharingInv st) {s b n : ℕ} {r : RTPSession} (hr : st.session s = some r)
    (hb : (st.media r.currentMedia).pktBuffer = some b) (hn : st.refs b = some n)
    (hlt : n < 65535) :
    SharingInv ((st.setRefs b (some (BufferPool.incr16 n))).setSession s
      (some { r with cons := some b, pause := false, started := true })) := by
  obtain ⟨hsession, -, -⟩ := Streams.started_views
    { r with cons := some b, pause := false, started := true } hr hn rfl
  -- each session has the medium it had
  have hback : ∀ t q, ((st.setRefs b (some (BufferPool.incr16 n))).setSession s
      (some { r with cons := some b, pause := false, started := true })).session t = some q →
      ∃ p, st.session t = some p ∧ p.currentMedia = q.currentMedia := by
    intro t q hq
    rw [hsession] at hq
    split at hq
    · rename_i hts
      cases hq
      exact ⟨r, hts ▸ hr, rfl⟩
    · exact ⟨q, hq, rfl⟩
  constructor
  · exact h.toReaders.started hr hb hn hlt
  · intro t q hq hs
    rw [hsession] at hq
    split at hq
    · cases hq
      exact ⟨b, rfl⟩
    · exact h.consumes t q hq hs
  · intro t u q p htu hq hp hstored
    obtain ⟨q₀, hq₀, hqm⟩ := hback t q hq
    obtain ⟨p₀, hp₀, hpm⟩ := hback u p hp
    unfold Stored at hstored
    rw [← hqm, ← hpm] at hstored
    have := h.apart t u q₀ p₀ htu hq₀ hp₀ hstored
    unfold Apart at this ⊢
    rw [← hqm, ← hpm]
    exact this
  · intro t q hq
    obtain ⟨q₀, hq₀, hqm⟩ := hback t q hq
    rw [← hqm]
    exact h.medium t q₀ hq₀
  · intro m c hc
    have : c < st.buffers.length := h.known m c hc
    simpa [Streams.setSession, Streams.setRefs] using this

theorem live_switch {s m : ℕ} {r : RTPSession} (h : m < st.entries.length) (k : ℕ) :
    ((st.stream_switch s r m).media k).live = (st.media k).live := by
  have hset := Streams.media_setMedia h
    { st.media m with pktBuffer := (st.media r.currentMedia).pktBuffer } k
  have : (st.stream_switch s r m).media k = (st.setMedia m
    { st.media m with pktBuffer := (st.media r.currentMedia).pktBuffer }).media k := rfl
  rw [this, hset]
  split
  · rename_i hk
    rw [hk]
  · rfl

/-- `hapart`: the medium that `s` is moved to shares nothing with those of the others. -/
theorem switched (h : SharingInv st) {s m : ℕ} {r : RTPSession} (hr : st.session s = some r)
    (hfree : st.SwitchFree s r m)
    (hapart : ∀ t q, t ≠ s → st.session t = some q → (st.media m).live = false →
      (st.media q.currentMedia).live = false → q.currentMedia ≠ m ∧
        ∀ b, (st.media r.currentMedia).pktBuffer = some b →
          (st.media q.currentMedia).pktBuffer ≠ some b) :
    SharingInv (st.stream_switch s r m) := by
  have hsession := Streams.session_switch (m := m) hr
  have hmoved : ∀ t q, t ≠ s → st.session t = some q →
      Stored (st.stream_switch s r m) { r with currentMedia := m } q →
      Apart (st.stream_switch s r m) { r with currentMedia := m } q := by
    intro t q hts hq hstored
    unfold Stored at hstored
    rw [live_switch hfree.1, live_switch hfree.1] at hstored
    obtain ⟨hne, hbuf⟩ := hapart t q hts hq hstored.1 hstored.2
    refine ⟨hne.symm, fun b hb => ?_⟩
    rw [Streams.switch_media hfree.1, if_pos rfl] at hb
    rw [hfree.other hts hq]
    exact hbuf b hb
  constructor
  · exact h.toReaders.switched hr hfree
  · intro t q hq hs
    rw [hsession] at hq
    split at hq
    · cases hq
      exact h.consumes s r hr hs
    · exact h.consumes t q hq hs
  · intro t u q p htu hq hp hstored
    rw [hsession] at hq hp
    split at hq
    · rename_i hts
      cases hq
      rw [if_neg (fun hus => htu (hts.trans hus.symm))] at hp
      exact hmoved u p (fun hus => htu (hts.trans hus.symm)) hp hstored
    · rename_i hts
      split at hp
      · cases hp
        exact (hmoved t q hts hq hstored.symm).symm
      · rename_i hus
        unfold Stored at hstored
        rw [live_switch hfree.1, live_switch hfree.1] at hstored
        have := h.apart t u q p htu hq hp hstored
        unfold Apart at this ⊢
        rw [hfree.other hts hq, hfree.other hus hp]
        exact this
  · intro t q hq
    have hlen : (st.stream_switch s r m).entries.length = st.entries.length := by
      simp [Streams.stream_switch, Streams.setSession, Streams.setMedia]
    rw [hlen]
    rw [hsession] at hq
    split at hq
    · cases hq
      exact hfree.1
    · exact h.medium t q hq
  · intro k b hb
    rw [Streams.switch_media hfree.1] at hb
    split at hb
    · exact h.known _ b hb
    · exact h.known k b hb

theorem destroyed (h : SharingInv st) {s b n : ℕ} {r : RTPSession} (hr : st.session s = some r)
    (hd : st.Destroyed st' s r b n) : SharingInv st' := by
  have hback : ∀ t q, st'.session t = some q → st.session t = some q := by
    intro t q hq
    rw [hd.session hr] at hq
    split at hq
    · cases hq
    · exact hq
  have hmedia : ∀ m c, (st'.media m).pktBuffer = some c → (st.media m).pktBuffer = some c := by
    intro m c hc
    rw [hd.media] at hc
    split at hc
    · cases hc
    · exact hc
  have hlive : ∀ m, (st'.media m).live = (st.media m).live := by
    intro m
    rw [hd.media]
    split <;> rfl
  constructor
  · exact h.toReaders.destroyed hr hd
  · exact fun t q hq => h.consumes t q (hback t q hq)
  · intro t u q p htu hq hp hstored
    unfold Stored at hstored
    rw [hlive, hlive] at hstored
    obtain ⟨hne, hbuf⟩ := h.apart t u q p htu (hback t q hq) (hback u p hp) hstored
    exact ⟨hne, fun c hc hc' => hbuf c (hmedia _ c hc) (hmedia _ c hc')⟩
  · intro t q hq
    rw [hd.entries]
    exact h.medium t q (hback t q hq)
  · intro m c hc
    rw [hd.size]
    exact h.known m c (hmedia m c hc)

/-- `hsource`: a copied entry has no buffer of another stored session. -/
theorem entered (h : SharingInv st) {source : ℕ} {r : RTPSession}
    (he : st.Entered st' source r)
    (hsource : r.isMulticastDad = true → (st.media source).live = false → ∀ t q,
      st.session t = some q → (st.media q.currentMedia).live = false → ∀ b,
        (st.media source).pktBuffer = some b → (st.media q.currentMedia).pktBuffer ≠ some b) :
    SharingInv st' := by
  have hlive : ∀ t q, st.session t = some q →
      (st'.media q.currentMedia).live = (st.media q.currentMedia).live :=
    fun t q hq => he.live _ (h.medium t q hq)
  have hstored : ∀ t q, st.session t = some q → Stored st' r q →
      r.currentMedia = st.entries.length ∧ (st.media q.currentMedia).live = false := by
    intro t q hq hs
    refine ⟨?_, (hlive t q hq).symm.trans hs.2⟩
    rcases he.medium with hm | ⟨hm, hl⟩
    · exact hm
    · have hr := hs.1
      rw [hm, he.live source (Streams.lt_of_live hl), hl] at hr
      cases hr
  -- the buffers of the other stored media are those they had
  have hbuf : ∀ t q b, st.session t = some q → (st.media q.currentMedia).live = false →
      (st'.media q.currentMedia).pktBuffer = some b →
      (st.media q.currentMedia).pktBuffer = some b := by
    intro t q b hq hql hb
    rcases he.pktBuffer _ b hb with hold | ⟨hm, -⟩
    · exact hold
    · have hlt := h.medium t q hq
      rcases he.medium with hnew | ⟨hnew, hl⟩
      · omega
      · rw [hm, hnew, hl] at hql
        cases hql
  have hnew : ∀ t q, st.session t = some q → Stored st' r q → Apart st' r q := by
    intro t q hq hs
    obtain ⟨hm, hql⟩ := hstored t q hq hs
    have hlt := h.medium t q hq
    refine ⟨by omega, fun b hb hb' => ?_⟩
    have hqb := hbuf t q b hq hql hb'
    rcases he.pktBuffer _ b hb with hold | ⟨-, hdad, hs' | ⟨-, hlen⟩⟩
    · rw [hm, Streams.pktBuffer_length] at hold
      cases hold
    · exact hsource hdad ((he.copies hdad).symm.trans hs.1) t q hq hql b hs' hqb
    · have := h.known _ b hqb
      omega
  constructor
  · exact h.toReaders.entered he
  · intro t q hq hs
    rw [he.session] at hq
    split at hq
    · cases hq
      rw [he.started] at hs
      cases hs
    · exact h.consumes t q hq hs
  · intro t u q p htu hq hp hs
    rw [he.session] at hq hp
    split at hq
    · rename_i ht
      cases hq
      rw [if_neg (fun hu => htu (ht.trans hu.symm))] at hp
      exact hnew u p hp hs
    · split at hp
      · cases hp
        exact (hnew t q hq hs.symm).symm
      · have hql := (hlive t q hq).symm.trans hs.1
        have hpl := (hlive u p hp).symm.trans hs.2
        obtain ⟨hne, hb⟩ := h.apart t u q p htu hq hp ⟨hql, hpl⟩
        exact ⟨hne, fun b hb₁ hb₂ => hb b (hbuf t q b hq hql hb₁) (hbuf u p b hp hpl hb₂)⟩
  · intro t q hq
    rw [he.entries]
    rw [he.session] at hq
    split at hq
    · cases hq
      rcases he.medium with hm | ⟨hm, hl⟩
      · omega
      · have := Streams.lt_of_live hl
        omega
    · have := h.medium t q hq
      omega
  · intro m b hb
    have hlen : st.buffers.length ≤ st'.buffers.length := by
      rcases he.buffers with hb | ⟨hb, -⟩ 
      · rw [hb]
      · rw [hb]
        simp
    rcases he.pktBuffer m b hb with hold | ⟨-, -, hold | ⟨hnew, hb⟩⟩
    · exact Nat.lt_of_lt_of_le (h.known m b hold) hlen
    · exact Nat.lt_of_lt_of_le (h.known source b hold) hlen
    · rw [hnew, hb]
      simp

end SharingInv

/-- An entry of a stored source shares nothing with the media of the other sessions when
session `s` is moved to it. -/
def MovesApart (st : Streams) (s : ℕ) (r : RTPSession) (m : ℕ) : Prop :=
  (st.media m).live = false → ∀ t < st.heap.length, t ≠ s → ∀ q ∈ st.session t,
    (st.media q.currentMedia).live = false → q.currentMedia ≠ m ∧
      ∀ b ∈ (st.media r.currentMedia).pktBuffer, (st.media q.currentMedia).pktBuffer ≠ some b

instance (st : Streams) (s : ℕ) (r : RTPSession) (m : ℕ) : Decidable (MovesApart st s r m) := by
  unfold MovesApart
  infer_instance

def SwitchesApart (st : Streams) (turn : Turn) : Prop :=
  ∀ i ∈ st.position, (st.sched i).valid = true → ∀ p ∈ st.held i, p.2.pause = false →
    ∀ m ∈ turn.switch, MovesApart st p.1 p.2 m

instance (st : Streams) (turn : Turn) : Decidable (SwitchesApart st turn) := by
  unfold SwitchesApart
  infer_instance

/-- A SETUP copies no entry that has the buffer of another session of a stored source. -/
def CopiesApart (st : Streams) (m : ℕ) (c : Chosen) : Prop :=
  c.dad = true → (st.media m).live = false → ∀ t < st.heap.length, ∀ q ∈ st.session t,
    (st.media q.currentMedia).live = false → ∀ b ∈ (st.media m).pktBuffer,
      (st.media q.currentMedia).pktBuffer ≠ some b

instance (st : Streams) (m : ℕ) (c : Chosen) : Decidable (CopiesApart st m c) := by
  unfold CopiesApart
  infer_instance

/-- No entry is used for two sessions. -/
def AdaptsApart (st : Streams) : Call → Prop
  | .start id => CountFits st id
  | .tick turn => SwitchesFree st turn ∧ SwitchesApart st turn
  | .setup w inp rtsp _ d m tkns =>
    ∀ c ∈ reachesAdd w inp rtsp d m tkns st, CopiesApart st m c
  | _ => True

instance (st : Streams) (c : Call) : Decidable (AdaptsApart st c) :=
  match c with
  | .start id => inferInstanceAs (Decidable (CountFits st id))
  | .tick turn => inferInstanceAs (Decidable (SwitchesFree st turn ∧ SwitchesApart st turn))
  | .setup w inp rtsp _ d m tkns =>
    inferInstanceAs (Decidable (∀ c ∈ reachesAdd w inp rtsp d m tkns st, CopiesApart st m c))
  | .look .. | .resume _ | .pause _ | .remove _ => isTrue trivial

theorem SharingInv.call {st st' : Streams} (h : SharingInv st) {c : Call}
    (hg : AdaptsApart st c) (hs : callStep st c = some st') : SharingInv st' := by
  cases call_change hs with
  | kept same => exact h.kept same
  | started i s r b n hi hholds hr hb hn =>
    exact h.started hr hb hn (hg i hi (s, r) (Streams.held_eq.mpr ⟨hholds, hr⟩) b hb n hn)
  | switched i s r m hpos hv hholds hr hp hsw same =>
    have hheld := Streams.held_eq.mpr ⟨hholds, hr⟩
    refine (h.switched hr (hg.1 i hpos hv (s, r) hheld hp m hsw) ?_).kept same
    intro t q hts hq hm hql
    exact hg.2 i hpos hv (s, r) hheld hp m hsw hm t (Streams.lt_of_session hq) hts q hq hql
  | destroyed i s r hpos hv hholds hr hdad hd same =>
    obtain ⟨b, n, hdes⟩ := Streams.destroy_views hd
    exact (h.destroyed hr hdes).kept same
  | entered r he hreach =>
    refine h.entered he fun hdad hl t q hq hql b hb => ?_
    obtain ⟨c, hc, hcdad⟩ := hreach hdad
    exact hg c hc hcdad hl t (Streams.lt_of_session hq) q hq hql b hb

/-- In a run in which no entry of a presentation is used for two sessions, each session
that plays reads the buffer that its medium writes. -/
theorem own_buffers {port : ℤ} {cs : List Call} {st : Streams}
    (h : GuardedRun callStep AdaptsApart (Streams.init port) cs st) : OwnBuffers st := by
  have hstep : ∀ s c t, SharingInv s → AdaptsApart s c → callStep s c = some t →
      SharingInv t := fun _ _ _ hi hg hs => hi.call hg hs
  exact (h.invariant hstep (SharingInv.init port)).ownBuffers

/-- A presentation with three rates of the same sound. -/
def rates : SDFile where
  streams := [{ filename := lit "a128.mp3", encodingName := lit "MPA", priority := 1 },
    { filename := lit "a96.mp3", encodingName := lit "MPA", priority := 2 },
    { filename := lit "a64.mp3", encodingName := lit "MPA", priority := 3 }]

def lookRates : Call := .look (lit "film.sd") (.parsed rates)

/-- Two sessions play the first rate; the scheduler comes to them with the given turns. -/
def adapted (turns : List Turn) : List Call :=
  [lookRates, setupUnicast 0, setupUnicast 0, .start 0, .start 1, .tick ⟨true, none, 0⟩] ++
    turns.map .tick

theorem own_buffers_adapted :
    ∃ st, exec callStep (Streams.init rtpDefaultPort)
        (adapted [⟨true, some 1, 0⟩, ⟨true, some 2, 0⟩]) = some st ∧ OwnBuffers st := by
  have hrun : allowed callStep AdaptsApart (Streams.init rtpDefaultPort)
      (adapted [⟨true, some 1, 0⟩, ⟨true, some 2, 0⟩]) = true := by decide +kernel
  have he := @exec_reached (adapted [⟨true, some 1, 0⟩, ⟨true, some 2, 0⟩]) (by decide +kernel)
  exact ⟨_, he, own_buffers (.of_allowed hrun he)⟩

/-- Both sessions are moved to the second rate. -/
theorem adapted_sessions_share :
    ¬ ∀ (cs : List Call) (st : Streams),
      exec callStep (Streams.init rtpDefaultPort) cs = some st → OwnBuffers st := by
  intro h
  have hown := h (adapted [⟨true, some 1, 0⟩, ⟨true, some 1, 0⟩]) _
    (exec_reached (by decide +kernel))
  have hsession : ((reached (adapted [⟨true, some 1, 0⟩, ⟨true, some 1, 0⟩])).session 0).any
      (fun r => r.started && r.cons == some 0 && r.currentMedia == 1) = true := by decide +kernel
  have hmedia : ((reached (adapted [⟨true, some 1, 0⟩, ⟨true, some 1, 0⟩])).media 1).pktBuffer =
      some 1 := by decide +kernel
  obtain ⟨r, hr, hr'⟩ := (Option.any_eq_true _ _).mp hsession
  simp only [Bool.and_eq_true, beq_iff_eq] at hr'
  obtain ⟨⟨hstart, hcons⟩, hm⟩ := hr'
  obtain ⟨b, hb, hpkt⟩ := hown.reads 0 r hr hstart
  rw [hcons] at hb
  rw [hm, hmedia] at hpkt
  cases hb
  cases hpkt

end Fenice.Rtsp
