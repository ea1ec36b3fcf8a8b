import Fenice.Schedule.Frame
import Fenice.BufferPool.Consumer

/-!
# Who reads and writes a packet buffer

A session writes the buffer of its `current_media` and reads that of its consumer.
The lemmas say what the calls do to these two, and to `control->refs`.
-/

namespace Fenice.Schedule
open Fenice.CString Fenice.BufferPool

namespace Streams

variable {st st' st'' : Streams}

/-- What matters of a session. -/
def reading (r : RTPSession) : ℕ × Option ℕ × Bool := (r.currentMedia, r.cons, r.isMulticastDad)

/-- How many sessions have a consumer of the buffer. -/
def consumers (st : Streams) (b : ℕ) : ℕ :=
  st.heap.countP fun x => x.any fun r => r.cons == some b

/-- The media, the buffers and who reads them are the same; a session may be stopped,
and there may be more entries. -/
structure Kept (st st' : Streams) : Prop where
  size : st'.heap.length = st.heap.length
  sessions : ∀ s, (st'.session s).map reading = (st.session s).map reading
  started : ∀ s r', st'.session s = some r' → r'.started = true →
    ∃ r, st.session s = some r ∧ r.started = true
  entries : st.entries.length ≤ st'.entries.length
  pktBuffer : ∀ m, (st'.media m).pktBuffer = (st.media m).pktBuffer
  live : ∀ m < st.entries.length, (st'.media m).live = (st.media m).live
  buffers : st'.buffers = st.buffers

namespace Kept

theorem refl (st : Streams) : Kept st st :=
  ⟨rfl, fun _ => rfl, fun _ r h hs => ⟨r, h, hs⟩, le_rfl, fun _ => rfl, fun _ _ => rfl, rfl⟩

theorem trans (h : Kept st st') (h' : Kept st' st'') : Kept st st'' where
  size := h'.size.trans h.size
  sessions := fun s => (h'.sessions s).trans (h.sessions s)
  started := by
    intro s r'' hr hs
    obtain ⟨r', hr', hs'⟩ := h'.started s r'' hr hs
    exact h.started s r' hr' hs'
  entries := h.entries.trans h'.entries
  pktBuffer := fun m => (h'.pktBuffer m).trans (h.pktBuffer m)
  live := fun m hm => (h'.live m (Nat.lt_of_lt_of_le hm h.entries)).trans (h.live m hm)
  buffers := h'.buffers.trans h.buffers

theorem session_back (h : Kept st st') {s : ℕ} {r' : RTPSession} (hr : st'.session s = some r') :
    ∃ r, st.session s = some r ∧ r.currentMedia = r'.currentMedia ∧ r.cons = r'.cons ∧
      r.isMulticastDad = r'.isMulticastDad := by
  have hs := h.sessions s
  rw [hr] at hs
  obtain ⟨r, hr', he⟩ := Option.map_eq_some_iff.mp hs.symm
  simp only [reading, Prod.mk.injEq] at he
  exact ⟨r, hr', he⟩

theorem session_forth (h : Kept st st') {s : ℕ} {r : RTPSession} (hr : st.session s = some r) :
    ∃ r', st'.session s = some r' ∧ r'.currentMedia = r.currentMedia ∧ r'.cons = r.cons := by
  have hs := h.sessions s
  rw [hr] at hs
  obtain ⟨r', hr', he⟩ := Option.map_eq_some_iff.mp hs
  simp only [reading, Prod.mk.injEq] at he
  exact ⟨r', hr', he.1, he.2.1⟩

theorem refs (h : Kept st st') (b : ℕ) : st'.refs b = st.refs b := by
  unfold Streams.refs
  rw [h.buffers]

theorem heap (h : Kept st st') :
    st'.heap.map (Option.map reading) = st.heap.map (Option.map reading) := by
  apply List.ext_getElem?
  intro s
  have hs := h.sessions s
  unfold session at hs
  rw [List.getElem?_map, List.getElem?_map]
  by_cases hlt : s < st.heap.length
  · have hlt' : s < st'.heap.length := by rw [h.size]; exact hlt
    rw [List.getElem?_eq_getElem hlt, List.getElem?_eq_getElem hlt'] at hs ⊢
    simpa using hs
  · rw [List.getElem?_eq_none (show st.heap.length ≤ s by omega),
      List.getElem?_eq_none (show st'.heap.length ≤ s by rw [h.size]; omega)]

theorem consumers (h : Kept st st') (b : ℕ) : st'.consumers b = st.consumers b := by
  have hfun : (fun x : Option RTPSession => x.any fun r => r.cons == some b) =
      (fun x : Option (ℕ × Option ℕ × Bool) => x.any fun p => p.2.1 == some b) ∘
        Option.map reading := by
    funext x
    cases x <;> rfl
  unfold Streams.consumers
  rw [hfun, ← List.countP_map, ← List.countP_map, h.heap]

end Kept

theorem kept_setSession {s : ℕ} {r r' : RTPSession} (hr : st.session s = some r)
    (hs : reading r' = reading r) (hstart : r'.started = true → r.started = true) :
    Kept st (st.setSession s (some r')) where
  size := by simp [setSession]
  sessions := by
    intro t
    rw [session_setSession (lt_of_session hr)]
    split
    · rename_i ht
      rw [ht, hr, Option.map_some, Option.map_some, hs]
    · rfl
  started := by
    intro t q hq hst
    rw [session_setSession (lt_of_session hr)] at hq
    split at hq
    · rename_i ht
      cases hq
      exact ⟨r, by rw [ht, hr], hstart hst⟩
    · exact ⟨q, hq, hst⟩
  entries := le_rfl
  pktBuffer := fun _ => rfl
  live := fun _ _ => rfl
  buffers := rfl

theorem kept_stopped {s : ℕ} {r : RTPSession} (hr : st.session s = some r) (stop : Bool) :
    Kept st (st.stopped s r stop) := by
  cases stop with
  | false => exact .refl st
  | true => exact kept_setSession hr rfl (fun h => absurd h Bool.false_ne_true)

/-! ### Counting consumers -/

theorem getElem?_of_session {s : ℕ} {r : RTPSession} (h : st.session s = some r) :
    st.heap[s]? = some (some r) := by
  unfold session at h
  cases hx : st.heap[s]? with
  | none =>
    rw [hx] at h
    cases h
  | some x =>
    rw [hx] at h
    exact congrArg some h

theorem consumers_setSession {s : ℕ} {r : RTPSession} (hr : st.session s = some r)
    (x : Option RTPSession) (b : ℕ) :
    (st.setSession s x).consumers b + (if r.cons = some b then 1 else 0) =
      st.consumers b + if x.bind RTPSession.cons = some b then 1 else 0 := by
  have h := countP_set_add (a := x) (fun x : Option RTPSession => x.any fun r => r.cons == some b)
    (getElem?_of_session hr)
  have hx : (x.any fun r => r.cons == some b) = decide (x.bind RTPSession.cons = some b) := by
    cases x with
    | none => rfl
    | some q => exact beq_eq_decide ..
  simpa [consumers, setSession, hx] using h

theorem consumers_pos {s b : ℕ} {r : RTPSession} (hr : st.session s = some r)
    (hc : r.cons = some b) : 0 < st.consumers b := by
  apply List.countP_pos_iff.mpr
  exact ⟨some r, List.mem_of_getElem? (getElem?_of_session hr), by simp [hc]⟩

theorem exists_consumer {b : ℕ} (h : 0 < st.consumers b) :
    ∃ s r, st.session s = some r ∧ r.cons = some b := by
  obtain ⟨x, hx, hany⟩ := List.countP_pos_iff.mp h
  cases x with
  | none => cases hany
  | some r =>
    obtain ⟨s, hs⟩ := List.getElem?_of_mem hx
    exact ⟨s, r, by rw [session, hs]; rfl, by simpa using hany⟩

/-! ### What each call does -/

theorem started_views {s b n : ℕ} {r : RTPSession} (r' : RTPSession) (hr : st.session s = some r)
    (hn : st.refs b = some n) (hcons : r'.cons = some b) :
    (∀ t, ((st.setRefs b (some (incr16 n))).setSession s (some r')).session t =
        if t = s then some r' else st.session t) ∧
      (∀ c, ((st.setRefs b (some (incr16 n))).setSession s (some r')).refs c =
        if c = b then some (incr16 n) else st.refs c) ∧
      ∀ c, ((st.setRefs b (some (incr16 n))).setSession s (some r')).consumers c +
        (if r.cons = some c then 1 else 0) = st.consumers c + if c = b then 1 else 0 := by
  refine ⟨fun t => ?_, fun c => ?_, fun c => ?_⟩
  · exact @session_setSession (st.setRefs b (some (incr16 n))) s (lt_of_session hr) (some r') t
  · exact refs_setRefs (lt_of_refs hn) (some (incr16 n)) c
  · have h := @consumers_setSession (st.setRefs b (some (incr16 n))) s r hr (some r') c
    simp only [Option.bind_some, hcons, Option.some.injEq, eq_comm (a := b)] at h
    exact h

/-- `RTP_session_destroy`: the buffer of the medium is freed if the count is zero
once the consumer is gone. -/
structure Destroyed (st st' : Streams) (s : ℕ) (r : RTPSession) (b n : ℕ) : Prop where
  buffer : (st.media r.currentMedia).pktBuffer = some b
  count : st.refs b = some n
  heap : st'.heap = st.heap.set s none
  entries : st'.entries.length = st.entries.length
  size : st'.buffers.length = st.buffers.length
  media : ∀ m, st'.media m =
    if refsWithout n b r.cons = 0 ∧ m = r.currentMedia then { st.media m with pktBuffer := none }
    else st.media m
  refs : ∀ c, st'.refs c =
    if refsWithout n b r.cons = 0 ∧ c = b then none
    else (st.refs c).map fun k => refsWithout k c r.cons

theorem destroy_views {s : ℕ} {r : RTPSession} (h : st.RTP_session_destroy s r = some st') :
    ∃ b n, Destroyed st st' s r b n := by
  obtain ⟨st₁, st₂, b, n', hclose, hunref, hb, hn', rfl⟩ := destroy_cases h
  obtain ⟨portPool, sds, closed, rfl⟩ := close_cases hclose
  obtain ⟨hrefs, buffers, rfl, hlen⟩ := unref_cases hunref
  obtain ⟨n, hn, rfl⟩ := Option.map_eq_some_iff.mp ((hrefs b).symm.trans hn')
  refine ⟨b, n, hb, hn, ?_, ?_, ?_, fun m => ?_, fun c => ?_⟩
  · split <;> rfl
  · split
    · exact List.length_set
    · rfl
  · split
    · exact List.length_set.trans hlen
    · exact hlen
  · by_cases hz : refsWithout n b r.cons = 0
    · rw [if_pos hz]
      have h := @media_setMedia st r.currentMedia (lt_of_pktBuffer hb)
        { st.media r.currentMedia with pktBuffer := none } m
      by_cases hm : m = r.currentMedia
      · subst hm
        rw [if_pos ⟨hz, rfl⟩]
        rw [if_pos rfl] at h
        exact h
      · rw [if_neg (fun hh => hm hh.2)]
        rw [if_neg hm] at h
        exact h
    · rw [if_neg hz, if_neg (fun hh => hz hh.1)]
      rfl
  · have hlt : b < buffers.length := by rw [hlen]; exact lt_of_refs hn
    by_cases hz : refsWithout n b r.cons = 0
    · rw [if_pos hz]
      refine (refs_setRefs hlt none c).trans ?_
      by_cases hc : c = b
      · rw [if_pos hc, if_pos ⟨hz, hc⟩]
      · rw [if_neg hc, if_neg (fun hh => hc hh.2)]
        exact hrefs c
    · rw [if_neg hz, if_neg (fun hh => hz hh.1)]
      exact hrefs c

theorem Destroyed.session {s b n : ℕ} {r : RTPSession} (h : Destroyed st st' s r b n)
    (hr : st.session s = some r) (t : ℕ) :
    st'.session t = if t = s then none else st.session t := by
  have := session_setSession (lt_of_session hr) none t
  unfold Streams.session setSession at this
  unfold Streams.session
  rw [h.heap]
  exact this

theorem Destroyed.consumers {s b n : ℕ} {r : RTPSession} (h : Destroyed st st' s r b n)
    (hr : st.session s = some r) (c : ℕ) :
    st'.consumers c + (if r.cons = some c then 1 else 0) = st.consumers c := by
  have := consumers_setSession hr none c
  unfold Streams.consumers setSession at this
  unfold Streams.consumers
  rw [h.heap]
  simpa using this

/-- A session was set up. `source` is the entry it asked for; its own medium is a new
entry, or the live source itself. -/
structure Entered (st st' : Streams) (source : ℕ) (r : RTPSession) : Prop where
  heap : st'.heap = (st.heap ++ [none]).set st.heap.length (some r)
  cons : r.cons = none
  started : r.started = false
  entries : st'.entries.length = st.entries.length + 1
  medium : r.currentMedia = st.entries.length ∨
    r.currentMedia = source ∧ (st.media source).live = true
  live : ∀ m < st.entries.length, (st'.media m).live = (st.media m).live
  copies : r.isMulticastDad = true → (st'.media r.currentMedia).live = (st.media source).live
  kept : ∀ m b, (st.media m).pktBuffer = some b → (st'.media m).pktBuffer = some b
  buffers : st'.buffers = st.buffers ∨
    st'.buffers = st.buffers ++ [some 0] ∧
      (st'.media r.currentMedia).pktBuffer = some st.buffers.length
  pktBuffer : ∀ m b, (st'.media m).pktBuffer = some b →
    (st.media m).pktBuffer = some b ∨ m = r.currentMedia ∧ r.isMulticastDad = true ∧
      ((st.media source).pktBuffer = some b ∨
        st'.buffers = st.buffers ++ [some 0] ∧ b = st.buffers.length)
  dad : r.isMulticastDad = true → ∃ b, (st'.media r.currentMedia).pktBuffer = some b

namespace Entered

variable {source : ℕ} {r : RTPSession}

theorem session (h : Entered st st' source r) (s : ℕ) :
    st'.session s = if s = st.heap.length then some r else st.session s := session_new h.heap s

theorem consumers (h : Entered st st' source r) (b : ℕ) : st'.consumers b = st.consumers b := by
  unfold Streams.consumers
  rw [h.heap]
  simp [h.cons]

theorem refs (h : Entered st st' source r) (b : ℕ) :
    st'.refs b = st.refs b ∨
      b = st.buffers.length ∧ st'.refs b = some 0 ∧
        (st'.media r.currentMedia).pktBuffer = some b := by
  rcases h.buffers with he | ⟨he, hb⟩
  · left
    unfold Streams.refs
    rw [he]
  · by_cases hlt : b = st.buffers.length
    · right
      refine ⟨hlt, ?_, hlt ▸ hb⟩
      unfold Streams.refs
      rw [he, hlt]
      simp
    · left
      unfold Streams.refs
      rw [he]
      by_cases hin : b < st.buffers.length
      · rw [List.getElem?_append_left hin]
      · rw [List.getElem?_eq_none (show st.buffers.length ≤ b by omega),
          List.getElem?_eq_none (show (st.buffers ++ [some 0]).length ≤ b by simp; omega)]

theorem refs_kept (h : Entered st st' source r) {b n : ℕ} (hn : st.refs b = some n) :
    st'.refs b = some n := by
  rcases h.refs b with he | ⟨hb, -⟩
  · rw [he, hn]
  · have := lt_of_refs hn
    omega

end Entered

/-! ### Readers -/

/-- A session reads the buffer that its medium writes, which is not freed, and every
consumer is counted. -/
structure Readers (st : Streams) : Prop where
  own : ∀ s r b, st.session s = some r → r.cons = some b →
    (st.media r.currentMedia).pktBuffer = some b
  alive : ∀ s r b, st.session s = some r → r.cons = some b → ∃ n, st.refs b = some n
  counted : ∀ b n, st.refs b = some n → st.consumers b ≤ n

theorem lt_of_live {m : ℕ} (h : (st.media m).live = true) : m < st.entries.length := by
  by_contra hlt
  rw [media, List.getD_eq_getElem?_getD, List.getElem?_eq_none (by omega)] at h
  cases h

theorem pktBuffer_length (st : Streams) : (st.media st.entries.length).pktBuffer = none := by
  simp [media]

/-- The entry `m` can become the medium of session `s`: whoever has it already uses
the same buffer. -/
def SwitchFree (st : Streams) (s : ℕ) (r : RTPSession) (m : ℕ) : Prop :=
  m < st.entries.length ∧ ∀ t < st.heap.length, t ≠ s → ∀ q ∈ st.session t, q.currentMedia = m →
    (st.media m).pktBuffer = (st.media r.currentMedia).pktBuffer

instance (st : Streams) (s : ℕ) (r : RTPSession) (m : ℕ) : Decidable (st.SwitchFree s r m) := by
  unfold SwitchFree
  infer_instance

theorem switch_media {s m : ℕ} {r : RTPSession} (h : m < st.entries.length) (k : ℕ) :
    ((st.stream_switch s r m).media k).pktBuffer =
      if k = m then (st.media r.currentMedia).pktBuffer else (st.media k).pktBuffer := by
  have hset := media_setMedia h
    { st.media m with pktBuffer := (st.media r.currentMedia).pktBuffer } k
  have : (st.stream_switch s r m).media k = (st.setMedia m
    { st.media m with pktBuffer := (st.media r.currentMedia).pktBuffer }).media k := rfl
  rw [this, hset]
  split <;> rfl

theorem SwitchFree.other {s m : ℕ} {r : RTPSession} (h : st.SwitchFree s r m) {t : ℕ}
    {q : RTPSession} (hts : t ≠ s) (hq : st.session t = some q) :
    ((st.stream_switch s r m).media q.currentMedia).pktBuffer =
      (st.media q.currentMedia).pktBuffer := by
  rw [switch_media h.1]
  split
  · rename_i hm
    rw [hm, h.2 t (lt_of_session hq) hts q hq hm]
  · rfl

theorem consumers_switch {s m : ℕ} {r : RTPSession} (hr : st.session s = some r) (b : ℕ) :
    (st.stream_switch s r m).consumers b = st.consumers b := by
  have h := @consumers_setSession
    (st.setMedia m { st.media m with pktBuffer := (st.media r.currentMedia).pktBuffer }) s r hr
    (some { r with currentMedia := m }) b
  simp only [Option.bind_some] at h
  exact Nat.add_right_cancel h

namespace Readers

theorem init (port : ℤ) : Readers (Streams.init port) := by
  constructor <;> intros <;> simp_all [Streams.init, Streams.session, Streams.refs]

theorem kept (h : Readers st) (hk : Kept st st') : Readers st' where
  own := by
    intro s r' b hr hc
    obtain ⟨r, hr', hm, hcons, -⟩ := hk.session_back hr
    rw [hk.pktBuffer, ← hm]
    exact h.own s r b hr' (hcons.trans hc)
  alive := by
    intro s r' b hr hc
    obtain ⟨r, hr', -, hcons, -⟩ := hk.session_back hr
    rw [hk.refs]
    exact h.alive s r b hr' (hcons.trans hc)
  counted := by
    intro b n hn
    rw [hk.refs] at hn
    rw [hk.consumers]
    exact h.counted b n hn

theorem started (h : Readers st) {s b n : ℕ} {r : RTPSession} (hr : st.session s = some r)
    (hb : (st.media r.currentMedia).pktBuffer = some b) (hn : st.refs b = some n)
    (hlt : n < 65535) :
    Readers ((st.setRefs b (some (incr16 n))).setSession s
      (some { r with cons := some b, pause := false, started := true })) := by
  obtain ⟨hsession, hrefs, hcons⟩ := started_views
    { r with cons := some b, pause := false, started := true } hr hn rfl
  constructor
  · intro t q c hq hc
    rw [hsession] at hq
    split at hq
    · cases hq
      cases hc
      exact hb
    · exact h.own t q c hq hc
  · intro t q c hq hc
    rw [hsession] at hq
    rw [hrefs]
    split at hq
    · cases hq
      cases hc
      exact ⟨_, if_pos rfl⟩
    · split
      · exact ⟨_, rfl⟩
      · exact h.alive t q c hq hc
  · intro c k hk
    have := hcons c
    rw [hrefs] at hk
    split at hk
    · rename_i hc
      subst hc
      cases hk
      have hcount := h.counted c n hn
      have hincr := incr16_of_lt hlt
      rw [if_pos rfl] at this
      omega
    · rename_i hc
      have hcount := h.counted c k hk
      rw [if_neg hc] at this
      omega

theorem switched (h : Readers st) {s m : ℕ} {r : RTPSession} (hr : st.session s = some r)
    (hfree : st.SwitchFree s r m) : Readers (st.stream_switch s r m) where
  own := by
    intro t q b hq hc
    rw [session_switch hr] at hq
    split at hq
    · cases hq
      rw [switch_media hfree.1, if_pos rfl]
      exact h.own s r b hr hc
    · rename_i hts
      rw [hfree.other hts hq]
      exact h.own t q b hq hc
  alive := by
    intro t q b hq hc
    rw [session_switch hr] at hq
    split at hq
    · cases hq
      exact h.alive s r b hr hc
    · exact h.alive t q b hq hc
  counted := by
    intro b n hn
    rw [consumers_switch hr]
    exact h.counted b n hn

theorem read_not_freed (h : Readers st) {s b n : ℕ} {r : RTPSession}
    (hr : st.session s = some r) (hread : 0 < (st.setSession s none).consumers b)
    (hn : st.refs b = some n) : refsWithout n b r.cons ≠ 0 := by
  have hcount := h.counted b n hn
  have hset := consumers_setSession hr none b
  rw [Option.bind_none, if_neg (show ¬ none = some b by simp)] at hset
  unfold refsWithout
  split
  · rename_i hrc
    rw [if_pos hrc] at hset
    omega
  · rename_i hrc
    rw [if_neg hrc] at hset
    omega

theorem not_freed (h : Readers st) {s t b n : ℕ} {r q : RTPSession} (hr : st.session s = some r)
    (hts : t ≠ s) (hq : st.session t = some q) (hc : q.cons = some b) (hn : st.refs b = some n) :
    refsWithout n b r.cons ≠ 0 := by
  apply h.read_not_freed hr _ hn
  exact consumers_pos (by rw [session_setSession (lt_of_session hr), if_neg hts, hq]) hc

theorem destroyed (h : Readers st) {s b n : ℕ} {r : RTPSession} (hr : st.session s = some r)
    (hd : Destroyed st st' s r b n) : Readers st' where
  own := by
    intro t q c hq hc
    rw [hd.session hr] at hq
    split at hq
    · cases hq
    · rename_i hts
      have hown := h.own t q c hq hc
      rw [hd.media]
      split
      · rename_i hz
        rw [hz.2, hd.buffer] at hown
        cases hown
        exact absurd hz.1 (h.not_freed hr hts hq hc hd.count)
      · exact hown
  alive := by
    intro t q c hq hc
    rw [hd.session hr] at hq
    split at hq
    · cases hq
    · rename_i hts
      obtain ⟨k, hk⟩ := h.alive t q c hq hc
      rw [hd.refs]
      split
      · rename_i hz
        rw [hz.2] at hc
        exact absurd hz.1 (h.not_freed hr hts hq hc hd.count)
      · exact ⟨_, by rw [hk]; rfl⟩
  counted := by
    intro c k hk
    rw [hd.refs] at hk
    split at hk
    · cases hk
    · obtain ⟨k₀, hk₀, rfl⟩ := Option.map_eq_some_iff.mp hk
      have hcount := h.counted c k₀ hk₀
      have hcons := hd.consumers hr c
      unfold refsWithout
      split
      · rename_i hrc
        rw [if_pos hrc] at hcons
        omega
      · rename_i hrc
        rw [if_neg hrc] at hcons
        omega

theorem entered (h : Readers st) {source : ℕ} {r : RTPSession} (he : Entered st st' source r) :
    Readers st' where
  own := by
    intro t q b hq hc
    rw [he.session] at hq
    split at hq
    · cases hq
      rw [he.cons] at hc
      cases hc
    · exact he.kept _ _ (h.own t q b hq hc)
  alive := by
    intro t q b hq hc
    rw [he.session] at hq
    split at hq
    · cases hq
      rw [he.cons] at hc
      cases hc
    · obtain ⟨n, hn⟩ := h.alive t q b hq hc
      exact ⟨n, he.refs_kept hn⟩
  counted := by
    intro b n hn
    rw [he.consumers]
    rcases he.refs b with hold | ⟨hb, hzero, -⟩
    · rw [hold] at hn
      exact h.counted b n hn
    · -- nobody can have a consumer of a buffer that was not there
      by_contra hlt
      obtain ⟨s, q, hq, hc⟩ := exists_consumer (show 0 < st.consumers b by omega)
      obtain ⟨k, hk⟩ := h.alive s q b hq hc
      have := lt_of_refs hk
      omega

end Readers

end Streams

end Fenice.Schedule
