import Fenice.Rtsp.Atomic
import Mathlib.Data.Fintype.EquivFin

/-!
# Server ports

Each pair of server ports is in one place: an entry of `port_pool` or a unicast
session. SETUP moves a pair from the pool to its session, the destruction of the
session moves it back.
-/

namespace Fenice.Rtsp
open Fenice.CString Fenice.Schedule Fenice.Run

/-- A session whose ports were taken from the pool. -/
def Unicast (r : RTPSession) : Prop :=
  r.transport.type = .avp ∧ r.transport.isMulticast = false ∧ r.isMulticastDad = true

instance (r : RTPSession) : Decidable (Unicast r) := by
  unfold Unicast
  infer_instance

/-- Pair `k` of the pool that begins at `rtpDefaultPort`. -/
def serverPair (k : Fin oneForkMaxConnection) : PortPair :=
  ⟨k * 2 + rtpDefaultPort, k * 2 + rtpDefaultPort + 1⟩

inductive Place where
  | pool (i : Fin oneForkMaxConnection)
  | session (s : ℕ)

/-- Pair `k` is there. -/
def IsAt (st : Streams) (k : Fin oneForkMaxConnection) : Place → Prop
  | .pool i => st.portPool i = k + rtpDefaultPort
  | .session s => ∃ r, st.session s = some r ∧ Unicast r ∧ r.transport.serPorts = serverPair k

/-- Every pair is in one place, and nothing else is in the pool or in a unicast session. -/
structure Conserved (st : Streams) : Prop where
  once : ∀ k, ∃! p, IsAt st k p
  pool : ∀ i, st.portPool i ≠ 0 → ∃ k, IsAt st k (.pool i)
  held : ∀ s r, st.session s = some r → Unicast r → ∃ k, IsAt st k (.session s)

structure PortInv (st : Streams) : Prop extends Conserved st where
  start : st.startPort = rtpDefaultPort

theorem serverPair_inj {k l : Fin oneForkMaxConnection} (h : serverPair k = serverPair l) :
    k = l := by
  simp only [serverPair, PortPair.mk.injEq] at h
  omega

theorem PortInv.init : PortInv (Streams.init rtpDefaultPort) where
  once := by
    intro k
    refine ⟨.pool k, rfl, ?_⟩
    rintro (i | s) hp
    · have hp' : (i : ℤ) + rtpDefaultPort = k + rtpDefaultPort := hp
      congr 1
      omega
    · obtain ⟨r, hr, -⟩ := hp
      simp [Streams.init, Streams.session] at hr
  pool := fun i _ => ⟨i, rfl⟩
  held := fun s r hr => by simp [Streams.init, Streams.session] at hr
  start := rfl

structure SamePorts (st st' : Streams) : Prop where
  portPool : st'.portPool = st.portPool
  startPort : st'.startPort = st.startPort
  sessions : ∀ s, (st'.session s).map (fun r => (r.transport, r.isMulticastDad)) =
    (st.session s).map (fun r => (r.transport, r.isMulticastDad))

theorem SamePorts.isAt {st st' : Streams} (h : SamePorts st st') (k : Fin oneForkMaxConnection)
    (p : Place) : IsAt st' k p ↔ IsAt st k p := by
  cases p with
  | pool i => rw [IsAt, IsAt, h.portPool]
  | session s =>
    have hs := h.sessions s
    have hmap : ∀ u : Streams, IsAt u k (.session s) ↔
        ∃ x ∈ (u.session s).map (fun r => (r.transport, r.isMulticastDad)),
          (x.1.type = .avp ∧ x.1.isMulticast = false ∧ x.2 = true) ∧
            x.1.serPorts = serverPair k := by
      intro u
      simp [IsAt, Unicast]
    rw [hmap, hmap, hs]

theorem PortInv.congr {st st' : Streams} (h : PortInv st) (hs : SamePorts st st') :
    PortInv st' where
  once := by
    intro k
    simp only [hs.isAt]
    exact h.once k
  pool := by
    intro i hi
    rw [hs.portPool] at hi
    obtain ⟨k, hk⟩ := h.pool i hi
    exact ⟨k, (hs.isAt k _).mpr hk⟩
  held := by
    intro s r hr hu
    have hr' := hs.sessions s
    rw [hr, Option.map_some] at hr'
    obtain ⟨q, hq, he⟩ := Option.map_eq_some_iff.mp hr'.symm
    simp only [Prod.mk.injEq] at he
    obtain ⟨k, hk⟩ := h.held s q hq (by unfold Unicast; rw [he.1, he.2]; exact hu)
    exact ⟨k, (hs.isAt k _).mpr hk⟩
  start := hs.startPort.trans h.start

theorem samePorts_setSession {st : Streams} {s : ℕ} {r r' : RTPSession}
    (hr : st.session s = some r) (ht : r'.transport = r.transport)
    (hd : r'.isMulticastDad = r.isMulticastDad) :
    SamePorts st (st.setSession s (some r')) where
  portPool := rfl
  startPort := rfl
  sessions := by
    intro t
    rw [Streams.session_setSession (Streams.lt_of_session hr)]
    split
    · rename_i he
      rw [he, hr, Option.map_some, Option.map_some, ht, hd]
    · rfl

/-! ### Taking a pair -/

theorem PortInv.allocated {st st' : Streams} (h : PortInv st) (hpool : st'.portPool = st.portPool)
    (hstart : st'.startPort = st.startPort) {r : RTPSession} (hr : ¬ Unicast r)
    (hheap : st'.heap = (st.heap ++ [none]).set st.heap.length (some r)) : PortInv st' := by
  have hsession := Streams.session_new hheap
  have hat : ∀ k p, IsAt st' k p ↔ IsAt st k p := by
    intro k p
    cases p with
    | pool i => rw [IsAt, IsAt, hpool]
    | session s =>
      by_cases hs : s = st.heap.length
      · constructor
        · rintro ⟨q, hq, hu, -⟩
          rw [hsession, if_pos hs] at hq
          cases hq
          exact absurd hu hr
        · rintro ⟨q, hq, -⟩
          exact absurd (Streams.lt_of_session hq) (by omega)
      · rw [IsAt, IsAt, hsession, if_neg hs]
  refine ⟨⟨?_, ?_, ?_⟩, hstart.trans h.start⟩
  · simpa only [hat] using h.once
  · simpa only [hat, hpool] using h.pool
  · intro s q hq hu
    simp only [hat]
    rw [hsession] at hq
    split at hq
    · cases hq
      exact absurd hu hr
    · exact h.held s q hq hu

theorem PortInv.took {st st₁ st' : Streams} (h : PortInv st) {ser : PortPair}
    (hp : st.RTP_get_port_pair = some (ser, st₁)) (hpool : st'.portPool = st₁.portPool)
    (hstart : st'.startPort = st.startPort) {r : RTPSession} (hr : Unicast r)
    (hser : r.transport.serPorts = ser)
    (hheap : st'.heap = (st.heap ++ [none]).set st.heap.length (some r)) : PortInv st' := by
  have hsession := Streams.session_new hheap
  obtain ⟨i, hi, he⟩ := Option.map_eq_some_iff.mp hp
  obtain ⟨rfl, rfl⟩ := Prod.mk.inj he
  have hne : st.portPool i ≠ 0 := by simpa using List.find?_some hi
  obtain ⟨l, hl⟩ := h.pool i hne
  have hl' : st.portPool i = l + rtpDefaultPort := hl
  have hser' : r.transport.serPorts = serverPair l := by
    rw [hser, h.start, hl']
    simp [serverPair]
  have hentry : ∀ j, st'.portPool j = if j = i then 0 else st.portPool j := by
    intro j
    rw [hpool]
    by_cases hj : j = i
    · simp [hj]
    · simp [hj]
  -- pair `l` moves, the others stay where they are
  have hat : ∀ k, k ≠ l → ∀ p, IsAt st' k p ↔ IsAt st k p := by
    intro k hk p
    cases p with
    | pool j =>
      rw [IsAt, IsAt, hentry]
      split
      · rename_i hj
        rw [hj, hl']
        unfold rtpDefaultPort
        omega
      · rfl
    | session s =>
      by_cases hs : s = st.heap.length
      · constructor
        · rintro ⟨q, hq, -, hpair⟩
          rw [hsession, if_pos hs] at hq
          cases hq
          exact absurd (serverPair_inj (hpair.symm.trans hser')) hk
        · rintro ⟨q, hq, -⟩
          exact absurd (Streams.lt_of_session hq) (by omega)
      · rw [IsAt, IsAt, hsession, if_neg hs]
  have hone : ∀ p, IsAt st' l p ↔ p = .session st.heap.length := by
    intro p
    cases p with
    | pool j =>
      simp only [reduceCtorEq, iff_false]
      intro hj
      have hj' : st'.portPool j = l + rtpDefaultPort := hj
      rw [hentry] at hj'
      split at hj'
      · unfold rtpDefaultPort at hj'
        omega
      · rename_i hji
        have := (h.once l).unique hl (show IsAt st l (.pool j) from hj')
        cases this
        exact hji rfl
    | session s =>
      by_cases hs : s = st.heap.length
      · subst hs
        simp only [iff_true]
        exact ⟨r, by rw [hsession, if_pos rfl], hr, hser'⟩
      · simp only [Place.session.injEq, hs, iff_false]
        rintro ⟨q, hq, hu, hpair⟩
        rw [hsession, if_neg hs] at hq
        have := (h.once l).unique hl (show IsAt st l (.session s) from ⟨q, hq, hu, hpair⟩)
        cases this
  refine ⟨⟨?_, ?_, ?_⟩, hstart.trans h.start⟩
  · intro k
    by_cases hk : k = l
    · subst hk
      exact ⟨_, (hone _).mpr rfl, fun p hp => (hone p).mp hp⟩
    · simpa only [hat k hk] using h.once k
  · intro j hj
    rw [hentry] at hj
    split at hj
    · exact absurd rfl hj
    · rename_i hji
      obtain ⟨k, hk⟩ := h.pool j hj
      have hkl : k ≠ l := by
        rintro rfl
        have := (h.once k).unique hl hk
        cases this
        exact hji rfl
      exact ⟨k, (hat k hkl _).mpr hk⟩
  · intro s q hq hu
    rw [hsession] at hq
    split at hq
    · rename_i hs
      cases hq
      exact ⟨l, (hone _).mpr (by rw [hs])⟩
    · obtain ⟨k, hk⟩ := h.held s q hq hu
      have hkl : k ≠ l := by
        rintro rfl
        have := (h.once k).unique hl hk
        cases this
      exact ⟨k, (hat k hkl _).mpr hk⟩

/-! ### Giving a pair back -/

theorem PortInv.free_entry {st : Streams} (h : PortInv st) {k : Fin oneForkMaxConnection} {s : ℕ}
    (hk : IsAt st k (.session s)) : ∃ i, st.portPool i = 0 := by
  by_contra hnone
  push Not at hnone
  choose f hf using fun i => h.pool i (hnone i)
  have hinj : Function.Injective f := by
    intro i j hij
    have hj := hf j
    rw [← hij] at hj
    have := (h.once (f i)).unique (hf i) hj
    cases this
    rfl
  obtain ⟨i, hi⟩ := Finite.injective_iff_surjective.mp hinj k
  have := (h.once k).unique (hi ▸ hf i) hk
  cases this

theorem PortInv.released {st st' : Streams} (h : PortInv st) {s : ℕ} {r : RTPSession}
    (hs : st.session s = some r) (hr : Unicast r)
    (hpool : st'.portPool = (st.RTP_release_port_pair r.transport.serPorts).portPool)
    (hstart : st'.startPort = st.startPort)
    (hsession : ∀ t, st'.session t = if t = s then none else st.session t) : PortInv st' := by
  obtain ⟨l, hl⟩ := h.held s r hs hr
  have hpair : r.transport.serPorts = serverPair l := by
    obtain ⟨q, hq, -, hp⟩ := hl
    rw [hs] at hq
    cases hq
    exact hp
  obtain ⟨i₀, hi₀⟩ := h.free_entry hl
  obtain ⟨i, hi⟩ : ∃ i, st.firstPort false = some i := by
    cases hf : st.firstPort false with
    | some i => exact ⟨i, rfl⟩
    | none =>
      have := List.find?_eq_none.mp hf i₀ (List.mem_finRange i₀)
      simp [hi₀] at this
  have hzero : st.portPool i = 0 := by simpa using List.find?_some hi
  have hentry : ∀ j, st'.portPool j = if j = i then l + rtpDefaultPort else st.portPool j := by
    intro j
    have hvalue : (r.transport.serPorts.RTP - st.startPort).tdiv 2 + st.startPort =
        l + rtpDefaultPort := by
      rw [hpair, h.start]
      simp [serverPair, Int.mul_tdiv_cancel]
    rw [hpool, Streams.RTP_release_port_pair, hi]
    dsimp only
    rw [hvalue]
    by_cases hj : j = i
    · simp [hj]
    · simp [hj]
  have hat : ∀ k, k ≠ l → ∀ p, IsAt st' k p ↔ IsAt st k p := by
    intro k hk p
    cases p with
    | pool j =>
      rw [IsAt, IsAt, hentry]
      split
      · rename_i hj
        rw [hj, hzero]
        unfold rtpDefaultPort
        omega
      · rfl
    | session t =>
      by_cases ht : t = s
      · constructor
        · intro ⟨q, hq, _⟩
          rw [hsession, if_pos ht] at hq
          cases hq
        · intro ⟨q, hq, _, hp⟩
          rw [ht, hs] at hq
          cases hq
          exact absurd (serverPair_inj (hp.symm.trans hpair)) hk
      · rw [IsAt, IsAt, hsession, if_neg ht]
  have hone : ∀ p, IsAt st' l p ↔ p = .pool i := by
    intro p
    cases p with
    | pool j =>
      rw [IsAt, hentry]
      by_cases hj : j = i
      · simp [hj]
      · simp only [hj, if_false, Place.pool.injEq, iff_false]
        intro hp
        have := (h.once l).unique hl (show IsAt st l (.pool j) from hp)
        cases this
    | session t =>
      simp only [reduceCtorEq, iff_false]
      intro ⟨q, hq, hu, hp⟩
      rw [hsession] at hq
      split at hq
      · cases hq
      · rename_i ht
        have := (h.once l).unique hl (show IsAt st l (.session t) from ⟨q, hq, hu, hp⟩)
        cases this
        exact ht rfl
  refine ⟨⟨?_, ?_, ?_⟩, hstart.trans h.start⟩
  · intro k
    by_cases hk : k = l
    · subst hk
      exact ⟨_, (hone _).mpr rfl, fun p hp => (hone p).mp hp⟩
    · simpa only [hat k hk] using h.once k
  · intro j hj
    by_cases hji : j = i
    · exact ⟨l, (hone _).mpr (by rw [hji])⟩
    · rw [hentry, if_neg hji] at hj
      obtain ⟨k, hk⟩ := h.pool j hj
      have hkl : k ≠ l := by
        intro he
        subst he
        have := (h.once k).unique hl hk
        cases this
      exact ⟨k, (hat k hkl _).mpr hk⟩
  · intro t q hq hu
    rw [hsession] at hq
    split at hq
    · cases hq
    · rename_i ht
      obtain ⟨k, hk⟩ := h.held t q hq hu
      have hkl : k ≠ l := by
        intro he
        subst he
        have := (h.once k).unique hl hk
        cases this
        exact ht rfl
      exact ⟨k, (hat k hkl _).mpr hk⟩

theorem PortInv.forgotten {st st' : Streams} (h : PortInv st) {s : ℕ} {r : RTPSession}
    (hs : st.session s = some r) (hr : ¬ Unicast r) (hpool : st'.portPool = st.portPool)
    (hstart : st'.startPort = st.startPort)
    (hsession : ∀ t, st'.session t = if t = s then none else st.session t) : PortInv st' := by
  have hat : ∀ k p, IsAt st' k p ↔ IsAt st k p := by
    intro k p
    cases p with
    | pool i => rw [IsAt, IsAt, hpool]
    | session t =>
      by_cases ht : t = s
      · constructor
        · intro ⟨q, hq, _⟩
          rw [hsession, if_pos ht] at hq
          cases hq
        · intro ⟨q, hq, hu, _⟩
          rw [ht, hs] at hq
          cases hq
          exact absurd hu hr
      · rw [IsAt, IsAt, hsession, if_neg ht]
  refine ⟨⟨?_, ?_, ?_⟩, hstart.trans h.start⟩
  · simpa only [hat] using h.once
  · simpa only [hat, hpool] using h.pool
  · intro t q hq hu
    simp only [hat]
    rw [hsession] at hq
    split at hq
    · cases hq
    · exact h.held t q hq hu

/-- What `RTP_transport_close` does to the pool: a unicast session gives its pair back,
a multicast one a pair that it never took. -/
theorem close_ports {st st' : Streams} {r : RTPSession} (h : st.RTP_transport_close r = some st')
    (hd : r.isMulticastDad = true)
    (hm : r.transport.type = .avp → r.transport.isMulticast = true → st.firstPort false = none) :
    st'.startPort = st.startPort ∧ st'.heap = st.heap ∧
      (Unicast r ∧ st'.portPool = (st.RTP_release_port_pair r.transport.serPorts).portPool ∨
        ¬ Unicast r ∧ st'.portPool = st.portPool) := by
  have hrelease : ∀ (u : Streams) (p : PortPair), (u.RTP_release_port_pair p).startPort =
      u.startPort ∧ (u.RTP_release_port_pair p).heap = u.heap := by
    intro u p
    unfold Streams.RTP_release_port_pair
    split <;> exact ⟨rfl, rfl⟩
  unfold Streams.RTP_transport_close at h
  dsimp only at h
  split at h
  · rename_i ht
    split at h
    · rename_i hmc
      obtain ⟨st₁, hst, rfl⟩ := Option.map_eq_some_iff.mp h
      obtain ⟨d, -, rfl⟩ := Option.map_eq_some_iff.mp hst
      refine ⟨(hrelease _ _).1, (hrelease _ _).2, Or.inr ⟨?_, ?_⟩⟩
      · intro hu
        rw [hu.2.1] at hmc
        cases hmc
      · have hfull : ({ st with sds := st.sds.set r.sdDescr (some { d with
            flMulticastPort := false }) } : Streams).firstPort false = none := hm ht hmc
        simp only [Streams.RTP_release_port_pair, hfull]
    · rename_i hmc
      cases h
      exact ⟨(hrelease _ _).1, (hrelease _ _).2,
        Or.inl ⟨⟨ht, by simpa using hmc, hd⟩, rfl⟩⟩
  · rename_i ht
    cases h
    refine ⟨rfl, rfl, Or.inr ⟨?_, rfl⟩⟩
    intro hu
    rw [hu.1] at ht
    cases ht
  · rename_i ht
    cases h
    refine ⟨rfl, rfl, Or.inr ⟨?_, rfl⟩⟩
    intro hu
    rw [hu.1] at ht
    cases ht

/-! ### Runs -/

/-- The session that a step of the scheduler destroys. -/
def sweeps (st : Streams) : Option RTPSession :=
  st.position.bind fun i =>
    if (st.sched i).valid then none
    else ((st.sched i).rtpSession.bind st.session).filter fun r => r.isMulticastDad

/-- No SETUP takes a pair for a header `Session` that is too long, and no multicast session is
destroyed while an entry of the pool is free. -/
def StepKeepsPorts (sv : Server) : Act → Prop
  | .request k w inp => ∀ rtsp ∈ sv.connection k, ∀ seq, CallsSetup inp rtsp seq →
    LongSession inp → ∀ d m st₁, ¬ Reaches w inp rtsp sv.st d m .unicast st₁
  | .tick _ => ∀ r ∈ sweeps sv.st, r.transport.type = .avp → r.transport.isMulticast = true →
    sv.st.firstPort false = none
  | _ => True

theorem add_ports {st st' : Streams} {s : ℕ} {dad : Bool} {id : ℤ}
    (h : st.schedule_add s dad = (id, st')) :
    st'.portPool = st.portPool ∧ st'.startPort = st.startPort ∧ st'.heap = st.heap := by
  rcases Streams.add_cases st s dad with ⟨i, -, he⟩ | ⟨-, he⟩
  · rw [h] at he
    cases he
    exact ⟨rfl, rfl, rfl⟩
  · rw [h] at he
    cases he
    exact ⟨rfl, rfl, rfl⟩

/-- A SETUP from the header `Session` on. If it has a pair, the header is accepted. -/
theorem PortInv.finished {st st' : Streams} (h : PortInv st) (ha : Accepted st) {w : World}
    {inp : Bytes} {rtsp rtsp' : RTSPBuffer} {object : Bytes} {d m : ℕ} {c : Chosen} {o : Offer}
    {rc : ℤ} (htook : Took w rtsp st d m c o)
    (hsession : o = .unicast → passes (setupSession w inp) = true)
    (hfin : Finished w inp rtsp object d m c rc rtsp' st') : PortInv st' := by
  obtain ⟨hentries, hheap, -⟩ := htook.keeps
  have hstart := htook.startPort
  cases hfin with
  | noSession r hs =>
    have hpool : c.st.portPool = st.portPool := by
      cases htook with
      | unicast =>
        have hpasses := hsession rfl
        rw [passes_error hs] at hpasses
        cases hpasses
      | tcp same => rw [same]
      | multicast eq => exact (Took.multicast_takes (.multicast eq)).1
    exact h.congr ⟨hpool, hstart, fun s => by unfold Streams.session; rw [hheap]⟩
  | notCopied id _ out st₂ hcopy =>
    have hcopied := (ha.copyMedia (w := w) (m := m) hentries).1
    rw [hcopy] at hcopied
    cases hcopied
  | entered sessionId _ out st₂ hcopy id st₃ hadd =>
    obtain ⟨entries, buffers, rfl⟩ := copyMedia_frame hcopy
    obtain ⟨hpool', hstart', hheap'⟩ := add_ports hadd
    have hnew : (st₃.setSession c.st.heap.length (some (fullSession w object d out c id))).heap =
        (st.heap ++ [none]).set st.heap.length (some (fullSession w object d out c id)) := by
      simp only [Streams.setSession, hheap', hheap]
    cases htook with
    | unicast ser port type pair single dad =>
      exact h.took (r := fullSession w object d out c id) port hpool' (hstart'.trans hstart)
        ⟨type, single, dad⟩ pair hnew
    | multicast eq =>
      have hnot : ¬ Unicast (fullSession w object d out c id) := by
        rintro ⟨_, hsingle, hdad⟩
        revert hsingle hdad
        simp only [fullSession]
        rw [eq]
        unfold chooseMulticast
        dsimp only
        split <;> simp
      have hpool : c.st.portPool = st.portPool := (Took.multicast_takes (.multicast eq)).1
      exact h.allocated (hpool'.trans hpool) (hstart'.trans hstart) hnot hnew
    | tcp same type =>
      have hnot : ¬ Unicast (fullSession w object d out c id) := by
        rintro ⟨hu, _⟩
        simp only [fullSession] at hu
        rw [type] at hu
        cases hu
      exact h.allocated (hpool'.trans (by rw [same])) (hstart'.trans hstart) hnot hnew

theorem PortInv.setup {st : Streams} (h : PortInv st) (ha : Accepted st) {w : World} {inp : Bytes}
    {rtsp : RTSPBuffer} (hg : ∀ d m st₁, Reaches w inp rtsp st d m .unicast st₁ →
      passes (setupSession w inp) = true) :
    ∀ out, RTSP_setup w inp rtsp st = some out → PortInv out.2.2 := by
  intro out ho
  cases setup_chose ho with
  | refused same =>
    refine h.congr ⟨same.portPool, same.startPort, fun s => ?_⟩
    unfold Streams.session
    rw [same.heap]
  | @chosen d m n o c object st₁ reaches same _ took finish =>
    have hst₁ : PortInv st₁ := by
      refine h.congr ⟨same.portPool, same.startPort, fun s => ?_⟩
      unfold Streams.session
      rw [same.heap]
    refine hst₁.finished (reaches.accepted ha) took (fun ho => ?_) (finishSetup_finished finish)
    subst ho
    exact hg d m st₁ reaches

theorem PortInv.tick {st st' : Streams} (h : PortInv st) {turn : Turn}
    (hg : ∀ r ∈ sweeps st, r.transport.type = .avp → r.transport.isMulticast = true →
      st.firstPort false = none) (ht : st.schedule_do turn = some st') : PortInv st' := by
  have hstop : ∀ {u : Streams} {s : ℕ} {r : RTPSession}, u.session s = some r →
      ∀ stop, SamePorts u (u.stopped s r stop) := by
    intro u s r hr stop
    cases stop with
    | false => exact ⟨rfl, rfl, fun _ => rfl⟩
    | true => exact samePorts_setSession hr rfl rfl
  rcases Streams.tick_cases ht with ⟨position, rfl⟩ | ⟨i, t, hpos, hv, rfl⟩
  · exact h.congr ⟨rfl, rfl, fun _ => rfl⟩
  · have hinv : PortInv t := by
      cases hv with
      | idle => exact h
      | sent s r _ _ hs _ _ stop => exact h.congr (hstop hs stop)
      | switched s r _ _ hs _ m _ stop =>
        have hsw : SamePorts st (st.stream_switch s r m) := by
          refine ⟨rfl, rfl, fun u => ?_⟩
          rw [Streams.session_switch hs]
          split
          · rename_i hu
            rw [hu, hs]
            rfl
          · rfl
        have hs' : (st.stream_switch s r m).session s = some { r with currentMedia := m } := by
          rw [Streams.session_switch hs, if_pos rfl]
        exact (h.congr hsw).congr (hstop hs' stop)
      | destroyed s r hinvalid hi hs hd t hdestroy =>
        have hsweep : sweeps st = some r := by
          simp [sweeps, hpos, hinvalid, hi, hs, hd]
        obtain ⟨-, -, -, hsession⟩ := destroy_table hs hdestroy
        obtain ⟨st₁, st₂, b, n, hclose, hunref, -, -, rfl⟩ := Streams.destroy_cases hdestroy
        obtain ⟨-, buffers, rfl, -⟩ := Streams.unref_cases hunref
        obtain ⟨hstart, -, hports⟩ := close_ports hclose hd (hg r hsweep)
        refine hports.elim (fun ⟨hu, hpool⟩ => h.released hs hu ?_ ?_ hsession)
          (fun ⟨hu, hpool⟩ => h.forgotten hs hu ?_ ?_ hsession)
        · rw [← hpool]
          simp only [Streams.setEntry, Streams.note]
          split <;> rfl
        · rw [← hstart]
          simp only [Streams.setEntry, Streams.note]
          split <;> rfl
        · rw [← hpool]
          simp only [Streams.setEntry, Streams.note]
          split <;> rfl
        · rw [← hstart]
          simp only [Streams.setEntry, Streams.note]
          split <;> rfl
    exact hinv.congr ⟨rfl, rfl, fun _ => rfl⟩

theorem PortInv.look {st : Streams} (h : PortInv st) (object : Bytes) (found : ParsedSD) :
    PortInv (enum_media st object found).2 := by
  unfold enum_media
  cases found <;> exact h.congr ⟨rfl, rfl, fun _ => rfl⟩

theorem PortInv.plain {st st' : Streams} (h : PortInv st) (hm : MadePlain st st') :
    PortInv st' := by
  obtain ⟨cs, hcs, hrun⟩ := hm
  induction cs generalizing st with
  | nil =>
    cases hrun
    exact h
  | cons c cs ih =>
    obtain ⟨st₁, hs, hrun⟩ := Option.bind_eq_some_iff.mp hrun
    refine ih ?_ (fun d hd => hcs d (List.mem_cons_of_mem _ hd)) hrun
    have hc := hcs c List.mem_cons_self
    cases c with
    | look | setup | tick => cases hc
    | start id =>
      obtain ⟨i, s, r, b, n, -, -, hr, -, -, rfl⟩ := Streams.start_cases hs
      have hrefs : SamePorts st (st.setRefs b (some (BufferPool.incr16 n))) :=
        ⟨rfl, rfl, fun _ => rfl⟩
      exact (h.congr hrefs).congr (samePorts_setSession (r := r) hr rfl rfl)
    | resume id =>
      obtain ⟨i, s, r, -, -, hr, rfl⟩ := Streams.resume_cases hs
      exact h.congr (samePorts_setSession hr rfl rfl)
    | pause s =>
      obtain ⟨r, hr, rfl⟩ := Option.map_eq_some_iff.mp hs
      exact h.congr (samePorts_setSession hr rfl rfl)
    | remove id =>
      obtain ⟨i, -, ⟨s, -, rfl⟩ | ⟨-, rfl⟩⟩ := Streams.remove_cases hs
      · exact h.congr ⟨rfl, rfl, fun _ => rfl⟩
      · exact h.congr ⟨rfl, rfl, fun _ => rfl⟩

theorem PortInv.step {sv sv' : Server} {a : Act} (h : PortInv sv.st) (ha : Accepted sv.st)
    (hg : StepKeepsPorts sv a) (hstep : serverStep sv a = some sv') : PortInv sv'.st := by
  cases a with
  | connect =>
    cases hstep
    exact h
  | fdsets k =>
    obtain ⟨rtsp, -, hstep⟩ := Option.bind_eq_some_iff.mp hstep
    obtain ⟨_, -, rfl⟩ := Option.map_eq_some_iff.mp hstep
    exact h
  | request k w inp =>
    obtain ⟨rtsp, hr, hstep⟩ := Option.bind_eq_some_iff.mp hstep
    obtain ⟨⟨rtsp', st'⟩, hm, rfl⟩ := Option.map_eq_some_iff.mp hstep
    refine message_streams (P := PortInv) h ?_ hm
    intro m seq p x hmethod hs hp hx out ho
    cases x with
    | describe =>
      exact describe_rel (R := fun st st' => PortInv st → PortInv st') (fun _ hi => hi)
        (fun _ _ _ h₁ h₂ hi => h₂ (h₁ hi)) (fun _ object found hi => hi.look object found) out ho h
    | options => exact h.plain (options_plain out ho)
    | setup =>
      obtain ⟨n, hcalls⟩ := CallsSetup.of_cell hmethod hs hp hx
      refine h.setup ha (fun d m st₁ hreaches => ?_) out ho
      by_contra hfails
      have hlong := (setupSession_fails w hs).mp (eq_false_of_ne_true hfails)
      exact hg rtsp hr n hcalls hlong d m st₁ ⟨hreaches.file, hreaches.peer, hreaches.transport⟩
    | play => exact h.plain (play_plain out ho)
    | pause => exact h.plain (pause_plain out ho)
    | teardown => exact h.plain (teardown_plain out ho)
  | close k =>
    obtain ⟨rtsp, st', -, hc, rfl⟩ := close_step hstep
    exact h.plain (closeLoop_plain hc)
  | tick turn =>
    obtain ⟨st', ht, rfl⟩ := Option.map_eq_some_iff.mp hstep
    exact h.tick hg ht

/-- In a run in which no SETUP takes a pair for a header `Session` that is too long and no multicast
session is destroyed while an entry of the pool is free, no pair is lost or doubled. -/
theorem ports_conserved {as : List Act} {sv : Server}
    (h : GuardedRun serverStep StepKeepsPorts Server.init as sv) : Conserved sv.st := by
  have hstep : ∀ s a t, (fun u : Server => PortInv u.st ∧ Accepted u.st) s →
      StepKeepsPorts s a → serverStep s a = some t →
      (fun u : Server => PortInv u.st ∧ Accepted u.st) t :=
    fun _ _ _ hi hg hs => ⟨hi.1.step hi.2 hg hs, hi.2.made (server_made hs)⟩
  exact (h.invariant hstep ⟨PortInv.init, Accepted.init _⟩).1.toConserved

/-- What can be tested of it: every message has a header `Session` with a number or none. -/
def KeepsPorts (sv : Server) : Act → Prop
  | .request _ w inp => passes (setupSession w inp) = true
  | .tick _ => ∀ r ∈ sweeps sv.st, r.transport.type = .avp → r.transport.isMulticast = true →
    sv.st.firstPort false = none
  | _ => True

instance (sv : Server) (a : Act) : Decidable (KeepsPorts sv a) :=
  match a with
  | .request _ w inp => inferInstanceAs (Decidable (passes (setupSession w inp) = true))
  | .tick _ => inferInstanceAs (Decidable (∀ r ∈ sweeps sv.st, r.transport.type = .avp →
      r.transport.isMulticast = true → sv.st.firstPort false = none))
  | .connect | .fdsets _ | .close _ => isTrue trivial

theorem KeepsPorts.step {sv : Server} {a : Act} (h : KeepsPorts sv a) : StepKeepsPorts sv a := by
  cases a with
  | request k w inp =>
    intro rtsp _ seq hcalls hlong
    have hpasses : passes (setupSession w inp) = true := h
    rw [(setupSession_fails w hcalls.session).mpr hlong] at hpasses
    cases hpasses
  | tick => exact h
  | connect | fdsets | close => trivial

/-- Two clients set the film up, the first one leaves and its session is destroyed; then the other
one asks for the sound. -/
def sweptClient : List Act :=
  [.connect, .request 0 onDisk (setupMessage 1 "v.mpg" []), .connect,
    .request 1 {} (setupMessage 1 "v.mpg" []), .close 0, .tick ⟨false, none, 0⟩,
    .tick ⟨false, none, 0⟩, .request 1 {} (setupMessage 2 "a.mp3" ["Session: 1"])]

theorem ports_conserved_swept : ∃ sv, exec serverStep Server.init sweptClient = some sv ∧
    Event.destroyed 0 ∈ sv.st.log ∧ Conserved sv.st := by
  have hrun : allowed serverStep KeepsPorts Server.init sweptClient = true := by
    decide +kernel
  have hends : (exec serverStep Server.init sweptClient).any (fun sv =>
      decide (Event.destroyed 0 ∈ sv.st.log)) = true := by
    decide +kernel
  obtain ⟨sv, hexec, hdestroyed⟩ := (Option.any_eq_true _ _).mp hends
  have hkeeps : GuardedRun serverStep KeepsPorts Server.init sweptClient sv :=
    .of_allowed hrun hexec
  exact ⟨sv, hexec, of_decide_eq_true hdestroyed,
    ports_conserved (hkeeps.mono fun _ _ hk => hk.step)⟩

/-- A client whose first SETUP has a header `Session` that is too long. -/
def refusedClient : List Act := [.connect, .request 0 onDisk (setupMessage 1 "v.mpg" [longSession])]

/-- The pair that was taken for it is in no place. -/
theorem refused_setup_loses_pair : ¬ ∀ (as : List Act) (sv : Server),
    exec serverStep Server.init as = some sv → Conserved sv.st := by
  intro h
  have hends : (exec serverStep Server.init refusedClient).any (fun sv =>
      decide (∀ i, sv.st.portPool i ≠ (0 : Fin oneForkMaxConnection) + rtpDefaultPort) &&
        sv.st.heap.isEmpty) = true := by
    decide +kernel
  obtain ⟨sv, hexec, hends⟩ := (Option.any_eq_true _ _).mp hends
  obtain ⟨hpool, hheap⟩ := Bool.and_eq_true_iff.mp hends
  have hpool := of_decide_eq_true hpool
  obtain ⟨p, hp, -⟩ := (h _ sv hexec).once 0
  cases p with
  | pool i => exact hpool i hp
  | session s =>
    obtain ⟨r, hr, -⟩ := hp
    rw [Streams.session, List.isEmpty_iff.mp hheap] at hr
    cases hr

end Fenice.Rtsp
