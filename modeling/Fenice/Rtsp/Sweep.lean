import Fenice.Rtsp.Acquire
import Fenice.Schedule.Frame

/-!
# Sessions that leave the schedule

`schedule_remove` only marks an entry; the session is destroyed when the scheduler
comes by. Until then the entry must not be given to another session.
-/

namespace Fenice.Rtsp
open Fenice.CString Fenice.Schedule Fenice.Run

/-- The transport with which a SETUP comes to `schedule_add`, if it does. -/
def reachesAdd (w : World) (inp : Bytes) (rtsp : RTSPBuffer) (d m : ℕ) (tkns : List Bytes)
    (st : Streams) : Option Chosen :=
  match (chooseTransport w rtsp st d m tkns).run, (setupSession w inp).run with
  | some (.ok c), some (.ok _) => if (copyMedia w m c).2.1 then some c else none
  | _, _ => none

structure SameTable (st st' : Streams) : Prop where
  sched : st'.sched = st.sched
  log : st'.log = st.log
  size : st'.heap.length = st.heap.length
  dads : ∀ s, (st'.session s).map RTPSession.isMulticastDad =
    (st.session s).map RTPSession.isMulticastDad

theorem SameTable.refl (st : Streams) : SameTable st st := ⟨rfl, rfl, rfl, fun _ => rfl⟩

theorem SameTable.trans {st st' st'' : Streams} (h : SameTable st st') (h' : SameTable st' st'') :
    SameTable st st'' :=
  ⟨h'.sched.trans h.sched, h'.log.trans h.log, h'.size.trans h.size,
    fun s => (h'.dads s).trans (h.dads s)⟩

theorem sameTable_setSession {st : Streams} {s : ℕ} {r r' : RTPSession}
    (hr : st.session s = some r) (hd : r'.isMulticastDad = r.isMulticastDad) :
    SameTable st (st.setSession s (some r')) where
  sched := rfl
  log := rfl
  size := by simp [Streams.setSession]
  dads := by
    intro t
    rw [Streams.session_setSession (Streams.lt_of_session hr)]
    split
    · rename_i ht
      rw [ht, hr, Option.map_some, Option.map_some, hd]
    · rfl

theorem sameTable_setMedia (st : Streams) (m : ℕ) (e : MediaEntry) :
    SameTable st (st.setMedia m e) := ⟨rfl, rfl, rfl, fun _ => rfl⟩

theorem sameTable_setRefs (st : Streams) (b : ℕ) (n : Option ℕ) :
    SameTable st (st.setRefs b n) := ⟨rfl, rfl, rfl, fun _ => rfl⟩

/-- Each session of the table is held by one entry until it is destroyed, which happens
once; an entry that waits for the scheduler holds a session that will be destroyed. -/
structure NoneDropped (st : Streams) : Prop where
  held : ∀ i s, (st.sched i).rtpSession = some s →
    (st.session s).map RTPSession.isMulticastDad = some true
  once : ∀ s, Event.added s ∈ st.log →
    (∃ i, (st.sched i).rtpSession = some s ∧ Event.destroyed s ∉ st.log ∧
      (Event.removed s ∈ st.log → (st.sched i).valid = false)) ∨
    (st.log.count (.destroyed s) = 1 ∧ st.session s = none)

/-- The invariant behind it. -/
structure TableInv (st : Streams) : Prop extends NoneDropped st where
  single : ∀ i j s, (st.sched i).rtpSession = some s → (st.sched j).rtpSession = some s → i = j
  noted : ∀ i s, (st.sched i).rtpSession = some s → Event.added s ∈ st.log
  known : ∀ s, Event.added s ∈ st.log ∨ Event.removed s ∈ st.log ∨ Event.destroyed s ∈ st.log →
    s < st.heap.length

theorem TableInv.init (port : ℤ) : TableInv (Streams.init port) := by
  constructor
  · constructor <;> intros <;> simp_all [Streams.init]
  all_goals intros; simp_all [Streams.init]

theorem TableInv.congr {st st' : Streams} (h : TableInv st) (hs : SameTable st st') :
    TableInv st' where
  held := by
    intro i s hi
    rw [hs.sched] at hi
    rw [hs.dads, h.held i s hi]
  once := by
    intro s hadd
    rw [hs.log] at hadd ⊢
    rw [hs.sched]
    have hnone : st'.session s = none ↔ st.session s = none := by
      have := hs.dads s
      rw [← Option.map_eq_none_iff, this, Option.map_eq_none_iff]
    rw [hnone]
    exact h.once s hadd
  single := by
    rw [hs.sched]
    exact h.single
  noted := by
    rw [hs.sched, hs.log]
    exact h.noted
  known := by
    rw [hs.log, hs.size]
    exact h.known

/-! ### What SETUP does to the table -/

theorem sameTable_port {st st' : Streams} {ser : PortPair}
    (h : st.RTP_get_port_pair = some (ser, st')) : SameTable st st' := by
  obtain ⟨i, -, he⟩ := Option.map_eq_some_iff.mp h
  cases he
  exact ⟨rfl, rfl, rfl, fun _ => rfl⟩

theorem sameTable_multicast (w : World) (rtsp : RTSPBuffer) (st : Streams) (d m : ℕ) :
    SameTable st (chooseMulticast w rtsp st d m).st := by
  unfold chooseMulticast
  dsimp only
  split <;> exact ⟨rfl, rfl, rfl, fun _ => rfl⟩

theorem Took.sameTable {w : World} {rtsp : RTSPBuffer} {st : Streams} {d m : ℕ} {c : Chosen}
    {o : Offer} (h : Took w rtsp st d m c o) : SameTable st c.st := by
  cases h with
  | unicast ser port => exact sameTable_port port
  | multicast eq =>
    rw [eq]
    exact sameTable_multicast w rtsp st d m
  | tcp same =>
    rw [same]
    exact .refl st

/-- A session was allocated, but it is not in the table. -/
structure Grown (st st' : Streams) : Prop where
  sched : st'.sched = st.sched
  log : st'.log = st.log
  size : st'.heap.length = st.heap.length + 1
  dads : ∀ s < st.heap.length, (st'.session s).map RTPSession.isMulticastDad =
    (st.session s).map RTPSession.isMulticastDad

theorem TableInv.grown {st st' : Streams} (h : TableInv st) (hs : Grown st st') :
    TableInv st' := by
  have hlt : ∀ {i s}, (st.sched i).rtpSession = some s → s < st.heap.length :=
    fun {i s} hi => h.known s (Or.inl (h.noted i s hi))
  constructor
  · constructor
    · intro i s hi
      rw [hs.sched] at hi
      rw [hs.dads s (hlt hi), h.held i s hi]
    · intro s hadd
      rw [hs.log] at hadd ⊢
      rw [hs.sched]
      have hnone : st'.session s = none ↔ st.session s = none := by
        rw [← Option.map_eq_none_iff, hs.dads s (h.known s (Or.inl hadd)), Option.map_eq_none_iff]
      rw [hnone]
      exact h.once s hadd
  · rw [hs.sched]
    exact h.single
  · rw [hs.sched, hs.log]
    exact h.noted
  · intro s hk
    rw [hs.log] at hk
    have := h.known s hk
    rw [hs.size]
    omega

theorem mediacpy_frame {st st' : Streams} {out out' source : ℕ} {shmMap ok : Bool}
    (h : mediacpy st out source shmMap = (out', ok, st')) :
    ∃ entries buffers, st' = { st with entries := entries, buffers := buffers } := by
  have hcopied : ∃ entries, (st.copied out source).2 = { st with entries := entries } := by
    unfold Streams.copied
    split <;> exact ⟨_, rfl⟩
  obtain ⟨entries, hc⟩ := hcopied
  cases Streams.mediacpy_cases h with
  | kind => exact ⟨_, _, rfl⟩
  | mapped | shared =>
    rw [hc]
    exact ⟨_, _, rfl⟩
  | fresh =>
    rw [hc]
    exact ⟨_, _, rfl⟩

theorem copyMedia_frame {w : World} {m out : ℕ} {c : Chosen} {ok : Bool} {st : Streams}
    (h : copyMedia w m c = (out, ok, st)) :
    ∃ entries buffers,
      st = { c.st with heap := c.st.heap ++ [none], entries := entries, buffers := buffers } := by
  unfold copyMedia at h
  split at h
  · obtain ⟨entries, buffers, rfl⟩ := mediacpy_frame h
    exact ⟨entries, buffers, rfl⟩
  · cases h
    exact ⟨_, _, rfl⟩

theorem grown_half {w : World} {m out : ℕ} {c : Chosen} {ok : Bool} {st : Streams}
    (h : copyMedia w m c = (out, ok, st)) (r : RTPSession) :
    Grown c.st (st.setSession c.st.heap.length (some r)) := by
  obtain ⟨entries, buffers, rfl⟩ := copyMedia_frame h
  refine ⟨rfl, rfl, by simp [Streams.setSession], fun s hs => ?_⟩
  rw [@Streams.session_new c.st _ (some r) rfl, if_neg (Nat.ne_of_lt hs)]

theorem grown_full {w : World} {m out : ℕ} {c : Chosen} {st : Streams}
    (h : copyMedia w m c = (out, true, st)) (r : RTPSession) (hfull : st.firstInvalid = none)
    {id : ℤ} {st' : Streams} (ha : st.schedule_add c.st.heap.length c.dad = (id, st')) :
    Grown c.st (st'.setSession c.st.heap.length (some r)) := by
  rcases Streams.add_cases st c.st.heap.length c.dad with ⟨i, hi, -⟩ | ⟨-, he⟩
  · rw [hfull] at hi
    cases hi
  · rw [ha] at he
    cases he
    exact grown_half h r

theorem TableInv.entered {st : Streams} (h : TableInv st) {entries : List MediaEntry}
    {buffers : List (Option ℕ)} {i : Fin oneForkMaxConnection} {r : RTPSession}
    (hfree : (st.sched i).rtpSession = none) (hdad : r.isMulticastDad = true) (dad : Bool) :
    TableInv (((({ st with heap := st.heap ++ [none], entries := entries, buffers := buffers } :
      Streams).enlist i st.heap.length dad).note (.added st.heap.length)).setSession st.heap.length
        (some r)) := by
  have hlt : ∀ {j s}, (st.sched j).rtpSession = some s → s < st.heap.length :=
    fun {j s} hj => h.known s (Or.inl (h.noted j s hj))
  have hnew : ∀ j, (st.sched j).rtpSession ≠ some st.heap.length :=
    fun j hj => absurd (hlt hj) (lt_irrefl _)
  set st' := (((({ st with heap := st.heap ++ [none], entries := entries, buffers := buffers } :
      Streams).enlist i st.heap.length dad).note (.added st.heap.length)).setSession st.heap.length
        (some r)) with hst'
  have hsched : ∀ j, st'.sched j = if j = i then
      { valid := true, rtpSession := some st.heap.length,
        playAction := dad || (st.sched i).playAction } else st.sched j := by
    intro j
    by_cases hj : j = i
    · subst hj
      simp [hst', Streams.setSession, Streams.note, Streams.enlist, Streams.setEntry]
    · simp [hst', Streams.setSession, Streams.note, Streams.enlist, Streams.setEntry, hj]
  have hlog : st'.log = st.log ++ [.added st.heap.length] := rfl
  have hsession : ∀ s, st'.session s = if s = st.heap.length then some r else st.session s :=
    Streams.session_new rfl
  have hheld : ∀ j s, (st'.sched j).rtpSession = some s →
      (j = i ∧ s = st.heap.length) ∨ (j ≠ i ∧ (st.sched j).rtpSession = some s) := by
    intro j s hj
    rw [hsched] at hj
    split at hj
    · rename_i he
      exact Or.inl ⟨he, (Option.some.inj hj).symm⟩
    · rename_i he
      exact Or.inr ⟨he, hj⟩
  have hsize : st'.heap.length = st.heap.length + 1 := by
    simp [hst', Streams.setSession, Streams.note, Streams.enlist, Streams.setEntry]
  constructor
  · constructor
    · intro j s hj
      rw [hsession]
      rcases hheld j s hj with ⟨-, rfl⟩ | ⟨-, hold⟩
      · rw [if_pos rfl, Option.map_some, hdad]
      · rw [if_neg (Nat.ne_of_lt (hlt hold)), h.held j s hold]
    · intro s hadd
      rw [hlog, List.mem_append, List.mem_singleton] at hadd
      by_cases hs : s = st.heap.length
      · refine Or.inl ⟨i, by rw [hsched, if_pos rfl, hs], ?_, ?_⟩
        · rw [hlog, List.mem_append, List.mem_singleton]
          rintro (hd | hd)
          · have := h.known s (Or.inr (Or.inr hd))
            omega
          · cases hd
        · rw [hlog, List.mem_append, List.mem_singleton]
          rintro (hd | hd)
          · have := h.known s (Or.inr (Or.inl hd))
            omega
          · cases hd
      · have hadd' : Event.added s ∈ st.log := by
          rcases hadd with hadd | hadd
          · exact hadd
          · cases hadd
            exact absurd rfl hs
        rcases h.once s hadd' with ⟨j, hj, hd, hr⟩ | ⟨hcount, hnone⟩
        · have hji : j ≠ i := by
            rintro rfl
            rw [hfree] at hj
            cases hj
          refine Or.inl ⟨j, by rw [hsched, if_neg hji, hj], ?_, ?_⟩
          · simpa [hlog] using hd
          · rw [hsched, if_neg hji]
            intro hrem
            exact hr (by simpa [hlog] using hrem)
        · refine Or.inr ⟨?_, by rw [hsession, if_neg hs, hnone]⟩
          rw [hlog, List.count_append, hcount]
          simp
  · intro j k s hj hk
    rcases hheld j s hj with ⟨rfl, rfl⟩ | ⟨hj', hold⟩
    · rcases hheld k _ hk with ⟨rfl, -⟩ | ⟨-, hk'⟩
      · rfl
      · exact absurd hk' (hnew k)
    · rcases hheld k s hk with ⟨rfl, rfl⟩ | ⟨-, hk'⟩
      · exact absurd hold (hnew j)
      · exact h.single j k s hold hk'
  · intro j s hj
    rw [hlog, List.mem_append, List.mem_singleton]
    rcases hheld j s hj with ⟨-, rfl⟩ | ⟨-, hold⟩
    · exact Or.inr rfl
    · exact Or.inl (h.noted j s hold)
  · intro s hk
    rw [hsize]
    simp only [hlog, List.mem_append, List.mem_singleton, Event.added.injEq, reduceCtorEq,
      or_false] at hk
    by_cases hs : s = st.heap.length
    · omega
    · have := h.known s (by tauto)
      omega

theorem TableInv.removed {st st' : Streams} (h : TableInv st) {id : ℤ}
    (hr : st.schedule_remove id = some st') : TableInv st' := by
  obtain ⟨i, -, hcases⟩ := Streams.remove_cases hr
  have hsched : ∀ j, ((st.unlist i).sched j).rtpSession = (st.sched j).rtpSession ∧
      ((st.sched j).valid = false → ((st.unlist i).sched j).valid = false) ∧
      (j = i → ((st.unlist i).sched j).valid = false) := by
    intro j
    by_cases hj : j = i
    · subst hj
      simp [Streams.unlist, Streams.setEntry]
    · simp [Streams.unlist, Streams.setEntry, hj]
  rcases hcases with ⟨s, hs, rfl⟩ | ⟨hnone, rfl⟩
  · have hlog : ((st.unlist i).note (.removed s)).log = st.log ++ [.removed s] := rfl
    constructor
    · constructor
      · intro j t hj
        exact h.held j t ((hsched j).1 ▸ hj)
      · intro t hadd
        have hadd' : Event.added t ∈ st.log := by simpa [hlog] using hadd
        rcases h.once t hadd' with ⟨j, hj, hd, hrem⟩ | ⟨hcount, hdead⟩
        · refine Or.inl ⟨j, (hsched j).1.trans hj, by simpa [hlog] using hd, ?_⟩
          intro hr'
          simp only [hlog, List.mem_append, List.mem_singleton, Event.removed.injEq] at hr'
          rcases hr' with hr' | rfl
          · exact (hsched j).2.1 (hrem hr')
          · exact (hsched j).2.2 (h.single j i t hj hs)
        · exact Or.inr ⟨by simpa [hlog] using hcount, hdead⟩
    · intro j k t hj hk
      exact h.single j k t ((hsched j).1 ▸ hj) ((hsched k).1 ▸ hk)
    · intro j t hj
      rw [hlog, List.mem_append]
      exact Or.inl (h.noted j t ((hsched j).1 ▸ hj))
    · intro t hk
      simp only [hlog, List.mem_append, List.mem_singleton, Event.removed.injEq, reduceCtorEq,
        or_false] at hk
      by_cases ht : t = s
      · rw [ht]
        exact h.known s (Or.inl (h.noted i s hs))
      · exact h.known t (by tauto)
  · constructor
    · constructor
      · intro j t hj
        exact h.held j t ((hsched j).1 ▸ hj)
      · intro t hadd
        rcases h.once t hadd with ⟨j, hj, hd, hrem⟩ | hdead
        · exact Or.inl ⟨j, (hsched j).1.trans hj, hd, fun hr' => (hsched j).2.1 (hrem hr')⟩
        · exact Or.inr hdead
    · intro j k t hj hk
      exact h.single j k t ((hsched j).1 ▸ hj) ((hsched k).1 ▸ hk)
    · intro j t hj
      exact h.noted j t ((hsched j).1 ▸ hj)
    · exact h.known

/-- `RTP_session_destroy` takes the session off the heap and notes it; the table and
the other sessions stay. -/
theorem destroy_table {st st' : Streams} {s : ℕ} {r : RTPSession} (hs : st.session s = some r)
    (h : st.RTP_session_destroy s r = some st') :
    st'.sched = st.sched ∧ st'.log = st.log ++ [.destroyed s] ∧
      st'.heap.length = st.heap.length ∧
      ∀ t, st'.session t = if t = s then none else st.session t := by
  obtain ⟨st₁, st₂, b, n, hclose, hunref, -, -, rfl⟩ := Streams.destroy_cases h
  obtain ⟨portPool, sds, closed, rfl⟩ := Streams.close_cases hclose
  obtain ⟨-, buffers, rfl, -⟩ := Streams.unref_cases hunref
  have hlt := Streams.lt_of_session hs
  refine ⟨?_, ?_, ?_, fun t => ?_⟩
  · split <;> rfl
  · split <;> rfl
  · split <;> simp [Streams.note, Streams.setSession, Streams.setRefs, Streams.setMedia]
  · have hset : ∀ (u : Streams), u.heap = st.heap →
        ((u.setSession s none).note (.destroyed s)).session t =
          if t = s then none else st.session t := by
      intro u hu
      have := @Streams.session_setSession u s (hu ▸ hlt) none t
      simpa [Streams.note, Streams.session, hu] using this
    split
    · exact hset _ rfl
    · exact hset _ rfl

theorem TableInv.destroyed {st t : Streams} (h : TableInv st) {i : Fin oneForkMaxConnection}
    {s : ℕ} {r : RTPSession} (hi : (st.sched i).rtpSession = some s)
    (hs : st.session s = some r) (hd : st.RTP_session_destroy s r = some t) :
    TableInv (t.setEntry i { t.sched i with rtpSession := none }) := by
  obtain ⟨hsched, hlog, hsize, hsession⟩ := destroy_table hs hd
  have hentry : ∀ j u, ((t.setEntry i { t.sched i with rtpSession := none }).sched j).rtpSession =
      some u ↔ j ≠ i ∧ (st.sched j).rtpSession = some u := by
    intro j u
    by_cases hj : j = i
    · subst hj
      simp [Streams.setEntry]
    · simp [Streams.setEntry, hj, hsched]
  have hvalid : ∀ j, ((t.setEntry i { t.sched i with rtpSession := none }).sched j).valid =
      (st.sched j).valid := by
    intro j
    by_cases hj : j = i
    · subst hj
      simp [Streams.setEntry, hsched]
    · simp [Streams.setEntry, hj, hsched]
  have hlog' : (t.setEntry i { t.sched i with rtpSession := none }).log =
      st.log ++ [.destroyed s] := hlog
  have hother : ∀ j u, j ≠ i → (st.sched j).rtpSession = some u → u ≠ s := by
    rintro j u hj hu rfl
    exact hj (h.single j i u hu hi)
  -- it has not been destroyed before
  have hfresh : Event.destroyed s ∉ st.log := by
    rcases h.once s (h.noted i s hi) with ⟨-, -, hn, -⟩ | ⟨-, hdead⟩
    · exact hn
    · rw [hs] at hdead
      cases hdead
  constructor
  · constructor
    · intro j u hj
      obtain ⟨hji, hu⟩ := (hentry j u).mp hj
      have : (t.setEntry i { t.sched i with rtpSession := none }).session u = t.session u := rfl
      rw [this, hsession, if_neg (hother j u hji hu), h.held j u hu]
    · intro u hadd
      have hadd' : Event.added u ∈ st.log := by simpa [hlog'] using hadd
      by_cases hus : u = s
      · subst hus
        refine Or.inr ⟨?_, ?_⟩
        · rw [hlog', List.count_append, List.count_eq_zero_of_not_mem hfresh]
          simp
        · exact (hsession u).trans (if_pos rfl)
      · rcases h.once u hadd' with ⟨j, hj, hn, hrem⟩ | ⟨hcount, hdead⟩
        · have hji : j ≠ i := by
            rintro rfl
            rw [hi] at hj
            exact hus (Option.some.inj hj).symm
          refine Or.inl ⟨j, (hentry j u).mpr ⟨hji, hj⟩, ?_, ?_⟩
          · simp [hlog', hn, hus]
          · intro hr
            rw [hvalid]
            exact hrem (by simpa [hlog'] using hr)
        · refine Or.inr ⟨?_, ?_⟩
          · rw [hlog', List.count_append, hcount]
            simp [Ne.symm hus]
          · exact (hsession u).trans ((if_neg hus).trans hdead)
  · intro j k u hj hk
    exact h.single j k u ((hentry j u).mp hj).2 ((hentry k u).mp hk).2
  · intro j u hj
    rw [hlog', List.mem_append]
    exact Or.inl (h.noted j u ((hentry j u).mp hj).2)
  · intro u hk
    have hsize' : (t.setEntry i { t.sched i with rtpSession := none }).heap.length =
        st.heap.length := hsize
    rw [hsize']
    simp only [hlog', List.mem_append, List.mem_singleton, Event.destroyed.injEq, reduceCtorEq,
      or_false] at hk
    by_cases hus : u = s
    · rw [hus]
      exact Streams.lt_of_session hs
    · exact h.known u (by tauto)

theorem TableInv.tick {st st' : Streams} (h : TableInv st) {turn : Turn}
    (ht : st.schedule_do turn = some st') : TableInv st' := by
  have hstop : ∀ {u : Streams} {s : ℕ} {r : RTPSession}, u.session s = some r →
      ∀ stop, SameTable u (u.stopped s r stop) := by
    intro u s r hr stop
    cases stop with
    | false => exact .refl u
    | true => exact sameTable_setSession hr rfl
  rcases Streams.tick_cases ht with ⟨position, rfl⟩ | ⟨i, t, -, hv, rfl⟩
  · exact h.congr ⟨rfl, rfl, rfl, fun _ => rfl⟩
  · have hinv : TableInv t := by
      cases hv with
      | idle => exact h
      | sent s r _ _ hs _ _ stop => exact h.congr (hstop hs stop)
      | switched s r _ _ hs _ m _ stop =>
        have hsw : SameTable st (st.stream_switch s r m) :=
          (sameTable_setMedia st m _).trans (sameTable_setSession (r := r) hs rfl)
        have hs' : (st.stream_switch s r m).session s = some { r with currentMedia := m } := by
          rw [Streams.session_switch hs, if_pos rfl]
        exact (h.congr hsw).congr (hstop hs' stop)
      | destroyed s r _ hi hs _ t hd => exact h.destroyed hi hs hd
    exact hinv.congr ⟨rfl, rfl, rfl, fun _ => rfl⟩

/-! ### Runs -/

/-- If a SETUP comes to `schedule_add`, it finds an entry that holds nothing, and its
session is one that the scheduler destroys. -/
def EntersFree (st : Streams) : Call → Prop
  | .setup w inp rtsp _ d m tkns =>
    ∀ c ∈ reachesAdd w inp rtsp d m tkns st, ∀ i ∈ st.firstInvalid,
      (st.sched i).rtpSession = none ∧ c.dad = true
  | _ => True

instance (st : Streams) (c : Call) : Decidable (EntersFree st c) := by
  cases c <;> dsimp only [EntersFree] <;> infer_instance

theorem TableInv.setup {st st' : Streams} (h : TableInv st) {w : World} {inp : Bytes}
    {rtsp : RTSPBuffer} {object : Bytes} {d m : ℕ} {tkns : List Bytes}
    (hg : EntersFree st (.setup w inp rtsp object d m tkns))
    (hs : callStep st (.setup w inp rtsp object d m tkns) = some st') : TableInv st' := by
  obtain ⟨⟨rc, rtsp', st₁⟩, hfrom, rfl⟩ := Option.map_eq_some_iff.mp hs
  rcases setupFrom_cases hfrom with ⟨r, -, -, -, hst⟩ | ⟨c, hc, hfin⟩
  · dsimp only
    rw [hst]
    exact h
  · obtain ⟨o, tkn, -, htook⟩ := chooseTransport_took hc
    have hc' := h.congr htook.sameTable
    cases hfin with
    | noSession => exact hc'
    | notCopied id _ out st₂ hcopy => exact hc'.grown (grown_half hcopy _)
    | entered sessionId hsession out st₂ hcopy id st₃ ha =>
      cases hi : st₂.firstInvalid with
      | none => exact hc'.grown (grown_full hcopy _ hi ha)
      | some i =>
        have hreach : reachesAdd w inp rtsp d m tkns st = some c := by
          simp only [reachesAdd, hc, hsession, hcopy, if_true]
        have hsched := htook.sameTable.sched
        obtain ⟨entries, buffers, rfl⟩ := copyMedia_frame hcopy
        have hi' : st.firstInvalid = some i := by
          rw [← hi]
          unfold Streams.firstInvalid
          rw [← hsched]
        obtain ⟨hfree, hdad⟩ := hg c hreach i hi'
        rcases Streams.add_cases { c.st with heap := c.st.heap ++ [none], entries := entries, buffers := buffers } c.st.heap.length c.dad with
          ⟨j, hj, he⟩ | ⟨hnone, -⟩
        · rw [hi] at hj
          cases hj
          rw [ha] at he
          cases he
          exact hc'.entered (by rw [hsched]; exact hfree) hdad c.dad
        · rw [hi] at hnone
          cases hnone

theorem TableInv.call {st st' : Streams} (h : TableInv st) {c : Call} (hg : EntersFree st c)
    (hs : callStep st c = some st') : TableInv st' := by
  cases c with
  | look object found =>
    cases hs
    unfold enum_media
    cases found <;> exact h.congr ⟨rfl, rfl, rfl, fun _ => rfl⟩
  | setup => exact h.setup hg hs
  | start id =>
    obtain ⟨i, s, r, b, n, -, -, hr, -, -, rfl⟩ := Streams.start_cases hs
    exact (h.congr (sameTable_setRefs st b _)).congr
      (sameTable_setSession (r := r) hr rfl)
  | resume id =>
    obtain ⟨i, s, r, -, -, hr, rfl⟩ := Streams.resume_cases hs
    exact h.congr (sameTable_setSession hr rfl)
  | pause s =>
    obtain ⟨r, hr, rfl⟩ := Option.map_eq_some_iff.mp hs
    exact h.congr (sameTable_setSession hr rfl)
  | remove id => exact h.removed hs
  | tick turn => exact h.tick hs

/-- In a run in which every session enters the table at an entry that holds nothing, no
session is dropped without being destroyed. -/
theorem none_dropped {port : ℤ} {cs : List Call} {st : Streams}
    (h : GuardedRun callStep EntersFree (Streams.init port) cs st) : NoneDropped st := by
  have hstep : ∀ s c t, TableInv s → EntersFree s c → callStep s c = some t → TableInv t :=
    fun _ _ _ hi hg hs => hi.call hg hs
  exact (h.invariant hstep (TableInv.init port)).toNoneDropped

/-- A presentation with a film and its sound, looked up by a SETUP. -/
def film : SDFile where
  streams := [{ filename := lit "v.mpg", mtype := .video, encodingName := lit "MPV" },
    { filename := lit "a.mp3", encodingName := lit "MPA" }]

def lookFilm : Call := .look (lit "film.sd") (.parsed film)

/-- The SETUP of entry `m` with a unicast transport. -/
def setupUnicast (m : ℕ) : Call :=
  .setup {} [] RTSP_initserver (lit "film.sd") 0 m [lit "RTP/AVP;unicast;client_port=3000-3001"]

/-- The state that some calls lead to from the start. -/
def reached (cs : List Call) : Streams :=
  (exec callStep (Streams.init rtpDefaultPort) cs).getD (Streams.init rtpDefaultPort)

theorem exec_reached {cs : List Call}
    (h : (exec callStep (Streams.init rtpDefaultPort) cs).isSome = true) :
    exec callStep (Streams.init rtpDefaultPort) cs = some (reached cs) := by
  obtain ⟨st, hst⟩ := Option.isSome_iff_exists.mp h
  rw [reached, hst]
  rfl

/-- Two sessions, of which the first is removed and swept. -/
def sweptRun : List Call :=
  [lookFilm, setupUnicast 0, setupUnicast 1, .remove 0, .tick ⟨false, none, 0⟩,
    .tick ⟨false, none, 0⟩, setupUnicast 0]

theorem none_dropped_swept : ∃ st, exec callStep (Streams.init rtpDefaultPort) sweptRun = some st ∧
    Event.destroyed 0 ∈ st.log ∧ NoneDropped st := by
  have hrun : allowed callStep EntersFree (Streams.init rtpDefaultPort) sweptRun = true := by
    decide +kernel
  have he := @exec_reached sweptRun (by decide +kernel)
  exact ⟨_, he, by decide +kernel, none_dropped (.of_allowed hrun he)⟩

/-- The last client leaves, the scheduler waits, and the entry is given away. -/
def droppedRun : List Call :=
  [lookFilm, setupUnicast 0, .remove 0, .tick ⟨false, none, 0⟩, setupUnicast 0]

theorem removed_session_dropped :
    ¬ ∀ (cs : List Call) (st : Streams),
      exec callStep (Streams.init rtpDefaultPort) cs = some st → NoneDropped st := by
  intro h
  have hn := h droppedRun _ (exec_reached (by decide +kernel))
  have hno : ∀ i, ((reached droppedRun).sched i).rtpSession ≠ some 0 := by decide +kernel
  have hcount : (reached droppedRun).log.count (.destroyed 0) = 0 := by decide +kernel
  rcases hn.once 0 (by decide +kernel) with ⟨i, hi, -⟩ | ⟨hone, -⟩
  · exact hno i hi
  · rw [hcount] at hone
    cases hone

end Fenice.Rtsp
