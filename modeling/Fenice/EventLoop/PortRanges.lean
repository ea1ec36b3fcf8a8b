import Fenice.EventLoop.Loop
import Fenice.Schedule.Calls
import Mathlib

/-!
# Port pairs and the ranges of the processes (rtp/RTP_*port_pair.c, eventloop.c)

An entry of `port_pool` is zero or stands for a pair of ports; pairs come back into any zero
entry. What is in the pool and what is outstanding together are always the pairs of the range
that the process was given.
-/

namespace Fenice.Schedule
open Fenice.Run

namespace Streams

def RTP_port_pool_init (st : Streams) (port : ℤ) : Streams :=
  { st with startPort := port, portPool := fun i => i + port }

/-- What `RTP_release_port_pair` returns is `ERR_NOERROR`. -/
def releases (st : Streams) : Bool := (st.firstPort false).isSome

end Streams

inductive PortCall where
  | get
  | release (pair : PortPair)
  deriving DecidableEq

/-- The pairs that were taken and not released yet beside the pool. -/
structure Allocator where
  st : Streams
  outstanding : List PortPair

/-- Only a pair that is outstanding is released. -/
def portStep (a : Allocator) : PortCall → Option Allocator
  | .get =>
    match a.st.RTP_get_port_pair with
    | some (pair, st) => some ⟨st, pair :: a.outstanding⟩
    | none => some a
  | .release pair =>
    if pair ∈ a.outstanding then
      some ⟨a.st.RTP_release_port_pair pair, a.outstanding.erase pair⟩
    else none

/-- The ports of a process whose pool begins at `port`. -/
def portRange (port : ℤ) : Set ℤ := Set.Ico port (port + 2 * oneForkMaxConnection)

/-- The ports that a list of pairs uses. -/
def ports (l : List PortPair) : List ℤ := l.flatMap fun p => [p.RTP, p.RTCP]

/-- What the callers of the pool rely on. -/
structure Allocates (port : ℤ) (a : Allocator) : Prop where
  different : (ports a.outstanding).Nodup
  inRange : ∀ x ∈ ports a.outstanding, x ∈ portRange port
  pairs : ∀ p ∈ a.outstanding, p.RTCP = p.RTP + 1 ∧ Even (p.RTP - port)
  exhausted : a.st.RTP_get_port_pair = none ↔ a.outstanding.length = oneForkMaxConnection
  released : ∀ p ∈ a.outstanding, a.st.releases = true

/-! ### The entries of the pool -/

/-- What an entry adds to the pairs that can be had. -/
def entryValue (v : ℤ) : Multiset ℤ := if v = 0 then 0 else {v}

def freeValues (pool : Fin oneForkMaxConnection → ℤ) : Multiset ℤ := ∑ i, entryValue (pool i)

/-- The pair an entry stands for. -/
def pairOf (port v : ℤ) : PortPair := ⟨(v - port) * 2 + port, (v - port) * 2 + port + 1⟩

/-- The entries of a pool nothing was taken from. -/
def allValues (port : ℤ) : Multiset ℤ :=
  Finset.univ.val.map fun i : Fin oneForkMaxConnection => (i : ℤ) + port

section Entries

variable {pool : Fin oneForkMaxConnection → ℤ} {i : Fin oneForkMaxConnection} {v w port : ℤ}

theorem freeValues_update : freeValues (Function.update pool i w) + entryValue (pool i) =
    freeValues pool + entryValue w := by
  have hrest : ∑ j ∈ Finset.univ.erase i, entryValue (Function.update pool i w j) =
      ∑ j ∈ Finset.univ.erase i, entryValue (pool j) := by
    refine Finset.sum_congr rfl fun j hj => ?_
    rw [Function.update_of_ne (Finset.ne_of_mem_erase hj)]
  rw [freeValues, freeValues, ← Finset.add_sum_erase _ _ (Finset.mem_univ i),
    ← Finset.add_sum_erase _ (fun j => entryValue (pool j)) (Finset.mem_univ i), hrest,
    Function.update_self]
  abel

theorem mem_freeValues : v ∈ freeValues pool ↔ v ≠ 0 ∧ ∃ i, pool i = v := by
  have hentry : ∀ w, v ∈ entryValue w ↔ w ≠ 0 ∧ v = w := by
    intro w
    rw [entryValue]
    split <;> simp_all
  simp only [freeValues, Multiset.mem_sum, hentry, Finset.mem_univ, true_and]
  constructor
  · rintro ⟨i, hne, rfl⟩
    exact ⟨hne, i, rfl⟩
  · rintro ⟨hne, i, rfl⟩
    exact ⟨i, hne, rfl⟩

theorem freeValues_eq_zero : freeValues pool = 0 ↔ ∀ i, pool i = 0 := by
  rw [Multiset.eq_zero_iff_forall_notMem]
  constructor
  · intro h i
    by_contra hne
    exact h _ (mem_freeValues.mpr ⟨hne, i, rfl⟩)
  · intro h v hv
    obtain ⟨hne, i, rfl⟩ := mem_freeValues.mp hv
    exact hne (h i)

theorem allValues_nodup (port : ℤ) : (allValues port).Nodup := by
  refine Multiset.Nodup.map ?_ Finset.univ.nodup
  intro i j h
  have hij : (i : ℤ) + port = j + port := h
  exact Fin.ext (by omega)

theorem mem_allValues : v ∈ allValues port ↔ ∃ i : Fin oneForkMaxConnection, i + port = v := by
  rw [allValues, Multiset.mem_map]
  simp only [Finset.mem_val, Finset.mem_univ, true_and]

theorem card_allValues (port : ℤ) : (allValues port).card = oneForkMaxConnection := by
  rw [allValues, Multiset.card_map, Finset.card_val, Finset.card_univ, Fintype.card_fin]

theorem freeValues_init (hport : 0 < port) :
    freeValues (fun i : Fin oneForkMaxConnection => (i : ℤ) + port) = allValues port := by
  have hentry : ∀ i : Fin oneForkMaxConnection, entryValue (i + port) = {(i : ℤ) + port} := by
    intro i
    have hi : 0 ≤ (i : ℤ) := Int.natCast_nonneg i
    exact if_neg (by omega)
  have hsum : freeValues (fun i : Fin oneForkMaxConnection => (i : ℤ) + port) =
      ∑ i : Fin oneForkMaxConnection, {(i : ℤ) + port} :=
    Finset.sum_congr rfl fun i _ => hentry i
  rw [hsum, ← Multiset.sum_map_singleton (allValues port), allValues, Multiset.map_map]
  rfl

theorem pairOf_inj (h : pairOf port v = pairOf port w) : v = w := by
  simp only [pairOf, PortPair.mk.injEq] at h
  omega

theorem half_pairOf : ((pairOf port v).RTP - port).tdiv 2 + port = v := by
  rw [pairOf, add_sub_cancel_right, Int.mul_tdiv_cancel _ (by decide)]
  omega

theorem ports_nodup {vs : List ℤ} (h : vs.Nodup) : (ports (vs.map (pairOf port))).Nodup := by
  induction vs with
  | nil => exact .nil
  | cons v vs ih =>
    obtain ⟨hv, hvs⟩ := List.nodup_cons.mp h
    have hrest : ∀ x ∈ ports (vs.map (pairOf port)), ∃ w ∈ vs, x = (w - port) * 2 + port ∨
        x = (w - port) * 2 + port + 1 := by
      intro x hx
      simpa [ports, pairOf] using hx
    rw [List.map_cons, ports, List.flatMap_cons, List.nodup_append]
    refine ⟨by simp [pairOf], ih hvs, ?_⟩
    intro x hx y hy
    obtain ⟨w, hw, hy⟩ := hrest y hy
    have hne : v ≠ w := fun he => hv (he ▸ hw)
    have hx : x = (v - port) * 2 + port ∨ x = (v - port) * 2 + port + 1 := by
      simpa [pairOf] using hx
    omega

end Entries

/-! ### One call -/

/-- The entries that are missing in the pool are those of the pairs outstanding. -/
structure PoolInv (port : ℤ) (a : Allocator) : Prop where
  start : a.st.startPort = port
  missing : ∃ vs : List ℤ, a.outstanding = vs.map (pairOf port) ∧
    freeValues a.st.portPool + vs = allValues port

theorem firstPort_some {st : Streams} {free : Bool} {i : Fin oneForkMaxConnection}
    (h : st.firstPort free = some i) : (st.portPool i != 0) = free := by
  have hi := List.find?_some h
  simpa using hi

theorem firstPort_none {st : Streams} {free : Bool} (h : st.firstPort free = none)
    (i : Fin oneForkMaxConnection) : (st.portPool i != 0) ≠ free := by
  have hi := List.find?_eq_none.mp h i (List.mem_finRange i)
  simpa using hi

theorem card_freeValues {pool : Fin oneForkMaxConnection → ℤ} (h : ∀ i, pool i ≠ 0) :
    (freeValues pool).card = oneForkMaxConnection := by
  have hentry : ∀ i, (entryValue (pool i)).card = 1 := by
    intro i
    rw [entryValue, if_neg (h i), Multiset.card_singleton]
  rw [freeValues, Multiset.card_sum, Finset.sum_congr rfl fun i _ => hentry i, Finset.sum_const,
    Finset.card_univ, Fintype.card_fin, smul_eq_mul, mul_one]

section Calls

variable {port : ℤ} {a a' : Allocator} {pair : PortPair}

theorem PoolInv.init (st : Streams) (hport : 0 < port) :
    PoolInv port ⟨st.RTP_port_pool_init port, []⟩ where
  start := rfl
  missing := ⟨[], rfl, by
    rw [Multiset.coe_nil, add_zero]
    exact freeValues_init hport⟩

theorem PoolInv.count (h : PoolInv port a) :
    (freeValues a.st.portPool).card + a.outstanding.length = oneForkMaxConnection := by
  obtain ⟨vs, hout, hall⟩ := h.missing
  rw [hout, List.length_map, ← Multiset.coe_card, ← Multiset.card_add, hall, card_allValues]

theorem PoolInv.exhausted (h : PoolInv port a) :
    a.st.RTP_get_port_pair = none ↔ a.outstanding.length = oneForkMaxConnection := by
  have hcount := h.count
  have hfree : a.outstanding.length = oneForkMaxConnection ↔ freeValues a.st.portPool = 0 := by
    rw [← Multiset.card_eq_zero]
    omega
  rw [hfree, freeValues_eq_zero, Streams.RTP_get_port_pair, Option.map_eq_none_iff]
  constructor
  · intro hnone i
    simpa using firstPort_none hnone i
  · intro hzero
    rw [Streams.firstPort, List.find?_eq_none]
    intro i _
    simp [hzero i]

theorem PoolInv.releases (h : PoolInv port a) (hp : pair ∈ a.outstanding) :
    a.st.releases = true := by
  have hcount := h.count
  have hpos := List.length_pos_of_mem hp
  by_contra hnone
  have hfirst : a.st.firstPort false = none := by simpa [Streams.releases] using hnone
  have hcard : (freeValues a.st.portPool).card = oneForkMaxConnection :=
    card_freeValues fun i => by simpa using firstPort_none hfirst i
  omega

theorem PoolInv.get (h : PoolInv port a) {st' : Streams}
    (hget : a.st.RTP_get_port_pair = some (pair, st')) :
    PoolInv port ⟨st', pair :: a.outstanding⟩ := by
  obtain ⟨vs, hout, hall⟩ := h.missing
  obtain ⟨i, hi, he⟩ := Option.map_eq_some_iff.mp hget
  cases he
  have hne : a.st.portPool i ≠ 0 := by simpa using firstPort_some hi
  refine ⟨h.start, a.st.portPool i :: vs, ?_, ?_⟩
  · rw [List.map_cons, hout, h.start]
    rfl
  · have hupdate : freeValues (Function.update a.st.portPool i 0) + entryValue (a.st.portPool i) =
        freeValues a.st.portPool + entryValue 0 := freeValues_update
    rw [entryValue, if_neg hne, entryValue, if_pos rfl, add_zero] at hupdate
    rw [← hall, ← Multiset.cons_coe, ← Multiset.singleton_add, ← add_assoc]
    exact congrArg (· + (vs : Multiset ℤ)) hupdate

theorem PoolInv.release (h : PoolInv port a) (hport : 0 < port) (hp : pair ∈ a.outstanding) :
    PoolInv port ⟨a.st.RTP_release_port_pair pair, a.outstanding.erase pair⟩ := by
  obtain ⟨i, hi⟩ := Option.isSome_iff_exists.mp (h.releases hp)
  obtain ⟨vs, hout, hall⟩ := h.missing
  rw [hout] at hp
  obtain ⟨v, hv, rfl⟩ := List.mem_map.mp hp
  have hzero : a.st.portPool i = 0 := by simpa using firstPort_some hi
  have hne : v ≠ 0 := by
    have hmem : v ∈ allValues port := hall ▸ Multiset.mem_add.mpr (.inr hv)
    obtain ⟨k, rfl⟩ := mem_allValues.mp hmem
    have hk : 0 ≤ (k : ℤ) := Int.natCast_nonneg k
    omega
  have hback : a.st.RTP_release_port_pair (pairOf port v) =
      { a.st with portPool := Function.update a.st.portPool i v } := by
    rw [Streams.RTP_release_port_pair, hi, ← h.start]
    exact congrArg (fun w => { a.st with portPool := Function.update a.st.portPool i w })
      half_pairOf
  rw [hback]
  refine ⟨h.start, vs.erase v, ?_, ?_⟩
  · rw [hout]
    exact (List.map_erase (fun _ _ => pairOf_inj) vs).symm
  · have hupdate : freeValues (Function.update a.st.portPool i v) + entryValue (a.st.portPool i) =
        freeValues a.st.portPool + entryValue v := freeValues_update
    rw [hzero, entryValue, if_pos rfl, entryValue, if_neg hne, add_zero] at hupdate
    have hvs : ({v} : Multiset ℤ) + (vs.erase v : List ℤ) = vs := by
      rw [Multiset.singleton_add, Multiset.cons_coe, Multiset.coe_eq_coe]
      exact (List.perm_cons_erase hv).symm
    rw [← hall, ← hvs, ← add_assoc, ← hupdate]

theorem PoolInv.step (h : PoolInv port a) (hport : 0 < port) {c : PortCall}
    (hs : portStep a c = some a') : PoolInv port a' := by
  cases c with
  | get =>
    rw [portStep] at hs
    split at hs
    · rename_i pair st' hget
      cases hs
      exact h.get hget
    · cases hs
      exact h
  | release pair =>
    rw [portStep] at hs
    split at hs
    · rename_i hp
      cases hs
      exact h.release hport hp
    · cases hs

theorem PoolInv.allocates (h : PoolInv port a) : Allocates port a := by
  obtain ⟨vs, hout, hall⟩ := h.missing
  have hmem : ∀ v ∈ vs, ∃ i : Fin oneForkMaxConnection, i + port = v := by
    intro v hv
    exact mem_allValues.mp (hall ▸ Multiset.mem_add.mpr (.inr hv))
  have hnodup : vs.Nodup := by
    have hle : (vs : Multiset ℤ) ≤ allValues port := hall ▸ Multiset.le_add_left _ _
    exact Multiset.coe_nodup.mp (Multiset.nodup_of_le hle (allValues_nodup port))
  refine ⟨hout ▸ ports_nodup hnodup, ?_, ?_, h.exhausted, fun _ => h.releases⟩
  · intro x hx
    simp only [hout, ports, List.mem_flatMap, List.mem_map] at hx
    obtain ⟨-, ⟨v, hv, rfl⟩, hx⟩ := hx
    obtain ⟨i, rfl⟩ := hmem v hv
    have hi : (i : ℕ) < oneForkMaxConnection := i.isLt
    have hx : x = i * 2 + port ∨ x = i * 2 + port + 1 := by simpa [pairOf] using hx
    rw [portRange, Set.mem_Ico]
    omega
  · intro p hp
    rw [hout] at hp
    obtain ⟨v, -, rfl⟩ := List.mem_map.mp hp
    exact ⟨rfl, v - port, by simp only [pairOf]; omega⟩

end Calls

theorem allocates_run {port : ℤ} (hport : 0 < port) {st : Streams} {cs : List PortCall}
    {a : Allocator} (h : exec portStep ⟨st.RTP_port_pool_init port, []⟩ cs = some a) :
    Allocates port a := by
  have hinv : PoolInv port a :=
    exec_invariant (fun _ _ _ (hi : PoolInv port _) hs => hi.step hport hs) h (.init st hport)
  exact hinv.allocates

end Fenice.Schedule

namespace Fenice.EventLoop
open Fenice.Run

/-! ### The processes -/

/-- The port that `eventloop` gives to `RTP_port_pool_init`; the first process has
`RTP_DEFAULT_PORT` from main.c. -/
def Loop.startPort (s : Loop) : ℤ :=
  oneForkMaxConnection * s.childCount * 2 + Schedule.rtpDefaultPort

/-- A process makes a pass. If it comes to `fork`, there is a child or there is none, and
`schedule_init` succeeds in the child or not. -/
structure Move where
  process : ℕ
  pass : Pass
  forked : Option Bool

/-- `tcp_accept` on a socket that the process has closed gives no client. -/
def heard (s : Loop) (p : Pass) : Pass :=
  { p with accepted := if s.listening then p.accepted else none }

/-- A process in the state in which it is, or in which it has aborted. -/
structure Process where
  loop : Loop
  running : Bool

def Process.pass (mainFd : ℕ) (q : Process) (p : Pass) (fork : Fork) : Process :=
  match eventloop mainFd q.loop { p with fork := fork } with
  | none => { q with running := false }
  | some s => { q with loop := s }

/-- The pass comes to `fork`: its child would count itself. -/
def forks (mainFd : ℕ) (q : Process) (p : Pass) : Bool :=
  (q.pass mainFd p (.child true)).loop.childCount != q.loop.childCount

/-- The processes in the order in which they were forked. -/
def serverPass (mainFd : ℕ) (ps : List Process) (m : Move) : Option (List Process) :=
  ps[m.process]?.bind fun q =>
    if q.running then
      let p := heard q.loop m.pass
      some <|
        if forks mainFd q p then
          ps.set m.process (q.pass mainFd p .father) ++
            (m.forked.map fun scheduleInit => q.pass mainFd p (.child scheduleInit)).toList
        else ps.set m.process (q.pass mainFd p p.fork)
    else none

/-- Both sides of a fork keep what they need to tell their ranges apart. -/
inductive Forked (t : Fork → Loop) (s : Loop) (accepted : Option ℕ) : Prop
  | single (same : ∀ f, (t f).childCount = s.childCount ∧ (t f).listening = s.listening)
  | both (client : accepted.isSome = true)
      (father : (t .father).childCount = s.childCount ∧ (t .father).listening = false)
      (child : ∀ b, (t (.child b)).childCount = s.childCount + 1 ∧
        (t (.child b)).listening = s.listening)

theorem connect_forked (fd : ℕ) (s : Loop) :
    Forked (fun f => connect fd f s) s (some fd) := by
  by_cases hfd : fd ∈ s.rtspList.map Node.fd
  · exact .single fun f => by simp [connect, hfd]
  · by_cases hcount : s.connCount < oneForkMaxConnection
    · exact .single fun f => by simp [connect, hfd, hcount]
    · refine .both rfl ?_ fun b => ?_
      · simp [connect, hfd, hcount]
      · cases b <;> simp [connect, hfd, hcount]

theorem accept_forked (mainFd : ℕ) (rset : List ℕ) (ready : ℕ → Bool) (p : Pass) (s : Loop) :
    Forked (fun f => accept mainFd rset ready { p with fork := f } s) s p.accepted := by
  by_cases hin : s.connCount ≠ -1 ∧ mainFd ∈ rset ∧ ready mainFd = true
  · simp only [accept, if_pos hin]
    cases p.accepted with
    | none => exact .single fun f => ⟨rfl, rfl⟩
    | some fd =>
      cases connect_forked fd { s with touched := s.touched || !s.listening } with
      | single same => exact .single same
      | both client father child => exact .both client father child
  · exact .single fun f => by simp only [accept, if_neg hin, and_self]

theorem pass_forked (mainFd : ℕ) (q : Process) (p : Pass) :
    Forked (fun f => (q.pass mainFd p f).loop) q.loop p.accepted := by
  simp only [Process.pass, eventloop]
  cases p.ready with
  | none => exact .single fun f => ⟨rfl, rfl⟩
  | some ready =>
    cases hswept : schedule_connections p.closed q.loop.rtspList q.loop.connCount with
    | none => exact .single fun f => by simp
    | some swept =>
      simp only [Option.map_some]
      cases accept_forked mainFd (readSet mainFd p q.loop) ready p _ with
      | single same => exact .single same
      | both client father child => exact .both client father child

/-- The number of a process is its place, and the last one alone accepts clients. -/
def Numbered (ps : List Process) : Prop :=
  ∀ i q, ps[i]? = some q →
    q.loop.childCount = i ∧ (q.loop.listening = true → i + 1 = ps.length)

section Processes

variable {mainFd : ℕ} {ps ps' : List Process}

theorem Numbered.set (h : Numbered ps) {i : ℕ} {s s' : Process} (hi : ps[i]? = some s)
    (hcount : s'.loop.childCount = s.loop.childCount)
    (hlistening : s'.loop.listening = true → s.loop.listening = true) :
    Numbered (ps.set i s') := by
  intro j t ht
  rw [List.length_set]
  by_cases hij : i = j
  · rw [hij, List.getElem?_set_self (hij ▸ (List.getElem?_eq_some_iff.mp hi).1)] at ht
    cases ht
    obtain ⟨hs, hl⟩ := h i s hi
    exact ⟨by rw [hcount, hs, hij], fun hs' => hij ▸ hl (hlistening hs')⟩
  · rw [List.getElem?_set_ne hij] at ht
    exact h j t ht

theorem Numbered.fork (h : Numbered ps) {i : ℕ} {s father child : Process}
    (hi : ps[i]? = some s) (hs : s.loop.listening = true)
    (hfather : father.loop.childCount = s.loop.childCount)
    (hclosed : father.loop.listening = false)
    (hchild : child.loop.childCount = s.loop.childCount + 1) :
    Numbered (ps.set i father ++ [child]) := by
  obtain ⟨hnumber, hlast⟩ := h i s hi
  have hlast := hlast hs
  intro j t ht
  rw [List.length_append, List.length_set, List.length_singleton]
  by_cases hj : j < ps.length
  · rw [List.getElem?_append_left (by simpa using hj)] at ht
    obtain ⟨hcount, hl⟩ := h.set hi hfather (fun hf => by simp [hclosed] at hf) j t ht
    rw [List.length_set] at hl
    refine ⟨hcount, fun ht' => ?_⟩
    have hji : i = j := by have := hl ht'; omega
    rw [hji, List.getElem?_set_self hj] at ht
    cases ht
    simp [hclosed] at ht'
  · rw [List.getElem?_append_right (by simpa using hj), List.length_set,
      List.getElem?_singleton] at ht
    split at ht
    · cases ht
      exact ⟨by omega, fun _ => by omega⟩
    · cases ht

theorem Numbered.step (h : Numbered ps) {m : Move} (hs : serverPass mainFd ps m = some ps') :
    Numbered ps' := by
  obtain ⟨q, hi, he⟩ := Option.bind_eq_some_iff.mp hs
  split at he
  · have hforked := pass_forked mainFd q (heard q.loop m.pass)
    cases hforked with
    | single same =>
      have hno : forks mainFd q (heard q.loop m.pass) = false := by simp [forks, (same _).1]
      obtain ⟨hcount, hl⟩ := same (heard q.loop m.pass).fork
      simp only [hno, Bool.false_eq_true, if_false] at he
      cases he
      exact h.set hi hcount fun hs' => hl ▸ hs'
    | both client father child =>
      have hyes : forks mainFd q (heard q.loop m.pass) = true := by simp [forks, (child true).1]
      have hlistening : q.loop.listening = true := by
        by_contra hs
        simp [heard, hs] at client
      simp only [hyes, if_true] at he
      cases he
      cases m.forked with
      | none =>
        rw [Option.map_none, Option.toList_none, List.append_nil]
        exact h.set hi father.1 fun _ => hlistening
      | some b => exact h.fork hi hlistening father.1 father.2 (child b).1
  · cases he

theorem disjoint_ranges {s t : Loop} (h : s.childCount < t.childCount) :
    Disjoint (Schedule.portRange s.startPort) (Schedule.portRange t.startPort) := by
  refine Set.Ico_disjoint_Ico.mpr ?_
  have hnext : s.startPort + 2 * Schedule.oneForkMaxConnection ≤ t.startPort := by
    have hsize : (Schedule.oneForkMaxConnection : ℤ) = 100 := rfl
    simp only [Loop.startPort, oneForkMaxConnection, hsize]
    omega
  exact (min_le_left _ _).trans (hnext.trans (le_max_right _ _))

theorem Numbered.disjoint (h : Numbered ps) : ps.Pairwise fun s t =>
    Disjoint (Schedule.portRange s.loop.startPort) (Schedule.portRange t.loop.startPort) := by
  rw [List.pairwise_iff_getElem]
  intro i j hi hj hij
  have hs := (h i ps[i] (List.getElem?_eq_getElem hi)).1
  have ht := (h j ps[j] (List.getElem?_eq_getElem hj)).1
  exact disjoint_ranges (by omega)

end Processes

/-- In each process the pool gives every pair of its range to one caller at a time, and the
ranges of the processes are apart. -/
theorem port_pool_allocates :
    (∀ (port : ℤ) (st : Schedule.Streams) (cs : List Schedule.PortCall) (a : Schedule.Allocator),
      0 < port → exec Schedule.portStep ⟨st.RTP_port_pool_init port, []⟩ cs = some a →
        Schedule.Allocates port a) ∧
    ∀ (mainFd : ℕ) (ms : List Move) (ps : List Process),
      exec (serverPass mainFd) [⟨Loop.init, true⟩] ms = some ps → ps.Pairwise fun s t =>
        Disjoint (Schedule.portRange s.loop.startPort) (Schedule.portRange t.loop.startPort) := by
  constructor
  · intro port st cs a hport h
    exact Schedule.allocates_run hport h
  · intro mainFd ms ps h
    have hinit : Numbered [⟨Loop.init, true⟩] := by
      intro i s hi
      rw [List.getElem?_singleton] at hi
      split at hi <;> cases hi
      exact ⟨by simp [Loop.init, *], fun _ => by simp [*]⟩
    exact (exec_invariant (fun _ _ _ (hn : Numbered _) hs => hn.step hs) h hinit).disjoint

/-- Two clients and a hundred and one. -/
theorem port_pool_allocates_forked :
    (∃ a, exec Schedule.portStep ⟨(Schedule.Streams.init 1).RTP_port_pool_init 5004, []⟩
      [.get, .get, .release ⟨5004, 5005⟩] = some a ∧ Schedule.Allocates 5004 a) ∧
    ∃ ps, exec (serverPass 3) [⟨Loop.init, true⟩]
      ((List.range 101).map fun i => ⟨0, connects (i + 10), some true⟩) = some ps ∧
        ps.length = 2 ∧ ps.Pairwise fun s t =>
          Disjoint (Schedule.portRange s.loop.startPort)
            (Schedule.portRange t.loop.startPort) := by
  have hpool : (exec Schedule.portStep ⟨(Schedule.Streams.init 1).RTP_port_pool_init 5004, []⟩
      [.get, .get, .release ⟨5004, 5005⟩]).isSome = true := by
    decide +kernel
  have hforked : (exec (serverPass 3) [⟨Loop.init, true⟩]
      ((List.range 101).map fun i => ⟨0, connects (i + 10), some true⟩)).any
        (fun ps => ps.length == 2) = true := by
    decide +kernel
  obtain ⟨a, ha⟩ := Option.isSome_iff_exists.mp hpool
  obtain ⟨ps, hps, htwo⟩ := (Option.any_eq_true _ _).mp hforked
  exact ⟨⟨a, ha, port_pool_allocates.1 5004 _ _ a (by decide) ha⟩, ps, hps, by simpa using htwo,
    port_pool_allocates.2 3 _ ps hps⟩

end Fenice.EventLoop
