import Fenice.EventLoop.Loop
import Fenice.Lib.Linked
import Fenice.Rtsp.OutStream
import Fenice.Rtsp.Server

/-!
# A pass over the connections (eventloop/schedule_connections.c)

`schedule_connections` as it works on the list in memory: it takes nodes out while it walks, with
one pointer to the last connection that stays. `EventLoop.schedule_connections` on a list of
clients is what it comes to.
-/

namespace Fenice.Rtsp
open Fenice.Linked Fenice.Schedule

/-- A node of `rtsp_list`. -/
structure Client where
  fd : ℤ
  buffer : RTSPBuffer
  deriving DecidableEq

/-- What `rtsp_server` returns, and what it leaves of the connection and of the streams. -/
structure Answer where
  res : ℤ
  client : Client
  st : Streams

/-- The list, the counters and the streams. `tracked` are the nodes that `add_client` took from
`xnew0` and not from `calloc`, `visited` those that `rtsp_server` was called for, and `released`
the RTP sessions that `schedule_remove` was called for. -/
structure Pass where
  memory : Memory Client
  tracked : ℕ → Bool
  rtspList : Option ℕ
  st : Streams
  connCount : ℤ
  numConn : ℤ
  stopSchedule : Bool
  closedFds : List ℤ
  visited : List ℕ
  released : List ℕ

namespace Pass

/-- `rtsp_server` is called for the node at `p`. -/
def serve (s : Pass) (p : ℕ) (c : Linked.Cell Client) (a : Answer) : Pass :=
  { s with
    memory := s.memory.put p (some { c with value := a.client })
    st := a.st
    visited := s.visited ++ [p] }

/-- The RTP sessions are taken from the schedule and the sockets closed. -/
def release (s : Pass) (client : Client) : Option Pass :=
  (closeLoop client.buffer.sessions s.st).map fun st =>
    { s with
      st := st
      connCount := s.connCount - 1
      numConn := s.numConn - 1
      closedFds := s.closedFds ++
        (client.buffer.interleaved.flatMap fun i => [i.rtpFd, i.rtcpFd]) ++ [client.fd]
      released := s.released ++ client.buffer.sessions }

/-- The node at `p` is taken out of the list and freed; `pp` is the last node that stays. What
comes next is the second component. `debugging_free` aborts if the node is not in its table. -/
def unlink (s : Pass) (p : ℕ) (pp : Option ℕ) : Option (Pass × Option ℕ) :=
  (s.memory.get p).bind fun c =>
    if s.rtspList = some p then
      if s.tracked p then
        some ({ s with memory := s.memory.put p none, rtspList := c.next }, c.next)
      else none
    else
      pp.bind fun q => (s.memory.get q).bind fun cq =>
        if s.tracked p then
          some ({ s with memory := (s.memory.put q (some { cq with next := c.next })).put p none },
            c.next)
        else none

/-- "Release the scheduler if necessary". -/
def stop (s : Pass) (p : Option ℕ) : Pass :=
  { s with stopSchedule := s.stopSchedule || (p.isNone && decide (s.connCount < 0)) }

end Pass

/-- `schedule_connections` from the node at `p` on; `none` stands for memory that is not there and
for the abort of `debugging_free`. -/
def connectionLoop (rtsp_server : ℕ → Client → Streams → Answer) :
    ℕ → Option ℕ → Option ℕ → Pass → Option Pass
  | 0, _, _, _ => none
  | _ + 1, none, _, s => some s
  | fuel + 1, some p, pp, s =>
    (s.memory.get p).bind fun c =>
      let a := rtsp_server p c.value s.st
      let s := s.serve p c a
      if a.res ≠ errNoerror then
        if a.res = errConnectionClose ∨ a.res = errGeneric then
          (s.release a.client).bind fun s =>
            (s.unlink p pp).bind fun (s, next) =>
              connectionLoop rtsp_server fuel next pp (s.stop next)
        else connectionLoop rtsp_server fuel c.next pp s
      else connectionLoop rtsp_server fuel c.next (some p) s

def schedule_connections (rtsp_server : ℕ → Client → Streams → Answer) (fuel : ℕ) (s : Pass) :
    Option Pass :=
  connectionLoop rtsp_server fuel s.rtspList none s

/-- What a pass has to do: every connection is served once and in order, those that fail have
their RTP sessions removed, the others stay. -/
inductive SweptOver (rtsp_server : ℕ → Client → Streams → Answer) : List (ℕ × Client) → Streams →
    List (ℕ × Client) → List (ℕ × Client) → Streams → Prop
  | nil (st : Streams) : SweptOver rtsp_server [] st [] [] st
  | keep {p : ℕ} {client : Client} {cells kept dropped : List (ℕ × Client)} {st st' : Streams}
      (res : (rtsp_server p client st).res = errNoerror)
      (rest : SweptOver rtsp_server cells (rtsp_server p client st).st kept dropped st') :
      SweptOver rtsp_server ((p, client) :: cells) st
        ((p, (rtsp_server p client st).client) :: kept) dropped st'
  | drop {p : ℕ} {client : Client} {cells kept dropped : List (ℕ × Client)} {st st₁ st' : Streams}
      (res : (rtsp_server p client st).res = errConnectionClose ∨
        (rtsp_server p client st).res = errGeneric)
      (removed : closeLoop (rtsp_server p client st).client.buffer.sessions
        (rtsp_server p client st).st = some st₁)
      (rest : SweptOver rtsp_server cells st₁ kept dropped st') :
      SweptOver rtsp_server ((p, client) :: cells) st kept
        ((p, (rtsp_server p client st).client) :: dropped) st'

/-- What a pass leaves of the list, the counters and the flag. -/
structure Passed (s out : Pass) (ks cells kept dropped : List (ℕ × Client)) : Prop where
  list : IsList out.memory out.rtspList (ks ++ kept)
  freed : ∀ x ∈ dropped, out.memory.get x.1 = none
  visited : out.visited = s.visited ++ cells.map Prod.fst
  released : out.released = s.released ++ dropped.flatMap fun x => x.2.buffer.sessions
  connCount : out.connCount = s.connCount - dropped.length
  numConn : out.numConn = s.numConn - dropped.length
  swept : ∀ closed : ℕ → Bool, (∀ x ∈ kept, closed x.1 = false) →
    (∀ x ∈ dropped, closed x.1 = true) →
    ∃ swept, EventLoop.schedule_connections closed (cells.map fun x => ⟨x.1, s.tracked x.1⟩)
      s.connCount = some swept ∧ out.stopSchedule = (s.stopSchedule || swept.stopSchedule)

/-- What `schedule_remove` does for the RTP sessions of one connection: each of their entries is
invalid, no other is touched, and the clients are counted down once for each. -/
structure Removed (sessions : List ℕ) (st st' : Streams) : Prop where
  invalid : ∀ x ∈ sessions, ∃ r i, st.session x = some r ∧ Streams.index r.schedId = some i ∧
    (st'.sched i).valid = false
  others : ∀ i, (∀ x ∈ sessions, ∀ r ∈ st.session x, Streams.index r.schedId ≠ some i) →
    st'.sched i = st.sched i
  clientCount : st'.clientCount = decrSize^[sessions.length] st.clientCount
  heap : st'.heap = st.heap

theorem closeLoop_removed {sessions : List ℕ} {st st' : Streams}
    (h : closeLoop sessions st = some st') : Removed sessions st st' := by
  induction sessions generalizing st with
  | nil =>
    cases h
    exact ⟨fun _ hx => absurd hx List.not_mem_nil, fun _ _ => rfl, rfl, rfl⟩
  | cons x sessions ih =>
    obtain ⟨r, hr, h⟩ := Option.bind_eq_some_iff.mp h
    obtain ⟨st₁, hremove, h⟩ := Option.bind_eq_some_iff.mp h
    obtain ⟨i, hi, hst₁⟩ := Option.map_eq_some_iff.mp hremove
    have hstep : st₁.sched = Function.update st.sched i { st.sched i with valid := false } ∧
        st₁.clientCount = decrSize st.clientCount ∧ st₁.heap = st.heap := by
      rw [← hst₁]
      cases (st.sched i).rtpSession <;> exact ⟨rfl, rfl, rfl⟩
    obtain ⟨hsched, hcount, hheap⟩ := hstep
    have hsession : ∀ y, st₁.session y = st.session y := fun y => by
      rw [Streams.session, Streams.session, hheap]
    have hrest := ih h
    refine ⟨?_, ?_, ?_, hrest.heap.trans hheap⟩
    · intro y hy
      rcases List.mem_cons.mp hy with rfl | hy
      · refine ⟨r, i, hr, hi, ?_⟩
        by_cases hlater : ∀ z ∈ sessions, ∀ q ∈ st₁.session z, Streams.index q.schedId ≠ some i
        · rw [hrest.others i hlater, hsched, Function.update_self]
        · push Not at hlater
          obtain ⟨z, hz, q, hq, hqi⟩ := hlater
          obtain ⟨q', j, hq', hj, hinvalid⟩ := hrest.invalid z hz
          rw [hq] at hq'
          cases hq'
          rw [hqi] at hj
          cases hj
          exact hinvalid
      · obtain ⟨q, j, hq, hj, hinvalid⟩ := hrest.invalid y hy
        exact ⟨q, j, hsession y ▸ hq, hj, hinvalid⟩
    · intro j hj
      have hne : j ≠ i := by
        rintro rfl
        exact hj x (List.mem_cons_self ..) r hr hi
      rw [hrest.others j fun y hy q hq => hj y (List.mem_cons_of_mem _ hy) q (hsession y ▸ hq),
        hsched, Function.update_of_ne hne]
    · rw [hrest.clientCount, hcount, List.length_cons, Function.iterate_succ_apply]

theorem closeLoop_isSome_iff {sessions : List ℕ} {st : Streams} :
    (closeLoop sessions st).isSome = true ↔
      ∀ x ∈ sessions, ∃ r, st.session x = some r ∧ (Streams.index r.schedId).isSome = true := by
  induction sessions generalizing st with
  | nil => exact iff_of_true rfl fun _ hx => absurd hx List.not_mem_nil
  | cons x sessions ih =>
    rw [List.forall_mem_cons, closeLoop]
    cases hr : st.session x with
    | none => simp
    | some r =>
      rw [Option.bind_some]
      cases hremove : st.schedule_remove r.schedId with
      | none =>
        have hindex : Streams.index r.schedId = none := by
          rw [Streams.schedule_remove, Option.map_eq_none_iff] at hremove
          exact hremove
        simp [hindex]
      | some st₁ =>
        obtain ⟨i, hi, hst₁⟩ := Option.map_eq_some_iff.mp hremove
        have hheap : st₁.heap = st.heap := by
          rw [← hst₁]
          cases (st.sched i).rtpSession <;> rfl
        have hsession : ∀ y, st₁.session y = st.session y := fun y => by
          rw [Streams.session, Streams.session, hheap]
        rw [Option.bind_some, ih]
        simp [hsession, hi]

/-- What a pass needs: a connection that is closed stands in a node from `xnew0`, and its RTP
sessions are there, each with an index of `sched`. -/
def Removable (rtsp_server : ℕ → Client → Streams → Answer) (tracked : ℕ → Bool) :
    List (ℕ × Client) → Streams → Prop
  | [], _ => True
  | (p, client) :: cells, st =>
    let a := rtsp_server p client st
    if a.res = errNoerror then Removable rtsp_server tracked cells a.st
    else
      tracked p = true ∧
        (∀ x ∈ a.client.buffer.sessions, ∃ r, a.st.session x = some r ∧
          (Streams.index r.schedId).isSome = true) ∧
        ∀ st₁, closeLoop a.client.buffer.sessions a.st = some st₁ →
          Removable rtsp_server tracked cells st₁

section Pass

variable {rtsp_server : ℕ → Client → Streams → Answer} {s s' out : Pass} {p : ℕ}
  {pp next : Option ℕ} {client : Client} {ks cells kept dropped : List (ℕ × Client)}
  {c : Linked.Cell Client} {st' : Streams}

theorem chain_head {m : Memory Client} {a : Option ℕ} (h : Chain m a cells none) :
    a = cells.head?.map Prod.fst := by
  cases cells with
  | nil => exact h
  | cons x cells => exact h.1

theorem node_at (h : IsList s.memory s.rtspList (ks ++ (p, client) :: cells)) :
    s.memory.get p = some ⟨client, cells.head?.map Prod.fst⟩ := by
  obtain ⟨n, hn, -, hrest, -⟩ := h.at_cell
  rw [hn, chain_head hrest]

theorem serve_list (h : IsList s.memory s.rtspList (ks ++ (p, client) :: cells)) (a : Answer) :
    IsList (s.serve p ⟨client, cells.head?.map Prod.fst⟩ a).memory s.rtspList
      (ks ++ (p, a.client) :: cells) :=
  h.write (node_at h) a.client

/-- Nothing that was freed is in use again. -/
def StaysFreed (s s' : Pass) : Prop := ∀ q, s.memory.get q = none → s'.memory.get q = none

/-- With `pp` at the last node that stays, any node from `xnew0` can be taken out. -/
theorem unlink_list (h : IsList s.memory s.rtspList (ks ++ (p, client) :: cells))
    (ht : s.tracked p = true) :
    ∃ memory rtspList, s.unlink p (lastOf ks none) =
        some ({ s with memory := memory, rtspList := rtspList }, cells.head?.map Prod.fst) ∧
      IsList memory rtspList (ks ++ cells) ∧ memory.get p = none ∧
      ∀ q, s.memory.get q = none → memory.get q = none := by
  have hp := node_at h
  obtain ⟨-, -, hfront, -, hks, -⟩ := h.at_cell
  cases hlast : ks.getLast? with
  | none =>
    obtain rfl := List.getLast?_eq_none_iff.mp hlast
    refine ⟨s.memory.put p none, cells.head?.map Prod.fst, ?_, h.dropFirst hp,
      Memory.get_put_self _ _ _, ?_⟩
    · simp only [Pass.unlink, hp, Option.bind_some, if_pos (show s.rtspList = some p from hfront),
        if_pos ht]
    · intro q hq
      by_cases hqp : p = q
      · rw [hqp, Memory.get_put_self]
      · rw [Memory.get_put_ne _ _ hqp, hq]
  | some x =>
    obtain ⟨front, rfl⟩ := List.getLast?_eq_some_iff.mp hlast
    obtain ⟨l, u⟩ := x
    obtain ⟨n, hl⟩ := h.chain.used (l, u) (by simp)
    have hne : s.rtspList ≠ some p := by
      rw [chain_head h.chain]
      cases front with
      | nil => simpa using hks (l, u) (by simp)
      | cons y front => simpa using hks y (by simp)
    refine ⟨(s.memory.put l (some ⟨u, cells.head?.map Prod.fst⟩)).put p none, s.rtspList, ?_,
      h.dropNext hl hp, Memory.get_put_self _ _ _, ?_⟩
    · simp only [Pass.unlink, hp, Option.bind_some, if_neg hne, lastOf_concat, hl, if_pos ht]
    · intro q hq
      by_cases hqp : p = q
      · rw [hqp, Memory.get_put_self]
      · rw [Memory.get_put_ne _ _ hqp, Memory.get_put_ne _ _ (fun he => by simp [he, hq] at hl), hq]

theorem unlink_aborts (ht : s.tracked p = false) (q : Option ℕ) : s.unlink p q = none := by
  rw [Pass.unlink, Option.bind_eq_none_iff]
  intro c _
  simp [ht]

theorem loop_keep (fuel : ℕ) (h : IsList s.memory s.rtspList (ks ++ (p, client) :: cells))
    (hres : (rtsp_server p client s.st).res = errNoerror) :
    ∃ s', connectionLoop rtsp_server (fuel + 1) (some p) (lastOf ks none) s =
        connectionLoop rtsp_server fuel (cells.head?.map Prod.fst)
          (lastOf (ks ++ [(p, (rtsp_server p client s.st).client)]) none) s' ∧
      IsList s'.memory s'.rtspList (ks ++ [(p, (rtsp_server p client s.st).client)] ++ cells) ∧
      s' = { s with
        memory := s'.memory
        st := (rtsp_server p client s.st).st
        visited := s.visited ++ [p] } ∧ StaysFreed s s' := by
  have hp := node_at h
  refine ⟨s.serve p ⟨client, cells.head?.map Prod.fst⟩ (rtsp_server p client s.st), ?_, ?_, rfl, ?_⟩
  · rw [connectionLoop, hp, Option.bind_some, lastOf_concat]
    simp only [hres, ne_eq, not_true_eq_false, if_false]
  · rw [List.append_assoc, List.singleton_append]
    exact serve_list h _
  · intro q hq
    have hqp : p ≠ q := fun he => by simp [he, hq] at hp
    rw [Pass.serve, Memory.get_put_ne _ _ hqp, hq]

theorem loop_drop (fuel : ℕ) (h : IsList s.memory s.rtspList (ks ++ (p, client) :: cells))
    (hres : (rtsp_server p client s.st).res = errConnectionClose ∨
      (rtsp_server p client s.st).res = errGeneric) (ht : s.tracked p = true) {st₁ : Streams}
    (hclose : closeLoop (rtsp_server p client s.st).client.buffer.sessions
      (rtsp_server p client s.st).st = some st₁) :
    ∃ s', connectionLoop rtsp_server (fuel + 1) (some p) (lastOf ks none) s =
        connectionLoop rtsp_server fuel (cells.head?.map Prod.fst) (lastOf ks none) s' ∧
      IsList s'.memory s'.rtspList (ks ++ cells) ∧ s'.memory.get p = none ∧ s'.st = st₁ ∧
      s'.tracked = s.tracked ∧ s'.visited = s.visited ++ [p] ∧ s'.connCount = s.connCount - 1 ∧
      s'.numConn = s.numConn - 1 ∧ s'.released = s.released ++
        (rtsp_server p client s.st).client.buffer.sessions ∧
      s'.stopSchedule = (s.stopSchedule || (cells.isEmpty && decide (s.connCount - 1 < 0))) ∧
      StaysFreed s s' := by
  have hp := node_at h
  have hne : (rtsp_server p client s.st).res ≠ errNoerror := by
    rcases hres with hr | hr <;> rw [hr] <;> decide
  have hserved := serve_list h (rtsp_server p client s.st)
  rw [connectionLoop, hp, Option.bind_some]
  simp only [if_pos hne, if_pos hres]
  obtain ⟨t, hrelease, hmemory, hlist, htracked, hfields⟩ : ∃ t, Pass.release
      (s.serve p ⟨client, cells.head?.map Prod.fst⟩ (rtsp_server p client s.st))
        (rtsp_server p client s.st).client = some t ∧
      t.memory = (s.serve p ⟨client, cells.head?.map Prod.fst⟩
        (rtsp_server p client s.st)).memory ∧ t.rtspList = s.rtspList ∧ t.tracked = s.tracked ∧
      t.st = st₁ ∧ t.visited = s.visited ++ [p] ∧ t.connCount = s.connCount - 1 ∧
      t.numConn = s.numConn - 1 ∧ t.released = s.released ++
        (rtsp_server p client s.st).client.buffer.sessions ∧
      t.stopSchedule = s.stopSchedule := by
    simp only [Pass.release, Pass.serve, hclose, Option.map_some, Option.some.injEq,
      exists_eq_left', and_self]
  rw [← hmemory, ← hlist] at hserved
  obtain ⟨memory, rtspList, hunlink, hkept, hfreed, hstays⟩ :=
    unlink_list hserved (htracked ▸ ht)
  obtain ⟨hst, hvisited, hconn, hnum, hreleased, hstop⟩ := hfields
  refine ⟨Pass.stop { t with memory := memory, rtspList := rtspList } (cells.head?.map Prod.fst),
    ?_, hkept, hfreed, hst, htracked, hvisited, hconn, hnum, hreleased, ?_, ?_⟩
  · rw [hrelease, Option.bind_some, hunlink, Option.bind_some]
  · simp only [Pass.stop, hstop, hconn]
    cases cells <;> rfl
  · intro q hq
    refine hstays q ?_
    have hqp : p ≠ q := fun he => by simp [he, hq] at hp
    rw [hmemory, Pass.serve, Memory.get_put_ne _ _ hqp, hq]

/-- The loop fails if a session is not there, has no index, or if the node is from `calloc`. -/
theorem loop_drop_fails (fuel : ℕ) (h : IsList s.memory s.rtspList (ks ++ (p, client) :: cells))
    (hres : (rtsp_server p client s.st).res = errConnectionClose ∨
      (rtsp_server p client s.st).res = errGeneric)
    (hfails : s.tracked p = false ∨ closeLoop (rtsp_server p client s.st).client.buffer.sessions
      (rtsp_server p client s.st).st = none) :
    connectionLoop rtsp_server (fuel + 1) (some p) (lastOf ks none) s = none := by
  have hne : (rtsp_server p client s.st).res ≠ errNoerror := by
    rcases hres with hr | hr <;> rw [hr] <;> decide
  rw [connectionLoop, node_at h, Option.bind_some]
  simp only [if_pos hne, if_pos hres]
  rw [Option.bind_eq_none_iff]
  intro t ht
  obtain ⟨st₁, hclose, hrelease⟩ := Option.map_eq_some_iff.mp ht
  rcases hfails with hfails | hfails
  · have htracked : t.tracked p = false := by
      rw [← hrelease]
      exact hfails
    rw [unlink_aborts htracked, Option.bind_none]
  · exact absurd (hclose.symm.trans hfails) (Option.some_ne_none _)

/-! ### The whole pass -/

/-- Every way in which `rtsp_server` answers. -/
def AnswersOf (rtsp_server : ℕ → Client → Streams → Answer) : Prop :=
  ∀ p client st, (rtsp_server p client st).res = errNoerror ∨
    (rtsp_server p client st).res = errConnectionClose ∨
    (rtsp_server p client st).res = errGeneric

theorem Passed.keep {a : Answer} (h : Passed s' out (ks ++ [(p, a.client)]) cells kept dropped)
    (hs : s' = { s with memory := s'.memory, st := a.st, visited := s.visited ++ [p] }) :
    Passed s out ks ((p, client) :: cells) ((p, a.client) :: kept) dropped where
  list := by
    have hlist := h.list
    rwa [List.append_assoc, List.singleton_append] at hlist
  freed := h.freed
  visited := by
    rw [h.visited, hs, List.map_cons, List.append_assoc, List.singleton_append]
  released := by rw [h.released, hs]
  connCount := by rw [h.connCount, hs]
  numConn := by rw [h.numConn, hs]
  swept := by
    intro closed hkept hdropped
    have hopen : closed p = false := hkept (p, a.client) (List.mem_cons_self ..)
    obtain ⟨swept, hswept, hstop⟩ :=
      h.swept closed (fun x hx => hkept x (List.mem_cons_of_mem _ hx)) hdropped
    rw [hs] at hswept hstop
    refine ⟨{ swept with rtspList := ⟨p, s.tracked p⟩ :: swept.rtspList }, ?_, hstop⟩
    simp only [List.map_cons, EventLoop.schedule_connections, hopen, Bool.false_eq_true, if_false,
      hswept, Option.map_some]

theorem Passed.drop {a : Answer} (h : Passed s' out ks cells kept dropped)
    (hfreed : out.memory.get p = none) (ht : s.tracked p = true) (htracked : s'.tracked = s.tracked)
    (hvisited : s'.visited = s.visited ++ [p])
    (hconn : s'.connCount = s.connCount - 1) (hnum : s'.numConn = s.numConn - 1)
    (hreleased : s'.released = s.released ++ a.client.buffer.sessions)
    (hstop : s'.stopSchedule =
      (s.stopSchedule || (cells.isEmpty && decide (s.connCount - 1 < 0)))) :
    Passed s out ks ((p, client) :: cells) kept ((p, a.client) :: dropped) where
  list := h.list
  freed := by
    intro x hx
    rcases List.mem_cons.mp hx with rfl | hx
    · exact hfreed
    · exact h.freed x hx
  visited := by
    rw [h.visited, hvisited, List.map_cons, List.append_assoc, List.singleton_append]
  released := by
    rw [h.released, hreleased, List.flatMap_cons, List.append_assoc]
  connCount := by
    rw [h.connCount, hconn, List.length_cons]
    omega
  numConn := by
    rw [h.numConn, hnum, List.length_cons]
    omega
  swept := by
    intro closed hkept hdropped
    have hclosed : closed p = true := hdropped (p, a.client) (List.mem_cons_self ..)
    obtain ⟨swept, hswept, hend⟩ :=
      h.swept closed hkept fun x hx => hdropped x (List.mem_cons_of_mem _ hx)
    rw [htracked, hconn] at hswept
    refine ⟨{ swept with
      stopSchedule := ((cells.map fun x => (⟨x.1, s.tracked x.1⟩ : EventLoop.Node)).isEmpty &&
        decide (s.connCount - 1 < 0)) || swept.stopSchedule }, ?_, ?_⟩
    · simp only [List.map_cons, EventLoop.schedule_connections, hclosed, if_true, ht, hswept,
        Option.map_some]
    · rw [hend, hstop, List.isEmpty_map, Bool.or_assoc]

/-- From a node on the loop does what a pass has to do exactly if the connections that are closed
can be removed. -/
theorem loop_passes (hanswers : AnswersOf rtsp_server) {fuel : ℕ} (hfuel : cells.length < fuel)
    (h : IsList s.memory s.rtspList (ks ++ cells)) :
    (∃ out kept dropped, connectionLoop rtsp_server fuel (cells.head?.map Prod.fst)
        (lastOf ks none) s = some out ∧ SweptOver rtsp_server cells s.st kept dropped out.st ∧
        Passed s out ks cells kept dropped ∧ StaysFreed s out) ∧
        Removable rtsp_server s.tracked cells s.st ∨
      connectionLoop rtsp_server fuel (cells.head?.map Prod.fst) (lastOf ks none) s = none ∧
        ¬ Removable rtsp_server s.tracked cells s.st := by
  induction cells generalizing fuel ks s with
  | nil =>
    cases fuel with
    | zero => omega
    | succ fuel =>
      refine .inl ⟨⟨s, [], [], rfl, .nil _, ⟨h, ?_, ?_, ?_, ?_, ?_, ?_⟩, fun _ hq => hq⟩, trivial⟩
      · intro x hx
        cases hx
      · rw [List.map_nil, List.append_nil]
      · rw [List.flatMap_nil, List.append_nil]
      · rw [List.length_nil, Nat.cast_zero, sub_zero]
      · rw [List.length_nil, Nat.cast_zero, sub_zero]
      · intro closed _ _
        exact ⟨_, rfl, (Bool.or_false _).symm⟩
  | cons x cells ih =>
    obtain ⟨p, client⟩ := x
    cases fuel with
    | zero => omega
    | succ fuel =>
      have hfuel' : cells.length < fuel := by simpa using hfuel
      rw [List.head?_cons, Option.map_some, Removable]
      dsimp only
      rcases hanswers p client s.st with hres | hres
      · obtain ⟨s₁, hstep, hlist, hs₁, hfreed⟩ := loop_keep fuel h hres
        have hst : s₁.st = (rtsp_server p client s.st).st := by rw [hs₁]
        have htracked : s₁.tracked = s.tracked := by rw [hs₁]
        rw [hstep, if_pos hres, ← hst, ← htracked]
        rcases ih hfuel' hlist with ⟨⟨out, kept, dropped, hrun, hserved, hpassed, hstays⟩, hrem⟩ |
          hnone
        · rw [hst] at hserved
          exact .inl ⟨⟨out, _, dropped, hrun, .keep hres hserved, hpassed.keep hs₁,
            fun q hq => hstays q (hfreed q hq)⟩, hrem⟩
        · exact .inr hnone
      · have hopen : (rtsp_server p client s.st).res ≠ errNoerror := by
          rcases hres with hr | hr <;> rw [hr] <;> decide
        rw [if_neg hopen, ← closeLoop_isSome_iff]
        cases ht : s.tracked p with
        | false =>
          exact .inr ⟨loop_drop_fails fuel h hres (.inl ht), fun hrem => Bool.noConfusion hrem.1⟩
        | true =>
          cases hclose : closeLoop (rtsp_server p client s.st).client.buffer.sessions
              (rtsp_server p client s.st).st with
          | none =>
            exact .inr ⟨loop_drop_fails fuel h hres (.inr hclose),
              fun hrem => Bool.noConfusion hrem.2.1⟩
          | some st₁ =>
            obtain ⟨s₁, hstep, hlist, hp, rfl, htracked, hvisited, hconn, hnum, hreleased, hstop,
              hfreed⟩ := loop_drop fuel h hres ht hclose
            rw [hstep]
            rcases ih hfuel' hlist with
              ⟨⟨out, kept, dropped, hrun, hserved, hpassed, hstays⟩, hrem⟩ | ⟨hrun, hrem⟩
            · refine .inl ⟨⟨out, kept, _, hrun, .drop hres hclose hserved,
                hpassed.drop (hstays p hp) ht htracked hvisited hconn hnum hreleased hstop,
                fun q hq => hstays q (hfreed q hq)⟩, rfl, rfl, ?_⟩
              rintro _ ⟨⟩
              exact htracked ▸ hrem
            · refine .inr ⟨hrun, fun hall => hrem ?_⟩
              exact htracked.symm ▸ hall.2.2 _ rfl

end Pass

/-- What a pass has to do with the connections of a list. -/
def KeepsOthers (rtsp_server : ℕ → Client → Streams → Answer) (fuel : ℕ) (s : Pass)
    (cells : List (ℕ × Client)) : Prop :=
  ∃ out kept dropped, schedule_connections rtsp_server fuel s = some out ∧
    SweptOver rtsp_server cells s.st kept dropped out.st ∧ Passed s out [] cells kept dropped

/-- A pass serves every connection once, keeps those that answer `ERR_NOERROR` in their order,
removes every RTP session of the others and counts them down, exactly if each of the others stands
in a node from `xnew0` and has its RTP sessions in the schedule. -/
theorem pass_keeps_others (rtsp_server : ℕ → Client → Streams → Answer)
    (hanswers : AnswersOf rtsp_server) (s : Pass) (cells : List (ℕ × Client))
    (hlist : IsList s.memory s.rtspList cells) (fuel : ℕ) (hfuel : cells.length < fuel) :
    (KeepsOthers rtsp_server fuel s cells ↔ Removable rtsp_server s.tracked cells s.st) ∧
    ∀ sessions st st', closeLoop sessions st = some st' → Removed sessions st st' := by
  refine ⟨?_, fun _ _ _ => closeLoop_removed⟩
  have hfrom : schedule_connections rtsp_server fuel s =
      connectionLoop rtsp_server fuel (cells.head?.map Prod.fst)
        (lastOf (α := Client) [] none) s := by
    rw [schedule_connections, chain_head hlist.chain]
    rfl
  have hall : IsList s.memory s.rtspList ([] ++ cells) := hlist
  rcases loop_passes hanswers hfuel hall with
    ⟨⟨out, kept, dropped, hrun, hserved, hpassed, -⟩, hrem⟩ | ⟨hrun, hrem⟩
  · exact iff_of_true ⟨out, kept, dropped, hfrom.trans hrun, hserved, hpassed⟩ hrem
  · refine iff_of_false ?_ hrem
    rintro ⟨out, kept, dropped, hout, -⟩
    rw [hfrom, hrun] at hout
    cases hout

/-- Three connections; the first node was added to an empty list. -/
def threeClients : Pass :=
  { memory := [some ⟨⟨10, RTSP_initserver⟩, some 1⟩, some ⟨⟨11, RTSP_initserver⟩, some 2⟩,
      some ⟨⟨12, RTSP_initserver⟩, none⟩]
    tracked := (· == 0)
    rtspList := some 0
    st := Streams.init rtpDefaultPort
    connCount := 3
    numConn := 3
    stopSchedule := false
    closedFds := []
    visited := []
    released := [] }

theorem threeClients_list : IsList threeClients.memory threeClients.rtspList
    [(0, ⟨10, RTSP_initserver⟩), (1, ⟨11, RTSP_initserver⟩), (2, ⟨12, RTSP_initserver⟩)] :=
  ⟨⟨rfl, _, rfl, rfl, _, rfl, rfl, _, rfl, rfl⟩, by decide⟩

/-- The connection in node `k` is closed by its client. -/
def leaving (k p : ℕ) (client : Client) (st : Streams) : Answer :=
  ⟨if p = k then errConnectionClose else errNoerror, client, st⟩

theorem leaving_answers (k : ℕ) : AnswersOf (leaving k) := by
  intro p client st
  by_cases hp : p = k
  · exact .inr (.inl (if_pos hp))
  · exact .inl (if_neg hp)

/-- The first connection leaves. -/
theorem pass_keeps_others_first : KeepsOthers (leaving 0) 4 threeClients
    [(0, ⟨10, RTSP_initserver⟩), (1, ⟨11, RTSP_initserver⟩), (2, ⟨12, RTSP_initserver⟩)] := by
  refine ((pass_keeps_others (leaving 0) (leaving_answers 0) threeClients _ threeClients_list 4
    (by decide)).1).mpr ?_
  refine ⟨rfl, fun x hx => absurd hx List.not_mem_nil, ?_⟩
  rintro _ ⟨⟩
  trivial

/-- The second one leaves, and `debugging_free` aborts the server. -/
theorem second_client_aborts : ¬ ∀ (rtsp_server : ℕ → Client → Streams → Answer) (s : Pass)
    (cells : List (ℕ × Client)) (fuel : ℕ), AnswersOf rtsp_server →
      IsList s.memory s.rtspList cells → cells.length < fuel →
      KeepsOthers rtsp_server fuel s cells := by
  intro h
  obtain ⟨out, -, -, hout, -⟩ :=
    h (leaving 1) threeClients _ 4 (leaving_answers 1) threeClients_list (by decide)
  have hnone : schedule_connections (leaving 1) 4 threeClients = none := rfl
  rw [hnone] at hout
  cases hout

end Fenice.Rtsp
