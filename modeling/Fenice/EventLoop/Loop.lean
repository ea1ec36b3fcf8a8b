import Fenice.Lib.Run
import Mathlib.Data.Int.Notation

/-!
# The event loop (eventloop.c, schedule_connections.c)

One step is one call of `eventloop` in the process that is followed; at a `fork`
the input says on which side. A client is the number of its socket, and what
`select`, `rtsp_server`, `tcp_accept` and `fork` answer is an input of the pass.
-/

namespace Fenice.EventLoop

open Fenice.Run

/-- `ONE_FORK_MAX_CONNECTION`. -/
def oneForkMaxConnection : ℤ := 100

/-- A node of `rtsp_list` with the socket of its client. `add_client` takes it from `xnew0` for an
empty list and from `calloc` for any other; only what `xnew0` gave is in the table of
`debugging_free`. -/
structure Node where
  fd : ℕ
  tracked : Bool
  deriving DecidableEq

structure Swept where
  rtspList : List Node
  connCount : ℤ
  stopSchedule : Bool
  deriving DecidableEq

/-- `closed`: the clients for which `rtsp_server` gives `ERR_CONNECTION_CLOSE` or
`ERR_GENERIC`. After a client is removed the cursor is on the next one. `none`: the `xfree` of a
node from `calloc` aborts. -/
def schedule_connections (closed : ℕ → Bool) : List Node → ℤ → Option Swept
  | [], connCount => some ⟨[], connCount, false⟩
  | p :: next, connCount =>
    if closed p.fd then
      if p.tracked then
        (schedule_connections closed next (connCount - 1)).map fun swept =>
          { swept with
            stopSchedule := (next.isEmpty && connCount - 1 < 0) || swept.stopSchedule }
      else none
    else
      (schedule_connections closed next connCount).map fun swept =>
        { swept with rtspList := p :: swept.rtspList }

def add_client (rtspList : List Node) (fd : ℕ) : List Node :=
  rtspList ++ [⟨fd, rtspList.isEmpty⟩]

/-- The process after `fork`; the child gives up if `schedule_init` fails. -/
inductive Fork where
  | father
  | child (scheduleInit : Bool)
  deriving DecidableEq

structure Pass where
  -- the sockets that rtsp_set_fdsets adds for a client
  sessionFds : ℕ → List ℕ
  -- what select leaves in the read set; none: select fails
  ready : Option (ℕ → Bool)
  closed : ℕ → Bool
  accepted : Option ℕ
  fork : Fork

structure Loop where
  connCount : ℤ
  childCount : ℕ
  numConn : ℤ
  rtspList : List Node
  -- main_fd has not been closed by this process
  listening : Bool
  -- main_fd was put into the read set or accepted on after it was closed
  touched : Bool
  stopSchedule : Bool
  deriving DecidableEq

def Loop.init : Loop := ⟨0, 0, 0, [], true, false, false⟩

/-- The client that `tcp_accept` gave. -/
def connect (fd : ℕ) (fork : Fork) (s : Loop) : Loop :=
  if fd ∈ s.rtspList.map Node.fd then s
  else if s.connCount < oneForkMaxConnection then
    { s with
      connCount := s.connCount + 1
      rtspList := add_client s.rtspList fd
      numConn := s.numConn + 1 }
  else
    match fork with
    | .child false => { s with childCount := s.childCount + 1 }
    | .child true =>
      { s with
        childCount := s.childCount + 1
        connCount := 1
        rtspList := add_client [] fd
        numConn := s.numConn + 1 }
    | .father => { s with connCount := -1, listening := false, numConn := s.numConn + 1 }

/-- The new connections of a pass. -/
def accept (mainFd : ℕ) (rset : List ℕ) (ready : ℕ → Bool) (p : Pass) (s : Loop) : Loop :=
  if s.connCount ≠ -1 ∧ mainFd ∈ rset ∧ ready mainFd = true then
    let s := { s with touched := s.touched || !s.listening }
    match p.accepted with
    | none => s
    | some fd => connect fd p.fork s
  else s

def readSet (mainFd : ℕ) (p : Pass) (s : Loop) : List ℕ :=
  (if s.connCount ≠ -1 then [mainFd] else []) ++ 
    s.rtspList.flatMap fun c => c.fd :: p.sessionFds c.fd

/-- One call; `none`: the process has aborted. -/
def eventloop (mainFd : ℕ) (s : Loop) (p : Pass) : Option Loop :=
  let t := { s with touched := s.touched || (decide (s.connCount ≠ -1) && !s.listening) }
  match p.ready with
  | none => some t
  | some ready =>
    (schedule_connections p.closed t.rtspList t.connCount).map fun swept =>
      accept mainFd (readSet mainFd p s) ready p
        { t with
          rtspList := swept.rtspList
          connCount := swept.connCount
          numConn := t.numConn - t.rtspList.countP fun c => p.closed c.fd
          stopSchedule := t.stopSchedule || swept.stopSchedule }

/-- The loop of main.c. -/
def pass (mainFd : ℕ) (s : Loop) (p : Pass) : Option Loop := eventloop mainFd s p

/-! ### One sweep over the connections -/

section Sweep

variable {closed : ℕ → Bool} {l : List Node} {connCount : ℤ} {swept : Swept}

theorem swept_rtspList (h : schedule_connections closed l connCount = some swept) :
    swept.rtspList = l.filter fun p => !closed p.fd := by
  induction l generalizing connCount swept with
  | nil =>
    cases h
    rfl
  | cons p next ih =>
    cases hp : closed p.fd with
    | false =>
      simp only [schedule_connections, hp, Bool.false_eq_true, if_false] at h
      obtain ⟨rest, hrest, rfl⟩ := Option.map_eq_some_iff.mp h
      simp [hp, ih hrest]
    | true =>
      simp only [schedule_connections, hp, if_true] at h
      split at h
      · obtain ⟨rest, hrest, rfl⟩ := Option.map_eq_some_iff.mp h
        simp [hp, ih hrest]
      · cases h

theorem swept_connCount (h : schedule_connections closed l connCount = some swept) :
    swept.connCount = connCount - l.countP fun p => closed p.fd := by
  induction l generalizing connCount swept with
  | nil =>
    cases h
    simp
  | cons p next ih =>
    cases hp : closed p.fd with
    | false =>
      simp only [schedule_connections, hp, Bool.false_eq_true, if_false] at h
      obtain ⟨rest, hrest, rfl⟩ := Option.map_eq_some_iff.mp h
      simp [hp, ih hrest]
    | true =>
      simp only [schedule_connections, hp, if_true] at h
      split at h
      · obtain ⟨rest, hrest, rfl⟩ := Option.map_eq_some_iff.mp h
        simp [hp, ih hrest]
        omega
      · cases h

theorem swept_stop (h : schedule_connections closed l connCount = some swept)
    (hstop : swept.stopSchedule = true) :
    ∃ p, l.getLast? = some p ∧ closed p.fd = true ∧ p.tracked = true := by
  induction l generalizing connCount swept with
  | nil =>
    cases h
    cases hstop
  | cons p next ih =>
    cases hp : closed p.fd with
    | false =>
      simp only [schedule_connections, hp, Bool.false_eq_true, if_false] at h
      obtain ⟨rest, hrest, rfl⟩ := Option.map_eq_some_iff.mp h
      obtain ⟨q, hq, hclosed⟩ := ih hrest hstop
      have hne : next ≠ [] := by
        rintro rfl
        cases hq
      exact ⟨q, by rw [List.getLast?_cons_of_ne_nil hne, hq], hclosed⟩
    | true =>
      simp only [schedule_connections, hp, if_true] at h
      split at h
      · rename_i htracked
        obtain ⟨rest, hrest, rfl⟩ := Option.map_eq_some_iff.mp h
        by_cases hne : next = []
        · exact ⟨p, by rw [hne]; rfl, hp, htracked⟩
        · have hempty : next.isEmpty = false := by simpa using hne
          simp only [hempty, Bool.false_and, Bool.false_or] at hstop
          obtain ⟨q, hq, hclosed⟩ := ih hrest hstop
          exact ⟨q, by rw [List.getLast?_cons_of_ne_nil hne, hq], hclosed⟩
      · cases h

/-- A list that `add_client` builds: only the node in front may be one of `xnew0`. -/
def Built (l : List Node) : Prop := ∀ p ∈ l.tail, p.tracked = false

theorem Built.filter {f : Node → Bool} (h : Built l) : Built (l.filter f) := by
  cases l with
  | nil => exact h
  | cons p next =>
    intro q hq
    have hmem : q ∈ next.filter f := by
      rw [List.filter_cons] at hq
      split at hq
      · exact hq
      · exact List.mem_of_mem_tail hq
    exact h q (List.mem_filter.mp hmem).1

theorem Built.add_client (h : Built l) (fd : ℕ) : Built (add_client l fd) := by
  cases l with
  | nil =>
    intro q hq
    cases hq
  | cons p next =>
    intro q hq
    rcases List.mem_append.mp hq with hq | hq
    · exact h q hq
    · rw [List.mem_singleton.mp hq]
      rfl

theorem Built.single {p : Node} (h : Built l) (hp : l.getLast? = some p) (ht : p.tracked = true) :
    l = [p] := by
  cases l with
  | nil => cases hp
  | cons q next =>
    by_cases hne : next = []
    · rw [hne] at hp ⊢
      cases hp
      rfl
    · rw [List.getLast?_cons_of_ne_nil hne] at hp
      have := h p (List.mem_of_getLast? hp)
      rw [ht] at this
      cases this

end Sweep

/-! ### The lists of the event loop -/

theorem connect_built (fd : ℕ) (fork : Fork) {s : Loop} (h : Built s.rtspList) :
    Built (connect fd fork s).rtspList := by
  unfold connect
  split_ifs
  · exact h
  · exact h.add_client fd
  · cases fork with
    | father => exact h
    | child scheduleInit =>
      cases scheduleInit with
      | false => exact h
      | true => exact Built.add_client (fun _ hq => by cases hq) fd

theorem eventloop_built {mainFd : ℕ} {p : Pass} {s t : Loop} (h : Built s.rtspList)
    (ht : eventloop mainFd s p = some t) : Built t.rtspList := by
  unfold eventloop at ht
  dsimp only at ht
  split at ht
  · cases ht
    exact h
  · rename_i ready hready
    obtain ⟨swept, hswept, rfl⟩ := Option.map_eq_some_iff.mp ht
    have hrest : Built swept.rtspList := by
      rw [swept_rtspList hswept]
      exact h.filter
    unfold accept
    dsimp only
    split_ifs
    · split
      · exact hrest
      · exact connect_built _ _ hrest
    · exact hrest

/-- A pass in which `fd` connects, and one in which `fd` leaves. -/
def connects (fd : ℕ) : Pass := ⟨fun _ => [], some fun _ => true, fun _ => false, some fd, .father⟩
def leaves (fd : ℕ) : Pass := ⟨fun _ => [], some fun _ => true, (· == fd), none, .father⟩

/-- A pass in which the process listens or none of its clients leaves. -/
def NoneLeaves (s : Loop) (p : Pass) : Prop :=
  s.listening = false → p.ready.isSome → ∀ c ∈ s.rtspList, p.closed c.fd = false

instance (s : Loop) (p : Pass) : Decidable (NoneLeaves s p) := by
  unfold NoneLeaves
  infer_instance

/-- While it has the sentinel, a father leaves its closed socket alone. -/
def Untouched (s : Loop) : Prop := s.touched = false ∧ (s.listening = false → s.connCount = -1)

theorem connect_untouched (fd : ℕ) (fork : Fork) {s : Loop} (h : Untouched s)
    (hl : s.listening = true) : Untouched (connect fd fork s) := by
  obtain ⟨ht, -⟩ := h
  unfold connect
  split
  · exact ⟨ht, by simp [hl]⟩
  · split
    · exact ⟨ht, by simp [hl]⟩
    · cases fork with
      | father => exact ⟨ht, fun _ => rfl⟩
      | child scheduleInit => cases scheduleInit <;> exact ⟨ht, by simp [hl]⟩

theorem accept_untouched (mainFd : ℕ) (rset : List ℕ) (ready : ℕ → Bool) (p : Pass) {s : Loop}
    (h : Untouched s) : Untouched (accept mainFd rset ready p s) := by
  unfold accept
  split
  · rename_i hc
    have hl : s.listening = true := by
      by_contra hl
      exact hc.1 (h.2 (by simpa using hl))
    have hs : Untouched { s with touched := s.touched || !s.listening } := by
      exact ⟨by simp [h.1, hl], by simp [hl]⟩
    cases p.accepted with
    | none => exact hs
    | some fd => exact connect_untouched fd p.fork hs hl
  · exact h

theorem eventloop_untouched {mainFd : ℕ} {p : Pass} {s t : Loop} (h : Untouched s)
    (hp : NoneLeaves s p) (he : eventloop mainFd s p = some t) : Untouched t := by
  obtain ⟨ht, hcount⟩ := h
  have htouch : (s.touched || (decide (s.connCount ≠ -1) && !s.listening)) = false := by
    cases hl : s.listening with
    | true => simp [ht]
    | false => simp [ht, hcount hl]
  unfold eventloop at he
  cases hr : p.ready with
  | none =>
    rw [hr] at he
    cases he
    exact ⟨htouch, hcount⟩
  | some ready =>
    rw [hr] at he
    obtain ⟨swept, hswept, rfl⟩ := Option.map_eq_some_iff.mp he
    apply accept_untouched
    refine ⟨htouch, fun hl => ?_⟩
    have hnone : (s.rtspList.countP fun c => p.closed c.fd) = 0 := by
      rw [List.countP_eq_zero]
      intro c hc
      simp [hp hl (by simp [hr]) c hc]
    dsimp only
    rw [swept_connCount hswept, hnone, hcount hl]
    rfl

/-- In a run in which no client leaves a process that has become the father, the closed
listening socket is never touched. -/
theorem closed_socket_untouched {mainFd : ℕ} {ps : List Pass} {s : Loop}
    (h : GuardedRun (pass mainFd) NoneLeaves Loop.init ps s) : s.touched = false := by
  have hinv : Untouched s := by
    refine h.invariant ?_ ⟨rfl, fun hl => by cases hl⟩
    intro s p t hs hp he
    exact eventloop_untouched hs hp he
  exact hinv.1

/-- A hundred clients connect and the process becomes the father at the next one. -/
def becomesFather : List Pass := (List.range 101).map fun i => connects (i + 10)

theorem closed_socket_untouched_father :
    ∃ s, exec (pass 3) Loop.init becomesFather = some s ∧ s.listening = false ∧
      s.touched = false := by
  have hrun : allowed (pass 3) NoneLeaves Loop.init becomesFather = true := by decide +kernel
  have he : exec (pass 3) Loop.init becomesFather =
      some ((exec (pass 3) Loop.init becomesFather).getD Loop.init) := by decide +kernel
  exact ⟨_, he, by decide +kernel, closed_socket_untouched (.of_allowed hrun he)⟩

-- one client leaves the father, which then puts the closed socket into its read set
theorem father_touches_closed_socket :
    ¬ ∀ ps s, exec (pass 3) Loop.init ps = some s → s.touched = false := by
  intro h
  have := h (becomesFather ++ [leaves 10, leaves 10]) _ (Option.eq_some_of_isSome (by decide +kernel))
  revert this
  decide +kernel

end Fenice.EventLoop
