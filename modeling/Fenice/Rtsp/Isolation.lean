import Fenice.Rtsp.Agreement

/-!
# The other connections

A request of a client changes its own RTP sessions. Those of the other connections keep their
records and their entries of the schedule, however the requests are interleaved; only the
scheduler changes them.
-/

namespace Fenice.Rtsp
open Fenice.CString Fenice.Schedule Fenice.Run

/-- The record of an RTP session with its entry of the schedule. -/
def seat (st : Streams) (s : ℕ) : Option (RTPSession × Option Entry) :=
  (st.session s).map fun r => (r, (Streams.index r.schedId).map st.sched)

/-- The sessions in the schedule but those of `l` have the same seats. -/
def SeatsBut (l : List ℕ) (st st' : Streams) : Prop :=
  ∀ s, s ∉ l → InSchedule st s → seat st' s = seat st s

/-- What the scheduler may do to a session: another medium, and a stop. -/
def Advanced (r r' : RTPSession) : Prop :=
  ∃ m stop, r' = { r with
    currentMedia := m, pause := r.pause || stop, started := r.started && !stop }

/-- The same entry, with a session that may have been advanced. -/
def SeatAdvanced (st st' : Streams) (s : ℕ) : Prop :=
  ∃ r r' e, seat st s = some (r, some e) ∧ seat st' s = some (r', some e) ∧ Advanced r r'

def Act.scheduler : Act → Bool
  | .tick _ => true
  | _ => false

/-- The step is not one of connection `j`. -/
def Act.elsewhere (j : ℕ) : Act → Prop
  | .fdsets k | .request k _ _ | .close k => k ≠ j
  | .connect | .tick _ => True

section Seats

variable {st st' st'' : Streams} {l l' : List ℕ} {s t : ℕ} {r : RTPSession}

theorem inSchedule_seat : InSchedule st s ↔ ∃ r e, seat st s = some (r, some e) ∧
    e.valid = true ∧ e.rtpSession = some s := by
  constructor
  · rintro ⟨r, i, hr, hi, hv, he⟩
    refine ⟨r, st.sched i, ?_, hv, he⟩
    rw [seat, hr, Option.map_some, hi, Option.map_some]
  · rintro ⟨r, e, hseat, hv, he⟩
    obtain ⟨q, hq, hpair⟩ := Option.map_eq_some_iff.mp hseat
    obtain ⟨rfl, hentry⟩ := Prod.mk.inj hpair
    obtain ⟨i, hi, rfl⟩ := Option.map_eq_some_iff.mp hentry
    exact ⟨q, i, hq, hi, hv, he⟩

theorem seat_eq {i : Fin oneForkMaxConnection} (hr : st.session s = some r)
    (hi : Streams.index r.schedId = some i) : seat st s = some (r, some (st.sched i)) := by
  rw [seat, hr, Option.map_some, hi, Option.map_some]

theorem seat_same {i : Fin oneForkMaxConnection} (hr : st.session s = some r)
    (hi : Streams.index r.schedId = some i) (hsession : st'.session s = st.session s)
    (hsched : st'.sched i = st.sched i) : seat st' s = seat st s := by
  rw [seat_eq hr hi, seat_eq (hsession.trans hr) hi, hsched]

namespace SeatsBut

theorem refl (l : List ℕ) (st : Streams) : SeatsBut l st st := fun _ _ _ => rfl

theorem trans (h : SeatsBut l st st') (h' : SeatsBut l st' st'') : SeatsBut l st st'' := by
  intro s hs hin
  have hseat := h s hs hin
  have hin' : InSchedule st' s := inSchedule_seat.mpr (hseat ▸ inSchedule_seat.mp hin)
  exact (h' s hs hin').trans hseat

theorem mono (h : SeatsBut l st st') (hl : l ⊆ l') : SeatsBut l' st st' :=
  fun s hs hin => h s (fun hmem => hs (hl hmem)) hin

theorem of_sessions (hsched : st'.sched = st.sched)
    (hsession : ∀ s, s ∉ l → st'.session s = st.session s) : SeatsBut l st st' := by
  intro s hs _
  rw [seat, seat, hsched, hsession s hs]

theorem of_heap (hsched : st'.sched = st.sched) (hheap : st'.heap = st.heap) :
    SeatsBut l st st' :=
  of_sessions hsched fun s _ => by rw [Streams.session, Streams.session, hheap]

theorem look (l : List ℕ) (st : Streams) (object : Bytes) (found : ParsedSD) :
    SeatsBut l st (enum_media st object found).2 := by
  rw [enum_media]
  cases found <;> exact of_heap rfl rfl

theorem setSession (hr : st.session s = some r) (r' : Option RTPSession) :
    SeatsBut [s] st (st.setSession s r') := by
  refine of_sessions rfl fun t ht => ?_
  rw [Streams.session_setSession (Streams.lt_of_session hr),
    if_neg (List.ne_of_not_mem_cons ht)]

theorem of_starts (h : Starts s st st') : SeatsBut [s] st st' :=
  of_sessions h.sched fun t ht => h.other t (List.ne_of_not_mem_cons ht)

theorem of_entry {i : Fin oneForkMaxConnection} (hheap : st'.heap = st.heap)
    (holds : (st.sched i).rtpSession = some s) (hother : ∀ j, j ≠ i → st'.sched j = st.sched j) :
    SeatsBut [s] st st' := by
  rintro t ht ⟨r, j, hr, hj, -, he⟩
  refine seat_same hr hj ?_ (hother j ?_)
  · rw [Streams.session, Streams.session, hheap]
  · rintro rfl
    rw [holds] at he
    cases he
    exact ht List.mem_cons_self

end SeatsBut

/-! ### The loops over sessions -/

/-- `sched_id` names an entry that holds the session, valid or not. -/
def Sits (st : Streams) (s : ℕ) : Prop :=
  ∃ r i, st.session s = some r ∧ Streams.index r.schedId = some i ∧
    (st.sched i).rtpSession = some s

theorem InSchedule.sits (h : InSchedule st s) : Sits st s := by
  obtain ⟨r, i, hr, hi, -, he⟩ := h
  exact ⟨r, i, hr, hi, he⟩

theorem remove_seats (hs : Sits st s) (hr : st.session s = some r)
    (h : st.schedule_remove r.schedId = some st') :
    SeatsBut [s] st st' ∧ ∀ t, Sits st t → Sits st' t := by
  obtain ⟨q, i, hq, hi, he⟩ := hs
  rw [hr] at hq
  cases hq
  have hunlist : st'.heap = st.heap ∧
      st'.sched = Function.update st.sched i { st.sched i with valid := false } := by
    obtain ⟨j, hj, ⟨t, -, rfl⟩ | ⟨-, rfl⟩⟩ := Streams.remove_cases h
    · rw [hi] at hj
      cases hj
      exact ⟨rfl, rfl⟩
    · rw [hi] at hj
      cases hj
      exact ⟨rfl, rfl⟩
  obtain ⟨hheap, hsched⟩ := hunlist
  refine ⟨.of_entry hheap he fun j hj => ?_, ?_⟩
  · rw [hsched, Function.update_of_ne hj]
  · rintro t ⟨x, j, hx, hj, hholds⟩
    refine ⟨x, j, ?_, hj, ?_⟩
    · rw [Streams.session, hheap]
      exact hx
    · rw [hsched]
      by_cases hji : j = i
      · rw [hji, Function.update_self]
        rw [hji] at hholds
        exact hholds
      · rw [Function.update_of_ne hji]
        exact hholds

theorem teardownLoop_seats {filename : Bytes} {list left : List ℕ} (hin : ∀ s ∈ list, Sits st s)
    (h : teardownLoop filename list st = some (left, st')) : SeatsBut list st st' := by
  induction list generalizing st left with
  | nil =>
    cases h
    exact .refl _ _
  | cons s rest ih =>
    obtain ⟨r, hr, h⟩ := Option.bind_eq_some_iff.mp h
    dsimp only at h
    split_ifs at h
    · obtain ⟨st₁, h₁, h⟩ := Option.bind_eq_some_iff.mp h
      obtain ⟨hseats, hsits⟩ := remove_seats (hin s List.mem_cons_self) hr h₁
      have hrest := ih (fun t ht => hsits t (hin t (List.mem_cons_of_mem s ht))) h
      exact (hseats.mono (by simp)).trans (hrest.mono (List.subset_cons_self s rest))
    · obtain ⟨⟨left', st₁⟩, h₁, he⟩ := Option.map_eq_some_iff.mp h
      cases he
      have hrest := ih (fun t ht => hin t (List.mem_cons_of_mem s ht)) h₁
      exact hrest.mono (List.subset_cons_self s rest)

theorem closeLoop_seats {list : List ℕ} (hin : ∀ s ∈ list, Sits st s)
    (h : closeLoop list st = some st') : SeatsBut list st st' := by
  induction list generalizing st with
  | nil =>
    cases h
    exact .refl _ _
  | cons s rest ih =>
    obtain ⟨r, hr, h⟩ := Option.bind_eq_some_iff.mp h
    obtain ⟨st₁, h₁, h⟩ := Option.bind_eq_some_iff.mp h
    obtain ⟨hseats, hsits⟩ := remove_seats (hin s List.mem_cons_self) hr h₁
    have hrest := ih (fun t ht => hsits t (hin t (List.mem_cons_of_mem s ht))) h
    exact (hseats.mono (by simp)).trans (hrest.mono (List.subset_cons_self s rest))

theorem pauseLoop_seats {list : List ℕ} (h : pauseLoop list st = some st') :
    SeatsBut list st st' := by
  induction list generalizing st with
  | nil =>
    cases h
    exact .refl _ _
  | cons s rest ih =>
    obtain ⟨r, hr, h⟩ := Option.bind_eq_some_iff.mp h
    exact ((SeatsBut.setSession hr _).mono (by simp)).trans
      ((ih h).mono (List.subset_cons_self s rest))

theorem playLoop_seats {onlyPriority : Bool} {list : List ℕ}
    (hin : ∀ s ∈ list, InSchedule st s) (h : playLoop onlyPriority list st = some st') :
    SeatsBut list st st' := by
  induction list generalizing st with
  | nil =>
    cases h
    exact .refl _ _
  | cons s rest ih =>
    obtain ⟨r, hr, h⟩ := Option.bind_eq_some_iff.mp h
    split at h
    · have hrest := ih (fun t ht => hin t (List.mem_cons_of_mem s ht)) h
      exact hrest.mono (List.subset_cons_self s rest)
    · obtain ⟨st₁, h₁, h⟩ := Option.bind_eq_some_iff.mp h
      have hstart := startOrResume_starts (hin s List.mem_cons_self) h₁
      have hrest := ih (fun t ht => hstart.inSchedule (hin t (List.mem_cons_of_mem s ht))) h
      exact ((SeatsBut.of_starts hstart).mono (by simp)).trans
        (hrest.mono (List.subset_cons_self s rest))

theorem playTarget_seats {q : RTSPSession} {target : Target}
    (hin : ∀ s ∈ q.rtpSession, InSchedule st s)
    (h : (playTarget q st target).run = some (.ok st')) : SeatsBut q.rtpSession st st' := by
  cases target with
  | presentation | aggregate =>
    obtain ⟨st₁, h₁, he⟩ := Option.map_eq_some_iff.mp h
    cases he
    exact playLoop_seats hin h₁
  | file name =>
    simp only [playTarget] at h
    split at h
    · cases h
    · cases h
    · rename_i r hfound
      obtain ⟨st₁, h₁, he⟩ := Option.map_eq_some_iff.mp h
      cases he
      obtain ⟨s, hs, hr⟩ := findFile_found hfound
      refine (SeatsBut.of_starts (start_starts (hin s hs) hr h₁)).mono ?_
      exact List.cons_subset.mpr ⟨hs, List.nil_subset _⟩

end Seats

/-! ### The methods -/

section Methods

variable {st st' : Streams} {rtsp rtsp' : RTSPBuffer} {w : World} {inp : Bytes}

/-- A method leaves the seats of the sessions that the connection does not list. -/
def LeavesSeats (rtsp : RTSPBuffer) (st : Streams) (out : ℤ × RTSPBuffer × Streams) : Prop :=
  SeatsBut rtsp.sessions st out.2.2

theorem sessions_eq {q : RTSPSession} (h : rtsp.sessionList = some q) :
    rtsp.sessions = q.rtpSession := by
  rw [RTSPBuffer.sessions, h]

theorem get_media_descr_seats (l : List ℕ) (w : World) (object : Bytes) (st : Streams) :
    SeatsBut l st (get_media_descr w object st).2 := by
  rcases get_media_descr_streams w object st with he | he
  · rw [he]
    exact .look l st object w.file
  · rw [he]
    exact .refl l st

theorem describe_seats : Returns (LeavesSeats rtsp st) (RTSP_describe w inp rtsp st) := by
  rw [RTSP_describe]
  refine Returns.check (fun r _ => .refl _ st) fun u _ => ?_
  refine Returns.check (fun r _ => .refl _ st) fun n _ => ?_
  have hget := get_media_descr_seats rtsp.sessions w u.object st
  dsimp only
  refine Returns.check (fun r _ => hget) fun _ _ => ?_
  by_cases hw : w.maxConnection = true
  · have hlook := SeatsBut.look rtsp.sessions (get_media_descr w u.object st).2 u.object
      w.file.again
    rw [if_pos hw, send_redirect_3xx]
    generalize enum_media (get_media_descr w u.object st).2 u.object w.file.again = found at hlook ⊢
    obtain ⟨res, st₂⟩ := found
    cases res with
    | error e =>
      intro out ho
      cases ho
      exact hget.trans hlook
    | ok d =>
      dsimp only
      split
      · intro out ho
        obtain ⟨rtsp₁, -, rfl⟩ := Option.map_eq_some_iff.mp ho
        exact hget.trans hlook
      · intro out ho
        cases ho
        exact hget.trans hlook
  · rw [if_neg hw]
    exact Returns.logged fun rtsp₁ _ => hget

theorem options_seats : Returns (LeavesSeats rtsp st) (RTSP_options inp rtsp st) := by
  rw [RTSP_options]
  refine Returns.check (fun r _ => .refl _ st) fun n _ => ?_
  exact Returns.logged fun rtsp₁ _ => .refl _ st

theorem play_seats (hin : ∀ s ∈ rtsp.sessions, InSchedule st s) :
    Returns (LeavesSeats rtsp st) (RTSP_play w inp rtsp st) := by
  rw [RTSP_play]
  refine Returns.check (fun r _ => .refl _ st) fun n _ => ?_
  refine Returns.check (fun r _ => .refl _ st) fun a _ => ?_
  refine Returns.check (fun r _ => .refl _ st) fun q hq => ?_
  have hsessions : rtsp.sessions = q.rtpSession := sessions_eq (sameSession_ok hq).1
  refine Returns.check (fun r _ => .refl _ st) fun st₁ ht => ?_
  have hseats : SeatsBut rtsp.sessions st st₁ := by
    rw [hsessions] at hin ⊢
    exact playTarget_seats hin ht
  exact Returns.logged fun rtsp₁ _ => hseats

theorem pause_seats : Returns (LeavesSeats rtsp st) (RTSP_pause w inp rtsp st) := by
  rw [RTSP_pause]
  refine Returns.check (fun r _ => .refl _ st) fun n _ => ?_
  refine Returns.check (fun r _ => .refl _ st) fun id _ => ?_
  refine Returns.check (fun r _ => .refl _ st) fun q hq => ?_
  have hsessions : rtsp.sessions = q.rtpSession := sessions_eq (sameSession_ok hq).1
  refine Returns.bind fun st₁ h₁ => ?_
  have hseats : SeatsBut rtsp.sessions st st₁ := by
    rw [hsessions]
    exact pauseLoop_seats h₁
  exact Returns.logged fun rtsp₁ _ => hseats

theorem teardown_seats (hin : ∀ s ∈ rtsp.sessions, InSchedule st s) :
    Returns (LeavesSeats rtsp st) (RTSP_teardown w inp rtsp st) := by
  rw [RTSP_teardown]
  refine Returns.check (fun r _ => .refl _ st) fun n _ => ?_
  refine Returns.check (fun r _ => .refl _ st) fun a _ => ?_
  refine Returns.check (fun r _ => .refl _ st) fun q hq => ?_
  have hsessions : rtsp.sessions = q.rtpSession := sessions_eq (sameSession_ok hq).1
  intro out ho
  obtain ⟨rtsp₂, -, ho⟩ := Option.bind_eq_some_iff.mp ho
  obtain ⟨_, _, ho⟩ := Option.bind_eq_some_iff.mp ho
  obtain ⟨⟨left, st₁⟩, h₁, rfl⟩ := Option.map_eq_some_iff.mp ho
  rw [LeavesSeats, hsessions]
  rw [hsessions] at hin
  exact teardownLoop_seats (fun s hs => (hin s hs).sits) h₁

theorem new_seats {l : List ℕ} {x : Option RTPSession} (hsched : st'.sched = st.sched)
    (hheap : st'.heap = (st.heap ++ [none]).set st.heap.length x) : SeatsBut l st st' := by
  rintro s - ⟨r, i, hr, hi, -, -⟩
  refine seat_same hr hi ?_ (congrFun hsched i)
  rw [Streams.session_new hheap, if_neg (Streams.lt_of_session hr).ne]

theorem setup_seats : Returns (LeavesSeats rtsp st) (RTSP_setup w inp rtsp st) := by
  intro out ho
  rw [LeavesSeats]
  cases setup_chose ho with
  | refused same => exact .of_heap same.sched same.heap
  | @chosen d m n o c object st₁ reaches same log took finish =>
    obtain ⟨rc, rtsp', st'⟩ := out
    obtain ⟨-, hheap, hsched, -⟩ := took.keeps
    have hchosen : SeatsBut rtsp.sessions st c.st :=
      .of_heap (hsched.trans same.sched) (hheap.trans same.heap)
    refine hchosen.trans ?_
    cases finishSetup_finished finish with
    | noSession r hs => exact .refl _ _
    | notCopied id hs out st₂ hc =>
      obtain ⟨entries, buffers, rfl⟩ := copyMedia_frame hc
      exact @new_seats c.st _ _ (some (halfSession object out)) rfl rfl
    | entered sessionId hs out st₂ hc id st₃ ha rtsp₂ hr =>
      obtain ⟨entries, buffers, rfl⟩ := copyMedia_frame hc
      rcases Streams.add_cases
        { c.st with heap := c.st.heap ++ [none], entries := entries, buffers := buffers }
        c.st.heap.length c.dad with ⟨i, hi, he⟩ | ⟨-, he⟩
      · -- the entry was not valid, so no session of the schedule has it
        rw [he] at ha
        cases ha
        have hinvalid : (c.st.sched i).valid = false := Streams.firstInvalid_invalid hi
        rintro s - ⟨r, j, hr, hj, hv, -⟩
        refine seat_same hr hj ?_ ?_
        · exact (Streams.session_new rfl s).trans (if_neg (Streams.lt_of_session hr).ne)
        · refine Function.update_of_ne ?_ _ _
          rintro rfl
          rw [hinvalid] at hv
          cases hv
      · rw [he] at ha
        cases ha
        exact @new_seats c.st _ _ (some (fullSession w object d out c (-1))) rfl rfl

theorem handler_seats {x : Handler} (hin : ∀ s ∈ rtsp.sessions, InSchedule st s) :
    Returns (LeavesSeats rtsp st) (x.run w inp rtsp st) := by
  cases x with
  | describe => exact describe_seats
  | options => exact options_seats
  | setup => exact setup_seats
  | play => exact play_seats hin
  | pause => exact pause_seats
  | teardown => exact teardown_seats hin

theorem cell_seats {x : Cell} (hin : ∀ s ∈ rtsp.sessions, InSchedule st s)
    (h : x.exec w inp rtsp st = some (rtsp', st')) : SeatsBut rtsp.sessions st st' := by
  cases x with
  | silent =>
    cases h
    exact .refl _ _
  | refuse status =>
    rw [(refuse_eq h).2]
    exact .refl _ _
  | stay y =>
    obtain ⟨out, ho, hout⟩ := Option.map_eq_some_iff.mp h
    have hy := handler_seats hin out ho
    rw [LeavesSeats, hout] at hy
    exact hy
  | move y next =>
    obtain ⟨⟨rc, rtsp₂, st₂⟩, ho, hout⟩ := Option.map_eq_some_iff.mp h
    have hy := handler_seats hin _ ho
    dsimp only at hout
    split at hout
    · cases hout
      exact hy
    · cases hout
      exact hy

theorem message_seats (hin : ∀ s ∈ rtsp.sessions, InSchedule st s)
    (h : handleMessage w inp rtsp st = some (rtsp', st')) : SeatsBut rtsp.sessions st st' := by
  cases hmethod : messageMethod inp with
  | none =>
    rw [(handleMessage_other hmethod h).2]
    exact .refl _ _
  | some m =>
    cases handleMessage_dispatched hmethod h with
    | malformed seq => exact .refl _ _
    | ended seq => exact .refl _ _
    | table seq p hp _ _ he =>
      have hsame : RTSPBuffer.sessions { rtsp with rtspCseq := seq } = rtsp.sessions :=
        sessions_congr rfl
      rw [← hsame] at hin ⊢
      exact cell_seats hin he

end Methods

/-! ### The server -/

section Server

variable {sv sv' : Server} {j k : ℕ} {rtsp : RTSPBuffer} {a : Act} {as bs : List Act}

theorem listed_inSchedule (hE : Enrolled sv.st sv.listed) (hk : sv.connection k = some rtsp) :
    ∀ s ∈ rtsp.sessions, InSchedule sv.st s := by
  intro s hs
  cases hlist : rtsp.sessionList with
  | none =>
    rw [RTSPBuffer.sessions, hlist] at hs
    cases hs
  | some q =>
    rw [sessions_eq hlist] at hs
    exact hE.entries s (mem_listed hk hlist hs)

theorem step_seats (hE : Enrolled sv.st sv.listed) (ha : a.elsewhere j)
    (htick : a.scheduler = false) (hj : sv.connection j = some rtsp)
    (hstep : serverStep sv a = some sv') :
    sv'.connection j = some rtsp ∧ ∀ s ∈ rtsp.sessions, seat sv'.st s = seat sv.st s := by
  have hapart : ∀ {k rtsp'}, sv.connection k = some rtsp' → k ≠ j → ∀ {st'},
      SeatsBut rtsp'.sessions sv.st st' → ∀ s ∈ rtsp.sessions, seat st' s = seat sv.st s := by
    intro k rtsp' hk hne st' hseats s hs
    refine hseats s ?_ (listed_inSchedule hE hj s hs)
    exact listed_disjoint hE.nodup hj hk (Ne.symm hne) s hs
  cases a with
  | connect =>
    cases hstep
    refine ⟨?_, fun _ _ => rfl⟩
    obtain ⟨hlt, -⟩ := List.getElem?_eq_some_iff.mp (Option.join_eq_some_iff.mp hj)
    rw [connection_add_client, if_neg hlt.ne]
    exact hj
  | fdsets k =>
    obtain ⟨rtsp', hk, hstep⟩ := Option.bind_eq_some_iff.mp hstep
    obtain ⟨_, -, rfl⟩ := Option.map_eq_some_iff.mp hstep
    rw [put_connection (connection_lt hk), if_neg (Ne.symm ha)]
    exact ⟨hj, fun _ _ => rfl⟩
  | request k w inp =>
    obtain ⟨rtsp', hk, hstep⟩ := Option.bind_eq_some_iff.mp hstep
    obtain ⟨⟨rtsp₁, st'⟩, hm, rfl⟩ := Option.map_eq_some_iff.mp hstep
    rw [put_connection (connection_lt hk), if_neg (Ne.symm ha)]
    exact ⟨hj, hapart hk ha (message_seats (listed_inSchedule hE hk) hm)⟩
  | close k =>
    obtain ⟨rtsp', st', hk, hc, rfl⟩ := close_step hstep
    rw [put_connection (connection_lt hk), if_neg (Ne.symm ha)]
    have hsits := fun s hs => (listed_inSchedule hE hk s hs).sits
    exact ⟨hj, hapart hk ha (closeLoop_seats hsits hc)⟩
  | tick turn => cases htick

theorem Advanced.refl (r : RTPSession) : Advanced r r := by
  refine ⟨r.currentMedia, false, ?_⟩
  simp

theorem Advanced.trans {r r' r'' : RTPSession} (h : Advanced r r') (h' : Advanced r' r'') :
    Advanced r r'' := by
  obtain ⟨m, stop, rfl⟩ := h
  obtain ⟨m', stop', rfl⟩ := h'
  refine ⟨m', stop || stop', ?_⟩
  simp [Bool.or_assoc, Bool.and_assoc]

section Tick

variable {st st' : Streams} {s t : ℕ} {q q' : RTPSession}

theorem SeatAdvanced.of_same (h : InSchedule st t) (hseat : seat st' t = seat st t) :
    SeatAdvanced st st' t := by
  obtain ⟨r, e, hr, -⟩ := inSchedule_seat.mp h
  exact ⟨r, r, e, hr, hseat.trans hr, .refl r⟩

theorem SeatAdvanced.trans {st'' : Streams} (h : SeatAdvanced st st' t)
    (h' : SeatAdvanced st' st'' t) : SeatAdvanced st st'' t := by
  obtain ⟨r, r', e, hr, hr', hadv⟩ := h
  obtain ⟨q, q', e', hq, hq', hadv'⟩ := h'
  rw [hr'] at hq
  cases hq
  exact ⟨r, q', e, hr, hq', hadv.trans hadv'⟩

theorem SeatAdvanced.of_set (ht : InSchedule st t) (hsched : st'.sched = st.sched)
    (hq : st.session s = some q)
    (hset : ∀ u, st'.session u = if u = s then some q' else st.session u)
    (hid : q'.schedId = q.schedId) (hadv : Advanced q q') : SeatAdvanced st st' t := by
  by_cases hts : t = s
  · subst hts
    obtain ⟨r, j, hr, hj, -, -⟩ := ht
    rw [hr] at hq
    cases hq
    have hnew : st'.session t = some q' := (hset t).trans (if_pos rfl)
    exact ⟨_, q', st.sched j, seat_eq hr hj, hsched ▸ seat_eq hnew (hid ▸ hj), hadv⟩
  · refine .of_same ht ?_
    rw [seat, seat, hsched, hset t, if_neg hts]

theorem stopped_seats (ht : InSchedule st t) (hq : st.session s = some q) (stop : Bool) :
    SeatAdvanced st (st.stopped s q stop) t := by
  cases stop with
  | false => exact .of_same ht rfl
  | true =>
    refine .of_set ht rfl hq (Streams.session_setSession (Streams.lt_of_session hq) _) rfl ?_
    exact ⟨q.currentMedia, true, by simp⟩

theorem visit_seats {l : List ℕ} {turn : Turn} {i : Fin oneForkMaxConnection}
    (hE : Enrolled st l) (ht : t ∈ l) (h : Streams.Visit st i turn st') :
    SeatAdvanced st st' t := by
  have hin := hE.entries t ht
  cases h with
  | idle => exact .of_same hin rfl
  | sent s q _ _ hq _ _ stop => exact stopped_seats hin hq stop
  | switched s q _ _ hq _ m _ stop =>
    have hswitched := Streams.session_switch (m := m) hq
    have hself : (st.stream_switch s q m).session s = some { q with currentMedia := m } :=
      (hswitched s).trans (if_pos rfl)
    have hfirst : SeatAdvanced st (st.stream_switch s q m) t :=
      .of_set hin rfl hq hswitched rfl ⟨m, false, by simp⟩
    have hin' : InSchedule (st.stream_switch s q m) t := by
      obtain ⟨_, r', e, hr, hr', -⟩ := hfirst
      obtain ⟨_, e', hr₀, hv, he⟩ := inSchedule_seat.mp hin
      rw [hr] at hr₀
      cases hr₀
      exact inSchedule_seat.mpr ⟨r', e, hr', hv, he⟩
    exact hfirst.trans (stopped_seats hin' hself stop)
  | destroyed s q hinvalid hholds hq _ st₂ hdestroy =>
    -- the entry of a listed session is valid
    obtain ⟨r, j, hr, hj, hv, he⟩ := hin
    have hji : j ≠ i := by
      rintro rfl
      rw [hinvalid] at hv
      cases hv
    have hts : t ≠ s := by
      rintro rfl
      exact hji (hE.only t ht j i he hholds)
    obtain ⟨st₃, st₄, b, n, hclose, hunref, -, -, rfl⟩ := Streams.destroy_cases hdestroy
    obtain ⟨portPool, sds, closed, rfl⟩ := Streams.close_cases hclose
    obtain ⟨-, buffers, rfl, -⟩ := Streams.unref_cases hunref
    have hset := Streams.session_setSession (Streams.lt_of_session hq) none t
    rw [if_neg hts] at hset
    refine .of_same (hE.entries t ht) (seat_same hr hj ?_ ?_)
    · split_ifs
      · exact hset
      · exact hset
    · refine (Function.update_of_ne hji _ _).trans ?_
      split_ifs
      · rfl
      · rfl

theorem tick_seats {l : List ℕ} {turn : Turn} (hE : Enrolled st l) (ht : t ∈ l)
    (h : st.schedule_do turn = some st') : SeatAdvanced st st' t := by
  rcases Streams.tick_cases h with ⟨position, rfl⟩ | ⟨i, st₁, -, hvisit, rfl⟩
  · exact .of_same (hE.entries t ht) rfl
  · have hseats := visit_seats hE ht hvisit
    exact hseats

end Tick

/-- In any order of steps of the other connections and of the scheduler the connection stays as it
is, and each of its sessions keeps its entry of the schedule and its record, but for a medium
and a stop of the scheduler. Without a step of the scheduler nothing changes. -/
theorem others_untouched (hrun : GuardedRun serverStep StepEnters Server.init as sv)
    (hothers : GuardedRun serverStep StepEnters sv bs sv') (hj : sv.connection j = some rtsp)
    (hbs : ∀ b ∈ bs, b.elsewhere j) :
    sv'.connection j = some rtsp ∧ (∀ s ∈ rtsp.sessions, SeatAdvanced sv.st sv'.st s) ∧
      ((∀ b ∈ bs, b.scheduler = false) → ∀ s ∈ rtsp.sessions, seat sv'.st s = seat sv.st s) := by
  obtain ⟨hE, hA⟩ := Enrolled.run hrun
  clear hrun
  induction hothers with
  | nil sv =>
    refine ⟨hj, fun s hs => ?_, fun _ _ _ => rfl⟩
    exact .of_same (listed_inSchedule hE hj s hs) rfl
  | @cons sv sv₁ sv' b bs hg hstep tail ih =>
    have hb := hbs b List.mem_cons_self
    have hE₁ := hE.step hA hg hstep
    have hA₁ := hA.made (server_made hstep)
    have hfirst : sv₁.connection j = some rtsp ∧
        (∀ s ∈ rtsp.sessions, SeatAdvanced sv.st sv₁.st s) ∧
        (b.scheduler = false → ∀ s ∈ rtsp.sessions, seat sv₁.st s = seat sv.st s) := by
      by_cases htick : b.scheduler = false
      · obtain ⟨hj₁, hseats⟩ := step_seats hE hb htick hj hstep
        exact ⟨hj₁, fun s hs => .of_same (listed_inSchedule hE hj s hs) (hseats s hs),
          fun _ => hseats⟩
      · cases b with
        | tick turn =>
          obtain ⟨st', ht, rfl⟩ := Option.map_eq_some_iff.mp hstep
          refine ⟨hj, fun s hs => tick_seats hE ?_ ht, fun h => absurd h htick⟩
          cases hlist : rtsp.sessionList with
          | none =>
            rw [RTSPBuffer.sessions, hlist] at hs
            cases hs
          | some q =>
            rw [sessions_eq hlist] at hs
            exact mem_listed hj hlist hs
        | _ => exact absurd rfl htick
    obtain ⟨hj₁, hadv, hsame⟩ := hfirst
    obtain ⟨hj', hadv', hsame'⟩ := ih hj₁ (fun b hb => hbs b (List.mem_cons_of_mem _ hb)) hE₁ hA₁
    refine ⟨hj', fun s hs => (hadv s hs).trans (hadv' s hs), fun hnone s hs => ?_⟩
    rw [hsame' (fun b hb => hnone b (List.mem_cons_of_mem _ hb)) s hs]
    exact hsame (hnone b List.mem_cons_self) s hs

end Server

/-- Another client comes, the scheduler runs, and the client asks for the film that it has not
set up. -/
def stranger : List Act := [.connect, .tick ⟨true, none, 0⟩, .request 1 {} playFilm]

/-- The first client has the film set up. -/
theorem others_untouched_stranger : ∃ sv sv' rtsp, exec serverStep Server.init setUp = some sv ∧
    exec serverStep sv stranger = some sv' ∧ sv'.connection 0 = some rtsp ∧
      rtsp.sessions = [0] ∧ SeatAdvanced sv.st sv'.st 0 := by
  have hrun : ((serverStep Server.init.add_client
      (.request 0 onDisk (setupMessage 1 "v.mpg" []))).bind fun sv =>
        (exec serverStep sv stranger).map fun sv' => (sv, sv')).any (fun t =>
      (t.1.connection 0).any fun rtsp => decide (rtsp.sessions = [0])) = true := by
    decide +kernel
  obtain ⟨⟨sv, sv'⟩, ht, htest⟩ := (Option.any_eq_true _ _).mp hrun
  obtain ⟨sv₁, hsetup, ht⟩ := Option.bind_eq_some_iff.mp ht
  obtain ⟨sv₂, hexec, he⟩ := Option.map_eq_some_iff.mp ht
  cases he
  obtain ⟨rtsp, hj, hsessions⟩ := (Option.any_eq_true _ _).mp htest
  have hsessions := of_decide_eq_true hsessions
  have henters : StepEnters Server.init.add_client
      (.request 0 onDisk (setupMessage 1 "v.mpg" [])) := by
    intro rtsp hr _ _
    cases hr
    exact first_enters _ _ _
  have hbefore : GuardedRun serverStep StepEnters Server.init setUp sv :=
    .cons trivial rfl (.cons henters hsetup (.nil _))
  have hplayed : messageMethod playFilm = some .play := by decide +kernel
  have hguest : ∀ sv, StepEnters sv (.request 1 {} playFilm) := by
    intro sv rtsp _ seq hcalls
    rw [messageMethod, hcalls.method] at hplayed
    cases hplayed
  have hothers : GuardedRun serverStep StepEnters sv stranger sv' := by
    rw [stranger, exec_cons] at hexec
    obtain ⟨s₁, h₁, hexec⟩ := Option.bind_eq_some_iff.mp hexec
    obtain ⟨s₂, h₂, hexec⟩ := Option.bind_eq_some_iff.mp hexec
    obtain ⟨s₃, h₃, hend⟩ := Option.bind_eq_some_iff.mp hexec
    cases hend
    exact .cons trivial h₁ (.cons trivial h₂ (.cons (hguest s₂) h₃ (.nil _)))
  have hapart : ∀ b ∈ stranger, b.elsewhere 0 := by
    simp [stranger, Act.elsewhere]
  obtain ⟨hj', hadv, -⟩ := others_untouched hbefore hothers hj hapart
  have hlisted : 0 ∈ rtsp.sessions := hsessions ▸ List.mem_cons_self
  exact ⟨sv, sv', rtsp, hbefore.exec_eq, hexec, hj', hsessions, hadv 0 hlisted⟩

end Fenice.Rtsp
