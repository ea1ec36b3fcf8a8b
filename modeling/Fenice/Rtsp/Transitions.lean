import Fenice.Rtsp.Room

/-!
# The state of a connection

The state machine goes on to the next state when a method returns `ERR_NOERROR`, which
most of the checks do as well when they reject the request.
-/

namespace Fenice.Rtsp
open Fenice.CString Fenice.Schedule Fenice.Run

/-- The table of the states. A TEARDOWN may end the session. -/
def Transition : CurState → Method → Option CurState → Prop
  | .init, .setup, some .ready | .ready, .setup, some .ready => True
  | .ready, .play, some .play | .play, .pause, some .ready => True
  | _, .teardown, none => True
  | _, _, _ => False

def messageMethod (inp : Bytes) : Option Method := (RTSP_validate_method inp).bind Prod.snd

/-- The state changes only if a reply 200 is appended to `out_buffer`, as the table says, and stays
with any other reply, as the flags of the sessions do. -/
structure MovesOnSuccess (inp : Bytes) (rtsp rtsp' : RTSPBuffer) (st st' : Streams) : Prop where
  moves : rtsp'.state ≠ rtsp.state → ∃ r c m, rtsp'.out = rtsp.out.bwrite r ∧
    rtsp'.out.bytes = rtsp.out.bytes ++ r.render ∧ r.status = 200 ∧
      rtsp.state = some c ∧ messageMethod inp = some m ∧ Transition c m rtsp'.state
  stays : ∀ r, rtsp'.out = rtsp.out.bwrite r → 300 ≤ r.status →
    rtsp'.state = rtsp.state ∧ SameFlags st st'

/-- The request is rejected by a check that returns `ERR_NOERROR`. -/
def RejectedAsDone (y : Checks Unit) : Prop :=
  ∃ r, y.run = some (.error r) ∧ r.rc = errNoerror

/-- The request passes its checks, and `out_buffer` is too full for the reply. -/
def Unanswered (o : Output) (z : Checks ℕ) : Prop :=
  ∃ n, z.run = some (.ok n) ∧ outBufferSize < o.bytes.length + n

/-- TEARDOWN names every session of the list. -/
def NamesAll (inp : Bytes) (p : RTSPSession) (st : Streams) : Prop :=
  ∃ r, (teardownRequest inp).run = some (.ok r) ∧
    ∀ s ∈ p.rtpSession, spared r.filename st s = false

/-- The message is for a method that would move the state on, and is rejected so or goes through
without a reply, or it is a TEARDOWN that ends the session without a reply. -/
def MovesAnyway (w : World) (inp : Bytes) (rtsp : RTSPBuffer) (st : Streams) : Prop :=
  RTSP_valid_response_msg inp = false ∧ scanSession inp ≠ some none ∧
    ∃ seq m p, RTSP_validate_method inp = some (seq, some m) ∧ rtsp.sessionList = some p ∧
      ((∃ x next, cell p.curState m = .move x next ∧ next ≠ p.curState ∧
        (RejectedAsDone (x.checks w inp { rtsp with rtspCseq := seq } st) ∨
          Unanswered rtsp.out (x.room w inp { rtsp with rtspCseq := seq } st))) ∨
      m = .teardown ∧ NamesAll inp p st ∧
        Unanswered rtsp.out (teardownRoom w inp { rtsp with rtspCseq := seq }))

theorem MovesOnSuccess.same {inp : Bytes} {rtsp rtsp' : RTSPBuffer} {st : Streams}
    (h : rtsp'.state = rtsp.state) : MovesOnSuccess inp rtsp rtsp' st st :=
  ⟨fun hne => absurd h hne, fun _ _ _ => ⟨h, .refl st⟩⟩

theorem Ended.stays {rtsp : RTSPBuffer} {st : Streams} {y : Except Rejection Unit} {ends : Bool}
    {out : ℤ × RTSPBuffer × Streams} {reply r : Reply} (h : Ended rtsp st y ends out reply)
    (hr : out.2.1.out = rtsp.out.bwrite r) (hstatus : 300 ≤ r.status) :
    out.2.1.state = rtsp.state ∧ SameFlags st out.2.2 := by
  have hrr := bwrite_inj (hr.symm.trans h.bwrite)
  subst hrr
  cases y with
  | ok u =>
    have hok := h.status
    simp only [replied] at hok
    omega
  | error e =>
    rcases h.state with hs | ⟨-, he, -⟩
    · exact ⟨hs, h.flags e rfl⟩
    · cases he

theorem Ended.appended {rtsp : RTSPBuffer} {st : Streams} {ends : Bool} {x : Handled}
    {out : ℤ × RTSPBuffer × Streams} {reply : Reply} {z : Checks ℕ}
    (h : Ended rtsp st (.ok ()) ends out reply) (hx : x = some out) (hsized : Sized rtsp z x)
    (hz : (z >>= fun _ => pure ()).run = some (.ok ())) :
    out.2.1.out.bytes = rtsp.out.bytes ++ reply.render ↔ ¬ Unanswered rtsp.out z := by
  obtain ⟨n, hn, -⟩ := bind_ok hz
  obtain ⟨reply', hbwrite, hlength⟩ := hsized out hx n hn
  have hsame := bwrite_inj (h.bwrite.symm.trans hbwrite)
  rw [← hsame] at hlength
  rw [h.bwrite, bwrite_bytes_iff, hlength]
  constructor
  · rintro hroom ⟨k, hk, hfull⟩
    rw [hn] at hk
    cases hk
    exact hroom hfull
  · exact fun hno hfull => hno ⟨n, hn, hfull⟩

/-- The state that a method moves on to is that of the table, or the one there was. -/
theorem cell_transition {c next : CurState} {m : Method} {x : Handler}
    (h : cell c m = .move x next) : next = c ∨ Transition c m (some next) := by
  cases c <;> cases m <;> cases h <;> first | exact Or.inl rfl | exact Or.inr trivial

theorem cell_of_teardown (c : CurState) : cell c .teardown = .stay .teardown := by
  cases c <;> rfl

theorem cell_stay {c : CurState} {m : Method} {x : Handler} (h : cell c m = .stay x) :
    x = .teardown ∧ m = .teardown ∨ x = .describe ∧ m ≠ .teardown := by
  cases c <;> cases m <;> cases h <;> decide

theorem cell_move_handler {c next : CurState} {m : Method} {x : Handler}
    (h : cell c m = .move x next) : (x == .teardown) = false := by
  cases c <;> cases m <;> cases h <;> rfl

/-- Where the state changes as the table says, the law is about the reply. -/
theorem moved_iff {inp : Bytes} {rtsp rtsp' : RTSPBuffer} {st st' : Streams} {reply : Reply}
    {m : Method} {c : CurState} (hm : messageMethod inp = some m) (hc : rtsp.state = some c)
    (hbwrite : rtsp'.out = rtsp.out.bwrite reply) (hne : rtsp'.state ≠ rtsp.state)
    (htable : Transition c m rtsp'.state) : MovesOnSuccess inp rtsp rtsp' st st' ↔
      rtsp'.out.bytes = rtsp.out.bytes ++ reply.render ∧ reply.status = 200 := by
  constructor
  · intro hlaw
    obtain ⟨r, -, -, hb, happended, hok, -⟩ := hlaw.moves hne
    rw [bwrite_inj (hb.symm.trans hbwrite)] at happended hok
    exact ⟨happended, hok⟩
  · intro hreply
    refine ⟨fun _ => ⟨reply, c, m, hbwrite, hreply.1, hreply.2, hc, hm, htable⟩,
      fun r hr hstatus => ?_⟩
    rw [bwrite_inj (hr.symm.trans hbwrite), hreply.2] at hstatus
    omega

/-- Whether a method that would move the state on answers the request. -/
theorem answered_iff {w : World} {inp : Bytes} {rtsp : RTSPBuffer} {st : Streams} {x : Handler}
    {y : Except Rejection Unit} {ends : Bool} {out : ℤ × RTSPBuffer × Streams} {reply : Reply}
    (hx : x.run w inp rtsp st = some out) (hy : (x.checks w inp rtsp st).run = some y)
    (hended : Ended rtsp st y ends out reply) (hdone : out.1 = errNoerror) :
    (out.2.1.out.bytes = rtsp.out.bytes ++ reply.render ∧ reply.status = 200) ↔
      ¬ (RejectedAsDone (x.checks w inp rtsp st) ∨ Unanswered rtsp.out (x.room w inp rtsp st)) := by
  cases y with
  | ok u =>
    have hnot : ¬ RejectedAsDone (x.checks w inp rtsp st) := by
      rintro ⟨r, hr, -⟩
      rw [hy] at hr
      cases hr
    have happended := hended.appended hx (handler_sized x w inp rtsp st)
      (by rw [room_checks]; exact hy)
    exact ⟨fun hreply hno => hno.elim hnot (happended.mp hreply.1),
      fun hno => ⟨happended.mpr fun hfull => hno (.inr hfull), hended.status⟩⟩
  | error r =>
    have hstatus : reply.status ≠ 200 := by
      rw [hended.status]
      exact handler_refuses x w inp rtsp st r hy
    exact ⟨fun hreply => absurd hreply.2 hstatus,
      fun hno => absurd (.inl ⟨r, hy, hended.value.symm.trans hdone⟩) hno⟩

theorem move_iff {w : World} {inp : Bytes} {rtsp rtsp' : RTSPBuffer} {st st' : Streams}
    {x : Handler} {m : Method} {p : RTSPSession} {next : CurState}
    (hm : messageMethod inp = some m) (hp : rtsp.sessionList = some p)
    (hcell : cell p.curState m = .move x next)
    (h : moveTo next (x.run w inp rtsp st) = some (rtsp', st')) :
    MovesOnSuccess inp rtsp rtsp' st st' ↔
      ¬ (next ≠ p.curState ∧ (RejectedAsDone (x.checks w inp rtsp st) ∨
        Unanswered rtsp.out (x.room w inp rtsp st))) := by
  obtain ⟨⟨rc, rtsp₁, st₁⟩, hx, he⟩ := Option.map_eq_some_iff.mp h
  obtain ⟨y, reply, hy, hended⟩ := handler_decides x w inp st hp _ hx
  have hc : rtsp.state = some p.curState := by rw [RTSPBuffer.state, hp, Option.map_some]
  have hstate : rtsp₁.state = rtsp.state := by
    rcases hended.state with hs | ⟨ht, -, -⟩
    · exact hs
    · rw [cell_move_handler hcell] at ht
      cases ht
  have hbwrite : rtsp₁.out = rtsp.out.bwrite reply := hended.bwrite
  dsimp only at he
  by_cases hrc : rc = errNoerror
  · -- the transition is made
    rw [if_pos hrc, Prod.mk.injEq] at he
    obtain ⟨rfl, rfl⟩ := he
    have hnew : RTSPBuffer.state { rtsp₁ with
        sessionList := rtsp₁.sessionList.map fun s => { s with curState := next } } = some next := by
      rw [hc] at hstate
      obtain ⟨q, hq, -⟩ := Option.map_eq_some_iff.mp hstate
      rw [RTSPBuffer.state, hq]
      rfl
    by_cases hsame : next = p.curState
    · -- and leads nowhere
      have hs : RTSPBuffer.state { rtsp₁ with
          sessionList := rtsp₁.sessionList.map fun s => { s with curState := next } } =
            rtsp.state := by rw [hnew, hc, hsame]
      exact iff_of_true ⟨fun hne => absurd hs hne, fun r hr hstatus =>
        ⟨hs, (hended.stays hr hstatus).2⟩⟩ fun hno => hno.1 hsame
    · have hne : RTSPBuffer.state { rtsp₁ with
          sessionList := rtsp₁.sessionList.map fun s => { s with curState := next } } ≠
            rtsp.state := by
        rw [hnew, hc]
        exact fun heq => hsame (Option.some.inj heq)
      have htable := (cell_transition hcell).resolve_left hsame
      rw [← hnew] at htable
      refine Iff.trans (moved_iff hm hc hbwrite hne htable)
        ((answered_iff hx hy hended hrc).trans ?_)
      exact not_congr ⟨fun hasks => ⟨hsame, hasks⟩, And.right⟩
  · rw [if_neg hrc, Prod.mk.injEq] at he
    obtain ⟨rfl, rfl⟩ := he
    refine iff_of_true ⟨fun hne => absurd hstate hne, fun r hr hstatus =>
      ⟨hstate, (hended.stays hr hstatus).2⟩⟩ ?_
    rintro ⟨-, ⟨r, hr, hquiet⟩ | ⟨n, hn, -⟩⟩
    · rw [hy] at hr
      cases hr
      exact hrc (hended.value.trans hquiet)
    · have hok : (x.checks w inp rtsp st).run = some (.ok ()) := by
        rw [← room_checks, run_bind_ok hn]
        rfl
      rw [hy] at hok
      cases hok
      exact hrc hended.value

/-- A TEARDOWN that passes its checks ends the session if it names all its streams. -/
theorem teardown_ends {w : World} {inp : Bytes} {rtsp rtsp' : RTSPBuffer} {st st' : Streams} {rc : ℤ}
    {p : RTSPSession} (hp : rtsp.sessionList = some p)
    (hok : (teardownChecks inp rtsp).run = some (.ok ()))
    (h : RTSP_teardown w inp rtsp st = some (rc, rtsp', st')) :
    NamesAll inp p st ↔ rtsp'.state ≠ rtsp.state := by
  obtain ⟨n, hn, hok⟩ := bind_ok hok
  obtain ⟨r, hr, hok⟩ := bind_ok hok
  obtain ⟨session, hs, -⟩ := bind_ok hok
  rw [RTSP_teardown, check_ok hn, check_ok hr, check_ok hs] at h
  obtain ⟨rtsp₁, -, h⟩ := Option.bind_eq_some_iff.mp h
  obtain ⟨_, -, h⟩ := Option.bind_eq_some_iff.mp h
  obtain ⟨⟨left, st₁⟩, hloop, he⟩ := Option.map_eq_some_iff.mp h
  cases he
  have hlist : rtsp.sessionList = some session := (sameSession_ok hs).1
  rw [hp] at hlist
  cases hlist
  have hleft := (teardownLoop_spares hloop).1
  have hnames : NamesAll inp p st ↔ left = [] := by
    rw [hleft, List.filter_eq_nil_iff]
    constructor
    · rintro ⟨r', hr', hall⟩ s hs
      rw [hr] at hr'
      cases hr'
      rw [hall s hs]
      decide
    · exact fun hall => ⟨r, hr, fun s hs => eq_false_of_ne_true (hall s hs)⟩
  rw [hnames, RTSPBuffer.state, RTSPBuffer.state, hp]
  by_cases hnil : left = []
  · simp [hnil]
  · simp [hnil]

theorem teardown_iff {w : World} {inp : Bytes} {rtsp rtsp' : RTSPBuffer} {st st' : Streams} {rc : ℤ}
    {p : RTSPSession} (hm : messageMethod inp = some .teardown) (hp : rtsp.sessionList = some p)
    (h : RTSP_teardown w inp rtsp st = some (rc, rtsp', st')) :
    MovesOnSuccess inp rtsp rtsp' st st' ↔
      ¬ (NamesAll inp p st ∧ Unanswered rtsp.out (teardownRoom w inp rtsp)) := by
  obtain ⟨y, reply, hy, hended⟩ := teardown_decides w inp rtsp st _ h
  have hc : rtsp.state = some p.curState := by rw [RTSPBuffer.state, hp, Option.map_some]
  have hchecks : (teardownRoom w inp rtsp >>= fun _ => pure ()) = teardownChecks inp rtsp :=
    room_checks .teardown w inp rtsp st
  have hstays : ∀ r, rtsp'.out = rtsp.out.bwrite r → 300 ≤ r.status →
      rtsp'.state = rtsp.state ∧ SameFlags st st' := fun r => hended.stays
  cases y with
  | error r =>
    have hstate : rtsp'.state = rtsp.state := by
      rcases hended.state with hs | ⟨-, he, -⟩
      · exact hs
      · cases he
    refine iff_of_true ⟨fun hne => absurd hstate hne, hstays⟩ ?_
    rintro ⟨-, n, hn, -⟩
    have hok : (teardownChecks inp rtsp).run = some (.ok ()) := by
      rw [← hchecks, run_bind_ok hn]
      rfl
    rw [hy] at hok
    cases hok
  | ok u =>
    have happended := hended.appended h (teardown_sized w inp rtsp st) (by rw [hchecks]; exact hy)
    have hbwrite : rtsp'.out = rtsp.out.bwrite reply := hended.bwrite
    rw [teardown_ends hp hy h]
    constructor
    · rintro hlaw ⟨hne, hfull⟩
      obtain ⟨r, -, -, hb, hbytes, -⟩ := hlaw.moves hne
      rw [bwrite_inj (hb.symm.trans hbwrite)] at hbytes
      exact happended.mp hbytes hfull
    · intro hno
      refine ⟨fun hne => ⟨reply, p.curState, .teardown, hbwrite, ?_, hended.status, hc, hm, ?_⟩,
        hstays⟩
      · exact happended.mpr fun hfull => hno ⟨hne, hfull⟩
      · rcases hended.state with hs | ⟨-, -, hs⟩
        · exact absurd hs hne
        · rw [hs]
          cases p.curState <;> trivial

/-- The law for the call that the table has in the state of the connection. -/
theorem cell_iff {w : World} {inp : Bytes} {rtsp rtsp' : RTSPBuffer} {st st' : Streams} {m : Method}
    {p : RTSPSession} (hm : messageMethod inp = some m) (hp : rtsp.sessionList = some p)
    (h : (cell p.curState m).exec w inp rtsp st = some (rtsp', st')) :
    MovesOnSuccess inp rtsp rtsp' st st' ↔
      ¬ ((∃ x next, cell p.curState m = .move x next ∧ next ≠ p.curState ∧
          (RejectedAsDone (x.checks w inp rtsp st) ∨ Unanswered rtsp.out (x.room w inp rtsp st))) ∨
        m = .teardown ∧ NamesAll inp p st ∧ Unanswered rtsp.out (teardownRoom w inp rtsp)) := by
  have hteardown : m = .teardown → cell p.curState m = .stay .teardown := by
    rintro rfl
    exact cell_of_teardown _
  cases hcell : cell p.curState m with
  | silent =>
    rw [hcell] at h hteardown
    cases h
    refine iff_of_true (.same rfl) ?_
    rintro (⟨x, next, he, -⟩ | ⟨he, -⟩)
    · cases he
    · cases hteardown he
  | refuse status =>
    rw [hcell] at h hteardown
    cases h
    refine iff_of_true (.same (send_reply_state status rtsp)) ?_
    rintro (⟨x, next, he, -⟩ | ⟨he, -⟩)
    · cases he
    · cases hteardown he
  | stay x =>
    rw [hcell] at h
    obtain ⟨⟨rc, rtsp₁, st₁⟩, hx, he⟩ := Option.map_eq_some_iff.mp h
    cases he
    rcases cell_stay hcell with ⟨rfl, rfl⟩ | ⟨rfl, hno⟩
    · rw [teardown_iff hm hp hx]
      refine not_congr ⟨fun hends => .inr ⟨rfl, hends⟩, fun hasks => ?_⟩
      rcases hasks with ⟨_, _, he, -⟩ | ⟨-, hends⟩
      · cases he
      · exact hends
    · obtain ⟨y, reply, hy, hended⟩ := describe_decides w inp rtsp st _ hx
      have hstate : rtsp'.state = rtsp.state := by
        rcases hended.state with hs | ⟨he, -⟩
        · exact hs
        · cases he
      refine iff_of_true ⟨fun hne => absurd hstate hne, fun r => hended.stays⟩ ?_
      rintro (⟨x, next, he, -⟩ | ⟨he, -⟩)
      · cases he
      · exact hno he
  | move x next =>
    rw [hcell] at h hteardown
    rw [move_iff hm hp hcell h]
    refine not_congr ⟨fun hasks => .inl ⟨x, next, rfl, hasks⟩, fun hasks => ?_⟩
    rcases hasks with ⟨x', next', he, hasks⟩ | ⟨he, -⟩
    · cases he
      exact hasks
    · cases hteardown he

/-- What `MovesAnyway` asks of a message that is passed to the table. -/
theorem movesAnyway_iff {w : World} {inp : Bytes} {rtsp : RTSPBuffer} {st : Streams} {seq : ℕ}
    {m : Method} {p : RTSPSession} (hr : RTSP_valid_response_msg inp = false)
    (hs : scanSession inp ≠ some none) (hv : RTSP_validate_method inp = some (seq, some m))
    (hp : rtsp.sessionList = some p) : MovesAnyway w inp rtsp st ↔
      (∃ x next, cell p.curState m = .move x next ∧ next ≠ p.curState ∧
        (RejectedAsDone (x.checks w inp { rtsp with rtspCseq := seq } st) ∨
          Unanswered rtsp.out (x.room w inp { rtsp with rtspCseq := seq } st))) ∨
      m = .teardown ∧ NamesAll inp p st ∧
        Unanswered rtsp.out (teardownRoom w inp { rtsp with rtspCseq := seq }) := by
  constructor
  · rintro ⟨_, _, seq', m', p', he, hp', hasks⟩
    rw [hv] at he
    rw [hp] at hp'
    cases he
    cases hp'
    exact hasks
  · exact fun hasks => ⟨hr, hs, seq, m, p, hv, hp, hasks⟩

/-- A message moves the state on only with a reply 200 that is appended iff it is not a SETUP in the
state INIT, a PLAY in READY or a PAUSE in PLAY that is rejected with `ERR_NOERROR` or finds no room
for its reply, and not a TEARDOWN of the whole session that finds none. -/
theorem moves_on_success {w : World} {inp : Bytes} {rtsp rtsp' : RTSPBuffer} {st st' : Streams}
    (h : handleMessage w inp rtsp st = some (rtsp', st')) :
    MovesOnSuccess inp rtsp rtsp' st st' ↔ ¬ MovesAnyway w inp rtsp st := by
  -- a message that leaves the state and the streams alone
  have hquiet : ∀ {rtsp₁ : RTSPBuffer}, some (rtsp₁, st) = some (rtsp', st') →
      rtsp₁.state = rtsp.state → ¬ MovesAnyway w inp rtsp st →
      (MovesOnSuccess inp rtsp rtsp' st st' ↔ ¬ MovesAnyway w inp rtsp st) := by
    intro rtsp₁ he hs hno
    rw [Option.some.injEq] at he
    rw [Prod.mk.injEq] at he
    rw [← he.1, ← he.2]
    exact iff_of_true (.same hs) hno
  unfold handleMessage at h
  split at h
  · rename_i hr
    refine hquiet h rfl fun hm => ?_
    rw [hm.1] at hr
    cases hr
  · rename_i hr
    split at h
    · rename_i hv
      refine hquiet h (send_reply_state 400 _) fun hm => ?_
      obtain ⟨-, -, seq, m, p, he, -⟩ := hm
      rw [hv] at he
      cases he
    · rename_i seq hv
      refine hquiet h (send_reply_state 400 _) fun hm => ?_
      obtain ⟨-, -, seq', m, p, he, -⟩ := hm
      rw [hv] at he
      cases he
    · rename_i seq m hv
      have hm : messageMethod inp = some m := by rw [messageMethod, hv, Option.bind_some]
      rw [state_machine_cell] at h
      split at h
      · rename_i hs
        exact hquiet h (send_reply_state 454 _) fun hm => hm.2.1 hs
      · rename_i hs
        split at h
        · rename_i hl
          refine hquiet h rfl fun hm => ?_
          obtain ⟨-, -, _, _, p, _, hp, -⟩ := hm
          have hl' : rtsp.sessionList = none := hl
          rw [hl'] at hp
          cases hp
        · rename_i p hl
          have hp : rtsp.sessionList = some p := hl
          have hlaw : MovesOnSuccess inp { rtsp with rtspCseq := seq } rtsp' st st' ↔
              MovesOnSuccess inp rtsp rtsp' st st' :=
            ⟨fun h => ⟨h.moves, h.stays⟩, fun h => ⟨h.moves, h.stays⟩⟩
          rw [movesAnyway_iff (Bool.eq_false_iff.mpr hr) hs hv hp, ← hlaw]
          exact @cell_iff w inp { rtsp with rtspCseq := seq } _ _ _ m p hm hp h

theorem moves_on_setup :
    ∃ inp rtsp' st', handleMessage onDisk inp RTSP_initserver (Streams.init rtpDefaultPort) =
        some (rtsp', st') ∧ rtsp'.state = some .ready ∧
      MovesOnSuccess inp RTSP_initserver rtsp' (Streams.init rtpDefaultPort) st' := by
  obtain ⟨inp, hv, hrun, hroom⟩ : ∃ inp, RTSP_validate_method inp = some (1, some .setup) ∧
      (handleMessage onDisk inp RTSP_initserver (Streams.init rtpDefaultPort)).any
        (fun out => out.1.state == some .ready) = true ∧
      (Handler.room onDisk inp
        ⟨RTSP_initserver.out, RTSP_initserver.interleaved, 1, RTSP_initserver.sessionList⟩
        (Streams.init rtpDefaultPort) .setup).run.any
          (fun y => y.toOption.any fun n => decide (n ≤ outBufferSize)) = true :=
    ⟨setupMessage 1 "v.mpg" [], by decide +kernel, by decide +kernel, by decide +kernel⟩
  obtain ⟨⟨rtsp', st'⟩, hout, hstate⟩ := (Option.any_eq_true _ _).mp hrun
  obtain ⟨y, hy, hroom⟩ := (Option.any_eq_true _ _).mp hroom
  obtain ⟨n, hn, hroom⟩ := (Option.any_eq_true _ _).mp hroom
  have hy' : y = .ok n := by
    cases y with
    | error r => cases hn
    | ok k =>
      cases hn
      rfl
  rw [hy'] at hy
  refine ⟨inp, rtsp', st', hout, by simpa using hstate, (moves_on_success hout).mpr ?_⟩
  rintro ⟨-, -, seq, m, p, hv', hp, ⟨x, next, hcell, -, hasks⟩ | ⟨he, -⟩⟩
  · rw [hv] at hv'
    cases hv'
    cases hp
    cases hcell
    rcases hasks with ⟨r, hr, -⟩ | ⟨k, hk, hfull⟩
    · rw [← room_checks, run_bind_ok hy] at hr
      cases hr
    · rw [hy] at hk
      cases hk
      exact absurd (of_decide_eq_true hroom) (by simpa [RTSP_initserver] using hfull)
  · rw [hv, he] at hv'
    cases hv'

/-- PLAY without a header `Session` is answered with 400. -/
theorem rejected_play_moves :
    ¬ ∀ (as : List Act) (sv : Server), exec serverStep Server.init as = some sv →
      ∀ (k : ℕ) (w : World) (inp : Bytes) (rtsp rtsp' : RTSPBuffer) (st' : Streams),
        sv.connection k = some rtsp → handleMessage w inp rtsp sv.st = some (rtsp', st') →
          MovesOnSuccess inp rtsp rtsp' sv.st st' := by
  intro h
  obtain ⟨inp, hrun⟩ : ∃ inp, (exec serverStep Server.init setUp).any (fun sv =>
      (sv.connection 0).any fun p => (handleMessage {} inp p sv.st).any fun out =>
        out.1.state != p.state && out.1.out.replies.getLast?.map Reply.status == some 400) = true :=
    ⟨message "PLAY" "rtsp://localhost/film.sd!v.mpg" 2 [], by decide +kernel⟩
  obtain ⟨sv, hsv, hrun⟩ := (Option.any_eq_true _ _).mp hrun
  obtain ⟨p, hp, hrun⟩ := (Option.any_eq_true _ _).mp hrun
  obtain ⟨⟨p', st'⟩, hm, hrun⟩ := (Option.any_eq_true _ _).mp hrun
  simp only [Bool.and_eq_true, bne_iff_ne, beq_iff_eq] at hrun
  obtain ⟨hne, hlast⟩ := hrun
  obtain ⟨r, -, -, hr, -, hok, -⟩ := (h setUp sv hsv 0 _ inp p p' st' hp hm).moves hne
  rw [hr] at hlast
  simp only [Output.bwrite, List.getLast?_append, List.getLast?_singleton, Option.some_or,
    Option.map_some, Option.some.injEq] at hlast
  omega

end Fenice.Rtsp
