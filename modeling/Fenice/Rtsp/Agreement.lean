import Fenice.Rtsp.Flags

/-!
# The state of a connection and its streams

`cur_state` is written by the state machine, which goes by what the methods return, and by
`rtsp_set_fdsets`, which goes by `started` of each stream. The scheduler clears `started` when a
stream ends.
-/

namespace Fenice.Rtsp
open Fenice.CString Fenice.Schedule Fenice.Run

/-- A connection is in `PLAY_STATE` exactly if one of its streams plays. -/
def StateAgrees (sv : Server) : Prop :=
  ∀ k rtsp q, sv.connection k = some rtsp → rtsp.sessionList = some q →
    (q.curState = .play ↔ ∃ s ∈ q.rtpSession, playing sv.st s = true)

/-- `rtsp_set_fdsets` for every connection, at the start of a pass of the event loop. -/
def Server.setFdsets (sv : Server) : List Act :=
  ((List.range sv.connections.length).filter fun k => (sv.connection k).isSome).map .fdsets

/-- What `rtsp_server` and the listening socket add to a pass. -/
def Act.served : Act → Bool
  | .connect | .request _ _ _ | .close _ => true
  | .fdsets _ | .tick _ => false

/-- With a stream that plays, a TEARDOWN that leaves streams leaves one that plays; else one that
is not started. -/
def TeardownSpares (inp : Bytes) (q : RTSPSession) (st : Streams) : Prop :=
  ∀ r, (teardownRequest inp).run = some (.ok r) →
    let left := q.rtpSession.filter (spared r.filename st)
    left ≠ [] → (∃ s ∈ left, playing st s = true) ∨
      (∀ s ∈ q.rtpSession, playing st s = false) ∧ ∃ s ∈ left, waiting st s = true

/-- The message is no PLAY or PAUSE that is refused with `ERR_NOERROR`, no PLAY that starts nothing
and no TEARDOWN that takes the streams that play out of others. -/
def MessageAgrees (w : World) (inp : Bytes) (rtsp : RTSPBuffer) (st : Streams) : Prop :=
  ∀ m ∈ messageMethod inp, ∀ q ∈ rtsp.sessionList, scanSession inp ≠ some none →
    ((cell q.curState m).handler = some .play →
      RejectsWithError (playChecks inp rtsp st) ∧ PlayStarts inp q st) ∧
    ((cell q.curState m).handler = some .pause → RejectsWithError (pauseChecks w inp rtsp)) ∧
    ((cell q.curState m).handler = some .teardown → q.curState = .play → TeardownSpares inp q st)

/-- A step that keeps the state with the streams: SETUP enters its session, a message is as above,
and where `rtsp_set_fdsets` finds a stream that is not started none plays. -/
def StepAgrees (sv : Server) (a : Act) : Prop :=
  StepEnters sv a ∧ match a with
    | .fdsets k => ∀ rtsp ∈ sv.connection k, (∀ s ∈ rtsp.sessions, waiting sv.st s = false) ∨
        ∀ s ∈ rtsp.sessions, playing sv.st s = false
    | .request k w inp => ∀ rtsp ∈ sv.connection k, MessageAgrees w inp rtsp sv.st
    | _ => True

/-! ### One connection -/

/-- The state of a connection fits its streams. If it is late, a stream may have been stopped
since `rtsp_set_fdsets` was called. -/
structure Fits (late : Prop) (st : Streams) (q : RTSPSession) : Prop where
  quiet : q.curState ≠ .play → ∀ s ∈ q.rtpSession, playing st s = false
  busy : q.curState = .play →
    ∃ s ∈ q.rtpSession, playing st s = true ∨ late ∧ waiting st s = true

section Connection

variable {late late' : Prop} {st st' : Streams} {q q' : RTSPSession} {l : List ℕ}
  {rtsp rtsp' : RTSPBuffer} {w : World} {inp : Bytes}

theorem Fits.mono (h : Fits late st q) (hlate : late → late') : Fits late' st q where
  quiet := h.quiet
  busy := fun hplay =>
    let ⟨s, hs, hf⟩ := h.busy hplay
    ⟨s, hs, hf.imp_right fun hw => ⟨hlate hw.1, hw.2⟩⟩

theorem Fits.same (h : Fits late st q)
    (hsame : ∀ s ∈ q.rtpSession, playing st' s = playing st s ∧ waiting st' s = waiting st s) :
    Fits late st' q where
  quiet := fun hplay s hs => (hsame s hs).1.trans (h.quiet hplay s hs)
  busy := by
    intro hplay
    obtain ⟨s, hs, hf⟩ := h.busy hplay
    refine ⟨s, hs, ?_⟩
    rw [(hsame s hs).1, (hsame s hs).2]
    exact hf

theorem Fits.slowed (h : Fits late st q) (hslow : ∀ s ∈ q.rtpSession, Slows s st st') :
    Fits True st' q where
  quiet := fun hplay s hs => (hslow s hs).quiet (h.quiet hplay s hs)
  busy := by
    intro hplay
    obtain ⟨s, hs, hf⟩ := h.busy hplay
    refine ⟨s, hs, ?_⟩
    rcases hf with hp | ⟨-, hw⟩
    · exact ((hslow s hs).plays hp).imp_right fun hw => ⟨trivial, hw⟩
    · exact .inr ⟨trivial, (hslow s hs).waits hw⟩

theorem unstarted_eq {list : List ℕ} {b : Bool} (h : unstarted st list = some b) :
    b = list.any (waiting st) := by
  induction list generalizing b with
  | nil =>
    cases h
    rfl
  | cons s rest ih =>
    obtain ⟨r, hr, h⟩ := Option.bind_eq_some_iff.mp h
    obtain ⟨b', hb', rfl⟩ := Option.map_eq_some_iff.mp h
    rw [List.any_cons, waiting_eq hr, ih hb']

/-- `rtsp_set_fdsets` brings a connection up to date unless one stream plays and another one is
not started. -/
theorem Fits.fdsets (h : ∀ q ∈ rtsp.sessionList, Fits late st q)
    (hg : (∀ s ∈ rtsp.sessions, waiting st s = false) ∨ ∀ s ∈ rtsp.sessions, playing st s = false)
    (hset : rtsp_set_fdsets rtsp st = some rtsp') (hq : rtsp'.sessionList = some q) :
    Fits False st q := by
  obtain ⟨finished, hfinished, rfl⟩ := Option.map_eq_some_iff.mp hset
  have hany := unstarted_eq hfinished
  split_ifs at hq with hb
  · -- the state is set
    obtain ⟨q₀, hq₀, rfl⟩ := Option.map_eq_some_iff.mp hq
    have hsessions : rtsp.sessions = q₀.rtpSession := by rw [RTSPBuffer.sessions, hq₀]
    rw [hb, hsessions] at hany
    rw [hsessions] at hg
    obtain ⟨s, hs, hw⟩ := List.any_eq_true.mp hany.symm
    have hquiet : ∀ s ∈ q₀.rtpSession, playing st s = false := by
      refine hg.resolve_left fun hnone => ?_
      rw [hnone s hs] at hw
      cases hw
    exact ⟨fun _ => hquiet, fun hplay => CurState.noConfusion hplay⟩
  · have hsessions : rtsp.sessions = q.rtpSession := by rw [RTSPBuffer.sessions, hq]
    rw [eq_false_of_ne_true hb, hsessions] at hany
    have hfits := h q hq
    refine ⟨hfits.quiet, fun hplay => ?_⟩
    obtain ⟨s, hs, hp | ⟨-, hw⟩⟩ := hfits.busy hplay
    · exact ⟨s, hs, .inl hp⟩
    · exact absurd hw (List.any_eq_false.mp hany.symm s hs)

/-- What a message does to a connection and to the streams of the others. -/
structure Goes (late : Prop) (rtsp : RTSPBuffer) (st : Streams) (rtsp' : RTSPBuffer)
    (st' : Streams) : Prop where
  others : SameBut rtsp.sessions st st'
  fits : ∀ q ∈ rtsp'.sessionList, Fits late st' q

theorem Goes.leaves (h : ∀ q ∈ rtsp.sessionList, Fits late st q)
    (hin : ∀ s ∈ rtsp.sessions, InSchedule st s) (hlist : rtsp'.sessionList = rtsp.sessionList)
    (hflags : SameFlags st st') : Goes late rtsp st rtsp' st' where
  others := hflags.sameBut _
  fits := by
    intro q hq
    rw [hlist] at hq
    have hsessions : rtsp.sessions = q.rtpSession := by rw [RTSPBuffer.sessions, hq]
    rw [hsessions] at hin
    exact (h q hq).same fun s hs => (hflags.sameBut []).flags (hin s hs) List.not_mem_nil

theorem Fits.spared {r : TeardownRequest} (h : Fits late st q)
    (hr : (teardownRequest inp).run = some (.ok r))
    (hg : q.curState = .play → TeardownSpares inp q st)
    (hleft : q.rtpSession.filter (Rtsp.spared r.filename st) ≠ []) :
    Fits late st { q with rtpSession := q.rtpSession.filter (Rtsp.spared r.filename st) } where
  quiet := fun hplay s hs => h.quiet hplay s (List.mem_of_mem_filter hs)
  busy := by
    intro hplay
    rcases hg hplay r hr hleft with ⟨s, hs, hp⟩ | ⟨hquiet, s, hs, hw⟩
    · exact ⟨s, hs, .inl hp⟩
    · obtain ⟨t, ht, hp | ⟨hlate, -⟩⟩ := h.busy hplay
      · rw [hquiet t ht] at hp
        cases hp
      · exact ⟨s, hs, .inr ⟨hlate, hw⟩⟩

theorem cell_stays {c : CurState} {m : Method} {x : Handler} (h : cell c m = .stay x) :
    x = .describe ∨ x = .teardown := by
  cases c <;> cases m <;> cases h <;> simp

theorem cell_moves {c next : CurState} {m : Method} {x : Handler} (h : cell c m = .move x next) :
    x = .setup ∧ c ≠ .play ∧ next ≠ .play ∨ x = .options ∧ next = c ∨
      x = .play ∧ c = .ready ∧ next = .play ∨ x = .pause ∧ next ≠ .play := by
  cases c <;> cases m <;> cases h <;> simp

theorem cell_goes {m : Method} (hq : rtsp.sessionList = some q)
    (hin : ∀ s ∈ q.rtpSession, InSchedule st s) (hfits : Fits late st q)
    (hplay : (cell q.curState m).handler = some .play →
      RejectsWithError (playChecks inp rtsp st) ∧ PlayStarts inp q st)
    (hpause : (cell q.curState m).handler = some .pause → RejectsWithError (pauseChecks w inp rtsp))
    (htear : (cell q.curState m).handler = some .teardown → q.curState = .play →
      TeardownSpares inp q st)
    (h : (cell q.curState m).exec w inp rtsp st = some (rtsp', st')) :
    Goes late rtsp st rtsp' st' := by
  have hsessions : rtsp.sessions = q.rtpSession := by rw [RTSPBuffer.sessions, hq]
  have hfits' : ∀ p ∈ rtsp.sessionList, Fits late st p := by
    intro p hp
    rw [hq] at hp
    cases hp
    exact hfits
  have hin' : ∀ s ∈ rtsp.sessions, InSchedule st s := hsessions ▸ hin
  cases hcell : cell q.curState m with
  | silent =>
    rw [hcell] at h
    cases h
    exact .leaves hfits' hin' rfl (.refl st)
  | refuse status =>
    rw [hcell] at h
    obtain ⟨rfl, rfl⟩ := refuse_eq h
    exact .leaves hfits' hin' (send_reply_sessionList status rtsp) (.refl _)
  | stay x =>
    rw [hcell] at h htear
    obtain ⟨out, ho, hout⟩ := Option.map_eq_some_iff.mp h
    obtain ⟨rc, rtsp₁, st₁⟩ := out
    cases hout
    rcases cell_stays hcell with rfl | rfl
    · obtain ⟨hlist, hflags⟩ := describe_leaves _ ho
      exact .leaves hfits' hin' hlist hflags
    · obtain ⟨hflags, hlist | ⟨r, hr, hlist⟩⟩ := teardown_leaves hq _ ho
      · exact .leaves hfits' hin' hlist hflags
      · refine ⟨hflags.sameBut _, ?_⟩
        intro p hp
        dsimp only at hlist hflags hp
        rw [hlist] at hp
        split_ifs at hp with hnil
        · cases hp
        · cases hp
          refine (hfits.spared hr (htear rfl) hnil).same fun s hs => ?_
          exact (hflags.sameBut []).flags (hin s (List.mem_of_mem_filter hs)) List.not_mem_nil
  | move x next =>
    rw [hcell] at h hplay hpause
    obtain ⟨⟨rc, rtsp₁, st₁⟩, ho, hout⟩ := Option.map_eq_some_iff.mp h
    dsimp only at hout
    rcases cell_moves hcell with ⟨rfl, hc, hnext⟩ | ⟨rfl, rfl⟩ | ⟨rfl, hc, rfl⟩ | ⟨rfl, hnext⟩
    · -- SETUP
      obtain ⟨hflags, q', hq', hstate, hquiet⟩ := setup_starts_none hq _ ho
      dsimp only at hflags hq' hquiet
      have hnone : ∀ s ∈ q'.rtpSession, playing st₁ s = false := by
        intro s hs
        rcases hquiet s hs with hs | hs
        · rw [((hflags.sameBut []).flags (hin s hs) List.not_mem_nil).1]
          exact hfits.quiet hc s hs
        · exact hs
      have hnew : ∀ c, c ≠ CurState.play → Fits late st₁ { q' with curState := c } :=
        fun c hne => ⟨fun _ => hnone, fun hp => absurd hp hne⟩
      split_ifs at hout with hrc
      · cases hout
        refine ⟨hflags.sameBut _, ?_⟩
        intro p hp
        dsimp only at hp
        rw [hq'] at hp
        cases hp
        exact hnew next hnext
      · cases hout
        refine ⟨hflags.sameBut _, ?_⟩
        intro p hp
        rw [hq'] at hp
        cases hp
        exact hnew q'.curState (hstate ▸ hc)
    · -- OPTIONS leaves the state
      obtain ⟨hlist, hflags⟩ := options_leaves _ ho
      dsimp only at hlist hflags
      refine .leaves hfits' hin' ?_ ?_
      · split_ifs at hout with hrc
        · cases hout
          dsimp only
          rw [hlist, hq]
          rfl
        · cases hout
          exact hlist
      · split_ifs at hout <;> cases hout <;> exact hflags
    · -- PLAY
      obtain ⟨hrejects, hstarts⟩ := hplay rfl
      obtain ⟨hlist, hend⟩ := play_plays hq hin hrejects hstarts _ ho
      dsimp only at hlist hend
      rcases hend with ⟨hrc, rfl⟩ | ⟨rfl, hsame, hplays⟩
      · rw [if_neg hrc] at hout
        cases hout
        exact .leaves hfits' hin' hlist (.refl _)
      · rw [if_pos rfl, hlist, hq] at hout
        cases hout
        refine ⟨hsessions ▸ hsame, fun p hp => ?_⟩
        cases hp
        obtain ⟨s, hs, hp⟩ := hplays
        exact ⟨fun hne => absurd rfl hne, fun _ => ⟨s, hs, .inl hp⟩⟩
    · -- PAUSE
      obtain ⟨hlist, hend⟩ := pause_pauses hq (hpause rfl) _ ho
      dsimp only at hlist hend
      rcases hend with ⟨hrc, rfl⟩ | ⟨rfl, hsame, hquiet⟩
      · rw [if_neg hrc] at hout
        cases hout
        exact .leaves hfits' hin' hlist (.refl _)
      · rw [if_pos rfl, hlist, hq] at hout
        cases hout
        refine ⟨hsessions ▸ hsame, fun p hp => ?_⟩
        cases hp
        exact ⟨fun _ => hquiet, fun hplay => absurd hplay hnext⟩

theorem handleMessage_malformed {m : Method} (hmethod : messageMethod inp = some m)
    (hs : scanSession inp = some none) (h : handleMessage w inp rtsp st = some (rtsp', st')) :
    rtsp'.sessionList = rtsp.sessionList ∧ st' = st := by
  obtain ⟨⟨seq, om⟩, hval, rfl⟩ := Option.bind_eq_some_iff.mp hmethod
  rw [handleMessage] at h
  split_ifs at h
  · cases h
    exact ⟨rfl, rfl⟩
  · rw [hval] at h
    dsimp only at h
    rw [state_machine_cell, if_pos hs] at h
    obtain ⟨rfl, rfl⟩ := refuse_eq h
    exact ⟨send_reply_sessionList 454 _, rfl⟩

theorem message_goes (hin : ∀ s ∈ rtsp.sessions, InSchedule st s)
    (hfits : ∀ q ∈ rtsp.sessionList, Fits late st q) (hg : MessageAgrees w inp rtsp st)
    (h : handleMessage w inp rtsp st = some (rtsp', st')) : Goes late rtsp st rtsp' st' := by
  cases hmethod : messageMethod inp with
  | none =>
    obtain ⟨hsame, rfl⟩ := handleMessage_other hmethod h
    exact .leaves hfits hin hsame (.refl _)
  | some m =>
    by_cases hs : scanSession inp = some none
    · obtain ⟨hsame, rfl⟩ := handleMessage_malformed hmethod hs h
      exact .leaves hfits hin hsame (.refl _)
    cases handleMessage_dispatched hmethod h with
    | malformed seq hnumber => exact absurd hnumber hs
    | ended seq hnone => exact .leaves hfits hin rfl (.refl _)
    | table seq q hq _ _ he =>
      have hsessions : rtsp.sessions = q.rtpSession := by rw [RTSPBuffer.sessions, hq]
      obtain ⟨hplay, hpause, htear⟩ := hg m hmethod q hq hs
      have hgoes : Goes late { rtsp with rtspCseq := seq } st rtsp' st' :=
        cell_goes hq (hsessions ▸ hin) (hfits q hq) hplay hpause htear he
      exact ⟨hgoes.others, hgoes.fits⟩

end Connection

/-! ### The server -/

/-- The invariant of the server. The connections of `late` may have streams that were stopped
since `rtsp_set_fdsets`. -/
structure Tracks (late : ℕ → Prop) (sv : Server) : Prop where
  enrolled : Enrolled sv.st sv.listed
  accepted : Accepted sv.st
  fits : ∀ k rtsp q, sv.connection k = some rtsp → rtsp.sessionList = some q →
    Fits (late k) sv.st q

def lateAfter (late : ℕ → Prop) : Act → ℕ → Prop
  | .fdsets k => fun j => late j ∧ j ≠ k
  | .tick _ => fun _ => True
  | _ => late

section Server

variable {late : ℕ → Prop} {sv sv' : Server} {j k : ℕ} {rtsp : RTSPBuffer} {q : RTSPSession}

theorem mem_listed (hk : sv.connection k = some rtsp) (hq : rtsp.sessionList = some q) {s : ℕ}
    (hs : s ∈ q.rtpSession) : s ∈ sv.listed := by
  have hmem : some rtsp ∈ sv.connections := List.mem_of_getElem? (Option.join_eq_some_iff.mp hk)
  refine List.mem_flatMap.mpr ⟨some rtsp, hmem, ?_⟩
  rw [Option.map_some, Option.getD_some, RTSPBuffer.sessions, hq]
  exact hs

theorem listed_disjoint {rtsp' : RTSPBuffer} (h : sv.listed.Nodup)
    (hj : sv.connection j = some rtsp) (hk : sv.connection k = some rtsp') (hne : j ≠ k) :
    ∀ s ∈ rtsp.sessions, s ∉ rtsp'.sessions := by
  obtain ⟨hltj, hgetj⟩ := List.getElem?_eq_some_iff.mp (Option.join_eq_some_iff.mp hj)
  obtain ⟨hltk, hgetk⟩ := List.getElem?_eq_some_iff.mp (Option.join_eq_some_iff.mp hk)
  have hpair := List.pairwise_iff_getElem.mp (List.nodup_flatMap.mp h).2
  intro s hs hs'
  rcases Nat.lt_or_gt_of_ne hne with hlt | hlt
  · have hd := hpair j k hltj hltk hlt
    rw [Function.onFun_apply, hgetj, hgetk] at hd
    exact hd hs hs'
  · have hd := hpair k j hltk hltj hlt
    rw [Function.onFun_apply, hgetj, hgetk] at hd
    exact hd hs' hs

theorem Tracks.mono {late' : ℕ → Prop} (h : Tracks late sv)
    (hlate : ∀ k rtsp, sv.connection k = some rtsp → late k → late' k) : Tracks late' sv where
  enrolled := h.enrolled
  accepted := h.accepted
  fits := fun k rtsp q hk hq => (h.fits k rtsp q hk hq).mono (hlate k rtsp hk)

theorem Tracks.others {st' : Streams} {rtsp' : RTSPBuffer} (h : Tracks late sv)
    (hk : sv.connection k = some rtsp) (hsame : SameBut rtsp.sessions sv.st st') (hne : j ≠ k)
    (hj : sv.connection j = some rtsp') (hq : rtsp'.sessionList = some q) :
    Fits (late j) st' q := by
  refine (h.fits j rtsp' q hj hq).same fun s hs => ?_
  refine hsame.flags (h.enrolled.entries s (mem_listed hj hq hs)) ?_
  refine listed_disjoint h.enrolled.nodup hj hk hne s ?_
  rw [RTSPBuffer.sessions, hq]
  exact hs

theorem closeLoop_flags {list : List ℕ} {st st' : Streams} (h : closeLoop list st = some st') :
    SameFlags st st' := by
  refine closeLoop_rel .refl (fun _ _ _ => .trans) (fun st id st' hremove => ?_) h
  have hheap : st'.heap = st.heap := by
    obtain ⟨i, -, ⟨t, -, rfl⟩ | ⟨-, rfl⟩⟩ := Streams.remove_cases hremove <;> rfl
  exact .of_heap hheap

theorem Tracks.step {a : Act} (h : Tracks late sv) (hg : StepAgrees sv a)
    (hstep : serverStep sv a = some sv') : Tracks (lateAfter late a) sv' := by
  obtain ⟨henters, hg⟩ := hg
  refine ⟨h.enrolled.step h.accepted henters hstep, h.accepted.made (server_made hstep), ?_⟩
  cases a with
  | connect =>
    cases hstep
    intro j rtsp q hj hq
    rw [connection_add_client] at hj
    split_ifs at hj
    · cases hj
      cases hq
      exact ⟨fun _ s hs => absurd hs List.not_mem_nil, fun hplay => CurState.noConfusion hplay⟩
    · exact h.fits j rtsp q hj hq
  | fdsets k =>
    obtain ⟨rtsp, hk, hstep⟩ := Option.bind_eq_some_iff.mp hstep
    obtain ⟨rtsp', hset, rfl⟩ := Option.map_eq_some_iff.mp hstep
    intro j p q hj hq
    rw [put_connection (connection_lt hk)] at hj
    split_ifs at hj with hne
    · cases hj
      have hfits := Fits.fdsets (fun q hq => h.fits k rtsp q hk hq) (hg rtsp hk) hset hq
      exact hfits.mono False.elim
    · exact (h.fits j p q hj hq).mono fun hlate => ⟨hlate, hne⟩
  | request k w inp =>
    obtain ⟨rtsp, hk, hstep⟩ := Option.bind_eq_some_iff.mp hstep
    obtain ⟨⟨rtsp', st'⟩, hm, rfl⟩ := Option.map_eq_some_iff.mp hstep
    have hin : ∀ s ∈ rtsp.sessions, InSchedule sv.st s := by
      intro s hs
      cases hlist : rtsp.sessionList with
      | none =>
        rw [RTSPBuffer.sessions, hlist] at hs
        cases hs
      | some q =>
        rw [RTSPBuffer.sessions, hlist] at hs
        exact h.enrolled.entries s (mem_listed hk hlist hs)
    have hgoes := message_goes hin (fun q hq => h.fits k rtsp q hk hq) (hg rtsp hk) hm
    intro j p q hj hq
    rw [put_connection (connection_lt hk)] at hj
    split_ifs at hj with hne
    · cases hj
      rw [hne]
      exact hgoes.fits q hq
    · exact h.others hk hgoes.others hne hj hq
  | close k =>
    obtain ⟨rtsp, st', hk, hc, rfl⟩ := close_step hstep
    intro j p q hj hq
    rw [put_connection (connection_lt hk)] at hj
    split_ifs at hj with hne
    exact h.others hk ((closeLoop_flags hc).sameBut _) hne hj hq
  | tick turn =>
    obtain ⟨st', ht, rfl⟩ := Option.map_eq_some_iff.mp hstep
    intro j p q hj hq
    exact (h.fits j p q hj hq).slowed fun s hs =>
      h.enrolled.slows (mem_listed hj hq hs) ht

theorem Tracks.init : Tracks (fun _ => True) Server.init where
  enrolled := Enrolled.init
  accepted := Accepted.init _
  fits := by
    intro k rtsp q hk
    cases hk

theorem Tracks.run {as : List Act} (hrun : GuardedRun serverStep StepAgrees sv as sv')
    (h : Tracks late sv) : Tracks (as.foldl lateAfter late) sv' := by
  induction hrun generalizing late with
  | nil => exact h
  | cons hg hs tail ih => exact ih (h.step hg hs)

theorem lateAfter_fdsets (late : ℕ → Prop) (ks : List ℕ) :
    (ks.map Act.fdsets).foldl lateAfter late = fun j => late j ∧ j ∉ ks := by
  induction ks generalizing late with
  | nil => simp
  | cons k ks ih =>
    rw [List.map_cons, List.foldl_cons, ih]
    funext j
    simp only [lateAfter, List.mem_cons, not_or, and_assoc]

theorem lateAfter_served (late : ℕ → Prop) {served : List Act}
    (h : ∀ a ∈ served, a.served = true) : served.foldl lateAfter late = late := by
  induction served generalizing late with
  | nil => rfl
  | cons a as ih =>
    have ha : lateAfter late a = late := by
      have hserved := h a List.mem_cons_self
      cases a with
      | connect => rfl
      | fdsets k => cases hserved
      | request k w inp => rfl
      | close k => rfl
      | tick turn => cases hserved
    rw [List.foldl_cons, ha]
    exact ih late fun b hb => h b (List.mem_cons_of_mem a hb)

theorem Fits.agrees {st : Streams} (h : Fits False st q) :
    q.curState = .play ↔ ∃ s ∈ q.rtpSession, playing st s = true := by
  constructor
  · intro hplay
    obtain ⟨s, hs, hp | hw⟩ := h.busy hplay
    · exact ⟨s, hs, hp⟩
    · exact hw.1.elim
  · rintro ⟨s, hs, hp⟩
    by_contra hplay
    rw [h.quiet hplay s hs] at hp
    cases hp

end Server

/-- At the end of a pass without a step of the scheduler in it each connection is in `PLAY_STATE`
exactly if one of its streams plays. -/
theorem state_agrees {as served : List Act} {sv₁ sv : Server}
    (hrun : GuardedRun serverStep StepAgrees Server.init as sv₁)
    (hpass : GuardedRun serverStep StepAgrees sv₁ (sv₁.setFdsets ++ served) sv)
    (hserved : ∀ a ∈ served, a.served = true) : StateAgrees sv := by
  have hlate : Tracks (fun k => (sv₁.connection k).isSome = true) sv₁ :=
    (Tracks.init.run hrun).mono fun k rtsp hk _ => by rw [hk]; rfl
  have hend := hlate.run hpass
  rw [List.foldl_append, lateAfter_served _ hserved, Server.setFdsets, lateAfter_fdsets] at hend
  intro k rtsp q hk hq
  refine ((hend.fits k rtsp q hk hq).mono ?_).agrees
  rintro ⟨hlive, hunset⟩
  refine hunset (List.mem_filter.mpr ⟨List.mem_range.mpr ?_, hlive⟩)
  by_contra hge
  rw [Server.connection, List.getElem?_eq_none (Nat.le_of_not_lt hge)] at hlive
  cases hlive

def playFilm : Bytes := message "PLAY" "rtsp://localhost/film.sd!v.mpg" 2 ["Session: 1"]

theorem playFilm_starts (q : RTSPSession) (st : Streams) : PlayStarts playFilm q st := by
  intro r hr htarget
  have hfile : ((playRequest playFilm).run.all fun e => match e with
      | .ok r => match r.target with
        | .presentation => false
        | _ => true
      | .error _ => true) = true := by
    decide +kernel
  rw [hr, Option.all_some] at hfile
  dsimp only at hfile
  rw [htarget] at hfile
  cases hfile

theorem RejectsWithError.of_passes {α : Type} {x : Checks α} (h : passes x = true) :
    RejectsWithError x := by
  intro r hr
  rw [passes_error hr] at h
  cases h

theorem setup_messageAgrees {w : World} {inp : Bytes} {rtsp : RTSPBuffer} {st : Streams}
    (hm : messageMethod inp = some .setup) : MessageAgrees w inp rtsp st := by
  intro m hm' q _ _
  rw [hm] at hm'
  cases hm'
  have hcell : ∀ c x, (cell c .setup).handler = some x → x = .setup := by
    intro c x hx
    cases c <;> cases hx <;> rfl
  refine ⟨fun hx => ?_, fun hx => ?_, fun hx => ?_⟩ <;> cases hcell _ _ hx

/-- A client sets up the video of the film and plays it in the next pass. -/
theorem state_agrees_film : ∃ sv₁ sv, exec serverStep Server.init
    [.connect, .request 0 onDisk (setupMessage 1 "v.mpg" [])] = some sv₁ ∧
      exec serverStep sv₁ (sv₁.setFdsets ++ [.request 0 {} playFilm]) = some sv ∧
      StateAgrees sv := by
  have hrun : ((serverStep Server.init.add_client
      (.request 0 onDisk (setupMessage 1 "v.mpg" []))).bind fun sv₁ =>
        (serverStep sv₁ (.fdsets 0)).bind fun sv₂ =>
          (serverStep sv₂ (.request 0 {} playFilm)).map fun sv₃ => (sv₁, sv₂, sv₃)).any (fun t =>
      decide (t.1.connections.length = 1) &&
      (t.1.connection 0).any (fun rtsp => rtsp.sessions.all fun s => !playing t.1.st s) &&
      (t.2.1.connection 0).any fun rtsp => passes (playChecks playFilm rtsp t.2.1.st)) = true := by
    decide +kernel
  obtain ⟨t, ht, htests⟩ := (Option.any_eq_true _ _).mp hrun
  obtain ⟨sv₁, hsetup, ht⟩ := Option.bind_eq_some_iff.mp ht
  obtain ⟨sv₂, hset, ht⟩ := Option.bind_eq_some_iff.mp ht
  obtain ⟨sv₃, hplay, rfl⟩ := Option.map_eq_some_iff.mp ht
  obtain ⟨htests, hpasses⟩ := Bool.and_eq_true_iff.mp htests
  obtain ⟨hlength, hquiet⟩ := Bool.and_eq_true_iff.mp htests
  obtain ⟨rtsp₁, hk₁, hquiet⟩ := (Option.any_eq_true _ _).mp hquiet
  obtain ⟨rtsp₂, hk₂, hpasses⟩ := (Option.any_eq_true _ _).mp hpasses
  have hmethod : messageMethod (setupMessage 1 "v.mpg" []) = some .setup := by decide +kernel
  have hplayed : messageMethod playFilm = some .play := by decide +kernel
  have hsets : sv₁.setFdsets = [.fdsets 0] := by
    rw [Server.setFdsets, of_decide_eq_true hlength]
    simp [List.range_succ, hk₁]
  have hconnect : StepAgrees Server.init .connect := ⟨trivial, trivial⟩
  have henters : StepAgrees Server.init.add_client
      (.request 0 onDisk (setupMessage 1 "v.mpg" [])) := by
    refine ⟨?_, fun rtsp _ => setup_messageAgrees hmethod⟩
    intro rtsp hr _ _
    cases hr
    exact first_enters _ _ _
  have hfdsets : StepAgrees sv₁ (.fdsets 0) := by
    refine ⟨trivial, fun rtsp hr => .inr fun s hs => ?_⟩
    rw [hk₁] at hr
    cases hr
    simpa using List.all_eq_true.mp hquiet s hs
  have hstarts : StepAgrees sv₂ (.request 0 {} playFilm) := by
    have hcell : ∀ c x, (cell c .play).handler = some x → x = .play := by
      intro c x hx
      cases c <;> cases hx
      · rfl
    constructor
    · intro rtsp _ seq hcalls
      rw [messageMethod, hcalls.method] at hplayed
      cases hplayed
    · intro rtsp hr m hm p _ _
      rw [hplayed] at hm
      cases hm
      rw [hk₂] at hr
      cases hr
      refine ⟨fun _ => ⟨.of_passes hpasses, playFilm_starts p sv₂.st⟩, fun hx => ?_, fun hx => ?_⟩
      · cases hcell _ _ hx
      · cases hcell _ _ hx
  have hbefore : GuardedRun serverStep StepAgrees Server.init
      [.connect, .request 0 onDisk (setupMessage 1 "v.mpg" [])] sv₁ :=
    .cons hconnect rfl (.cons henters hsetup (.nil _))
  have hpass : GuardedRun serverStep StepAgrees sv₁
      (sv₁.setFdsets ++ [.request 0 {} playFilm]) sv₃ := by
    rw [hsets]
    exact .cons hfdsets hset (.cons hstarts hplay (.nil _))
  refine ⟨sv₁, sv₃, hbefore.exec_eq, hpass.exec_eq, state_agrees hbefore hpass ?_⟩
  intro a ha
  rw [List.mem_singleton.mp ha]
  rfl

/-- Of a film and its sound only the film is played. -/
def playHalf : List Act :=
  [.connect, .request 0 onDisk (setupMessage 1 "v.mpg" []),
    .request 0 {} (setupMessage 2 "a.mp3" ["Session: 1"]), .request 0 {} playFilm]

/-- The next `rtsp_set_fdsets` finds the sound and sets the state back. -/
theorem ready_while_playing : ¬ ∀ (as served : List Act) (sv₁ sv : Server),
    exec serverStep Server.init as = some sv₁ →
    exec serverStep sv₁ (sv₁.setFdsets ++ served) = some sv →
    (∀ a ∈ served, a.served = true) → StateAgrees sv := by
  intro h
  have hexec := @exec_served playHalf (by decide +kernel)
  have hrun : (exec serverStep (Rtsp.served playHalf)
      ((Rtsp.served playHalf).setFdsets ++ [])).any (fun sv => (sv.connection 0).any fun rtsp =>
        rtsp.sessionList.any fun q => decide (q.curState = .ready) &&
          q.rtpSession.any (playing sv.st)) = true := by
    decide +kernel
  obtain ⟨sv, hpass, hk⟩ := (Option.any_eq_true _ _).mp hrun
  obtain ⟨rtsp, hk, hq⟩ := (Option.any_eq_true _ _).mp hk
  obtain ⟨q, hq, hends⟩ := (Option.any_eq_true _ _).mp hq
  obtain ⟨hstate, hplays⟩ := Bool.and_eq_true_iff.mp hends
  obtain ⟨s, hs, hp⟩ := List.any_eq_true.mp hplays
  have hagrees := h _ [] _ sv hexec hpass (fun a ha => absurd ha List.not_mem_nil) 0 rtsp q hk hq
  have hplay := hagrees.mpr ⟨s, hs, hp⟩
  rw [of_decide_eq_true hstate] at hplay
  cases hplay

end Fenice.Rtsp
