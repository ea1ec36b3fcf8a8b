import Fenice.Rtsp.Transitions

/-!
# The number of a session

SETUP stores the number that it announces, drawn or taken from the request, over the
one there was; the other methods compare the header `Session` with it.
-/

namespace Fenice.Rtsp
open Fenice.CString Fenice.Schedule Fenice.Run

/-! ### What is announced and what is checked -/

/-- The reply to a SETUP up to the end of the header `Session`, from the second header on. -/
def sessionHead (w : World) (v : ℤ) : Bytes :=
  serverLine ++ add_time_stamp w ++ lit "Session: " ++ intText v ++ el

/-- The reply 200 that announces `v`. -/
def Reply.Announces (w : World) (v : ℤ) (r : Reply) : Prop :=
  r.status = 200 ∧ sessionHead w v <+: r.rest

/-- A reply 454 is handed to `bwrite`, whether or not `out_buffer` has room for it, and nothing else
changes but the number of the request. -/
structure Turned (rtsp rtsp' : RTSPBuffer) (st st' : Streams) : Prop where
  reply : ∃ r, rtsp'.out = rtsp.out.bwrite r ∧ r.status = 454
  sessionList : rtsp'.sessionList = rtsp.sessionList
  interleaved : rtsp'.interleaved = rtsp.interleaved
  streams : st' = st

def Method.needsSession : Method → Bool
  | .setup | .play | .pause | .teardown => true
  | _ => false

/-- A message meets the number `v` of the session: a SETUP answered with 200 announces
it, and a header `Session` with another number is turned down. -/
structure Checked (v : ℤ) (w : World) (inp : Bytes) (rtsp rtsp' : RTSPBuffer)
    (st st' : Streams) : Prop where
  stable : messageMethod inp = some .setup → ∀ r, rtsp'.out = rtsp.out.bwrite r →
    r.status = 200 → r.Announces w v
  turned : ∀ m n, messageMethod inp = some m → m.needsSession = true →
    scanSession inp = some (some n) → n ≠ v → Turned rtsp rtsp' st st'

def teardownChecksFront (inp : Bytes) : Checks TeardownRequest := do
  let _ ← requestCseq errParse (scanCseq (scanWord 254) inp)
  teardownRequest inp

/-- What a message must be like. A SETUP, PLAY or PAUSE names no other number, and a SETUP
that passes its checks names this one, or draws it. A TEARDOWN that names another number
finds a session and comes to the comparison. -/
structure Keeps (v : ℤ) (w : World) (inp : Bytes) (rtsp : RTSPBuffer) (st : Streams) :
    Prop where
  named : ∀ m n, messageMethod inp = some m → m.needsSession = true → m ≠ .teardown →
    scanSession inp = some (some n) → n = v
  drawn : messageMethod inp = some .setup → ∀ p, rtsp.sessionList = some p →
    p.curState ≠ .play → passes (setupChecks w inp rtsp st) = true →
      (setupSession w inp).run = some (.ok v)
  compares : messageMethod inp = some .teardown → ∀ n, scanSession inp = some (some n) → n ≠ v →
    rtsp.sessionList ≠ none ∧ passes (teardownChecksFront inp) = true

/-! ### The number of the session list -/

/-- The session, if it is still there, has the number it had. -/
def SameId (rtsp rtsp' : RTSPBuffer) : Prop :=
  ∀ q ∈ rtsp'.sessionList, ∃ p ∈ rtsp.sessionList, q.sessionId = p.sessionId

def KeepsId (rtsp : RTSPBuffer) (x : Handled) : Prop := ∀ out, x = some out → SameId rtsp out.2.1

theorem SameId.of_eq {rtsp rtsp' : RTSPBuffer} (h : rtsp'.sessionList = rtsp.sessionList) :
    SameId rtsp rtsp' := by
  intro q hq
  rw [h] at hq
  exact ⟨q, hq, rfl⟩

theorem KeepsId.rejected {rtsp rtsp₁ : RTSPBuffer} (rc : ℤ) (status : ℕ) (st : Streams)
    (hlist : rtsp₁.sessionList = rtsp.sessionList) :
    KeepsId rtsp (some (rc, send_reply status rtsp₁, st)) := by
  intro out ho
  cases ho
  exact .of_eq ((send_reply_sessionList status rtsp₁).trans hlist)

theorem SameId.sent {rtsp rtsp₁ rtsp₂ : RTSPBuffer} {cap : ℕ} {reply : Reply}
    (hs : send cap reply rtsp₁ = some rtsp₂) (hlist : rtsp₁.sessionList = rtsp.sessionList) :
    SameId rtsp rtsp₂ := by
  rw [send_eq_some hs]
  exact .of_eq hlist

theorem KeepsId.check {α : Type} {rtsp rtsp₁ : RTSPBuffer} {st : Streams} {x : Checks α}
    {k : α → Handled} (hlist : rtsp₁.sessionList = rtsp.sessionList)
    (h : ∀ a, x.run = some (.ok a) → KeepsId rtsp (k a)) :
    KeepsId rtsp (check rtsp₁ st x k) := by
  intro out ho
  rcases check_eq_some.mp ho with ⟨r, -, he⟩ | ⟨a, ha, hk⟩
  · exact KeepsId.rejected r.rc r.status st hlist out (congrArg some he.symm)
  · exact h a ha out hk

theorem KeepsId.logged {rtsp rtsp₁ : RTSPBuffer} {st : Streams} {cap : ℕ} {reply : Reply}
    {inp : Bytes} (hlist : rtsp₁.sessionList = rtsp.sessionList) :
    KeepsId rtsp ((send cap reply rtsp₁).bind fun rtsp =>
      (logUserAgent inp).map fun _ => (errNoerror, rtsp, st)) := by
  intro out ho
  obtain ⟨rtsp₂, hs, hl⟩ := Option.bind_eq_some_iff.mp ho
  obtain ⟨_, _, rfl⟩ := Option.map_eq_some_iff.mp hl
  exact .sent hs hlist

theorem redirect_keeps_id {w : World} {object : Bytes} {rtsp rtsp₁ : RTSPBuffer} {st : Streams}
    (hlist : rtsp₁.sessionList = rtsp.sessionList) :
    KeepsId rtsp (send_redirect_3xx w object rtsp₁ st) := by
  unfold send_redirect_3xx
  obtain ⟨res, st₂, he⟩ : ∃ res st₂, enum_media st object w.file.again = (res, st₂) :=
    ⟨_, _, rfl⟩
  rw [he]
  cases res with
  | error e => exact KeepsId.rejected errNoerror 500 st₂ hlist
  | ok d =>
    dsimp only
    split
    · intro out ho
      obtain ⟨rtsp₂, hs, rfl⟩ := Option.map_eq_some_iff.mp ho
      unfold send_redirect at hs
      exact .sent hs hlist
    · exact KeepsId.rejected errNoerror 453 st₂ hlist

theorem describe_keeps_id (w : World) (inp : Bytes) (rtsp : RTSPBuffer) (st : Streams) :
    KeepsId rtsp (RTSP_describe w inp rtsp st) := by
  unfold RTSP_describe
  apply KeepsId.check rfl
  intro u _
  apply KeepsId.check rfl
  intro n _
  apply @KeepsId.check _ rtsp { rtsp with rtspCseq := n } _ _ _ rfl
  intro _ _
  by_cases hw : w.maxConnection = true
  · rw [if_pos hw]
    exact @redirect_keeps_id w u.object rtsp { rtsp with rtspCseq := n } _ rfl
  · rw [if_neg hw]
    unfold send_describe_reply
    exact @KeepsId.logged rtsp { rtsp with rtspCseq := n } _ _ _ _ rfl

theorem options_keeps_id (inp : Bytes) (rtsp : RTSPBuffer) (st : Streams) :
    KeepsId rtsp (RTSP_options inp rtsp st) := by
  unfold RTSP_options
  apply KeepsId.check rfl
  intro n _
  unfold send_options_reply
  exact @KeepsId.logged rtsp { rtsp with rtspCseq := n } _ _ _ _ rfl

theorem play_keeps_id (w : World) (inp : Bytes) (rtsp : RTSPBuffer) (st : Streams) :
    KeepsId rtsp (RTSP_play w inp rtsp st) := by
  unfold RTSP_play
  apply KeepsId.check rfl
  intro n _
  apply @KeepsId.check _ rtsp { rtsp with rtspCseq := n } _ _ _ rfl
  intro r _
  apply @KeepsId.check _ rtsp { rtsp with rtspCseq := n } _ _ _ rfl
  intro session _
  apply @KeepsId.check _ rtsp { rtsp with rtspCseq := n } _ _ _ rfl
  intro st₁ _ out ho
  unfold send_play_reply at ho
  split at ho
  · cases ho
  · obtain ⟨rtsp₁, hs, hl⟩ := Option.bind_eq_some_iff.mp ho
    obtain ⟨rs, -, hs⟩ := Option.bind_eq_some_iff.mp hs
    obtain ⟨_, _, rfl⟩ := Option.map_eq_some_iff.mp hl
    exact @SameId.sent rtsp { rtsp with rtspCseq := n } _ _ _ hs rfl

theorem pause_keeps_id (w : World) (inp : Bytes) (rtsp : RTSPBuffer) (st : Streams) :
    KeepsId rtsp (RTSP_pause w inp rtsp st) := by
  unfold RTSP_pause
  apply KeepsId.check rfl
  intro n _
  apply @KeepsId.check _ rtsp { rtsp with rtspCseq := n } _ _ _ rfl
  intro id _
  apply @KeepsId.check _ rtsp { rtsp with rtspCseq := n } _ _ _ rfl
  intro session _ out ho
  obtain ⟨st₁, -, ho⟩ := Option.bind_eq_some_iff.mp ho
  exact @KeepsId.logged rtsp { rtsp with rtspCseq := n } _ _ _ _ rfl out ho

theorem teardown_keeps_id (w : World) (inp : Bytes) (rtsp : RTSPBuffer) (st : Streams) :
    KeepsId rtsp (RTSP_teardown w inp rtsp st) := by
  unfold RTSP_teardown
  apply KeepsId.check rfl
  intro n _
  apply @KeepsId.check _ rtsp { rtsp with rtspCseq := n } _ _ _ rfl
  intro r _
  apply @KeepsId.check _ rtsp { rtsp with rtspCseq := n } _ _ _ rfl
  intro session hsession out ho
  obtain ⟨rtsp₁, -, ho⟩ := Option.bind_eq_some_iff.mp ho
  obtain ⟨_, -, ho⟩ := Option.bind_eq_some_iff.mp ho
  obtain ⟨⟨left, st₁⟩, -, rfl⟩ := Option.map_eq_some_iff.mp ho
  intro q hq
  dsimp only at hq
  split at hq
  · cases hq
  · cases hq
    exact ⟨session, (sameSession_ok hsession).1, rfl⟩

/-! ### SETUP -/

/-- Rejected by a check with the number it had, or through with the number announced. -/
structure SetUpAs (w : World) (inp : Bytes) (rtsp rtsp' : RTSPBuffer) (id : ℤ) : Prop where
  number : (setupSession w inp).run = some (.ok id)
  session : ∀ q ∈ rtsp'.sessionList, q.sessionId = id
  reply : ∃ r : Reply, rtsp'.out = rtsp.out.bwrite r ∧ r.Announces w id

structure RejectedAs (rtsp rtsp' : RTSPBuffer) (r : Rejection) : Prop where
  reply : ∃ cseq, rtsp'.out = rtsp.out.bwrite ⟨r.status, cseq, el⟩
  same : SameId rtsp rtsp'

def SetsUp (w : World) (inp : Bytes) (rtsp : RTSPBuffer) (y : Checks Unit) (x : Handled) : Prop :=
  ∀ out, x = some out → (∃ r, y.run = some (.error r) ∧ RejectedAs rtsp out.2.1 r) ∨
    y.run = some (.ok ()) ∧ ∃ id, SetUpAs w inp rtsp out.2.1 id

theorem RejectedAs.intro {rtsp rtsp₁ : RTSPBuffer} (r : Rejection)
    (hout : rtsp₁.out = rtsp.out) (hlist : SameId rtsp rtsp₁) :
    RejectedAs rtsp (send_reply r.status rtsp₁) r := by
  constructor
  · refine ⟨int32 rtsp₁.rtspCseq, ?_⟩
    rw [← hout]
    unfold send_reply
    rfl
  · intro q hq
    rw [send_reply_sessionList] at hq
    exact hlist q hq

theorem SetsUp.rejected {w : World} {inp : Bytes} {rtsp rtsp₁ : RTSPBuffer} {st : Streams}
    {y : Checks Unit} (r : Rejection) (hy : y.run = some (.error r))
    (hout : rtsp₁.out = rtsp.out) (hlist : SameId rtsp rtsp₁) :
    SetsUp w inp rtsp y (some (r.rc, send_reply r.status rtsp₁, st)) := by
  intro out ho
  cases ho
  exact Or.inl ⟨r, hy, .intro r hout hlist⟩

theorem SetsUp.check {α : Type} {w : World} {inp : Bytes} {rtsp rtsp₁ : RTSPBuffer}
    {st : Streams} {x : Checks α} {y : α → Checks Unit} {k : α → Handled}
    (hout : rtsp₁.out = rtsp.out) (hlist : rtsp₁.sessionList = rtsp.sessionList)
    (h : ∀ a, x.run = some (.ok a) → SetsUp w inp rtsp (y a) (k a)) :
    SetsUp w inp rtsp (x >>= y) (check rtsp₁ st x k) := by
  intro out ho
  rcases check_eq_some.mp ho with ⟨r, hr, rfl⟩ | ⟨a, ha, hk⟩
  · exact Or.inl ⟨r, run_bind_error hr y, .intro r hout (.of_eq hlist)⟩
  · rw [run_bind_ok ha y]
    exact h a ha out hk

theorem setupReply_announces (w : World) (cseq : ℕ) (id : ℤ) (descr : SDDescr) (r : RTPSession) :
    (setupReply w cseq id descr r).Announces w id := by
  refine ⟨rfl, ?_⟩
  unfold setupReply sessionHead
  simp only [List.append_assoc]
  repeat apply List.prefix_append_right_inj _ |>.mpr
  exact List.prefix_append _ _

theorem finishSetup_sets_up {w : World} {inp : Bytes} {rtsp rtsp₁ : RTSPBuffer}
    {object : Bytes} {d m : ℕ} {c : Chosen} {p : RTSPSession} (hout : rtsp₁.out = rtsp.out)
    (hlist : rtsp₁.sessionList = rtsp.sessionList) (hp : rtsp.sessionList = some p) :
    SetsUp w inp rtsp (do
        let _ ← setupSession w inp
        copyChecks w m c) (finishSetup w inp rtsp₁ object d m c) := by
  intro ⟨rc, rtsp', st'⟩ ho
  cases finishSetup_finished ho with
  | noSession r hs =>
    exact Or.inl ⟨r, run_bind_error hs _, .intro r hout (.of_eq hlist)⟩
  | notCopied id hs out st hc =>
    have hcopy : (copyChecks w m c).run = some (.error ⟨500, errGeneric, none⟩) := by
      unfold copyChecks
      rw [hc, if_pos rfl]
      rfl
    refine Or.inl ⟨_, (run_bind_ok hs _).trans hcopy, .intro ⟨500, errGeneric, none⟩ hout ?_⟩
    intro q hq
    cases hq
    refine ⟨p, hp, ?_⟩
    unfold longer RTSPBuffer.rtspSession
    rw [hlist, hp]
    rfl
  | entered sessionId hs out st hc id st' ha rtsp₂ hr =>
    have hcopy : (copyChecks w m c).run = some (.ok ()) := by
      unfold copyChecks
      rw [hc, if_neg (by simp)]
      rfl
    unfold send_setup_reply at hr
    refine Or.inr ⟨(run_bind_ok hs _).trans hcopy, sessionId, hs, ?_,
      setupReply w rtsp₁.rtspCseq sessionId (st'.descr d) (fullSession w object d out c id), ?_,
      setupReply_announces w _ sessionId _ _⟩
    · rw [send_eq_some hr]
      intro q hq
      cases hq
      rfl
    · rw [send_eq_some hr, ← hout]

theorem setup_sets_up (w : World) (inp : Bytes) {rtsp : RTSPBuffer} (st : Streams)
    {p : RTSPSession} (hp : rtsp.sessionList = some p) :
    SetsUp w inp rtsp (setupChecks w inp rtsp st) (RTSP_setup w inp rtsp st) := by
  unfold RTSP_setup setupChecks
  apply SetsUp.check rfl rfl
  intro ⟨object, filename⟩ _
  dsimp only
  obtain ⟨res, st₁, he⟩ : ∃ res st₁, enum_media st object w.file = (res, st₁) := ⟨_, _, rfl⟩
  rw [he]
  cases res with
  | error e => exact SetsUp.rejected ⟨500, errNoerror, none⟩ rfl rfl (.of_eq rfl)
  | ok d =>
    dsimp only
    unfold mediaChecks
    apply SetsUp.check rfl rfl
    intro m _
    apply SetsUp.check rfl rfl
    intro n _
    apply @SetsUp.check _ w inp rtsp { rtsp with rtspCseq := n } _ _ _ _ rfl rfl
    intro tkns _
    by_cases hname : w.getpeername = false
    · rw [if_pos hname, if_pos hname]
      exact @SetsUp.rejected w inp rtsp { rtsp with rtspCseq := n } _ _ ⟨415, errGeneric, none⟩ rfl
        rfl (.of_eq rfl)
    · rw [if_neg hname, if_neg hname]
      apply @SetsUp.check _ w inp rtsp { rtsp with rtspCseq := n } _ _ _ _ rfl rfl
      intro c _
      exact @finishSetup_sets_up w inp rtsp { rtsp with rtspCseq := n } object d m c p rfl rfl hp

/-! ### A message -/

theorem passes_iff {α : Type} {x : Checks α} :
    passes x = true ↔ ∃ a, x.run = some (.ok a) := by
  constructor
  · intro h
    unfold passes at h
    split at h
    · rename_i a ha
      exact ⟨a, ha⟩
    · cases h
  · intro ⟨a, ha⟩
    exact passes_ok ha

theorem teardownRequest_id {inp : Bytes} {r : TeardownRequest} {n : ℤ}
    (h : (teardownRequest inp).run = some (.ok r)) (hs : scanSession inp = some (some n)) :
    r.id = n := by
  unfold teardownRequest at h
  obtain ⟨u, -, h⟩ := bind_ok h
  obtain ⟨_, -, h⟩ := bind_ok h
  obtain ⟨p, -, h⟩ := bind_ok h
  obtain ⟨_, -, h⟩ := bind_ok h
  obtain ⟨id, hid, h⟩ := bind_ok h
  unfold requestSession at hid
  rw [hs] at hid
  cases hid
  cases h
  rfl

theorem teardown_turned {w : World} {inp : Bytes} {rtsp : RTSPBuffer} {st : Streams}
    {p : RTSPSession} {n : ℤ} (hp : rtsp.sessionList = some p)
    (hfront : passes (teardownChecksFront inp) = true) (hs : scanSession inp = some (some n))
    (hne : p.sessionId ≠ n) : ∃ cseq, RTSP_teardown w inp rtsp st =
      some (errParse, send_reply 454 { rtsp with rtspCseq := cseq }, st) := by
  obtain ⟨r, hr⟩ := passes_iff.mp hfront
  obtain ⟨cseq, hcseq, hr⟩ := bind_ok hr
  have hsame : (sameSession errParse { rtsp with rtspCseq := cseq } r.id).run =
      some (.error ⟨454, errParse, none⟩) := by
    unfold sameSession
    dsimp only
    rw [hp]
    dsimp only
    rw [if_neg (teardownRequest_id hr hs ▸ hne)]
    rfl
  refine ⟨cseq, ?_⟩
  unfold RTSP_teardown
  rw [check_ok hcseq]
  dsimp only
  rw [check_ok hr, check_error hsame]

theorem Turned.sent {rtsp : RTSPBuffer} {st : Streams} (cseq : ℕ) :
    Turned rtsp (send_reply 454 { rtsp with rtspCseq := cseq }) st st := by
  unfold send_reply
  exact ⟨⟨_, rfl, rfl⟩, rfl, rfl, rfl⟩

theorem response_method {inp : Bytes} (h : RTSP_valid_response_msg inp = true) :
    messageMethod inp = none := by
  unfold RTSP_valid_response_msg at h
  split at h
  · cases h
  · rename_i ver t hver
    have hrtcp : startsNoCase (lit "RTCP/") ver = true := (Bool.and_eq_true _ _ ▸ h).1
    have hnone : methodNames.find? (fun p => p.1 == ver) = none := by
      rw [List.find?_eq_none]
      intro q hq he
      have hname : q.1 = ver := by simpa using he
      have hall : ∀ q ∈ methodNames, startsNoCase (lit "RTCP/") q.1 = false := by decide
      rw [← hname, hall q hq] at hrtcp
      cases hrtcp
    unfold messageMethod RTSP_validate_method
    rw [hver, Option.bind_some]
    dsimp only
    rw [hnone]
    cases scanWord 255 t with
    | none => rfl
    | some t₁ =>
      cases hw : scanWord 31 t₁.2 with
      | none => simp only [Option.bind_some, hw, Option.bind_none]
      | some t₂ =>
        cases hh : scanWord 15 t₂.2 with
        | none => simp only [Option.bind_some, hw, hh, Option.bind_none]
        | some t₃ =>
          cases hu : scanUnsigned t₃.2 with
          | none => simp only [Option.bind_some, hw, hh, hu, Option.bind_none]
          | some t₄ =>
            simp only [Option.bind_some, hw, hh, hu]
            split <;> rfl

theorem moveTo_moved {next : CurState} {x : Handled} {rtsp' : RTSPBuffer} {st' : Streams}
    (h : moveTo next x = some (rtsp', st')) :
    ∃ out, x = some out ∧ rtsp'.out = out.2.1.out ∧ SameId out.2.1 rtsp' := by
  obtain ⟨⟨rc, rtsp₁, st₁⟩, hx, he⟩ := Option.map_eq_some_iff.mp h
  dsimp only at he
  refine ⟨_, hx, ?_⟩
  split at he
  · cases he
    refine ⟨rfl, ?_⟩
    intro q hq
    obtain ⟨p, hp, rfl⟩ := Option.map_eq_some_iff.mp hq
    exact ⟨p, hp, rfl⟩
  · cases he
    exact ⟨rfl, .of_eq rfl⟩

theorem SameId.trans {rtsp rtsp₁ rtsp₂ : RTSPBuffer} (h : SameId rtsp rtsp₁)
    (h' : SameId rtsp₁ rtsp₂) : SameId rtsp rtsp₂ := by
  intro q hq
  obtain ⟨q₁, hq₁, he₁⟩ := h' q hq
  obtain ⟨p, hp, he⟩ := h q₁ hq₁
  exact ⟨p, hp, he₁.trans he⟩

theorem handler_keeps_id {x : Handler} (hx : x ≠ .setup) (w : World) (inp : Bytes)
    (rtsp : RTSPBuffer) (st : Streams) : KeepsId rtsp (x.run w inp rtsp st) := by
  cases x with
  | describe => exact describe_keeps_id w inp rtsp st
  | options => exact options_keeps_id inp rtsp st
  | setup => exact absurd rfl hx
  | play => exact play_keeps_id w inp rtsp st
  | pause => exact pause_keeps_id w inp rtsp st
  | teardown => exact teardown_keeps_id w inp rtsp st

theorem cell_setup {c : CurState} {m : Method} (h : (cell c m).handler = some .setup) :
    m = .setup := by
  cases c <;> cases m <;> cases h <;> rfl

theorem cell_keeps_id {w : World} {inp : Bytes} {rtsp rtsp' : RTSPBuffer} {st st' : Streams}
    {c : CurState} {m : Method} (hm : m ≠ .setup)
    (h : (cell c m).exec w inp rtsp st = some (rtsp', st')) : SameId rtsp rtsp' := by
  have hx : ∀ x, (cell c m).handler = some x → x ≠ .setup := by
    intro x hx he
    exact hm (cell_setup (he ▸ hx))
  cases hcell : cell c m with
  | silent =>
    rw [hcell] at h
    cases h
    exact .of_eq rfl
  | refuse status =>
    rw [hcell] at h
    exact KeepsId.rejected 0 status st rfl (0, rtsp', st')
      (congrArg (Option.map fun q => ((0 : ℤ), q)) h)
  | stay x =>
    rw [hcell] at h hx
    obtain ⟨out, ho, he⟩ := Option.map_eq_some_iff.mp h
    have hkeep := handler_keeps_id (hx x rfl) w inp rtsp st out ho
    rw [he] at hkeep
    exact hkeep
  | move x next =>
    rw [hcell] at h hx
    obtain ⟨out, ho, -, hmoved⟩ := moveTo_moved h
    exact (handler_keeps_id (hx x rfl) w inp rtsp st out ho).trans hmoved

theorem setup_checked {w : World} {inp : Bytes} {rtsp rtsp' : RTSPBuffer} {st st' : Streams}
    {p : RTSPSession} {v : ℤ} (hp : rtsp.sessionList = some p) (hv : p.sessionId = v)
    (hdrawn : p.curState ≠ .play → passes (setupChecks w inp rtsp st) = true →
      (setupSession w inp).run = some (.ok v))
    (h : (cell p.curState .setup).exec w inp rtsp st = some (rtsp', st')) :
    (∀ q ∈ rtsp'.sessionList, q.sessionId = v) ∧
      ∀ r, rtsp'.out = rtsp.out.bwrite r → r.status = 200 → r.Announces w v := by
  have hsame : ∀ {rtsp₁ : RTSPBuffer}, SameId rtsp rtsp₁ →
      ∀ q ∈ rtsp₁.sessionList, q.sessionId = v := by
    intro rtsp₁ hs q hq
    obtain ⟨p', hp', he⟩ := hs q hq
    rw [hp] at hp'
    cases hp'
    exact he.trans hv
  by_cases hplay : p.curState = .play
  · -- nothing happens in this state
    rw [hplay] at h
    cases h
    exact ⟨hsame (.of_eq rfl), fun r hr => absurd hr.symm (bwrite_ne _ _)⟩
  have hcell : cell p.curState .setup = .move .setup .ready := by
    cases hc : p.curState with
    | init => rfl
    | ready => rfl
    | play => exact absurd hc hplay
  rw [hcell] at h
  obtain ⟨out, ho, hout, hmoved⟩ := moveTo_moved h
  rcases setup_sets_up w inp st hp out ho with ⟨r, hr, hrej⟩ | ⟨hok, id, hset⟩
  · refine ⟨hsame (hrej.same.trans hmoved), ?_⟩
    intro r' hr' hstatus
    obtain ⟨cseq, hcseq⟩ := hrej.reply
    rw [hout, hcseq] at hr'
    rw [← bwrite_inj hr'] at hstatus
    exact absurd hstatus (setupChecks_refuses w inp rtsp st r hr)
  · have hid : id = v := by
      have he := hset.number.symm.trans (hdrawn hplay (passes_ok hok))
      cases he
      rfl
    subst hid
    constructor
    · intro q hq
      obtain ⟨q', hq', he⟩ := hmoved q hq
      exact he.trans (hset.session q' hq')
    · intro r hr _
      obtain ⟨r', hr', hann⟩ := hset.reply
      rw [hout, hr'] at hr
      rw [← bwrite_inj hr]
      exact hann

theorem Checked.refused {v : ℤ} {w : World} {inp : Bytes} {rtsp rtsp₁ : RTSPBuffer}
    {st st' : Streams} {status : ℕ} (hout : rtsp₁.out = rtsp.out) (hstatus : status ≠ 200)
    (hno : ∀ m n, messageMethod inp = some m → m.needsSession = true →
      scanSession inp = some (some n) → n = v) :
    Checked v w inp rtsp (send_reply status rtsp₁) st st' := by
  constructor
  · intro _ r hr hok
    unfold send_reply at hr
    dsimp only at hr
    rw [hout] at hr
    rw [← bwrite_inj hr] at hok
    exact absurd hok hstatus
  · intro m n hm hneeds hs hne
    exact absurd (hno m n hm hneeds hs) hne

theorem refuse_eq {status : ℕ} {rtsp rtsp' : RTSPBuffer} {st st' : Streams}
    (h : refuse status rtsp st = some (rtsp', st')) :
    rtsp' = send_reply status rtsp ∧ st' = st := by
  unfold refuse at h
  rw [Option.some.injEq, Prod.mk.injEq] at h
  exact ⟨h.1.symm, h.2.symm⟩

theorem cell_checked {w : World} {inp : Bytes} {rtsp rtsp' : RTSPBuffer} {st st' : Streams}
    {m : Method} {v : ℤ} {p : RTSPSession} (hm : messageMethod inp = some m)
    (hp : rtsp.sessionList = some p) (hv : p.sessionId = v) (hk : Keeps v w inp rtsp st)
    (h : (cell p.curState m).exec w inp rtsp st = some (rtsp', st')) :
    (∀ q ∈ rtsp'.sessionList, q.sessionId = v) ∧ Checked v w inp rtsp rtsp' st st' := by
  by_cases hsetup : m = .setup
  · subst hsetup
    obtain ⟨hid, hstable⟩ := setup_checked hp hv (hk.drawn hm p hp) h
    refine ⟨hid, fun _ => hstable, ?_⟩
    intro m n hm' hneeds hs hne
    rw [hm] at hm'
    cases hm'
    exact absurd (hk.named _ n hm hneeds (by decide) hs) hne
  · constructor
    · intro q hq
      obtain ⟨p', hp', he⟩ := cell_keeps_id hsetup h q hq
      rw [hp] at hp'
      cases hp'
      exact he.trans hv
    constructor
    · intro hs
      rw [hm] at hs
      cases hs
      exact absurd rfl hsetup
    · intro m' n hm' hneeds hs hne
      rw [hm] at hm'
      cases hm'
      by_cases htear : m = .teardown
      · subst htear
        have hfront := (hk.compares hm n hs hne).2
        have hcell : cell p.curState .teardown = .stay .teardown := by cases p.curState <;> rfl
        obtain ⟨cseq, ht⟩ := @teardown_turned w inp rtsp st p n hp hfront hs (hv ▸ hne.symm)
        rw [hcell] at h
        change stay (RTSP_teardown w inp rtsp st) = _ at h
        rw [ht] at h
        unfold stay at h
        rw [Option.map_some, Option.some.injEq, Prod.mk.injEq] at h
        rw [← h.1, ← h.2]
        exact .sent cseq
      · exact absurd (hk.named m n hm hneeds htear hs) hne

/-- The ways of a message with a method: a header `Session` without a number, no session
any more, or the table. -/
inductive Dispatched (w : World) (inp : Bytes) (m : Method) (rtsp : RTSPBuffer) (st : Streams) :
    RTSPBuffer → Streams → Prop
  | malformed (seq : ℕ) (hs : scanSession inp = some none) :
      Dispatched w inp m rtsp st (send_reply 454 { rtsp with rtspCseq := seq }) st
  | ended (seq : ℕ) (hnone : rtsp.sessionList = none) :
      Dispatched w inp m rtsp st { rtsp with rtspCseq := seq } st
  | table (seq : ℕ) (p : RTSPSession) (hp : rtsp.sessionList = some p) (rtsp' : RTSPBuffer)
      (st' : Streams)
      (h : (cell p.curState m).exec w inp { rtsp with rtspCseq := seq } st = some (rtsp', st'))
      (hs : scanSession inp ≠ some none) : Dispatched w inp m rtsp st rtsp' st'

theorem handleMessage_dispatched {w : World} {inp : Bytes} {rtsp rtsp' : RTSPBuffer}
    {st st' : Streams} {m : Method} (hm : messageMethod inp = some m)
    (h : handleMessage w inp rtsp st = some (rtsp', st')) :
    Dispatched w inp m rtsp st rtsp' st' := by
  obtain ⟨⟨seq, om⟩, hval, rfl⟩ := Option.bind_eq_some_iff.mp hm
  have hresponse : ¬ RTSP_valid_response_msg inp = true := by
    intro hr
    rw [response_method hr] at hm
    cases hm
  unfold handleMessage at h
  rw [if_neg hresponse, hval] at h
  dsimp only at h
  rw [state_machine_cell] at h
  split at h
  · rename_i hs
    obtain ⟨rfl, rfl⟩ := @refuse_eq 454 { rtsp with rtspCseq := seq } _ _ _ h
    exact .malformed seq hs
  · rename_i hs
    split at h
    · rename_i hnone
      rw [Option.some.injEq, Prod.mk.injEq] at h
      rw [← h.1, ← h.2]
      exact .ended seq hnone
    · rename_i p hp
      exact @Dispatched.table w inp m rtsp st seq p hp rtsp' st' h hs

theorem handleMessage_other {w : World} {inp : Bytes} {rtsp rtsp' : RTSPBuffer} {st st' : Streams}
    (hm : messageMethod inp = none) (h : handleMessage w inp rtsp st = some (rtsp', st')) :
    rtsp'.sessionList = rtsp.sessionList ∧ st' = st := by
  unfold handleMessage at h
  split at h
  · rw [Option.some.injEq, Prod.mk.injEq] at h
    rw [← h.1, ← h.2]
    exact ⟨rfl, rfl⟩
  · split at h
    · obtain ⟨rfl, rfl⟩ := @refuse_eq 400 rtsp _ _ _ h
      exact ⟨send_reply_sessionList _ _, rfl⟩
    · rename_i seq _
      obtain ⟨rfl, rfl⟩ := @refuse_eq 400 { rtsp with rtspCseq := seq } _ _ _ h
      exact ⟨send_reply_sessionList _ _, rfl⟩
    · rename_i seq m hval
      rw [messageMethod, hval] at hm
      cases hm

theorem message_streams {P : Streams → Prop} {w : World} {inp : Bytes} {rtsp rtsp' : RTSPBuffer}
    {st st' : Streams} (h : P st)
    (hx : ∀ m seq p x, messageMethod inp = some m → scanSession inp ≠ some none →
      rtsp.sessionList = some p → (cell p.curState m).handler = some x →
      ∀ out, x.run w inp { rtsp with rtspCseq := seq } st = some out → P out.2.2)
    (hm : handleMessage w inp rtsp st = some (rtsp', st')) : P st' := by
  cases hmethod : messageMethod inp with
  | none =>
    rw [(handleMessage_other hmethod hm).2]
    exact h
  | some m =>
    cases handleMessage_dispatched hmethod hm with
    | malformed => exact h
    | ended => exact h
    | table seq p hp _ _ he hs =>
      have hrun := hx m seq p
      cases hcell : cell p.curState m with
      | silent =>
        rw [hcell] at he
        cases he
        exact h
      | refuse status =>
        rw [hcell] at he
        obtain ⟨-, rfl⟩ := refuse_eq he
        exact h
      | stay x =>
        rw [hcell] at he hrun
        obtain ⟨out, ho, hout⟩ := Option.map_eq_some_iff.mp he
        have hout' := hrun x hmethod hs hp rfl out ho
        rw [hout] at hout'
        exact hout'
      | move x next =>
        rw [hcell] at he hrun
        obtain ⟨⟨rc, rtsp₁, st₁⟩, ho, hout⟩ := Option.map_eq_some_iff.mp he
        have hout' := hrun x hmethod hs hp rfl _ ho
        dsimp only at hout hout'
        split at hout <;> cases hout <;> exact hout'

theorem message_checked {w : World} {inp : Bytes} {rtsp rtsp' : RTSPBuffer} {st st' : Streams}
    {v : ℤ} (h : handleMessage w inp rtsp st = some (rtsp', st'))
    (hv : ∀ p ∈ rtsp.sessionList, p.sessionId = v) (hk : Keeps v w inp rtsp st) :
    (∀ q ∈ rtsp'.sessionList, q.sessionId = v) ∧ Checked v w inp rtsp rtsp' st st' := by
  cases hm : messageMethod inp with
  | none =>
    refine ⟨?_, fun hs => (by rw [hm] at hs; cases hs), fun m n he => (by rw [hm] at he; cases he)⟩
    rw [(handleMessage_other hm h).1]
    exact hv
  | some m =>
    cases handleMessage_dispatched hm h with
    | malformed seq hs =>
      constructor
      · rw [send_reply_sessionList]
        exact hv
      refine @Checked.refused v w inp rtsp { rtsp with rtspCseq := seq } st st 454 rfl (by decide) ?_
      intro m' n _ _ hs'
      rw [hs] at hs'
      cases hs'
    | ended seq hnone =>
      refine ⟨hv, ?_, ?_⟩
      · intro _ r hr
        exact absurd hr.symm (bwrite_ne _ _)
      · intro m' n hm' hneeds hs hne
        by_cases htear : m' = .teardown
        · subst htear
          exact absurd hnone (hk.compares hm' n hs hne).1
        · exact absurd (hk.named m' n hm' hneeds htear hs) hne
    | table seq p hp rtsp' st' h =>
      have hk' : Keeps v w inp { rtsp with rtspCseq := seq } st := ⟨hk.named, hk.drawn, hk.compares⟩
      obtain ⟨hid, hc⟩ := @cell_checked w inp { rtsp with rtspCseq := seq } _ _ _ m v p hm hp
        (hv p hp) hk' h
      refine ⟨hid, hc.stable, ?_⟩
      intro m' n hm' hneeds hs hne
      have ht := hc.turned m' n hm' hneeds hs hne
      exact ⟨ht.reply, ht.sessionList, ht.interleaved, ht.streams⟩

/-! ### The number announced is the number stored -/

theorem Reply.Announces.unique {w : World} {v id : ℤ} {r : Reply} (h : r.Announces w v)
    (h' : r.Announces w id) : id = v := by
  obtain ⟨s, hs⟩ := h.2
  obtain ⟨t, ht⟩ := h'.2
  have he := ht.trans hs.symm
  unfold sessionHead el at he
  simp only [List.append_assoc, List.append_cancel_left_eq, List.cons_append] at he
  exact intText_line he

theorem announced_number {w : World} {inp : Bytes} {rtsp rtsp' : RTSPBuffer} {st st' : Streams}
    {v : ℤ} {r : Reply} (h : handleMessage w inp rtsp st = some (rtsp', st'))
    (hm : messageMethod inp = some .setup) (hr : rtsp'.out = rtsp.out.bwrite r)
    (ha : r.Announces w v) : ∀ q ∈ rtsp'.sessionList, q.sessionId = v := by
  cases handleMessage_dispatched hm h with
  | malformed seq hs =>
    unfold send_reply at hr
    have hstatus := ha.1
    rw [← bwrite_inj hr] at hstatus
    cases hstatus
  | ended seq hnone => exact absurd hr.symm (bwrite_ne _ _)
  | table seq p hp rtsp' st' h =>
    by_cases hplay : p.curState = .play
    · rw [hplay] at h
      cases h
      exact absurd hr.symm (bwrite_ne _ _)
    have hcell : cell p.curState .setup = .move .setup .ready := by
      cases hc : p.curState with
      | init => rfl
      | ready => rfl
      | play => exact absurd hc hplay
    rw [hcell] at h
    obtain ⟨out, ho, hout, hmoved⟩ := moveTo_moved h
    rcases @setup_sets_up w inp { rtsp with rtspCseq := seq } st p hp out ho with
      ⟨e, he, hrej⟩ | ⟨-, id, hset⟩
    · obtain ⟨cseq, hcseq⟩ := hrej.reply
      rw [hout, hcseq] at hr
      have hstatus := ha.1
      rw [← bwrite_inj hr] at hstatus
      exact absurd hstatus (setupChecks_refuses w inp _ st e he)
    · obtain ⟨r', hr', hann⟩ := hset.reply
      rw [hout, hr'] at hr
      have hrr := bwrite_inj hr
      rw [hrr] at hann
      intro q hq
      obtain ⟨q', hq', he⟩ := hmoved q hq
      rw [he, hset.session q' hq', ha.unique hann]

/-! ### Runs of the server -/

/-- What a step has to do with a message of connection `k`. -/
def OfConnection (k : ℕ) (sv : Server) (a : Act)
    (P : World → Bytes → RTSPBuffer → Prop) : Prop :=
  ∀ w inp rtsp, a = .request k w inp → sv.connection k = some rtsp → P w inp rtsp

def StepKeeps (k : ℕ) (v : ℤ) (sv : Server) (a : Act) : Prop :=
  OfConnection k sv a fun w inp rtsp => Keeps v w inp rtsp sv.st

def StepChecked (k : ℕ) (v : ℤ) (sv sv' : Server) (a : Act) : Prop :=
  OfConnection k sv a fun w inp rtsp =>
    ∀ rtsp', sv'.connection k = some rtsp' → Checked v w inp rtsp rtsp' sv.st sv'.st

/-- A SETUP on connection `k` is answered with 200 and announces `v`. -/
def SetsUpWith (k : ℕ) (v : ℤ) (sv sv' : Server) (a : Act) : Prop :=
  ∃ w inp rtsp rtsp' r, a = .request k w inp ∧ messageMethod inp = some .setup ∧
    sv.connection k = some rtsp ∧ sv'.connection k = some rtsp' ∧
    rtsp'.out = rtsp.out.bwrite r ∧ r.Announces w v

/-- The connection was opened, and its session, if it has one, is numbered `v`. -/
structure Numbered (k : ℕ) (v : ℤ) (sv : Server) : Prop where
  opened : k < sv.connections.length
  number : ∀ rtsp ∈ sv.connection k, ∀ p ∈ rtsp.sessionList, p.sessionId = v

theorem Numbered.put {k j : ℕ} {v : ℤ} {sv : Server} {p : Option RTSPBuffer} {st : Streams}
    (h : Numbered k v sv) (hj : j < sv.connections.length)
    (hp : j = k → ∀ rtsp ∈ p, ∀ q ∈ rtsp.sessionList, q.sessionId = v) :
    Numbered k v (sv.put j p st) := by
  constructor
  · unfold Server.put
    rw [List.length_set]
    exact h.opened
  · intro rtsp hr
    rw [put_connection hj] at hr
    split at hr
    · rename_i he
      exact hp he.symm rtsp hr
    · exact h.number rtsp hr

theorem Numbered.step {k : ℕ} {v : ℤ} {sv sv' : Server} {a : Act} (h : Numbered k v sv)
    (hk : StepKeeps k v sv a) (hs : serverStep sv a = some sv') :
    Numbered k v sv' ∧ StepChecked k v sv sv' a := by
  have hother : (∀ w inp, a ≠ .request k w inp) → StepChecked k v sv sv' a :=
    fun hne w inp rtsp he => absurd he (hne w inp)
  cases a with
  | connect =>
    cases hs
    refine ⟨⟨?_, ?_⟩, hother fun _ _ he => (by cases he)⟩
    · rw [Server.add_client, List.length_append]
      exact Nat.lt_add_right _ h.opened
    · intro rtsp hr
      rw [connection_add_client, if_neg h.opened.ne] at hr
      exact h.number rtsp hr
  | fdsets j =>
    obtain ⟨rtsp, hr, hs⟩ := Option.bind_eq_some_iff.mp hs
    obtain ⟨rtsp', hf, rfl⟩ := Option.map_eq_some_iff.mp hs
    refine ⟨h.put (connection_lt hr) ?_, hother fun _ _ he => (by cases he)⟩
    intro he rtsp₁ h₁ q hq
    cases h₁
    obtain ⟨b, -, hf⟩ := Option.map_eq_some_iff.mp hf
    split at hf
    · cases hf
      obtain ⟨p, hp, rfl⟩ := Option.map_eq_some_iff.mp hq
      exact h.number rtsp (he ▸ hr) p hp
    · cases hf
      exact h.number rtsp (he ▸ hr) q hq
  | request j w inp =>
    obtain ⟨rtsp, hr, hs⟩ := Option.bind_eq_some_iff.mp hs
    obtain ⟨⟨rtsp', st'⟩, hm, rfl⟩ := Option.map_eq_some_iff.mp hs
    by_cases hj : j = k
    · subst hj
      obtain ⟨hid, hc⟩ := message_checked hm (h.number rtsp hr) (hk w inp rtsp rfl hr)
      refine ⟨h.put h.opened fun _ rtsp₁ h₁ => (by cases h₁; exact hid), ?_⟩
      intro w' inp' rtsp₁ he h₁ rtsp₂ h₂
      cases he
      rw [hr] at h₁
      cases h₁
      rw [put_connection h.opened, if_pos rfl] at h₂
      cases h₂
      exact hc
    · refine ⟨h.put (connection_lt hr) (fun he => absurd he hj), hother fun _ _ he => ?_⟩
      cases he
      exact hj rfl
  | close j =>
    obtain ⟨rtsp, st', hr, -, rfl⟩ := close_step hs
    refine ⟨h.put (connection_lt hr) fun _ rtsp₁ h₁ => (by cases h₁), hother fun _ _ he => ?_⟩
    cases he
  | tick turn =>
    obtain ⟨st', -, rfl⟩ := Option.map_eq_some_iff.mp hs
    exact ⟨⟨h.opened, h.number⟩, hother fun _ _ he => (by cases he)⟩

theorem Numbered.start {k : ℕ} {v : ℤ} {sv sv' : Server} {a : Act}
    (h : SetsUpWith k v sv sv' a) (hs : serverStep sv a = some sv') : Numbered k v sv' := by
  obtain ⟨w, inp, rtsp, rtsp', r, rfl, hm, hr, hr', hout, hann⟩ := h
  obtain ⟨rtsp₁, h₁, hs⟩ := Option.bind_eq_some_iff.mp hs
  rw [hr] at h₁
  cases h₁
  obtain ⟨⟨rtsp₂, st'⟩, hmsg, rfl⟩ := Option.map_eq_some_iff.mp hs
  have hk := connection_lt hr
  rw [put_connection hk, if_pos rfl] at hr'
  cases hr'
  constructor
  · unfold Server.put
    rw [List.length_set]
    exact hk
  · intro rtsp₃ h₃
    rw [put_connection hk, if_pos rfl] at h₃
    cases h₃
    exact announced_number hmsg hm hout hann

/-- Once a SETUP has announced a number, every step of a run whose messages meet the
condition keeps it and checks it. -/
theorem session_number_checked {mid : List Act} {sv₀ sv₁ sv₂ sv₃ : Server} {a b : Act}
    {k : ℕ} {v : ℤ} (ha : serverStep sv₀ a = some sv₁) (hset : SetsUpWith k v sv₀ sv₁ a)
    (hmid : GuardedRun serverStep (StepKeeps k v) sv₁ mid sv₂)
    (hb : serverStep sv₂ b = some sv₃) (hkeeps : StepKeeps k v sv₂ b) :
    StepChecked k v sv₂ sv₃ b := by
  have hnum : Numbered k v sv₂ :=
    hmid.invariant (fun _ _ _ hi hg hs => (hi.step hg hs).1) (.start hset ha)
  exact (hnum.step hkeeps hb).2

/-! ### Two runs -/

/-- The last reply of connection `k`, if the step has added it. -/
def newReply (sv sv' : Server) (k : ℕ) : Option Reply :=
  (sv.connection k).bind fun rtsp => (sv'.connection k).bind fun rtsp' =>
    rtsp'.out.replies.getLast?.filter fun r => decide (rtsp'.out = rtsp.out.bwrite r)

theorem newReply_some {sv sv' : Server} {k : ℕ} {r : Reply} (h : newReply sv sv' k = some r) :
    ∃ rtsp rtsp', sv.connection k = some rtsp ∧ sv'.connection k = some rtsp' ∧
      rtsp'.out = rtsp.out.bwrite r := by
  obtain ⟨rtsp, hr, h⟩ := Option.bind_eq_some_iff.mp h
  obtain ⟨rtsp', hr', h⟩ := Option.bind_eq_some_iff.mp h
  exact ⟨rtsp, rtsp', hr, hr', of_decide_eq_true (Option.filter_eq_some_iff.mp h).2⟩

instance (w : World) (v : ℤ) (r : Reply) : Decidable (r.Announces w v) := by
  unfold Reply.Announces; infer_instance

theorem SetsUpWith.of_reply {k : ℕ} {v : ℤ} {sv sv' : Server} {w : World} {inp : Bytes}
    (hm : messageMethod inp = some .setup)
    (h : (newReply sv sv' k).any (fun r => decide (r.Announces w v)) = true) :
    SetsUpWith k v sv sv' (.request k w inp) := by
  obtain ⟨r, hr, ha⟩ := (Option.any_eq_true _ _).mp h
  obtain ⟨rtsp, rtsp', hk, hk', hout⟩ := newReply_some hr
  exact ⟨w, inp, rtsp, rtsp', r, rfl, hm, hk, hk', hout, of_decide_eq_true ha⟩

theorem Keeps.of_named {v : ℤ} {w : World} {inp : Bytes} {rtsp : RTSPBuffer} {st : Streams}
    (hs : scanSession inp = some (some v)) (hset : (setupSession w inp).run = some (.ok v)) :
    Keeps v w inp rtsp st := by
  have heq : ∀ n, scanSession inp = some (some n) → n = v := by
    intro n hn
    rw [hs] at hn
    cases hn
    rfl
  exact ⟨fun _ n _ _ _ => heq n, fun _ _ _ _ _ => hset, fun _ n hn hne => absurd (heq n hn) hne⟩

theorem Keeps.of_teardown {v : ℤ} {w : World} {inp : Bytes} {rtsp : RTSPBuffer} {st : Streams}
    (hm : messageMethod inp = some .teardown) (hl : rtsp.sessionList ≠ none)
    (hf : passes (teardownChecksFront inp) = true) : Keeps v w inp rtsp st := by
  refine ⟨?_, ?_, fun _ _ _ _ => ⟨hl, hf⟩⟩
  · intro m n hm' _ hne
    rw [hm] at hm'
    cases hm'
    exact absurd rfl hne
  · intro hs
    rw [hm] at hs
    cases hs

/-- The film is set up, then its sound in the same session, and a TEARDOWN of another
session is turned down. -/
theorem session_number_checked_sound : ∃ sv₀ sv₁ sv₂ sv₃ a b c,
    exec serverStep Server.init [.connect] = some sv₀ ∧
    serverStep sv₀ a = some sv₁ ∧ SetsUpWith 0 1 sv₀ sv₁ a ∧
    GuardedRun serverStep (StepKeeps 0 1) sv₁ [b] sv₂ ∧
    serverStep sv₂ c = some sv₃ ∧ StepChecked 0 1 sv₂ sv₃ c := by
  obtain ⟨m₁, m₂, m₃, hm₁, hs₂, hset₂, hm₃, hf₃, hrun⟩ : ∃ m₁ m₂ m₃,
      messageMethod m₁ = some .setup ∧ scanSession m₂ = some (some 1) ∧
      (setupSession onDisk m₂).run = some (.ok 1) ∧ messageMethod m₃ = some .teardown ∧
      passes (teardownChecksFront m₃) = true ∧
      (exec serverStep Server.init [.connect]).any (fun sv₀ =>
        (serverStep sv₀ (.request 0 onDisk m₁)).any fun sv₁ =>
          (newReply sv₀ sv₁ 0).any (fun r => decide (r.Announces onDisk 1)) &&
          (serverStep sv₁ (.request 0 onDisk m₂)).any fun sv₂ =>
            (sv₂.connection 0).any (fun p => p.sessionList.isSome) &&
            (serverStep sv₂ (.request 0 onDisk m₃)).isSome) = true :=
    ⟨setupMessage 1 "v.mpg" [], setupMessage 2 "a.mp3" ["Session: 1"],
      message "TEARDOWN" "rtsp://localhost/film.sd" 3 ["Session: 5"], by decide +kernel,
      by decide +kernel, by decide +kernel, by decide +kernel, by decide +kernel,
      by decide +kernel⟩
  obtain ⟨sv₀, h₀, hrun⟩ := (Option.any_eq_true _ _).mp hrun
  obtain ⟨sv₁, h₁, hrun⟩ := (Option.any_eq_true _ _).mp hrun
  obtain ⟨hann, hrun⟩ := Bool.and_eq_true_iff.mp hrun
  obtain ⟨sv₂, h₂, hrun⟩ := (Option.any_eq_true _ _).mp hrun
  obtain ⟨hl, hrun⟩ := Bool.and_eq_true_iff.mp hrun
  obtain ⟨sv₃, h₃⟩ := Option.isSome_iff_exists.mp hrun
  have hset := SetsUpWith.of_reply hm₁ hann
  have hmid : GuardedRun serverStep (StepKeeps 0 1) sv₁ [.request 0 onDisk m₂] sv₂ := by
    refine .cons ?_ h₂ (.nil _)
    intro w inp rtsp he _
    cases he
    exact .of_named hs₂ hset₂
  have hkeeps : StepKeeps 0 1 sv₂ (.request 0 onDisk m₃) := by
    intro w inp rtsp he hr
    cases he
    refine .of_teardown hm₃ ?_ hf₃
    intro hnone
    rw [hr] at hl
    simp [hnone] at hl
  exact ⟨sv₀, sv₁, sv₂, sv₃, _, _, _, h₀, h₁, hset, hmid, h₃,
    session_number_checked h₁ hset hmid h₃ hkeeps⟩

/-- Without a header `Session` the second SETUP announces another number. -/
theorem second_setup_renumbers : ¬ ∀ (before mid : List Act) (sv₀ sv₁ sv₂ sv₃ : Server) (a b : Act)
    (k : ℕ) (v : ℤ), exec serverStep Server.init before = some sv₀ → serverStep sv₀ a = some sv₁ →
      SetsUpWith k v sv₀ sv₁ a → exec serverStep sv₁ mid = some sv₂ →
      serverStep sv₂ b = some sv₃ → StepChecked k v sv₂ sv₃ b := by
  intro h
  obtain ⟨m₁, m₂, w₂, hm₁, hm₂, hrun⟩ : ∃ m₁ m₂ w₂,
      messageMethod m₁ = some .setup ∧ messageMethod m₂ = some .setup ∧
      (exec serverStep Server.init [.connect]).any (fun sv₀ =>
        (serverStep sv₀ (.request 0 onDisk m₁)).any fun sv₁ =>
          (newReply sv₀ sv₁ 0).any (fun r => decide (r.Announces onDisk 1)) &&
          (serverStep sv₁ (.request 0 w₂ m₂)).any fun sv₂ =>
            (newReply sv₁ sv₂ 0).any fun r => decide (r.status = 200 ∧ ¬ r.Announces w₂ 1)) = true :=
    ⟨setupMessage 1 "v.mpg" [], setupMessage 2 "a.mp3" [], { onDisk with sessionNumber := 2 },
      by decide +kernel, by decide +kernel, by decide +kernel⟩
  obtain ⟨sv₀, h₀, hrun⟩ := (Option.any_eq_true _ _).mp hrun
  obtain ⟨sv₁, h₁, hrun⟩ := (Option.any_eq_true _ _).mp hrun
  obtain ⟨hann, hrun⟩ := Bool.and_eq_true_iff.mp hrun
  obtain ⟨sv₂, h₂, hrun⟩ := (Option.any_eq_true _ _).mp hrun
  obtain ⟨r, hr, hd⟩ := (Option.any_eq_true _ _).mp hrun
  obtain ⟨hok, hno⟩ := of_decide_eq_true hd
  obtain ⟨rtsp, rtsp', hk, hk', hout⟩ := newReply_some hr
  have hc := h [.connect] [] sv₀ sv₁ sv₁ sv₂ _ _ 0 1 h₀ h₁ (SetsUpWith.of_reply hm₁ hann) rfl h₂
  exact hno ((hc w₂ m₂ rtsp rfl hk rtsp' hk').stable hm₂ r hout hok)

end Fenice.Rtsp
