import Fenice.Rtsp.OneReply

/-!
# How a method ends

A method makes its checks one after the other, and the first one that fails decides
the status of the reply and the value that is returned. If none fails, the reply is 200
and the value `ERR_NOERROR`.
-/

namespace Fenice.Rtsp
open Fenice.CString Fenice.Schedule Fenice.Run

/-! ### Checks in a row -/

theorem run_bind_ok {α β : Type} {x : Checks α} {a : α} (h : x.run = some (.ok a))
    (k : α → Checks β) : (x >>= k).run = (k a).run := by
  rw [ExceptT.run_bind, h]
  rfl

theorem run_bind_error {α β : Type} {x : Checks α} {r : Rejection}
    (h : x.run = some (.error r)) (k : α → Checks β) : (x >>= k).run = some (.error r) := by
  rw [ExceptT.run_bind, h]
  rfl

def redirectChecks (w : World) (object : Bytes) (st : Streams) : Checks Unit :=
  match enum_media st object w.file.again with
  | (.error _, _) => reject 500 errNoerror
  | (.ok d, st) => if (st.descr d).flTwin then reject 302 errNoerror else reject 453 errNoerror

/-- The checks of DESCRIBE; a redirection ends it as well. -/
def describeChecks (w : World) (inp : Bytes) (st : Streams) : Checks Unit := do
  let u ← describeUrl inp
  let _ ← requestCseq errNoerror (scanCseq (scanWord 254) inp)
  let _ ← describeResult (get_media_descr w u.object st).1
  if w.maxConnection then redirectChecks w u.object (get_media_descr w u.object st).2 else pure ()

def optionsChecks (inp : Bytes) : Checks Unit := do
  let _ ← requestCseq errNoerror (scanCseq (scanWord 254) inp)
  pure ()

/-- The checks of SETUP once the medium is copied. -/
def copyChecks (w : World) (m : ℕ) (c : Chosen) : Checks Unit :=
  if (copyMedia w m c).2.1 = false then reject 500 errGeneric else pure ()

/-- The checks of SETUP from the presentation on. -/
def mediaChecks (w : World) (inp : Bytes) (rtsp : RTSPBuffer) (filename : Bytes) (d : ℕ)
    (st : Streams) : Checks Unit := do
  let m ← setupMedia st d filename
  let n ← requestCseq errNoerror (scanCseq scanAnyWord inp)
  let tkns ← transportTokens inp
  if w.getpeername = false then reject 415 errGeneric
  else do
    let c ← chooseTransport w { rtsp with rtspCseq := n } st d m tkns
    let _ ← setupSession w inp
    copyChecks w m c

def setupChecks (w : World) (inp : Bytes) (rtsp : RTSPBuffer) (st : Streams) : Checks Unit := do
  let u ← setupUrl inp
  match enum_media st u.1 w.file with
  | (.error _, _) => reject 500 errNoerror
  | (.ok d, st) => mediaChecks w inp rtsp u.2 d st

def playChecks (inp : Bytes) (rtsp : RTSPBuffer) (st : Streams) : Checks Unit := do
  let n ← requestCseq errNoerror (scanCseq (scanWord 254) inp)
  let r ← playRequest inp
  let session ← sameSession errNoerror { rtsp with rtspCseq := n } r.id
  let _ ← playTarget session st r.target
  pure ()

def pauseChecks (w : World) (inp : Bytes) (rtsp : RTSPBuffer) : Checks Unit := do
  let n ← requestCseq errNoerror (scanCseq (scanWord 254) inp)
  let id ← pauseRequest w inp
  let _ ← sameSession errNoerror { rtsp with rtspCseq := n } id
  pure ()

def teardownChecks (inp : Bytes) (rtsp : RTSPBuffer) : Checks Unit := do
  let n ← requestCseq errParse (scanCseq (scanWord 254) inp)
  let r ← teardownRequest inp
  let _ ← sameSession errParse { rtsp with rtspCseq := n } r.id
  pure ()

def Handler.checks (w : World) (inp : Bytes) (rtsp : RTSPBuffer) (st : Streams) :
    Handler → Checks Unit
  | .describe => describeChecks w inp st
  | .options => optionsChecks inp
  | .setup => setupChecks w inp rtsp st
  | .play => playChecks inp rtsp st
  | .pause => pauseChecks w inp rtsp
  | .teardown => teardownChecks inp rtsp

/-! ### What the checks decide -/

def RTSPBuffer.state (rtsp : RTSPBuffer) : Option CurState :=
  rtsp.sessionList.map RTSPSession.curState

theorem send_reply_state (err : ℕ) (rtsp : RTSPBuffer) :
    (send_reply err rtsp).state = rtsp.state := by
  unfold RTSPBuffer.state send_reply
  rfl

/-- The sessions there were are still there, and their flags are the same. -/
def SameFlags (st st' : Streams) : Prop :=
  ∀ s q, st.session s = some q →
    ∃ q', st'.session s = some q' ∧ q'.pause = q.pause ∧ q'.started = q.started

theorem SameFlags.refl (st : Streams) : SameFlags st st := fun _ q h => ⟨q, h, rfl, rfl⟩

theorem SameFlags.trans {st st' st'' : Streams} (h : SameFlags st st')
    (h' : SameFlags st' st'') : SameFlags st st'' := by
  intro s q hq
  obtain ⟨q', hq', hp, hs⟩ := h s q hq
  obtain ⟨q'', hq'', hp', hs'⟩ := h' s q' hq'
  exact ⟨q'', hq'', hp'.trans hp, hs'.trans hs⟩

theorem SameFlags.of_heap {st st' : Streams} (h : st'.heap = st.heap) : SameFlags st st' := by
  intro s q hq
  refine ⟨q, ?_, rfl, rfl⟩
  unfold Streams.session at hq ⊢
  rw [h]
  exact hq

/-- What is returned and the status of the reply. -/
def returned : Except Rejection Unit → ℤ
  | .error r => r.rc
  | .ok _ => errNoerror

def replied : Except Rejection Unit → ℕ
  | .error r => r.status
  | .ok _ => 200

/-- Rejected by a check, or through; a TEARDOWN that goes through may end the session. -/
structure Ended (rtsp : RTSPBuffer) (st : Streams) (y : Except Rejection Unit) (ends : Bool)
    (out : ℤ × RTSPBuffer × Streams) (reply : Reply) : Prop where
  bwrite : out.2.1.out = rtsp.out.bwrite reply
  value : out.1 = returned y
  status : reply.status = replied y
  state : out.2.1.state = rtsp.state ∨ ends = true ∧ y = .ok () ∧ out.2.1.state = none
  flags : ∀ r, y = .error r → SameFlags st out.2.2

def Decides (rtsp : RTSPBuffer) (st : Streams) (y : Checks Unit) (ends : Bool)
    (x : Handled) : Prop :=
  ∀ out, x = some out → ∃ e reply, y.run = some e ∧ Ended rtsp st e ends out reply

theorem Decides.rejected (status : ℕ) (rc : ℤ) (ends : Bool) {rtsp rtsp₁ : RTSPBuffer}
    {st st' : Streams} (hout : rtsp₁.out = rtsp.out) (hstate : rtsp₁.state = rtsp.state)
    (hf : SameFlags st st') :
    Decides rtsp st (reject status rc) ends (some (rc, send_reply status rtsp₁, st')) := by
  intro out ho
  cases ho
  have hsame := (send_reply_state status rtsp₁).trans hstate
  refine ⟨.error ⟨status, rc, none⟩, ⟨status, int32 rtsp₁.rtspCseq, el⟩, rfl, ?_⟩
  refine ⟨?_, rfl, rfl, Or.inl hsame, fun _ _ => hf⟩
  rw [← hout]
  rfl

/-- A check in front. The number of the request and the node that may have been put in
front of the interleaved list do not matter. -/
theorem Decides.check {α : Type} {rtsp rtsp₁ : RTSPBuffer} {st st₁ : Streams} {x : Checks α}
    {y : α → Checks Unit} {ends : Bool} {k : α → Handled} (hout : rtsp₁.out = rtsp.out)
    (hstate : rtsp₁.state = rtsp.state) (hf : SameFlags st st₁)
    (h : ∀ a, x.run = some (.ok a) → Decides rtsp st (y a) ends (k a)) :
    Decides rtsp st (x >>= y) ends (check rtsp₁ st₁ x k) := by
  intro out ho
  rcases check_eq_some.mp ho with ⟨r, hr, he⟩ | ⟨a, ha, hk⟩
  · have hsame := (send_reply_state r.status rtsp₁).trans hstate
    refine ⟨.error r, ⟨r.status, int32 rtsp₁.rtspCseq, el⟩, run_bind_error hr y, ?_⟩
    rw [he]
    refine ⟨?_, rfl, rfl, Or.inl hsame, fun _ _ => hf⟩
    rw [← hout]
    rfl
  · obtain ⟨e, reply, hy, hended⟩ := h a ha out hk
    exact ⟨e, reply, (run_bind_ok ha y).trans hy, hended⟩

theorem Ended.sent {rtsp rtsp₁ rtsp₂ : RTSPBuffer} {st st' : Streams} {cap : ℕ} {reply : Reply}
    {y : Except Rejection Unit} {ends : Bool} (hs : send cap reply rtsp₁ = some rtsp₂)
    (hout : rtsp₁.out = rtsp.out) (hstate : rtsp₁.state = rtsp.state)
    (hstatus : reply.status = replied y) (hf : ∀ r, y = .error r → SameFlags st st') :
    Ended rtsp st y ends (returned y, rtsp₂, st') reply := by
  have hsame : rtsp₂.state = rtsp₁.state := by
    rw [send_eq_some hs, RTSPBuffer.state, RTSPBuffer.state]
  refine ⟨?_, rfl, hstatus, Or.inl (hsame.trans hstate), hf⟩
  rw [send_eq_some hs, ← hout]

theorem no_error {u : Unit} {r : Rejection} {p : Prop} (h : (Except.ok u : Except Rejection Unit) =
    .error r) : p := by
  cases h

theorem Decides.logged {rtsp rtsp₁ : RTSPBuffer} {st st' : Streams} {cap : ℕ} {reply : Reply}
    {inp : Bytes} {ends : Bool} (hstatus : reply.status = 200) (hout : rtsp₁.out = rtsp.out)
    (hstate : rtsp₁.state = rtsp.state) :
    Decides rtsp st (pure ()) ends
      ((send cap reply rtsp₁).bind fun rtsp =>
        (logUserAgent inp).map fun _ => (errNoerror, rtsp, st')) := by
  intro out ho
  obtain ⟨rtsp₂, hs, hl⟩ := Option.bind_eq_some_iff.mp ho
  obtain ⟨_, _, rfl⟩ := Option.map_eq_some_iff.mp hl
  exact ⟨.ok (), reply, rfl, Ended.sent hs hout hstate hstatus (fun _ h => no_error h)⟩

/-! ### The methods -/

theorem look_flags (st : Streams) (object : Bytes) (found : ParsedSD) :
    SameFlags st (enum_media st object found).2 := by
  apply SameFlags.of_heap
  unfold enum_media
  cases found <;> rfl

theorem get_media_descr_flags (w : World) (object : Bytes) (st : Streams) :
    SameFlags st (get_media_descr w object st).2 := by
  rcases get_media_descr_streams w object st with he | he <;> rw [he]
  · exact look_flags st object w.file
  · exact .refl st

theorem redirect_decides {w : World} {object : Bytes} {rtsp rtsp₁ : RTSPBuffer}
    {st st₁ : Streams} (hout : rtsp₁.out = rtsp.out) (hstate : rtsp₁.state = rtsp.state)
    (hf : SameFlags st st₁) :
    Decides rtsp st (redirectChecks w object st₁) false (send_redirect_3xx w object rtsp₁ st₁) := by
  have hlook := hf.trans (look_flags st₁ object w.file.again)
  unfold redirectChecks send_redirect_3xx
  obtain ⟨res, st₂, he⟩ : ∃ res st₂, enum_media st₁ object w.file.again = (res, st₂) :=
    ⟨_, _, rfl⟩
  rw [he] at hlook ⊢
  cases res with
  | error e => exact Decides.rejected 500 errNoerror false hout hstate hlook
  | ok d =>
    dsimp only
    split
    · intro out ho
      obtain ⟨rtsp₂, hs, rfl⟩ := Option.map_eq_some_iff.mp ho
      unfold send_redirect at hs
      exact ⟨.error ⟨302, errNoerror, none⟩, _, rfl,
        Ended.sent hs hout hstate rfl (fun _ _ => hlook)⟩
    · exact Decides.rejected 453 errNoerror false hout hstate hlook

theorem describe_decides (w : World) (inp : Bytes) (rtsp : RTSPBuffer) (st : Streams) :
    Decides rtsp st (describeChecks w inp st) false (RTSP_describe w inp rtsp st) := by
  unfold RTSP_describe describeChecks
  apply Decides.check rfl rfl (.refl st)
  intro u _
  apply Decides.check rfl rfl (.refl st)
  intro n _
  have hget := get_media_descr_flags w u.object st
  apply @Decides.check _ rtsp { rtsp with rtspCseq := n } st _ _ _ _ _ rfl rfl hget
  intro _ _
  by_cases hw : w.maxConnection = true
  · rw [if_pos hw, if_pos hw]
    exact @redirect_decides _ _ rtsp { rtsp with rtspCseq := n } _ _ rfl rfl hget
  · rw [if_neg hw, if_neg hw]
    unfold send_describe_reply
    exact @Decides.logged rtsp { rtsp with rtspCseq := n } _ _ _ _ _ _ rfl rfl rfl

theorem options_decides (inp : Bytes) (rtsp : RTSPBuffer) (st : Streams) :
    Decides rtsp st (optionsChecks inp) false (RTSP_options inp rtsp st) := by
  unfold RTSP_options optionsChecks
  apply Decides.check rfl rfl (.refl st)
  intro n _
  unfold send_options_reply
  exact @Decides.logged rtsp { rtsp with rtspCseq := n } _ _ _ _ _ _ rfl rfl rfl

theorem play_decides (w : World) (inp : Bytes) (rtsp : RTSPBuffer) (st : Streams) :
    Decides rtsp st (playChecks inp rtsp st) false (RTSP_play w inp rtsp st) := by
  unfold RTSP_play playChecks
  apply Decides.check rfl rfl (.refl st)
  intro n _
  apply @Decides.check _ rtsp { rtsp with rtspCseq := n } st _ _ _ _ _ rfl rfl (.refl st)
  intro r _
  apply @Decides.check _ rtsp { rtsp with rtspCseq := n } st _ _ _ _ _ rfl rfl (.refl st)
  intro session _
  apply @Decides.check _ rtsp { rtsp with rtspCseq := n } st _ _ _ _ _ rfl rfl (.refl st)
  intro st₁ _
  unfold send_play_reply
  split
  · intro out ho
    cases ho
  · intro out ho
    obtain ⟨rtsp₁, hs, hl⟩ := Option.bind_eq_some_iff.mp ho
    obtain ⟨rs, -, hs⟩ := Option.bind_eq_some_iff.mp hs
    obtain ⟨_, _, rfl⟩ := Option.map_eq_some_iff.mp hl
    exact ⟨.ok (), playReply w n st₁ session.sessionId rs, rfl,
      Ended.sent hs rfl rfl rfl (fun _ h => no_error h)⟩

theorem pause_decides (w : World) (inp : Bytes) (rtsp : RTSPBuffer) (st : Streams) :
    Decides rtsp st (pauseChecks w inp rtsp) false (RTSP_pause w inp rtsp st) := by
  unfold RTSP_pause pauseChecks
  apply Decides.check rfl rfl (.refl st)
  intro n _
  apply @Decides.check _ rtsp { rtsp with rtspCseq := n } st _ _ _ _ _ rfl rfl (.refl st)
  intro id _
  apply @Decides.check _ rtsp { rtsp with rtspCseq := n } st _ _ _ _ _ rfl rfl (.refl st)
  intro session _ out ho
  obtain ⟨st₁, -, ho⟩ := Option.bind_eq_some_iff.mp ho
  obtain ⟨rtsp₁, hs, hl⟩ := Option.bind_eq_some_iff.mp ho
  obtain ⟨_, _, rfl⟩ := Option.map_eq_some_iff.mp hl
  exact ⟨.ok (), pauseReply w n session.sessionId, rfl,
    Ended.sent hs rfl rfl rfl (fun _ h => no_error h)⟩

theorem requestCseq_inv {rc : ℤ} {number : Option ℕ} {n : ℕ}
    (h : (requestCseq rc number).run = some (.ok n)) : number = some n := by
  unfold requestCseq at h
  split at h
  · cases h
    rfl
  · cases h

theorem sameSession_ok {rc id : ℤ} {rtsp : RTSPBuffer} {p : RTSPSession}
    (h : (sameSession rc rtsp id).run = some (.ok p)) :
    rtsp.sessionList = some p ∧ p.sessionId = id := by
  unfold sameSession at h
  split at h
  · cases h
  · rename_i q hq
    split at h
    · rename_i he
      cases h
      exact ⟨hq, he⟩
    · cases h

theorem teardown_decides (w : World) (inp : Bytes) (rtsp : RTSPBuffer) (st : Streams) :
    Decides rtsp st (teardownChecks inp rtsp) true (RTSP_teardown w inp rtsp st) := by
  unfold RTSP_teardown teardownChecks
  apply Decides.check rfl rfl (.refl st)
  intro n _
  apply @Decides.check _ rtsp { rtsp with rtspCseq := n } st _ _ _ _ _ rfl rfl (.refl st)
  intro r _
  apply @Decides.check _ rtsp { rtsp with rtspCseq := n } st _ _ _ _ _ rfl rfl (.refl st)
  intro session hsession out ho
  obtain ⟨rtsp₁, hs, ho⟩ := Option.bind_eq_some_iff.mp ho
  obtain ⟨_, -, ho⟩ := Option.bind_eq_some_iff.mp ho
  obtain ⟨⟨left, st₁⟩, -, rfl⟩ := Option.map_eq_some_iff.mp ho
  have hlist : rtsp.sessionList = some session := (sameSession_ok hsession).1
  unfold send_teardown_reply at hs
  rw [send_eq_some hs]
  refine ⟨.ok (), _, rfl, rfl, rfl, rfl, ?_, fun _ h => no_error h⟩
  by_cases hleft : left = []
  · right
    simp [RTSPBuffer.state, hleft]
  · left
    simp [RTSPBuffer.state, hleft, hlist]

theorem took_heap {w : World} {rtsp : RTSPBuffer} {st : Streams} {d m : ℕ} {c : Chosen}
    {o : Offer} (h : Took w rtsp st d m c o) : c.st.heap = st.heap := by
  cases h with
  | unicast ser port =>
    obtain ⟨i, -, he⟩ := Option.map_eq_some_iff.mp port
    simp only [Prod.mk.injEq] at he
    rw [← he.2]
  | multicast eq =>
    rw [eq]
    unfold chooseMulticast
    dsimp only
    split <;> rfl
  | tcp same => rw [same]

theorem SameFlags.new {st st' : Streams} {r : RTPSession}
    (h : st'.heap = (st.heap ++ [none]).set st.heap.length (some r)) : SameFlags st st' := by
  intro s q hq
  refine ⟨q, ?_, rfl, rfl⟩
  rw [Streams.session_new h, if_neg (Nat.ne_of_lt (Streams.lt_of_session hq)), hq]

theorem longer_state (rtsp : RTSPBuffer) (s : ℕ) {p : RTSPSession}
    (h : rtsp.sessionList = some p) : (longer rtsp s).curState = p.curState := by
  unfold longer RTSPBuffer.rtspSession
  rw [h]
  rfl

theorem finishSetup_decides {w : World} {inp : Bytes} {rtsp rtsp₁ : RTSPBuffer}
    {st : Streams} {object : Bytes} {d m : ℕ} {c : Chosen} {p : RTSPSession}
    (hout : rtsp₁.out = rtsp.out) (hlist : rtsp₁.sessionList = rtsp.sessionList)
    (hp : rtsp.sessionList = some p) (hheap : c.st.heap = st.heap) :
    Decides rtsp st (do
        let _ ← setupSession w inp
        copyChecks w m c) false (finishSetup w inp rtsp₁ object d m c) := by
  have hp₁ : rtsp₁.sessionList = some p := hlist.trans hp
  have hstate : some (longer rtsp₁ c.st.heap.length).curState = rtsp.state := by
    rw [longer_state rtsp₁ _ hp₁, RTSPBuffer.state, hp]
    rfl
  intro ⟨rc, rtsp', st'⟩ ho
  cases finishSetup_finished ho with
  | noSession r hs =>
    refine ⟨.error r, ⟨r.status, int32 rtsp₁.rtspCseq, el⟩, run_bind_error hs _, ?_, rfl, rfl,
      Or.inl ?_, fun _ _ => .of_heap hheap⟩
    · rw [← hout]
      rfl
    · refine (send_reply_state ..).trans ?_
      exact congrArg (Option.map RTSPSession.curState) hlist
  | notCopied id hs out st hc =>
    have hcopy : (copyChecks w m c).run = some (.error ⟨500, errGeneric, none⟩) := by
      unfold copyChecks
      rw [hc, if_pos rfl]
      rfl
    obtain ⟨entries, buffers, rfl⟩ := copyMedia_frame hc
    refine ⟨.error ⟨500, errGeneric, none⟩, ⟨500, int32 rtsp₁.rtspCseq, el⟩,
      (run_bind_ok hs _).trans hcopy, ?_, rfl, rfl, Or.inl hstate, fun _ _ => ?_⟩
    · rw [← hout]
      rfl
    · exact (SameFlags.of_heap hheap).trans (.new rfl)
  | entered sessionId hs out st hc id st' ha rtsp₂ hr =>
    have hcopy : (copyChecks w m c).run = some (.ok ()) := by
      unfold copyChecks
      rw [hc, if_neg (by simp)]
      rfl
    unfold send_setup_reply at hr
    exact ⟨.ok (), _, (run_bind_ok hs _).trans hcopy,
      Ended.sent hr hout hstate rfl (fun _ h => no_error h)⟩

theorem setup_decides (w : World) (inp : Bytes) {rtsp : RTSPBuffer} (st : Streams)
    {p : RTSPSession} (hp : rtsp.sessionList = some p) :
    Decides rtsp st (setupChecks w inp rtsp st) false (RTSP_setup w inp rtsp st) := by
  unfold RTSP_setup setupChecks
  apply Decides.check rfl rfl (.refl st)
  intro ⟨object, filename⟩ _
  have hlook := look_flags st object w.file
  dsimp only
  obtain ⟨res, st₁, he⟩ : ∃ res st₁, enum_media st object w.file = (res, st₁) := ⟨_, _, rfl⟩
  rw [he] at hlook ⊢
  cases res with
  | error e => exact Decides.rejected 500 errNoerror false rfl rfl hlook
  | ok d =>
    dsimp only at hlook ⊢
    unfold mediaChecks
    apply Decides.check rfl rfl hlook
    intro m _
    apply Decides.check rfl rfl hlook
    intro n _
    apply @Decides.check _ rtsp { rtsp with rtspCseq := n } st _ _ _ _ _ rfl rfl hlook
    intro tkns _
    by_cases hname : w.getpeername = false
    · rw [if_pos hname, if_pos hname]
      exact @Decides.rejected 415 errGeneric false rtsp { rtsp with rtspCseq := n } _ _ rfl rfl hlook
    · rw [if_neg hname, if_neg hname]
      apply @Decides.check _ rtsp { rtsp with rtspCseq := n } st _ _ _ _ _ rfl rfl hlook
      intro c hc out ho
      obtain ⟨o, tkn, -, htook⟩ := chooseTransport_took hc
      obtain ⟨e, reply, hrun, hended⟩ := @finishSetup_decides w inp rtsp { rtsp with rtspCseq := n }
        st₁ object d m c p rfl rfl hp (took_heap htook) out ho
      exact ⟨e, reply, hrun, hended.bwrite, hended.value, hended.status, hended.state,
        fun r hr => hlook.trans (hended.flags r hr)⟩

theorem handler_decides (x : Handler) (w : World) (inp : Bytes) {rtsp : RTSPBuffer} (st : Streams)
    {p : RTSPSession} (hp : rtsp.sessionList = some p) :
    Decides rtsp st (x.checks w inp rtsp st) (x == .teardown) (x.run w inp rtsp st) := by
  cases x with
  | describe => exact describe_decides w inp rtsp st
  | options => exact options_decides inp rtsp st
  | setup => exact setup_decides w inp st hp
  | play => exact play_decides w inp rtsp st
  | pause => exact pause_decides w inp rtsp st
  | teardown => exact teardown_decides w inp rtsp st

end Fenice.Rtsp
