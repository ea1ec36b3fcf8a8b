import Fenice.Rtsp.Refusals
import Fenice.Rtsp.ReplySizes

/-!
# The room that a reply needs

`bwrite` appends a reply only if it fits into `out_buffer`, and no method looks at what `bwrite`
returns. How long the reply to a request that goes through would be can be told from the request
and the state before it.
-/

namespace Fenice.Rtsp
open Fenice.CString Fenice.Schedule

theorem bwrite_bytes_iff (o : Output) (r : Reply) :
    (o.bwrite r).bytes = o.bytes ++ r.render ↔
      ¬ outBufferSize < o.bytes.length + r.render.length := by
  have hlong : 0 < r.render.length := by
    simp only [Reply.render, List.length_append, el, List.length_cons]
    omega
  unfold Output.bwrite
  by_cases hfull : outBufferSize < o.bytes.length + r.render.length
  · rw [if_pos hfull]
    refine iff_of_false (fun heq => ?_) (not_not_intro hfull)
    have hlength : o.bytes.length = (o.bytes ++ r.render).length := congrArg List.length heq
    rw [List.length_append] at hlength
    omega
  · rw [if_neg hfull]
    exact iff_of_true rfl hfull

/-! ### What the texts need -/

/-- Status line, `CSeq`, `Server`, `Date` and `Session`. -/
def sessionNeeds (w : World) (cseq id : ℤ) : ℕ :=
  17 + (6 + digits cseq + 2) + 21 + (6 + w.date.length + 2) + (9 + digits id + 2)

/-- The value of the header `Transport`. -/
def transportNeeds (w : World) (descr : SDDescr) (t : Transport) : ℕ :=
  match t.type with
  | .avp =>
    (if t.isMulticast then 37 + descr.multicast.length + 6
      else 28 + digits t.cliPorts.RTP + 1 + digits t.cliPorts.RTCP + 8 + w.address.length + 13) +
      digits t.serPorts.RTP + 1 + digits t.serPorts.RTCP
  | .avpTcp => 24 + digits t.interleavedRTP + 1 + digits t.interleavedRTCP
  | .noTransport => 0

def setupNeeds (w : World) (cseq : ℕ) (id : ℤ) (descr : SDDescr) (t : Transport) : ℕ :=
  sessionNeeds w (int32 cseq) id + 11 + transportNeeds w descr t + 6 + digits w.ssrc + 4

theorem transportText_length (w : World) (descr : SDDescr) (t : Transport) :
    (transportText w descr t).length = transportNeeds w descr t := by
  unfold transportText transportNeeds
  cases t.type with
  | avp =>
    dsimp only
    split <;> simp only [List.length_append, lit_length, String.reduceToList, List.length_cons,
      List.length_nil, ← digits.eq_1]
  | avpTcp =>
    simp only [List.length_append, lit_length, String.reduceToList, List.length_cons,
      List.length_nil, digits_natCast]
  | noTransport => rfl

theorem dated_session_length (w : World) (cseq id : ℤ) (rest : Bytes) :
    (Reply.render ⟨200, cseq, serverLine ++ add_time_stamp w ++ lit "Session: " ++ intText id ++ el ++
      rest⟩).length = sessionNeeds w cseq id + rest.length := by
  have hdated := dated_length w
  have hsession : (lit "Session: ").length = 9 := rfl
  have hel : el.length = 2 := rfl
  unfold sessionNeeds
  rw [render_length, List.length_append, List.length_append, List.length_append,
    List.length_append, hdated, hsession, hel, ← digits.eq_1]
  omega

theorem setupReply_length (w : World) (cseq : ℕ) (id : ℤ) (descr : SDDescr) (r : RTPSession)
    (hssrc : r.ssrc = w.ssrc) :
    (setupReply w cseq id descr r).render.length = setupNeeds w cseq id descr r.transport := by
  have htext : setupReply w cseq id descr r = ⟨200, int32 cseq, serverLine ++ add_time_stamp w ++
      lit "Session: " ++ intText id ++ el ++ (lit "Transport: " ++
        transportText w descr r.transport ++ lit ";ssrc=" ++ natText r.ssrc ++ el ++ el)⟩ := by
    simp only [setupReply, List.append_assoc]
  have hhead : (lit "Transport: ").length = 11 := rfl
  have hname : (lit ";ssrc=").length = 6 := rfl
  have hel : el.length = 2 := rfl
  rw [htext, dated_session_length]
  simp only [List.length_append, transportText_length, digits_natCast, hhead, hname, hel, hssrc]
  unfold setupNeeds
  omega

theorem ended_reply_length (w : World) (cseq id : ℤ) :
    (Reply.render ⟨200, cseq, serverLine ++ add_time_stamp w ++ lit "Session: " ++ intText id ++
      el ++ el⟩).length = sessionNeeds w cseq id + 2 :=
  dated_session_length w cseq id el

/-! ### The sessions that TEARDOWN leaves -/

/-- The loop of TEARDOWN leaves the session. -/
def spared (filename : Bytes) (st : Streams) (s : ℕ) : Bool :=
  (st.session s).any fun r =>
    !decide ((st.media r.currentMedia).filename = filename ∨
      (st.media r.currentMedia).aggregate = filename)

theorem teardownLoop_spares {filename : Bytes} {list left : List ℕ} {st st' : Streams}
    (h : teardownLoop filename list st = some (left, st')) :
    left = list.filter (spared filename st) ∧ SameFlags st st' := by
  induction list generalizing st left with
  | nil =>
    cases h
    exact ⟨rfl, .refl _⟩
  | cons s rest ih =>
    obtain ⟨r, hr, h⟩ := Option.bind_eq_some_iff.mp h
    have hspared : spared filename st s = !decide ((st.media r.currentMedia).filename = filename ∨
        (st.media r.currentMedia).aggregate = filename) := by
      rw [spared, hr, Option.any_some]
    dsimp only at h
    split_ifs at h with hnamed
    · obtain ⟨st₁, h₁, h⟩ := Option.bind_eq_some_iff.mp h
      obtain ⟨hleft, hflags⟩ := ih h
      have hremoved : st₁.heap = st.heap ∧ spared filename st₁ = spared filename st := by
        obtain ⟨i, -, ⟨t, -, rfl⟩ | ⟨-, rfl⟩⟩ := Streams.remove_cases h₁ <;> exact ⟨rfl, rfl⟩
      obtain ⟨hheap, hsame⟩ := hremoved
      refine ⟨?_, (SameFlags.of_heap hheap).trans hflags⟩
      rw [hleft, hsame, List.filter_cons, hspared, decide_eq_true hnamed]
      rfl
    · obtain ⟨⟨left', st₁⟩, h₁, he⟩ := Option.map_eq_some_iff.mp h
      cases he
      obtain ⟨hleft, hflags⟩ := ih h₁
      refine ⟨?_, hflags⟩
      rw [hleft, List.filter_cons, hspared, decide_eq_false hnamed]
      rfl

/-! ### What a request needs -/

def describeRoom (w : World) (inp : Bytes) (st : Streams) : Checks ℕ := do
  let u ← describeUrl inp
  let n ← requestCseq errNoerror (scanCseq (scanWord 254) inp)
  let _ ← describeResult (get_media_descr w u.object st).1
  if w.maxConnection then redirectChecks w u.object (get_media_descr w u.object st).2
  pure (describeNeeds w n u.object w.sdp.2)

def optionsRoom (inp : Bytes) : Checks ℕ := do
  let n ← requestCseq errNoerror (scanCseq (scanWord 254) inp)
  pure (17 + (6 + digits n + 2) + 54)

def mediaRoom (w : World) (inp : Bytes) (rtsp : RTSPBuffer) (filename : Bytes) (d : ℕ)
    (st : Streams) : Checks ℕ := do
  let m ← setupMedia st d filename
  let n ← requestCseq errNoerror (scanCseq scanAnyWord inp)
  let tkns ← transportTokens inp
  if w.getpeername = false then reject 415 errGeneric
  else do
    let c ← chooseTransport w { rtsp with rtspCseq := n } st d m tkns
    let id ← setupSession w inp
    copyChecks w m c
    pure (setupNeeds w n id (c.st.descr d) c.transport)

def setupRoom (w : World) (inp : Bytes) (rtsp : RTSPBuffer) (st : Streams) : Checks ℕ := do
  let u ← setupUrl inp
  match enum_media st u.1 w.file with
  | (.error _, _) => reject 500 errNoerror
  | (.ok d, st) => mediaRoom w inp rtsp u.2 d st

def playRoom (w : World) (inp : Bytes) (rtsp : RTSPBuffer) (st : Streams) : Checks ℕ := do
  let n ← requestCseq errNoerror (scanCseq (scanWord 254) inp)
  let r ← playRequest inp
  let session ← sameSession errNoerror { rtsp with rtspCseq := n } r.id
  let _ ← playTarget session st r.target
  pure (playNeeds w n st session.sessionId (session.rtpSession.filterMap st.session))

def pauseRoom (w : World) (inp : Bytes) (rtsp : RTSPBuffer) : Checks ℕ := do
  let n ← requestCseq errNoerror (scanCseq (scanWord 254) inp)
  let id ← pauseRequest w inp
  let session ← sameSession errNoerror { rtsp with rtspCseq := n } id
  pure (sessionNeeds w (int32 n) session.sessionId + 2)

def teardownRoom (w : World) (inp : Bytes) (rtsp : RTSPBuffer) : Checks ℕ := do
  let n ← requestCseq errParse (scanCseq (scanWord 254) inp)
  let r ← teardownRequest inp
  let _ ← sameSession errParse { rtsp with rtspCseq := n } r.id
  pure (sessionNeeds w n r.id + 2)

/-- The checks of a method, with the length of the reply to a request that passes them. -/
def Handler.room (w : World) (inp : Bytes) (rtsp : RTSPBuffer) (st : Streams) : Handler → Checks ℕ
  | .describe => describeRoom w inp st
  | .options => optionsRoom inp
  | .setup => setupRoom w inp rtsp st
  | .play => playRoom w inp rtsp st
  | .pause => pauseRoom w inp rtsp
  | .teardown => teardownRoom w inp rtsp

theorem mediaRoom_checks (w : World) (inp : Bytes) (rtsp : RTSPBuffer) (filename : Bytes) (d : ℕ)
    (st : Streams) : (mediaRoom w inp rtsp filename d st >>= fun _ => pure ()) =
      mediaChecks w inp rtsp filename d st := by
  unfold mediaRoom mediaChecks
  split <;> simp [reject]

theorem room_checks (x : Handler) (w : World) (inp : Bytes) (rtsp : RTSPBuffer) (st : Streams) :
    (x.room w inp rtsp st >>= fun _ => pure ()) = x.checks w inp rtsp st := by
  cases x with
  | describe =>
    simp only [Handler.room, Handler.checks, describeRoom, describeChecks, bind_assoc]
    split <;> simp
  | options => simp [Handler.room, Handler.checks, optionsRoom, optionsChecks]
  | setup =>
    simp only [Handler.room, Handler.checks, setupRoom, setupChecks, bind_assoc]
    refine bind_congr fun u => ?_
    obtain ⟨res, st₁, he⟩ : ∃ res st₁, enum_media st u.1 w.file = (res, st₁) := ⟨_, _, rfl⟩
    rw [he]
    cases res with
    | error => simp [reject]
    | ok d => exact mediaRoom_checks ..
  | play => simp [Handler.room, Handler.checks, playRoom, playChecks]
  | pause => simp [Handler.room, Handler.checks, pauseRoom, pauseChecks]
  | teardown => simp [Handler.room, Handler.checks, teardownRoom, teardownChecks]

/-! ### The replies that are sent -/

/-- A request that passes its checks is answered with a reply of that length. -/
def Sized (rtsp : RTSPBuffer) (z : Checks ℕ) (x : Handled) : Prop :=
  ∀ out, x = some out → ∀ n, z.run = some (.ok n) →
    ∃ reply, out.2.1.out = rtsp.out.bwrite reply ∧ reply.render.length = n

theorem Sized.check {α : Type} {rtsp rtsp₁ : RTSPBuffer} {st : Streams} {x : Checks α}
    {z : α → Checks ℕ} {k : α → Handled}
    (h : ∀ a, x.run = some (.ok a) → Sized rtsp (z a) (k a)) :
    Sized rtsp (x >>= z) (check rtsp₁ st x k) := by
  intro out ho n hn
  obtain ⟨a, ha, hn⟩ := bind_ok hn
  rcases check_eq_some.mp ho with ⟨r, hr, -⟩ | ⟨b, hb, ho⟩
  · rw [ha] at hr
    cases hr
  · rw [ha] at hb
    cases hb
    exact h a ha out ho n hn

theorem Sized.rejected {rtsp : RTSPBuffer} {status : ℕ} {rc : ℤ} {x : Handled} :
    Sized rtsp (reject status rc) x := by
  intro out _ n hn
  cases hn

theorem Sized.sent {rtsp rtsp₁ rtsp₂ : RTSPBuffer} {cap : ℕ} {reply : Reply} {n : ℕ} {rc : ℤ}
    {st : Streams} (hs : send cap reply rtsp₁ = some rtsp₂) (hout : rtsp₁.out = rtsp.out)
    (hlength : reply.render.length = n) :
    ∀ k, (pure n : Checks ℕ).run = some (.ok k) →
      ∃ reply, (rc, rtsp₂, st).2.1.out = rtsp.out.bwrite reply ∧ reply.render.length = k := by
  intro k hk
  cases hk
  refine ⟨reply, ?_, hlength⟩
  rw [send_eq_some hs, ← hout]

theorem Sized.logged {rtsp rtsp₁ : RTSPBuffer} {cap : ℕ} {reply : Reply} {n : ℕ} {st : Streams}
    {inp : Bytes} (hout : rtsp₁.out = rtsp.out) (hlength : reply.render.length = n) :
    Sized rtsp (pure n) ((send cap reply rtsp₁).bind fun rtsp =>
      (logUserAgent inp).map fun _ => (errNoerror, rtsp, st)) := by
  intro out ho
  obtain ⟨rtsp₂, hs, hl⟩ := Option.bind_eq_some_iff.mp ho
  obtain ⟨_, _, rfl⟩ := Option.map_eq_some_iff.mp hl
  exact Sized.sent hs hout hlength

/-- The sessions tell the same in the header `RTP-info`. -/
def SameInfos (w : World) (st st' : Streams) : Prop :=
  ∀ s, (st'.session s).map (infoNeeds w st') = (st.session s).map (infoNeeds w st)

theorem SameInfos.setSession {w : World} {st : Streams} {s : ℕ} {r : RTPSession}
    (hr : st.session s = some r) (r' : RTPSession)
    (hsame : ∀ u, infoNeeds w u r' = infoNeeds w u r) :
    SameInfos w st (st.setSession s (some r')) := by
  intro t
  rw [Streams.session_setSession (Streams.lt_of_session hr)]
  by_cases hts : t = s
  · rw [if_pos hts, hts, hr]
    exact congrArg some (hsame _)
  · rw [if_neg hts]
    rfl

theorem playTarget_infos (w : World) {session : RTSPSession} {st st' : Streams} {t : Target}
    (h : (playTarget session st t).run = some (.ok st')) : SameInfos w st st' := by
  refine playTarget_rel (R := SameInfos w) (fun _ _ => rfl)
    (fun _ _ _ h₁ h₂ s => (h₂ s).trans (h₁ s)) ?_ ?_ h
  · intro st id st' hstart
    obtain ⟨i, s, r, b, n, -, -, hr, -, -, rfl⟩ := Streams.start_cases hstart
    have hr' : (st.setRefs b (some (BufferPool.incr16 n))).session s = some r := hr
    exact SameInfos.setSession hr' _ fun _ => rfl
  · intro st id st' hresume
    obtain ⟨i, s, r, -, -, hr, rfl⟩ := Streams.resume_cases hresume
    exact .setSession hr _ fun _ => rfl

theorem mapM_filterMap {α β : Type} {f : α → Option β} {l : List α} {bs : List β}
    (h : l.mapM f = some bs) : bs = l.filterMap f := by
  induction l generalizing bs with
  | nil =>
    cases h
    rfl
  | cons a l ih =>
    rw [List.mapM_cons] at h
    obtain ⟨b, hb, h⟩ := Option.bind_eq_some_iff.mp h
    obtain ⟨bs', hbs, h⟩ := Option.bind_eq_some_iff.mp h
    cases h
    rw [List.filterMap_cons, hb, ih hbs]

theorem play_sized (w : World) (inp : Bytes) (rtsp : RTSPBuffer) (st : Streams) :
    Sized rtsp (playRoom w inp rtsp st) (RTSP_play w inp rtsp st) := by
  unfold RTSP_play playRoom
  apply Sized.check
  intro n _
  apply Sized.check
  intro r _
  apply Sized.check
  intro session _
  apply Sized.check
  intro st₁ htarget out ho
  rw [send_play_reply] at ho
  by_cases hnil : session.rtpSession = []
  · rw [if_pos hnil] at ho
    cases ho
  rw [if_neg hnil] at ho
  obtain ⟨rtsp₁, hs, hl⟩ := Option.bind_eq_some_iff.mp ho
  obtain ⟨rs, hrs, hs⟩ := Option.bind_eq_some_iff.mp hs
  obtain ⟨_, _, rfl⟩ := Option.map_eq_some_iff.mp hl
  -- starting and resuming do not change what is told about the streams
  have hinfos : rs.map (infoNeeds w st₁) =
      (session.rtpSession.filterMap st.session).map (infoNeeds w st) := by
    rw [mapM_filterMap hrs, List.map_filterMap, List.map_filterMap]
    exact congrArg (List.filterMap · _) (funext (playTarget_infos w htarget))
  have hlength := congrArg List.length hinfos
  rw [List.length_map, List.length_map] at hlength
  have hneeds : playNeeds w n st₁ session.sessionId rs =
      playNeeds w n st session.sessionId (session.rtpSession.filterMap st.session) := by
    rw [playNeeds, playNeeds, hinfos, hlength]
  exact Sized.sent hs rfl ((playReply_length ..).trans hneeds)

theorem setup_sized (w : World) (inp : Bytes) (rtsp : RTSPBuffer) (st : Streams) :
    Sized rtsp (setupRoom w inp rtsp st) (RTSP_setup w inp rtsp st) := by
  unfold RTSP_setup setupRoom
  apply Sized.check
  intro ⟨object, filename⟩ _
  dsimp only
  obtain ⟨res, st₁, he⟩ : ∃ res st₁, enum_media st object w.file = (res, st₁) := ⟨_, _, rfl⟩
  rw [he]
  cases res with
  | error e => exact .rejected
  | ok d =>
    dsimp only
    unfold mediaRoom
    apply Sized.check
    intro m _
    apply Sized.check
    intro n _
    apply Sized.check
    intro tkns _
    by_cases hname : w.getpeername = false
    · rw [if_pos hname, if_pos hname]
      exact .rejected
    · rw [if_neg hname, if_neg hname]
      apply Sized.check
      intro c _ ⟨rc, rtsp', st'⟩ ho k hk
      obtain ⟨id, hid, hk⟩ := bind_ok hk
      obtain ⟨_, hcopied, hk⟩ := bind_ok hk
      cases finishSetup_finished ho with
      | noSession r hs =>
        rw [hid] at hs
        cases hs
      | notCopied _ _ out st₂ hc =>
        rw [copyChecks, hc, if_pos rfl] at hcopied
        cases hcopied
      | entered sessionId hs out st₂ hc i st₃ ha rtsp₂ hr =>
        rw [hid] at hs
        cases hs
        have hdescr : st₃.descr d = c.st.descr d := by
          obtain ⟨entries, buffers, rfl⟩ := copyMedia_frame hc
          rcases Streams.add_cases _ c.st.heap.length c.dad with ⟨j, -, hadd⟩ | ⟨-, hadd⟩
          · rw [ha] at hadd
            cases hadd
            rfl
          · rw [ha] at hadd
            cases hadd
            rfl
        rw [← hdescr] at hk
        exact Sized.sent hr rfl (setupReply_length w n id _ _ rfl) k hk

theorem pause_sized (w : World) (inp : Bytes) (rtsp : RTSPBuffer) (st : Streams) :
    Sized rtsp (pauseRoom w inp rtsp) (RTSP_pause w inp rtsp st) := by
  unfold RTSP_pause pauseRoom
  apply Sized.check
  intro n _
  apply Sized.check
  intro id _
  apply Sized.check
  intro session _ out ho
  obtain ⟨st₁, -, ho⟩ := Option.bind_eq_some_iff.mp ho
  have hlength : (pauseReply w n session.sessionId).render.length =
      sessionNeeds w (int32 n) session.sessionId + 2 := by
    rw [pauseReply, ended_reply_length]
  rw [send_pause_reply] at ho
  exact @Sized.logged rtsp { rtsp with rtspCseq := n } _ _ _ _ _ rfl hlength out ho

theorem teardown_sized (w : World) (inp : Bytes) (rtsp : RTSPBuffer) (st : Streams) :
    Sized rtsp (teardownRoom w inp rtsp) (RTSP_teardown w inp rtsp st) := by
  unfold RTSP_teardown teardownRoom
  apply Sized.check
  intro n _
  apply Sized.check
  intro r _
  apply Sized.check
  intro session _ out ho k hk
  obtain ⟨rtsp₁, hs, ho⟩ := Option.bind_eq_some_iff.mp ho
  obtain ⟨_, _, ho⟩ := Option.bind_eq_some_iff.mp ho
  obtain ⟨⟨left, st₁⟩, _, rfl⟩ := Option.map_eq_some_iff.mp ho
  rw [send_teardown_reply] at hs
  cases hk
  refine ⟨_, ?_, ended_reply_length w n r.id⟩
  rw [send_eq_some hs]

theorem describe_sized (w : World) (inp : Bytes) (rtsp : RTSPBuffer) (st : Streams) :
    Sized rtsp (describeRoom w inp st) (RTSP_describe w inp rtsp st) := by
  unfold RTSP_describe describeRoom
  apply Sized.check
  intro u _
  apply Sized.check
  intro n _
  apply Sized.check
  intro _ _
  by_cases hw : w.maxConnection = true
  · rw [if_pos hw, if_pos hw]
    intro out _ k hk
    obtain ⟨_, hredirect, -⟩ := bind_ok hk
    exact absurd hredirect (redirectChecks_ne_ok w u.object _)
  · rw [if_neg hw, if_neg hw]
    exact Sized.logged rfl (describeReply_length ..)

theorem options_sized (inp : Bytes) (rtsp : RTSPBuffer) (st : Streams) :
    Sized rtsp (optionsRoom inp) (RTSP_options inp rtsp st) := by
  unfold RTSP_options optionsRoom
  apply Sized.check
  intro n _
  exact Sized.logged rfl (render_length ..)

theorem handler_sized (x : Handler) (w : World) (inp : Bytes) (rtsp : RTSPBuffer)
    (st : Streams) : Sized rtsp (x.room w inp rtsp st) (x.run w inp rtsp st) := by
  cases x with
  | describe => exact describe_sized w inp rtsp st
  | options => exact options_sized inp rtsp st
  | setup => exact setup_sized w inp rtsp st
  | play => exact play_sized w inp rtsp st
  | pause => exact pause_sized w inp rtsp st
  | teardown => exact teardown_sized w inp rtsp st

end Fenice.Rtsp
