import Fenice.Rtsp.Identity
import Fenice.Rtsp.Readers
import Mathlib.Data.List.Flatten

/-!
# Interleaved channels (RTSP_setup.c)

A client may choose the channels of an interleaved session; without a choice SETUP takes the two
above the highest RTCP channel. It compares neither with the channels there are.
-/

namespace Fenice.Rtsp
open Fenice.CString Fenice.Schedule Fenice.Run

/-- One connection, with the streams of the server. -/
structure Connected where
  rtsp : RTSPBuffer
  st : Streams

/-- A SETUP, a TEARDOWN, or a step of the scheduler thread. -/
inductive ConnectedAct where
  | setup (w : World) (inp : Bytes)
  | teardown (w : World) (inp : Bytes)
  | tick (turn : Turn)

def connectedStep (c : Connected) : ConnectedAct → Option Connected
  | .setup w inp => (RTSP_setup w inp c.rtsp c.st).map fun out => ⟨out.2.1, out.2.2⟩
  | .teardown w inp => (RTSP_teardown w inp c.rtsp c.st).map fun out => ⟨out.2.1, out.2.2⟩
  | .tick turn => (c.st.schedule_do turn).map fun st => ⟨c.rtsp, st⟩

/-! ### The channels in use -/

/-- The channels of a session, if it is an interleaved one. -/
def sessionChannels (r : RTPSession) : List ℕ :=
  if r.transport.type = .avpTcp then [r.transport.interleavedRTP, r.transport.interleavedRTCP]
  else []

/-- The channels of the sessions of a list. -/
def channels (st : Streams) (list : List ℕ) : List ℕ :=
  list.flatMap fun s => ((st.session s).map sessionChannels).getD []

/-- All channels are different and fit into a byte. -/
structure ChannelsDistinct (st : Streams) (list : List ℕ) : Prop where
  nodup : (channels st list).Nodup
  low : ∀ x ∈ channels st list, x ≤ 255

/-- The first channel above the RTCP channels of a list. -/
def nextChannel (st : Streams) : List ℕ → ℕ
  | [] => 0
  | s :: rest =>
    max (match st.session s with
      | some r => if r.transport.type = .avpTcp then r.transport.interleavedRTCP + 1 else 0
      | none => 0) (nextChannel st rest)

/-- The channels that the client asks for. -/
def askedChannels (tkn : Bytes) : Option (ℕ × ℕ) :=
  (strstr tkn (lit "interleaved")).bind fun p =>
    (strchr p 61).map fun p =>
      let rtp := (scanShort (p.drop 1)).getD 0
      (rtp, match strchr p 45 with
        | some q => (scanShort (q.drop 1)).getD 0
        | none => (rtp + 1) % 2 ^ 16)

/-- The client asks for two different channels that are not in use, or leaves the choice to the
server when neither of the two above the highest RTCP channel is in use. -/
def ChannelsApart (st : Streams) (list : List ℕ) (tkn : Bytes) : Prop :=
  match askedChannels tkn with
  | some (rtp, rtcp) => rtp ≠ rtcp ∧ rtp ∉ channels st list ∧ rtcp ∉ channels st list
  | none => nextChannel st list ∉ channels st list ∧ nextChannel st list + 1 ∉ channels st list

instance (st : Streams) (list : List ℕ) (tkn : Bytes) : Decidable (ChannelsApart st list tkn) := by
  unfold ChannelsApart
  split <;> infer_instance

/-- The setting with which a SETUP comes to the branch `RTP/AVP/TCP`, if it does. -/
def tcpSetting (w : World) (inp : Bytes) (st : Streams) : Option Bytes :=
  match (setupUrl inp).run with
  | some (.ok (object, _)) =>
    match enum_media st object w.file with
    | (.ok d, st) =>
      match (transportTokens inp).run with
      | some (.ok tkns) =>
        match firstOffer (st.descr d).flMulticast tkns with
        | some (.tcp, tkn) => some tkn
        | _ => none
      | _ => none
    | _ => none
  | _ => none

/-- The condition on a step. -/
def SetsApart (c : Connected) : ConnectedAct → Prop
  | .setup w inp => ∀ tkn ∈ tcpSetting w inp c.st, ChannelsApart c.st c.rtsp.sessions tkn
  | _ => True

instance (c : Connected) (a : ConnectedAct) : Decidable (SetsApart c a) := by
  cases a <;> dsimp only [SetsApart] <;> infer_instance

/-! ### Sessions keep their transport -/

/-- A session there is now has the transport it had, if it is not new. -/
structure SameTransports (st st' : Streams) : Prop where
  size : st.heap.length ≤ st'.heap.length
  back : ∀ s < st.heap.length, ∀ r', st'.session s = some r' →
    ∃ r, st.session s = some r ∧ r.transport = r'.transport

namespace SameTransports

variable {st st' st'' : Streams}

theorem of_heap (h : st'.heap = st.heap) : SameTransports st st' where
  size := by rw [h]
  back := by
    intro s _ r' hr
    refine ⟨r', ?_, rfl⟩
    unfold Streams.session at hr ⊢
    rw [← h]
    exact hr

theorem refl (st : Streams) : SameTransports st st := of_heap rfl

theorem trans (h : SameTransports st st') (h' : SameTransports st' st'') :
    SameTransports st st'' where
  size := h.size.trans h'.size
  back := by
    intro s hs r'' hr
    obtain ⟨r', hr', ht'⟩ := h'.back s (hs.trans_le h.size) r'' hr
    obtain ⟨r, hr, ht⟩ := h.back s hs r' hr'
    exact ⟨r, hr, ht.trans ht'⟩

theorem setSession {s : ℕ} {r : RTPSession} {x : Option RTPSession} (hr : st.session s = some r)
    (hx : ∀ r' ∈ x, r.transport = r'.transport) : SameTransports st (st.setSession s x) where
  size := by simp [Streams.setSession]
  back := by
    intro t _ r' hr'
    rw [Streams.session_setSession (Streams.lt_of_session hr)] at hr'
    split at hr'
    · rename_i ht
      exact ⟨r, ht ▸ hr, hx r' hr'⟩
    · exact ⟨r', hr', rfl⟩

theorem stopped {s : ℕ} {r : RTPSession} (hr : st.session s = some r) (stop : Bool) :
    SameTransports st (st.stopped s r stop) := by
  cases stop with
  | false => exact .refl st
  | true => exact setSession hr fun r' h => by cases h; rfl

theorem destroy {s : ℕ} {r : RTPSession} (hr : st.session s = some r)
    (h : st.RTP_session_destroy s r = some st') : SameTransports st st' := by
  obtain ⟨st₁, st₂, b, n, hclose, hunref, -, -, rfl⟩ := Streams.destroy_cases h
  obtain ⟨portPool, sds, closed, rfl⟩ := Streams.close_cases hclose
  obtain ⟨-, buffers, rfl, -⟩ := Streams.unref_cases hunref
  have hgone : SameTransports st (st.setSession s none) := setSession hr fun r' h => by cases h
  refine hgone.trans (of_heap ?_)
  split <;> rfl

theorem tick {turn : Turn} (h : st.schedule_do turn = some st') : SameTransports st st' := by
  rcases Streams.tick_cases h with ⟨position, rfl⟩ | ⟨i, t, -, hv, rfl⟩
  · exact of_heap rfl
  · have ht : SameTransports st t := by
      cases hv with
      | idle => exact .refl st
      | sent s r _ _ hr _ _ stop => exact stopped hr stop
      | switched s r _ _ hr _ m _ stop =>
        have hr' : (st.stream_switch s r m).session s = some { r with currentMedia := m } := by
          rw [Streams.session_switch hr, if_pos rfl]
        have hmedia : SameTransports st (st.setMedia m
            { st.media m with pktBuffer := (st.media r.currentMedia).pktBuffer }) := of_heap rfl
        have hswitch : SameTransports st (st.stream_switch s r m) :=
          hmedia.trans (setSession hr fun r' h => by cases h; rfl)
        exact hswitch.trans (stopped hr' stop)
      | destroyed s r _ _ hr _ t hd => exact .trans (destroy hr hd) (of_heap rfl)
    exact ht.trans (of_heap rfl)

theorem channels {l : List ℕ} (h : SameTransports st st') (hl : ∀ s ∈ l, s < st.heap.length) :
    (Rtsp.channels st' l).Sublist (Rtsp.channels st l) := by
  refine List.Sublist.flatMap_right l fun s hs => ?_
  cases hr' : st'.session s with
  | none => exact List.nil_sublist _
  | some r' =>
    obtain ⟨r, hr, ht⟩ := h.back s (hl s hs) r' hr'
    rw [hr]
    simp [sessionChannels, ht]

end SameTransports

theorem ChannelsDistinct.sublist {st st' : Streams} {l l' : List ℕ} (h : ChannelsDistinct st l)
    (hs : (channels st' l').Sublist (channels st l)) : ChannelsDistinct st' l' where
  nodup := h.nodup.sublist hs
  low := fun x hx => h.low x (hs.subset hx)

/-! ### The channels of a new session -/

theorem maxInterleaved_next {st : Streams} {list : List ℕ} {highest : ℤ}
    (h : (maxInterleaved st list).run = some (.ok highest)) : highest + 1 = nextChannel st list := by
  induction list generalizing highest with
  | nil =>
    cases h
    rfl
  | cons s rest ih =>
    unfold maxInterleaved at h
    unfold nextChannel
    cases hr : st.session s with
    | none =>
      rw [hr] at h
      cases h
    | some r =>
      rw [hr] at h
      obtain ⟨n, hn, h⟩ := bind_ok h
      cases h
      have hnext := ih hn
      dsimp only
      split <;> push_cast <;> omega

theorem interleavedChannels_ok {st : Streams} {list : List ℕ} {tkn : Bytes} {rtp rtcp : ℕ}
    (h : (interleavedChannels st list tkn).run = some (.ok (rtp, rtcp)))
    (hnext : nextChannel st list ≤ 256) : rtp ≤ 255 ∧ rtcp ≤ 255 ∧
      match askedChannels tkn with
      | some p => p = (rtp, rtcp)
      | none => rtp = nextChannel st list ∧ rtcp = nextChannel st list + 1 := by
  unfold interleavedChannels at h
  unfold askedChannels
  cases hp : strstr tkn (lit "interleaved") with
  | some p =>
    rw [hp] at h
    rw [Option.bind_some]
    dsimp only at h
    cases hq : strchr p 61 with
    | none =>
      rw [hq] at h
      cases h
    | some q =>
      rw [hq] at h
      rw [Option.map_some]
      dsimp only at h
      split_ifs at h with hle
      · cases h
      · cases h
        push Not at hle
        exact ⟨hle.1, hle.2, rfl⟩
  | none =>
    rw [hp] at h
    obtain ⟨highest, hmax, h⟩ := bind_ok h
    have hhighest := maxInterleaved_next hmax
    dsimp only at h
    split_ifs at h with hle
    · cases h
    · cases h
      push Not at hle
      refine ⟨hle.1, hle.2, ?_, ?_⟩ <;> omega

/-- A transport is chosen: the heap stays, and an interleaved one has the two channels. -/
theorem chooseTransport_channels {w : World} {rtsp : RTSPBuffer} {st : Streams} {d m : ℕ}
    {tkns : List Bytes} {c : Chosen}
    (h : (chooseTransport w rtsp st d m tkns).run = some (.ok c)) : c.st.heap = st.heap ∧
      (c.transport.type = .avpTcp → ∃ tkn,
        firstOffer (st.descr d).flMulticast tkns = some (.tcp, tkn) ∧
        (interleavedChannels st rtsp.sessions tkn).run =
          some (.ok (c.transport.interleavedRTP, c.transport.interleavedRTCP))) := by
  obtain ⟨o, tkn, ho, htook⟩ := chooseTransport_took h
  obtain ⟨portPool, sds, hst⟩ := htook.frame
  refine ⟨by rw [hst], fun htcp => ?_⟩
  cases htook with
  | unicast ser port type =>
    rw [type] at htcp
    cases htcp
  | multicast eq =>
    rw [eq] at htcp
    unfold chooseMulticast at htcp
    dsimp only at htcp
    split at htcp <;> cases htcp
  | tcp =>
    refine ⟨tkn, ho, ?_⟩
    unfold chooseTransport at h
    rw [ho] at h
    obtain ⟨⟨rtp, rtcp⟩, hchannels, h⟩ := bind_ok h
    dsimp only at h
    split at h
    · cases h
      exact hchannels
    · cases h

theorem channels_append (st : Streams) (l : List ℕ) (s : ℕ) {r : RTPSession}
    (h : st.session s = some r) : channels st (l ++ [s]) = channels st l ++ sessionChannels r := by
  unfold channels
  rw [List.flatMap_append, List.flatMap_singleton, h]
  rfl

theorem ChannelsDistinct.append {st st' : Streams} {l : List ℕ} {s : ℕ} {r : RTPSession}
    (h : ChannelsDistinct st l) (hsub : (channels st' l).Sublist (channels st l))
    (hr : st'.session s = some r)
    (hnew : r.transport.type = .avpTcp →
      r.transport.interleavedRTP ≤ 255 ∧ r.transport.interleavedRTCP ≤ 255 ∧
      r.transport.interleavedRTP ≠ r.transport.interleavedRTCP ∧
      r.transport.interleavedRTP ∉ channels st l ∧ r.transport.interleavedRTCP ∉ channels st l) :
    ChannelsDistinct st' (l ++ [s]) := by
  have hold := h.sublist hsub
  constructor
  · rw [channels_append st' l s hr]
    refine hold.nodup.append ?_ ?_
    · unfold sessionChannels
      split
      · rename_i ht
        simpa using (hnew ht).2.2.1
      · exact List.nodup_nil
    · intro x hx hxr
      unfold sessionChannels at hxr
      split at hxr
      · rename_i ht
        obtain ⟨-, -, -, hrtp, hrtcp⟩ := hnew ht
        rcases List.mem_pair.mp hxr with rfl | rfl
        · exact hrtp (hsub.subset hx)
        · exact hrtcp (hsub.subset hx)
      · cases hxr
  · rw [channels_append st' l s hr]
    intro x hx
    rcases List.mem_append.mp hx with hx | hx
    · exact hold.low x hx
    · unfold sessionChannels at hx
      split at hx
      · rename_i ht
        obtain ⟨hrtp, hrtcp, -⟩ := hnew ht
        rcases List.mem_pair.mp hx with rfl | rfl
        · exact hrtp
        · exact hrtcp
      · cases hx

/-! ### The steps -/

/-- The sessions listed exist, and their channels are distinct. -/
structure ChannelInv (c : Connected) : Prop where
  listed : ∀ s ∈ c.rtsp.sessions, s < c.st.heap.length
  distinct : ChannelsDistinct c.st c.rtsp.sessions

theorem ChannelInv.kept {c c' : Connected} (h : ChannelInv c)
    (hl : c'.rtsp.sessions.Sublist c.rtsp.sessions) (hst : SameTransports c.st c'.st) :
    ChannelInv c' where
  listed := fun s hs => (h.listed s (hl.subset hs)).trans_le hst.size
  distinct := by
    have hback := hst.channels fun s hs => h.listed s (hl.subset hs)
    exact h.distinct.sublist (hback.trans (hl.flatMap _))

theorem ChannelInv.appended {c c' : Connected} {s : ℕ} {r : RTPSession} (h : ChannelInv c)
    (hl : c'.rtsp.sessions = c.rtsp.sessions ++ [s]) (hst : SameTransports c.st c'.st)
    (hr : c'.st.session s = some r)
    (hnew : r.transport.type = .avpTcp →
      r.transport.interleavedRTP ≤ 255 ∧ r.transport.interleavedRTCP ≤ 255 ∧
      r.transport.interleavedRTP ≠ r.transport.interleavedRTCP ∧
      r.transport.interleavedRTP ∉ channels c.st c.rtsp.sessions ∧
      r.transport.interleavedRTCP ∉ channels c.st c.rtsp.sessions) : ChannelInv c' where
  listed := by
    intro t ht
    rw [hl] at ht
    rcases List.mem_append.mp ht with ht | ht
    · exact (h.listed t ht).trans_le hst.size
    · rw [List.mem_singleton.mp ht]
      exact Streams.lt_of_session hr
  distinct := by
    rw [hl]
    exact h.distinct.append (hst.channels h.listed) hr hnew

theorem nextChannel_le {st : Streams} {list : List ℕ} (h : ChannelsDistinct st list) :
    nextChannel st list ≤ 256 := by
  have hlow : ∀ l : List ℕ, (∀ x ∈ channels st l, x ≤ 255) → nextChannel st l ≤ 256 := by
    intro l
    induction l with
    | nil => exact fun _ => Nat.zero_le _
    | cons s rest ih =>
      intro hl
      unfold nextChannel
      refine max_le ?_ (ih fun x hx => hl x ?_)
      · cases hr : st.session s with
        | none => exact Nat.zero_le _
        | some r =>
          dsimp only
          split
          · rename_i ht
            have := hl r.transport.interleavedRTCP (by simp [channels, hr, sessionChannels, ht])
            omega
          · exact Nat.zero_le _
      · unfold channels at hx ⊢
        rw [List.flatMap_cons]
        exact List.mem_append_right _ hx
  exact hlow list h.low

theorem enum_media_heap (st : Streams) (object : Bytes) (found : ParsedSD) :
    (enum_media st object found).2.heap = st.heap := by
  unfold enum_media
  cases found <;> rfl

/-- What SETUP does from the choice of a transport on, when the setting is one that keeps the
channels apart. -/
theorem ChannelInv.setupFrom {w : World} {inp : Bytes} {rtsp rtsp' : RTSPBuffer}
    {object : Bytes} {d m : ℕ} {tkns : List Bytes} {st st' : Streams} {rc : ℤ}
    (h : ChannelInv ⟨rtsp, st⟩)
    (hg : ∀ tkn, firstOffer (st.descr d).flMulticast tkns = some (.tcp, tkn) →
      ChannelsApart st rtsp.sessions tkn)
    (ho : setupFrom w inp rtsp object d m tkns st = some (rc, rtsp', st')) :
    ChannelInv ⟨rtsp', st'⟩ := by
  rcases setupFrom_cases ho with ⟨r, -, -, rfl, rfl⟩ | ⟨c, hc, hfin⟩
  · refine h.kept ?_ (.refl _)
    rw [send_reply_sessions]
  obtain ⟨hheap, hchosen⟩ := chooseTransport_channels hc
  have hgrown : ∀ (u : Streams) (x : Option RTPSession),
      u.heap = c.st.heap ++ [none] → SameTransports st (u.setSession c.st.heap.length x) ∧
        (u.setSession c.st.heap.length x).session c.st.heap.length = x := by
    intro u x hu
    have hset : (u.setSession c.st.heap.length x).heap =
        (st.heap ++ [none]).set st.heap.length x := by
      unfold Streams.setSession
      rw [hu, hheap]
    have hsession := Streams.session_new hset
    refine ⟨⟨?_, fun s hs r' hr' => ?_⟩, ?_⟩
    · rw [hset]
      simp
    · rw [hsession, if_neg hs.ne] at hr'
      exact ⟨r', hr', rfl⟩
    · rw [hsession, if_pos (by rw [hheap])]
  have hlonger : ∀ rtsp₁ : RTSPBuffer, ∀ id, rtsp₁.sessionList =
      some { longer rtsp c.st.heap.length with sessionId := id } →
        rtsp₁.sessions = rtsp.sessions ++ [c.st.heap.length] := by
    intro rtsp₁ id hl
    unfold RTSPBuffer.sessions
    rw [hl]
    unfold longer RTSPBuffer.rtspSession
    cases rtsp.sessionList <;> rfl
  cases hfin with
  | noSession =>
    refine h.kept ?_ (.of_heap hheap)
    rw [send_reply_sessions]
    exact List.Sublist.refl _
  | notCopied id _ out st₂ hcopy =>
    obtain ⟨entries, buffers, rfl⟩ := copyMedia_frame hcopy
    obtain ⟨hsame, hnew⟩ := hgrown { c.st with
      heap := c.st.heap ++ [none], entries := entries, buffers := buffers }
      (some (halfSession object out)) rfl
    exact h.appended (hlonger _ (longer rtsp c.st.heap.length).sessionId rfl) hsame hnew
      fun ht => by cases ht
  | entered sessionId _ out st₂ hcopy id st₃ ha rtsp₂ hr =>
    obtain ⟨entries, buffers, rfl⟩ := copyMedia_frame hcopy
    have hadd : st₃.heap = c.st.heap ++ [none] := by
      rcases Streams.add_cases { c.st with
          heap := c.st.heap ++ [none], entries := entries, buffers := buffers }
          c.st.heap.length c.dad with ⟨j, -, he⟩ | ⟨-, he⟩
      · rw [ha] at he
        cases he
        rfl
      · rw [ha] at he
        cases he
        rfl
    obtain ⟨hsame, hnew⟩ := hgrown st₃ (some (fullSession w object d out c id)) hadd
    have hsent := send_eq_some hr
    refine h.appended (hlonger _ sessionId (by rw [hsent])) hsame hnew fun ht => ?_
    obtain ⟨tkn, htkn, hchannels⟩ := hchosen ht
    obtain ⟨hrtp, hrtcp, hwhich⟩ := interleavedChannels_ok hchannels (nextChannel_le h.distinct)
    have hapart := hg tkn htkn
    unfold ChannelsApart at hapart
    refine ⟨hrtp, hrtcp, ?_⟩
    cases hasked : askedChannels tkn with
    | some p =>
      rw [hasked] at hapart hwhich
      subst hwhich
      exact hapart
    | none =>
      rw [hasked] at hapart hwhich
      refine ⟨?_, ?_, ?_⟩
      · change c.transport.interleavedRTP ≠ c.transport.interleavedRTCP
        omega
      · change c.transport.interleavedRTP ∉ _
        rw [hwhich.1]
        exact hapart.1
      · change c.transport.interleavedRTCP ∉ _
        rw [hwhich.2]
        exact hapart.2

theorem ChannelInv.setup {w : World} {inp : Bytes} {rtsp : RTSPBuffer} {st : Streams}
    {out : ℤ × RTSPBuffer × Streams} (h : ChannelInv ⟨rtsp, st⟩)
    (hg : ∀ tkn ∈ tcpSetting w inp st, ChannelsApart st rtsp.sessions tkn)
    (ho : RTSP_setup w inp rtsp st = some out) : ChannelInv ⟨out.2.1, out.2.2⟩ := by
  have hsame : ∀ (rtsp' : RTSPBuffer) (st' : Streams), rtsp'.sessions = rtsp.sessions →
      st'.heap = st.heap → ChannelInv ⟨rtsp', st'⟩ := by
    intro rtsp' st' hl hst
    refine h.kept ?_ (.of_heap hst)
    rw [hl]
  unfold RTSP_setup at ho
  rcases check_eq_some.mp ho with ⟨r, -, rfl⟩ | ⟨⟨object, filename⟩, hurl, ho⟩
  · exact hsame _ _ (send_reply_sessions _ _) rfl
  have hheap := enum_media_heap st object w.file
  dsimp only at ho
  split at ho
  · rename_i st₁ he
    cases ho
    rw [he] at hheap
    exact hsame _ _ (send_reply_sessions _ _) hheap
  rename_i d st₁ he
  rw [he] at hheap
  rcases check_eq_some.mp ho with ⟨r, -, rfl⟩ | ⟨m, -, ho⟩
  · exact hsame _ _ (send_reply_sessions _ _) hheap
  rcases check_eq_some.mp ho with ⟨r, -, rfl⟩ | ⟨n, -, ho⟩
  · exact hsame _ _ (send_reply_sessions _ _) hheap
  rcases check_eq_some.mp ho with ⟨r, -, rfl⟩ | ⟨tkns, htokens, ho⟩
  · exact hsame _ _ (send_reply_sessions _ _) hheap
  split at ho
  · cases ho
    exact hsame _ _ (send_reply_sessions _ _) hheap
  have hchannels : channels st₁ rtsp.sessions = channels st rtsp.sessions ∧
      nextChannel st₁ rtsp.sessions = nextChannel st rtsp.sessions := by
    have hsession : st₁.session = st.session := by
      funext s
      unfold Streams.session
      rw [hheap]
    have hnext : ∀ l, nextChannel st₁ l = nextChannel st l := by
      intro l
      induction l with
      | nil => rfl
      | cons s rest ih =>
        unfold nextChannel
        rw [hsession, ih]
    exact ⟨by unfold channels; rw [hsession], hnext _⟩
  refine ChannelInv.setupFrom (hsame { rtsp with rtspCseq := n } st₁ rfl hheap) ?_ ho
  intro tkn htkn
  have hset : tkn ∈ tcpSetting w inp st := by
    unfold tcpSetting
    rw [hurl]
    dsimp only
    rw [he]
    dsimp only
    rw [htokens]
    dsimp only
    rw [htkn]
    rfl
  have hapart := hg tkn hset
  unfold ChannelsApart at hapart ⊢
  rw [show RTSPBuffer.sessions { rtsp with rtspCseq := n } = rtsp.sessions from rfl,
    hchannels.1, hchannels.2]
  exact hapart

theorem teardownLoop_kept {filename : Bytes} {l left : List ℕ} {st st' : Streams}
    (h : teardownLoop filename l st = some (left, st')) :
    left.Sublist l ∧ st'.heap = st.heap := by
  induction l generalizing left st with
  | nil =>
    cases h
    exact ⟨List.Sublist.refl _, rfl⟩
  | cons s rest ih =>
    obtain ⟨r, -, h⟩ := Option.bind_eq_some_iff.mp h
    dsimp only at h
    split at h
    · obtain ⟨st₁, hremove, h⟩ := Option.bind_eq_some_iff.mp h
      obtain ⟨hsub, hheap⟩ := ih h
      refine ⟨hsub.cons s, hheap.trans ?_⟩
      obtain ⟨i, -, ⟨t, -, rfl⟩ | ⟨-, rfl⟩⟩ := Streams.remove_cases hremove <;> rfl
    · obtain ⟨⟨left', st₁⟩, hloop, he⟩ := Option.map_eq_some_iff.mp h
      cases he
      obtain ⟨hsub, hheap⟩ := ih hloop
      exact ⟨hsub.cons_cons s, hheap⟩

theorem ChannelInv.teardown {w : World} {inp : Bytes} {rtsp : RTSPBuffer} {st : Streams}
    {out : ℤ × RTSPBuffer × Streams} (h : ChannelInv ⟨rtsp, st⟩)
    (ho : RTSP_teardown w inp rtsp st = some out) : ChannelInv ⟨out.2.1, out.2.2⟩ := by
  have hsame : ∀ rtsp' : RTSPBuffer, rtsp'.sessions = rtsp.sessions →
      ChannelInv ⟨rtsp', st⟩ := by
    intro rtsp' hl
    refine h.kept ?_ (.refl st)
    rw [hl]
  unfold RTSP_teardown at ho
  rcases check_eq_some.mp ho with ⟨r, -, rfl⟩ | ⟨n, -, ho⟩
  · exact hsame _ (send_reply_sessions _ _)
  rcases check_eq_some.mp ho with ⟨r, -, rfl⟩ | ⟨req, -, ho⟩
  · exact hsame _ (send_reply_sessions _ _)
  rcases check_eq_some.mp ho with ⟨r, -, rfl⟩ | ⟨session, hsession, ho⟩
  · exact hsame _ (send_reply_sessions _ _)
  obtain ⟨rtsp₁, -, ho⟩ := Option.bind_eq_some_iff.mp ho
  obtain ⟨_, -, ho⟩ := Option.bind_eq_some_iff.mp ho
  obtain ⟨⟨left, st'⟩, hloop, rfl⟩ := Option.map_eq_some_iff.mp ho
  obtain ⟨hsub, hheap⟩ := teardownLoop_kept hloop
  have hlist : rtsp.sessions = session.rtpSession := by
    have hl : rtsp.sessionList = some session := (sameSession_ok hsession).1
    unfold RTSPBuffer.sessions
    rw [hl]
  refine h.kept ?_ (.of_heap hheap)
  rw [show RTSPBuffer.sessions (Connected.mk rtsp st).rtsp = session.rtpSession from hlist]
  refine List.Sublist.trans ?_ hsub
  unfold RTSPBuffer.sessions
  dsimp only
  split
  · rename_i q hq
    split at hq
    · cases hq
    · cases hq
      exact List.Sublist.refl _
  · exact List.nil_sublist _

theorem ChannelInv.step {c c' : Connected} {a : ConnectedAct} (h : ChannelInv c)
    (hg : SetsApart c a) (hs : connectedStep c a = some c') : ChannelInv c' := by
  cases a with
  | setup w inp =>
    obtain ⟨out, ho, rfl⟩ := Option.map_eq_some_iff.mp hs
    exact ChannelInv.setup h hg ho
  | teardown w inp =>
    obtain ⟨out, ho, rfl⟩ := Option.map_eq_some_iff.mp hs
    exact ChannelInv.teardown h ho
  | tick turn =>
    obtain ⟨st, ht, rfl⟩ := Option.map_eq_some_iff.mp hs
    exact h.kept (List.Sublist.refl _) (.tick ht)

/-- A new connection to a server in any state. -/
def Connected.start (st : Streams) : Connected := ⟨RTSP_initserver, st⟩

theorem ChannelInv.start (st : Streams) : ChannelInv (Connected.start st) :=
  ⟨fun _ hs => (by cases hs), List.nodup_nil, fun _ hx => (by cases hx)⟩

/-- In a run in which every SETUP of an interleaved session keeps its channels apart from those
in use, all channels of the connection are different and fit into a byte. -/
theorem channels_distinct {st : Streams} {as : List ConnectedAct} {c : Connected}
    (h : GuardedRun connectedStep SetsApart (Connected.start st) as c) :
    ChannelsDistinct c.st c.rtsp.sessions :=
  (h.invariant (fun _ _ _ hi hg hs => ChannelInv.step hi hg hs) (ChannelInv.start st)).distinct

/-! ### Runs of two SETUPs -/

/-- The film is on the disk, and local sockets can be made. -/
def tcpWorld : World :=
  { file := .parsed film, rtpSocketpair := some (10, 11), rtcpSocketpair := some (12, 13) }

def tcpSetup (cseq : ℕ) (stream transport : String) : ConnectedAct :=
  .setup tcpWorld (message "SETUP" ("rtsp://localhost/film.sd!" ++ stream) cseq
    ["Transport: RTP/AVP/TCP" ++ transport])

/-- The picture is set up with channels the client asks for, then the sound without. -/
def tcpRun (channels : String) : List ConnectedAct :=
  [tcpSetup 1 "v.mpg" (";interleaved=" ++ channels), tcpSetup 2 "a.mp3" ""]

/-- The connection that a run leads to. -/
def connected (as : List ConnectedAct) : Connected :=
  (exec connectedStep (Connected.start (Streams.init rtpDefaultPort)) as).getD
    (Connected.start (Streams.init rtpDefaultPort))

theorem exec_connected {as : List ConnectedAct}
    (h : (exec connectedStep (Connected.start (Streams.init rtpDefaultPort)) as).isSome = true) :
    exec connectedStep (Connected.start (Streams.init rtpDefaultPort)) as = some (connected as) := by
  obtain ⟨c, hc⟩ := Option.isSome_iff_exists.mp h
  rw [connected, hc]
  rfl

theorem channels_distinct_next : ∃ c,
    exec connectedStep (Connected.start (Streams.init rtpDefaultPort)) (tcpRun "4-5") = some c ∧
      channels c.st c.rtsp.sessions = [4, 5, 6, 7] ∧ ChannelsDistinct c.st c.rtsp.sessions := by
  have hrun : allowed connectedStep SetsApart (Connected.start (Streams.init rtpDefaultPort))
      (tcpRun "4-5") = true := by
    decide +kernel
  have he := @exec_connected (tcpRun "4-5") (by decide +kernel)
  exact ⟨_, he, by decide +kernel, channels_distinct (.of_allowed hrun he)⟩

/-- The client puts the RTCP channel below the other one, and the server takes the two above. -/
theorem next_channel_in_use :
    ¬ ∀ (as : List ConnectedAct) (st : Streams) (c : Connected),
      exec connectedStep (Connected.start st) as = some c →
        ChannelsDistinct c.st c.rtsp.sessions := by
  intro h
  have hd := (h (tcpRun "1-0") _ _ (exec_connected (by decide +kernel))).nodup
  exact absurd hd (by decide +kernel)

end Fenice.Rtsp
