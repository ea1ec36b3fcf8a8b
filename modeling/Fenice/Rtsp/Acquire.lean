import Fenice.Rtsp.Calls

/-!
# What SETUP acquires

The part of `RTSP_setup` from the choice of a transport on takes a pair of ports
or local sockets, then allocates the RTP session and its medium, copies the medium
and enters the session into the schedule. It may end after each of them.
-/

namespace Fenice.Rtsp
open Fenice.CString Fenice.Schedule

/-! ### The transport -/

/-- What has been taken once a transport is chosen. -/
inductive Took (w : World) (rtsp : RTSPBuffer) (st : Streams) (d m : ℕ) (c : Chosen) :
    Offer → Prop
  | unicast (ser : PortPair) (port : st.RTP_get_port_pair = some (ser, c.st))
      (type : c.transport.type = .avp) (pair : c.transport.serPorts = ser)
      (single : c.transport.isMulticast = false) (dad : c.dad = true)
      (interleaved : c.interleaved = rtsp.interleaved) : Took w rtsp st d m c .unicast
  | multicast (eq : c = chooseMulticast w rtsp st d m) : Took w rtsp st d m c .multicast
  | tcp (same : c.st = st) (type : c.transport.type = .avpTcp) (dad : c.dad = true)
      (i : RTSPInterleaved) (interleaved : c.interleaved = i :: rtsp.interleaved) :
      Took w rtsp st d m c .tcp

theorem bind_ok {α β : Type} {x : Checks α} {k : α → Checks β} {b : β}
    (h : (x >>= k).run = some (.ok b)) : ∃ a, x.run = some (.ok a) ∧ (k a).run = some (.ok b) := by
  rw [ExceptT.run_bind] at h
  obtain ⟨r, hr, h⟩ := Option.bind_eq_some_iff.mp h
  cases r with
  | error e => cases h
  | ok a => exact ⟨a, hr, h⟩

theorem chooseUnicast_took {w : World} {rtsp : RTSPBuffer} {st : Streams} {d m : ℕ} {tkn : Bytes}
    {c : Chosen} (h : (chooseUnicast w rtsp st tkn).run = some (.ok c)) :
    Took w rtsp st d m c .unicast := by
  obtain ⟨cli, -, h⟩ := bind_ok h
  cases hp : st.RTP_get_port_pair with
  | none =>
    rw [hp] at h
    cases h
  | some p =>
    rw [hp] at h
    cases h
    exact .unicast p.1 hp rfl rfl rfl rfl rfl

theorem chooseTcp_took {w : World} {rtsp : RTSPBuffer} {st : Streams} {d m : ℕ} {tkn : Bytes}
    {c : Chosen} (h : (chooseTcp w rtsp st tkn).run = some (.ok c)) :
    Took w rtsp st d m c .tcp := by
  obtain ⟨⟨rtp, rtcp⟩, -, h⟩ := bind_ok h
  dsimp only at h
  split at h
  · cases h
    exact .tcp rfl rfl rfl _ rfl
  · cases h

theorem chooseTransport_took {w : World} {rtsp : RTSPBuffer} {st : Streams} {d m : ℕ}
    {tkns : List Bytes} {c : Chosen}
    (h : (chooseTransport w rtsp st d m tkns).run = some (.ok c)) :
    ∃ o tkn, firstOffer (st.descr d).flMulticast tkns = some (o, tkn) ∧ Took w rtsp st d m c o := by
  unfold chooseTransport at h
  split at h
  · cases h
  · rename_i tkn he
    exact ⟨.unicast, tkn, he, chooseUnicast_took h⟩
  · rename_i tkn he
    cases h
    exact ⟨.multicast, tkn, he, .multicast rfl⟩
  · rename_i tkn he
    exact ⟨.tcp, tkn, he, chooseTcp_took h⟩

/-- The transport has no effect on the media, the schedule or the RTP sessions. -/
theorem Took.keeps {w : World} {rtsp : RTSPBuffer} {st : Streams} {d m : ℕ} {c : Chosen} {o : Offer}
    (h : Took w rtsp st d m c o) : c.st.entries = st.entries ∧
    c.st.heap = st.heap ∧ c.st.sched = st.sched ∧ c.st.clientCount = st.clientCount ∧
      c.st.log = st.log := by
  cases h with
  | unicast ser port =>
    obtain ⟨i, -, he⟩ := Option.map_eq_some_iff.mp port
    obtain ⟨-, hst⟩ := Prod.mk.inj he
    rw [← hst]
    exact ⟨rfl, rfl, rfl, rfl, rfl⟩
  | tcp same =>
    rw [same]
    exact ⟨rfl, rfl, rfl, rfl, rfl⟩
  | multicast he =>
    rw [he, chooseMulticast]
    dsimp only
    split_ifs <;> exact ⟨rfl, rfl, rfl, rfl, rfl⟩

/-! ### The RTP session -/

/-- A new RTP session and a new entry for its medium. -/
def alloc (st : Streams) : Streams :=
  { st with heap := st.heap ++ [none], entries := st.entries ++ [{}] }

/-- `current_media` of the new session, and whether `mediacpy` was successful. -/
def copyMedia (w : World) (m : ℕ) (c : Chosen) : ℕ × Bool × Streams :=
  if c.dad then mediacpy (alloc c.st) c.st.entries.length m w.shmMap
  else (c.st.entries.length, true, alloc c.st)

/-- The session when `mediacpy` fails. -/
def halfSession (object : Bytes) (out : ℕ) : RTPSession :=
  { pause := true, sdFilename := object, currentMedia := out }

/-- The session when the reply is sent. -/
def fullSession (w : World) (object : Bytes) (d out : ℕ) (c : Chosen) (id : ℤ) : RTPSession :=
  { halfSession object out with
    startRtptime := w.startRtptime, startSeq := w.startSeq
    transport := c.transport, isMulticastDad := c.dad, sdDescr := d, schedId := id, ssrc := w.ssrc }

/-- The session list with the new session at its end. -/
def longer (rtsp : RTSPBuffer) (s : ℕ) : RTSPSession :=
  { rtsp.rtspSession with rtpSession := rtsp.rtspSession.rtpSession ++ [s] }

/-- The three ways `finishSetup` may end. -/
inductive Finished (w : World) (inp : Bytes) (rtsp : RTSPBuffer) (object : Bytes) (d m : ℕ)
    (c : Chosen) : ℤ → RTSPBuffer → Streams → Prop
  | noSession (r : Rejection) (hs : (setupSession w inp).run = some (.error r)) :
      Finished w inp rtsp object d m c r.rc
        (send_reply r.status { rtsp with interleaved := c.interleaved }) c.st
  | notCopied (id : ℤ) (hs : (setupSession w inp).run = some (.ok id)) (out : ℕ) (st : Streams)
      (hc : copyMedia w m c = (out, false, st)) :
      Finished w inp rtsp object d m c errGeneric
        (send_reply 500 { rtsp with
          interleaved := c.interleaved
          sessionList := some (longer rtsp c.st.heap.length) })
        (st.setSession c.st.heap.length (some (halfSession object out)))
  | entered (sessionId : ℤ) (hs : (setupSession w inp).run = some (.ok sessionId)) (out : ℕ)
      (st : Streams) (hc : copyMedia w m c = (out, true, st)) (id : ℤ) (st' : Streams)
      (ha : st.schedule_add c.st.heap.length c.dad = (id, st')) (rtsp' : RTSPBuffer)
      (hr : send_setup_reply w { rtsp with
          interleaved := c.interleaved
          sessionList := some { longer rtsp c.st.heap.length with sessionId := sessionId } }
        sessionId (st'.descr d) (fullSession w object d out c id) = some rtsp') :
      Finished w inp rtsp object d m c errNoerror rtsp'
        (st'.setSession c.st.heap.length (some (fullSession w object d out c id)))

/-- What follows `mediacpy`. -/
def enter (w : World) (rtsp : RTSPBuffer) (object : Bytes) (d : ℕ) (c : Chosen) (sessionId : ℤ)
    (out : ℕ) (st : Streams) : Handled :=
  let s := c.st.heap.length
  let (id, st) := st.schedule_add s c.dad
  let rtsp :=
    { rtsp with
      interleaved := c.interleaved
      sessionList := some { longer rtsp s with sessionId := sessionId } }
  (send_setup_reply w rtsp sessionId (st.descr d) (fullSession w object d out c id)).map
    fun rtsp => (errNoerror, rtsp, st.setSession s (some (fullSession w object d out c id)))

theorem finishSetup_eq (w : World) (inp : Bytes) (rtsp : RTSPBuffer) (object : Bytes) (d m : ℕ)
    (c : Chosen) : finishSetup w inp rtsp object d m c =
      check { rtsp with interleaved := c.interleaved } c.st (setupSession w inp) fun sessionId =>
        if (copyMedia w m c).2.1 = false then
          some (errGeneric,
            send_reply 500 { rtsp with
              interleaved := c.interleaved
              sessionList := some (longer rtsp c.st.heap.length) },
            (copyMedia w m c).2.2.setSession c.st.heap.length
              (some (halfSession object (copyMedia w m c).1)))
        else enter w rtsp object d c sessionId (copyMedia w m c).1 (copyMedia w m c).2.2 := by
  unfold finishSetup
  rfl

theorem finishSetup_finished {w : World} {inp : Bytes} {rtsp rtsp' : RTSPBuffer} {object : Bytes}
    {d m : ℕ} {c : Chosen} {rc : ℤ} {st' : Streams}
    (h : finishSetup w inp rtsp object d m c = some (rc, rtsp', st')) :
    Finished w inp rtsp object d m c rc rtsp' st' := by
  rw [finishSetup_eq] at h
  rcases check_eq_some.mp h with ⟨r, hr, he⟩ | ⟨sessionId, hs, h⟩
  · simp only [Prod.mk.injEq] at he
    obtain ⟨rfl, rfl, rfl⟩ := he
    exact .noSession r hr
  · obtain ⟨out, copied, st, hc⟩ : ∃ out copied st, copyMedia w m c = (out, copied, st) :=
      ⟨_, _, _, rfl⟩
    rw [hc] at h
    cases copied with
    | false =>
      simp only [if_true, Option.some.injEq, Prod.mk.injEq] at h
      obtain ⟨rfl, rfl, rfl⟩ := h
      exact .notCopied sessionId hs out st hc
    | true =>
      simp only [Bool.true_eq_false, if_false, enter] at h
      obtain ⟨id, st₁, ha⟩ : ∃ id st₁, st.schedule_add c.st.heap.length c.dad = (id, st₁) :=
        ⟨_, _, rfl⟩
      rw [ha] at h
      obtain ⟨rtsp₁, hr, he⟩ := Option.map_eq_some_iff.mp h
      cases he
      exact .entered sessionId hs out st hc id st₁ ha _ hr

theorem setupFrom_cases {w : World} {inp : Bytes} {rtsp rtsp' : RTSPBuffer} {object : Bytes}
    {d m : ℕ} {tkns : List Bytes} {st st' : Streams} {rc : ℤ}
    (h : setupFrom w inp rtsp object d m tkns st = some (rc, rtsp', st')) :
    (∃ r, (chooseTransport w rtsp st d m tkns).run = some (.error r) ∧
        rc = r.rc ∧ rtsp' = send_reply r.status rtsp ∧ st' = st) ∨
      ∃ c, (chooseTransport w rtsp st d m tkns).run = some (.ok c) ∧
        Finished w inp rtsp object d m c rc rtsp' st' := by
  rcases check_eq_some.mp h with ⟨r, hr, he⟩ | ⟨c, hc, h⟩
  · simp only [Prod.mk.injEq] at he
    exact Or.inl ⟨r, hr, he⟩
  · exact Or.inr ⟨c, hc, finishSetup_finished h⟩

end Fenice.Rtsp
