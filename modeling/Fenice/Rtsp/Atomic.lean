import Fenice.Lib.CLine
import Fenice.Rtsp.Accepted
import Fenice.Rtsp.Identity

/-!
# A SETUP that fails

SETUP takes ports or sockets for its transport before it looks at the header `Session`, and does
not give them back when it cannot read it. `RTSP_state_machine` has looked at the same header
before, in an array of 255 bytes.
-/

namespace Fenice.Rtsp
open Fenice.CString Fenice.Schedule Fenice.Run

/-- The connection, the ports, the schedule and the sessions there were are the same. -/
structure Untouched (rtsp rtsp' : RTSPBuffer) (st st' : Streams) : Prop where
  portPool : st'.portPool = st.portPool
  sessionList : rtsp'.sessionList = rtsp.sessionList
  interleaved : rtsp'.interleaved = rtsp.interleaved
  sched : st'.sched = st.sched
  clientCount : st'.clientCount = st.clientCount
  heap : st'.heap = st.heap
  startPort : st'.startPort = st.startPort

/-- With a reply other than 200 everything is as before. -/
def Atomic (rtsp rtsp' : RTSPBuffer) (st st' : Streams) : Prop :=
  ∀ r, rtsp'.out = rtsp.out.bwrite r → r.status ≠ 200 → Untouched rtsp rtsp' st st'

/-- What SETUP checks in front of the header `Session` passes, for the medium `m` of the
presentation `d` and the kind `o` of the first transport that it knows. -/
structure Reaches (w : World) (inp : Bytes) (rtsp : RTSPBuffer) (st : Streams) (d m : ℕ)
    (o : Offer) (st₁ : Streams) : Prop where
  file : ∃ object filename, (setupUrl inp).run = some (.ok (object, filename)) ∧
    enum_media st object w.file = (.ok d, st₁) ∧ (setupMedia st₁ d filename).run = some (.ok m)
  peer : w.getpeername = true
  transport : ∃ n tkns, (requestCseq errNoerror (scanCseq scanAnyWord inp)).run = some (.ok n) ∧
    (transportTokens inp).run = some (.ok tkns) ∧
    (firstOffer (st₁.descr d).flMulticast tkns).map Prod.fst = some o ∧
    passes (chooseTransport w { rtsp with rtspCseq := n } st₁ d m tkns) = true

/-- The word that begins with `Session` does not fit into the array of `RTSP_state_machine`, and
no number follows it. -/
def LongSession (inp : Bytes) : Prop :=
  ∃ p word rest, strstr inp hdrSession = some p ∧ scanAnyWord p = some (word, rest) ∧
    254 < word.length ∧ scanInt rest = none

/-- A transport other than multicast is taken for a request with such a header. -/
def LeavesBehind (w : World) (inp : Bytes) (rtsp : RTSPBuffer) (st : Streams) : Prop :=
  LongSession inp ∧ ∃ d m o st₁, Reaches w inp rtsp st d m o st₁ ∧ o ≠ .multicast

/-- `RTSP_handler` calls `RTSP_setup` for the message, with the sequence number that
`RTSP_validate_method` has found. -/
structure CallsSetup (inp : Bytes) (rtsp : RTSPBuffer) (seq : ℕ) : Prop where
  request : RTSP_valid_response_msg inp = false
  method : RTSP_validate_method inp = some (seq, some .setup)
  session : scanSession inp ≠ some none
  state : ∃ p, rtsp.sessionList = some p ∧ p.curState ≠ .play

theorem CallsSetup.of_cell {inp : Bytes} {rtsp : RTSPBuffer} {m : Method} {p : RTSPSession}
    (hm : messageMethod inp = some m) (hs : scanSession inp ≠ some none)
    (hp : rtsp.sessionList = some p) (hx : (cell p.curState m).handler = some .setup) :
    ∃ seq, CallsSetup inp rtsp seq := by
  have hrequest : RTSP_valid_response_msg inp = false := by
    by_contra hr
    rw [response_method (eq_true_of_ne_false hr)] at hm
    cases hm
  have hstate : p.curState ≠ .play := by
    intro hplay
    rw [hplay] at hx
    cases m <;> cases hx
  obtain ⟨⟨seq, n⟩, hval, hn⟩ := Option.bind_eq_some_iff.mp hm
  have hn : n = some m := hn
  rw [hn, cell_setup hx] at hval
  exact ⟨seq, hrequest, hval, hs, p, hp, hstate⟩

theorem CallsSetup.handled {w : World} {inp : Bytes} {rtsp : RTSPBuffer} {st : Streams} {seq : ℕ}
    (h : CallsSetup inp rtsp seq) : handleMessage w inp rtsp st =
      moveTo .ready (RTSP_setup w inp { rtsp with rtspCseq := seq } st) := by
  obtain ⟨p, hp, hstate⟩ := h.state
  unfold handleMessage
  rw [h.request, if_neg Bool.false_ne_true, h.method]
  dsimp only
  unfold RTSP_state_machine
  rw [if_neg h.session]
  dsimp only
  rw [hp]
  dsimp only
  cases hc : p.curState with
  | init | ready => rfl
  | play => exact absurd hc hstate

theorem setupSession_fails (w : World) {inp : Bytes} (h : scanSession inp ≠ some none) :
    passes (setupSession w inp) = false ↔ LongSession inp := by
  unfold LongSession setupSession
  unfold scanSession at h
  cases hp : strstr inp hdrSession with
  | none => simp [passes, pure, ExceptT.pure, ExceptT.mk, ExceptT.run]
  | some p =>
    rw [hp, Option.map_some] at h
    -- the word is there, in the array or whole
    obtain ⟨⟨head, rest₁⟩, hhead, hlong⟩ : ∃ t, scanWord 254 p = some t ∧ (scanLong t.2).isSome := by
      cases hword : scanWord 254 p with
      | none => simp [hword] at h
      | some t =>
        refine ⟨t, rfl, Option.isSome_iff_ne_none.mpr fun hnone => h ?_⟩
        rw [hword, Option.bind_some, hnone]
    have hne := scanWord_nonBlank hhead
    have hlen : 0 < p.length := by
      obtain ⟨c, hc, -⟩ := hne
      exact List.length_pos_of_mem hc
    obtain ⟨word, rest, hany⟩ := scanWord_of_nonBlank hne hlen
    have hany : scanAnyWord p = some (word, rest) := hany
    -- a word that fits leaves the same behind it
    have hfits : word.length ≤ 254 → scanInt rest ≠ none := by
      intro hle hnone
      have hsame := hhead.symm.trans (scanWord_fits hany hle)
      have hrest : rest₁ = rest := (Prod.mk.inj (Option.some.inj hsame)).2
      have hdigits : strtol (rest.dropWhile isSpace) = none := Option.map_eq_none_iff.mp hnone
      rw [hrest, scanLong, hdigits] at hlong
      cases hlong
    dsimp only
    rw [hany, Option.bind_some]
    dsimp only
    cases hint : scanInt rest with
    | none =>
      refine iff_of_true rfl ⟨p, word, rest, rfl, hany, ?_, hint⟩
      by_contra hle
      exact hfits (not_lt.mp hle) hint
    | some n =>
      refine iff_of_false (fun hpasses => by cases hpasses) ?_
      rintro ⟨p', word', rest', hp', hany', -, hint'⟩
      cases hp'
      rw [hany] at hany'
      cases hany'
      rw [hint] at hint'
      cases hint'

section Setup

variable {w : World} {inp object filename : Bytes} {rtsp rtsp' : RTSPBuffer} {st st' st₁ : Streams}
  {d m : ℕ} {o : Offer} {c : Chosen} {rc : ℤ}

theorem Untouched.refl (rtsp : RTSPBuffer) (st : Streams) : Untouched rtsp rtsp st st :=
  ⟨rfl, rfl, rfl, rfl, rfl, rfl, rfl⟩

theorem Untouched.replied (h : Untouched rtsp rtsp' st st') (status : ℕ) :
    Untouched rtsp (send_reply status rtsp') st st' :=
  ⟨h.portPool, (send_reply_sessionList ..).trans h.sessionList,
    (send_reply_interleaved ..).trans h.interleaved, h.sched, h.clientCount, h.heap, h.startPort⟩

theorem look_untouched (rtsp : RTSPBuffer) (st : Streams) (n : ℕ) (object : Bytes)
    (found : ParsedSD) :
    Untouched rtsp { rtsp with rtspCseq := n } st (enum_media st object found).2 ∧
      (enum_media st object found).2.log = st.log := by
  rw [enum_media]
  cases found <;> exact ⟨⟨rfl, rfl, rfl, rfl, rfl, rfl, rfl⟩, rfl⟩

/-! ### Up to the transport -/

/-- SETUP is refused with everything as it was, or chooses a transport and goes on. -/
inductive Chose (w : World) (inp : Bytes) (rtsp : RTSPBuffer) (st : Streams) :
    ℤ × RTSPBuffer × Streams → Prop
  | refused {out : ℤ × RTSPBuffer × Streams} (same : Untouched rtsp out.2.1 st out.2.2)
      (log : out.2.2.log = st.log) : Chose w inp rtsp st out
  | chosen {out : ℤ × RTSPBuffer × Streams} {d m n : ℕ} {o : Offer} {c : Chosen} {object : Bytes}
      {st₁ : Streams} (reaches : Reaches w inp rtsp st d m o st₁)
      (same : Untouched rtsp { rtsp with rtspCseq := n } st st₁) (log : st₁.log = st.log)
      (took : Took w { rtsp with rtspCseq := n } st₁ d m c o)
      (finish : finishSetup w inp { rtsp with rtspCseq := n } object d m c = some out) :
      Chose w inp rtsp st out

theorem setup_chose {out : ℤ × RTSPBuffer × Streams} (h : RTSP_setup w inp rtsp st = some out) :
    Chose w inp rtsp st out := by
  rw [RTSP_setup] at h
  rcases check_eq_some.mp h with ⟨r, -, rfl⟩ | ⟨⟨object, filename⟩, hurl, h⟩
  · exact .refused ((Untouched.refl rtsp st).replied _) rfl
  have hlook := fun n => look_untouched rtsp st n object w.file
  dsimp only at h
  rcases he : enum_media st object w.file with ⟨_ | d, st₁⟩
  · rw [he] at h hlook
    cases h
    exact .refused ((hlook rtsp.rtspCseq).1.replied _) (hlook rtsp.rtspCseq).2
  rw [he] at h hlook
  dsimp only at h hlook
  rcases check_eq_some.mp h with ⟨r, -, rfl⟩ | ⟨m, hm, h⟩
  · exact .refused ((hlook rtsp.rtspCseq).1.replied _) (hlook rtsp.rtspCseq).2
  rcases check_eq_some.mp h with ⟨r, -, rfl⟩ | ⟨n, hn, h⟩
  · exact .refused ((hlook rtsp.rtspCseq).1.replied _) (hlook rtsp.rtspCseq).2
  rcases check_eq_some.mp h with ⟨r, -, rfl⟩ | ⟨tkns, htkns, h⟩
  · exact .refused ((hlook n).1.replied _) (hlook n).2
  by_cases hpeer : w.getpeername = false
  · rw [if_pos hpeer] at h
    cases h
    exact .refused ((hlook n).1.replied _) (hlook n).2
  rw [if_neg hpeer] at h
  rcases check_eq_some.mp h with ⟨r, -, rfl⟩ | ⟨c, hc, h⟩
  · exact .refused ((hlook n).1.replied _) (hlook n).2
  obtain ⟨o, tkn, hoffer, htook⟩ := chooseTransport_took hc
  refine .chosen ⟨⟨object, filename, hurl, he, hm⟩, eq_true_of_ne_false hpeer, n, tkns, hn, htkns,
    ?_, passes_ok hc⟩ (hlook n).1 (hlook n).2 htook h
  rw [hoffer]
  rfl

theorem Reaches.goes (h : Reaches w inp rtsp st d m o st₁) :
    ∃ n c object, Took w { rtsp with rtspCseq := n } st₁ d m c o ∧
      Untouched rtsp { rtsp with rtspCseq := n } st st₁ ∧
      RTSP_setup w inp rtsp st = finishSetup w inp { rtsp with rtspCseq := n } object d m c := by
  obtain ⟨⟨object, filename, hurl, hlook, hm⟩, hpeer, n, tkns, hn, htkns, hoffer, hpasses⟩ := h
  have hsame := (look_untouched rtsp st n object w.file).1
  rw [hlook] at hsame
  obtain ⟨c, hc⟩ := passes_iff.mp hpasses
  obtain ⟨o', tkn, hoffer', htook⟩ := chooseTransport_took hc
  rw [hoffer'] at hoffer
  cases hoffer
  refine ⟨n, c, object, htook, hsame, ?_⟩
  rw [RTSP_setup, check_ok hurl]
  dsimp only
  rw [hlook]
  dsimp only
  rw [check_ok hm, check_ok hn, check_ok htkns, if_neg (by rw [hpeer]; decide), check_ok hc]

/-! ### What was taken -/

theorem Took.multicast_takes (h : Took w rtsp st d m c .multicast) :
    c.st.portPool = st.portPool ∧ c.interleaved = rtsp.interleaved := by
  cases h with
  | multicast he =>
    rw [he, chooseMulticast]
    dsimp only
    split_ifs <;> exact ⟨rfl, rfl⟩

theorem Took.startPort (h : Took w rtsp st d m c o) : c.st.startPort = st.startPort := by
  cases h with
  | unicast ser port =>
    obtain ⟨i, -, he⟩ := Option.map_eq_some_iff.mp port
    obtain ⟨-, hst⟩ := Prod.mk.inj he
    rw [← hst]
  | tcp same => rw [same]
  | multicast he =>
    rw [he, chooseMulticast]
    dsimp only
    split_ifs <;> rfl

theorem Took.takes (h : Took w rtsp st d m c o) (ho : o ≠ .multicast) :
    c.st.portPool ≠ st.portPool ∨ c.interleaved ≠ rtsp.interleaved := by
  cases h with
  | multicast => exact absurd rfl ho
  | unicast ser port =>
    left
    obtain ⟨i, hi, he⟩ := Option.map_eq_some_iff.mp port
    obtain ⟨-, hst⟩ := Prod.mk.inj he
    have hfree := List.find?_some hi
    rw [← hst]
    intro heq
    have hzero := congrFun heq i
    simp only [Function.update_self] at hzero
    simp [← hzero] at hfree
  | tcp _ _ _ i hi =>
    right
    intro heq
    have hlen := congrArg List.length (hi.symm.trans heq)
    simp only [List.length_cons] at hlen
    omega

/-! ### The end -/

theorem Reaches.accepted (h : Reaches w inp rtsp st d m o st₁) (ha : Accepted st) :
    Accepted st₁ := by
  obtain ⟨object, filename, -, hlook, -⟩ := h.file
  have hst₁ := ha.look object w.file
  rw [hlook] at hst₁
  exact hst₁

theorem finishSetup_atomic {rtsp₁ : RTSPBuffer} (hsame : Untouched rtsp rtsp₁ st st₁)
    (hout : rtsp₁.out = rtsp.out) (haccepted : Accepted st₁) (htook : Took w rtsp₁ st₁ d m c o)
    (h : finishSetup w inp rtsp₁ object d m c = some (rc, rtsp', st')) :
    Atomic rtsp rtsp' st st' ↔ ¬ (passes (setupSession w inp) = false ∧ o ≠ .multicast) := by
  obtain ⟨hentries, hheap, hsched, hcount, -⟩ := htook.keeps
  cases finishSetup_finished h with
  | noSession r hs =>
    have hstatus := setupSession_refuses w inp r hs
    have hbwrite : (send_reply r.status { rtsp₁ with interleaved := c.interleaved }).out =
        rtsp.out.bwrite ⟨r.status, int32 rtsp₁.rtspCseq, el⟩ := by
      rw [← hout]
      rfl
    constructor
    · rintro hatomic ⟨-, ho⟩
      have huntouched := hatomic _ hbwrite hstatus
      rcases htook.takes ho with hport | hchannel
      · exact hport (huntouched.portPool.trans hsame.portPool.symm)
      · exact hchannel (huntouched.interleaved.trans hsame.interleaved.symm)
    · intro hnot r' _ _
      have ho : o = .multicast := by
        by_contra ho
        exact hnot ⟨passes_error hs, ho⟩
      subst ho
      obtain ⟨hport, hchannel⟩ := htook.multicast_takes
      exact {
        portPool := hport.trans hsame.portPool
        sessionList := (send_reply_sessionList ..).trans hsame.sessionList
        interleaved := (send_reply_interleaved ..).trans (hchannel.trans hsame.interleaved)
        sched := hsched.trans hsame.sched
        clientCount := hcount.trans hsame.clientCount
        heap := hheap.trans hsame.heap
        startPort := htook.startPort.trans hsame.startPort }
  | notCopied id hs out st₂ hc =>
    have hcopied := (haccepted.copyMedia (w := w) (m := m) hentries).1
    rw [hc] at hcopied
    cases hcopied
  | entered sessionId hs out st₂ hc id st₃ ha rtsp₂ hr =>
    refine iff_of_true (fun r hr' hstatus => ?_) fun hfails => ?_
    · rw [send_eq_some hr, ← hout] at hr'
      rw [← bwrite_inj hr'] at hstatus
      exact absurd rfl hstatus
    · rw [passes_ok hs] at hfails
      cases hfails.1

theorem accepted_run {as : List Act} {sv : Server}
    (h : exec serverStep Server.init as = some sv) : Accepted sv.st :=
  exec_invariant (fun _ _ _ (hi : Accepted _) hs => hi.made (server_made hs)) h (Accepted.init _)

/-- In every state of the server a SETUP that is not answered with 200 leaves everything as it
was, exactly if it does not take ports or sockets for a header `Session` that is too long. -/
theorem setup_atomic_iff {as : List Act} {sv : Server} {seq : ℕ}
    (hrun : exec serverStep Server.init as = some sv) (hcalls : CallsSetup inp rtsp seq)
    (h : RTSP_setup w inp { rtsp with rtspCseq := seq } sv.st = some (rc, rtsp', st')) :
    Atomic rtsp rtsp' sv.st st' ↔ ¬ LeavesBehind w inp rtsp sv.st := by
  have haccepted := accepted_run hrun
  rw [LeavesBehind, ← setupSession_fails w hcalls.session]
  have hatomic : ∀ u, Atomic { rtsp with rtspCseq := seq } u sv.st st' ↔ Atomic rtsp u sv.st st' :=
    fun u => forall_congr' fun r => imp_congr_right fun _ => imp_congr_right fun _ =>
      ⟨fun hu => ⟨hu.portPool, hu.sessionList, hu.interleaved, hu.sched, hu.clientCount, hu.heap,
          hu.startPort⟩,
        fun hu => ⟨hu.portPool, hu.sessionList, hu.interleaved, hu.sched, hu.clientCount, hu.heap,
          hu.startPort⟩⟩
  have hreaches : ∀ {d m o st₁}, Reaches w inp { rtsp with rtspCseq := seq } sv.st d m o st₁ ↔
      Reaches w inp rtsp sv.st d m o st₁ :=
    ⟨fun hr => ⟨hr.file, hr.peer, hr.transport⟩, fun hr => ⟨hr.file, hr.peer, hr.transport⟩⟩
  rw [← hatomic]
  constructor
  · rintro hatomic ⟨hfails, d, m, o, st₁, hr, ho⟩
    have hr := hreaches.mpr hr
    obtain ⟨n, c, object, htook, hsame, hgoes⟩ := hr.goes
    exact (finishSetup_atomic hsame rfl (hr.accepted haccepted) htook (hgoes.symm.trans h)).mp
      hatomic ⟨hfails, ho⟩
  · intro hleaves
    cases setup_chose h with
    | refused same => exact fun _ _ _ => same
    | chosen reaches same _ took finish =>
      exact (finishSetup_atomic same rfl (reaches.accepted haccepted) took finish).mpr fun hl =>
        hleaves ⟨hl.1, _, _, _, _, hreaches.mp reaches, hl.2⟩

end Setup

def setupTcp (cseq : ℕ) (headers : List String) : Bytes :=
  message "SETUP" "rtsp://localhost/film.sd!v.mpg" cseq
    ("Transport: RTP/AVP/TCP;interleaved=0-1" :: headers)

/-- A SETUP over TCP for which no local sockets can be made. -/
theorem setup_atomic_unpaired : ∃ rc rtsp' st',
    RTSP_setup onDisk (setupTcp 1 []) { RTSP_initserver with rtspCseq := 1 }
      Server.init.add_client.st = some (rc, rtsp', st') ∧
    rtsp'.out = RTSP_initserver.out.bwrite ⟨500, 1, el⟩ ∧
    Untouched RTSP_initserver rtsp' Server.init.add_client.st st' := by
  have hrun : (RTSP_setup onDisk (setupTcp 1 []) { RTSP_initserver with rtspCseq := 1 }
      Server.init.add_client.st).any (fun out =>
        decide (out.2.1.out = RTSP_initserver.out.bwrite ⟨500, 1, el⟩)) = true := by
    decide +kernel
  obtain ⟨⟨rc, rtsp', st'⟩, hout, hreply⟩ := (Option.any_eq_true _ _).mp hrun
  have hreply := of_decide_eq_true hreply
  have hcalls : CallsSetup (setupTcp 1 []) RTSP_initserver 1 := by
    refine ⟨by decide +kernel, by decide +kernel, by decide +kernel, ⟨_, rfl, by decide⟩⟩
  have hkept : ¬ LeavesBehind onDisk (setupTcp 1 []) RTSP_initserver
      Server.init.add_client.st := by
    rintro ⟨⟨p, -, -, hp, -⟩, -⟩
    have hnone : strstr (setupTcp 1 []) hdrSession = none := by decide +kernel
    rw [hnone] at hp
    cases hp
  have hrun : exec serverStep Server.init [.connect] = some Server.init.add_client := rfl
  have hatomic := (setup_atomic_iff hrun hcalls hout).mpr hkept
  exact ⟨rc, rtsp', st', hout, hreply, hatomic _ hreply (show 500 ≠ 200 by decide)⟩

/-- A word of 255 bytes that ends with a digit, and nothing behind it. -/
def longSession : String := "Session:" ++ String.ofList (List.replicate 246 'x') ++ "1"

/-- The first SETUP of a client has such a header, and the pair it took is in no place. -/
theorem ports_not_released : ¬ ∀ (as : List Act) (sv : Server) (k seq : ℕ) (w : World)
    (inp : Bytes) (rtsp rtsp' : RTSPBuffer) (rc : ℤ) (st' : Streams),
      exec serverStep Server.init as = some sv → sv.connection k = some rtsp →
      CallsSetup inp rtsp seq →
      RTSP_setup w inp { rtsp with rtspCseq := seq } sv.st = some (rc, rtsp', st') →
      Atomic rtsp rtsp' sv.st st' := by
  intro h
  have hrun : (RTSP_setup onDisk (setupMessage 1 "v.mpg" [longSession])
      { RTSP_initserver with rtspCseq := 1 } Server.init.add_client.st).any fun out =>
        decide (out.2.1.out = RTSP_initserver.out.bwrite ⟨454, 1, el⟩ ∧
          out.2.2.portPool 0 = 0) := by
    decide +kernel
  obtain ⟨⟨rc, rtsp', st'⟩, hout, hends⟩ := (Option.any_eq_true _ _).mp hrun
  have hcalls : CallsSetup (setupMessage 1 "v.mpg" [longSession]) RTSP_initserver 1 := by
    refine ⟨by decide +kernel, by decide +kernel, by decide +kernel, ⟨_, rfl, by decide⟩⟩
  have hatomic := h [.connect] Server.init.add_client 0 1 onDisk _ RTSP_initserver rtsp' rc st'
    rfl rfl hcalls hout
  obtain ⟨hreply, hport⟩ := of_decide_eq_true hends
  have hpool := congrFun (hatomic _ hreply (show 454 ≠ 200 by decide)).portPool 0
  rw [hport] at hpool
  exact absurd hpool (by decide)

end Fenice.Rtsp
