import Fenice.Rtsp.Server

/-!
# One reply for each request

Every method that is run hands one reply to `bwrite`, with the number that was read
last. What is left are the cells of the state machine that do nothing, and requests
whose number is not the one that was read.
-/

namespace Fenice.Rtsp
open Fenice.CString Fenice.Schedule Fenice.Run

/-! ### The number of a request -/

/-- The header lines of a message, up to the empty line. -/
def headerLines (inp : Bytes) : List Bytes :=
  (((inp.splitOn lf).map fun l => l.takeWhile (· != cr)).takeWhile (· ≠ [])).tail

/-- The number of the header `CSeq` of a message. -/
def headerCseq (inp : Bytes) : Option ℕ :=
  ((headerLines inp).find? fun l => startsNoCase (lit "CSeq:") l).bind fun l =>
    let digits := ((l.drop 5).dropWhile isBlank).takeWhile isDigit
    if digits = [] then none else some (decimal digits)

/-- One reply was handed to `bwrite`, with the number of the request. -/
def OneReply (inp : Bytes) (o o' : Output) : Prop :=
  ∃ r : Reply, o' = o.bwrite r ∧ ∀ n, headerCseq inp = some n → r.cseq = n

theorem bwrite_inj {o : Output} {r r' : Reply} (h : o.bwrite r = o.bwrite r') : r = r' := by
  have := congrArg Output.replies h
  simpa [Output.bwrite] using this

theorem bwrite_ne (o : Output) (r : Reply) : o.bwrite r ≠ o := by
  intro h
  have := congrArg (fun o => o.replies.length) h
  simp [Output.bwrite] at this

/-! ### What the methods print -/

/-- A check that goes on. -/
def passes {α : Type} (x : Checks α) : Bool :=
  match x.run with
  | some (.ok _) => true
  | _ => false

theorem passes_ok {α : Type} {x : Checks α} {a : α} (h : x.run = some (.ok a)) :
    passes x = true := by
  unfold passes
  rw [h]

theorem passes_error {α : Type} {x : Checks α} {r : Rejection} (h : x.run = some (.error r)) :
    passes x = false := by
  unfold passes
  rw [h]

/-- The number in force behind the scan for `CSeq`: the one that is found, or else that
of the request line. -/
def inForce (rtsp : RTSPBuffer) (number : Option ℕ) : ℤ := int32 (number.getD rtsp.rtspCseq : ℕ)

/-- The checks of SETUP in front of the scan for `CSeq`. -/
def setupFront (w : World) (inp : Bytes) (st : Streams) : Bool :=
  match (setupUrl inp).run with
  | some (.ok (object, filename)) =>
    match enum_media st object w.file with
    | (.ok d, st) => passes (setupMedia st d filename)
    | _ => false
  | _ => false

/-- Whether a TEARDOWN with the number `n` comes to its reply 200. -/
def teardownFront (inp : Bytes) (rtsp : RTSPBuffer) (n : ℕ) : Bool :=
  match (teardownRequest inp).run with
  | some (.ok r) => passes (sameSession errParse { rtsp with rtspCseq := n } r.id)
  | _ => false

/-- The number that the reply of a method carries. OPTIONS and TEARDOWN print an
unsigned number. -/
def Handler.number (w : World) (inp : Bytes) (rtsp : RTSPBuffer) (st : Streams) : Handler → ℤ
  | .describe =>
    if passes (describeUrl inp) then inForce rtsp (scanCseq (scanWord 254) inp)
    else int32 rtsp.rtspCseq
  | .options =>
    match scanCseq (scanWord 254) inp with
    | some n => n
    | none => int32 rtsp.rtspCseq
  | .setup =>
    if setupFront w inp st then inForce rtsp (scanCseq scanAnyWord inp) else int32 rtsp.rtspCseq
  | .play | .pause => inForce rtsp (scanCseq (scanWord 254) inp)
  | .teardown =>
    match scanCseq (scanWord 254) inp with
    | some n => if teardownFront inp rtsp n then n else int32 n
    | none => int32 rtsp.rtspCseq

@[simp] theorem inForce_none (rtsp : RTSPBuffer) : inForce rtsp none = int32 rtsp.rtspCseq := rfl

@[simp] theorem inForce_some (rtsp : RTSPBuffer) (n : ℕ) : inForce rtsp (some n) = int32 n := rfl

/-- The function hands one reply to `bwrite`, with the number `n`. -/
def RepliesOnce (o : Output) (n : ℤ) (x : Handled) : Prop :=
  ∀ out, x = some out → ∃ r, r.cseq = n ∧ out.2.1.out = o.bwrite r

theorem RepliesOnce.rejected (status : ℕ) (rtsp : RTSPBuffer) (rc : ℤ) (st : Streams) :
    RepliesOnce rtsp.out (int32 rtsp.rtspCseq) (some (rc, send_reply status rtsp, st)) := by
  intro out ho
  cases ho
  exact ⟨⟨status, int32 rtsp.rtspCseq, el⟩, rfl, rfl⟩

theorem RepliesOnce.check {α : Type} {rtsp : RTSPBuffer} {st : Streams} {x : Checks α}
    {k : α → Handled} {n : ℤ}
    (hno : ∀ r, x.run = some (.error r) → n = int32 rtsp.rtspCseq)
    (h : ∀ a, x.run = some (.ok a) → RepliesOnce rtsp.out n (k a)) :
    RepliesOnce rtsp.out n (check rtsp st x k) := by
  intro out ho
  rcases check_eq_some.mp ho with ⟨r, hr, he⟩ | ⟨a, ha, hk⟩
  · rw [he, hno r hr]
    exact ⟨⟨r.status, int32 rtsp.rtspCseq, el⟩, rfl, rfl⟩
  · exact h a ha out hk

theorem RepliesOnce.rescan {rtsp : RTSPBuffer} {st : Streams} {rc : ℤ} {number : Option ℕ}
    {k : ℕ → Handled} {n : ℤ} (hno : number = none → n = int32 rtsp.rtspCseq)
    (h : ∀ m, number = some m → RepliesOnce rtsp.out n (k m)) :
    RepliesOnce rtsp.out n (Rtsp.check rtsp st (requestCseq rc number) k) := by
  cases number with
  | none =>
    rw [hno rfl]
    exact RepliesOnce.rejected 400 rtsp rc st
  | some m => exact h m rfl

theorem send_eq_some {cap : ℕ} {r : Reply} {rtsp rtsp' : RTSPBuffer}
    (h : send cap r rtsp = some rtsp') : rtsp' = { rtsp with out := rtsp.out.bwrite r } := by
  unfold send at h
  split at h
  · exact (Option.some.inj h).symm
  · cases h

theorem RepliesOnce.logged {rtsp : RTSPBuffer} {n rc : ℤ} {st : Streams} {cap : ℕ} {r : Reply}
    {inp : Bytes} (hr : r.cseq = n) :
    RepliesOnce rtsp.out n
      ((send cap r rtsp).bind fun rtsp => (logUserAgent inp).map fun _ => (rc, rtsp, st)) := by
  intro out ho
  obtain ⟨r', hs, hl⟩ := Option.bind_eq_some_iff.mp ho
  obtain ⟨_, _, rfl⟩ := Option.map_eq_some_iff.mp hl
  exact ⟨r, hr, by rw [send_eq_some hs]⟩

theorem options_number (w : World) (inp : Bytes) (rtsp : RTSPBuffer) (st : Streams) :
    RepliesOnce rtsp.out (Handler.number w inp rtsp st .options) (RTSP_options inp rtsp st) := by
  unfold RTSP_options
  dsimp only [Handler.number]
  apply RepliesOnce.rescan
  · intro h
    rw [h]
  · intro m h
    rw [h]
    exact @RepliesOnce.logged { rtsp with rtspCseq := m } _ _ _ _ _ _ rfl

theorem redirect_number (w : World) (object : Bytes) (rtsp : RTSPBuffer) (st : Streams) :
    RepliesOnce rtsp.out (int32 rtsp.rtspCseq) (send_redirect_3xx w object rtsp st) := by
  unfold send_redirect_3xx
  split
  · exact RepliesOnce.rejected 500 rtsp _ _
  · dsimp only
    split
    · intro out ho
      obtain ⟨_, hs, rfl⟩ := Option.map_eq_some_iff.mp ho
      exact ⟨_, rfl, by rw [send_eq_some hs]⟩
    · exact RepliesOnce.rejected 453 rtsp _ _

theorem describe_number (w : World) (inp : Bytes) (rtsp : RTSPBuffer) (st : Streams) :
    RepliesOnce rtsp.out (Handler.number w inp rtsp st .describe)
      (RTSP_describe w inp rtsp st) := by
  unfold RTSP_describe
  dsimp only [Handler.number]
  apply RepliesOnce.check
  · intro r hr
    rw [passes_error hr, if_neg Bool.false_ne_true]
  · intro u hu
    rw [if_pos (passes_ok hu)]
    apply RepliesOnce.rescan
    · intro h
      rw [h, inForce_none]
    · intro m h
      rw [h, inForce_some]
      apply @RepliesOnce.check _ { rtsp with rtspCseq := m }
      · exact fun _ _ => rfl
      · intro _ _
        by_cases hw : w.maxConnection = true
        · rw [if_pos hw]
          exact redirect_number w u.object { rtsp with rtspCseq := m } _
        · rw [if_neg hw]
          exact @RepliesOnce.logged { rtsp with rtspCseq := m } _ _ _ _ _ _ rfl

theorem play_number (w : World) (inp : Bytes) (rtsp : RTSPBuffer) (st : Streams) :
    RepliesOnce rtsp.out (Handler.number w inp rtsp st .play) (RTSP_play w inp rtsp st) := by
  unfold RTSP_play
  dsimp only [Handler.number]
  apply RepliesOnce.rescan
  · intro h
    rw [h, inForce_none]
  · intro m h
    rw [h, inForce_some]
    apply @RepliesOnce.check _ { rtsp with rtspCseq := m } _ _ _ _ (fun _ _ => rfl)
    intro r _
    apply @RepliesOnce.check _ { rtsp with rtspCseq := m } _ _ _ _ (fun _ _ => rfl)
    intro session _
    apply @RepliesOnce.check _ { rtsp with rtspCseq := m } _ _ _ _ (fun _ _ => rfl)
    intro st₁ _
    unfold send_play_reply
    split
    · intro out ho
      cases ho
    · intro out ho
      obtain ⟨rtsp₁, hs, hl⟩ := Option.bind_eq_some_iff.mp ho
      obtain ⟨rs, -, hs⟩ := Option.bind_eq_some_iff.mp hs
      obtain ⟨_, _, rfl⟩ := Option.map_eq_some_iff.mp hl
      exact ⟨playReply w m st₁ session.sessionId rs, rfl, by rw [send_eq_some hs]⟩

theorem pause_number (w : World) (inp : Bytes) (rtsp : RTSPBuffer) (st : Streams) :
    RepliesOnce rtsp.out (Handler.number w inp rtsp st .pause) (RTSP_pause w inp rtsp st) := by
  unfold RTSP_pause
  dsimp only [Handler.number]
  apply RepliesOnce.rescan
  · intro h
    rw [h, inForce_none]
  · intro m h
    rw [h, inForce_some]
    apply @RepliesOnce.check _ { rtsp with rtspCseq := m } _ _ _ _ (fun _ _ => rfl)
    intro id _
    apply @RepliesOnce.check _ { rtsp with rtspCseq := m } _ _ _ _ (fun _ _ => rfl)
    intro session _ out ho
    obtain ⟨st₁, -, ho⟩ := Option.bind_eq_some_iff.mp ho
    exact @RepliesOnce.logged { rtsp with rtspCseq := m } _ _ _ _
      (pauseReply w m session.sessionId) _ rfl out ho

theorem teardown_number (w : World) (inp : Bytes) (rtsp : RTSPBuffer) (st : Streams) :
    RepliesOnce rtsp.out (Handler.number w inp rtsp st .teardown)
      (RTSP_teardown w inp rtsp st) := by
  unfold RTSP_teardown
  dsimp only [Handler.number]
  apply RepliesOnce.rescan
  · intro h
    rw [h]
  · intro m h
    rw [h]
    dsimp only
    apply @RepliesOnce.check _ { rtsp with rtspCseq := m }
    · intro r hr
      rw [if_neg (show ¬ teardownFront inp rtsp m = true by simp [teardownFront, hr])]
    · intro r hr
      simp only [teardownFront, hr]
      apply @RepliesOnce.check _ { rtsp with rtspCseq := m }
      · intro e he
        rw [passes_error he, if_neg Bool.false_ne_true]
      · intro session hs
        rw [passes_ok hs, if_pos rfl]
        intro out ho
        obtain ⟨rtsp₁, hsend, ho⟩ := Option.bind_eq_some_iff.mp ho
        obtain ⟨_, -, ho⟩ := Option.bind_eq_some_iff.mp ho
        obtain ⟨⟨left, st₁⟩, -, rfl⟩ := Option.map_eq_some_iff.mp ho
        rw [send_eq_some hsend]
        exact ⟨_, rfl, rfl⟩

theorem finishSetup_number {w : World} {inp : Bytes} {rtsp : RTSPBuffer} {object : Bytes}
    {d m : ℕ} {c : Chosen} :
    RepliesOnce rtsp.out (int32 rtsp.rtspCseq) (finishSetup w inp rtsp object d m c) := by
  intro out ho
  obtain ⟨rc, rtsp', st'⟩ := out
  cases finishSetup_finished ho with
  | noSession r => exact ⟨⟨r.status, int32 rtsp.rtspCseq, el⟩, rfl, rfl⟩
  | notCopied => exact ⟨⟨500, int32 rtsp.rtspCseq, el⟩, rfl, rfl⟩
  | entered sessionId hs out st hc id st' ha rtsp' hr =>
    refine ⟨setupReply w rtsp.rtspCseq sessionId (st'.descr d) (fullSession w object d out c id),
      rfl, ?_⟩
    rw [send_eq_some hr]

theorem setupFront_rejected {w : World} {inp : Bytes} {st : Streams} {r : Rejection}
    (h : (setupUrl inp).run = some (.error r)) : setupFront w inp st = false := by
  unfold setupFront
  rw [h]

theorem setupFront_error {w : World} {inp : Bytes} {st st₁ : Streams} {object filename : Bytes}
    {e : ℤ} (hu : (setupUrl inp).run = some (.ok (object, filename)))
    (he : enum_media st object w.file = (.error e, st₁)) : setupFront w inp st = false := by
  unfold setupFront
  rw [hu]
  dsimp only
  rw [he]

theorem setupFront_ok {w : World} {inp : Bytes} {st st₁ : Streams} {object filename : Bytes}
    {d : ℕ} (hu : (setupUrl inp).run = some (.ok (object, filename)))
    (he : enum_media st object w.file = (.ok d, st₁)) :
    setupFront w inp st = passes (setupMedia st₁ d filename) := by
  unfold setupFront
  rw [hu]
  dsimp only
  rw [he]

theorem setup_number (w : World) (inp : Bytes) (rtsp : RTSPBuffer) (st : Streams) :
    RepliesOnce rtsp.out (Handler.number w inp rtsp st .setup) (RTSP_setup w inp rtsp st) := by
  unfold RTSP_setup
  dsimp only [Handler.number]
  apply RepliesOnce.check
  · intro r hr
    rw [setupFront_rejected hr, if_neg Bool.false_ne_true]
  · intro ⟨object, filename⟩ hu
    dsimp only
    obtain ⟨res, st₁, he⟩ : ∃ res st₁, enum_media st object w.file = (res, st₁) := ⟨_, _, rfl⟩
    rw [he]
    cases res with
    | error e =>
      rw [setupFront_error hu he, if_neg Bool.false_ne_true]
      exact RepliesOnce.rejected 500 rtsp _ _
    | ok d =>
      rw [setupFront_ok hu he]
      dsimp only
      apply RepliesOnce.check
      · intro r hr
        rw [passes_error hr, if_neg Bool.false_ne_true]
      · intro m hm
        rw [if_pos (passes_ok hm)]
        apply RepliesOnce.rescan
        · intro h
          rw [h, inForce_none]
        · intro n h
          rw [h, inForce_some]
          apply @RepliesOnce.check _ { rtsp with rtspCseq := n } _ _ _ _ (fun _ _ => rfl)
          intro tkns _
          split
          · exact RepliesOnce.rejected 415 { rtsp with rtspCseq := n } _ _
          · apply @RepliesOnce.check _ { rtsp with rtspCseq := n } _ _ _ _ (fun _ _ => rfl)
            intro c _
            exact @finishSetup_number w inp { rtsp with rtspCseq := n } object d m c

theorem handler_number (x : Handler) (w : World) (inp : Bytes) (rtsp : RTSPBuffer)
    (st : Streams) : RepliesOnce rtsp.out (x.number w inp rtsp st) (x.run w inp rtsp st) := by
  cases x with
  | describe => exact describe_number w inp rtsp st
  | options => exact options_number w inp rtsp st
  | setup => exact setup_number w inp rtsp st
  | play => exact play_number w inp rtsp st
  | pause => exact pause_number w inp rtsp st
  | teardown => exact teardown_number w inp rtsp st

/-! ### A message -/

/-- The number of the reply in a cell of the table, if there is one. -/
def Cell.number (w : World) (inp : Bytes) (rtsp : RTSPBuffer) (st : Streams) : Cell → Option ℤ
  | .silent => none
  | .refuse _ => some (int32 rtsp.rtspCseq)
  | .move x _ | .stay x => some (x.number w inp rtsp st)

/-- The number of the reply to a message, if there is one. A request line that is not
followed by `CSeq` is answered with the number of the request before it. -/
def answer (w : World) (inp : Bytes) (rtsp : RTSPBuffer) (st : Streams) : Option ℤ :=
  if RTSP_valid_response_msg inp then none
  else
    match RTSP_validate_method inp with
    | none => some (int32 rtsp.rtspCseq)
    | some (seq, none) => some (int32 seq)
    | some (seq, some m) =>
      if scanSession inp = some none then some (int32 seq)
      else rtsp.sessionList.bind fun p =>
        (cell p.curState m).number w inp { rtsp with rtspCseq := seq } st

/-- What a message adds to the output. -/
def Adds (o o' : Output) : Option ℤ → Prop
  | none => o' = o
  | some n => ∃ r : Reply, r.cseq = n ∧ o' = o.bwrite r

theorem cell_adds {w : World} {inp : Bytes} {rtsp rtsp' : RTSPBuffer} {st st' : Streams}
    {c : Cell} (h : c.exec w inp rtsp st = some (rtsp', st')) :
    Adds rtsp.out rtsp'.out (c.number w inp rtsp st) := by
  cases c with
  | silent =>
    simp only [Cell.exec, Option.some.injEq, Prod.mk.injEq] at h
    exact congrArg RTSPBuffer.out h.1.symm
  | refuse status =>
    simp only [Cell.exec, refuse, Option.some.injEq, Prod.mk.injEq] at h
    rw [← h.1]
    exact ⟨⟨status, int32 rtsp.rtspCseq, el⟩, rfl, rfl⟩
  | stay x =>
    obtain ⟨⟨rc, rtsp₁, st₁⟩, hx, he⟩ := Option.map_eq_some_iff.mp h
    obtain ⟨r, hr, ho⟩ := handler_number x w inp rtsp st _ hx
    simp only [Prod.mk.injEq] at he
    exact ⟨r, hr, by rw [← he.1]; exact ho⟩
  | move x next =>
    obtain ⟨⟨rc, rtsp₁, st₁⟩, hx, he⟩ := Option.map_eq_some_iff.mp h
    obtain ⟨r, hr, ho⟩ := handler_number x w inp rtsp st _ hx
    refine ⟨r, hr, ?_⟩
    dsimp only at he ho
    split at he
    · simp only [Prod.mk.injEq] at he
      rw [← he.1]
      exact ho
    · simp only [Prod.mk.injEq] at he
      rw [← he.1]
      exact ho

theorem message_adds {w : World} {inp : Bytes} {rtsp rtsp' : RTSPBuffer} {st st' : Streams}
    (h : handleMessage w inp rtsp st = some (rtsp', st')) :
    Adds rtsp.out rtsp'.out (answer w inp rtsp st) := by
  unfold handleMessage at h
  unfold answer
  split at h
  · simp only [Option.some.injEq, Prod.mk.injEq] at h
    rename_i hr
    rw [if_pos hr]
    exact congrArg RTSPBuffer.out h.1.symm
  · rename_i hr
    rw [if_neg hr]
    rcases hv : RTSP_validate_method inp with _ | ⟨seq, _ | m⟩
    · rw [hv] at h
      simp only [Option.some.injEq, Prod.mk.injEq] at h
      rw [← h.1]
      exact ⟨⟨400, int32 rtsp.rtspCseq, el⟩, rfl, rfl⟩
    · rw [hv] at h
      simp only [Option.some.injEq, Prod.mk.injEq] at h
      rw [← h.1]
      exact ⟨⟨400, int32 seq, el⟩, rfl, rfl⟩
    · rw [hv] at h
      dsimp only at h ⊢
      rw [state_machine_cell] at h
      by_cases hs : scanSession inp = some none
      · rw [if_pos hs] at h ⊢
        simp only [refuse, Option.some.injEq, Prod.mk.injEq] at h
        rw [← h.1]
        exact ⟨⟨454, int32 seq, el⟩, rfl, rfl⟩
      · rw [if_neg hs] at h ⊢
        cases hl : rtsp.sessionList with
        | none =>
          rw [hl] at h
          simp only [Option.some.injEq, Prod.mk.injEq] at h
          rw [Option.bind_none, ← h.1]
          rfl
        | some p =>
          rw [hl] at h
          have hcell := cell_adds h
          rw [Option.bind_some]
          exact hcell

/-- The answer to a message carries its number. -/
def Answered (w : World) (inp : Bytes) (rtsp : RTSPBuffer) (st : Streams) : Prop :=
  ∃ k ∈ answer w inp rtsp st, ∀ n, headerCseq inp = some n → k = n

theorem answered_of {w : World} {inp : Bytes} {rtsp : RTSPBuffer} {st : Streams} {k : ℤ} {m : ℕ}
    (h : answer w inp rtsp st = some k) (hm : headerCseq inp = some m) (hk : k = m) :
    Answered w inp rtsp st := by
  refine ⟨k, h, fun n hn => ?_⟩
  rw [hm] at hn
  cases hn
  exact hk

/-- A request is answered once with its number iff it comes to a reply and the number
printed there is that of its header `CSeq`. -/
theorem one_reply {w : World} {inp : Bytes} {rtsp rtsp' : RTSPBuffer} {st st' : Streams}
    (h : handleMessage w inp rtsp st = some (rtsp', st')) :
    OneReply inp rtsp.out rtsp'.out ↔ Answered w inp rtsp st := by
  have hadds := message_adds h
  unfold OneReply Answered
  cases ha : answer w inp rtsp st with
  | none =>
    rw [ha] at hadds
    constructor
    · intro ⟨r, hr, _⟩
      exact absurd (hr.symm.trans hadds) (bwrite_ne _ r)
    · intro ⟨k, hk, _⟩
      cases hk
  | some k =>
    rw [ha] at hadds
    obtain ⟨r, hr, ho⟩ := hadds
    constructor
    · intro ⟨r', ho', hn⟩
      have hrr := bwrite_inj (ho.symm.trans ho')
      refine ⟨k, rfl, fun n hin => ?_⟩
      rw [← hr, hrr]
      exact hn n hin
    · intro ⟨k', hk, hn⟩
      cases hk
      exact ⟨r, ho, fun n hin => hr.trans (hn n hin)⟩

theorem one_reply_setup :
    ∃ out, handleMessage onDisk (setupMessage 1 "v.mpg" []) RTSP_initserver
        (Streams.init rtpDefaultPort) = some out ∧
      OneReply (setupMessage 1 "v.mpg" []) RTSP_initserver.out out.1.out := by
  have hsome : (handleMessage onDisk (setupMessage 1 "v.mpg" []) RTSP_initserver
      (Streams.init rtpDefaultPort)).isSome = true := by decide +kernel
  have hanswer : answer onDisk (setupMessage 1 "v.mpg" []) RTSP_initserver
      (Streams.init rtpDefaultPort) = some 1 := by decide +kernel
  have hcseq : headerCseq (setupMessage 1 "v.mpg" []) = some 1 := by decide +kernel
  obtain ⟨⟨rtsp', st'⟩, h⟩ := Option.isSome_iff_exists.mp hsome
  exact ⟨_, h, (one_reply h).mpr (answered_of hanswer hcseq rfl)⟩

/-- OPTIONS after a SETUP. -/
theorem options_unanswered :
    ¬ ∀ (as : List Act) (sv : Server), exec serverStep Server.init as = some sv →
      ∀ (k : ℕ) (w : World) (inp : Bytes) (rtsp rtsp' : RTSPBuffer) (st' : Streams),
        sv.connection k = some rtsp → handleMessage w inp rtsp sv.st = some (rtsp', st') →
          OneReply inp rtsp.out rtsp'.out := by
  intro h
  obtain ⟨inp, hrun⟩ : ∃ inp, (exec serverStep Server.init setUp).any (fun sv =>
      (sv.connection 0).any fun p => (handleMessage {} inp p sv.st).isSome &&
        (answer {} inp p sv.st).isNone) = true :=
    ⟨message "OPTIONS" "*" 2 [], by decide +kernel⟩
  obtain ⟨sv, hsv, hrun⟩ := (Option.any_eq_true _ _).mp hrun
  obtain ⟨p, hp, hrun⟩ := (Option.any_eq_true _ _).mp hrun
  simp only [Bool.and_eq_true, Option.isNone_iff_eq_none] at hrun
  obtain ⟨hsome, hnone⟩ := hrun
  obtain ⟨⟨p', st'⟩, hm⟩ := Option.isSome_iff_exists.mp hsome
  have hadds := message_adds hm
  rw [hnone] at hadds
  obtain ⟨r, hr, -⟩ := h setUp sv hsv 0 _ inp p p' st' hp hm
  exact bwrite_ne p.out r (hr.symm.trans hadds)

end Fenice.Rtsp
