import Fenice.Rtsp.Ranges
import Fenice.Rtsp.Transitions

/-!
# What a message is searched for

Behind the words a message begins with, the headers are looked for in the whole of `in_buffer`, one
after the other, until a check ends the method. Which searches are made depends on the method and
on what the ones before have found.
-/

namespace Fenice.Rtsp
open Fenice.CString Fenice.Schedule Fenice.Playback

inductive Search where
  | url | cseq | setupCseq | session | setupSession | transport | range | require | accept | agent
  deriving DecidableEq

/-- The search gives the same in both messages. -/
def Search.Same (inp inp' : Bytes) : Search → Prop
  | .url => scanUrl inp = scanUrl inp'
  | .cseq => scanCseq (scanWord 254) inp = scanCseq (scanWord 254) inp'
  | .setupCseq => scanCseq scanAnyWord inp = scanCseq scanAnyWord inp'
  | .session => scanSession inp = scanSession inp'
  | .setupSession => ∀ w, Rtsp.setupSession w inp = Rtsp.setupSession w inp'
  | .transport => transportTokens inp = transportTokens inp'
  | .range => ∀ single t₀ stack, rangeArgs single t₀ stack inp = rangeArgs single t₀ stack inp'
  | .require => (strstr inp hdrRequire).isSome = (strstr inp' hdrRequire).isSome
  | .accept => ((strstr inp hdrAccept).isSome && (strstr inp (lit "application/sdp")).isNone) =
      ((strstr inp' hdrAccept).isSome && (strstr inp' (lit "application/sdp")).isNone)
  | .agent => logUserAgent inp = logUserAgent inp'

/-! ### The searches of a method, for which it need not come to the end -/

/-- A search, and those behind it if the method goes on. -/
def lookFor (s : Search) (goesOn : Bool) (behind : List Search) : List Search :=
  s :: if goesOn then behind else []

/-- The URL with the checks that DESCRIBE makes in front of its headers. -/
def servedUrl (inp : Bytes) : Checks Url := do
  let u ← requestUrl errNoerror inp
  noRelativePath errNoerror u.object
  let p ← extension errNoerror u.object
  supported errNoerror p
  pure u

/-- PAUSE accepts the request on the host that its URL names. -/
def pausable (inp : Bytes) : Bool :=
  match (requestUrl errNoerror inp).run with
  | some (.ok u) => passes (pauseRequest { hostname := u.server } inp)
  | _ => false

def describeSearches (inp : Bytes) : List Search :=
  lookFor .url (passes (servedUrl inp)) <|
  lookFor .require (strstr inp hdrRequire).isNone <|
  lookFor .accept (passes (describeUrl inp)) <|
  lookFor .cseq (scanCseq (scanWord 254) inp).isSome [.agent]

def optionsSearches (inp : Bytes) : List Search :=
  lookFor .cseq (scanCseq (scanWord 254) inp).isSome [.agent]

def setupSearches (inp : Bytes) : List Search :=
  lookFor .url (passes (setupUrl inp)) <|
  lookFor .setupCseq (scanCseq scanAnyWord inp).isSome <|
  lookFor .transport (passes (transportTokens inp)) [.setupSession]

def playSearches (inp : Bytes) : List Search :=
  lookFor .cseq (scanCseq (scanWord 254) inp).isSome <|
  lookFor .range (passes (rangeChecks inp) && (scanSession inp).isSome) <|
  lookFor .url (passes (playRequest inp)) [.agent]

def pauseSearches (inp : Bytes) : List Search :=
  lookFor .cseq (scanCseq (scanWord 254) inp).isSome <|
  lookFor .url (pausable inp) [.agent]

def teardownSearches (inp : Bytes) : List Search :=
  lookFor .cseq (scanCseq (scanWord 254) inp).isSome <|
  lookFor .url (passes (teardownRequest inp)) [.agent]

def Handler.searches (inp : Bytes) : Handler → List Search
  | .describe => describeSearches inp
  | .options => optionsSearches inp
  | .setup => setupSearches inp
  | .play => playSearches inp
  | .pause => pauseSearches inp
  | .teardown => teardownSearches inp

/-- What the table has for a method in one state or another. -/
def Method.handler : Method → Option Handler
  | .describe => some .describe
  | .options => some .options
  | .setup => some .setup
  | .play => some .play
  | .pause => some .pause
  | .teardown => some .teardown
  | _ => none

theorem cell_handler {c : CurState} {m : Method} {x : Handler}
    (h : (cell c m).handler = some x) : m.handler = some x := by
  cases c <;> cases m <;> cases h <;> rfl

/-- The searches that are made of a message in some state of the server. -/
def searches (inp : Bytes) : List Search :=
  if RTSP_valid_response_msg inp then []
  else
    match messageMethod inp with
    | none => []
    | some m =>
      lookFor .session (decide (scanSession inp ≠ some none))
        ((m.handler.map (Handler.searches inp)).getD [])

theorem mem_lookFor {s t : Search} {goesOn : Bool} {behind : List Search} :
    t ∈ lookFor s goesOn behind ↔ t = s ∨ goesOn = true ∧ t ∈ behind := by
  rw [lookFor, List.mem_cons]
  cases goesOn <;> simp

/-! ### Two messages -/

/-- The second message begins with the same words, and every search that is made of the first one
gives the same in it. -/
structure SameReads (inp inp' : Bytes) : Prop where
  response : RTSP_valid_response_msg inp = RTSP_valid_response_msg inp'
  validated : RTSP_valid_response_msg inp = false →
    RTSP_validate_method inp = RTSP_validate_method inp'
  found : ∀ s ∈ searches inp, s.Same inp inp'

theorem SameReads.refl (inp : Bytes) : SameReads inp inp := by
  refine ⟨rfl, fun _ => rfl, fun s _ => ?_⟩
  cases s with
  | setupSession => exact fun _ => rfl
  | range => exact fun _ _ _ => rfl
  | _ => exact rfl

theorem check_congr {α : Type} {rtsp : RTSPBuffer} {st : Streams} {x x' : Checks α}
    {k k' : α → Handled} (hx : x = x') (hk : ∀ a, x.run = some (.ok a) → k a = k' a) :
    check rtsp st x k = check rtsp st x' k' := by
  rw [← hx, check, check]
  split
  · rfl
  · rfl
  · rename_i a ha
    exact hk a ha

theorem bind_congr_ok {α β : Type} {x : Checks α} {k k' : α → Checks β}
    (hk : ∀ a, x.run = some (.ok a) → k a = k' a) : (x >>= k) = (x >>= k') := by
  apply ExceptT.ext
  rw [ExceptT.run_bind, ExceptT.run_bind]
  cases hx : x.run with
  | none => rfl
  | some y =>
    cases y with
    | error e => rfl
    | ok a => exact congrArg ExceptT.run (hk a hx)

section Handlers

variable {inp inp' : Bytes} {w : World} {rtsp : RTSPBuffer} {st : Streams}

theorem requestCseq_found {rc : ℤ} {number : Option ℕ} {n : ℕ}
    (h : (requestCseq rc number).run = some (.ok n)) : number.isSome = true := by
  rw [requestCseq_inv h]
  rfl

/-- What `CSeq` and the methods that log the header `User-Agent` have in common. -/
theorem check_cseq {rc : ℤ} {k k' : ℕ → Handled} (hcseq : Search.cseq.Same inp inp')
    (hk : ∀ n, (scanCseq (scanWord 254) inp).isSome = true → k n = k' n) :
    check rtsp st (requestCseq rc (scanCseq (scanWord 254) inp)) k =
      check rtsp st (requestCseq rc (scanCseq (scanWord 254) inp')) k' :=
  check_congr (congrArg _ hcseq) fun n hn => hk n (requestCseq_found hn)

theorem options_same (h : ∀ s ∈ optionsSearches inp, s.Same inp inp') :
    RTSP_options inp rtsp st = RTSP_options inp' rtsp st := by
  unfold optionsSearches at h
  simp only [mem_lookFor, List.mem_singleton] at h
  unfold RTSP_options
  refine check_cseq (h _ (.inl rfl)) fun n hn => ?_
  have hagent : logUserAgent inp = logUserAgent inp' := h .agent (.inr ⟨hn, rfl⟩)
  rw [hagent]

theorem describe_same (h : ∀ s ∈ describeSearches inp, s.Same inp inp') :
    RTSP_describe w inp rtsp st = RTSP_describe w inp' rtsp st := by
  unfold describeSearches at h
  simp only [mem_lookFor, List.mem_singleton] at h
  have hurl : scanUrl inp = scanUrl inp' := h .url (.inl rfl)
  have hparts : ∀ inp, describeUrl inp = (servedUrl inp >>= fun u => do
      if (strstr inp hdrRequire).isSome then reject 551 errNoerror
      if (strstr inp hdrAccept).isSome && (strstr inp (lit "application/sdp")).isNone then
        reject 551 errNoerror
      pure u : Checks Url) := by
    intro inp
    simp only [describeUrl, servedUrl, bind_assoc, pure_bind]
  have hserved : servedUrl inp = servedUrl inp' := by
    rw [servedUrl, servedUrl, requestUrl, requestUrl, hurl]
  have hdescribe : describeUrl inp = describeUrl inp' := by
    rw [hparts, hparts, ← hserved]
    refine bind_congr_ok fun u hu => ?_
    have hserves := passes_ok hu
    have hrequire : (strstr inp hdrRequire).isSome = (strstr inp' hdrRequire).isSome :=
      h .require (.inr ⟨hserves, .inl rfl⟩)
    rw [← hrequire]
    cases hnone : (strstr inp hdrRequire).isSome with
    | true => rfl
    | false =>
      have haccept : ((strstr inp hdrAccept).isSome &&
            (strstr inp (lit "application/sdp")).isNone) =
          ((strstr inp' hdrAccept).isSome && (strstr inp' (lit "application/sdp")).isNone) :=
        h .accept (.inr ⟨hserves, .inr ⟨by rw [← Option.not_isSome, hnone]; rfl, .inl rfl⟩⟩)
      rw [haccept]
  unfold RTSP_describe
  refine check_congr hdescribe fun u hu => ?_
  have hpasses := passes_ok hu
  -- what was accepted has passed the checks in front
  have hgoes : passes (servedUrl inp) = true ∧ (strstr inp hdrRequire).isNone = true := by
    rw [hparts] at hu
    obtain ⟨v, hv, hu⟩ := bind_ok hu
    refine ⟨passes_ok hv, ?_⟩
    rw [← Option.not_isSome]
    cases hsome : (strstr inp hdrRequire).isSome with
    | false => rfl
    | true =>
      rw [hsome] at hu
      cases hu
  refine check_cseq (h _ (.inr ⟨hgoes.1, .inr ⟨hgoes.2, .inr ⟨hpasses, .inl rfl⟩⟩⟩)) fun n hn => ?_
  have hagent : logUserAgent inp = logUserAgent inp' :=
    h .agent (.inr ⟨hgoes.1, .inr ⟨hgoes.2, .inr ⟨hpasses, .inr ⟨hn, rfl⟩⟩⟩⟩)
  rw [hagent]

theorem setup_same (h : ∀ s ∈ setupSearches inp, s.Same inp inp') :
    RTSP_setup w inp rtsp st = RTSP_setup w inp' rtsp st := by
  unfold setupSearches at h
  simp only [mem_lookFor, List.mem_singleton] at h
  have hscan : scanUrl inp = scanUrl inp' := h .url (.inl rfl)
  have hurl : setupUrl inp = setupUrl inp' := by
    rw [setupUrl, setupUrl, requestUrl, requestUrl, hscan]
  unfold RTSP_setup
  refine check_congr hurl fun u hu => ?_
  have hpasses := passes_ok hu
  have hcseq : scanCseq scanAnyWord inp = scanCseq scanAnyWord inp' :=
    h .setupCseq (.inr ⟨hpasses, .inl rfl⟩)
  obtain ⟨object, filename⟩ := u
  dsimp only
  split
  · rfl
  · refine check_congr rfl fun m _ => check_congr (congrArg _ hcseq) fun n hn => ?_
    have hfound := requestCseq_found hn
    have htransport : transportTokens inp = transportTokens inp' :=
      h .transport (.inr ⟨hpasses, .inr ⟨hfound, .inl rfl⟩⟩)
    refine check_congr htransport fun tkns ht => ?_
    have hsession : ∀ w, setupSession w inp = setupSession w inp' :=
      h .setupSession (.inr ⟨hpasses, .inr ⟨hfound, .inr ⟨passes_ok ht, rfl⟩⟩⟩)
    simp only [finishSetup, hsession]

theorem play_same (hsession : scanSession inp = scanSession inp')
    (h : ∀ s ∈ playSearches inp, s.Same inp inp') :
    RTSP_play w inp rtsp st = RTSP_play w inp' rtsp st := by
  unfold playSearches at h
  simp only [mem_lookFor, List.mem_singleton] at h
  unfold RTSP_play
  refine check_cseq (h _ (.inl rfl)) fun n hn => ?_
  have hargs : ∀ single t₀ stack, rangeArgs single t₀ stack inp = rangeArgs single t₀ stack inp' :=
    h .range (.inr ⟨hn, .inl rfl⟩)
  have hrange : rangeChecks inp = rangeChecks inp' := by
    apply ExceptT.ext
    rw [← @rangeArgs_checks id 0 ⟨zeroTm, false, 0, false⟩,
      ← @rangeArgs_checks id 0 ⟨zeroTm, false, 0, false⟩, hargs]
  have hgoes : ∀ u id, (rangeChecks inp).run = some (.ok u) →
      (requestSession errNoerror inp (reject 400 errNoerror)).run = some (.ok id) →
      (passes (rangeChecks inp) && (scanSession inp).isSome) = true := by
    intro u id hu hid
    rw [passes_ok hu, Bool.true_and]
    cases hs : scanSession inp with
    | none =>
      rw [requestSession, hs] at hid
      cases hid
    | some n => rfl
  have hrequest : playRequest inp = playRequest inp' := by
    unfold playRequest
    rw [← hrange]
    refine bind_congr_ok fun u hu => ?_
    have hsame : requestSession errNoerror inp' (reject 400 errNoerror) =
        requestSession errNoerror inp (reject 400 errNoerror) := by
      rw [requestSession, requestSession, hsession]
    rw [hsame]
    refine bind_congr_ok fun id hid => ?_
    have hurl : scanUrl inp = scanUrl inp' := h .url (.inr ⟨hn, .inr ⟨hgoes u id hu hid, .inl rfl⟩⟩)
    rw [requestUrl, requestUrl, hurl]
  refine check_congr hrequest fun r hr => check_congr rfl fun session _ =>
    check_congr rfl fun st₁ _ => ?_
  have hagent : logUserAgent inp = logUserAgent inp' := by
    have hpasses := passes_ok hr
    obtain ⟨u, hu, hr⟩ := bind_ok hr
    obtain ⟨id, hid, -⟩ := bind_ok hr
    exact h .agent (.inr ⟨hn, .inr ⟨hgoes u id hu hid, .inr ⟨hpasses, rfl⟩⟩⟩)
  rw [hagent]

theorem pause_same (hsession : scanSession inp = scanSession inp')
    (h : ∀ s ∈ pauseSearches inp, s.Same inp inp') :
    RTSP_pause w inp rtsp st = RTSP_pause w inp' rtsp st := by
  unfold pauseSearches at h
  simp only [mem_lookFor, List.mem_singleton] at h
  unfold RTSP_pause
  refine check_cseq (h _ (.inl rfl)) fun n hn => ?_
  have hurl : scanUrl inp = scanUrl inp' := h .url (.inr ⟨hn, .inl rfl⟩)
  have hrequest : pauseRequest w inp = pauseRequest w inp' := by
    simp only [pauseRequest, requestUrl, hurl, requestSession, hsession]
  refine check_congr hrequest fun id hid => check_congr rfl fun session _ => ?_
  have hagent : logUserAgent inp = logUserAgent inp' := by
    refine h .agent (.inr ⟨hn, .inr ⟨?_, rfl⟩⟩)
    have hpasses := passes_ok hid
    obtain ⟨u, hu, hid⟩ := bind_ok hid
    by_cases hhost : u.server = w.hostname
    · have hsame : pauseRequest { hostname := u.server } inp = pauseRequest w inp := by
        simp only [pauseRequest, hhost]
      rw [pausable, hu]
      dsimp only
      rw [hsame]
      exact hpasses
    · rw [if_pos hhost] at hid
      cases hid
  rw [hagent]

theorem teardown_same (hsession : scanSession inp = scanSession inp')
    (h : ∀ s ∈ teardownSearches inp, s.Same inp inp') :
    RTSP_teardown w inp rtsp st = RTSP_teardown w inp' rtsp st := by
  unfold teardownSearches at h
  simp only [mem_lookFor, List.mem_singleton] at h
  unfold RTSP_teardown
  refine check_cseq (h _ (.inl rfl)) fun n hn => ?_
  have hurl : scanUrl inp = scanUrl inp' := h .url (.inr ⟨hn, .inl rfl⟩)
  have hrequest : teardownRequest inp = teardownRequest inp' := by
    simp only [teardownRequest, requestUrl, hurl, requestSession, hsession]
  refine check_congr hrequest fun r hr => check_congr rfl fun session _ => ?_
  have hagent : logUserAgent inp = logUserAgent inp' :=
    h .agent (.inr ⟨hn, .inr ⟨passes_ok hr, rfl⟩⟩)
  rw [hagent]

theorem handler_same (x : Handler) (hsession : scanSession inp = scanSession inp')
    (h : ∀ s ∈ x.searches inp, s.Same inp inp') : x.run w inp rtsp st = x.run w inp' rtsp st := by
  cases x with
  | describe => exact describe_same h
  | options => exact options_same h
  | setup => exact setup_same h
  | play => exact play_same hsession h
  | pause => exact pause_same hsession h
  | teardown => exact teardown_same hsession h

theorem state_machine_same {m : Method} (hsession : scanSession inp = scanSession inp')
    (h : scanSession inp ≠ some none → ∀ x, m.handler = some x →
      ∀ s ∈ x.searches inp, s.Same inp inp') :
    RTSP_state_machine w inp rtsp st m = RTSP_state_machine w inp' rtsp st m := by
  rw [state_machine_cell, state_machine_cell, ← hsession]
  by_cases hbad : scanSession inp = some none
  · rw [if_pos hbad, if_pos hbad]
  · rw [if_neg hbad, if_neg hbad]
    cases rtsp.sessionList with
    | none => rfl
    | some p =>
      dsimp only
      have hsame : ∀ x, (cell p.curState m).handler = some x →
          x.run w inp rtsp st = x.run w inp' rtsp st := fun x hx =>
        handler_same x hsession (h hbad x (cell_handler hx))
      cases hcell : cell p.curState m with
      | move x next =>
        rw [hcell] at hsame
        rw [Cell.exec, Cell.exec, hsame x rfl]
      | stay x =>
        rw [hcell] at hsame
        rw [Cell.exec, Cell.exec, hsame x rfl]
      | refuse | silent => rfl

end Handlers

theorem SameReads.handled {inp inp' : Bytes} (h : SameReads inp inp') (w : World)
    (rtsp : RTSPBuffer) (st : Streams) :
    handleMessage w inp rtsp st = handleMessage w inp' rtsp st := by
  have hfound := h.found
  rw [handleMessage, handleMessage, ← h.response]
  by_cases hresponse : RTSP_valid_response_msg inp = true
  · rw [if_pos hresponse, if_pos hresponse]
  · rw [if_neg hresponse, if_neg hresponse, ← h.validated (eq_false_of_ne_true hresponse)]
    cases hv : RTSP_validate_method inp with
    | none => rfl
    | some v =>
      obtain ⟨seq, method⟩ := v
      cases method with
      | none => rfl
      | some m =>
        have hmethod : messageMethod inp = some m := by rw [messageMethod, hv, Option.bind_some]
        have hmem : ∀ s, s ∈ searches inp ↔
            s = .session ∨ scanSession inp ≠ some none ∧
              s ∈ (m.handler.map (Handler.searches inp)).getD [] := by
          intro s
          rw [searches, if_neg hresponse, hmethod]
          dsimp only
          rw [mem_lookFor, decide_eq_true_iff]
        dsimp only
        refine state_machine_same (hfound _ ((hmem _).mpr (.inl rfl))) fun hgood x hx s hs => ?_
        refine hfound s ((hmem s).mpr (.inr ⟨hgood, ?_⟩))
        rw [hx]
        exact hs

end Fenice.Rtsp
