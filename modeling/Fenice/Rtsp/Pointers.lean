import Fenice.Rtsp.Tokens

/-!
# The pointers that SETUP and PLAY follow

Most results of `strstr`, `strchr` and `strrchr` in `RTSP_setup` and `RTSP_play` are
compared with `NULL` first. Those that are not are listed here with whether they are there,
in the order of their use; so is the first RTP session that `send_play_reply` begins with.
The list ends with the first null pointer.
-/

namespace Fenice.Rtsp
open Fenice.CString Fenice.Schedule Fenice.Run

inductive Pointer where
  | sdName
  | clientPortRTP | clientPortRTCP | interleavedRTP
  | hour | min | sec | time
  | firstSession
  | agentEnd
  deriving DecidableEq

/-- A pointer that is used, and whether it is not `NULL`. -/
structure Use where
  pointer : Pointer
  found : Bool
  deriving DecidableEq

def AllFound (uses : List Use) : Prop := ∀ u ∈ uses, u.found = true

instance (uses : List Use) : Decidable (AllFound uses) :=
  inferInstanceAs (Decidable (∀ u ∈ uses, u.found = true))

@[simp] theorem allFound_nil : AllFound [] := List.forall_mem_nil _

@[simp] theorem allFound_cons {u : Use} {uses : List Use} :
    AllFound (u :: uses) ↔ u.found = true ∧ AllFound uses := List.forall_mem_cons

@[simp] theorem allFound_append {uses uses' : List Use} :
    AllFound (uses ++ uses') ↔ AllFound uses ∧ AllFound uses' := List.forall_mem_append

/-! ### The uses -/

/-- A search whose result is used, and what is used behind it. -/
def follow (pointer : Pointer) (found : Option Bytes) (rest : Bytes → List Use) : List Use :=
  ⟨pointer, found.isSome⟩ ::
    match found with
    | none => []
    | some q => rest q

/-- `client_port=a-b`. -/
def clientPortUses (tkn : Bytes) : List Use :=
  match strstr tkn (lit "client_port") with
  | none => []
  | some p =>
    follow .clientPortRTP (strchr p 61) fun q => follow .clientPortRTCP (strchr q 45) fun _ => []

/-- `interleaved=a-b`; the second number may be missing. -/
def interleavedUses (tkn : Bytes) : List Use :=
  match strstr tkn (lit "interleaved") with
  | none => []
  | some p => follow .interleavedRTP (strchr p 61) fun _ => []

/-- The loop over the settings of the header `Transport`. -/
def transportUses (w : World) (inp : Bytes) (e : SetupEntry) : List Use :=
  match passed (transportTokens inp) with
  | none => []
  | some tkns =>
    if w.getpeername = false then []
    else
      match firstOffer (e.st.descr e.d).flMulticast tkns with
      | some (.unicast, tkn) => clientPortUses tkn
      | some (.tcp, tkn) => interleavedUses tkn
      | _ => []

/-- `RTSP_setup`. -/
def setupUses (w : World) (inp : Bytes) (st : Streams) : List Use :=
  match passed (setupObject inp) with
  | none => []
  | some u =>
    follow .sdName (strstr u.1 (lit ".sd")) fun _ =>
      match setupEntry w inp st with
      | none => []
      | some e => transportUses w inp e

/-- The time of day in the header `Range`. -/
def timeUses (p : Bytes) : List Use :=
  match strstr p (lit "time") with
  | none => []
  | some q => follow .time (strchr q 61) fun _ => []

/-- The header `Range`. Without a format, the fields of the time are looked for. -/
def rangeUses (p : Bytes) : List Use :=
  match strstr p (lit "npt") with
  | some q =>
    match strchr q 61 with
    | none => []
    | some q => if (strchr q 45).isSome then timeUses p else []
  | none =>
    if (strstr p (lit "smpte")).isSome || (strstr p (lit "clock")).isSome then timeUses p
    else if (strstr p (lit "time")).isSome then []
    else
      follow .hour (strchr p 58) fun q =>
        follow .min (strchr (q.drop 1) 58) fun q => follow .sec (strchr (q.drop 1) 58) fun _ => []

/-- The end of the line that is logged. -/
def agentUses (inp : Bytes) : List Use :=
  match strstr inp hdrUserAgent with
  | none => []
  | some p => follow .agentEnd (strchr p lf) fun _ => []

/-- `send_play_reply` and the log behind it. -/
def replyUses (inp : Bytes) (session : RTSPSession) : List Use :=
  ⟨.firstSession, session.rtpSession != []⟩ ::
    if session.rtpSession = [] then [] else agentUses inp

def playedSession (inp : Bytes) (rtsp : RTSPBuffer) (st : Streams) : Option RTSPSession :=
  (passed (playRequest inp)).bind fun r =>
    (passed (sameSession errNoerror rtsp r.id)).bind fun session =>
      (passed (playTarget session st r.target)).map fun _ => session

/-- `RTSP_play`. -/
def playUses (inp : Bytes) (rtsp : RTSPBuffer) (st : Streams) : List Use :=
  if (scanCseq (scanWord 254) inp).isSome then
    (match strstr inp hdrRange with
      | none => []
      | some p => rangeUses p) ++
    match playedSession inp rtsp st with
    | none => []
    | some session => replyUses inp session
  else []

/-- The method that is run for a request. -/
def dispatched (inp : Bytes) (rtsp : RTSPBuffer) : Option Handler :=
  if RTSP_valid_response_msg inp || scanSession inp == some none then none
  else
    match RTSP_validate_method inp, rtsp.sessionList with
    | some (_, some m), some p =>
      match cell p.curState m with
      | .move h _ | .stay h => some h
      | _ => none
    | _, _ => none

def Handler.uses (w : World) (inp : Bytes) (rtsp : RTSPBuffer) (st : Streams) :
    Handler → List Use
  | .setup => setupUses w inp st
  | .play => playUses inp rtsp st
  | _ => []

def requestUses (w : World) (inp : Bytes) (rtsp : RTSPBuffer) (st : Streams) : List Use :=
  match dispatched inp rtsp with
  | none => []
  | some h => h.uses w inp rtsp st

/-! ### The requests whose pointers are all there -/

/-- `=` follows, and `-` behind it. -/
def PortsGiven (tkn : Bytes) : Prop :=
  ∀ p ∈ strstr tkn (lit "client_port"), ∃ q, strchr p 61 = some q ∧ 45 ∈ q

def ChannelsGiven (tkn : Bytes) : Prop := ∀ p ∈ strstr tkn (lit "interleaved"), 61 ∈ p

/-- The setting that SETUP takes gives the numbers it names. -/
structure OfferGiven (w : World) (inp : Bytes) (e : SetupEntry) : Prop where
  unicast : ∀ tkns tkn, (transportTokens inp).run = some (.ok tkns) → w.getpeername = true →
    firstOffer (e.st.descr e.d).flMulticast tkns = some (.unicast, tkn) → PortsGiven tkn
  tcp : ∀ tkns tkn, (transportTokens inp).run = some (.ok tkns) → w.getpeername = true →
    firstOffer (e.st.descr e.d).flMulticast tkns = some (.tcp, tkn) → ChannelsGiven tkn

/-- The object of a SETUP names an SD file, and its transport gives its numbers. -/
structure SetupGiven (w : World) (inp : Bytes) (st : Streams) : Prop where
  sd : ∀ u, (setupObject inp).run = some (.ok u) → lit ".sd" <:+: u.1
  offer : ∀ e, setupEntry w inp st = some e → OfferGiven w inp e

/-- A format that is accepted. -/
def NptRange (p : Bytes) : Prop :=
  ∃ q, strstr p (lit "npt") = some q ∧ ∃ t, strchr q 61 = some t ∧ 45 ∈ t

def Formatted (p : Bytes) : Prop :=
  NptRange p ∨ ¬ lit "npt" <:+: p ∧ (lit "smpte" <:+: p ∨ lit "clock" <:+: p)

def Unformatted (p : Bytes) : Prop :=
  ¬ lit "npt" <:+: p ∧ ¬ lit "smpte" <:+: p ∧ ¬ lit "clock" <:+: p ∧ ¬ lit "time" <:+: p

/-- The text from the header `Range` on: with a format, `=` follows `time`; without one
there are three colons. -/
structure RangeGiven (p : Bytes) : Prop where
  time : Formatted p → ∀ q ∈ strstr p (lit "time"), 61 ∈ q
  fields : Unformatted p → 3 ≤ p.count 58

/-- The session has RTP sessions, and the line with the agent ends. -/
structure ReplyGiven (inp : Bytes) (session : RTSPSession) : Prop where
  nonempty : session.rtpSession ≠ []
  agent : ∀ p ∈ strstr inp hdrUserAgent, lf ∈ p

structure PlayGiven (inp : Bytes) (rtsp : RTSPBuffer) (st : Streams) : Prop where
  range : ∀ p ∈ strstr inp hdrRange, RangeGiven p
  reply : ∀ session, playedSession inp rtsp st = some session → ReplyGiven inp session

/-- The request is no SETUP or PLAY that is run, or it gives what they look for. -/
structure RequestGiven (w : World) (inp : Bytes) (rtsp : RTSPBuffer) (st : Streams) : Prop where
  setup : dispatched inp rtsp = some .setup → SetupGiven w inp st
  play : dispatched inp rtsp = some .play → (scanCseq (scanWord 254) inp).isSome = true →
    PlayGiven inp rtsp st

@[simp] theorem follow_found {pointer : Pointer} {found : Option Bytes} {rest : Bytes → List Use} :
    AllFound (follow pointer found rest) ↔ ∃ q, found = some q ∧ AllFound (rest q) := by
  cases found with
  | none => simp [follow]
  | some q => simp [follow]

theorem follow_last {pointer : Pointer} {found : Option Bytes} :
    AllFound (follow pointer found fun _ => []) ↔ found.isSome = true := by
  rw [follow_found, Option.isSome_iff_exists]
  simp

theorem clientPortUses_found (tkn : Bytes) : AllFound (clientPortUses tkn) ↔ PortsGiven tkn := by
  unfold clientPortUses PortsGiven
  cases strstr tkn (lit "client_port") with
  | none => simp
  | some p => simp [← strchr_isSome, Option.isSome_iff_exists]

theorem interleavedUses_found (tkn : Bytes) :
    AllFound (interleavedUses tkn) ↔ ChannelsGiven tkn := by
  unfold interleavedUses ChannelsGiven
  cases strstr tkn (lit "interleaved") with
  | none => simp
  | some p => simp [follow_last, strchr_isSome, -follow_found]

theorem timeUses_found (p : Bytes) :
    AllFound (timeUses p) ↔ ∀ q ∈ strstr p (lit "time"), 61 ∈ q := by
  unfold timeUses
  cases strstr p (lit "time") with
  | none => simp
  | some q => simp [follow_last, strchr_isSome, -follow_found]

theorem agentUses_found (inp : Bytes) :
    AllFound (agentUses inp) ↔ ∀ p ∈ strstr inp hdrUserAgent, lf ∈ p := by
  unfold agentUses
  cases strstr inp hdrUserAgent with
  | none => simp
  | some p => simp [follow_last, strchr_isSome, -follow_found]

theorem fields_found (p : Bytes) :
    AllFound (follow .hour (strchr p 58) fun q =>
      follow .min (strchr (q.drop 1) 58) fun q => follow .sec (strchr (q.drop 1) 58) fun _ => []) ↔
    3 ≤ p.count 58 := by
  simp only [follow_found, lt_count_iff, Nat.zero_le, and_true, allFound_nil]

theorem rangeUses_found (p : Bytes) : AllFound (rangeUses p) ↔ RangeGiven p := by
  have hgiven : ∀ {f u : Prop}, (Formatted p ↔ f) → (Unformatted p ↔ u) →
      (RangeGiven p ↔ (f → ∀ q ∈ strstr p (lit "time"), 61 ∈ q) ∧ (u → 3 ≤ p.count 58)) :=
    fun hf hu => ⟨fun h => ⟨fun h' => h.time (hf.mpr h'), fun h' => h.fields (hu.mpr h')⟩,
      fun h => ⟨fun h' => h.1 (hf.mp h'), fun h' => h.2 (hu.mp h')⟩⟩
  unfold rangeUses
  cases hnpt : strstr p (lit "npt") with
  | some q =>
    have hin : lit "npt" <:+: p := strstr_isSome.mp (by rw [hnpt]; rfl)
    have hunformatted : Unformatted p ↔ False := iff_false_intro fun h => h.1 hin
    have hformatted : Formatted p ↔ ∃ t, strchr q 61 = some t ∧ 45 ∈ t := by
      simp [Formatted, NptRange, hnpt, hin]
    rw [hgiven hformatted hunformatted]
    dsimp only
    cases strchr q 61 with
    | none => simp
    | some t =>
      by_cases hdash : 45 ∈ t
      · simp [strchr_isSome, hdash, timeUses_found]
      · simp [strchr_isSome, hdash]
  | none =>
    have hnot : ¬ lit "npt" <:+: p := by
      rw [← strstr_isSome, hnpt]
      exact Bool.false_ne_true
    have hformatted : Formatted p ↔ lit "smpte" <:+: p ∨ lit "clock" <:+: p := by
      simp [Formatted, NptRange, hnpt, hnot]
    have hunformatted : Unformatted p ↔
        ¬ (lit "smpte" <:+: p ∨ lit "clock" <:+: p) ∧ ¬ lit "time" <:+: p := by
      simp [Unformatted, hnot, not_or, and_assoc]
    rw [hgiven hformatted hunformatted]
    simp only [Bool.or_eq_true, strstr_isSome]
    by_cases hkind : lit "smpte" <:+: p ∨ lit "clock" <:+: p
    · simp [hkind, timeUses_found]
    · by_cases htime : lit "time" <:+: p
      · simp [hkind, htime]
      · simp only [hkind, htime, if_false, not_false_eq_true, and_self, true_imp_iff, false_imp_iff,
          true_and]
        exact fields_found p

theorem replyUses_found (inp : Bytes) (session : RTSPSession) :
    AllFound (replyUses inp session) ↔ ReplyGiven inp session := by
  unfold replyUses
  by_cases hempty : session.rtpSession = []
  · simp only [hempty, if_true, allFound_cons, bne_self_eq_false]
    constructor
    · rintro ⟨h, -⟩
      cases h
    · intro h
      exact absurd hempty h.nonempty
  · rw [allFound_cons, if_neg hempty, agentUses_found]
    exact ⟨fun h => ⟨hempty, h.2⟩, fun h => ⟨bne_iff_ne.mpr hempty, h.agent⟩⟩

theorem playUses_found (inp : Bytes) (rtsp : RTSPBuffer) (st : Streams) :
    AllFound (playUses inp rtsp st) ↔
      ((scanCseq (scanWord 254) inp).isSome = true → PlayGiven inp rtsp st) := by
  unfold playUses
  split
  · rename_i hcseq
    have hrange : AllFound (match strstr inp hdrRange with
        | none => []
        | some p => rangeUses p) ↔ ∀ p ∈ strstr inp hdrRange, RangeGiven p := by
      cases strstr inp hdrRange with
      | none => simp
      | some p => simp [rangeUses_found]
    have hreply : AllFound (match playedSession inp rtsp st with
        | none => []
        | some session => replyUses inp session) ↔
        ∀ session, playedSession inp rtsp st = some session → ReplyGiven inp session := by
      cases playedSession inp rtsp st with
      | none => simp
      | some session => simp [replyUses_found]
    rw [allFound_append, hrange, hreply]
    exact ⟨fun h _ => ⟨h.1, h.2⟩, fun h => ⟨(h hcseq).range, (h hcseq).reply⟩⟩
  · rename_i hcseq
    exact ⟨fun _ h => absurd h hcseq, fun _ => allFound_nil⟩

theorem transportUses_found (w : World) (inp : Bytes) (e : SetupEntry) :
    AllFound (transportUses w inp e) ↔ OfferGiven w inp e := by
  unfold transportUses
  cases htkns : passed (transportTokens inp) with
  | none =>
    have hnot : ∀ tkns, (transportTokens inp).run ≠ some (.ok tkns) := by
      intro tkns hrun
      rw [passed_eq_some.mpr hrun] at htkns
      cases htkns
    exact ⟨fun _ => ⟨fun tkns _ h => absurd h (hnot tkns), fun tkns _ h => absurd h (hnot tkns)⟩,
      fun _ => allFound_nil⟩
  | some tkns =>
    have hrun := passed_eq_some.mp htkns
    have honly : ∀ tkns', (transportTokens inp).run = some (.ok tkns') → tkns' = tkns := by
      intro tkns' h
      rw [hrun] at h
      cases h
      rfl
    simp only
    split
    · rename_i hpeer
      exact ⟨fun _ => ⟨fun _ _ _ h => (by rw [hpeer] at h; cases h),
        fun _ _ _ h => (by rw [hpeer] at h; cases h)⟩, fun _ => allFound_nil⟩
    · rename_i hpeer
      have hpeer : w.getpeername = true := by simpa using hpeer
      have hgiven : ∀ {a b : Prop},
          ((∀ tkn, firstOffer (e.st.descr e.d).flMulticast tkns = some (.unicast, tkn) →
            PortsGiven tkn) ↔ a) →
          ((∀ tkn, firstOffer (e.st.descr e.d).flMulticast tkns = some (.tcp, tkn) →
            ChannelsGiven tkn) ↔ b) → (OfferGiven w inp e ↔ a ∧ b) := by
        intro a b ha hb
        rw [← ha, ← hb]
        constructor
        · exact fun h => ⟨fun tkn => h.unicast tkns tkn hrun hpeer,
            fun tkn => h.tcp tkns tkn hrun hpeer⟩
        · intro h
          constructor
          · intro tkns' tkn hrun' _ hoffer
            rw [honly tkns' hrun'] at hoffer
            exact h.1 tkn hoffer
          · intro tkns' tkn hrun' _ hoffer
            rw [honly tkns' hrun'] at hoffer
            exact h.2 tkn hoffer
      rw [hgiven Iff.rfl Iff.rfl]
      split
      · rename_i tkn hoffer
        simp [hoffer, clientPortUses_found]
      · rename_i tkn hoffer
        simp [hoffer, interleavedUses_found]
      · rename_i hunicast htcp
        refine ⟨fun _ => ⟨fun tkn h => absurd h (hunicast tkn), fun tkn h => absurd h (htcp tkn)⟩,
          fun _ => allFound_nil⟩

theorem setupUses_found (w : World) (inp : Bytes) (st : Streams) :
    AllFound (setupUses w inp st) ↔ SetupGiven w inp st := by
  unfold setupUses
  cases hu : passed (setupObject inp) with
  | none =>
    have hnot : ∀ u, (setupObject inp).run ≠ some (.ok u) := by
      intro u hrun
      rw [passed_eq_some.mpr hrun] at hu
      cases hu
    refine ⟨fun _ => ⟨fun u h => absurd h (hnot u), fun e he => ?_⟩, fun _ => allFound_nil⟩
    obtain ⟨u, hurl, _⟩ := Option.bind_eq_some_iff.mp he
    have hrun := passed_eq_some.mp hurl
    rw [setupUrl_eq] at hrun
    obtain ⟨v, hv, _⟩ := run_bind_iff.mp hrun
    exact absurd hv (hnot v)
  | some u =>
    have hrun := passed_eq_some.mp hu
    have hsd : (∀ v, (setupObject inp).run = some (.ok v) → lit ".sd" <:+: v.1) ↔
        lit ".sd" <:+: u.1 := by
      constructor
      · exact fun h => h u hrun
      · intro h v hv
        rw [hrun] at hv
        cases hv
        exact h
    have hentry : AllFound (match setupEntry w inp st with
        | none => []
        | some e => transportUses w inp e) ↔
        ∀ e, setupEntry w inp st = some e → OfferGiven w inp e := by
      cases setupEntry w inp st with
      | none => simp
      | some e => simp [transportUses_found]
    simp only [follow_found, hentry, exists_and_right, ← Option.isSome_iff_exists, strstr_isSome]
    exact ⟨fun h => ⟨hsd.mpr h.1, h.2⟩, fun h => ⟨hsd.mp h.sd, h.offer⟩⟩

/-- A request has no null pointer followed iff it gives what SETUP and PLAY look for. -/
theorem pointers_found_iff (w : World) (inp : Bytes) (rtsp : RTSPBuffer) (st : Streams) :
    AllFound (requestUses w inp rtsp st) ↔ RequestGiven w inp rtsp st := by
  have hgiven : ∀ h, dispatched inp rtsp = some h →
      (RequestGiven w inp rtsp st ↔ (h = .setup → SetupGiven w inp st) ∧
        (h = .play → (scanCseq (scanWord 254) inp).isSome = true → PlayGiven inp rtsp st)) := by
    intro h hd
    constructor
    · exact fun hg => ⟨fun he => hg.setup (he ▸ hd), fun he => hg.play (he ▸ hd)⟩
    · intro hg
      constructor
      · intro hs
        rw [hd] at hs
        exact hg.1 (Option.some.inj hs)
      · intro hs
        rw [hd] at hs
        exact hg.2 (Option.some.inj hs)
  unfold requestUses
  cases hd : dispatched inp rtsp with
  | none =>
    refine ⟨fun _ => ⟨fun h => ?_, fun h => ?_⟩, fun _ => allFound_nil⟩
    · rw [hd] at h
      cases h
    · rw [hd] at h
      cases h
  | some h =>
    rw [hgiven h hd]
    cases h with
    | setup => simp [Handler.uses, setupUses_found]
    | play => simp [Handler.uses, playUses_found]
    | describe | options | pause | teardown => simp [Handler.uses]

/-! ### A method that ends has followed none -/

theorem check_isSome {α : Type} {rtsp : RTSPBuffer} {st : Streams} {x : Checks α} {k : α → Handled}
    (h : (check rtsp st x k).isSome = true) :
    x.run.isSome = true ∧ ∀ a, x.run = some (.ok a) → (k a).isSome = true := by
  unfold check at h
  split at h
  · cases h
  · rename_i r hr
    rw [hr]
    exact ⟨rfl, fun a ha => by cases ha⟩
  · rename_i a ha
    rw [ha]
    refine ⟨rfl, fun b hb => ?_⟩
    cases hb
    exact h

theorem run_bind_isSome {α β : Type} {x : Checks α} {k : α → Checks β}
    (h : (x >>= k).run.isSome = true) :
    x.run.isSome = true ∧ ∀ a, x.run = some (.ok a) → (k a).run.isSome = true := by
  rw [ExceptT.run_bind] at h
  cases hx : x.run with
  | none =>
    rw [hx] at h
    cases h
  | some e =>
    refine ⟨rfl, fun a ha => ?_⟩
    cases ha
    rw [hx] at h
    exact h

theorem presentation_found {object : Bytes} (h : (presentation object).isSome = true) :
    lit ".sd" <:+: object := by
  rw [presentation, Option.isSome_map] at h
  exact strstr_isSome.mp h

theorem clientPorts_given {tkn : Bytes} (h : (clientPorts tkn).run.isSome = true) :
    PortsGiven tkn := by
  intro p hp
  unfold clientPorts at h
  rw [Option.mem_def.mp hp] at h
  dsimp only at h
  cases hq : strchr p 61 with
  | none =>
    rw [hq] at h
    cases h
  | some q =>
    refine ⟨q, rfl, strchr_isSome.mp ?_⟩
    rw [hq] at h
    dsimp only at h
    cases hr : strchr q 45 with
    | none =>
      rw [hr] at h
      cases h
    | some r => rfl

theorem interleavedChannels_given {st : Streams} {list : List ℕ} {tkn : Bytes}
    (h : (interleavedChannels st list tkn).run.isSome = true) : ChannelsGiven tkn := by
  intro p hp
  unfold interleavedChannels at h
  rw [Option.mem_def.mp hp] at h
  dsimp only at h
  refine strchr_isSome.mp ?_
  cases hq : strchr p 61 with
  | none =>
    rw [hq] at h
    cases h
  | some q => rfl

theorem setup_follows {w : World} {inp : Bytes} {rtsp : RTSPBuffer} {st : Streams}
    (h : (RTSP_setup w inp rtsp st).isSome = true) : AllFound (setupUses w inp st) := by
  rw [setupUses_found]
  obtain ⟨hurl, hrest⟩ := check_isSome h
  constructor
  · intro u hu
    rw [setupUrl_eq] at hurl
    have hfound := (run_bind_isSome hurl).2 u hu
    apply presentation_found
    cases hp : presentation u.1 with
    | none =>
      rw [hp] at hfound
      cases hfound
    | some object => rfl
  · intro e he
    obtain ⟨u, hu, he⟩ := Option.bind_eq_some_iff.mp he
    have hmedia := hrest u (passed_eq_some.mp hu)
    dsimp only at hmedia
    split at he
    · cases he
    · rename_i d st' henum
      obtain ⟨m, hm, he⟩ := Option.bind_eq_some_iff.mp he
      obtain ⟨n, hn, rfl⟩ := Option.map_eq_some_iff.mp he
      rw [henum] at hmedia
      have hcseq := (check_isSome hmedia).2 m (passed_eq_some.mp hm)
      have htokens := (check_isSome hcseq).2 n (by rw [hn]; rfl)
      have hchosen : ∀ tkns, (transportTokens inp).run = some (.ok tkns) → w.getpeername = true →
          (chooseTransport w { rtsp with rtspCseq := n } st' d m tkns).run.isSome = true := by
        intro tkns htkns hpeer
        have hpeered := (check_isSome htokens).2 tkns htkns
        rw [if_neg (by rw [hpeer]; exact Bool.noConfusion)] at hpeered
        exact (check_isSome hpeered).1
      constructor
      · intro tkns tkn htkns hpeer hoffer
        have hrun := hchosen tkns htkns hpeer
        unfold chooseTransport at hrun
        rw [hoffer] at hrun
        exact clientPorts_given (run_bind_isSome hrun).1
      · intro tkns tkn htkns hpeer hoffer
        have hrun := hchosen tkns htkns hpeer
        unfold chooseTransport at hrun
        rw [hoffer] at hrun
        exact interleavedChannels_given (run_bind_isSome hrun).1

theorem colons_isSome {n : ℕ} {s : Bytes} : (colons n s).isSome = true ↔ n ≤ s.count 58 := by
  induction n generalizing s with
  | zero => simp [colons]
  | succ n ih =>
    rw [lt_count_iff, colons]
    cases strchr s 58 with
    | none => simp
    | some q => simp [ih]

theorem time_given {p : Bytes}
    (h : (match strstr p (lit "time") with
      | none => pure ()
      | some q => if (false || (strchr q 61).isSome) = true then pure () else undefined :
        Checks Unit).run.isSome = true) : ∀ q ∈ strstr p (lit "time"), 61 ∈ q := by
  intro q hq
  rw [Option.mem_def.mp hq] at h
  by_contra hnot
  rw [← strchr_isSome] at hnot
  dsimp only at h
  rw [if_neg (by simpa using hnot)] at h
  cases h

theorem strstr_none {s word : Bytes} : strstr s word = none ↔ ¬ word <:+: s := by
  rw [← strstr_isSome, Bool.not_eq_true, Option.isSome_eq_false_iff, Option.isNone_iff_eq_none]

theorem rangeChecks_given {inp p : Bytes} (hp : strstr inp hdrRange = some p)
    (h : (rangeChecks inp).run.isSome = true) : RangeGiven p := by
  unfold rangeChecks at h
  rw [hp] at h
  dsimp only at h
  constructor
  · rintro (⟨n, hn, t, ht, hdash⟩ | ⟨hn, hkind⟩)
    · rw [hn] at h
      dsimp only at h
      rw [ht] at h
      dsimp only at h
      rw [if_pos (strchr_isSome.mpr hdash)] at h
      exact time_given h
    · rw [strstr_none.mpr hn] at h
      dsimp only at h
      rw [if_pos (by simpa [strstr_isSome] using hkind)] at h
      exact time_given h
  · rintro ⟨hn, hsmpte, hclock, htime⟩
    rw [strstr_none.mpr hn] at h
    dsimp only at h
    rw [if_neg (by simp [strstr_isSome, hsmpte, hclock]),
      if_neg (by simpa [strstr_isSome] using htime)] at h
    rw [← colons_isSome]
    cases hc : colons 3 p with
    | none =>
      rw [hc] at h
      cases h
    | some u => rfl

theorem play_follows {w : World} {inp : Bytes} {rtsp : RTSPBuffer} {st : Streams}
    (h : (RTSP_play w inp rtsp st).isSome = true) : AllFound (playUses inp rtsp st) := by
  rw [playUses_found]
  intro hcseq
  obtain ⟨n, hn⟩ := Option.isSome_iff_exists.mp hcseq
  obtain ⟨-, hrest⟩ := check_isSome h
  have hnumber := hrest n (by rw [hn]; rfl)
  obtain ⟨hrequest, hrest⟩ := check_isSome hnumber
  constructor
  · exact fun p hp => rangeChecks_given hp (run_bind_isSome hrequest).1
  · intro session hsession
    obtain ⟨r, hr, hs⟩ := Option.bind_eq_some_iff.mp hsession
    obtain ⟨session', hs', ht⟩ := Option.bind_eq_some_iff.mp hs
    obtain ⟨st', hst', rfl⟩ := Option.map_eq_some_iff.mp ht
    have hfound := (check_isSome (hrest r (passed_eq_some.mp hr))).2 session'
      (passed_eq_some.mp hs')
    have hsent := (check_isSome hfound).2 st' (passed_eq_some.mp hst')
    obtain ⟨out, hout⟩ := Option.isSome_iff_exists.mp hsent
    obtain ⟨rtsp', hreply, hlog⟩ := Option.bind_eq_some_iff.mp hout
    constructor
    · intro hempty
      rw [send_play_reply, if_pos hempty] at hreply
      cases hreply
    · intro p hp
      obtain ⟨_, hlogged, _⟩ := Option.map_eq_some_iff.mp hlog
      rw [logUserAgent, Option.mem_def.mp hp] at hlogged
      obtain ⟨q, hq, _⟩ := Option.map_eq_some_iff.mp hlogged
      exact strchr_isSome.mp (by rw [hq]; rfl)

theorem handler_follows {w : World} {inp : Bytes} {rtsp : RTSPBuffer} {st : Streams} {x : Handler}
    (h : (x.run w inp rtsp st).isSome = true) : AllFound (x.uses w inp rtsp st) := by
  cases x with
  | setup => exact @setup_follows w inp rtsp st h
  | play => exact @play_follows w inp rtsp st h
  | describe | options | pause | teardown => exact allFound_nil

theorem uses_number (w : World) (inp : Bytes) (rtsp : RTSPBuffer) (st : Streams) (n : ℕ)
    (x : Handler) : x.uses w inp { rtsp with rtspCseq := n } st = x.uses w inp rtsp st := by
  cases x <;> rfl

theorem request_follows {w : World} {inp : Bytes} {rtsp : RTSPBuffer} {st : Streams}
    (h : (handleMessage w inp rtsp st).isSome = true) : AllFound (requestUses w inp rtsp st) := by
  unfold requestUses dispatched
  unfold handleMessage at h
  cases hresponse : RTSP_valid_response_msg inp with
  | true => exact allFound_nil
  | false =>
    rw [hresponse, if_neg Bool.false_ne_true] at h
    by_cases hid : scanSession inp = some none
    · simp [hid]
    · rw [Bool.false_or, if_neg (by simpa using hid)]
      cases hvalid : RTSP_validate_method inp with
      | none => exact allFound_nil
      | some v =>
        obtain ⟨seq, om⟩ := v
        cases om with
        | none => exact allFound_nil
        | some m =>
          rw [hvalid] at h
          dsimp only at h
          rw [state_machine_cell, if_neg hid] at h
          dsimp only at h
          cases hp : rtsp.sessionList with
          | none => exact allFound_nil
          | some p =>
            rw [hp] at h
            dsimp only at h ⊢
            cases hc : cell p.curState m with
            | refuse status => exact allFound_nil
            | silent => exact allFound_nil
            | stay x =>
              rw [hc, Cell.exec, stay, Option.isSome_map] at h
              have hfollows := handler_follows h
              rw [← hp, uses_number] at hfollows
              exact hfollows
            | move x next =>
              rw [hc, Cell.exec, moveTo, Option.isSome_map] at h
              have hfollows := handler_follows h
              rw [← hp, uses_number] at hfollows
              exact hfollows

/-- The stream of a file that is no SD file. -/
def setUpSong : Bytes := message "SETUP" "rtsp://localhost/song.mp3!a.mp3" 1 []

/-- On a new connection, `.sd` is looked for in vain. -/
theorem song_follows_null : ¬ ∀ (as : List Act) (sv : Server) (k : ℕ) (rtsp : RTSPBuffer)
    (w : World) (inp : Bytes), exec serverStep Server.init as = some sv →
    sv.connection k = some rtsp →
    dispatched inp rtsp = some .setup ∨ dispatched inp rtsp = some .play →
    AllFound (requestUses w inp rtsp sv.st) := by
  intro hall
  have hnull : ¬ AllFound (requestUses {} setUpSong RTSP_initserver Server.init.st) := by
    decide +kernel
  exact hnull (hall [.connect] Server.init.add_client 0 RTSP_initserver {}
    setUpSong rfl rfl (.inl (by decide +kernel)))

end Fenice.Rtsp
