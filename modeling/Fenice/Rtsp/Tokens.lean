import Fenice.Lib.CSearch
import Fenice.Lib.CStores
import Fenice.Rtsp.Control

/-!
# The arrays that words of a request are put into

`RTSP_valid_response_msg`, OPTIONS and SETUP copy words of the message into arrays on
the stack, and most methods copy what follows `User-Agent` in order to log it. Each
function here lists the stores of one of them, in the order in which they are made.
-/

namespace Fenice.Rtsp
open Fenice.CString Fenice.Schedule

/-- The value of a check that passes. -/
def passed {α : Type} (x : Checks α) : Option α :=
  match x.run with
  | some (.ok a) => some a
  | _ => none

theorem passed_eq_some {α : Type} {x : Checks α} {a : α} :
    passed x = some a ↔ x.run = some (.ok a) := by
  unfold passed
  split
  · rename_i b h
    rw [h, Option.some.injEq, Option.some.injEq, Except.ok.injEq]
  · rename_i h
    constructor
    · intro ha
      cases ha
    · intro ha
      exact absurd ha (h a)

/-! ### The stores -/

/-- `ver`, `trash` twice, and the array `msg` of `RTSP_handler`. -/
def responseFormat : List Conversion :=
  [.word (some 31) 32, .number, .word none 15, .word none 15, .number, .word (some 255) 100]

/-- `RTSP_valid_response_msg`. -/
def responseStores (inp : Bytes) : List Store := scanStores responseFormat inp

/-- `char cut[strlen (p)]; strcpy (cut, p);` -/
def userAgentStores (inp : Bytes) : List Store :=
  match strstr inp hdrUserAgent with
  | none => []
  | some p => [strcpy p.length p]

/-- The first line in OPTIONS: `method`, `url` and `ver`. -/
def optionsFormat : List Conversion :=
  [.word (some 31) 255, .word (some 255) 255, .word (some 31) 255]

/-- `RTSP_options`. -/
def optionsStores (inp : Bytes) : List Store :=
  match strstr inp hdrCseq with
  | none => []
  | some p =>
    scanStores [.word (some 254) 255, .number] p ++
      if (scanCseq (scanWord 254) inp).isSome then
        scanStores optionsFormat inp ++ userAgentStores inp
      else []

/-- The object of a SETUP in front of the first `!`, and the file name behind it. -/
def setupObject (inp : Bytes) : Checks (Bytes × Bytes) := do
  let u ← requestUrl errNoerror inp
  noRelativePath errNoerror u.object
  let p ← extension errNoerror u.object
  supported errNoerror p
  match strchr u.object 33 with
  | none => reject 500 errNoerror
  | some q => pure (u.object.take (u.object.length - q.length), q.drop 1)

/-- `req.filename` and `temp`, and `object` again where `.sd` occurs twice. -/
def objectStores (object filename : Bytes) : List Store :=
  [strcpy 255 filename, strcpy 255 object] ++
    match strstr object (lit ".sd") with
    | none => []
    | some pd =>
      if (strstr (pd.drop 1) (lit ".sd")).isSome then [strcpy 255 (pd.drop 4)] else []

/-- The presentation and the stream of a SETUP that comes to the header `Transport`. -/
structure SetupEntry where
  object : Bytes
  d : ℕ
  m : ℕ
  n : ℕ
  st : Streams

def setupEntry (w : World) (inp : Bytes) (st : Streams) : Option SetupEntry :=
  (passed (setupUrl inp)).bind fun u =>
    match enum_media st u.1 w.file with
    | (.error _, _) => none
    | (.ok d, st) =>
      (passed (setupMedia st d u.2)).bind fun m =>
        (scanCseq scanAnyWord inp).map fun n => ⟨u.1, d, m, n, st⟩

/-- `transport_str`. -/
def transportStores (inp : Bytes) : List Store :=
  match strstr inp hdrTransport with
  | none => []
  | some p => scanStores [.skip (some 10), .word (some 255) 255] p

/-- `address`, which only the first session of a multicast stream writes. -/
def addressStores (w : World) (inp : Bytes) (e : SetupEntry) : List Store :=
  match passed (transportTokens inp) with
  | none => []
  | some tkns =>
    if w.getpeername = false then []
    else
      match firstOffer (e.st.descr e.d).flMulticast tkns with
      | some (.multicast, _) =>
        if (e.st.descr e.d).flMulticastPort then [] else [strcpy 16 (e.st.descr e.d).multicast]
      | _ => []

/-- `sd_filename` of the new session. -/
def sessionStores (w : World) (inp : Bytes) (rtsp : RTSPBuffer) (e : SetupEntry) : List Store :=
  match passed (transportTokens inp) with
  | none => []
  | some tkns =>
    if w.getpeername = false then []
    else
      match passed (chooseTransport w { rtsp with rtspCseq := e.n } e.st e.d e.m tkns),
          passed (setupSession w inp) with
      | some _, some _ => [strcpy 255 e.object]
      | _, _ => []

/-- `RTSP_setup`. -/
def setupStores (w : World) (inp : Bytes) (rtsp : RTSPBuffer) (st : Streams) : List Store :=
  scanStores [.skip none, .word (some 254) 255] inp ++
    (match passed (setupObject inp) with
      | none => []
      | some u => objectStores u.1 u.2) ++
    match setupEntry w inp st with
    | none => []
    | some e => transportStores inp ++ addressStores w inp e ++ sessionStores w inp rtsp e

/-- The functions with such arrays. -/
inductive Parser where
  | response
  | handler (h : Handler)
  deriving DecidableEq

/-- The stores that a function makes for a message. DESCRIBE, PLAY, PAUSE and TEARDOWN log
the header `User-Agent` of a request that no check refuses. -/
def Parser.stores (w : World) (inp : Bytes) (rtsp : RTSPBuffer) (st : Streams) :
    Parser → List Store
  | .response => responseStores inp
  | .handler .options => optionsStores inp
  | .handler .setup => setupStores w inp rtsp st
  | .handler h =>
    match passed (h.checks w inp rtsp st) with
    | none => []
    | some _ => userAgentStores inp

/-! ### Messages whose words fit -/

/-- Behind a word and a number there are two words of at most 14 bytes, and behind the
number that follows them a word of at most 99. -/
def ResponseShort (inp : Bytes) : Prop :=
  ∀ ver ∈ scanWord 31 inp, ∀ stat ∈ scanUnsigned ver.2,
    ∀ reason ∈ scanAnyWord stat.2, reason.1.length < 15 ∧
      ∀ cseq ∈ scanAnyWord reason.2, cseq.1.length < 15 ∧
        ∀ seq ∈ scanUnsigned cseq.2, ∀ msg ∈ scanWord 255 seq.2, msg.1.length < 100

/-- A request with a number has a URL of at most 254 bytes and does not name its agent. -/
def OptionsShort (inp : Bytes) : Prop :=
  (scanCseq (scanWord 254) inp).isSome = true →
    (∀ method ∈ scanWord 31 inp, ∀ url ∈ scanWord 255 method.2, url.1.length < 255) ∧
      strstr inp hdrUserAgent = none

/-- The value of the header `Transport`. -/
def transportWord (inp : Bytes) : Option Bytes :=
  (strstr inp hdrTransport).bind fun p =>
    ((scanWord 10 p).bind fun t => scanWord 255 t.2).map Prod.fst

/-- The first session of a multicast stream. -/
structure ConnectsAddress (w : World) (inp : Bytes) (e : SetupEntry) : Prop where
  peer : w.getpeername = true
  offered : ∃ tkns tkn, (transportTokens inp).run = some (.ok tkns) ∧
    firstOffer (e.st.descr e.d).flMulticast tkns = some (.multicast, tkn)
  first : (e.st.descr e.d).flMulticastPort = false

/-- Where the header `Transport` is read its value has at most 254 bytes, and an address
that is connected has at most 15. -/
def SetupShort (w : World) (inp : Bytes) (st : Streams) : Prop :=
  ∀ e ∈ setupEntry w inp st,
    (∀ word ∈ transportWord inp, word.length < 255) ∧
      (ConnectsAddress w inp e → (e.st.descr e.d).multicast.length < 16)

def Parser.Short (w : World) (inp : Bytes) (rtsp : RTSPBuffer) (st : Streams) : Parser → Prop
  | .response => ResponseShort inp
  | .handler .options => OptionsShort inp
  | .handler .setup => SetupShort w inp st
  | .handler h => (h.checks w inp rtsp st).run = some (.ok ()) → strstr inp hdrUserAgent = none

theorem responseStores_fit (inp : Bytes) : AllFit (responseStores inp) ↔ ResponseShort inp := by
  rw [responseStores, responseFormat, allFit_bounded (by decide : 31 < 32)]
  simp only [allFit_word, allFit_number, allFit_end, and_true]
  rfl

theorem userAgentStores_fit (inp : Bytes) :
    AllFit (userAgentStores inp) ↔ strstr inp hdrUserAgent = none := by
  unfold userAgentStores
  cases strstr inp hdrUserAgent with
  | none => exact ⟨fun _ => rfl, fun _ => allFit_nil⟩
  | some p =>
    constructor
    · intro h
      exact absurd (allFit_cons.mp h).1 (strcpy_strlen p)
    · intro h
      cases h

theorem optionsFormat_fit (inp : Bytes) : AllFit (scanStores optionsFormat inp) ↔
    ∀ method ∈ scanWord 31 inp, ∀ url ∈ scanWord 255 method.2, url.1.length < 255 := by
  have hver : ∀ s, AllFit (scanStores [.word (some 31) 255] s) := by
    intro s
    rw [allFit_bounded (by decide : 31 < 255)]
    exact fun t _ => allFit_end t.2
  rw [optionsFormat, allFit_bounded (by decide : 31 < 255)]
  simp only [allFit_word, hver, and_true]
  rfl

theorem optionsStores_fit (inp : Bytes) : AllFit (optionsStores inp) ↔ OptionsShort inp := by
  unfold optionsStores OptionsShort
  cases hp : strstr inp hdrCseq with
  | none =>
    have hnone : (scanCseq (scanWord 254) inp).isSome = false := by
      rw [scanCseq, hp]
      rfl
    rw [hnone]
    exact ⟨fun _ h => absurd h Bool.false_ne_true, fun _ => allFit_nil⟩
  | some p =>
    have hcseq : AllFit (scanStores [.word (some 254) 255, .number] p) := by
      apply scanStores_fit
      intro c hc
      rcases List.mem_cons.mp hc with rfl | hc
      · exact (by decide : 254 < 255)
      · rw [List.mem_singleton.mp hc]
        trivial
    rw [allFit_append]
    cases (scanCseq (scanWord 254) inp).isSome with
    | false => exact ⟨fun _ h => absurd h Bool.false_ne_true, fun _ => ⟨hcseq, allFit_nil⟩⟩
    | true =>
      rw [if_pos rfl, allFit_append, optionsFormat_fit, userAgentStores_fit]
      exact ⟨fun h _ => h.2, fun h => ⟨hcseq, h rfl⟩⟩

/-! ### The object of a SETUP -/

theorem named_object {file : Option Bytes} {len : ℕ} {v : Bytes → Url} {absent : ParsedUrl}
    {u : Url} (hv : ∀ name, (v name).object = name)
    (habsent : absent = .ok u → u.object.length < len)
    (h : (match file with
      | none => absent
      | some name => if len ≤ name.length then .error else .ok (v name)) = .ok u) :
    u.object.length < len := by
  cases file with
  | none => exact habsent h
  | some name =>
    simp only at h
    split at h
    · cases h
    · rename_i hname
      cases h
      rw [hv]
      exact Nat.lt_of_not_le hname

theorem parse_url_object {url : Bytes} {serverLen fileNameLen : ℕ} {u : Url}
    (hlen : 0 < fileNameLen) (h : parse_url url serverLen fileNameLen = .ok u) :
    u.object.length < fileNameLen := by
  unfold parse_url at h
  split at h
  · unfold parse_absolute at h
    simp only at h
    split at h
    · cases h
    · split at h
      · cases h
      · rename_i server _ _
        refine named_object (fun _ => rfl) ?_ h
        intro hu
        cases hu
        exact hlen
  · refine named_object (fun _ => rfl) ?_ h
    intro hu
    cases hu

theorem setupObject_short {inp : Bytes} {u : Bytes × Bytes}
    (h : (setupObject inp).run = some (.ok u)) : u.1.length < 255 ∧ u.2.length < 255 := by
  obtain ⟨v, hv, h⟩ := run_bind_iff.mp h
  obtain ⟨_, _, h⟩ := run_bind_iff.mp h
  obtain ⟨_, _, h⟩ := run_bind_iff.mp h
  obtain ⟨_, _, h⟩ := run_bind_iff.mp h
  have hobject : v.object.length < 255 := by
    have hread := requestUrl_ok.mp hv
    obtain ⟨t, _, ht⟩ := Option.bind_eq_some_iff.mp hread
    split at ht
    · rename_i w hw
      cases ht
      exact parse_url_object (by decide) hw
    · cases ht
  cases hq : strchr v.object 33 with
  | none =>
    rw [hq] at h
    cases h
  | some q =>
    rw [hq] at h
    cases h
    have hlen := (strchr_suffix hq).length_le
    constructor
    · exact Nat.lt_of_le_of_lt (List.length_take_le' _ _) hobject
    · rw [List.length_drop]
      omega

/-- The presentation in the object, that is, what `enum_media` is asked for. -/
def presentation (object : Bytes) : Option Bytes :=
  (strstr object (lit ".sd")).map fun pd =>
    if (strstr (pd.drop 1) (lit ".sd")).isSome then pd.drop 4 else object

theorem setupUrl_eq (inp : Bytes) :
    setupUrl inp = setupObject inp >>= fun u =>
      match presentation u.1 with
      | none => undefined
      | some object => pure (object, u.2) := by
  unfold setupUrl setupObject presentation
  simp only [bind_assoc]
  congr
  funext v
  congr
  funext _
  congr
  funext p
  congr
  funext _
  cases strchr v.object 33 with
  | none => rfl
  | some q =>
    simp only [pure_bind]
    cases strstr (v.object.take (v.object.length - q.length)) (lit ".sd") <;> rfl

theorem presentation_length {object name : Bytes} (h : presentation object = some name) :
    name.length ≤ object.length := by
  obtain ⟨pd, hpd, rfl⟩ := Option.map_eq_some_iff.mp h
  split
  · have := (strstr_suffix hpd).length_le
    rw [List.length_drop]
    omega
  · exact Nat.le_refl _

theorem objectStores_fit {u : Bytes × Bytes} (h : u.1.length < 255 ∧ u.2.length < 255) :
    AllFit (objectStores u.1 u.2) := by
  unfold objectStores
  rw [allFit_append, allFit_cons, allFit_cons, strcpy_fits, strcpy_fits]
  refine ⟨⟨h.2, h.1, allFit_nil⟩, ?_⟩
  cases hpd : strstr u.1 (lit ".sd") with
  | none => exact allFit_nil
  | some pd =>
    have := (strstr_suffix hpd).length_le
    simp only
    split
    · refine allFit_cons.mpr ⟨strcpy_fits.mpr ?_, allFit_nil⟩
      rw [List.length_drop]
      omega
    · exact allFit_nil

theorem setupEntry_object {w : World} {inp : Bytes} {st : Streams} {e : SetupEntry}
    (h : setupEntry w inp st = some e) : e.object.length < 255 := by
  obtain ⟨u, hu, h⟩ := Option.bind_eq_some_iff.mp h
  have hobject : u.1.length < 255 := by
    have hrun := passed_eq_some.mp hu
    rw [setupUrl_eq] at hrun
    obtain ⟨v, hv, hrun⟩ := run_bind_iff.mp hrun
    cases hp : presentation v.1 with
    | none =>
      rw [hp] at hrun
      cases hrun
    | some object =>
      rw [hp] at hrun
      cases hrun
      exact Nat.lt_of_le_of_lt (presentation_length hp) (setupObject_short hv).1
  split at h
  · cases h
  · obtain ⟨m, _, h⟩ := Option.bind_eq_some_iff.mp h
    obtain ⟨n, _, rfl⟩ := Option.map_eq_some_iff.mp h
    exact hobject

/-! ### What fits -/

theorem transportStores_fit (inp : Bytes) :
    AllFit (transportStores inp) ↔ ∀ word ∈ transportWord inp, word.length < 255 := by
  unfold transportStores transportWord
  cases strstr inp hdrTransport with
  | none => simp
  | some p =>
    simp only [allFit_skip, allFit_word, allFit_end, and_true, Option.bind_some, Option.mem_def,
      Option.map_eq_some_iff, Option.bind_eq_some_iff]
    constructor
    · rintro h _ ⟨t, ⟨s, hs, ht⟩, rfl⟩
      exact h s hs t ht
    · intro h s hs t ht
      exact h t.1 ⟨t, ⟨s, hs, ht⟩, rfl⟩

theorem addressStores_fit (w : World) (inp : Bytes) (e : SetupEntry) :
    AllFit (addressStores w inp e) ↔
      (ConnectsAddress w inp e → (e.st.descr e.d).multicast.length < 16) := by
  unfold addressStores
  cases htkns : passed (transportTokens inp) with
  | none =>
    refine ⟨fun _ hc => ?_, fun _ => allFit_nil⟩
    obtain ⟨tkns, _, hrun, _⟩ := hc.offered
    rw [passed_eq_some.mpr hrun] at htkns
    cases htkns
  | some tkns =>
    have hrun := passed_eq_some.mp htkns
    simp only
    split
    · rename_i hpeer
      refine ⟨fun _ hc => ?_, fun _ => allFit_nil⟩
      rw [hc.peer] at hpeer
      cases hpeer
    · rename_i hpeer
      split
      · rename_i tkn hoffer
        split
        · rename_i hport
          refine ⟨fun _ hc => ?_, fun _ => allFit_nil⟩
          rw [hc.first] at hport
          cases hport
        · rename_i hport
          have hconnects : ConnectsAddress w inp e :=
            ⟨by simpa using hpeer, ⟨tkns, tkn, hrun, hoffer⟩, by simpa using hport⟩
          rw [allFit_cons, strcpy_fits]
          exact ⟨fun h _ => h.1, fun h => ⟨h hconnects, allFit_nil⟩⟩
      · rename_i hother
        refine ⟨fun _ hc => ?_, fun _ => allFit_nil⟩
        obtain ⟨tkns', tkn, hrun', hoffer⟩ := hc.offered
        rw [hrun] at hrun'
        cases hrun'
        exact absurd hoffer (hother tkn)

theorem sessionStores_fit (w : World) (inp : Bytes) (rtsp : RTSPBuffer) {e : SetupEntry}
    (h : e.object.length < 255) : AllFit (sessionStores w inp rtsp e) := by
  unfold sessionStores
  split
  · exact allFit_nil
  · split
    · exact allFit_nil
    · split
      · exact allFit_cons.mpr ⟨strcpy_fits.mpr h, allFit_nil⟩
      · exact allFit_nil

theorem setupStores_fit (w : World) (inp : Bytes) (rtsp : RTSPBuffer) (st : Streams) :
    AllFit (setupStores w inp rtsp st) ↔ SetupShort w inp st := by
  unfold setupStores SetupShort
  have hurl : AllFit (scanStores [.skip none, .word (some 254) 255] inp) := by
    apply scanStores_fit
    intro c hc
    rcases List.mem_cons.mp hc with rfl | hc
    · trivial
    · rw [List.mem_singleton.mp hc]
      exact (by decide : 254 < 255)
  have hobject : AllFit (match passed (setupObject inp) with
      | none => []
      | some u => objectStores u.1 u.2) := by
    cases hu : passed (setupObject inp) with
    | none => exact allFit_nil
    | some u => exact objectStores_fit (setupObject_short (passed_eq_some.mp hu))
  rw [allFit_append, allFit_append]
  cases he : setupEntry w inp st with
  | none => simp [hurl, hobject]
  | some e =>
    have hsession := sessionStores_fit w inp rtsp (setupEntry_object he)
    simp only [allFit_append, transportStores_fit, addressStores_fit, hurl, hobject, hsession,
      true_and, and_true]
    exact ⟨fun h e' he' => Option.some.inj he' ▸ h, fun h => h e rfl⟩

/-- The words of a message fit in their arrays under these conditions and no others. -/
theorem words_fit_iff (w : World) (inp : Bytes) (rtsp : RTSPBuffer) (st : Streams) (p : Parser) :
    AllFit (p.stores w inp rtsp st) ↔ p.Short w inp rtsp st := by
  have hlogged : ∀ h : Handler,
      AllFit (match passed (h.checks w inp rtsp st) with
        | none => []
        | some _ => userAgentStores inp) ↔
      ((h.checks w inp rtsp st).run = some (.ok ()) → strstr inp hdrUserAgent = none) := by
    intro h
    rw [← passed_eq_some]
    cases passed (h.checks w inp rtsp st) with
    | none => simp
    | some u => simp [userAgentStores_fit]
  cases p with
  | response => exact responseStores_fit inp
  | handler h =>
    cases h with
    | options => exact optionsStores_fit inp
    | setup => exact setupStores_fit w inp rtsp st
    | describe => exact hlogged .describe
    | play => exact hlogged .play
    | pause => exact hlogged .pause
    | teardown => exact hlogged .teardown

/-- A request of a player that says what it is. -/
def playerText : Bytes :=
  lit "OPTIONS * RTSP/1.0\r\nCSeq: 1\r\nUser-Agent: player\r\n\r\n"

theorem player_overflows : ¬ ∀ (w : World) (inp : Bytes) (rtsp : RTSPBuffer) (st : Streams)
    (p : Parser), inp.length ≤ bufferSize → AllFit (p.stores w inp rtsp st) := by
  intro h
  have hfit := h {} playerText RTSP_initserver (Streams.init 5004) (.handler .options)
    (by decide +kernel)
  have hover : ¬ AllFit (optionsStores playerText) := by decide +kernel
  exact hover hfit

end Fenice.Rtsp
