import Fenice.Rtsp.Control

/-!
# Which DESCRIBE is answered with a description

`get_media_descr` gives up with a code of its own, or hands on the one of
`enum_media` or `get_SDP_descr`. `RTSP_describe` knows four of the codes; with
any other one it goes on and sends what stands in `descr`.
-/

namespace Fenice.Rtsp
open Fenice.CString Fenice.Schedule

/-- The codes after which `RTSP_describe` replies with an error. -/
def Listed (res : ℤ) : Prop :=
  res = errNotFound ∨ res = errParse ∨ res = errGeneric ∨ res = Schedule.errAlloc

instance (res : ℤ) : Decidable (Listed res) :=
  inferInstanceAs (Decidable (_ ∨ _ ∨ _ ∨ _))

/-- What `get_media_descr` asks of the name: from the first dot on it is `.SD`. -/
def NamesSD (object : Bytes) : Prop := (strchr object 46).any (fun p => eqNoCase p (lit ".SD")) = true

instance (object : Bytes) : Decidable (NamesSD object) :=
  inferInstanceAs (Decidable (_ = true))

section
variable {w : World} {inp object : Bytes} {rtsp rtsp' : RTSPBuffer} {st st' : Streams} {rc : ℤ}

/-- `get_SDP_descr` was called for the object, and went to its end. -/
structure Describes (w : World) (object : Bytes) (st : Streams) : Prop where
  namesSD : NamesSD object
  read : ∃ d, (enum_media st object w.file).1 = .ok d ∧
    ((enum_media st object w.file).2.descr d).meList ≠ []
  ended : w.sdp.1 = errNoerror

/-- The outcomes below `get_media_descr` are such as `RTSP_describe` knows. -/
structure KnownOutcome (w : World) (object : Bytes) (st : Streams) : Prop where
  namesSD : NamesSD object
  file : ∀ res, (enum_media st object w.file).1 = .error res → Listed res
  sdp : ∀ d, (enum_media st object w.file).1 = .ok d →
    ((enum_media st object w.file).2.descr d).meList ≠ [] → w.sdp.1 = errNoerror ∨ Listed w.sdp.1

theorem describeResult_ok (res : ℤ) : (describeResult res).run = some (.ok ()) ↔ ¬Listed res := by
  unfold describeResult Listed
  by_cases hfound : res = errNotFound
  · simp only [hfound, if_true, true_or, not_true_eq_false, iff_false]
    intro h
    cases h
  · by_cases hlisted : res = errParse ∨ res = errGeneric ∨ res = Schedule.errAlloc
    · simp only [hfound, if_false, hlisted, if_true, false_or, not_true_eq_false, iff_false]
      intro h
      cases h
    · simp only [hfound, if_false, hlisted, false_or, not_false_eq_true, iff_true]
      rfl

/-- The code that the layers below `get_media_descr` give. -/
def descrCode (w : World) : Except ℤ ℕ × Streams → ℤ
  | (.error res, _) => res
  | (.ok d, st) => if (st.descr d).meList = [] then errGeneric else w.sdp.1

theorem get_media_descr_sd (h : NamesSD object) :
    (get_media_descr w object st).1 = descrCode w (enum_media st object w.file) := by
  obtain ⟨p, hp, hsd⟩ := (Option.any_eq_true ..).mp h
  unfold get_media_descr
  rw [hp]
  simp only [hsd, if_true]
  rcases enum_media st object w.file with ⟨res | d, st₁⟩
  · rfl
  · simp only [descrCode]
    split_ifs <;> rfl

theorem get_media_descr_not_sd (h : ¬NamesSD object) :
    (get_media_descr w object st).1 = errNotSd := by
  unfold get_media_descr
  cases hp : strchr object 46 with
  | none => rfl
  | some p =>
    have hsd : ¬eqNoCase p (lit ".SD") = true := by
      intro hsd
      exact h ((Option.any_eq_true ..).mpr ⟨p, hp, hsd⟩)
    dsimp only
    rw [if_neg hsd]

/-- The code that comes up is one that is known, or it comes with a description, exactly if each
of the layers below gives such a code. -/
theorem known_iff : Listed (get_media_descr w object st).1 ∨ Describes w object st ↔
    KnownOutcome w object st := by
  by_cases hname : NamesSD object
  · rw [get_media_descr_sd hname]
    rcases he : enum_media st object w.file with ⟨res | d, st₁⟩
    · constructor
      · rintro (h | h)
        · refine ⟨hname, ?_, ?_⟩
          · intro res' hres
            rw [he] at hres
            cases hres
            exact h
          · intro d hd
            rw [he] at hd
            cases hd
        · obtain ⟨d, hd, -⟩ := h.read
          rw [he] at hd
          cases hd
      · intro h
        exact .inl (h.file res (by rw [he]))
    · constructor
      · intro h
        refine ⟨hname, ?_, ?_⟩
        · intro res hres
          rw [he] at hres
          cases hres
        · intro d' hd hne
          rw [he] at hd hne
          cases hd
          rcases h with h | h
          · rw [descrCode, if_neg hne] at h
            exact .inr h
          · exact .inl h.ended
      · intro h
        by_cases hne : (st₁.descr d).meList = []
        · rw [descrCode, if_pos hne]
          exact .inl (by decide)
        · rw [descrCode, if_neg hne]
          rcases h.sdp d (by rw [he]) (by rw [he]; exact hne) with hended | hlisted
          · exact .inr ⟨hname, ⟨d, by rw [he], by rw [he]; exact hne⟩, hended⟩
          · exact .inl hlisted
  · rw [get_media_descr_not_sd hname]
    constructor
    · rintro (h | h)
      · exact absurd h (by decide)
      · exact absurd h.namesSD hname
    · intro h
      exact absurd h.namesSD hname

/-! ### The reply -/

/-- A reply 200 is handed to `bwrite`, whether or not `out_buffer` has room for it. -/
def Answers (rtsp rtsp' : RTSPBuffer) : Prop :=
  ∃ reply, rtsp'.out = rtsp.out.bwrite reply ∧ reply.status = 200

/-- A description of the object named by the request was written for it. -/
def WritesDescription (w : World) (inp : Bytes) (st : Streams) : Prop :=
  ∃ u, (describeUrl inp).run = some (.ok u) ∧ Describes w u.object st

/-- The request gets as far as `get_media_descr`, and is not redirected behind it. -/
def AsksFor (w : World) (inp : Bytes) (u : Url) : Prop :=
  (describeUrl inp).run = some (.ok u) ∧ (scanCseq (scanWord 254) inp).isSome ∧
    w.maxConnection = false

/-- A DESCRIBE passes all checks exactly if its URL and headers are accepted and the code is none
of those listed. -/
theorem describeChecks_ok : (describeChecks w inp st).run = some (.ok ()) ↔
    ∃ u, AsksFor w inp u ∧ ¬Listed (get_media_descr w u.object st).1 := by
  unfold describeChecks
  rw [run_bind_iff]
  constructor
  · rintro ⟨u, hurl, h⟩
    obtain ⟨n, hn, h⟩ := run_bind_iff.mp h
    obtain ⟨⟨⟩, hres, h⟩ := run_bind_iff.mp h
    refine ⟨u, ⟨hurl, ?_, ?_⟩, (describeResult_ok _).mp hres⟩
    · rw [requestCseq_inv hn]
      rfl
    · by_contra hmax
      rw [Bool.not_eq_false] at hmax
      rw [if_pos hmax] at h
      exact redirectChecks_ne_ok _ _ _ h
  · rintro ⟨u, ⟨hurl, hcseq, hmax⟩, hres⟩
    obtain ⟨n, hn⟩ := Option.isSome_iff_exists.mp hcseq
    refine ⟨u, hurl, run_bind_iff.mpr ⟨n, requestCseq_ok hn, ?_⟩⟩
    refine run_bind_iff.mpr ⟨(), (describeResult_ok _).mpr hres, ?_⟩
    rw [hmax]
    rfl

theorem answers_iff (h : RTSP_describe w inp rtsp st = some (rc, rtsp', st')) :
    Answers rtsp rtsp' ↔ (describeChecks w inp st).run = some (.ok ()) := by
  obtain ⟨e, reply, hchecks, hended⟩ := describe_decides w inp rtsp st _ h
  have hreply : Answers rtsp rtsp' ↔ reply.status = 200 := by
    constructor
    · rintro ⟨reply', hout, hstatus⟩
      have hsame : rtsp.out.bwrite reply' = rtsp.out.bwrite reply := hout.symm.trans hended.bwrite
      rw [← bwrite_inj hsame]
      exact hstatus
    · intro hstatus
      exact ⟨reply, hended.bwrite, hstatus⟩
  rw [hreply, hended.status, hchecks]
  cases e with
  | error r =>
    have hne := describeChecks_refuses w inp st r hchecks
    constructor
    · intro hstatus
      exact absurd hstatus hne
    · intro he
      cases he
  | ok u =>
    constructor
    · intro _
      rfl
    · intro _
      rfl

/-- A DESCRIBE is answered 200 with a description that was written for it or not at all,
exactly if, where the request comes to `get_media_descr`, the name is that of an SD file and
the codes of the layers below are known. -/
theorem describe_written_iff (h : RTSP_describe w inp rtsp st = some (rc, rtsp', st')) :
    (Answers rtsp rtsp' → WritesDescription w inp st) ↔
      ∀ u, AsksFor w inp u → KnownOutcome w u.object st := by
  rw [answers_iff h, describeChecks_ok]
  constructor
  · intro hwrites u hasks
    rw [← known_iff]
    by_contra hnot
    rw [not_or] at hnot
    obtain ⟨u', hurl, hdescribes⟩ := hwrites ⟨u, hasks, hnot.1⟩
    have hsame : u' = u := by
      have heq := hurl.symm.trans hasks.1
      cases heq
      rfl
    exact hnot.2 (hsame ▸ hdescribes)
  · rintro hknown ⟨u, hasks, hlisted⟩
    rcases known_iff.mpr (hknown u hasks) with hl | hdescribes
    · exact absurd hl hlisted
    · exact ⟨u, hasks.1, hdescribes⟩

end

/-! ### The codes that a file gives -/

theorem validate_stream_error {load : Mediainfo.Loader} {p : Mediainfo.MediaEntry} {res : ℤ}
    (hload : ∀ t p res, load t p = .error res → Listed res)
    (h : Mediainfo.validate_stream load p = some (.error res)) : Listed res := by
  have hregister : ∀ q : Mediainfo.MediaEntry,
      Mediainfo.registerAndLoad load q = some (.error res) → Listed res := by
    intro q hq
    unfold Mediainfo.registerAndLoad at hq
    split_ifs at hq with hnone
    exact hload _ _ _ (Option.some.inj hq)
  have hparse : (some (Except.error Mediainfo.ERR_PARSE) : Option (Except ℤ Mediainfo.MediaEntry)) =
      some (.error res) → Listed res := by
    intro he
    cases he
    exact .inr (.inl rfl)
  unfold Mediainfo.validate_stream at h
  split_ifs at h
  · exact hparse h
  · exact hparse h
  · exact hregister _ h
  · exact hregister _ h

theorem parseStreams_error {δ : Type} {load : Mediainfo.Loader} {put : δ → Mediainfo.Item → δ}
    {res : ℤ} (hload : ∀ t p res, load t p = .error res → Listed res) {fuel : ℕ}
    {chunks : List Bytes} {sc : Mediainfo.Scan} {sparam : Option Bytes} {first : Bool} {d : δ}
    (h : Mediainfo.parseStreams load put fuel chunks sc sparam first d = some (.error res)) :
    Listed res := by
  induction fuel generalizing chunks sc sparam first d with
  | zero => cases h
  | succ fuel ih =>
    rw [Mediainfo.parseStreams] at h
    obtain ⟨⟨chunks, sc, d⟩, -, h⟩ := Option.bind_eq_some_iff.mp h
    dsimp only at h
    split_ifs at h with heof
    · cases h
    · obtain ⟨⟨chunks, sc, s⟩, -, h⟩ := Option.bind_eq_some_iff.mp h
      obtain ⟨result, hvalid, h⟩ := Option.bind_eq_some_iff.mp h
      cases result with
      | error e =>
        cases h
        exact validate_stream_error hload hvalid
      | ok p =>
        dsimp only at h
        split_ifs at h
        · cases h
        · exact ih h

theorem parse_SD_file_error {load : Mediainfo.Loader} {file : Option Mediainfo.StoredFile}
    {d : Mediainfo.SDDescr} {res : ℤ} (hload : ∀ t p res, load t p = .error res → Listed res)
    (h : Mediainfo.parse_SD_file load file d = some (.error res)) : Listed res := by
  unfold Mediainfo.parse_SD_file at h
  cases file with
  | none =>
    cases h
    exact .inl rfl
  | some file =>
    dsimp only at h
    split_ifs at h
    · cases h
    · exact parseStreams_error hload h

theorem get_SDP_descr_code (host : Mediainfo.SdpHost) (d : Mediainfo.SDDescr) (url : Bytes) :
    (Mediainfo.get_SDP_descr host d url).1 = errNoerror ∨
      Listed (Mediainfo.get_SDP_descr host d url).1 := by
  unfold Mediainfo.get_SDP_descr
  cases d.meList.find? fun p => p.description.priority == 1 with
  | none => exact .inr (.inr (.inl rfl))
  | some p => exact .inl rfl

/-! ### A presentation that is described, and a name that is none -/

def describeFilm : Bytes := message "DESCRIBE" "rtsp://localhost/film.sd" 1 []

theorem film_described :
    ∃ out, RTSP_describe filmWorld describeFilm RTSP_initserver (Streams.init 5004) = some out ∧
      Answers RTSP_initserver out.2.1 ∧
      ((Answers RTSP_initserver out.2.1 →
          WritesDescription filmWorld describeFilm (Streams.init 5004)) ↔
        ∀ u, AsksFor filmWorld describeFilm u →
          KnownOutcome filmWorld u.object (Streams.init 5004)) := by
  have hrun : (RTSP_describe filmWorld describeFilm RTSP_initserver (Streams.init 5004)).any
      (fun out => out.2.1.out.replies.any fun reply => reply.status == 200) = true := by
    decide +kernel
  obtain ⟨out, hout, hreplies⟩ := (Option.any_eq_true _ _).mp hrun
  refine ⟨out, hout, ?_, describe_written_iff hout⟩
  obtain ⟨e, reply, -, hended⟩ := describe_decides _ _ _ _ _ hout
  refine ⟨reply, hended.bwrite, ?_⟩
  rw [hended.bwrite] at hreplies
  simpa [Output.bwrite, RTSP_initserver] using hreplies

/-- A name with another extension that is supported. -/
def describeSong : Bytes := message "DESCRIBE" "rtsp://localhost/song.mp3" 1 []

/-- Nothing is read, nothing is written, and the reply is 200 with what the array held. -/
theorem song_not_described :
    ¬∀ w inp rtsp st rc rtsp' st', RTSP_describe w inp rtsp st = some (rc, rtsp', st') →
      Answers rtsp rtsp' → WritesDescription w inp st := by
  intro hall
  have hparsed : (describeUrl describeSong).run.any (fun e => e.toOption.any fun u =>
      decide (u.object = lit "song.mp3")) = true := by decide +kernel
  obtain ⟨e, hurl, hobject⟩ := (Option.any_eq_true _ _).mp hparsed
  obtain ⟨v, rfl, hv⟩ : ∃ v, e = .ok v ∧ v.object = lit "song.mp3" := by
    cases e with
    | error r => cases hobject
    | ok v => exact ⟨v, rfl, of_decide_eq_true hobject⟩
  have hname : ¬NamesSD v.object := by
    rw [hv]
    decide
  have hrun : (RTSP_describe {} describeSong RTSP_initserver (Streams.init 5004)).isSome := by
    decide +kernel
  obtain ⟨⟨rc, rtsp', st'⟩, hout⟩ := Option.isSome_iff_exists.mp hrun
  have hanswers : Answers RTSP_initserver rtsp' := by
    rw [answers_iff hout, describeChecks_ok]
    refine ⟨v, ⟨hurl, by decide +kernel, rfl⟩, ?_⟩
    rw [get_media_descr_not_sd hname]
    decide
  obtain ⟨u, hu, hdescribes⟩ := hall _ _ _ _ _ _ _ hout hanswers
  rw [hurl] at hu
  cases hu
  exact hname hdescribes.namesSD

end Fenice.Rtsp
