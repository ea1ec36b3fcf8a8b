import Fenice.Rtsp.Identity

/-!
# The presentation of a session

A session points to the descriptor of its presentation in the list of `enum_media`,
which frees a descriptor when its file cannot be read any more.
-/

namespace Fenice.Rtsp
open Fenice.CString Fenice.Schedule Fenice.Run

/-- `sd_descr`, which is a null pointer until the transport is stored. -/
def sdDescrOf (r : RTPSession) : Option ℕ :=
  if r.transport.type = .noTransport then none else some r.sdDescr

/-- The descriptor is not freed. -/
def HasDescr (st : Streams) (d : ℕ) : Prop := (st.sds[d]?.join).isSome = true

/-- No session has the descriptor. -/
def Unreferred (st : Streams) (d : ℕ) : Prop :=
  ∀ s r, st.session s = some r → sdDescrOf r ≠ some d

/-- The descriptor of every session is there, and the session can be closed. -/
structure DescrInUse (st : Streams) : Prop where
  kept : ∀ s r d, st.session s = some r → sdDescrOf r = some d → HasDescr st d
  closes : ∀ s r, st.session s = some r → (st.RTP_transport_close r).isSome = true

/-! ### When `enum_media` frees nothing in use -/

/-- If `enum_media` fails, no session has the descriptor it comes to. -/
def LookSpares (st : Streams) (object : Bytes) (found : ParsedSD) : Prop :=
  ∀ res, found = .error res → Unreferred st (findDescr st object).1

/-- The calls of `enum_media` that DESCRIBE and SETUP make. -/
def Handler.spares (w : World) (inp : Bytes) (st : Streams) : Handler → Prop
  | .describe =>
    ∀ u, (describeUrl inp).run = some (.ok u) →
      LookSpares st u.object w.file ∧ (w.maxConnection = true →
        LookSpares (get_media_descr w u.object st).2 u.object w.file.again)
  | .setup => ∀ u, (setupUrl inp).run = some (.ok u) → LookSpares st u.1 w.file
  | _ => True

/-- What a message of a connection must not do. -/
def MessageSpares (w : World) (inp : Bytes) (rtsp : RTSPBuffer) (st : Streams) : Prop :=
  ∀ m ∈ messageMethod inp, ∀ p ∈ rtsp.sessionList, ∀ x ∈ (cell p.curState m).handler,
    x.spares w inp st

def StepSpares (sv : Server) : Act → Prop
  | .request k w inp => ∀ rtsp ∈ sv.connection k, MessageSpares w inp rtsp sv.st
  | _ => True

section Decide

instance (st : Streams) (d : ℕ) : Decidable (Unreferred st d) :=
  decidable_of_iff (∀ s < st.heap.length, ∀ r ∈ st.session s, sdDescrOf r ≠ some d)
    ⟨fun h s r hr => h s (Streams.lt_of_session hr) r hr, fun h s _ r hr => h s r hr⟩

instance (st : Streams) (object : Bytes) (found : ParsedSD) :
    Decidable (LookSpares st object found) :=
  match found with
  | .error res =>
    decidable_of_iff (Unreferred st (findDescr st object).1)
      ⟨fun h _ _ => h, fun h => h res rfl⟩
  | .unchanged => isTrue (fun _ he => (by cases he))
  | .parsed _ => isTrue (fun _ he => (by cases he))

instance {α : Type} (x : Checks α) (P : α → Prop) [DecidablePred P] :
    Decidable (∀ a, x.run = some (.ok a) → P a) :=
  match h : x.run with
  | none => isTrue (fun _ he => (by cases he))
  | some (.error _) => isTrue (fun _ he => (by cases he))
  | some (.ok a) => decidable_of_iff (P a) ⟨fun hp b he => (by cases he; exact hp), fun hp => hp a rfl⟩

instance (w : World) (inp : Bytes) (st : Streams) (x : Handler) : Decidable (x.spares w inp st) := by
  cases x <;> dsimp only [Handler.spares] <;> infer_instance

instance (w : World) (inp : Bytes) (rtsp : RTSPBuffer) (st : Streams) :
    Decidable (MessageSpares w inp rtsp st) := by
  unfold MessageSpares; infer_instance

instance (sv : Server) (a : Act) : Decidable (StepSpares sv a) := by
  cases a <;> dsimp only [StepSpares] <;> infer_instance

end Decide

/-! ### Steps that keep descriptors and references -/

structure DescrKept (st st' : Streams) : Prop where
  kept : ∀ d, HasDescr st d → HasDescr st' d
  back : ∀ s r', st'.session s = some r' → ∃ r, st.session s = some r ∧ sdDescrOf r' = sdDescrOf r

namespace DescrKept

variable {st st' st'' : Streams}

theorem trans (h : DescrKept st st') (h' : DescrKept st' st'') : DescrKept st st'' := by
  refine ⟨fun d hd => h'.kept d (h.kept d hd), ?_⟩
  intro s r'' hr''
  obtain ⟨r', hr', he'⟩ := h'.back s r'' hr''
  obtain ⟨r, hr, he⟩ := h.back s r' hr'
  exact ⟨r, hr, he'.trans he⟩

theorem of_eq (hs : st'.sds = st.sds) (hh : st'.heap = st.heap) : DescrKept st st' := by
  constructor
  · intro d hd
    unfold HasDescr at hd ⊢
    rw [hs]
    exact hd
  · intro s r hr
    refine ⟨r, ?_, rfl⟩
    unfold Streams.session at hr ⊢
    rw [← hh]
    exact hr

theorem refl (st : Streams) : DescrKept st st := of_eq rfl rfl

theorem setSession {s : ℕ} {r : RTPSession} {r' : Option RTPSession} (hr : st.session s = some r)
    (he : ∀ q ∈ r', sdDescrOf q = sdDescrOf r) : DescrKept st (st.setSession s r') := by
  refine ⟨fun d hd => hd, ?_⟩
  intro t q hq
  by_cases hts : t = s
  · subst hts
    refine ⟨r, hr, he q ?_⟩
    unfold Streams.session Streams.setSession at hq
    dsimp only at hq
    rw [List.getElem?_set_self (Streams.lt_of_session hr)] at hq
    exact hq
  · refine ⟨q, ?_, rfl⟩
    unfold Streams.session Streams.setSession at hq
    dsimp only at hq
    rw [List.getElem?_set_ne (fun he => hts he.symm)] at hq
    exact hq

theorem dropSession (s : ℕ) : DescrKept st (st.setSession s none) := by
  refine ⟨fun d hd => hd, ?_⟩
  intro t q hq
  refine ⟨q, ?_, rfl⟩
  unfold Streams.session Streams.setSession at hq
  dsimp only at hq
  rw [List.getElem?_set] at hq
  split at hq
  · split at hq <;> cases hq
  · exact hq

theorem setDescr (d : ℕ) (x : SDDescr) : DescrKept st { st with sds := st.sds.set d (some x) } := by
  refine ⟨?_, fun s r hr => ⟨r, hr, rfl⟩⟩
  intro e he
  unfold HasDescr at he ⊢
  dsimp only
  by_cases hed : d = e
  · subst hed
    have hlt : d < st.sds.length := by
      by_contra hge
      rw [List.getElem?_eq_none (Nat.le_of_not_lt hge)] at he
      cases he
    rw [List.getElem?_set_self hlt]
    rfl
  · rw [List.getElem?_set_ne hed]
    exact he

theorem release (pair : PortPair) : DescrKept st (st.RTP_release_port_pair pair) := by
  unfold Streams.RTP_release_port_pair
  split
  · exact of_eq rfl rfl
  · exact refl st

theorem transport_close {r : RTPSession} (h : st.RTP_transport_close r = some st') :
    DescrKept st st' := by
  unfold Streams.RTP_transport_close at h
  dsimp only at h
  split at h
  · split at h
    · obtain ⟨st₁, h₁, rfl⟩ := Option.map_eq_some_iff.mp h
      obtain ⟨x, -, rfl⟩ := Option.map_eq_some_iff.mp h₁
      exact (setDescr r.sdDescr _).trans ((release _).trans (of_eq rfl rfl))
    · cases h
      exact (release _).trans (of_eq rfl rfl)
  · cases h
    exact of_eq rfl rfl
  · cases h
    exact refl _

theorem unref {cons : Option ℕ} (h : st.OMSbuff_unref cons = some st') : DescrKept st st' := by
  unfold Streams.OMSbuff_unref at h
  split at h
  · cases h
    exact refl _
  · obtain ⟨n, -, rfl⟩ := Option.map_eq_some_iff.mp h
    split
    · exact of_eq rfl rfl
    · exact refl _

theorem session_destroy {s : ℕ} {r : RTPSession} (h : st.RTP_session_destroy s r = some st') :
    DescrKept st st' := by
  obtain ⟨st₂, h₂, h⟩ := Option.bind_eq_some_iff.mp h
  obtain ⟨st₁, h₁, h₂⟩ := Option.bind_eq_some_iff.mp h₂
  obtain ⟨b, -, h⟩ := Option.bind_eq_some_iff.mp h
  obtain ⟨n, -, rfl⟩ := Option.map_eq_some_iff.mp h
  refine (transport_close h₁).trans ((unref h₂).trans ?_)
  split
  · exact (of_eq rfl rfl : DescrKept st₂ ((st₂.setMedia _ _).setRefs b none)).trans
      ((dropSession s).trans (of_eq rfl rfl))
  · exact (dropSession s).trans (of_eq rfl rfl)

theorem schedule_remove {id : ℤ} (h : st.schedule_remove id = some st') : DescrKept st st' := by
  obtain ⟨i, -, rfl⟩ := Option.map_eq_some_iff.mp h
  dsimp only
  split <;> exact of_eq rfl rfl

theorem held_session {i : Fin oneForkMaxConnection} {p : ℕ × RTPSession} (h : st.held i = some p) :
    st.session p.1 = some p.2 := by
  obtain ⟨s, -, h⟩ := Option.bind_eq_some_iff.mp h
  obtain ⟨r, hr, rfl⟩ := Option.map_eq_some_iff.mp h
  exact hr

theorem schedule_start {id : ℤ} (h : st.schedule_start id = some st') : DescrKept st st' := by
  obtain ⟨i, -, h⟩ := Option.bind_eq_some_iff.mp h
  obtain ⟨⟨s, r⟩, hheld, h⟩ := Option.bind_eq_some_iff.mp h
  obtain ⟨b, -, h⟩ := Option.bind_eq_some_iff.mp h
  obtain ⟨st₁, h₁, rfl⟩ := Option.map_eq_some_iff.mp h
  obtain ⟨n, -, rfl⟩ := Option.map_eq_some_iff.mp h₁
  have hr : (st.setRefs b (some (BufferPool.incr16 n))).session s = some r := held_session hheld
  refine (of_eq rfl rfl : DescrKept st (st.setRefs b _)).trans (setSession hr ?_)
  intro q hq
  cases hq
  rfl

theorem schedule_resume {id : ℤ} (h : st.schedule_resume id = some st') : DescrKept st st' := by
  obtain ⟨i, -, h⟩ := Option.bind_eq_some_iff.mp h
  obtain ⟨⟨s, r⟩, hheld, rfl⟩ := Option.map_eq_some_iff.mp h
  refine setSession (held_session hheld) ?_
  intro q hq
  cases hq
  rfl

theorem schedule_stop {i : Fin oneForkMaxConnection} (h : st.schedule_stop i = some st') :
    DescrKept st st' := by
  obtain ⟨⟨s, r⟩, hheld, rfl⟩ := Option.map_eq_some_iff.mp h
  refine setSession (held_session hheld) ?_
  intro q hq
  cases hq
  rfl

theorem stream_switch {s : ℕ} {r : RTPSession} (hr : st.session s = some r) (m : ℕ) :
    DescrKept st (st.stream_switch s r m) := by
  have hr' : (st.setMedia m
      { st.media m with pktBuffer := (st.media r.currentMedia).pktBuffer }).session s = some r := hr
  refine (of_eq rfl rfl : DescrKept st (st.setMedia m _)).trans (setSession hr' ?_)
  intro q hq
  cases hq
  rfl

theorem sent {i : Fin oneForkMaxConnection} {turn : Turn}
    (h : ((st.held i).bind fun (_, r) =>
      if (st.sched i).playAction then
        if turn.res = Schedule.errAlloc ∨
            turn.res = errEof ∧ (st.media r.currentMedia).live = false then
          st.schedule_stop i
        else some st
      else none) = some st') : DescrKept st st' := by
  obtain ⟨⟨s, r⟩, -, h⟩ := Option.bind_eq_some_iff.mp h
  dsimp only at h
  split at h
  · split at h
    · exact schedule_stop h
    · cases h
      exact refl _
  · cases h

theorem sendPacket {i : Fin oneForkMaxConnection} {turn : Turn}
    (h : st.sendPacket i turn = some st') : DescrKept st st' := by
  obtain ⟨⟨s, r⟩, hheld, h⟩ := Option.bind_eq_some_iff.mp h
  cases hsw : turn.switch with
  | none =>
    rw [hsw] at h
    exact sent h
  | some m =>
    rw [hsw] at h
    exact (stream_switch (held_session hheld) m).trans (sent h)

theorem visit {i : Fin oneForkMaxConnection} {turn : Turn} (h : st.visit i turn = some st') :
    DescrKept st st' := by
  unfold Streams.visit at h
  split at h
  · obtain ⟨⟨s, r⟩, -, h⟩ := Option.bind_eq_some_iff.mp h
    dsimp only at h
    split at h
    · exact sendPacket h
    · cases h
      exact refl _
  · split at h
    · cases h
      exact refl _
    · obtain ⟨r, -, h⟩ := Option.bind_eq_some_iff.mp h
      split at h
      · obtain ⟨st₁, h₁, rfl⟩ := Option.map_eq_some_iff.mp h
        exact (session_destroy h₁).trans (of_eq rfl rfl)
      · cases h
        exact refl _

theorem plain {c : Call} (hc : c.plain = true) (h : callStep st c = some st') :
    DescrKept st st' := by
  cases c with
  | look => cases hc
  | setup => cases hc
  | start id => exact schedule_start h
  | resume id => exact schedule_resume h
  | pause s =>
    obtain ⟨r, hr, rfl⟩ := Option.map_eq_some_iff.mp h
    refine setSession hr ?_
    intro q hq
    cases hq
    rfl
  | remove id => exact schedule_remove h
  | tick => cases hc

theorem tick {turn : Turn} (h : st.schedule_do turn = some st') : DescrKept st st' := by
  unfold Streams.schedule_do at h
  split at h
  · cases h
    split <;> exact of_eq rfl rfl
  · obtain ⟨st₁, h₁, rfl⟩ := Option.map_eq_some_iff.mp h
    exact (visit h₁).trans (of_eq rfl rfl)

theorem made (h : MadePlain st st') : DescrKept st st' := by
  obtain ⟨cs, hcs, h⟩ := h
  induction cs generalizing st with
  | nil =>
    cases h
    exact refl _
  | cons c cs ih =>
    obtain ⟨st₁, h₁, h⟩ := Option.bind_eq_some_iff.mp h
    exact (plain (hcs c List.mem_cons_self) h₁).trans
      (ih (fun d hd => hcs d (List.mem_cons_of_mem _ hd)) h)

end DescrKept

/-! ### The invariant -/

/-- Every session finds its descriptor. -/
def DescrInv (st : Streams) : Prop :=
  ∀ s r d, st.session s = some r → sdDescrOf r = some d → HasDescr st d

theorem DescrKept.inv {st st' : Streams} (hk : DescrKept st st') (h : DescrInv st) :
    DescrInv st' := by
  intro s r' d hr hd
  obtain ⟨r, hr, he⟩ := hk.back s r' hr
  exact hk.kept d (h s r d hr (he ▸ hd))

theorem DescrInv.inUse {st : Streams} (h : DescrInv st) : DescrInUse st := by
  refine ⟨h, ?_⟩
  intro s r hr
  unfold Streams.RTP_transport_close
  dsimp only
  cases ht : r.transport.type with
  | avp =>
    dsimp only
    split
    · have hd : HasDescr st r.sdDescr := by
        apply h s r r.sdDescr hr
        unfold sdDescrOf
        rw [if_neg (by rw [ht]; decide)]
      rw [Option.isSome_map, Option.isSome_map]
      exact hd
    · rfl
  | avpTcp => rfl
  | noTransport => rfl

theorem put_descr {sds : List (Option SDDescr)} {i d : ℕ} {x : Option SDDescr}
    (h : (sds[d]?.join).isSome = true) (hx : x.isSome = true ∨ d ≠ i) :
    (((if i < sds.length then sds.set i x else sds ++ [x])[d]?).join).isSome = true := by
  have hlt : d < sds.length := by
    by_contra hge
    rw [List.getElem?_eq_none (Nat.le_of_not_lt hge)] at h
    cases h
  split
  · by_cases hd : i = d
    · subst hd
      rw [List.getElem?_set_self hlt]
      exact hx.resolve_right fun hne => hne rfl
    · rw [List.getElem?_set_ne hd]
      exact h
  · rw [List.getElem?_append_left hlt]
    exact h

theorem DescrInv.look {st : Streams} (h : DescrInv st) {object : Bytes} {found : ParsedSD}
    (hs : LookSpares st object found) : DescrInv (enum_media st object found).2 := by
  intro s r d hr hd
  unfold enum_media at hr ⊢
  cases found with
  | error res =>
    exact put_descr (h s r d hr hd) (Or.inr fun he => hs res rfl s r hr (he ▸ hd))
  | unchanged => exact put_descr (h s r d hr hd) (Or.inl rfl)
  | parsed file => exact put_descr (h s r d hr hd) (Or.inl rfl)

theorem look_hasDescr {st st' : Streams} {object : Bytes} {found : ParsedSD} {d : ℕ}
    (h : enum_media st object found = (.ok d, st')) : HasDescr st' d := by
  have hput : ∀ (i : ℕ) (x : SDDescr), i ≤ st.sds.length →
      (((if i < st.sds.length then st.sds.set i (some x) else st.sds ++ [some x])[i]?).join).isSome =
        true := by
    intro i x hi
    split
    · rename_i hlt
      rw [List.getElem?_set_self hlt]
      rfl
    · have he : i = st.sds.length := by omega
      rw [he, List.getElem?_concat_length]
      rfl
  have hfind : (findDescr st object).1 ≤ st.sds.length := by
    unfold findDescr
    split
    · rename_i i hi
      exact Nat.le_of_lt (List.findIdx?_eq_some_iff_findIdx_eq.mp hi).1
    · exact le_rfl
  unfold enum_media at h
  cases found with
  | error res => cases h
  | unchanged =>
    cases h
    exact hput _ _ hfind
  | parsed file =>
    cases h
    exact hput _ _ hfind

/-! ### Messages -/

theorem DescrInv.entered {st st' : Streams} (h : DescrInv st) {r : RTPSession}
    (hheap : st'.heap = (st.heap ++ [none]).set st.heap.length (some r)) (hsds : st'.sds = st.sds)
    (hr : ∀ d, sdDescrOf r = some d → HasDescr st d) : DescrInv st' := by
  intro s q d hq hd
  unfold HasDescr
  rw [hsds]
  rw [Streams.session_new hheap] at hq
  split at hq
  · cases hq
    exact hr d hd
  · exact h s q d hq hd

theorem took_kept {w : World} {rtsp : RTSPBuffer} {st : Streams} {d m : ℕ} {c : Chosen}
    {o : Offer} (h : Took w rtsp st d m c o) : DescrKept st c.st := by
  cases h with
  | unicast ser port =>
    obtain ⟨i, -, he⟩ := Option.map_eq_some_iff.mp port
    rw [Prod.mk.injEq] at he
    rw [← he.2]
    exact .of_eq rfl rfl
  | multicast eq =>
    rw [eq]
    unfold chooseMulticast
    dsimp only
    split
    · exact .refl st
    · exact .setDescr d _
  | tcp same =>
    rw [same]
    exact .refl st

theorem add_frame {st st' : Streams} {s : ℕ} {dad : Bool} {id : ℤ}
    (h : st.schedule_add s dad = (id, st')) : st'.heap = st.heap ∧ st'.sds = st.sds := by
  rcases st.add_cases s dad with ⟨i, -, he⟩ | ⟨-, he⟩
  · rw [h, Prod.mk.injEq] at he
    rw [he.2]
    exact ⟨rfl, rfl⟩
  · rw [h, Prod.mk.injEq] at he
    rw [he.2]
    exact ⟨rfl, rfl⟩

theorem DescrInv.setupFrom {w : World} {inp : Bytes} {rtsp rtsp' : RTSPBuffer} {object : Bytes}
    {d m : ℕ} {tkns : List Bytes} {st st' : Streams} {rc : ℤ} (h : DescrInv st)
    (hd : HasDescr st d) (hs : setupFrom w inp rtsp object d m tkns st = some (rc, rtsp', st')) :
    DescrInv st' := by
  rcases setupFrom_cases hs with ⟨r, -, -, -, rfl⟩ | ⟨c, hc, hfin⟩
  · exact h
  · obtain ⟨o, tkn, -, htook⟩ := chooseTransport_took hc
    have hkept := took_kept htook
    have hinv := hkept.inv h
    cases hfin with
    | noSession => exact hinv
    | notCopied id _ out st₂ hcopy =>
      obtain ⟨entries, buffers, rfl⟩ := copyMedia_frame hcopy
      refine hinv.entered (r := halfSession object out) rfl rfl ?_
      intro e he
      cases he
    | entered sessionId _ out st₂ hcopy id st₃ ha =>
      obtain ⟨entries, buffers, rfl⟩ := copyMedia_frame hcopy
      obtain ⟨hheap, hsds⟩ := add_frame ha
      refine hinv.entered (r := fullSession w object d out c id) ?_ hsds ?_
      · change st₃.heap.set _ _ = _
        rw [hheap]
      · intro e he
        unfold sdDescrOf at he
        split at he
        · cases he
        · cases he
          exact hkept.kept d hd

theorem DescrInv.setup {w : World} {inp : Bytes} {rtsp : RTSPBuffer} {st : Streams}
    (h : DescrInv st) (hs : Handler.spares w inp st .setup) :
    ∀ out, RTSP_setup w inp rtsp st = some out → DescrInv out.2.2 := by
  unfold RTSP_setup
  apply check_streams h
  intro ⟨object, filename⟩ hurl
  have hlook := h.look (hs _ hurl)
  dsimp only at hlook ⊢
  obtain ⟨res, st₁, he⟩ : ∃ res st₁, enum_media st object w.file = (res, st₁) := ⟨_, _, rfl⟩
  rw [he] at hlook ⊢
  cases res with
  | error e =>
    intro out ho
    cases ho
    exact hlook
  | ok d =>
    dsimp only at hlook ⊢
    apply check_streams hlook
    intro m _
    apply check_streams hlook
    intro n _
    apply check_streams hlook
    intro tkns _
    split
    · intro out ho
      cases ho
      exact hlook
    · intro ⟨rc, rtsp', st'⟩ ho
      exact @DescrInv.setupFrom w inp { rtsp with rtspCseq := n } rtsp' object d m tkns st₁ st' rc
        hlook (look_hasDescr he) ho

theorem DescrInv.get_media_descr {w : World} {object : Bytes} {st : Streams} (h : DescrInv st)
    (hs : LookSpares st object w.file) : DescrInv (get_media_descr w object st).2 := by
  rcases get_media_descr_streams w object st with he | he <;> rw [he]
  · exact h.look hs
  · exact h

theorem DescrInv.describe {w : World} {inp : Bytes} {rtsp : RTSPBuffer} {st : Streams}
    (h : DescrInv st) (hs : Handler.spares w inp st .describe) :
    ∀ out, RTSP_describe w inp rtsp st = some out → DescrInv out.2.2 := by
  unfold RTSP_describe
  apply check_streams h
  intro u hurl
  apply check_streams h
  intro n _
  obtain ⟨hfirst, hagain⟩ := hs u hurl
  have hget := h.get_media_descr hfirst
  dsimp only
  apply check_streams hget
  intro _ _
  by_cases hw : w.maxConnection = true
  · rw [if_pos hw]
    have hlook := hget.look (hagain hw)
    unfold send_redirect_3xx
    obtain ⟨res, st₂, he⟩ : ∃ res st₂,
        enum_media (Rtsp.get_media_descr w u.object st).2 u.object w.file.again = (res, st₂) :=
      ⟨_, _, rfl⟩
    rw [he] at hlook ⊢
    cases res with
    | error e =>
      intro out ho
      cases ho
      exact hlook
    | ok d =>
      dsimp only
      split
      · intro out ho
        obtain ⟨_, -, rfl⟩ := Option.map_eq_some_iff.mp ho
        exact hlook
      · intro out ho
        cases ho
        exact hlook
  · rw [if_neg hw]
    intro out ho
    obtain ⟨_, -, ho⟩ := Option.bind_eq_some_iff.mp ho
    obtain ⟨_, -, rfl⟩ := Option.map_eq_some_iff.mp ho
    exact hget

theorem DescrInv.handler {x : Handler} {w : World} {inp : Bytes} {rtsp : RTSPBuffer} {st : Streams}
    (h : DescrInv st) (hs : x.spares w inp st) :
    ∀ out, x.run w inp rtsp st = some out → DescrInv out.2.2 := by
  intro out ho
  cases x with
  | describe => exact h.describe hs out ho
  | options => exact (DescrKept.made (options_plain out ho)).inv h
  | setup => exact h.setup hs out ho
  | play => exact (DescrKept.made (play_plain out ho)).inv h
  | pause => exact (DescrKept.made (pause_plain out ho)).inv h
  | teardown => exact (DescrKept.made (teardown_plain out ho)).inv h

theorem DescrInv.message {w : World} {inp : Bytes} {rtsp rtsp' : RTSPBuffer} {st st' : Streams}
    (h : DescrInv st) (hs : MessageSpares w inp rtsp st)
    (hm : handleMessage w inp rtsp st = some (rtsp', st')) : DescrInv st' := by
  refine message_streams h ?_ hm
  intro m seq p x hmethod _ hp hx out ho
  exact h.handler (hs m hmethod p hp x hx) out ho

theorem DescrInv.step {sv sv' : Server} {a : Act} (h : DescrInv sv.st) (hs : StepSpares sv a)
    (hstep : serverStep sv a = some sv') : DescrInv sv'.st := by
  cases a with
  | connect =>
    cases hstep
    exact h
  | fdsets k =>
    obtain ⟨rtsp, -, hstep⟩ := Option.bind_eq_some_iff.mp hstep
    obtain ⟨_, -, rfl⟩ := Option.map_eq_some_iff.mp hstep
    exact h
  | request k w inp =>
    obtain ⟨rtsp, hr, hstep⟩ := Option.bind_eq_some_iff.mp hstep
    obtain ⟨⟨rtsp', st'⟩, hm, rfl⟩ := Option.map_eq_some_iff.mp hstep
    exact h.message (hs rtsp hr) hm
  | close k =>
    obtain ⟨rtsp, st', -, hc, rfl⟩ := close_step hstep
    exact (DescrKept.made (closeLoop_plain hc)).inv h
  | tick turn =>
    obtain ⟨st', ht, rfl⟩ := Option.map_eq_some_iff.mp hstep
    exact (DescrKept.tick ht).inv h

/-- In a run in which `enum_media` does not fail for a presentation that a session has, no
session loses its descriptor. -/
theorem descriptors_in_use {as : List Act} {sv : Server}
    (h : GuardedRun serverStep StepSpares Server.init as sv) : DescrInUse sv.st := by
  have hstep : ∀ s a t, (fun u : Server => DescrInv u.st) s → StepSpares s a →
      serverStep s a = some t → (fun u : Server => DescrInv u.st) t :=
    fun _ _ _ hi hg hs => hi.step hg hs
  refine DescrInv.inUse (h.invariant hstep ?_)
  intro s r d hr
  cases hr

/-- A multicast presentation. -/
def broadcast : SDFile where
  multicast := some (lit "224.1.1.1")
  streams := [{ filename := lit "v.mpg", mtype := .video, encodingName := lit "MPV" }]

/-- One client sets up the broadcast, and another one asks for a presentation that cannot
be read. -/
def lookedFor (name : String) : List Act :=
  [.connect, .request 0 { file := .parsed broadcast }
      (message "SETUP" "rtsp://localhost/film.sd!v.mpg" 1 ["Transport: RTP/AVP;multicast"]),
    .connect, .request 1 { file := .error errParse }
      (message "DESCRIBE" ("rtsp://localhost/" ++ name) 1 [])]

theorem descriptors_in_use_other : ∃ sv,
    exec serverStep Server.init (lookedFor "other.sd") = some sv ∧ DescrInUse sv.st := by
  have hrun : allowed serverStep StepSpares Server.init (lookedFor "other.sd") = true := by
    decide +kernel
  have hexec := @exec_served (lookedFor "other.sd") (by decide +kernel)
  exact ⟨_, hexec, descriptors_in_use (.of_allowed hrun hexec)⟩

/-- The file of the broadcast is damaged, and the descriptor that its listener has is
freed. -/
theorem descriptor_freed_in_use : ¬ ∀ (as : List Act) (sv : Server),
    exec serverStep Server.init as = some sv → DescrInUse sv.st := by
  intro h
  have hexec := @exec_served (lookedFor "film.sd") (by decide +kernel)
  have hdangling : ((served (lookedFor "film.sd")).st.session 0).any (fun r =>
      !((served (lookedFor "film.sd")).st.RTP_transport_close r).isSome) = true := by
    decide +kernel
  obtain ⟨r, hr, hno⟩ := (Option.any_eq_true _ _).mp hdangling
  have hcloses := (h _ _ hexec).closes 0 r hr
  rw [hcloses] at hno
  cases hno

end Fenice.Rtsp
