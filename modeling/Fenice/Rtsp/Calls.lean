import Fenice.Rtsp.Dispatch
import Fenice.Lib.Run

/-!
# The calls a connection makes

What the requests and the end of a connection do to the streams is a sequence of
calls, and the scheduler thread may come in between any two of them. A run of the
server is a run of such calls and of steps of `schedule_do`.
-/

namespace Fenice.Rtsp
open Fenice.CString Fenice.Schedule Fenice.Run

/-- `enum_media`; SETUP from the choice of a transport on; `schedule_start`,
`schedule_resume`, the assignment of PAUSE, `schedule_remove`; and one step of
the scheduler. -/
inductive Call where
  | look (object : Bytes) (found : ParsedSD)
  | setup (w : World) (inp : Bytes) (rtsp : RTSPBuffer) (object : Bytes) (d m : ℕ)
      (tkns : List Bytes)
  | start (id : ℤ)
  | resume (id : ℤ)
  | pause (s : ℕ)
  | remove (id : ℤ)
  | tick (turn : Turn)

/-- `RTSP_setup` from the choice of a transport on. -/
def setupFrom (w : World) (inp : Bytes) (rtsp : RTSPBuffer) (object : Bytes) (d m : ℕ)
    (tkns : List Bytes) (st : Streams) : Handled :=
  check rtsp st (chooseTransport w rtsp st d m tkns) fun chosen =>
    finishSetup w inp rtsp object d m chosen

def callStep (st : Streams) : Call → Option Streams
  | .look object found => some (enum_media st object found).2
  | .setup w inp rtsp object d m tkns =>
    (setupFrom w inp rtsp object d m tkns st).map fun out => out.2.2
  | .start id => st.schedule_start id
  | .resume id => st.schedule_resume id
  | .pause s => (st.session s).map fun r => st.setSession s (some { r with pause := true })
  | .remove id => st.schedule_remove id
  | .tick turn => st.schedule_do turn

/-- `st'` is what some calls make of `st`. -/
def Made (st st' : Streams) : Prop := ∃ cs, exec callStep st cs = some st'

theorem Made.refl (st : Streams) : Made st st := ⟨[], rfl⟩

theorem Made.call {st st' : Streams} {c : Call} (h : callStep st c = some st') : Made st st' :=
  ⟨[c], by rw [exec_cons, h]; rfl⟩

theorem Made.trans {st st' st'' : Streams} (h : Made st st') (h' : Made st' st'') :
    Made st st'' := by
  obtain ⟨cs, hc⟩ := h
  obtain ⟨ds, hd⟩ := h'
  exact ⟨cs ++ ds, exec_append hc hd⟩

/-- Neither `enum_media` nor SETUP, and not the scheduler. -/
def Call.plain : Call → Bool
  | .look .. | .setup .. | .tick _ => false
  | _ => true

/-- `st'` is what some plain calls make of `st`. -/
def MadePlain (st st' : Streams) : Prop :=
  ∃ cs, (∀ c ∈ cs, c.plain = true) ∧ exec callStep st cs = some st'

theorem MadePlain.refl (st : Streams) : MadePlain st st :=
  ⟨[], fun _ hc => (by cases hc), rfl⟩

theorem MadePlain.call {st st' : Streams} {c : Call} (hc : c.plain = true)
    (h : callStep st c = some st') : MadePlain st st' := by
  refine ⟨[c], fun d hd => ?_, by rw [exec_cons, h]; rfl⟩
  rw [List.mem_singleton.mp hd]
  exact hc

theorem MadePlain.trans {st st' st'' : Streams} (h : MadePlain st st') (h' : MadePlain st' st'') :
    MadePlain st st'' := by
  obtain ⟨cs, hcs, hc⟩ := h
  obtain ⟨ds, hds, hd⟩ := h'
  refine ⟨cs ++ ds, fun c hm => ?_, exec_append hc hd⟩
  rcases List.mem_append.mp hm with hm | hm
  · exact hcs c hm
  · exact hds c hm

theorem MadePlain.made {st st' : Streams} (h : MadePlain st st') : Made st st' := by
  obtain ⟨cs, -, hc⟩ := h
  exact ⟨cs, hc⟩

/-! ### Checks -/

/-- A check changes no stream, so what holds of both of its ways holds of it. -/
theorem check_streams {α : Type} {rtsp : RTSPBuffer} {st : Streams} {P : Streams → Prop}
    {x : Checks α} {k : α → Handled} (h : P st)
    (hk : ∀ a, x.run = some (.ok a) → ∀ out, k a = some out → P out.2.2) :
    ∀ out, check rtsp st x k = some out → P out.2.2 := by
  intro out ho
  rcases check_eq_some.mp ho with ⟨r, -, rfl⟩ | ⟨a, ha, hka⟩
  · exact h
  · exact hk a ha out hka

theorem made_check {α : Type} {rtsp : RTSPBuffer} {st st₀ : Streams} {x : Checks α}
    {k : α → Handled} (h : Made st₀ st)
    (hk : ∀ a, x.run = some (.ok a) → ∀ out, k a = some out → Made st₀ out.2.2) :
    ∀ out, check rtsp st x k = some out → Made st₀ out.2.2 := check_streams h hk

theorem plain_check {α : Type} {rtsp : RTSPBuffer} {st st₀ : Streams} {x : Checks α}
    {k : α → Handled} (h : MadePlain st₀ st)
    (hk : ∀ a, x.run = some (.ok a) → ∀ out, k a = some out → MadePlain st₀ out.2.2) :
    ∀ out, check rtsp st x k = some out → MadePlain st₀ out.2.2 := check_streams h hk

theorem made_enum (st : Streams) (object : Bytes) (found : ParsedSD) :
    Made st (enum_media st object found).2 :=
  .call (c := .look object found) rfl

/-! ### The methods -/

theorem setup_made {w : World} {inp : Bytes} {rtsp : RTSPBuffer} {st : Streams} :
    ∀ out, RTSP_setup w inp rtsp st = some out → Made st out.2.2 := by
  unfold RTSP_setup
  apply made_check (.refl st)
  rintro ⟨object, filename⟩ -
  have hlook := made_enum st object w.file
  dsimp only
  split
  · rename_i st₁ he
    rintro out ⟨⟩
    rw [he] at hlook
    exact hlook
  · rename_i d st₁ he
    rw [he] at hlook
    apply made_check hlook
    intro m _
    apply made_check hlook
    intro n _
    apply made_check hlook
    intro tkns _
    split
    · rintro out ⟨⟩
      exact hlook
    · intro out ho
      refine hlook.trans (.call (c := .setup w inp { rtsp with rtspCseq := n } object d m tkns) ?_)
      simp only [callStep, setupFrom, ho, Option.map_some]

theorem get_media_descr_streams (w : World) (object : Bytes) (st : Streams) :
    (get_media_descr w object st).2 = (enum_media st object w.file).2 ∨
      (get_media_descr w object st).2 = st := by
  unfold get_media_descr
  split
  · split
    · obtain ⟨res, st₁, he⟩ : ∃ res st₁, enum_media st object w.file = (res, st₁) := ⟨_, _, rfl⟩
      rw [he]
      cases res with
      | error e => exact .inl rfl
      | ok d =>
        dsimp only
        split <;> exact .inl rfl
    · exact .inr rfl
  · exact .inr rfl

theorem describe_rel {R : Streams → Streams → Prop} (hrefl : ∀ st, R st st)
    (htrans : ∀ st st₁ st₂, R st st₁ → R st₁ st₂ → R st st₂)
    (hlook : ∀ st object found, R st (enum_media st object found).2) {w : World} {inp : Bytes}
    {rtsp : RTSPBuffer} {st : Streams} :
    ∀ out, RTSP_describe w inp rtsp st = some out → R st out.2.2 := by
  unfold RTSP_describe
  apply check_streams (hrefl st)
  intro u _
  apply check_streams (hrefl st)
  intro n _
  have hget : R st (get_media_descr w u.object st).2 := by
    rcases get_media_descr_streams w u.object st with he | he <;> rw [he]
    · exact hlook st u.object w.file
    · exact hrefl st
  dsimp only
  apply check_streams hget
  intro _ _ out ho
  split at ho
  · have hagain := htrans _ _ _ hget (hlook _ u.object w.file.again)
    unfold send_redirect_3xx at ho
    dsimp only at ho
    split at ho
    · rename_i he
      rw [he] at hagain
      cases ho
      exact hagain
    · rename_i he
      rw [he] at hagain
      split at ho
      · obtain ⟨_, -, rfl⟩ := Option.map_eq_some_iff.mp ho
        exact hagain
      · cases ho
        exact hagain
  · obtain ⟨_, -, hlog⟩ := Option.bind_eq_some_iff.mp ho
    obtain ⟨_, -, rfl⟩ := Option.map_eq_some_iff.mp hlog
    exact hget

theorem describe_made {w : World} {inp : Bytes} {rtsp : RTSPBuffer} {st : Streams} :
    ∀ out, RTSP_describe w inp rtsp st = some out → Made st out.2.2 :=
  describe_rel .refl (fun _ _ _ => .trans) made_enum

theorem options_plain {inp : Bytes} {rtsp : RTSPBuffer} {st : Streams} :
    ∀ out, RTSP_options inp rtsp st = some out → MadePlain st out.2.2 := by
  unfold RTSP_options
  apply plain_check (.refl st)
  intro n _ out ho
  obtain ⟨_, -, hlog⟩ := Option.bind_eq_some_iff.mp ho
  obtain ⟨_, -, rfl⟩ := Option.map_eq_some_iff.mp hlog
  exact .refl st

/-! ### The loops over sessions -/

section Loops

variable {R : Streams → Streams → Prop} {st st' : Streams} {list : List ℕ}

theorem startOrResume_rel (hrefl : ∀ st, R st st)
    (hstart : ∀ st id st', st.schedule_start id = some st' → R st st')
    (hresume : ∀ st id st', st.schedule_resume id = some st' → R st st') {s : ℕ}
    (h : startOrResume st s = some st') : R st st' := by
  obtain ⟨r, -, h⟩ := Option.bind_eq_some_iff.mp h
  split at h
  · exact hstart _ _ _ h
  · split at h
    · cases h
      exact hrefl st
    · exact hresume _ _ _ h

theorem playLoop_rel (hrefl : ∀ st, R st st) (htrans : ∀ st st₁ st₂, R st st₁ → R st₁ st₂ → R st st₂)
    (hstart : ∀ st id st', st.schedule_start id = some st' → R st st')
    (hresume : ∀ st id st', st.schedule_resume id = some st' → R st st') {onlyPriority : Bool}
    (h : playLoop onlyPriority list st = some st') : R st st' := by
  induction list generalizing st with
  | nil =>
    cases h
    exact hrefl _
  | cons s rest ih =>
    obtain ⟨r, -, h⟩ := Option.bind_eq_some_iff.mp h
    split at h
    · exact ih h
    · obtain ⟨st₁, h₁, h⟩ := Option.bind_eq_some_iff.mp h
      exact htrans _ _ _ (startOrResume_rel hrefl hstart hresume h₁) (ih h)

theorem playTarget_rel (hrefl : ∀ st, R st st)
    (htrans : ∀ st st₁ st₂, R st st₁ → R st₁ st₂ → R st st₂)
    (hstart : ∀ st id st', st.schedule_start id = some st' → R st st')
    (hresume : ∀ st id st', st.schedule_resume id = some st' → R st st') {session : RTSPSession}
    {t : Target} (h : (playTarget session st t).run = some (.ok st')) : R st st' := by
  cases t with
  | presentation | aggregate =>
    obtain ⟨st₁, h₁, he⟩ := Option.map_eq_some_iff.mp h
    cases he
    exact playLoop_rel hrefl htrans hstart hresume h₁
  | file name =>
    simp only [playTarget] at h
    split at h
    · cases h
    · cases h
    · obtain ⟨st₁, h₁, he⟩ := Option.map_eq_some_iff.mp h
      cases he
      exact hstart _ _ _ h₁

theorem pauseLoop_rel (hrefl : ∀ st, R st st)
    (htrans : ∀ st st₁ st₂, R st st₁ → R st₁ st₂ → R st st₂)
    (hpause : ∀ st s r, st.session s = some r →
      R st (st.setSession s (some { r with pause := true })))
    (h : pauseLoop list st = some st') : R st st' := by
  induction list generalizing st with
  | nil =>
    cases h
    exact hrefl _
  | cons s rest ih =>
    obtain ⟨r, hr, h⟩ := Option.bind_eq_some_iff.mp h
    exact htrans _ _ _ (hpause st s r hr) (ih h)

/-- The RTP sessions of a connection that is closed, in `schedule_connections`. -/
def closeLoop : List ℕ → Streams → Option Streams
  | [], st => some st
  | s :: rest, st =>
    (st.session s).bind fun r => (st.schedule_remove r.schedId).bind fun st => closeLoop rest st

theorem closeLoop_rel (hrefl : ∀ st, R st st)
    (htrans : ∀ st st₁ st₂, R st st₁ → R st₁ st₂ → R st st₂)
    (hremove : ∀ st id st', st.schedule_remove id = some st' → R st st')
    (h : closeLoop list st = some st') : R st st' := by
  induction list generalizing st with
  | nil =>
    cases h
    exact hrefl _
  | cons s rest ih =>
    obtain ⟨r, -, h⟩ := Option.bind_eq_some_iff.mp h
    obtain ⟨st₁, h₁, h⟩ := Option.bind_eq_some_iff.mp h
    exact htrans _ _ _ (hremove _ _ _ h₁) (ih h)

end Loops

theorem playTarget_plain {session : RTSPSession} {st st' : Streams} {t : Target}
    (h : (playTarget session st t).run = some (.ok st')) : MadePlain st st' :=
  playTarget_rel .refl (fun _ _ _ => .trans) (fun _ id _ => .call (c := .start id) rfl)
    (fun _ id _ => .call (c := .resume id) rfl) h

theorem play_plain {w : World} {inp : Bytes} {rtsp : RTSPBuffer} {st : Streams} :
    ∀ out, RTSP_play w inp rtsp st = some out → MadePlain st out.2.2 := by
  unfold RTSP_play
  apply plain_check (.refl st)
  intro n _
  apply plain_check (.refl st)
  intro r _
  apply plain_check (.refl st)
  intro session _
  apply plain_check (.refl st)
  intro st₁ ht out ho
  obtain ⟨_, -, hlog⟩ := Option.bind_eq_some_iff.mp ho
  obtain ⟨_, -, rfl⟩ := Option.map_eq_some_iff.mp hlog
  exact playTarget_plain ht

theorem pauseLoop_plain {list : List ℕ} {st st' : Streams} (h : pauseLoop list st = some st') :
    MadePlain st st' := by
  refine pauseLoop_rel .refl (fun _ _ _ => .trans) (fun st s r hr => ?_) h
  refine .call (c := .pause s) rfl ?_
  simp only [callStep, hr, Option.map_some]

theorem pause_plain {w : World} {inp : Bytes} {rtsp : RTSPBuffer} {st : Streams} :
    ∀ out, RTSP_pause w inp rtsp st = some out → MadePlain st out.2.2 := by
  unfold RTSP_pause
  apply plain_check (.refl st)
  intro n _
  apply plain_check (.refl st)
  intro id _
  apply plain_check (.refl st)
  intro session _ out ho
  obtain ⟨st₁, h₁, ho⟩ := Option.bind_eq_some_iff.mp ho
  obtain ⟨_, -, hlog⟩ := Option.bind_eq_some_iff.mp ho
  obtain ⟨_, -, rfl⟩ := Option.map_eq_some_iff.mp hlog
  exact pauseLoop_plain h₁

theorem teardownLoop_plain {filename : Bytes} {list left : List ℕ} {st st' : Streams}
    (h : teardownLoop filename list st = some (left, st')) : MadePlain st st' := by
  induction list generalizing st left with
  | nil =>
    cases h
    exact .refl _
  | cons s rest ih =>
    obtain ⟨r, -, h⟩ := Option.bind_eq_some_iff.mp h
    dsimp only at h
    split at h
    · obtain ⟨st₁, h₁, h⟩ := Option.bind_eq_some_iff.mp h
      exact MadePlain.trans (.call (c := .remove r.schedId) rfl h₁) (ih h)
    · obtain ⟨⟨left', st₁⟩, h₁, he⟩ := Option.map_eq_some_iff.mp h
      cases he
      exact ih h₁

theorem teardown_plain {w : World} {inp : Bytes} {rtsp : RTSPBuffer} {st : Streams} :
    ∀ out, RTSP_teardown w inp rtsp st = some out → MadePlain st out.2.2 := by
  unfold RTSP_teardown
  apply plain_check (.refl st)
  intro n _
  apply plain_check (.refl st)
  intro r _
  apply plain_check (.refl st)
  intro session _ out ho
  obtain ⟨_, -, ho⟩ := Option.bind_eq_some_iff.mp ho
  obtain ⟨_, -, ho⟩ := Option.bind_eq_some_iff.mp ho
  obtain ⟨⟨left, st₁⟩, h₁, rfl⟩ := Option.map_eq_some_iff.mp ho
  exact teardownLoop_plain h₁

theorem handler_made (x : Handler) {w : World} {inp : Bytes} {rtsp : RTSPBuffer} {st : Streams} :
    ∀ out, x.run w inp rtsp st = some out → Made st out.2.2 := by
  cases x with
  | describe => exact describe_made
  | options => exact fun out ho => (options_plain out ho).made
  | setup => exact setup_made
  | play => exact fun out ho => (play_plain out ho).made
  | pause => exact fun out ho => (pause_plain out ho).made
  | teardown => exact fun out ho => (teardown_plain out ho).made

/-! ### A request and the end of a connection -/

theorem moveTo_made {st : Streams} {next : CurState} {x : Handled} {rtsp' : RTSPBuffer}
    {st' : Streams} (hx : ∀ out, x = some out → Made st out.2.2)
    (h : moveTo next x = some (rtsp', st')) : Made st st' := by
  obtain ⟨⟨rc, rtsp₁, st₁⟩, hs, he⟩ := Option.map_eq_some_iff.mp h
  have hm := hx _ hs
  dsimp only at he
  split at he <;> cases he <;> exact hm

theorem stay_made {st : Streams} {x : Handled} {rtsp' : RTSPBuffer} {st' : Streams}
    (hx : ∀ out, x = some out → Made st out.2.2) (h : stay x = some (rtsp', st')) :
    Made st st' := by
  obtain ⟨⟨rc, rtsp₁, st₁⟩, hs, he⟩ := Option.map_eq_some_iff.mp h
  cases he
  exact hx _ hs

theorem same_made {rtsp rtsp' : RTSPBuffer} {st st' : Streams}
    (h : some (rtsp, st) = some (rtsp', st')) : Made st st' := by
  cases h
  exact .refl st

theorem refuse_made {status : ℕ} {rtsp rtsp' : RTSPBuffer} {st st' : Streams}
    (h : refuse status rtsp st = some (rtsp', st')) : Made st st' := by
  unfold refuse at h
  exact same_made h

theorem state_machine_made {w : World} {inp : Bytes} {rtsp rtsp' : RTSPBuffer}
    {st st' : Streams} {method : Method}
    (h : RTSP_state_machine w inp rtsp st method = some (rtsp', st')) : Made st st' := by
  rw [state_machine_cell] at h
  split at h
  · exact refuse_made h
  · split at h
    · exact same_made h
    · rename_i p _
      cases hc : cell p.curState method with
      | silent =>
        rw [hc] at h
        exact same_made h
      | refuse status =>
        rw [hc] at h
        exact refuse_made h
      | stay x =>
        rw [hc] at h
        exact stay_made (handler_made x) h
      | move x next =>
        rw [hc] at h
        exact moveTo_made (handler_made x) h

theorem handleMessage_made {w : World} {inp : Bytes} {rtsp rtsp' : RTSPBuffer}
    {st st' : Streams} (h : handleMessage w inp rtsp st = some (rtsp', st')) : Made st st' := by
  unfold handleMessage at h
  split at h
  · exact same_made h
  · split at h
    · exact same_made h
    · exact same_made h
    · exact state_machine_made h

theorem closeLoop_plain {list : List ℕ} {st st' : Streams} (h : closeLoop list st = some st') :
    MadePlain st st' :=
  closeLoop_rel .refl (fun _ _ _ => .trans) (fun _ id _ => .call (c := .remove id) rfl) h

end Fenice.Rtsp
