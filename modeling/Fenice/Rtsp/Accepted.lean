import Fenice.Rtsp.Sweep

/-!
# The copies of accepted media

An SD file gives only media that `validate_stream` has accepted, and no call makes another one
of them. So `mediacpy` finds nothing that it cannot copy.
-/

namespace Fenice.Rtsp
open Fenice.CString Fenice.Schedule Fenice.Run

/-- Every entry is one that `validate_stream` lets through, or a new one. -/
def Accepted (st : Streams) : Prop := ∀ e ∈ st.entries, e.accepted = true

namespace Accepted

variable {st st' : Streams}

theorem init (port : ℤ) : Accepted (Streams.init port) := fun _ he => absurd he List.not_mem_nil

theorem of_entries (h : Accepted st) (he : st'.entries = st.entries) : Accepted st' := by
  rw [Accepted, he]
  exact h

theorem append (h : Accepted st) {l : List MediaEntry} (hl : ∀ e ∈ l, e.accepted = true)
    (he : st'.entries = st.entries ++ l) : Accepted st' := by
  intro e hmem
  rw [he] at hmem
  rcases List.mem_append.mp hmem with hmem | hmem
  · exact h e hmem
  · exact hl e hmem

theorem media (h : Accepted st) (m : ℕ) : (st.media m).accepted = true := by
  unfold Streams.media
  rw [List.getD_eq_getElem?_getD]
  cases hm : st.entries[m]? with
  | none => rfl
  | some e => exact h e (List.mem_of_getElem? hm)

theorem setMedia (h : Accepted st) (m : ℕ) {e : MediaEntry} (he : e.accepted = true) :
    Accepted (st.setMedia m e) := by
  intro x hx
  rcases List.mem_or_eq_of_mem_set hx with hx | rfl
  · exact h x hx
  · exact he

theorem setBuffer (h : Accepted st) (m : ℕ) (b : Option ℕ) :
    Accepted (st.setMedia m { st.media m with pktBuffer := b }) := by
  refine h.setMedia m ?_
  exact h.media m

/-! ### The calls -/

theorem look (h : Accepted st) (object : Bytes) (found : ParsedSD) :
    Accepted (enum_media st object found).2 := by
  unfold enum_media
  cases found with
  | error | unchanged => exact h.of_entries rfl
  | parsed file =>
    refine h.append (l := file.streams.map fun e => { e with pktBuffer := none }) ?_ rfl
    intro e he
    obtain ⟨x, hx, rfl⟩ := List.mem_map.mp he
    exact file.accepted x hx

theorem alloc (h : Accepted st) : Accepted (alloc st) := by
  refine h.append (l := [{}]) ?_ rfl
  intro e he
  rw [List.mem_singleton.mp he]
  rfl

theorem copied (h : Accepted st) (out source : ℕ) : Accepted (st.copied out source).2 := by
  unfold Streams.copied
  split
  · exact h
  · exact h.setMedia out (h.media source)

theorem newBuffer (h : Accepted st) (m : ℕ) : Accepted (st.newBuffer m) :=
  (h.setBuffer m (some st.buffers.length)).of_entries rfl

theorem mediacpy (h : Accepted st) (out source : ℕ) (shmMap : Bool) :
    (mediacpy st out source shmMap).2.1 = true ∧
      Accepted (mediacpy st out source shmMap).2.2 := by
  have htype : (st.media source).mtype = .audio ∨ (st.media source).mtype = .video := by
    have he := h.media source
    simp only [MediaEntry.accepted, Bool.and_eq_true, Bool.or_eq_true, beq_iff_eq] at he
    exact he.1
  have hcopied := h.copied out source
  have hname : eqNoCase ((st.copied out source).2.media (st.copied out source).1).encodingName
      (lit "RTP_SHM") = false := by
    have he := hcopied.media (st.copied out source).1
    simp only [MediaEntry.accepted, Bool.and_eq_true, Bool.not_eq_true'] at he
    exact he.2
  rw [Streams.mediacpy_eq htype, hname]
  simp only [Bool.false_and, Bool.false_eq_true, if_false]
  split_ifs
  · exact ⟨rfl, hcopied⟩
  · exact ⟨rfl, hcopied.newBuffer _⟩

theorem copyMedia (h : Accepted st) {w : World} {m : ℕ} {c : Chosen}
    (hc : c.st.entries = st.entries) :
    (copyMedia w m c).2.1 = true ∧ Accepted (copyMedia w m c).2.2 := by
  have halloc : Accepted (Rtsp.alloc c.st) := (h.of_entries hc).alloc
  unfold Rtsp.copyMedia
  split
  · exact halloc.mediacpy _ m w.shmMap
  · exact ⟨rfl, halloc⟩

theorem finished (h : Accepted st) {w : World} {inp object : Bytes} {rtsp rtsp' : RTSPBuffer}
    {d m : ℕ} {c : Chosen} {rc : ℤ} (hc : c.st.entries = st.entries)
    (hfin : Finished w inp rtsp object d m c rc rtsp' st') : Accepted st' := by
  have hcopy := h.copyMedia (w := w) (m := m) hc
  cases hfin with
  | noSession => exact h.of_entries hc
  | notCopied id _ out st₂ he =>
    rw [he] at hcopy
    cases hcopy.1
  | entered sessionId _ out st₂ he id st₃ ha =>
    rw [he] at hcopy
    refine hcopy.2.of_entries ?_
    rcases Streams.add_cases st₂ c.st.heap.length c.dad with ⟨i, -, hadd⟩ | ⟨-, hadd⟩
    · rw [ha] at hadd
      cases hadd
      rfl
    · rw [ha] at hadd
      cases hadd
      rfl

theorem tick (h : Accepted st) {turn : Turn} (ht : st.schedule_do turn = some st') :
    Accepted st' := by
  rcases Streams.tick_cases ht with ⟨position, rfl⟩ | ⟨i, t, -, hv, rfl⟩
  · exact h.of_entries rfl
  · have hstopped : ∀ {u : Streams} (s : ℕ) (r : RTPSession) (stop : Bool), Accepted u →
        Accepted (u.stopped s r stop) := by
      intro u s r stop hu
      cases stop with
      | false => exact hu
      | true => exact hu.of_entries rfl
    have ht' : Accepted t := by
      cases hv with
      | idle => exact h
      | sent s r _ _ _ _ _ stop => exact hstopped s r stop h
      | switched s r _ _ _ _ m _ stop =>
        refine hstopped s _ stop ?_
        exact (h.setBuffer m (st.media r.currentMedia).pktBuffer).of_entries rfl
      | destroyed s r _ _ _ _ t hdestroy =>
        obtain ⟨st₁, st₂, b, n, hclose, hunref, -, -, rfl⟩ := Streams.destroy_cases hdestroy
        obtain ⟨_, _, _, rfl⟩ := Streams.close_cases hclose
        obtain ⟨-, buffers, rfl, -⟩ := Streams.unref_cases hunref
        split_ifs
        · exact (h.setBuffer r.currentMedia none).of_entries rfl
        · exact h.of_entries rfl
    exact ht'.of_entries rfl

theorem call (h : Accepted st) {c : Call} (hs : callStep st c = some st') : Accepted st' := by
  cases c with
  | look object found =>
    cases hs
    exact h.look object found
  | setup w inp rtsp object d m tkns =>
    obtain ⟨⟨rc, rtsp', st₁⟩, hfrom, rfl⟩ := Option.map_eq_some_iff.mp hs
    rcases setupFrom_cases hfrom with ⟨r, -, -, -, hst⟩ | ⟨c, hc, hfin⟩
    · exact h.of_entries (congrArg Streams.entries hst)
    · obtain ⟨o, tkn, -, htook⟩ := chooseTransport_took hc
      exact h.finished htook.keeps.1 hfin
  | start id =>
    obtain ⟨i, s, r, b, n, -, -, -, -, -, rfl⟩ := Streams.start_cases hs
    exact h.of_entries rfl
  | resume id =>
    obtain ⟨i, s, r, -, -, -, rfl⟩ := Streams.resume_cases hs
    exact h.of_entries rfl
  | pause s =>
    obtain ⟨r, -, rfl⟩ := Option.map_eq_some_iff.mp hs
    exact h.of_entries rfl
  | remove id =>
    obtain ⟨i, -, ⟨s, -, rfl⟩ | ⟨-, rfl⟩⟩ := Streams.remove_cases hs
    · exact h.of_entries rfl
    · exact h.of_entries rfl
  | tick turn => exact h.tick hs

theorem made (h : Accepted st) (hm : Made st st') : Accepted st' := by
  obtain ⟨cs, hrun⟩ := hm
  exact exec_invariant (fun _ _ _ hi hs => call hi hs) hrun h

end Accepted

end Fenice.Rtsp
