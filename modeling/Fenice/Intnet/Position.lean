import Fenice.Intnet.Failures
import Fenice.Mediainfo.Mp3
import Fenice.Rtp.Playback

/-!
# The position of a session that changes its stream

The clock, the offset to seek to and the open file belong to the media. `stream_switch` sets none
of them.
-/

namespace Fenice.Intnet
open Fenice.CString Fenice.Mediainfo

namespace Media

/-- The time that `RTP_send_packet` gives to `get_frame`. -/
def position (m : Media) : ℚ := m.mtime - m.mstart + m.mstartOffset

def isOpen (m : Media) : Bool := m.entry.flags &&& ME_FD != 0

/-- `lseek`, from `here`, which fails for an offset before the file. -/
def lseek (here offset : ℤ) : ℤ := if 0 ≤ offset then offset else here

/-- A `double` as an `int`. -/
def toInt (x : ℚ) : ℤ := x.num.tdiv x.den

/-- Where `read_MP3` begins to read. -/
def mp3ReadsFrom (m : Media) (here : ℤ) : ℤ :=
  if m.playOffset ≠ -1 ∧ m.entry.description.msource ≠ .live then
    lseek here (toInt (m.entry.description.bitrate / 8 * m.playOffset / 1000))
  else here

/-- Where `read_MPEG_video` begins to read, apart from the headers it looks at in between. A bit
rate that is not known is worked out from what has been sent so far. -/
def mpegReadsFrom (m : Media) (here : ℤ) : ℤ :=
  if m.entry.description.msource ≠ .live ∧ m.playOffset ≠ m.prevMstartOffset then
    let sent : ℕ := if m.isOpen then m.dataTotal else 0
    let bitrate :=
      if m.entry.description.bitrate = 0 then toInt (sent * 8 / m.position) * 1000
      else m.entry.description.bitrate
    Playback.toUint32 ((bitrate.tdiv 8 : ℤ) * m.playOffset / 1000)
  else here

/-- Where the next read begins in the file; `none` without a reader. A file that is not open is
opened at its beginning. -/
def readsFrom (m : Media) : Option ℤ :=
  let here : ℤ := if m.isOpen then m.offset else 0
  match m.entry.description.ftype with
  | .none => none
  | .mp3 => some (m.mp3ReadsFrom here)
  | .mpeg => some (m.mpegReadsFrom here)
  | .h264 => some here

/-- The media that `read_MP3` works on. -/
structure IsSource (m : Media) (e : Mpa.MediaEntry) : Prop where
  fd : e.fd = if m.isOpen then some m.offset else none
  playOffset : e.playOffset = m.playOffset
  live : e.description.live = decide (m.entry.description.msource = .live)
  bitrate : (e.description.bitrate : ℤ) = m.entry.description.bitrate

theorem readsFrom_ready {m : Media} {e : Mpa.MediaEntry} (h : m.IsSource e)
    (hmp3 : m.entry.description.ftype = .mp3) :
    m.readsFrom = e.ready.fd.map fun offset : ℕ => (offset : ℤ) := by
  have hopened : (if e.fd.isNone then e.mediaopen else e) =
      { e with fd := some (if m.isOpen then m.offset else 0) } := by
    cases e with
    | mk file fd playOffset buffData buffSize description =>
      have hfd : fd = if m.isOpen then some m.offset else none := h.fd
      cases hopen : m.isOpen <;> simp [hfd, hopen, Mpa.MediaEntry.mediaopen]
  have hseek : Mpa.seekOffset e.description m.playOffset =
      toInt (m.entry.description.bitrate / 8 * m.playOffset / 1000) := by
    rw [Mpa.seekOffset, toInt, ← h.bitrate, Int.cast_natCast]
  have hlive : (e.description.live = true) ↔ m.entry.description.msource = .live := by
    rw [h.live, decide_eq_true_eq]
  simp only [readsFrom, hmp3, mp3ReadsFrom, Mpa.MediaEntry.ready, hopened, hlive, h.playOffset]
  split
  · simp only [Mpa.MediaEntry.lseek, hseek, lseek]
    split
    · rename_i hpos
      simp [Int.toNat_of_nonneg hpos]
    · cases m.isOpen <;> rfl
  · cases m.isOpen <;> rfl

end Media

/-- The position and the start of the session are as they were, and the new media is not read
from its beginning. -/
structure KeepsPosition (old new : Media) : Prop where
  position : new.position = old.position
  mstart : new.mstart = old.mstart
  reads : new.readsFrom ≠ some 0

/-- The new media has the clock of the old one, as it is, and stands behind its beginning. -/
structure Aligned (old new : Media) : Prop where
  mstart : new.mstart = old.mstart
  sent : new.mtime + new.mstartOffset = old.mtime + old.mstartOffset
  reads : new.readsFrom ≠ some 0

theorem keeps_iff_aligned {old new : Media} : KeepsPosition old new ↔ Aligned old new := by
  constructor
  · intro h
    have hposition := h.position
    unfold Media.position at hposition
    rw [h.mstart] at hposition
    exact ⟨h.mstart, by linarith, h.reads⟩
  · intro h
    refine ⟨?_, h.mstart, h.reads⟩
    have hsent := h.sent
    unfold Media.position
    rw [h.mstart]
    linarith

/-- What `enum_media` does to the media of a session. -/
structure Extends (w u : World) : Prop where
  session : u.session = w.session
  medias : ∃ streams : List MediaEntry, u.medias = w.medias ++ streams.map fun e => { entry := e }

section

variable {w u v : World} {a : Adaptation} {found later : Found} {res : ℤ} {p : ℕ}

theorem Extends.trans (h : Extends w u) (h' : Extends u v) : Extends w v := by
  obtain ⟨xs, hxs⟩ := h.medias
  obtain ⟨ys, hys⟩ := h'.medias
  exact ⟨h'.session.trans h.session, xs ++ ys, by rw [hys, hxs, List.map_append, List.append_assoc]⟩

/-- A media that was there is as it was, and one that has just been read has not been played. -/
theorem Extends.media (h : Extends w u) (m : ℕ) :
    u.media m = w.media m ∨ (u.media m).mstart = 0 ∧ (w.media m).mstart = 0 := by
  obtain ⟨streams, hmedias⟩ := h.medias
  rcases Nat.lt_or_ge m w.medias.length with hlt | hge
  · left
    rw [World.media, hmedias, List.getD_append _ _ _ _ hlt, World.media]
  · right
    refine ⟨?_, ?_⟩
    · rw [World.media, hmedias, List.getD_append_right _ _ _ _ hge, List.getD_eq_getElem?_getD,
        List.getElem?_map]
      cases streams[m - w.medias.length]? <;> rfl
    · rw [World.media, List.getD_eq_default _ _ hge]

theorem Extends.of_meList {list : List ℕ} (h : w.meList found = some (list, u)) : Extends w u := by
  rcases World.meList_cases w found with ⟨-, hnone⟩ | ⟨-, list', u', hsome, hlisted⟩
  · rw [h] at hnone
    cases hnone
  · rw [h] at hsome
    cases hsome
    exact ⟨hlisted.session, hlisted.medias⟩

theorem increase_switches (h : w.priority_increase found = some (res, v))
    (hswitch : v.session.currentMedia ≠ w.session.currentMedia) :
    ∃ u p, Extends w u ∧ (res, v) = u.stream_switch p := by
  obtain ⟨⟨list, u⟩, hlist, h⟩ := Option.map_eq_some_iff.mp h
  have hextends := Extends.of_meList hlist
  rw [← hextends.session] at hswitch
  dsimp only at h
  split at h
  · split at h
    · exact ⟨u, _, hextends, h.symm⟩
    · cases h
      exact absurd rfl hswitch
  · cases h
    exact absurd rfl hswitch

theorem decrease_switches (h : w.priority_decrease found = some (res, v))
    (hswitch : v.session.currentMedia ≠ w.session.currentMedia) :
    ∃ u p, Extends w u ∧ (res, v) = u.stream_switch p := by
  obtain ⟨⟨list, u⟩, hlist, h⟩ := Option.map_eq_some_iff.mp h
  have hextends := Extends.of_meList hlist
  rw [← hextends.session] at hswitch
  dsimp only at h
  split at h
  · exact ⟨u, _, hextends, h.symm⟩
  · cases h
    exact absurd rfl hswitch

/-- A change of priority that takes the session to another media ends in `stream_switch`. -/
theorem priority_switches (h : a.priority found w = some (res, v))
    (hswitch : v.session.currentMedia ≠ w.session.currentMedia) :
    ∃ u p, Extends w u ∧ (res, v) = u.stream_switch p := by
  unfold Adaptation.priority at h
  split at h
  · exact increase_switches h hswitch
  · exact increase_switches h hswitch
  · exact decrease_switches h hswitch

/-- An adaptation that takes the session to another media ends in `stream_switch`. -/
theorem run_switches (h : a.run found later w = some (res, v))
    (hswitch : v.session.currentMedia ≠ w.session.currentMedia) :
    ∃ u p, Extends w u ∧ (res, v) = u.stream_switch p := by
  rw [Adaptation.run_eq] at h
  split at h
  · obtain ⟨⟨list, u⟩, hlist, h⟩ := Option.bind_eq_some_iff.mp h
    have hextends := Extends.of_meList hlist
    dsimp only at h
    split at h
    · rename_i p _
      exact ⟨u, p, hextends, (Option.some.inj h).symm⟩
    · rw [← hextends.session] at hswitch
      obtain ⟨x, p, hx, hv⟩ := priority_switches h hswitch
      exact ⟨x, p, hextends.trans hx, hv⟩
  · exact priority_switches h hswitch

theorem stream_switch_media (h : p ≠ u.session.currentMedia) :
    ∃ b, (u.stream_switch p).2.current = { u.media p with pktBuffer := b } := by
  refine ⟨((u.stream_switch p).2.media p).pktBuffer, ?_⟩
  have hentry := stream_switch_flags p h
  have hrest := stream_switch_keeps (fun e => (e.fd, e.offset, e.mtime, e.mstart, e.mstartOffset,
    e.playOffset, e.prevMstartOffset, e.dataTotal)) (fun _ _ => rfl) (fun _ _ => rfl) u p p
  simp only [Prod.mk.injEq] at hrest
  obtain ⟨hfd, hoffset, hmtime, hmstart, hstart, hplay, hprev, htotal⟩ := hrest
  change (u.stream_switch p).2.media p = _
  dsimp only
  rw [← hentry, ← hfd, ← hoffset, ← hmtime, ← hmstart, ← hstart, ← hplay, ← hprev, ← htotal]

/-- For every adaptation of a session that plays: the position is kept exactly if the media that
is switched to already had it. -/
theorem keeps_position_iff (h : a.run found later w = some (res, v))
    (hplays : w.current.mstart ≠ 0) (hswitch : v.session.currentMedia ≠ w.session.currentMedia) :
    KeepsPosition w.current v.current ↔ Aligned w.current (w.media v.session.currentMedia) := by
  obtain ⟨u, p, hextends, hv⟩ := run_switches h hswitch
  obtain rfl : v = (u.stream_switch p).2 := congrArg Prod.snd hv
  have hp : (u.stream_switch p).2.session.currentMedia = p := rfl
  rw [hp] at hswitch ⊢
  rw [← hextends.session] at hswitch
  obtain ⟨b, hb⟩ := stream_switch_media hswitch
  have hbuffer : KeepsPosition w.current { u.media p with pktBuffer := b } ↔
      KeepsPosition w.current (u.media p) := ⟨fun hk => ⟨hk.position, hk.mstart, hk.reads⟩,
    fun hk => ⟨hk.position, hk.mstart, hk.reads⟩⟩
  rw [hb, hbuffer, keeps_iff_aligned]
  rcases hextends.media p with hsame | ⟨hfresh, hnone⟩
  · rw [hsame]
  · refine iff_of_false ?_ ?_
    · intro haligned
      exact hplays (haligned.mstart.symm.trans hfresh)
    · intro haligned
      exact hplays (haligned.mstart.symm.trans hnone)

/-- A stream of MPEG audio that has been read up to an offset. -/
def playedAudio (bitrate : ℤ) (offset : ℕ) : Media :=
  { entry := { flags := ME_FD, description :=
      { encodingName := lit "MPA", ftype := .mp3, bitrate := bitrate } }
    offset := offset
    mstart := 1000
    mtime := 6000
    playOffset := -1 }

/-- A session that has played for five seconds, and a second stream that it may change to. -/
def playingTwo (second : Media) : World where
  medias := [playedAudio 128000 80000, second]
  sds := [some { filename := lit "a.sd", meList := [1] }]
  session := { sdFilename := lit "a.sd", currentMedia := 0 }

theorem keeps_position_shared :
    KeepsPosition (playingTwo (playedAudio 64000 40000)).current
      ((playingTwo (playedAudio 64000 40000)).stream_switch 1).2.current := by
  have hrun : (Adaptation.rate .MPA .down).run .unchanged .unchanged
      (playingTwo (playedAudio 64000 40000)) =
        some (ERR_NOERROR, ((playingTwo (playedAudio 64000 40000)).stream_switch 1).2) := rfl
  exact (keeps_position_iff hrun (by decide) (by decide)).mpr ⟨rfl, rfl, by decide⟩

/-- The other stream has not been played yet. -/
theorem position_lost :
    ¬ ∀ (a : Adaptation) (found later : Found) (w v : World) (res : ℤ),
      a.run found later w = some (res, v) → w.current.mstart ≠ 0 →
      v.session.currentMedia ≠ w.session.currentMedia → KeepsPosition w.current v.current := by
  intro hall
  have hkeeps := hall (.rate .MPA .down) .unchanged .unchanged (playingTwo (audio 64000))
    ((playingTwo (audio 64000)).stream_switch 1).2 ERR_NOERROR rfl (by decide) (by decide)
  have hstart : (0 : ℚ) = 1000 := hkeeps.mstart
  norm_num at hstart

end

end Fenice.Intnet
