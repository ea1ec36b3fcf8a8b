import Fenice.H264.AnnexB
import Fenice.Mediainfo.GetFrame
import Mathlib.Data.Rat.Floor

/-!
# A frame of H.264 (read_h264 under get_frame)

The reader of H.264 asks to be called again on every fragment, also on the last one, and
starts the file anew when it has come to its end.
-/

namespace Fenice.H264
open Fenice.Mediainfo Fenice.BufferPool

/-- `me->stat` and `me->h264_time`, a sum of frame times in milliseconds. -/
structure Media where
  static : StaticH264
  file : File
  time : ℚ
  deriving DecidableEq

/-- Room for the timestamp `1000 / frame_rate` later. -/
def Media.tick (frameRate : ℚ) (x : Media) : Media := { x with time := x.time + 1000 / frameRate }

def given (out : Read) (x : Media) : MediaRead Media where
  res := errNoerror
  stored := some out.packet.data
  mtime := ⌊x.time⌋₊
  marker := if out.packet.marker then 1 else 0
  recallme := out.recallme
  state := x

def failed (x : Media) : MediaRead Media where
  res := errEof
  stored := none
  mtime := 0
  marker := 1
  recallme := false
  state := x

/-- `read_h264` with the file of the media; `none`: it leaves its memory. -/
def readMedia (frameRate : ℚ) (x : Media) : Option (MediaRead Media) :=
  if x.static.shardingPacket = h264NotSharding then
    match readNALU x.file with
    | .found header payload file =>
      match read_h264 (some (header, payload)) x.static with
      | some (out, static) => some (given out (Media.tick frameRate ⟨static, file, x.time⟩))
      | none =>
        some (failed { x with
          static := { x.static with n := get_one_NALU_payload header payload }, file := file })
    | .errEof file | .errNotFound file => some (failed { x with file := file })
    | .ran => none
  else
    match read_h264 none x.static with
    | some (out, static) => some (given out { x with static := static })
    | none => some (failed x)

/-- The number of packets for a payload. -/
def fragments (payload : List UInt8) : ℕ :=
  if payload.length ≤ udpMaxSize then 1 else payload.length / udpMaxSize + 1

theorem fragments_pos (payload : List UInt8) : 0 < fragments payload := by
  unfold fragments
  split
  · exact Nat.one_pos
  · exact Nat.succ_pos _

section Calls

variable {B : Type} {ops : SlotOps B} (frameRate : ℚ)

/-- The reader is between two NAL units, and the next one is `header :: payload`. -/
structure Before (x : Media) (header : UInt8) (payload : List UInt8) (file : File) : Prop where
  between : x.static.shardingPacket = h264NotSharding
  next : readNALU x.file = .found header payload file

variable {x : Media} {header : UInt8} {payload : List UInt8} {file : File}

theorem frame_empty (hops : ops.Plentiful) (h : Before x header [] file) (b : B) :
    ∃ b' y, get_frame ops (readMedia frameRate) 1 b x = some (.returned errEof b' y 0) ∧
      y.static.shardingPacket = h264NotSharding ∧ y.file = file := by
  have hr : readMedia frameRate x = some (failed { x with
      static := { x.static with n := get_one_NALU_payload header [] }, file := file }) := by
    simp [readMedia, h.between, h.next, read_h264, get_one_NALU_payload]
  obtain ⟨b', hb⟩ := get_frame_error hops hr (show errEof ≠ errNoerror by decide) rfl b
  exact ⟨b', _, hb 0, h.between, rfl⟩

theorem frame_small (hops : ops.Plentiful) (h : Before x header payload file) (hne : payload ≠ [])
    (hsmall : payload.length ≤ udpMaxSize) (b : B) :
    ∃ b' y, get_frame ops (readMedia frameRate) 1 b x =
        some (.returned errNoerror b' y 1) ∧
      y.static.shardingPacket = h264NotSharding ∧ y.file = file := by
  have hlen : (get_one_NALU_payload header payload).len ≠ 0 :=
    fun he => hne (List.length_eq_zero_iff.mp he)
  have hle : (get_one_NALU_payload header payload).len ≤ udpMaxSize := hsmall
  have hr : ∃ out static, readMedia frameRate x =
      some (given out (Media.tick frameRate ⟨static, file, x.time⟩)) ∧
        out.packet.data ≠ [] ∧ out.recallme = false ∧ static.shardingPacket = h264NotSharding := by
    simp only [readMedia, if_pos h.between, h.next, read_h264, Option.bind_some, if_neg hlen,
      if_pos hle]
    exact ⟨_, _, rfl, by simp, rfl, rfl⟩
  obtain ⟨out, static, hr, hdata, hrecall, hst⟩ := hr
  obtain ⟨b', hb⟩ := get_frame_packet hops hr rfl rfl hdata b
  refine ⟨b', Media.tick frameRate ⟨static, file, x.time⟩, (hb 0).trans ?_, hst, rfl⟩
  simp [given, hrecall]

theorem sharding_ne (header : UInt8) (payload : List UInt8) (i : ℕ) :
    (sharding header payload i).shardingPacket ≠ h264NotSharding := by
  simp [sharding, h264ShardingPacket, h264NotSharding]

theorem readMedia_middle {i : ℕ} (hi : i < payload.length / udpMaxSize)
    (hx : x.static = sharding header payload i) :
    readMedia frameRate x = some (given
      ⟨fragment (get_one_NALU_payload header payload) 0 0 i udpMaxSize false, true⟩
      { x with static := sharding header payload (i + 1) }) := by
  have hread : read_h264 none (sharding header payload i) = some
      (⟨fragment (get_one_NALU_payload header payload) 0 0 i udpMaxSize false, true⟩,
        sharding header payload (i + 1)) := by
    simp [read_h264, sharding, h264ShardingPacket, h264NotSharding, hi]
  rw [readMedia, hx, if_neg (sharding_ne header payload i), hread]

theorem readMedia_last {i : ℕ} (hi : i = payload.length / udpMaxSize)
    (hx : x.static = sharding header payload i) :
    readMedia frameRate x = some (given
      ⟨fragment (get_one_NALU_payload header payload) 0 1 i (payload.length % udpMaxSize) true,
        true⟩
      { x with
        static := { sharding header payload i with shardingPacket := h264NotSharding } }) := by
  have hread : read_h264 none (sharding header payload i) = some
      (⟨fragment (get_one_NALU_payload header payload) 0 1 i (payload.length % udpMaxSize) true,
        true⟩,
        { sharding header payload i with shardingPacket := h264NotSharding }) := by
    simp [read_h264, sharding, h264ShardingPacket, h264NotSharding, hi]
  rw [readMedia, hx, if_neg (sharding_ne header payload i), hread]

theorem readMedia_first (h : Before x header payload file) (hl : udpMaxSize < payload.length) :
    readMedia frameRate x = some (given
      ⟨fragment (get_one_NALU_payload header payload) 1 0 0 udpMaxSize false, true⟩
      (Media.tick frameRate ⟨sharding header payload 1, file, x.time⟩)) := by
  have hread : read_h264 (some (header, payload)) x.static = some
      (⟨fragment (get_one_NALU_payload header payload) 1 0 0 udpMaxSize false, true⟩,
        sharding header payload 1) := by
    have hne : payload.length ≠ 0 := by omega
    have hnot : ¬ payload.length ≤ udpMaxSize := by omega
    have hlen : (get_one_NALU_payload header payload).len = payload.length := rfl
    simp only [read_h264, if_pos h.between, Option.bind_some, hlen, if_neg hne, if_neg hnot]
    rfl
  simp only [readMedia, if_pos h.between, h.next, hread]

/-- The fragments behind the first one; after the last of them too the reader asks to be
called again, and then it looks for the next NAL unit. The induction is on the number of
fragments that are left. -/
theorem frame_fragments (hops : ops.Plentiful) (k i : ℕ) (hi : 0 < i)
    (hk : i + k = payload.length / udpMaxSize) (hx : x.static = sharding header payload i) (b : B) :
    ∃ b' y, (∀ fuel, get_frame ops (readMedia frameRate) (fuel + (k + 1)) b x =
        (get_frame ops (readMedia frameRate) fuel b' y).map (Frame.add (k + 1))) ∧
      y.static.shardingPacket = h264NotSharding ∧ y.file = x.file := by
  induction k generalizing i x b with
  | zero =>
    obtain ⟨b', hb⟩ := get_frame_packet hops (readMedia_last frameRate hk hx) rfl rfl
      (by simp [fragment]) b
    exact ⟨b', _, hb, rfl, rfl⟩
  | succ k ih =>
    obtain ⟨b', hb⟩ := get_frame_packet hops
      (readMedia_middle frameRate (show i < payload.length / udpMaxSize by omega) hx) rfl rfl
      (by simp [fragment]) b
    obtain ⟨b'', y, hrest, hst, hfile⟩ :=
      ih (x := { x with static := sharding header payload (i + 1) }) (i + 1) (by omega) (by omega)
        rfl b'
    refine ⟨b'', y, fun fuel => (hb (fuel + (k + 1))).trans ?_, hst, hfile⟩
    simp only [given, if_true]
    rw [hrest, Option.map_map]
    congr 1
    funext r
    exact (Frame.add_add (k + 1) 1 r).trans (congrArg (fun n => r.add n) (Nat.add_comm ..))

theorem frame_large (hops : ops.Plentiful) (h : Before x header payload file)
    (hl : udpMaxSize < payload.length) (b : B) :
    ∃ b' y, (∀ fuel, get_frame ops (readMedia frameRate) (fuel + fragments payload) b x =
        (get_frame ops (readMedia frameRate) fuel b' y).map (Frame.add (fragments payload))) ∧
      y.static.shardingPacket = h264NotSharding ∧ y.file = file := by
  have hn : 1 ≤ payload.length / udpMaxSize := by
    rw [Nat.one_le_div_iff (by decide)]
    omega
  have hfragments : fragments payload = payload.length / udpMaxSize + 1 := by
    rw [fragments, if_neg (by omega)]
  obtain ⟨b', hb⟩ := get_frame_packet hops (readMedia_first frameRate h hl) rfl rfl
    (by simp [fragment]) b
  obtain ⟨b'', y, hrest, hst, hfile⟩ := frame_fragments frameRate hops
    (x := Media.tick frameRate ⟨sharding header payload 1, file, x.time⟩)
    (payload.length / udpMaxSize - 1) 1 (by omega) (by omega) rfl b'
  rw [Nat.sub_add_cancel hn] at hrest
  refine ⟨b'', y, fun fuel => ?_, hst, hfile⟩
  rw [hfragments, ← Nat.add_assoc, hb]
  simp only [given, if_true]
  rw [hrest, Option.map_map]
  congr 1
  funext r
  exact (Frame.add_add (payload.length / udpMaxSize) 1 r).trans
    (congrArg (fun n => r.add n) (Nat.add_comm ..))

end Calls

/-! ### A file played from its start -/

/-- Some call of `get_frame` returns. -/
def ReturnsFrame (frameRate : ℚ) (b : OMSBuffer) (x : Media) (res : ℤ) (b' : OMSBuffer) (y : Media)
    (commits : ℕ) : Prop :=
  ∃ fuel, get_frame (localOps true) (readMedia frameRate) fuel b x =
    some (.returned res b' y commits)

/-- The buffer and the media before each of the calls. -/
inductive Called (frameRate : ℚ) (b : OMSBuffer) (x : Media) : OMSBuffer → Media → Prop
  | first : Called frameRate b x b x
  | next {b₁ b₂ : OMSBuffer} {x₁ x₂ : Media} {res : ℤ} {commits : ℕ}
      (h : Called frameRate b x b₁ x₁) (hr : ReturnsFrame frameRate b₁ x₁ res b₂ x₂ commits) :
      Called frameRate b x b₂ x₂

/-- A call returns, and commits no more slots than the NAL unit it begins with has fragments. -/
def Prompt (frameRate : ℚ) (b : OMSBuffer) (x : Media) : Prop :=
  ∃ res b' y commits, ReturnsFrame frameRate b x res b' y commits ∧
    ∀ header payload file, readNALU x.file = .found header payload file →
      commits ≤ fragments payload

theorem ReturnsFrame.unique {frameRate : ℚ} {b b₁ b₂ : OMSBuffer} {x y₁ y₂ : Media} {r₁ r₂ : ℤ}
    {k₁ k₂ : ℕ} (h₁ : ReturnsFrame frameRate b x r₁ b₁ y₁ k₁)
    (h₂ : ReturnsFrame frameRate b x r₂ b₂ y₂ k₂) : b₁ = b₂ ∧ y₁ = y₂ ∧ k₁ = k₂ := by
  obtain ⟨f, hf⟩ := h₁
  obtain ⟨g, hg⟩ := h₂
  cases get_frame_unique hf hg
  exact ⟨rfl, rfl, rfl⟩

section File

variable {u : Coded} {us : List Coded} (frameRate : ℚ)

/-- The reader is between two NAL units, before number `i`. -/
structure At (us : List Coded) (i : ℕ) (x : Media) : Prop where
  between : x.static.shardingPacket = h264NotSharding
  file : x.file = before us i

theorem At.before (hfit : Fits u.code (u :: us)) {i : ℕ} {x : Media} (h : At (u :: us) i x) :
    Before x (seenAt (u :: us) i).1 (seenAt (u :: us) i).2 (before (u :: us) (i + 1)) :=
  ⟨h.between, h.file ▸ readNALU_before u us hfit i⟩

theorem call_short (hfit : Fits u.code (u :: us)) {i : ℕ} {x : Media} (h : At (u :: us) i x)
    (hshort : (seenAt (u :: us) i).2.length ≤ udpMaxSize) (b : OMSBuffer) :
    ∃ res b' y k, ReturnsFrame frameRate b x res b' y k ∧ At (u :: us) (i + 1) y ∧
      k = if (seenAt (u :: us) i).2 = [] then 0 else 1 := by
  have hb := h.before hfit
  by_cases hne : (seenAt (u :: us) i).2 = []
  · rw [hne] at hb
    obtain ⟨b', y, hr, hst, hfile⟩ := frame_empty frameRate localOps_plentiful hb b
    exact ⟨_, b', y, 0, ⟨1, hr⟩, ⟨hst, hfile⟩, (if_pos hne).symm⟩
  · obtain ⟨b', y, hr, hst, hfile⟩ :=
      frame_small frameRate localOps_plentiful hb hne hshort b
    exact ⟨_, b', y, 1, ⟨1, hr⟩, ⟨hst, hfile⟩, (if_neg hne).symm⟩

theorem call_large (hfit : Fits u.code (u :: us)) {i : ℕ} {x : Media} (h : At (u :: us) i x)
    (hlarge : udpMaxSize < (seenAt (u :: us) i).2.length) (b : OMSBuffer) :
    ∃ b₁ x₁, At (u :: us) (i + 1) x₁ ∧
      (∀ res b' y k, ReturnsFrame frameRate b₁ x₁ res b' y k →
        ReturnsFrame frameRate b x res b' y (fragments (seenAt (u :: us) i).2 + k)) ∧
      ∀ res b' y k, ReturnsFrame frameRate b x res b' y k → ∃ k',
        ReturnsFrame frameRate b₁ x₁ res b' y k' ∧ k = fragments (seenAt (u :: us) i).2 + k' := by
  obtain ⟨b₁, x₁, hframe, hst, hfile⟩ :=
    frame_large frameRate localOps_plentiful (h.before hfit) hlarge b
  refine ⟨b₁, x₁, ⟨hst, hfile⟩, ?_, ?_⟩
  · rintro res b' y k ⟨fuel, hr⟩
    exact ⟨fuel + fragments (seenAt (u :: us) i).2, by rw [hframe, hr]; rfl⟩
  · rintro res b' y k ⟨fuel, hr⟩
    have hmore := get_frame_mono hr (fragments (seenAt (u :: us) i).2)
    rw [hframe] at hmore
    obtain ⟨r, hr', he⟩ := Option.map_eq_some_iff.mp hmore
    cases r with
    | returned res' b'' y' k' =>
      cases he
      exact ⟨k', ⟨fuel, hr'⟩, rfl⟩
    | crashed => cases he

theorem call_commits (hfit : Fits u.code (u :: us)) {i : ℕ} {x : Media} (h : At (u :: us) i x)
    (hne : (seenAt (u :: us) i).2 ≠ []) {b b' : OMSBuffer} {res : ℤ} {y : Media} {k : ℕ}
    (hr : ReturnsFrame frameRate b x res b' y k) : 0 < k := by
  by_cases hshort : (seenAt (u :: us) i).2.length ≤ udpMaxSize
  · obtain ⟨res', b'', y', k', hr', -, hk⟩ := call_short frameRate hfit h hshort b
    rw [(hr.unique hr').2.2, hk, if_neg hne]
    exact Nat.one_pos
  · obtain ⟨b₁, x₁, -, -, hback⟩ := call_large frameRate hfit h (by omega) b
    obtain ⟨k', -, hk⟩ := hback _ _ _ _ hr
    have := fragments_pos (seenAt (u :: us) i).2
    omega

/-- The payload fits in a packet, or nothing is in the unit behind it. -/
def Calm (us : List Coded) (i : ℕ) : Prop :=
  (seenAt us i).2.length ≤ udpMaxSize ∨ (seenAt us (i + 1)).2 = []

/-- One call at a calm unit: it is prompt, and ends before one of the next two units. -/
theorem call_calm (hfit : Fits u.code (u :: us)) {i : ℕ} {x : Media} (h : At (u :: us) i x)
    (hcalm : Calm (u :: us) i) (b : OMSBuffer) :
    ∃ res b' y k, ReturnsFrame frameRate b x res b' y k ∧ k ≤ fragments (seenAt (u :: us) i).2 ∧
      (At (u :: us) (i + 1) y ∨
        At (u :: us) (i + 2) y ∧ (seenAt (u :: us) (i + 1)).2 = []) := by
  by_cases hshort : (seenAt (u :: us) i).2.length ≤ udpMaxSize
  · obtain ⟨res, b', y, k, hr, hy, hk⟩ := call_short frameRate hfit h hshort b
    refine ⟨res, b', y, k, hr, ?_, Or.inl hy⟩
    rw [hk, fragments, if_pos hshort]
    split <;> omega
  · have hempty : (seenAt (u :: us) (i + 1)).2 = [] := hcalm.resolve_left hshort
    obtain ⟨b₁, x₁, hx₁, hgo, -⟩ := call_large frameRate hfit h (by omega) b
    obtain ⟨res, b', y, k, hr, hy, hk⟩ :=
      call_short frameRate hfit hx₁ (by rw [hempty]; exact Nat.zero_le _) b₁
    rw [if_pos hempty] at hk
    exact ⟨res, b', y, _, hgo _ _ _ _ hr, by omega, Or.inr ⟨hy, hempty⟩⟩

theorem calm_of_prompt (hfit : Fits u.code (u :: us)) {i : ℕ} {x : Media} (h : At (u :: us) i x)
    {b : OMSBuffer} (hp : Prompt frameRate b x) : Calm (u :: us) i := by
  by_contra hnot
  unfold Calm at hnot
  rw [not_or, not_le] at hnot
  obtain ⟨res, b', y, k, hr, hk⟩ := hp
  have hle := hk _ _ _ (h.before hfit).next
  obtain ⟨b₁, x₁, hx₁, -, hback⟩ := call_large frameRate hfit h hnot.1 b
  obtain ⟨k', hr', he⟩ := hback _ _ _ _ hr
  have := call_commits frameRate hfit hx₁ hnot.2 hr'
  omega

/-- Every call of `get_frame` on a file played from its start is prompt exactly if each payload
fits in a packet or is followed by an empty one. -/
theorem prompt_iff (hfit : Fits u.code (u :: us)) (b : OMSBuffer) (x : Media)
    (hbetween : x.static.shardingPacket = h264NotSharding)
    (hfile : x.file = opened (annexB (u :: us))) :
    (∀ b' x', Called frameRate b x b' x' → Prompt frameRate b' x') ↔
      ∀ i, Calm (u :: us) i := by
  have hstart : At (u :: us) 0 x := ⟨hbetween, by rw [hfile]; simp [before, opened, annexB]⟩
  constructor
  · intro hp i
    -- each unit begins a call, or is empty and was met by the call for the unit before
    have hreach : (∃ b' x', Called frameRate b x b' x' ∧ At (u :: us) i x') ∨
        (∃ b' x', Called frameRate b x b' x' ∧ At (u :: us) (i + 1) x') ∧
          (seenAt (u :: us) i).2 = [] := by
      induction i with
      | zero => exact Or.inl ⟨b, x, .first, hstart⟩
      | succ i ih =>
        rcases ih with ⟨b', x', hc, hat⟩ | ⟨hc, -⟩
        · have hcalm := calm_of_prompt frameRate hfit hat (hp b' x' hc)
          obtain ⟨res, b'', y, k, hr, -, hy⟩ := call_calm frameRate hfit hat hcalm b'
          rcases hy with hy | ⟨hy, hempty⟩
          · exact Or.inl ⟨b'', y, .next hc hr, hy⟩
          · exact Or.inr ⟨⟨b'', y, .next hc hr, hy⟩, hempty⟩
        · exact Or.inl hc
    rcases hreach with ⟨b', x', hc, hat⟩ | ⟨-, hempty⟩
    · exact calm_of_prompt frameRate hfit hat (hp b' x' hc)
    · exact Or.inl (by rw [hempty]; exact Nat.zero_le _)
  · intro hcalm b' x' hc
    have hat : ∃ i, At (u :: us) i x' := by
      induction hc with
      | first => exact ⟨0, hstart⟩
      | next hc hr ih =>
        obtain ⟨i, hi⟩ := ih
        obtain ⟨res, b₂, y, k, hr', -, hy⟩ := call_calm frameRate hfit hi (hcalm i) _
        obtain ⟨-, rfl, -⟩ := hr.unique hr'
        rcases hy with hy | ⟨hy, -⟩
        · exact ⟨i + 1, hy⟩
        · exact ⟨i + 2, hy⟩
    obtain ⟨i, hi⟩ := hat
    obtain ⟨res, b'', y, k, hr, hk, -⟩ := call_calm frameRate hfit hi (hcalm i) b'
    refine ⟨res, b'', y, k, hr, ?_⟩
    intro header payload file hnext
    rw [(hi.before hfit).next] at hnext
    cases hnext
    exact hk

theorem get_frame_endless (hfit : Fits u.code (u :: us))
    (hall : ∀ i, udpMaxSize < (seenAt (u :: us) i).2.length) (fuel : ℕ) {i : ℕ} {x : Media}
    (h : At (u :: us) i x) (b : OMSBuffer) :
    get_frame (localOps true) (readMedia frameRate) fuel b x = none := by
  induction fuel using Nat.strongRecOn generalizing i x b with
  | ind fuel ih =>
    obtain ⟨b₁, x₁, hframe, hst, hfile⟩ :=
      frame_large frameRate localOps_plentiful (h.before hfit) (hall i) b
    have hpos := fragments_pos (seenAt (u :: us) i).2
    by_cases hlt : fuel < fragments (seenAt (u :: us) i).2
    · cases hr : get_frame (localOps true) (readMedia frameRate) fuel b x with
      | none => rfl
      | some r =>
        -- the fragments alone take more iterations
        have hmore := get_frame_mono hr (fragments (seenAt (u :: us) i).2 - fuel)
        have hnone := hframe 0
        rw [Nat.zero_add] at hnone
        rw [Nat.add_sub_cancel' hlt.le, hnone] at hmore
        cases hmore
    · have hsplit : fuel = fuel - fragments (seenAt (u :: us) i).2 +
          fragments (seenAt (u :: us) i).2 := by omega
      rw [hsplit, hframe, ih _ (by omega) ⟨hst, hfile⟩]
      rfl

end File

/-- A buffer of one slot, and a reader whose memory is zero. -/
def sampleBuffer : OMSBuffer := ⟨⟨0, 1, 0, 0⟩, fun _ => {}⟩

def sampleMedia (us : List Coded) : Media :=
  ⟨⟨0, ⟨0, 0, 0, 0, []⟩, 0, 0, 0⟩, opened (annexB us), 0⟩

theorem sample_prompt : Prompt 25 sampleBuffer (sampleMedia [sampleSet, sampleSlice]) := by
  refine (@prompt_iff sampleSet [sampleSlice] 25
    ⟨by decide, by unfold Fits; decide⟩ sampleBuffer _ rfl rfl).mpr (fun i => Or.inl ?_) _ _ .first
  change ((seen [sampleSet, sampleSlice]).getD (i % 2) (0, [])).2.length ≤ udpMaxSize
  rcases Nat.mod_two_eq_zero_or_one i with h | h <;> rw [h] <;> decide

theorem slice_no_zero {n : ℕ} {x : UInt8} (h : x ∈ (0x65 : UInt8) :: List.replicate n 0x55) :
    x ≠ 0 := by
  rcases List.mem_cons.mp h with rfl | h
  · decide
  · rw [List.eq_of_mem_replicate h]
    decide

/-- A slice with a payload of `n` bytes. -/
def sliceOf (n : ℕ) : Coded where
  long := false
  unit :=
    { header := 0x65
      payload := List.replicate n 0x55
      no_zeros := fun h => slice_no_zero (h.subset (List.mem_cons_self ..)) rfl
      no_code := fun h => slice_no_zero (h.subset (List.mem_cons_self ..)) rfl
      last_ne := slice_no_zero (List.getLast_mem _) }

theorem sliceOf_fits {n : ℕ} (hn : n + 8 ≤ maxFrameSize) : Fits (sliceOf n).code [sliceOf n] := by
  change (sliceOf n).bytes.length + 1 + (sliceOf n).code.length ≤ maxFrameSize
  have hcode : (sliceOf n).code.length = 3 := rfl
  have hbytes : (sliceOf n).bytes.length = 3 + (n + 1) := by
    rw [Coded.bytes, List.length_append, hcode, Coded.content, List.length_cons, sliceOf,
      List.length_replicate]
  omega

theorem sliceOf_seen (n i : ℕ) : (seenAt [sliceOf n] i).2.length = n + 1 := by
  have hzero : i % [sliceOf n].length = 0 := Nat.mod_one i
  rw [seenAt, hzero]
  simp [seen, sliceOf]

/-- The call for a file of one slice with a payload of 1401 bytes does not return. -/
theorem large_slice_blocks :
    ¬ (∀ b' x', Called 25 sampleBuffer (sampleMedia [sliceOf 1401]) b' x' → Prompt 25 b' x') ∧
      ∀ fuel, get_frame (localOps true) (readMedia 25) fuel sampleBuffer
        (sampleMedia [sliceOf 1401]) = none := by
  have hlarge : ∀ i, udpMaxSize < (seenAt [sliceOf 1401] i).2.length := by
    intro i
    rw [sliceOf_seen]
    decide
  have hat : At [sliceOf 1401] 0 (sampleMedia [sliceOf 1401]) :=
    ⟨rfl, by simp only [before, Nat.zero_mod, List.take_zero]; rfl⟩
  have hnone := fun fuel =>
    get_frame_endless 25 (sliceOf_fits (by decide)) hlarge fuel hat sampleBuffer
  refine ⟨fun h => ?_, hnone⟩
  obtain ⟨res, b', y, k, ⟨fuel, hr⟩, -⟩ := h _ _ .first
  rw [hnone] at hr
  cases hr

end Fenice.H264
