import Fenice.H264.Receiver

/-!
# The H.264 packetizer (read_h264.c)

`read_h264` gives one packet at each call. What `get_one_NALU_payload` finds in
the file is an input, the header byte of the next NAL unit and its payload. A
fresh reader has whatever `malloc` left in its memory.
-/

namespace Fenice.H264

/-- `UDP_MAX_SIZE`, `TYPE_FU_A`, `H264_NOT_SHARDING` and `H264_SHARDING_PACKET`. -/
def udpMaxSize : ℕ := 1400
def typeFuA : ℕ := 28
def h264NotSharding : ℕ := 0
def h264ShardingPacket : ℕ := 1

structure NALU where
  len : ℕ
  forbiddenBit : ℕ
  nalReferenceIdc : ℕ
  nalUnitType : ℕ
  buf : List UInt8
  deriving DecidableEq

structure StaticH264 where
  shardingPacket : ℕ
  n : NALU
  packetNum : ℕ
  lastPacketByte : ℕ
  currentPacket : ℕ
  deriving DecidableEq

/-- What `get_one_NALU_payload` stores; the fields are masked, not shifted. -/
def get_one_NALU_payload (header : UInt8) (payload : List UInt8) : NALU where
  len := payload.length
  forbiddenBit := header.toNat &&& 0x80
  nalReferenceIdc := header.toNat &&& 0x60
  nalUnitType := header.toNat &&& 0x1f
  buf := payload

/-- `FU_indicator`; a value is cut to the width of its bit field. -/
def fuIndicator (f nri type : ℕ) : UInt8 := (f % 2 * 128 + nri % 4 * 32 + type % 32).toUInt8

/-- `FU_header`. -/
def fuHeader (s e r type : ℕ) : UInt8 :=
  (s % 2 * 128 + e % 2 * 64 + r % 2 * 32 + type % 32).toUInt8

structure Read where
  packet : Packet
  recallme : Bool
  deriving DecidableEq

/-- A fragment with `size` bytes of the payload from `1400 * i` on. -/
def fragment (n : NALU) (s e i size : ℕ) (marker : Bool) : Packet where
  data := fuIndicator n.forbiddenBit (n.nalReferenceIdc >>> 5) typeFuA ::
    fuHeader s e 0 n.nalUnitType :: (n.buf.drop (i * 1400)).take size
  marker := marker

/-- `read_h264` with the NAL unit that comes next in the file; `none`: `ERR_EOF`. -/
def read_h264 (next : Option (UInt8 × List UInt8)) (s : StaticH264) : Option (Read × StaticH264) :=
  if s.shardingPacket = h264NotSharding then
    next.bind fun (header, payload) =>
      let n := get_one_NALU_payload header payload
      if n.len = 0 then none
      else if n.len ≤ udpMaxSize then
        let ind := fuIndicator n.forbiddenBit (n.nalReferenceIdc >>> 5) n.nalUnitType
        some (⟨⟨ind :: n.buf, true⟩, false⟩, { s with n, shardingPacket := h264NotSharding })
      else
        some (⟨fragment n 1 0 0 udpMaxSize false, true⟩,
          { n
            shardingPacket := h264ShardingPacket
            packetNum := n.len / udpMaxSize
            lastPacketByte := n.len % udpMaxSize
            currentPacket := 1 })
  else if s.currentPacket < s.packetNum then
    some (⟨fragment s.n 0 0 s.currentPacket udpMaxSize false, true⟩,
      { s with currentPacket := s.currentPacket + 1 })
  else if s.currentPacket = s.packetNum then
    some (⟨fragment s.n 0 1 s.currentPacket s.lastPacketByte true, true⟩,
      { s with shardingPacket := h264NotSharding })
  else none

/-- The packets of the calls up to the one that leaves the reader between two NAL
units; at most `calls` of them. -/
def packets : ℕ → Option (UInt8 × List UInt8) → StaticH264 → List Packet
  | 0, _, _ => []
  | calls + 1, next, s =>
    match read_h264 next s with
    | none => []
    | some (out, s') =>
      if s'.shardingPacket = h264NotSharding then [out.packet]
      else out.packet :: packets calls none s'

/-- The calls for one NAL unit. -/
def packetize (header : UInt8) (payload : List UInt8) (s : StaticH264) : List Packet :=
  packets (payload.length / udpMaxSize + 1) (some (header, payload)) s

/-! ### Header bytes -/

theorem byte_induction {P : UInt8 → Prop} (h : ∀ n : Fin 256, P (UInt8.ofFin n)) (b : UInt8) :
    P b := by
  have := h b.toFin
  simpa using this

/-- The indicator that a call writes for a NAL unit with this header byte. -/
def indicatorOf (header : UInt8) (type : ℕ) : UInt8 :=
  fuIndicator (header.toNat &&& 0x80) ((header.toNat &&& 0x60) >>> 5) type

theorem type_of_header (header : UInt8) : header.toNat &&& 0x1f = nalType header :=
  Nat.and_two_pow_sub_one_eq_mod header.toNat 5

theorem refIdc_of_header (header : UInt8) : (header.toNat &&& 0x60) >>> 5 = refIdc header := by
  induction header using byte_induction
  decide +revert +kernel

theorem fuIndicator_toNat (f nri type : ℕ) :
    (fuIndicator f nri type).toNat = f % 2 * 128 + nri % 4 * 32 + type % 32 :=
  Nat.mod_eq_of_lt (by omega)

theorem fuHeader_toNat (s e r type : ℕ) :
    (fuHeader s e r type).toNat = s % 2 * 128 + e % 2 * 64 + r % 2 * 32 + type % 32 :=
  Nat.mod_eq_of_lt (by omega)

-- 0x80 does not fit a field of one bit, so the forbidden bit is lost
theorem indicatorOf_toNat (header : UInt8) (type : ℕ) :
    (indicatorOf header type).toNat = refIdc header * 32 + type % 32 := by
  have hlost : (header.toNat &&& 0x80) % 2 = 0 := by
    have := @Nat.and_mod_two_pow header.toNat 0x80 1
    simpa using this
  have hidc : refIdc header < 4 := Nat.mod_lt _ (by decide)
  rw [indicatorOf, refIdc_of_header, fuIndicator_toNat, hlost]
  omega

theorem forbidden_indicatorOf (header : UInt8) {type : ℕ} (ht : type < 32) :
    forbidden (indicatorOf header type) = 0 := by
  have hidc : refIdc header < 4 := Nat.mod_lt _ (by decide)
  rw [forbidden, indicatorOf_toNat]
  omega

theorem refIdc_indicatorOf (header : UInt8) {type : ℕ} (ht : type < 32) :
    refIdc (indicatorOf header type) = refIdc header := by
  have hidc : refIdc header < 4 := Nat.mod_lt _ (by decide)
  rw [refIdc, indicatorOf_toNat, Nat.mod_eq_of_lt ht]
  omega

theorem nalType_indicatorOf (header : UInt8) {type : ℕ} (ht : type < 32) :
    nalType (indicatorOf header type) = type := by
  rw [nalType, indicatorOf_toNat]
  omega

theorem header_fields (header : UInt8) (s e : Fin 2) :
    let hdr := fuHeader s e 0 (header.toNat &&& 0x1f)
    isStart hdr = (s == 1) ∧ isEnd hdr = (e == 1) ∧ nalType hdr = nalType header := by
  have hmod : nalType header % 32 = nalType header := Nat.mod_mod _ _
  have hlt : nalType header < 32 := Nat.mod_lt _ (by decide)
  simp only [isStart, isEnd, nalType.eq_1 (fuHeader _ _ _ _), fuHeader_toNat, type_of_header, hmod]
  revert s e
  simp only [Fin.forall_fin_two]
  simp
  omega

theorem join_fields (header : UInt8) :
    (forbidden header * 128 + refIdc header * 32 + nalType header).toUInt8 = header := by
  have hlt : header.toNat < 256 := header.toNat_lt
  have hsum : forbidden header * 128 + refIdc header * 32 + nalType header = header.toNat := by
    unfold forbidden refIdc nalType
    omega
  rw [hsum]
  exact UInt8.ofNat_toNat

theorem nalType_lt (header : UInt8) : nalType header < 32 := Nat.mod_lt _ (by decide)

theorem indicatorOf_type (header : UInt8) :
    indicatorOf header (nalType header) = header ↔ forbidden header = 0 := by
  have hlt : header.toNat < 256 := header.toNat_lt
  have heq : header.toNat = forbidden header * 128 + refIdc header * 32 + nalType header := by
    unfold forbidden refIdc nalType
    omega
  rw [← UInt8.toNat_inj, indicatorOf_toNat, Nat.mod_eq_of_lt (nalType_lt header)]
  omega

/-! ### The fragments of one NAL unit -/

/-- Fragment `i` of a NAL unit whose last fragment is number `n`. -/
def piece (header : UInt8) (payload : List UInt8) (n i : ℕ) : Packet :=
  if i = n then
    fragment (get_one_NALU_payload header payload) 0 1 i (payload.length % udpMaxSize) true
  else fragment (get_one_NALU_payload header payload) (if i = 0 then 1 else 0) 0 i udpMaxSize false

/-- The reader after fragment `i - 1`. -/
def sharding (header : UInt8) (payload : List UInt8) (i : ℕ) : StaticH264 where
  shardingPacket := h264ShardingPacket
  n := get_one_NALU_payload header payload
  packetNum := payload.length / udpMaxSize
  lastPacketByte := payload.length % udpMaxSize
  currentPacket := i

-- induction on the number of calls that are left
theorem packets_sharding (header : UInt8) (payload : List UInt8) (k i : ℕ) (hi : 0 < i)
    (hk : i + k = payload.length / udpMaxSize) :
    packets (k + 1) none (sharding header payload i) =
      (List.range' i (k + 1)).map (piece header payload (payload.length / udpMaxSize)) := by
  induction k generalizing i with
  | zero =>
    have hn : ¬ i < payload.length / udpMaxSize := by omega
    have he : i = payload.length / udpMaxSize := by omega
    simp [packets, read_h264, sharding, h264ShardingPacket, h264NotSharding, piece, ← he]
  | succ k ih =>
    have hn : i < payload.length / udpMaxSize := by omega
    have hp : piece header payload (payload.length / udpMaxSize) i =
        fragment (get_one_NALU_payload header payload) 0 0 i udpMaxSize false := by
      simp [piece, Nat.ne_of_lt hn, Nat.ne_of_gt hi]
    have hr : read_h264 none (sharding header payload i) = some (
        ⟨piece header payload (payload.length / udpMaxSize) i, true⟩,
        sharding header payload (i + 1)) := by
      simp [hp, read_h264, sharding, h264ShardingPacket, h264NotSharding, hn]
    have hs : (sharding header payload (i + 1)).shardingPacket ≠ h264NotSharding := by
      simp [sharding, h264ShardingPacket, h264NotSharding]
    rw [packets, hr, List.range'_succ, List.map_cons, ← ih (i + 1) (by omega) (by omega)]
    simp [hs]

theorem packetize_small (header : UInt8) (payload : List UInt8) (s : StaticH264)
    (hs : s.shardingPacket = h264NotSharding) (hne : payload ≠ [])
    (hl : payload.length ≤ udpMaxSize) :
    packetize header payload s =
      [⟨indicatorOf header (nalType header) :: payload, true⟩] := by
  simp [packetize, packets, read_h264, hs, get_one_NALU_payload, hne, hl, indicatorOf,
    type_of_header]

theorem packetize_large (header : UInt8) (payload : List UInt8) (s : StaticH264)
    (hs : s.shardingPacket = h264NotSharding) (hl : udpMaxSize < payload.length) :
    packetize header payload s =
      (List.range' 0 (payload.length / udpMaxSize + 1)).map
        (piece header payload (payload.length / udpMaxSize)) := by
  have hn : 0 < payload.length / udpMaxSize := Nat.div_pos (Nat.le_of_lt hl) (by decide)
  have hne : payload ≠ [] := by
    rintro rfl
    simp at hl
  obtain ⟨k, hk⟩ : ∃ k, payload.length / udpMaxSize = k + 1 := ⟨_, (Nat.succ_pred_eq_of_pos hn).symm⟩
  have hp : piece header payload (payload.length / udpMaxSize) 0 =
      fragment (get_one_NALU_payload header payload) 1 0 0 udpMaxSize false := by
    simp [piece, Nat.ne_of_lt hn]
  have hr : read_h264 (some (header, payload)) s = some (
      ⟨piece header payload (payload.length / udpMaxSize) 0, true⟩,
      sharding header payload 1) := by
    simp [hp, read_h264, hs, sharding, get_one_NALU_payload, hne, Nat.not_le_of_lt hl]
  have hrest := packets_sharding header payload k 1 (by decide) (by omega)
  have hs1 : (sharding header payload 1).shardingPacket ≠ h264NotSharding := by
    simp [sharding, h264ShardingPacket, h264NotSharding]
  rw [packetize, packets, hr, List.range'_succ, List.map_cons]
  simp only [hs1, if_false]
  rw [hk] at hrest ⊢
  rw [hrest]

theorem nalType_fuIndicator (f nri : ℕ) : nalType (fuIndicator f nri typeFuA) = 28 := by
  simp only [nalType, fuIndicator, typeFuA, Nat.toUInt8, UInt8.toNat_ofNat']
  omega

theorem isStart_fuHeader (e type : ℕ) : isStart (fuHeader 0 e 0 type) = false := by
  simp only [isStart, fuHeader, Nat.toUInt8, UInt8.toNat_ofNat', beq_eq_false_iff_ne]
  omega

theorem packetize_stale (header : UInt8) (payload : List UInt8) (s : StaticH264)
    (hs : s.shardingPacket ≠ h264NotSharding) :
    reassemble (packetize header payload s) = none := by
  have hfrag : ∀ e i size marker rest,
      reassemble (fragment s.n 0 e i size marker :: rest) = none := by
    intro e i size marker rest
    simp [reassemble, fragment, isSingle, nalType_fuIndicator, isStart_fuHeader]
  rw [packetize, packets, read_h264, if_neg hs]
  by_cases hlt : s.currentPacket < s.packetNum
  · simp [hlt, hs, hfrag]
  · by_cases heq : s.currentPacket = s.packetNum
    · simp [heq, hfrag]
    · simp [hlt, heq, reassemble]

theorem drop_drop_take (payload : List UInt8) (i : ℕ) :
    (payload.drop (i * 1400)).take 1400 ++ payload.drop ((i + 1) * 1400) =
      payload.drop (i * 1400) := by
  have : payload.drop ((i + 1) * 1400) = (payload.drop (i * 1400)).drop 1400 := by
    rw [List.drop_drop, Nat.succ_mul]
  rw [this, List.take_append_drop]

theorem piece_data (header : UInt8) (payload : List UInt8) (n i : ℕ) (hn : 0 < n) :
    ∃ hdr, (piece header payload n i).data = indicatorOf header typeFuA :: hdr ::
        (payload.drop (i * 1400)).take (if i = n then payload.length % udpMaxSize else udpMaxSize) ∧
      isStart hdr = decide (i = 0) ∧ isEnd hdr = decide (i = n) ∧ nalType hdr = nalType header := by
  by_cases hin : i = n
  · have hi : i ≠ 0 := by omega
    refine ⟨fuHeader 0 1 0 (header.toNat &&& 0x1f), ?_, ?_⟩
    · rw [piece, if_pos hin, if_pos hin]
      rfl
    · simpa [hin, Nat.ne_of_gt hn] using header_fields header 0 1
  · by_cases hi : i = 0
    · refine ⟨fuHeader 1 0 0 (header.toNat &&& 0x1f), ?_, ?_⟩
      · rw [piece, if_neg hin, if_neg hin, if_pos hi]
        rfl
      · simpa [hin, hi, Nat.ne_of_lt hn] using header_fields header 1 0
    · refine ⟨fuHeader 0 0 0 (header.toNat &&& 0x1f), ?_, ?_⟩
      · rw [piece, if_neg hin, if_neg hin, if_neg hi]
        rfl
      · simpa [hin, hi] using header_fields header 0 0

-- induction on the number of fragments that are left
theorem collect_pieces (header : UInt8) (payload acc : List UInt8) (k i : ℕ) (hi : 0 < i)
    (hk : i + k = payload.length / udpMaxSize) :
    collect acc ((List.range' i (k + 1)).map
        (piece header payload (payload.length / udpMaxSize))) =
      some (acc ++ payload.drop (i * 1400)) := by
  have hfu := @nalType_indicatorOf header typeFuA (by decide)
  induction k generalizing i acc with
  | zero =>
    have he : i = payload.length / udpMaxSize := by omega
    obtain ⟨hdr, hdata, hstart, hend, -⟩ :=
      piece_data header payload (payload.length / udpMaxSize) i (by omega)
    have htake : (payload.drop (i * 1400)).take (payload.length % udpMaxSize) =
        payload.drop (i * 1400) := by
      apply List.take_of_length_le
      simp only [List.length_drop, he, udpMaxSize]
      omega
    rw [if_pos he, htake] at hdata
    rw [decide_eq_false (Nat.ne_of_gt hi)] at hstart
    rw [decide_eq_true he] at hend
    rw [Nat.zero_add, List.range'_one, List.map_singleton, collect]
    simp only [hdata, hfu, hstart, hend]
    simp [typeFuA]
  | succ k ih =>
    have hne : i ≠ payload.length / udpMaxSize := by omega
    obtain ⟨hdr, hdata, hstart, hend, -⟩ :=
      piece_data header payload (payload.length / udpMaxSize) i (by omega)
    rw [if_neg hne] at hdata
    rw [decide_eq_false (Nat.ne_of_gt hi)] at hstart
    rw [decide_eq_false hne] at hend
    have hrest := ih (acc ++ (payload.drop (i * 1400)).take 1400) (i + 1) (by omega) (by omega)
    rw [List.append_assoc, drop_drop_take] at hrest
    rw [List.range'_succ, List.map_cons, collect]
    simp only [hdata, hfu, hstart, hend]
    simpa [typeFuA, udpMaxSize] using hrest

/-! ### The round trip -/

theorem reassemble_small (header : UInt8) (payload : List UInt8) :
    reassemble [⟨indicatorOf header (nalType header) :: payload, true⟩] = some (header :: payload) ↔
      forbidden header = 0 ∧ isSingle header = true := by
  have htype := nalType_indicatorOf header (nalType_lt header)
  have hsingle : isSingle (indicatorOf header (nalType header)) = isSingle header := by
    simp only [isSingle, htype]
  by_cases h : isSingle header = true
  · simp [reassemble, hsingle, h, indicatorOf_type]
  · have hnone : ∀ t, reassemble [⟨indicatorOf header (nalType header) :: t, true⟩] = none := by
      intro t
      cases t <;> simp [reassemble, hsingle, h, collect]
    simp [hnone, h]

theorem reassemble_large (header : UInt8) (payload : List UInt8)
    (hl : udpMaxSize < payload.length) (hf : forbidden header = 0) :
    reassemble ((List.range' 0 (payload.length / udpMaxSize + 1)).map
        (piece header payload (payload.length / udpMaxSize))) = some (header :: payload) := by
  have hn : 0 < payload.length / udpMaxSize := Nat.div_pos (Nat.le_of_lt hl) (by decide)
  have ht : typeFuA < 32 := by decide
  obtain ⟨hdr, hdata, hstart, hend, htype⟩ :=
    piece_data header payload (payload.length / udpMaxSize) 0 hn
  rw [if_neg (Nat.ne_of_lt hn)] at hdata
  rw [decide_eq_true rfl] at hstart
  rw [decide_eq_false (Nat.ne_of_lt hn)] at hend
  obtain ⟨k, hk⟩ : ∃ k, payload.length / udpMaxSize = k + 1 :=
    ⟨_, (Nat.succ_pred_eq_of_pos hn).symm⟩
  have hrest := collect_pieces header payload (payload.take 1400) k 1 (by decide) (by omega)
  rw [List.take_append_drop] at hrest
  have hjoin : joinHeader (indicatorOf header typeFuA) hdr = header := by
    rw [joinHeader, forbidden_indicatorOf header ht, refIdc_indicatorOf header ht, htype, ← hf,
      join_fields]
  have hfu : nalType (indicatorOf header typeFuA) = 28 := nalType_indicatorOf header ht
  rw [List.range'_succ, List.map_cons, reassemble]
  simp only [hdata, isSingle, hfu, hstart, hend]
  rw [hk] at hrest ⊢
  simp only [udpMaxSize, List.drop_zero, Nat.zero_mul] at hrest ⊢
  simp [hjoin, hrest]

theorem piece_body_ne (payload : List UInt8) {i : ℕ} (hi : i ≤ payload.length / udpMaxSize)
    (hmod : payload.length % udpMaxSize ≠ 0) :
    (payload.drop (i * 1400)).take
      (if i = payload.length / udpMaxSize then payload.length % udpMaxSize else udpMaxSize) ≠ [] := by
  have hlen : i * 1400 < payload.length := by
    unfold udpMaxSize at hi hmod
    omega
  have hsize : (if i = payload.length / udpMaxSize then payload.length % udpMaxSize
      else udpMaxSize) ≠ 0 := by
    split
    · exact hmod
    · decide
  simp only [ne_eq, List.take_eq_nil_iff, List.drop_eq_nil_iff, not_or]
  exact ⟨hsize, by omega⟩

theorem piece_isFragment (header : UInt8) (payload : List UInt8) (hf : forbidden header = 0)
    (hmod : payload.length % udpMaxSize ≠ 0) (hn : 0 < payload.length / udpMaxSize) {i : ℕ}
    (hi : i ≤ payload.length / udpMaxSize) :
    ∃ ind hdr body, IsFragment header (payload.length / udpMaxSize + 1) i
      (piece header payload (payload.length / udpMaxSize) i) ind hdr body := by
  have hfu : typeFuA < 32 := by decide
  obtain ⟨hdr, hdata, hstart, hend, htype⟩ :=
    piece_data header payload (payload.length / udpMaxSize) i hn
  exact ⟨indicatorOf header typeFuA, hdr, _, {
    data := hdata
    forbidden_eq := (forbidden_indicatorOf header hfu).trans hf.symm
    refIdc_eq := refIdc_indicatorOf header hfu
    fuA := nalType_indicatorOf header hfu
    type_eq := htype
    start_first := by simp [hstart]
    end_last := by simp [hend]
    marker_last := by
      unfold piece
      split <;> simp [fragment, *]
    body_ne := piece_body_ne payload hi hmod }⟩

theorem Carries.last_nonempty {header : UInt8} {payload : List UInt8} {s : StaticH264}
    (h : Carries udpMaxSize header payload (packetize header payload s))
    (hs : s.shardingPacket = h264NotSharding) (hlt : udpMaxSize < payload.length) :
    payload.length % udpMaxSize ≠ 0 := by
  intro hmod
  have hn : 0 < payload.length / udpMaxSize := Nat.div_pos (Nat.le_of_lt hlt) (by decide)
  rw [packetize_large header payload s hs hlt] at h
  obtain ⟨ind, hdr, body, hlast⟩ := h.fragments hlt (payload.length / udpMaxSize) _ (by simp; rfl)
  obtain ⟨hdr', hdata, -⟩ := piece_data header payload _ (payload.length / udpMaxSize) hn
  have hbody := (List.cons.inj (List.cons.inj (hdata.symm.trans hlast.data)).2).2
  rw [if_pos rfl, hmod, List.take_zero] at hbody
  exact hlast.body_ne hbody.symm

theorem Carries.forbidden_zero {header : UInt8} {payload : List UInt8} {s : StaticH264}
    (h : Carries udpMaxSize header payload (packetize header payload s))
    (hs : s.shardingPacket = h264NotSharding) (hlt : udpMaxSize < payload.length) :
    forbidden header = 0 := by
  have hn : 0 < payload.length / udpMaxSize := Nat.div_pos (Nat.le_of_lt hlt) (by decide)
  rw [packetize_large header payload s hs hlt] at h
  obtain ⟨ind, hdr, body, hfirst⟩ := h.fragments hlt 0 _ (by simp; rfl)
  obtain ⟨hdr', hdata, -⟩ := piece_data header payload (payload.length / udpMaxSize) 0 hn
  have hind : indicatorOf header typeFuA = ind :=
    (List.cons.inj (hdata.symm.trans hfirst.data)).1
  rw [← hfirst.forbidden_eq, ← hind, forbidden_indicatorOf header (by decide)]

/-- The packets carry the NAL unit unless the forbidden bit is set, the type is not
one of a single NAL unit packet or the last fragment comes out empty. -/
theorem packetize_carries (header : UInt8) (payload : List UInt8) (s : StaticH264)
    (hne : payload ≠ []) :
    Carries udpMaxSize header payload (packetize header payload s) ↔
      s.shardingPacket = h264NotSharding ∧ forbidden header = 0 ∧
        (payload.length ≤ udpMaxSize → isSingle header = true) ∧
        (udpMaxSize < payload.length → payload.length % udpMaxSize ≠ 0) := by
  constructor
  · intro h
    have hs : s.shardingPacket = h264NotSharding := by
      by_contra hs
      have hre := h.reassembled
      rw [packetize_stale header payload s hs] at hre
      cases hre
    by_cases hl : payload.length ≤ udpMaxSize
    · have hre := h.reassembled
      rw [packetize_small header payload s hs hne hl, reassemble_small] at hre
      exact ⟨hs, hre.1, fun _ => hre.2, fun hlt => absurd hl (Nat.not_le_of_lt hlt)⟩
    · have hlt := Nat.lt_of_not_le hl
      exact ⟨hs, h.forbidden_zero hs hlt, fun hle => absurd hle hl, h.last_nonempty hs⟩
  · rintro ⟨hs, hf, hsingle, hmod⟩
    by_cases hl : payload.length ≤ udpMaxSize
    · rw [packetize_small header payload s hs hne hl]
      exact ⟨(reassemble_small header payload).mpr ⟨hf, hsingle hl⟩, fun _ => rfl,
        fun hlt => absurd hl (Nat.not_le_of_lt hlt)⟩
    · have hlt : udpMaxSize < payload.length := Nat.lt_of_not_le hl
      have hn : 0 < payload.length / udpMaxSize := Nat.div_pos (Nat.le_of_lt hlt) (by decide)
      rw [packetize_large header payload s hs hlt]
      refine ⟨reassemble_large header payload hlt hf, fun hle => absurd hle hl, ?_⟩
      intro _ i p hp
      simp only [List.getElem?_map, List.length_map, List.length_range',
        Option.map_eq_some_iff] at hp ⊢
      obtain ⟨j, hj, rfl⟩ := hp
      obtain ⟨hi, rfl⟩ : i < payload.length / udpMaxSize + 1 ∧ i = j := by
        simpa [List.getElem?_eq_some_iff] using hj
      exact piece_isFragment header payload hf (hmod hlt) hn (by omega)

theorem packetize_carries_odd :
    Carries udpMaxSize 0x65 (List.replicate 1401 7)
      (packetize 0x65 (List.replicate 1401 7) ⟨0, ⟨0, 0, 0, 0, []⟩, 0, 0, 0⟩) := by
  have hlen : (List.replicate 1401 (7 : UInt8)).length = 1401 := List.length_replicate
  refine (packetize_carries 0x65 (List.replicate 1401 7) _ ?_).mpr ⟨rfl, rfl, fun _ => rfl, ?_⟩
  · rw [← List.length_pos_iff, hlen]
    decide
  · rw [hlen]
    decide

-- the payload of 2800 bytes fills two fragments and the third is empty
theorem packetize_empty_last :
    ¬ Carries udpMaxSize 0x65 (List.replicate 2800 7)
      (packetize 0x65 (List.replicate 2800 7) ⟨0, ⟨0, 0, 0, 0, []⟩, 0, 0, 0⟩) := by
  intro h
  have hlen : (List.replicate 2800 (7 : UInt8)).length = 2800 := List.length_replicate
  have hmod := h.last_nonempty rfl (by rw [hlen]; decide)
  rw [hlen] at hmod
  exact hmod rfl

end Fenice.H264
